import BibiCore.Base.ListUpdate
import BibiCore.Base.PosixPath
import BibiCore.Engine.Manager

/-!
# Where the engines are loaded from

The name guard of `_get_or_load`, and `resolve_path` of `stt/engines/whispercpp_engine.py` and
`tts/engines/piper_engine.py`. A name comes from a request; the file it is resolved to is one of
the configured directory.
-/

namespace BibiCore.Engine

open PyStr

section

variable {F : Type*}

/-- `WhisperCppEngine.resolve_path`, `stt/engines/whispercpp_engine.py:20`. -/
def WhisperCppEngine.resolvePath (fs : FileSystem F) (directory : PosixPath) (name : String) :
    Except EngineError PosixPath :=
  let modelPath := directory.joinpath (name ++ ".bin").toList
  if fs.isFile modelPath then .ok modelPath else .error (.modelNotFound name)

/-- `PiperEngine.resolve_path`, `tts/engines/piper_engine.py:21`. -/
def PiperEngine.resolvePath (fs : FileSystem F) (directory : PosixPath) (name : String) :
    Except EngineError PosixPath :=
  let voicePath := directory.joinpath name.toList
  if fs.isFile voicePath then
    let jsonPath := PosixPath.parse (voicePath.str ++ ".json".toList)
    if fs.pathExists jsonPath then .ok voicePath
    else .error (.voiceNotFound ("Missing voice config: " ++ String.ofList jsonPath.str))
  else .error (.voiceNotFound ("Voice not found: " ++ String.ofList voicePath.str))

/-- `resolve_path` of the service's engine. -/
def resolvePath (service : Service) (fs : FileSystem F) (directory : PosixPath) (name : String) :
    Except EngineError PosixPath :=
  match service with
  | .stt => WhisperCppEngine.resolvePath fs directory name
  | .tts => PiperEngine.resolvePath fs directory name

/-- The file of a model or voice. -/
def fileName (service : Service) (name : String) : Str :=
  match service with
  | .stt => (name ++ ".bin").toList
  | .tts => name.toList

end

/-! ### The name guard -/

/-- `pathName` is the name of the parsed path. -/
theorem pathName_eq (path : String) :
    pathName path = String.ofList (PosixPath.parse path.toList).name := by
  rw [pathName, PosixPath.name, PosixPath.parts_parse, PosixPath.components]

/-- The guard lets a name pass that is one component. -/
theorem pathName_eq_self_iff_isPathPart {name : String} (h : name ≠ "") :
    pathName name = name ↔ IsPathPart name.toList := by
  have hne : name.toList ≠ [] := by simpa using h
  rw [← PosixPath.name_parse_eq_self_iff hne, pathName_eq, ← String.toList_inj,
    String.toList_ofList]

/-- The guard lets a name pass that has no slash and is not `.`. -/
theorem pathName_eq_self_iff {name : String} (h : name ≠ "") :
    pathName name = name ↔ '/' ∉ name.toList ∧ name ≠ "." := by
  have hne : name.toList ≠ [] := by simpa using h
  have hdot : name.toList = ".".toList ↔ name = "." := String.toList_inj
  rw [pathName_eq_self_iff_isPathPart h, IsPathPart]
  tauto

/-- Neither provider's file name is more than one component. -/
theorem isPathPart_fileName (service : Service) {name : String} (h : IsPathPart name.toList) :
    IsPathPart (fileName service name) := by
  cases service with
  | tts => exact h
  | stt =>
    rw [fileName, String.toList_append]
    exact h.append (by decide)

/-! ### The files -/

section

variable {F : Type*} {fs : FileSystem F} {directory path : PosixPath} {name : String}

private theorem checked_eq_ok_iff {α : Type*} {p : Prop} [Decidable p]
    {result : Except EngineError α} {error : EngineError} {a : α} :
    (if p then result else .error error) = .ok a ↔ p ∧ result = .ok a := by
  split
  · next hp => simp [hp]
  · next hp => simp [hp]

/-- A model is found where the directory has its file. -/
theorem WhisperCppEngine.resolvePath_eq_ok_iff (h : IsPathPart name.toList) :
    WhisperCppEngine.resolvePath fs directory name = .ok path ↔
      path = directory.child (fileName .stt name) (isPathPart_fileName .stt h) ∧
        fs.isFile path = true := by
  have hjoin : directory.joinpath (name ++ ".bin").toList =
      directory.child (fileName .stt name) (isPathPart_fileName .stt h) :=
    directory.joinpath_of_isPathPart (isPathPart_fileName .stt h)
  simp only [WhisperCppEngine.resolvePath, hjoin]
  rw [checked_eq_ok_iff, Except.ok.injEq]
  constructor
  · rintro ⟨hf, rfl⟩
    exact ⟨rfl, hf⟩
  · rintro ⟨rfl, hf⟩
    exact ⟨hf, rfl⟩

/-- A voice is found where the directory has its file and, beside it, its configuration. -/
theorem PiperEngine.resolvePath_eq_ok_iff (h : IsPathPart name.toList) :
    PiperEngine.resolvePath fs directory name = .ok path ↔
      path = directory.child (fileName .tts name) (isPathPart_fileName .tts h) ∧
        fs.isFile path = true ∧
        fs.pathExists (directory.child (name.toList ++ ".json".toList) (h.append (by decide))) =
          true := by
  have hjoin : directory.joinpath name.toList =
      directory.child (fileName .tts name) (isPathPart_fileName .tts h) :=
    directory.joinpath_of_isPathPart h
  have hjson : PosixPath.parse ((directory.child (fileName .tts name)
      (isPathPart_fileName .tts h)).str ++ ".json".toList) =
        directory.child (name.toList ++ ".json".toList) (h.append (by decide)) := by
    rw [directory.str_child_append (isPathPart_fileName .tts h) (h.append (by decide)),
      PosixPath.parse_str]
    rfl
  simp only [PiperEngine.resolvePath, hjoin, hjson]
  rw [checked_eq_ok_iff, checked_eq_ok_iff, Except.ok.injEq]
  constructor
  · rintro ⟨hf, hj, rfl⟩
    exact ⟨rfl, hf, hj⟩
  · rintro ⟨rfl, hf, hj⟩
    exact ⟨hf, hj, rfl⟩

/-- What a provider resolves a name to that passes the guard. -/
theorem liesIn_of_resolvePath {service : Service} (h : IsPathPart name.toList)
    (hr : resolvePath service fs directory name = .ok path) :
    path = directory.child (fileName service name) (isPathPart_fileName service h) ∧
      fs.LiesIn path directory (fileName service name) := by
  have hfile : path = directory.child (fileName service name) (isPathPart_fileName service h) ∧
      fs.isFile path = true := by
    cases service with
    | stt => exact (WhisperCppEngine.resolvePath_eq_ok_iff h).mp hr
    | tts =>
      obtain ⟨hpath, hf, -⟩ := (PiperEngine.resolvePath_eq_ok_iff h).mp hr
      exact ⟨hpath, hf⟩
  obtain ⟨rfl, hf⟩ := hfile
  exact ⟨rfl, FileSystem.liesIn_of_isFile_child _ hf⟩

end

/-! ### The names that reach the constructor -/

/-- A caller that is past the guard and has no engine yet asks for a name that passes it. -/
def Caller.Guarded : Caller → Prop
  | .lookup _ name | .load _ name => pathName name = name
  | _ => True

private theorem Caller.guarded_obtained (use : Use) (name : String) (engine : EngineId) :
    (Caller.obtained use name engine).Guarded := by
  cases use <;> trivial

/-- Every engine is constructed for a name that passes the guard. -/
theorem EngineManager.guarded_of_reachable {cfg : Config} {w : EngineManager}
    (h : (system cfg).Reachable w) :
    (∀ caller ∈ w.callers, caller.Guarded) ∧ ∀ name ∈ w.built, pathName name = name := by
  refine TransitionSystem.Reachable.invariant (I := fun w : EngineManager ↦
    (∀ caller ∈ w.callers, caller.Guarded) ∧ ∀ name ∈ w.built, pathName name = name) ?_ ?_ h
  · exact ⟨fun _ hmem ↦ absurd hmem List.not_mem_nil, fun _ hmem ↦ absurd hmem List.not_mem_nil⟩
  · rintro w a w' - ⟨hcallers, hbuilt⟩ hstep
    have hset {i : Nat} {c : Caller} (hc : c.Guarded) :
        ∀ caller ∈ w.callers.set i c, caller.Guarded :=
      List.forall_mem_set hcallers hc
    cases managerStep_of_step hstep with
    | call use model =>
      refine ⟨List.forall_mem_concat hcallers ?_, hbuilt⟩
      split
      · next hguard => exact hguard
      · trivial
    | hit i use name engine hc he => exact ⟨hset (Caller.guarded_obtained use name engine), hbuilt⟩
    | miss i use name hc he =>
      have hguard : pathName name = name := hcallers _ (List.mem_of_getElem? hc)
      exact ⟨hset hguard, hbuilt⟩
    | loaded i use name hc =>
      have hguard : pathName name = name := hcallers _ (List.mem_of_getElem? hc)
      exact ⟨hset trivial, List.forall_mem_concat hbuilt hguard⟩
    | inserted i use name engine engine' hc he =>
      exact ⟨hset (Caller.guarded_obtained use name engine'), hbuilt⟩
    | loadFailed | counted | released | lost => exact ⟨hset trivial, hbuilt⟩
    | unload => exact ⟨hcallers, hbuilt⟩

/-- The name guard of `_get_or_load` lets a name pass if and only if it has no slash and is not
`.`; and an engine that is constructed for a name gets a path that is the directory extended by one
component, the file of that name, and that file lies in the directory. -/
theorem engines_liesIn (cfg : Config) :
    (∀ name : String, name ≠ "" →
      (pathName name = name ↔ '/' ∉ name.toList ∧ name ≠ ".")) ∧
    ∀ as w, (system cfg).run as = some w → ∀ name ∈ w.built, name ≠ "" →
      ∀ (F : Type) (fs : FileSystem F) (directory path : PosixPath),
        resolvePath cfg.service fs directory name = .ok path →
          path.root = directory.root ∧
            path.parts = directory.parts ++ [fileName cfg.service name] ∧
            fs.LiesIn path directory (fileName cfg.service name) := by
  refine ⟨fun name ↦ pathName_eq_self_iff, fun as w hrun name hmem hne F fs directory path hr ↦ ?_⟩
  have hguard : pathName name = name :=
    (EngineManager.guarded_of_reachable (TransitionSystem.reachable_of_run hrun)).2 name hmem
  obtain ⟨rfl, hlies⟩ := liesIn_of_resolvePath ((pathName_eq_self_iff_isPathPart hne).mp hguard) hr
  exact ⟨rfl, rfl, hlies⟩

/-- A directory `models` with the file `base.bin`, in the working directory. -/
def modelFiles : FileSystem Nat where
  root := 0
  cwd := 0
  kind file := if file = 2 then .regular else .directory
  entry
    | 0, part => if part = "models".toList then some 1 else none
    | 1, part => if part = "base.bin".toList then some 2 else none
    | _, _ => none
  parent _ := 0
  kind_parent _ := nofun

/-- The name of the directory above passes the guard, and reaches no file. -/
example : pathName ".." = ".." ∧
    resolvePath .tts modelFiles (PosixPath.parse "models".toList) ".." =
      .error (.voiceNotFound "Voice not found: models/..") := by decide

/-- The file of a model in a configured directory that is written with needless slashes. -/
theorem engines_liesIn_base : ∃ w : EngineManager, w.built = ["base"] ∧
    ∃ path, path.str = "models/base.bin".toList ∧
      modelFiles.LiesIn path (PosixPath.parse "./models//".toList) "base.bin".toList := by
  have hw : ∃ w, (system ⟨.stt, "base", 1⟩).run ([Action.call .get none] ++ loadActions 0) =
      some w ∧ w.built = ["base"] := ⟨_, rfl, by decide⟩
  have hpath : ∃ path, resolvePath .stt modelFiles (PosixPath.parse "./models//".toList) "base" =
      .ok path ∧ path.str = "models/base.bin".toList := ⟨_, rfl, by decide⟩
  obtain ⟨w, hrun, hbuilt⟩ := hw
  obtain ⟨path, hr, hstr⟩ := hpath
  exact ⟨w, hbuilt, path, hstr, ((engines_liesIn ⟨.stt, "base", 1⟩).2 _ w hrun "base"
    (hbuilt ▸ List.mem_singleton_self _) (by decide) Nat modelFiles _ path hr).2.2⟩

end BibiCore.Engine
