import BibiCore.Base.LruCache
import BibiCore.Base.TransitionSystem

/-!
# The engine managers

`stt/engine_manager.py` and `tts/engine_manager.py`, which differ in their errors and in that
only the latter has `unload`. Callers interleave at the sections that hold `_lock` and at the
load between them. An engine is the number of the construction that made it.
-/

namespace BibiCore.Engine

/-- The two services that have an `EngineManager`. -/
inductive Service where
  | stt
  | tts
  deriving DecidableEq

/-- What a manager is constructed with. -/
structure Config where
  service : Service
  defaultModel : String
  maxLoaded : Int
  deriving DecidableEq

/-- `model or self._default_model`: an empty name counts as none. -/
def Config.modelOrDefault (cfg : Config) (model : Option String) : String :=
  match model with
  | none | some "" => cfg.defaultModel
  | some name => name

/-- An exception that leaves `_get_or_load` or an acquire block's bookkeeping. -/
inductive EngineError where
  | modelNotFound (model : String)
  | voiceNotFound (message : String)
  | loadFailed (message : String)
  | keyError (key : String)
  deriving DecidableEq

/-- `Path(path).name` on POSIX. -/
def pathName (path : String) : String :=
  let parts := (path.toList.splitOn '/').filter fun part ↦ part ≠ [] ∧ part ≠ ['.']
  String.ofList (parts.getLast?.getD [])

/-- What the name guard of `_get_or_load` raises. -/
def nameError (service : Service) (name : String) : EngineError :=
  match service with
  | .stt => .modelNotFound name
  | .tts => .voiceNotFound s!"Voice not found: {name}"

abbrev EngineId := Nat

/-- `_engines`; the newest entry stands in front. -/
abbrev Engines := LruCache String EngineId

/-- `_ref_counts`. -/
abbrev RefCounts := AList fun _ : String ↦ Int

/-- `_ref_counts.get(name, 0)`. -/
def RefCounts.get (counts : RefCounts) (name : String) : Int := (AList.lookup name counts).getD 0

/-- Who runs `_get_or_load`: `acquire_engine` and `aacquire_engine`, or `get_engine`. A cancelled
`aacquire_engine` leaves its load running, which then ends like `get_engine`'s. -/
inductive Use where
  | acquire
  | get
  deriving DecidableEq

/-- Where a caller stands. -/
inductive Caller where
  /-- at the first locked section of `_get_or_load` -/
  | lookup (use : Use) (name : String)
  /-- at `resolve_path` and the constructor, without the lock -/
  | load (use : Use) (name : String)
  /-- at the second locked section of `_get_or_load`, with the engine it constructed -/
  | insert (use : Use) (name : String) (engine : EngineId)
  /-- `_get_or_load` has returned to the acquire block's entry, the count is still to come -/
  | count (name : String) (engine : EngineId)
  /-- inside the acquire block -/
  | holding (name : String) (engine : EngineId)
  /-- the acquire block has been left -/
  | released
  /-- `get_engine` has returned -/
  | returned (name : String) (engine : EngineId)
  | raised (error : EngineError)
  deriving DecidableEq

/-- The caller after `_get_or_load` returned. -/
def Caller.obtained (use : Use) (name : String) (engine : EngineId) : Caller :=
  match use with
  | .acquire => .count name engine
  | .get => .returned name engine

/-- The name an acquirer has been given an engine for and not counted yet. -/
def Caller.uncounted? : Caller → Option String
  | .count name _ => some name
  | _ => none

/-- The engine of an acquirer that `_get_or_load` has returned to and that has not released. -/
def Caller.engine? : Caller → Option (String × EngineId)
  | .count name engine | .holding name engine => some (name, engine)
  | _ => none

/-- The caller is inside an acquire block for the name. -/
def Caller.holds (name : String) : Caller → Bool
  | .holding name' _ => name' = name
  | _ => false

/-- An `EngineManager` with everyone who has called it. `built` lists the names that engines
were constructed for. -/
structure EngineManager where
  engines : Engines
  refCounts : RefCounts
  callers : List Caller
  built : List String

/-- One call, or one locked section or load of caller `i`. -/
inductive Action where
  | call (use : Use) (model : Option String)
  | lookup (i : Nat)
  /-- `none`: `resolve_path` and the constructor succeed -/
  | load (i : Nat) (failure : Option EngineError)
  | insert (i : Nat)
  | count (i : Nat)
  /-- the body of the acquire block returns or raises -/
  | release (i : Nat)
  | unload (name : String)
  deriving DecidableEq

/-- `_evict_if_over_capacity`, `stt/engine_manager.py:115`, `tts/engine_manager.py:132`. -/
def evictIfOverCapacity (cfg : Config) (counts : RefCounts) (protect : Option String)
    (engines : Engines) : Engines :=
  engines.sweep cfg.maxLoaded fun name ↦ protect = some name ∨ 0 < counts.get name

namespace EngineManager

/-- `_engines` after the second locked section of `_get_or_load`, `stt/engine_manager.py:98`. -/
def enginesAfterInsert (cfg : Config) (w : EngineManager) (name : String) (engine : EngineId) :
    Engines :=
  let engines := if name ∈ w.engines then w.engines else w.engines.insert name engine
  evictIfOverCapacity cfg w.refCounts (some name) (LruCache.moveToEnd engines name)

/-- `_ref_counts` after a release that found the count `n`. -/
def countsAfterRelease (w : EngineManager) (name : String) (n : Int) : RefCounts :=
  if n - 1 ≤ 0 then AList.erase name w.refCounts else AList.insert name (n - 1) w.refCounts

/-- `_engines` after a release that leaves `counts`, `stt/engine_manager.py:65`. -/
def enginesAfterRelease (cfg : Config) (w : EngineManager) (counts : RefCounts) : Engines :=
  evictIfOverCapacity cfg counts none w.engines

/-- `_engines` after `unload`, `tts/engine_manager.py:150`. -/
def enginesAfterUnload (w : EngineManager) (name : String) : Engines :=
  if 0 < w.refCounts.get name then w.engines else w.engines.erase name

/-- A call: the name guard of `_get_or_load` runs before its first locked section. -/
def call (cfg : Config) (w : EngineManager) (use : Use) (model : Option String) : EngineManager :=
  let name := cfg.modelOrDefault model
  let caller := if pathName name = name then .lookup use name
    else .raised (nameError cfg.service name)
  { w with callers := w.callers ++ [caller] }

/-- One step of the manager. -/
def step (cfg : Config) (w : EngineManager) : Action → Option EngineManager
  | .call use model => some (w.call cfg use model)
  | .lookup i =>
    match w.callers[i]? with
    | some (.lookup use name) =>
      match w.engines.lookup name with
      | some engine =>
        some { w with
          engines := LruCache.moveToEnd w.engines name
          callers := w.callers.set i (.obtained use name engine) }
      | none => some { w with callers := w.callers.set i (.load use name) }
    | _ => none
  | .load i failure =>
    match w.callers[i]? with
    | some (.load use name) =>
      match failure with
      | none =>
        some { w with
          callers := w.callers.set i (.insert use name w.built.length)
          built := w.built ++ [name] }
      | some error => some { w with callers := w.callers.set i (.raised error) }
    | _ => none
  | .insert i =>
    match w.callers[i]? with
    | some (.insert use name engine) =>
      let engines := w.enginesAfterInsert cfg name engine
      let caller := match engines.lookup name with
        | some engine => .obtained use name engine
        | none => .raised (.keyError name)
      some { w with engines := engines, callers := w.callers.set i caller }
    | _ => none
  | .count i =>
    match w.callers[i]? with
    | some (.count name engine) =>
      some { w with
        refCounts := AList.insert name (w.refCounts.get name + 1) w.refCounts
        callers := w.callers.set i (.holding name engine) }
    | _ => none
  | .release i =>
    match w.callers[i]? with
    | some (.holding name _) =>
      match AList.lookup name w.refCounts with
      | some n =>
        let counts := w.countsAfterRelease name n
        some { w with
          engines := w.enginesAfterRelease cfg counts
          refCounts := counts
          callers := w.callers.set i .released }
      | none => some { w with callers := w.callers.set i (.raised (.keyError name)) }
    | _ => none
  | .unload name =>
    match cfg.service with
    | .tts => some { w with engines := w.enginesAfterUnload name }
    | .stt => none

/-! ### What a step of the manager can do -/

/-- The sweep of an insertion passes over the inserted name. -/
theorem mem_enginesAfterInsert (cfg : Config) (w : EngineManager) (name : String)
    (engine : EngineId) : name ∈ w.enginesAfterInsert cfg name engine := by
  unfold enginesAfterInsert evictIfOverCapacity
  apply LruCache.mem_sweep
  · rw [LruCache.mem_moveToEnd]
    split
    · next h => exact h
    · exact (AList.mem_insert _).mpr (.inl rfl)
  · simp

/-- Every step of the manager, with the conditions under which it is taken. -/
inductive ManagerStep (cfg : Config) (w : EngineManager) : Action → EngineManager → Prop
  | call (use : Use) (model : Option String) :
      ManagerStep cfg w (.call use model) (w.call cfg use model)
  | hit (i : Nat) (use : Use) (name : String) (engine : EngineId)
      (hc : w.callers[i]? = some (.lookup use name)) (he : w.engines.lookup name = some engine) :
      ManagerStep cfg w (.lookup i) { w with
        engines := LruCache.moveToEnd w.engines name
        callers := w.callers.set i (.obtained use name engine) }
  | miss (i : Nat) (use : Use) (name : String) (hc : w.callers[i]? = some (.lookup use name))
      (he : w.engines.lookup name = none) :
      ManagerStep cfg w (.lookup i) { w with callers := w.callers.set i (.load use name) }
  | loaded (i : Nat) (use : Use) (name : String) (hc : w.callers[i]? = some (.load use name)) :
      ManagerStep cfg w (.load i none) { w with
        callers := w.callers.set i (.insert use name w.built.length)
        built := w.built ++ [name] }
  | loadFailed (i : Nat) (use : Use) (name : String) (error : EngineError)
      (hc : w.callers[i]? = some (.load use name)) :
      ManagerStep cfg w (.load i (some error)) { w with callers := w.callers.set i (.raised error) }
  | inserted (i : Nat) (use : Use) (name : String) (engine engine' : EngineId)
      (hc : w.callers[i]? = some (.insert use name engine))
      (he : (w.enginesAfterInsert cfg name engine).lookup name = some engine') :
      ManagerStep cfg w (.insert i) { w with
        engines := w.enginesAfterInsert cfg name engine
        callers := w.callers.set i (.obtained use name engine') }
  | counted (i : Nat) (name : String) (engine : EngineId)
      (hc : w.callers[i]? = some (.count name engine)) :
      ManagerStep cfg w (.count i) { w with
        refCounts := AList.insert name (w.refCounts.get name + 1) w.refCounts
        callers := w.callers.set i (.holding name engine) }
  | released (i : Nat) (name : String) (engine : EngineId) (n : Int)
      (hc : w.callers[i]? = some (.holding name engine))
      (hn : AList.lookup name w.refCounts = some n) :
      ManagerStep cfg w (.release i) { w with
        engines := w.enginesAfterRelease cfg (w.countsAfterRelease name n)
        refCounts := w.countsAfterRelease name n
        callers := w.callers.set i .released }
  | lost (i : Nat) (name : String) (engine : EngineId)
      (hc : w.callers[i]? = some (.holding name engine))
      (hn : AList.lookup name w.refCounts = none) :
      ManagerStep cfg w (.release i)
        { w with callers := w.callers.set i (.raised (.keyError name)) }
  | unload (name : String) (hs : cfg.service = .tts) :
      ManagerStep cfg w (.unload name) { w with engines := w.enginesAfterUnload name }

/-- The manager does nothing else. -/
theorem managerStep_of_step {cfg : Config} {w w' : EngineManager} {a : Action}
    (h : w.step cfg a = some w') : ManagerStep cfg w a w' := by
  cases a with
  | call use model =>
    cases h
    exact .call use model
  | lookup i =>
    simp only [step] at h
    split at h
    · next use name hc =>
      split at h <;> cases h
      · next engine he => exact .hit i use name engine hc he
      · next he => exact .miss i use name hc he
    · cases h
  | load i failure =>
    simp only [step] at h
    split at h
    · next use name hc =>
      split at h <;> cases h
      · exact .loaded i use name hc
      · next error => exact .loadFailed i use name error hc
    · cases h
  | insert i =>
    simp only [step] at h
    split at h
    · next use name engine hc =>
      obtain ⟨engine', he⟩ := Option.isSome_iff_exists.mp
        (AList.lookup_isSome.mpr (mem_enginesAfterInsert cfg w name engine))
      rw [he] at h
      cases h
      exact .inserted i use name engine engine' hc he
    · cases h
  | count i =>
    simp only [step] at h
    split at h
    · next name engine hc =>
      cases h
      exact .counted i name engine hc
    · cases h
  | release i =>
    simp only [step] at h
    split at h
    · next name engine hc =>
      split at h <;> cases h
      · next n hn => exact .released i name engine n hc hn
      · next hn => exact .lost i name engine hc hn
    · cases h
  | unload name =>
    simp only [step] at h
    split at h <;> cases h
    next hs => exact .unload name hs

end EngineManager

/-- A manager from its constructor on. -/
def system (cfg : Config) : TransitionSystem EngineManager Action where
  init := ⟨∅, ∅, [], []⟩
  step := EngineManager.step cfg

/-- `_get_or_load` of caller `i` for a name that is not cached. -/
def loadActions (i : Nat) : List Action := [.lookup i, .load i none, .insert i]

end BibiCore.Engine
