import BibiCore.Base.ListUpdate
import BibiCore.Engine.Holders

/-!
# Which instance a call returns

`_get_or_load`, `stt/engine_manager.py:82` and `tts/engine_manager.py:99`, loads outside the lock,
so that several instances of one name can exist at once. A call returns the one that the cache has
at the end of its last locked section; two calls for one name return different instances only when
the name was taken out of the cache in between; and an instance that comes too late to its second
locked section is returned to nobody.
-/

namespace BibiCore.Engine

/-- A return of `_get_or_load`: the caller, its name and the engine it is given. -/
structure Return where
  caller : Nat
  name : String
  engine : EngineId
  deriving DecidableEq

/-- The name and the engine that `_get_or_load` has given the caller. -/
def Caller.given? : Caller → Option (String × EngineId)
  | .count name engine | .holding name engine | .returned name engine => some (name, engine)
  | .lookup _ _ | .load _ _ | .insert _ _ _ | .released | .raised _ => none

namespace EngineManager

/-- The return of `_get_or_load` in a step: from the first locked section on a hit, else from the
second. -/
def returned (cfg : Config) (w : EngineManager) : Action → List Return
  | .lookup i =>
    match w.callers[i]? with
    | some (.lookup _ name) => ((w.engines.lookup name).map (Return.mk i name)).toList
    | _ => []
  | .insert i =>
    match w.callers[i]? with
    | some (.insert _ name engine) =>
      (((w.enginesAfterInsert cfg name engine).lookup name).map (Return.mk i name)).toList
    | _ => []
  | _ => []

/-- The instance that an action discards: its caller's second locked section finds the name in the
cache. -/
def discarded (w : EngineManager) : Action → List EngineId
  | .insert i =>
    match w.callers[i]? with
    | some (.insert _ name engine) => if name ∈ w.engines then [engine] else []
    | _ => []
  | _ => []

/-- The action runs a sweep, or unloads the name. -/
def TakesOut (name : String) : Action → Prop
  | .insert _ | .release _ => True
  | .unload name' => name' = name
  | .call _ _ | .lookup _ | .load _ _ | .count _ => False

end EngineManager

/-- Everything `_get_or_load` has returned in a run, in order. -/
def returns (cfg : Config) (as : List Action) : List Return :=
  (system cfg).emitted (EngineManager.returned cfg) (system cfg).init as

/-- Every instance that a run has discarded. -/
def discards (cfg : Config) (as : List Action) : List EngineId :=
  (system cfg).emitted EngineManager.discarded (system cfg).init as

namespace EngineManager

variable {cfg : Config} {w w' : EngineManager} {a : Action}

/-- What a step returns is cached after it, and its caller has it. -/
theorem returned_cached (h : w.step cfg a = some w') {r : Return} (hr : r ∈ w.returned cfg a) :
    w'.engines.lookup r.name = some r.engine ∧
      ∃ use, w'.callers[r.caller]? = some (.obtained use r.name r.engine) := by
  cases managerStep_of_step h with
  | hit i use name engine hc he =>
    simp only [returned, hc, he, Option.map_some, Option.toList_some, List.mem_singleton] at hr
    subst hr
    have hi := (List.getElem?_eq_some_iff.mp hc).1
    refine ⟨?_, use, List.getElem?_set_self hi⟩
    rw [LruCache.lookup_moveToEnd, he]
  | inserted i use name engine engine' hc he =>
    simp only [returned, hc, he, Option.map_some, Option.toList_some, List.mem_singleton] at hr
    subst hr
    have hi := (List.getElem?_eq_some_iff.mp hc).1
    exact ⟨he, use, List.getElem?_set_self hi⟩
  | miss i use name hc he => simp [returned, hc, he] at hr
  | _ => cases hr

/-- A cached name stays with its engine unless the action takes it out. -/
theorem lookup_step (h : w.step cfg a = some w') {name : String} {engine : EngineId}
    (he : w.engines.lookup name = some engine) :
    w'.engines.lookup name = some engine ∨ w'.engines.lookup name = none ∧ TakesOut name a := by
  rcases (step_effect h).keeps name engine he with hk | ⟨hk, -⟩
  · exact .inl hk
  · cases managerStep_of_step h with
    | call | miss | loaded | loadFailed | counted | lost => exact .inl he
    | hit i use m e hc hm =>
      left
      show AList.lookup name (LruCache.moveToEnd w.engines m) = _
      rw [LruCache.lookup_moveToEnd, he]
    | inserted | released => exact .inr ⟨hk, trivial⟩
    | unload m =>
      by_cases hmn : m = name
      · exact .inr ⟨hk, hmn⟩
      · left
        simp only [enginesAfterUnload]
        split
        · exact he
        · rw [AList.lookup_erase_ne (Ne.symm hmn), he]

/-! ### Where the instances are -/

/-- A caller is at its second locked section with the engine. -/
def Pending (w : EngineManager) (i engine : Nat) : Prop :=
  ∃ use name, w.callers[i]? = some (.insert use name engine)

/-- The engine has been constructed, was not discarded, and its constructor's caller is past its
second locked section. -/
structure Landed (cfg : Config) (as : List Action) (w : EngineManager) (engine : Nat) :
    Prop where
  built : engine < w.built.length
  kept : engine ∉ discards cfg as
  past : ∀ i, ¬ w.Pending i engine

/-- Every instance of a run is in the hand of the one caller that constructed it, has landed, or
was discarded. -/
structure Traced (cfg : Config) (as : List Action) (w : EngineManager) : Prop where
  cached : ∀ name (engine : Nat), w.engines.lookup name = some engine → Landed cfg as w engine
  returned : ∀ r ∈ returns cfg as, Landed cfg as w r.engine
  pending : ∀ i (engine : Nat), w.Pending i engine →
    engine < w.built.length ∧ engine ∉ discards cfg as ∧ ∀ j, w.Pending j engine → j = i
  discarded : ∀ engine ∈ discards cfg as, (engine : Nat) < w.built.length

variable {as : List Action}

private theorem pending_of_set {i j : Nat} {c : Caller} {e : Nat}
    (hs : w'.callers = w.callers.set i c) (hc : ∀ use name engine, c ≠ .insert use name engine)
    (h : w'.Pending j e) : w.Pending j e ∧ j ≠ i := by
  obtain ⟨use, name, h⟩ := h
  rw [hs] at h
  rcases List.getElem?_set_eq_some.mp h with ⟨hne, h⟩ | ⟨-, -, rfl⟩
  · exact ⟨⟨use, name, h⟩, hne⟩
  · exact absurd rfl (hc use name e)

private theorem obtained_ne_insert (use : Use) (name : String) (engine : EngineId) (use' : Use)
    (name' : String) (engine' : EngineId) :
    Caller.obtained use name engine ≠ .insert use' name' engine' := by
  cases use <;> simp [Caller.obtained]

private theorem Landed.of_step {e : Nat} (he : Landed cfg as w e)
    (hb : w.built.length ≤ w'.built.length)
    (hd : discards cfg (as ++ [a]) = discards cfg as ++ w.discarded a) (hn : e ∉ w.discarded a)
    (hp : ∀ i, w'.Pending i e → w.Pending i e) : Landed cfg (as ++ [a]) w' e := by
  refine ⟨Nat.lt_of_lt_of_le he.built hb, ?_, fun i h ↦ he.past i (hp i h)⟩
  rw [hd, List.mem_append, not_or]
  exact ⟨he.kept, hn⟩

private theorem Traced.of_move (hs : Traced cfg as w)
    (hr : returns cfg (as ++ [a]) = returns cfg as ++ w.returned cfg a)
    (hd : discards cfg (as ++ [a]) = discards cfg as ++ w.discarded a)
    (hnil : w.discarded a = []) (hb : w'.built = w.built)
    (hp : ∀ i e, w'.Pending i e → w.Pending i e)
    (hl : ∀ name engine, w'.engines.lookup name = some engine →
      ∃ name', w.engines.lookup name' = some engine)
    (hret : ∀ r ∈ w.returned cfg a, ∃ name', w.engines.lookup name' = some r.engine) :
    Traced cfg (as ++ [a]) w' := by
  have landed {e : Nat} (he : Landed cfg as w e) : Landed cfg (as ++ [a]) w' e :=
    he.of_step (by rw [hb]) hd (by simp [hnil]) fun i ↦ hp i e
  refine ⟨fun name engine h ↦ ?_, fun r h ↦ ?_, fun i e h ↦ ?_, fun e h ↦ ?_⟩
  · obtain ⟨name', h⟩ := hl name engine h
    exact landed (hs.cached name' engine h)
  · rw [hr] at h
    rcases List.mem_append.mp h with h | h
    · exact landed (hs.returned r h)
    · obtain ⟨name', h⟩ := hret r h
      exact landed (hs.cached name' r.engine h)
  · obtain ⟨hlt, hn, hone⟩ := hs.pending i e (hp i e h)
    exact ⟨by rwa [hb], by rwa [hd, hnil, List.append_nil], fun j hj ↦ hone j (hp j e hj)⟩
  · rw [hd, hnil, List.append_nil] at h
    rw [hb]
    exact hs.discarded e h

private theorem Traced.loaded {i : Nat} {use : Use} {name : String} (hs : Traced cfg as w)
    (hc : w.callers[i]? = some (.load use name))
    (hr : returns cfg (as ++ [Action.load i none]) = returns cfg as)
    (hd : discards cfg (as ++ [Action.load i none]) = discards cfg as) :
    Traced cfg (as ++ [Action.load i none]) { w with
      callers := w.callers.set i (.insert use name w.built.length)
      built := w.built ++ [name] } := by
  have hlen : (w.built ++ [name]).length = w.built.length + 1 := by simp
  -- whoever is pending was pending before, or is the caller with its new engine
  have hp {j : Nat} {e : Nat} (h : EngineManager.Pending { w with
      callers := w.callers.set i (.insert use name w.built.length)
      built := w.built ++ [name] } j e) : w.Pending j e ∨ j = i ∧ e = w.built.length := by
    obtain ⟨use', name', h⟩ := h
    rcases List.getElem?_set_eq_some.mp h with ⟨-, h⟩ | ⟨rfl, -, h⟩
    · exact .inl ⟨use', name', h⟩
    · cases h
      exact .inr ⟨rfl, rfl⟩
  have landed {e : Nat} (he : Landed cfg as w e) :
      Landed cfg (as ++ [Action.load i none]) { w with
        callers := w.callers.set i (.insert use name w.built.length)
        built := w.built ++ [name] } e := by
    refine he.of_step (by simp) (by simpa [EngineManager.discarded] using hd)
      (by simp [EngineManager.discarded]) fun j h ↦ ?_
    refine (hp h).resolve_right fun hj ↦ ?_
    have hlt := he.built
    omega
  refine ⟨fun m e h ↦ landed (hs.cached m e h), fun r h ↦ ?_, fun j e h ↦ ?_, fun e h ↦ ?_⟩
  · rw [hr] at h
    exact landed (hs.returned r h)
  · rw [hd]
    show e < (w.built ++ [name]).length ∧ _ ∧ _
    rcases hp h with h | ⟨rfl, rfl⟩
    · obtain ⟨hlt, hn, hone⟩ := hs.pending j e h
      refine ⟨by omega, hn, fun k hk ↦ ?_⟩
      rcases hp hk with hk | ⟨-, hk⟩
      · exact hone k hk
      · omega
    · refine ⟨by omega, fun hm ↦ ?_, fun k hk ↦ ?_⟩
      · exact absurd (hs.discarded _ hm) (Nat.lt_irrefl _)
      · rcases hp hk with hk | ⟨hk, -⟩
        · have hlt := (hs.pending k _ hk).1
          omega
        · exact hk
  · rw [hd] at h
    exact Nat.lt_of_lt_of_le (hs.discarded e h) (by simp)

private theorem lookup_enginesAfterInsert {name m : String} {engine e : Nat}
    (h : (w.enginesAfterInsert cfg name engine).lookup m = some e) :
    w.engines.lookup m = some e ∨ name ∉ w.engines ∧ e = engine := by
  unfold enginesAfterInsert evictIfOverCapacity at h
  rcases @LruCache.lookup_sweep _ _ _ cfg.maxLoaded
    (fun m ↦ some name = some m ∨ 0 < w.refCounts.get m)
    (LruCache.moveToEnd (if name ∈ w.engines then w.engines else w.engines.insert name engine)
      name) m with hk | ⟨hk, -⟩
  · have hl := hk.symm.trans h
    rw [LruCache.lookup_moveToEnd] at hl
    split at hl
    · exact .inl hl
    · next hn =>
      by_cases hm : m = name
      · subst hm
        rw [AList.lookup_insert] at hl
        exact .inr ⟨hn, (Option.some.inj hl).symm⟩
      · rw [AList.lookup_insert_ne hm] at hl
        exact .inl hl
  · have hno := hk.symm.trans h
    cases hno

private theorem Traced.inserted {i : Nat} {use : Use} {name : String} {engine engine' : Nat}
    (hs : Traced cfg as w) (hc : w.callers[i]? = some (.insert use name engine))
    (he : (w.enginesAfterInsert cfg name engine).lookup name = some engine')
    (hr : returns cfg (as ++ [Action.insert i]) = returns cfg as ++ [⟨i, name, engine'⟩])
    (hd : discards cfg (as ++ [Action.insert i]) =
      discards cfg as ++ if name ∈ w.engines then [engine] else []) :
    Traced cfg (as ++ [Action.insert i]) { w with
      engines := w.enginesAfterInsert cfg name engine
      callers := w.callers.set i (.obtained use name engine') } := by
  have hpend : w.Pending i engine := ⟨use, name, hc⟩
  obtain ⟨hlt, hkept, hone⟩ := hs.pending i engine hpend
  have hp {j : Nat} {e : Nat} (h : EngineManager.Pending { w with
      engines := w.enginesAfterInsert cfg name engine
      callers := w.callers.set i (.obtained use name engine') } j e) : w.Pending j e ∧ j ≠ i :=
    pending_of_set rfl (obtained_ne_insert _ _ _) h
  have hne {j e : Nat} (h : w.Pending j e) (hj : j ≠ i) : e ≠ engine := by
    rintro rfl
    exact hj (hone j h)
  have hd' : discards cfg (as ++ [Action.insert i]) =
      discards cfg as ++ w.discarded (.insert i) := by
    simp only [hd, EngineManager.discarded, hc]
  have landed {e : Nat} (hl : Landed cfg as w e) : Landed cfg (as ++ [Action.insert i]) { w with
      engines := w.enginesAfterInsert cfg name engine
      callers := w.callers.set i (.obtained use name engine') } e := by
    refine hl.of_step (Nat.le_refl _) hd' ?_ fun j h ↦ (hp h).1
    simp only [EngineManager.discarded, hc]
    split
    · rw [List.mem_singleton]
      rintro rfl
      exact hl.past i hpend
    · exact List.not_mem_nil
  have cached {m : String} {e : Nat}
      (h : (w.enginesAfterInsert cfg name engine).lookup m = some e) :
      Landed cfg (as ++ [Action.insert i]) { w with
        engines := w.enginesAfterInsert cfg name engine
        callers := w.callers.set i (.obtained use name engine') } e := by
    rcases lookup_enginesAfterInsert h with h | ⟨hn, rfl⟩
    · exact landed (hs.cached m e h)
    · refine ⟨hlt, ?_, fun j h ↦ ?_⟩
      · simpa [hd, hn] using hkept
      · exact hne (hp h).1 (hp h).2 rfl
  refine ⟨fun m e h ↦ cached h, fun r h ↦ ?_, fun j e h ↦ ?_, fun e h ↦ ?_⟩
  · rw [hr] at h
    rcases List.mem_append.mp h with h | h
    · exact landed (hs.returned r h)
    · obtain rfl := List.mem_singleton.mp h
      exact cached he
  · obtain ⟨h, hj⟩ := hp h
    obtain ⟨hlt', hn, hone'⟩ := hs.pending j e h
    refine ⟨hlt', ?_, fun k hk ↦ hone' k (hp hk).1⟩
    rw [hd, List.mem_append, not_or]
    refine ⟨hn, ?_⟩
    split
    · simpa using hne h hj
    · exact List.not_mem_nil
  · rw [hd] at h
    rcases List.mem_append.mp h with h | h
    · exact hs.discarded e h
    · split at h
      · obtain rfl := List.mem_singleton.mp h
        exact hlt
      · cases h

/-- One step. -/
theorem Traced.step (hs : Traced cfg as w) (hrun : (system cfg).run as = some w)
    (h : w.step cfg a = some w') : Traced cfg (as ++ [a]) w' := by
  have hr : returns cfg (as ++ [a]) = returns cfg as ++ w.returned cfg a :=
    TransitionSystem.emitted_concat hrun h
  have hd : discards cfg (as ++ [a]) = discards cfg as ++ w.discarded a :=
    @TransitionSystem.emitted_concat _ _ _ _ EngineManager.discarded _ _ _ _ _ hrun h
  have hkeep (name : String) (engine : EngineId) (he : w'.engines.lookup name = some engine)
      (hsub : ∀ m, w'.engines.lookup m = w.engines.lookup m ∨ w'.engines.lookup m = none) :
      ∃ name', w.engines.lookup name' = some engine := by
    rcases hsub name with hn | hn
    · exact ⟨name, hn.symm.trans he⟩
    · rw [hn] at he
      cases he
  cases managerStep_of_step h with
  | call use model =>
    refine hs.of_move hr hd rfl rfl (fun j e hj ↦ ?_) (fun m e he ↦ ⟨m, he⟩)
      (by simp [EngineManager.returned])
    obtain ⟨use', name', hj⟩ := hj
    rcases List.getElem?_concat_eq_some.mp hj with hj | ⟨-, hj⟩
    · exact ⟨use', name', hj⟩
    · split at hj <;> cases hj
  | hit i use name engine hc he =>
    refine hs.of_move hr hd rfl rfl
      (fun j e hj ↦ (pending_of_set rfl (obtained_ne_insert _ _ _) hj).1)
      (fun m e hl ↦ ⟨m, ?_⟩) fun r hm ↦ ?_
    · exact (LruCache.lookup_moveToEnd _ _ _).symm.trans hl
    · simp only [EngineManager.returned, hc, he, Option.map_some, Option.toList_some,
        List.mem_singleton] at hm
      exact ⟨name, by rw [he, hm]⟩
  | miss i use name hc he =>
    exact hs.of_move hr hd rfl rfl (fun j e hj ↦ (pending_of_set rfl (by simp) hj).1)
      (fun m e hl ↦ ⟨m, hl⟩) (by simp [EngineManager.returned, hc, he])
  | loaded i use name hc =>
    exact hs.loaded hc (by simpa [EngineManager.returned] using hr)
      (by simpa [EngineManager.discarded] using hd)
  | inserted i use name engine engine' hc he =>
    refine hs.inserted hc he ?_ ?_
    · simpa only [EngineManager.returned, hc, he, Option.map_some, Option.toList_some] using hr
    · simpa only [EngineManager.discarded, hc] using hd
  | loadFailed | counted | lost =>
    exact hs.of_move hr hd rfl rfl (fun j e hj ↦ (pending_of_set rfl (by simp) hj).1)
      (fun m e hl ↦ ⟨m, hl⟩) (by simp [EngineManager.returned])
  | released i name engine n hc hn =>
    refine hs.of_move hr hd rfl rfl (fun j e hj ↦ (pending_of_set rfl (by simp) hj).1)
      (fun m e hl ↦ hkeep m e hl fun k ↦ ?_) (by simp [EngineManager.returned])
    exact (LruCache.lookup_sweep _ k).imp_right And.left
  | unload name =>
    refine hs.of_move hr hd rfl rfl (fun j e hj ↦ hj) (fun m e hl ↦ hkeep m e hl fun k ↦ ?_)
      (by simp [EngineManager.returned])
    simp only [enginesAfterUnload]
    split
    · exact .inl rfl
    · by_cases hk : k = name
      · subst hk
        exact .inr (AList.lookup_erase _ _)
      · exact .inl (AList.lookup_erase_ne hk)

/-- A caller has an engine because the step returned it or because it had it before. -/
theorem given_step (h : w.step cfg a = some w') {i : Nat} {c' : Caller} {name : String}
    {engine : EngineId} (hc : w'.callers[i]? = some c') (hg : c'.given? = some (name, engine)) :
    ⟨i, name, engine⟩ ∈ w.returned cfg a ∨
      ∃ c, w.callers[i]? = some c ∧ c.given? = some (name, engine) := by
  -- caller `j` moves on to `d`
  have moved {j : Nat} {d : Caller} (hs : w'.callers = w.callers.set j d)
      (hd : i = j → d.given? = some (name, engine) → ⟨i, name, engine⟩ ∈ w.returned cfg a ∨
        ∃ c, w.callers[i]? = some c ∧ c.given? = some (name, engine)) :
      ⟨i, name, engine⟩ ∈ w.returned cfg a ∨
        ∃ c, w.callers[i]? = some c ∧ c.given? = some (name, engine) := by
    rw [hs] at hc
    rcases List.getElem?_set_eq_some.mp hc with ⟨-, hc⟩ | ⟨rfl, -, rfl⟩
    · exact .inr ⟨c', hc, hg⟩
    · exact hd rfl hg
  have obtained {use : Use} {m : String} {e : EngineId}
      (ho : (Caller.obtained use m e).given? = some (name, engine)) : m = name ∧ e = engine := by
    cases use <;> simpa [Caller.obtained, Caller.given?] using ho
  cases managerStep_of_step h with
  | call use model =>
    rcases List.getElem?_concat_eq_some.mp hc with hc | ⟨-, rfl⟩
    · exact .inr ⟨c', hc, hg⟩
    · split at hg <;> cases hg
  | hit j use m e hj he =>
    refine moved rfl fun hi ho ↦ .inl ?_
    obtain ⟨rfl, rfl⟩ := obtained ho
    subst hi
    simp [returned, hj, he]
  | inserted j use m e e' hj he =>
    refine moved rfl fun hi ho ↦ .inl ?_
    obtain ⟨rfl, rfl⟩ := obtained ho
    subst hi
    simp [returned, hj, he]
  | counted j m e hj =>
    exact moved rfl fun hi ho ↦ .inr ⟨.count m e, hi ▸ hj, ho⟩
  | miss | loaded | loadFailed | released | lost => exact moved rfl fun _ ho ↦ by cases ho
  | unload m => exact .inr ⟨c', hc, hg⟩

/-- An entry that is gone after a run was taken out by one of its steps. -/
theorem lookup_run {name : String} {engine : EngineId} {mid : List Action} {t u : EngineManager}
    (h : (system cfg).runFrom t mid = some u) (ht : t.engines.lookup name = some engine) :
    u.engines.lookup name = some engine ∨ ∃ mid₁ c mid₂ v v', mid = mid₁ ++ c :: mid₂ ∧
      (system cfg).runFrom t mid₁ = some v ∧ v.step cfg c = some v' ∧
      v.engines.lookup name = some engine ∧ v'.engines.lookup name = none ∧ TakesOut name c := by
  induction mid generalizing t with
  | nil =>
    obtain rfl : t = u := Option.some.inj h
    exact .inl ht
  | cons a mid ih =>
    rw [TransitionSystem.runFrom_cons] at h
    obtain ⟨m, hm, h⟩ := Option.bind_eq_some_iff.mp h
    rcases lookup_step hm ht with hk | ⟨hk, ha⟩
    · refine (ih h hk).imp_right ?_
      rintro ⟨mid₁, c, mid₂, v, v', rfl, hv, hrest⟩
      refine ⟨a :: mid₁, c, mid₂, v, v', rfl, ?_, hrest⟩
      rw [TransitionSystem.runFrom_cons, hm]
      exact hv
    · exact .inr ⟨[], a, mid, t, m, rfl, rfl, hm, ht, hk, ha⟩

end EngineManager

/-- The run `pre` goes on with `a`, which returns `r` and ends in `t`. -/
def ReturnsAt (cfg : Config) (pre : List Action) (a : Action) (r : Return) (t : EngineManager) :
    Prop :=
  ∃ s, (system cfg).run pre = some s ∧ s.step cfg a = some t ∧ r ∈ s.returned cfg a

/-- Every run traces its instances. -/
theorem traced_of_run {cfg : Config} {as : List Action} {w : EngineManager}
    (h : (system cfg).run as = some w) : EngineManager.Traced cfg as w := by
  refine TransitionSystem.run_induction (J := fun as w ↦ EngineManager.Traced cfg as w) ?_
    (fun as s a t hrun hs hstep ↦ hs.step hrun hstep) h
  refine ⟨fun _ _ h ↦ (nomatch h), fun _ h ↦ (nomatch h), ?_, fun _ h ↦ (nomatch h)⟩
  rintro i engine ⟨use, name, h⟩
  cases h

/-- In every run: a caller that has an engine was returned it; a return is the instance the cache
has for the name at the end of the call's last locked section; between two returns of different
instances for one name the name was taken out of the cache; and no discarded instance is
returned. -/
theorem returns_cached_instances (cfg : Config) :
    (∀ as w i c name engine, (system cfg).run as = some w → w.callers[i]? = some c →
      c.given? = some (name, engine) → ⟨i, name, engine⟩ ∈ returns cfg as) ∧
    (∀ pre a r t, ReturnsAt cfg pre a r t → t.engines.lookup r.name = some r.engine) ∧
    (∀ pre a r t mid b r' t', ReturnsAt cfg pre a r t →
      ReturnsAt cfg (pre ++ a :: mid) b r' t' → r.name = r'.name → r.engine ≠ r'.engine →
      ∃ mid₁ c mid₂ v v', mid = mid₁ ++ c :: mid₂ ∧ (system cfg).runFrom t mid₁ = some v ∧
        v.step cfg c = some v' ∧ v.engines.lookup r.name = some r.engine ∧
        v'.engines.lookup r.name = none ∧ EngineManager.TakesOut r.name c) ∧
    ∀ as w, (system cfg).run as = some w → ∀ r ∈ returns cfg as, r.engine ∉ discards cfg as := by
  refine ⟨fun as w i c name engine h hc hg ↦ ?_, ?_, ?_, ?_⟩
  · revert c name engine
    refine TransitionSystem.run_induction (J := fun as w ↦ ∀ c name engine,
      w.callers[i]? = some c → c.given? = some (name, engine) →
        ⟨i, name, engine⟩ ∈ returns cfg as) (fun c _ _ hc ↦ by cases hc) ?_ h
    intro as s a t hrun hs hstep c name engine hc hg
    have hr : returns cfg (as ++ [a]) = returns cfg as ++ s.returned cfg a :=
      TransitionSystem.emitted_concat hrun hstep
    rw [hr, List.mem_append]
    rcases EngineManager.given_step hstep hc hg with hnew | ⟨c, hc, hg⟩
    · exact .inr hnew
    · exact .inl (hs c name engine hc hg)
  · rintro pre a r t ⟨s, -, hstep, hr⟩
    exact (EngineManager.returned_cached hstep hr).1
  · rintro pre a r t mid b r' t' ⟨s, hrun, hstep, hr⟩ ⟨s', hrun', hstep', hr'⟩ hname hne
    have hcached := (EngineManager.returned_cached hstep hr).1
    have hcached' := (EngineManager.returned_cached hstep' hr').1
    have hmid : (system cfg).runFrom t mid = some s' :=
      TransitionSystem.runFrom_of_run_append_cons hrun' hrun hstep
    rcases EngineManager.lookup_run hmid hcached with hk | hk
    · -- still cached when the second call returns: it returns the same instance
      exfalso
      rcases EngineManager.lookup_step hstep' hk with hk | ⟨hk, -⟩
      · rw [hname, hcached'] at hk
        exact hne (Option.some.inj hk).symm
      · rw [hname, hcached'] at hk
        cases hk
    · exact hk
  · intro as w h r hr
    exact ((traced_of_run h).returned r hr).kept

/-- Two callers load "a" at once, and the loser is given the winner's instance; the load of "b"
evicts it, and the next caller for "a" is given another one. -/
theorem returns_cached_instances_race : ∃ pre mid t w,
    (system oneModel).run (pre ++ .insert 0 :: mid ++ [Action.insert 3]) = some w ∧
    returns oneModel (pre ++ .insert 0 :: mid ++ [Action.insert 3]) =
      [⟨0, "a", 0⟩, ⟨1, "a", 0⟩, ⟨2, "b", 2⟩, ⟨3, "a", 3⟩] ∧
    discards oneModel (pre ++ .insert 0 :: mid ++ [Action.insert 3]) = [1] ∧
    (∃ mid₁ c mid₂ v v', mid = mid₁ ++ c :: mid₂ ∧
      (system oneModel).runFrom t mid₁ = some v ∧ v.step oneModel c = some v' ∧
      v.engines.lookup "a" = some 0 ∧ v'.engines.lookup "a" = none ∧
      EngineManager.TakesOut "a" c) ∧
    ∀ r ∈ returns oneModel (pre ++ .insert 0 :: mid ++ [Action.insert 3]),
      r.engine ∉ discards oneModel (pre ++ .insert 0 :: mid ++ [Action.insert 3]) := by
  have hw : ∃ pre mid t w, ReturnsAt oneModel pre (.insert 0) ⟨0, "a", 0⟩ t ∧
      ReturnsAt oneModel (pre ++ .insert 0 :: mid) (.insert 3) ⟨3, "a", 3⟩ w ∧
      (system oneModel).run (pre ++ .insert 0 :: mid ++ [Action.insert 3]) = some w ∧
      returns oneModel (pre ++ .insert 0 :: mid ++ [Action.insert 3]) =
        [⟨0, "a", 0⟩, ⟨1, "a", 0⟩, ⟨2, "b", 2⟩, ⟨3, "a", 3⟩] ∧
      discards oneModel (pre ++ .insert 0 :: mid ++ [Action.insert 3]) = [1] :=
    ⟨[.call .acquire none, .call .acquire none, .lookup 0, .lookup 1, .load 0 none, .load 1 none],
      [Action.insert 1, .call .get (some "b")] ++ loadActions 2 ++
        [Action.call .get none, .lookup 3, .load 3 none], _, _,
      ⟨_, rfl, rfl, by decide⟩, ⟨_, rfl, rfl, by decide⟩, rfl, rfl, rfl⟩
  obtain ⟨pre, mid, t, w, hr, hr', hrun, hreturns, hdiscards⟩ := hw
  obtain ⟨-, -, hout, hkept⟩ := returns_cached_instances oneModel
  exact ⟨pre, mid, t, w, hrun, hreturns, hdiscards,
    hout pre (.insert 0) _ t mid (.insert 3) _ w hr hr' rfl (by decide), hkept _ w hrun⟩

end BibiCore.Engine
