import BibiCore.Base.ListUpdate
import BibiCore.Engine.Holders

/-!
# What a call leaves in the bookkeeping

`stt/engine_manager.py:45`, `tts/engine_manager.py:31`. The two lookups that could raise a
`KeyError`, the decrement of a release and the last line of `_get_or_load`, find their entries;
and a call that raises before it has an engine leaves the cache, its order and the counts as they
are.
-/

namespace BibiCore.Engine

/-- The caller whose call, locked section or load the action is. -/
def Action.caller? (w : EngineManager) : Action → Option Nat
  | .call _ _ => some w.callers.length
  | .lookup i | .load i _ | .insert i | .count i | .release i => some i
  | .unload _ => none

/-- The caller has neither been given an engine nor constructed one. -/
def Caller.searching : Caller → Bool
  | .lookup _ _ | .load _ _ | .raised _ => true
  | .insert _ _ _ | .count _ _ | .holding _ _ | .released | .returned _ _ => false

namespace EngineManager

/-- The step, if it is caller `i`'s, leaves the cache, its order and the counts alone. -/
def LeavesBooks (cfg : Config) (i : Nat) (w : EngineManager) (a : Action) : Prop :=
  a.caller? w = some i →
    ∀ w', w.step cfg a = some w' → w'.engines = w.engines ∧ w'.refCounts = w.refCounts

/-- Every release and every second locked section finds the entry it looks up. -/
structure FindsEntries (cfg : Config) (w : EngineManager) : Prop where
  release : ∀ i name engine, w.callers[i]? = some (.holding name engine) →
    ∃ w', w.step cfg (.release i) = some w' ∧ w'.callers[i]? = some .released
  insert : ∀ i use name engine, w.callers[i]? = some (.insert use name engine) →
    ∃ w' engine', w.step cfg (.insert i) = some w' ∧ w'.engines.lookup name = some engine' ∧
      w'.callers[i]? = some (.obtained use name engine')

variable {cfg : Config} {w w' : EngineManager} {a : Action}

/-- Exact counts make every lookup succeed. -/
theorem Counted.findsEntries (hw : w.Counted) : w.FindsEntries cfg := by
  constructor
  · intro i name engine hc
    have hi := (List.getElem?_eq_some_iff.mp hc).1
    have hpos : 0 < w.holders name :=
      List.countP_pos_iff.mpr ⟨_, List.mem_of_getElem? hc, by simp [Caller.holds]⟩
    have hl := hw name
    rw [if_neg (by omega)] at hl
    simp only [EngineManager.step, hc, hl]
    exact ⟨_, rfl, List.getElem?_set_self hi⟩
  · intro i use name engine hc
    have hi := (List.getElem?_eq_some_iff.mp hc).1
    have hm := mem_enginesAfterInsert cfg w name engine
    obtain ⟨engine', he⟩ := Option.isSome_iff_exists.mp (AList.lookup_isSome.mpr hm)
    simp only [EngineManager.step, hc, he]
    exact ⟨_, engine', rfl, he, List.getElem?_set_self hi⟩

/-- A caller that is still searching after a step was searching before it, and its own step leaves
the books alone. -/
theorem searching_step (hf : w.FindsEntries cfg) (h : w.step cfg a = some w') {i : Nat}
    (hc : ∀ c, w'.callers[i]? = some c → c.searching = true) :
    (∀ c, w.callers[i]? = some c → c.searching = true) ∧ LeavesBooks cfg i w a := by
  -- caller `j` moves from `c` to `c'`
  have moved {j : Nat} {c c' : Caller} (hj : w.callers[j]? = some c)
      (hs : w'.callers = w.callers.set j c') (ha : a.caller? w = some j)
      (hb : c'.searching = true →
        c.searching = true ∧ w'.engines = w.engines ∧ w'.refCounts = w.refCounts) :
      (∀ c, w.callers[i]? = some c → c.searching = true) ∧ LeavesBooks cfg i w a := by
    by_cases hij : i = j
    · subst hij
      have hi := (List.getElem?_eq_some_iff.mp hj).1
      obtain ⟨hcs, he, hr⟩ := hb (hc c' (by rw [hs, List.getElem?_set_self hi]))
      refine ⟨fun d hd ↦ ?_, fun _ v hv ↦ ?_⟩
      · obtain rfl : c = d := Option.some.inj (hj.symm.trans hd)
        exact hcs
      · obtain rfl : w' = v := Option.some.inj (h.symm.trans hv)
        exact ⟨he, hr⟩
    · refine ⟨fun d hd ↦ hc d ?_, fun hai ↦ ?_⟩
      · rw [hs, List.getElem?_set_ne (Ne.symm hij), hd]
      · exact absurd (Option.some.inj (hai.symm.trans ha)) hij
  have obtained (use : Use) (name : String) (engine : EngineId) :
      (Caller.obtained use name engine).searching = false := by cases use <;> rfl
  cases managerStep_of_step h with
  | call use model =>
    refine ⟨fun d hd ↦ hc d ?_, fun _ v hv ↦ ?_⟩
    · exact List.getElem?_concat_eq_some.mpr (.inl hd)
    · cases hv
      exact ⟨rfl, rfl⟩
  | hit j use name engine hj he => exact moved hj rfl rfl fun hs ↦ absurd hs (by simp [obtained])
  | miss j use name hj => exact moved hj rfl rfl fun _ ↦ ⟨rfl, rfl, rfl⟩
  | loaded j use name hj => exact moved hj rfl rfl fun hs ↦ absurd hs (by simp [Caller.searching])
  | loadFailed j use name error hj => exact moved hj rfl rfl fun _ ↦ ⟨rfl, rfl, rfl⟩
  | inserted j use name engine engine' hj he =>
    exact moved hj rfl rfl fun hs ↦ absurd hs (by simp [obtained])
  | counted j name engine hj | released j name engine n hj =>
    exact moved hj rfl rfl fun hs ↦ absurd hs (by simp [Caller.searching])
  | lost j name engine hj hn =>
    obtain ⟨v, hv, hvc⟩ := hf.release j name engine hj
    have hi := (List.getElem?_eq_some_iff.mp hj).1
    obtain rfl := Option.some.inj (h.symm.trans hv)
    rw [List.getElem?_set_self hi] at hvc
    cases hvc
  | unload name => exact ⟨hc, fun ha ↦ by cases ha⟩

end EngineManager

/-- In every run the counts are the numbers of holders, every release and every second locked
section of `_get_or_load` finds the entry it looks up, and a call that raised has left the cache,
its order and the counts alone in every step it took. -/
theorem books_exact (cfg : Config) (as : List Action) (w : EngineManager)
    (h : (system cfg).run as = some w) :
    w.Counted ∧ w.FindsEntries cfg ∧
      ∀ i error, w.callers[i]? = some (.raised error) →
        (system cfg).Along (EngineManager.LeavesBooks cfg i) (system cfg).init as := by
  have hw := counted_of_reachable (TransitionSystem.reachable_of_run h)
  refine ⟨hw, hw.findsEntries, fun i error hi ↦ ?_⟩
  have key := TransitionSystem.run_induction
    (J := fun as w ↦ (∀ c, w.callers[i]? = some c → c.searching = true) →
      (system cfg).Along (EngineManager.LeavesBooks cfg i) (system cfg).init as)
    (fun _ ↦ trivial) ?_ h
  · exact key fun c hc ↦ by
      obtain rfl : .raised error = c := Option.some.inj (hi.symm.trans hc)
      rfl
  · intro bs s a t hrun hs hstep hc
    have hcounted := counted_of_reachable (TransitionSystem.reachable_of_run hrun)
    obtain ⟨hbefore, hleaves⟩ := EngineManager.searching_step hcounted.findsEntries hstep hc
    exact (TransitionSystem.along_concat hrun).mpr ⟨hs hbefore, hleaves⟩

/-- While one caller holds an engine, the load of another fails and the name of a third is
refused. -/
theorem books_exact_failures : ∃ as w, (system oneModel).run as = some w ∧
    .holding "a" 0 ∈ w.callers ∧ w.callers[1]? = some (.raised (.modelNotFound "b")) ∧
    w.callers[2]? = some (.raised (.modelNotFound "x/y")) ∧ w.Counted ∧
    w.FindsEntries oneModel ∧
    ∀ i error, w.callers[i]? = some (.raised error) →
      (system oneModel).Along (EngineManager.LeavesBooks oneModel i) (system oneModel).init as := by
  have hw : ∃ as w, (system oneModel).run as = some w ∧ .holding "a" 0 ∈ w.callers ∧
      w.callers[1]? = some (.raised (.modelNotFound "b")) ∧
      w.callers[2]? = some (.raised (.modelNotFound "x/y")) :=
    ⟨[Action.call .acquire none] ++ loadActions 0 ++ [Action.count 0, .call .get (some "b"),
      .lookup 1, .load 1 (some (.modelNotFound "b")), .call .get (some "x/y")], _, rfl, by decide,
      rfl, rfl⟩
  obtain ⟨as, w, hrun, hh, hb, hx⟩ := hw
  exact ⟨as, w, hrun, hh, hb, hx, books_exact oneModel as w hrun⟩

end BibiCore.Engine
