import BibiCore.Engine.Manager

/-!
# The order of eviction

`_engines` is kept in the order in which its names were last used, and a sweep drops the names that
nobody holds from the front of that order. Every section of `_get_or_load` that takes the lock is a
use.
-/

namespace BibiCore.Engine

namespace EngineManager

/-- The name whose caller holds the lock in `_get_or_load`. -/
def uses (w : EngineManager) : Action → List String
  | .lookup i =>
    match w.callers[i]? with
    | some (.lookup _ name) => [name]
    | _ => []
  | .insert i =>
    match w.callers[i]? with
    | some (.insert _ name _) => [name]
    | _ => []
  | _ => []

/-- What a step asks of the cache: the first locked section of `_get_or_load` a use, the second an
addition, a release with a count to decrement a sweep, and `unload` a removal. -/
def request (w : EngineManager) : Action → Option (LruCache.Request String)
  | .lookup i =>
    match w.callers[i]? with
    | some (.lookup _ name) => some (.use name)
    | _ => none
  | .insert i =>
    match w.callers[i]? with
    | some (.insert _ name _) => some (.add name)
    | _ => none
  | .release i =>
    match w.callers[i]? with
    | some (.holding name _) => if (w.refCounts.lookup name).isSome then some .trim else none
    | _ => none
  | .unload name => some (.remove name)
  | _ => none

variable {cfg : Config} {w w' : EngineManager} {a : Action}

/-- The order after an insertion. -/
theorem order_enginesAfterInsert (cfg : Config) (w : EngineManager) (name : String)
    (engine : EngineId) :
    (w.enginesAfterInsert cfg name engine).order =
      LruCache.trim cfg.maxLoaded (fun m ↦ some name = some m ∨ 0 < w.refCounts.get m)
        (w.engines.order.erase name ++ [name]) := by
  unfold enginesAfterInsert evictIfOverCapacity
  rw [LruCache.order_sweep]
  congr 1
  split
  · next h => exact LruCache.order_moveToEnd h
  · next h =>
    have hnot : name ∉ w.engines.order := fun hmem ↦ h (LruCache.mem_order.mp hmem)
    rw [LruCache.order_moveToEnd ((AList.mem_insert _).mpr (.inl rfl)), LruCache.order_insert,
      List.erase_of_not_mem hnot, List.erase_append_right _ hnot, List.erase_cons_head,
      List.append_nil]

/-- A step keeps the names in the order of their last uses. -/
theorem order_sublist_step {used : List String} (hw : w.engines.order.Sublist used.dedup)
    (h : w.step cfg a = some w') : w'.engines.order.Sublist (used ++ w.uses a).dedup := by
  cases managerStep_of_step h with
  | hit i use name engine hc he =>
    have hmem : name ∈ w.engines := AList.lookup_isSome.mp (he ▸ rfl)
    simp only [uses, hc, LruCache.order_moveToEnd hmem, List.dedup_concat]
    exact (hw.erase name).append_right [name]
  | miss i use name hc he =>
    have hnot : name ∉ w.engines.order :=
      fun hmem ↦ AList.lookup_eq_none.mp he (LruCache.mem_order.mp hmem)
    simp only [uses, hc, List.dedup_concat]
    rw [← List.erase_of_not_mem hnot]
    exact (hw.erase name).trans (List.sublist_append_left _ _)
  | inserted i use name engine engine' hc he =>
    simp only [uses, hc, order_enginesAfterInsert, List.dedup_concat]
    exact List.filter_sublist.trans ((hw.erase name).append_right [name])
  | call | loaded | loadFailed | counted | lost =>
    simp only [uses, List.append_nil]
    exact hw
  | released i name engine n hc hn =>
    simp only [uses, List.append_nil, enginesAfterRelease, evictIfOverCapacity,
      LruCache.order_sweep]
    exact List.filter_sublist.trans hw
  | unload name hs =>
    simp only [uses, List.append_nil, enginesAfterUnload]
    split
    · exact hw
    · rw [LruCache.order_erase]
      exact List.erase_sublist.trans hw

/-- A step leaves the order that a least-recently-used cache has after what the step asks of it, the
names with a reference pinned. -/
theorem order_step (h : w.step cfg a = some w') :
    w'.engines.order = (w.request a).elim w.engines.order
      (LruCache.serve cfg.maxLoaded (fun name ↦ 0 < w'.refCounts.get name) w.engines.order) := by
  cases managerStep_of_step h with
  | hit i use name engine hc he =>
    have hmem : name ∈ w.engines := AList.lookup_isSome.mp (he ▸ rfl)
    simp only [request, hc, Option.elim_some, LruCache.serve, LruCache.order_moveToEnd hmem,
      if_pos (LruCache.mem_order.mpr hmem)]
  | miss i use name hc he =>
    have hnot : name ∉ w.engines.order :=
      fun hmem ↦ AList.lookup_eq_none.mp he (LruCache.mem_order.mp hmem)
    simp only [request, hc, Option.elim_some, LruCache.serve, if_neg hnot]
  | inserted i use name engine engine' hc he =>
    have hspared : (fun m ↦ decide (some name = some m ∨ 0 < w.refCounts.get m)) =
        fun m ↦ decide (m = name ∨ decide (0 < w.refCounts.get m) = true) := by
      funext m
      simp [eq_comm]
    simp only [request, hc, Option.elim_some, LruCache.serve, order_enginesAfterInsert, hspared]
  | call | loaded | loadFailed | counted => rfl
  | lost i name engine hc hn =>
    simp only [request, hc, hn, Option.isSome_none, Bool.false_eq_true, if_false, Option.elim_none]
  | released i name engine n hc hn =>
    have hspared : (fun m ↦ decide (none = some m ∨ 0 < (w.countsAfterRelease name n).get m)) =
        fun m ↦ decide (0 < (w.countsAfterRelease name n).get m) := by
      simp
    simp only [request, hc, hn, Option.isSome_some, if_true, Option.elim_some, LruCache.serve,
      enginesAfterRelease, evictIfOverCapacity, LruCache.order_sweep, hspared]
  | unload name hs =>
    simp only [request, Option.elim_some, LruCache.serve, enginesAfterUnload, decide_eq_true_eq]
    split
    · rfl
    · exact LruCache.order_erase _ name

end EngineManager

/-- The key order of `_engines` is the order in which its names were last used (`List.dedup` leaves
of equal names the last); a sweep on any cache, counts and capacity drops the first evictable names
of that order, as many as exceed the capacity if there are so many, and leaves the rest as it is;
and every step leaves the order that a least-recently-used cache has after what the step asks of it,
the names with a reference pinned. -/
theorem engines_leastRecentlyUsed (cfg : Config) :
    (∀ as w, (system cfg).run as = some w →
      w.engines.order.Sublist
        ((system cfg).emitted EngineManager.uses (system cfg).init as).dedup) ∧
    (∀ (counts : RefCounts) (protect : Option String) (engines : Engines),
      let evictable := engines.order.filter fun name ↦
        ¬ (protect = some name ∨ 0 < counts.get name)
      let k := min ((engines.size : Int) - cfg.maxLoaded).toNat evictable.length
      (evictIfOverCapacity cfg counts protect engines).entries =
        engines.entries.filter fun entry ↦ entry.1 ∉ evictable.take k) ∧
    ∀ w a w', EngineManager.step cfg w a = some w' →
      w'.engines.order = (w.request a).elim w.engines.order
        (LruCache.serve cfg.maxLoaded (fun name ↦ 0 < w'.refCounts.get name) w.engines.order) := by
  refine ⟨fun as w h ↦ ?_, fun counts protect engines ↦ ?_, fun w a w' h ↦ w.order_step h⟩
  · refine TransitionSystem.run_induction (J := fun as w ↦ w.engines.order.Sublist
      ((system cfg).emitted EngineManager.uses (system cfg).init as).dedup) ?_ ?_ h
    · exact List.Sublist.refl _
    · intro as s a t hrun hs hstep
      rw [TransitionSystem.emitted_concat hrun hstep]
      exact EngineManager.order_sublist_step hs hstep
  · intro evictable k
    have hvictims : LruCache.victims cfg.maxLoaded
        (fun name ↦ decide (protect = some name ∨ 0 < counts.get name)) engines.order engines =
          evictable.take k := by
      rw [← List.take_eq_take_min]
      simp only [LruCache.victims, evictable, decide_not]
    rw [evictIfOverCapacity, LruCache.entries_sweep, hvictims]

/-- Room for two engines. -/
def twoModels : Config := ⟨.stt, "a", 2⟩

/-- The engine used longest ago goes when a third is loaded. -/
theorem engines_leastRecentlyUsed_twoModels : ∃ w : EngineManager, w.engines.order = ["a", "c"] ∧
    w.engines.order.Sublist ["b", "a", "c"] := by
  have hw : ∃ as w, (system twoModels).run as = some w ∧ w.engines.order = ["a", "c"] ∧
      ((system twoModels).emitted EngineManager.uses (system twoModels).init as).dedup =
        ["b", "a", "c"] :=
    ⟨[Action.call .get none] ++ loadActions 0 ++ [Action.call .get (some "b")] ++ loadActions 1 ++
      [Action.call .get none, .lookup 2, .call .get (some "c")] ++ loadActions 3,
      _, rfl, by decide, by decide⟩
  obtain ⟨as, w, hrun, ho, hu⟩ := hw
  exact ⟨w, ho, hu ▸ (engines_leastRecentlyUsed twoModels).1 as w hrun⟩

end BibiCore.Engine
