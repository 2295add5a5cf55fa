import BibiCore.Engine.Holders

/-!
# How far a cache exceeds its capacity

An insertion's sweep spares the inserted name and the names in use, a release's sweep only the
latter, and a cache hit sweeps nothing. Whatever the order of these, at most one engine beyond the
capacity is without a reference.
-/

namespace BibiCore.Engine

namespace EngineManager

/-- The number of cached engines with an active reference. -/
def pinned (w : EngineManager) : Nat := w.engines.keys.countP fun name ↦ 0 < w.refCounts.get name

/-- The number of cached engines without one. -/
def unpinned (w : EngineManager) : Nat :=
  w.engines.keys.countP fun name ↦ ¬ 0 < w.refCounts.get name

/-- The cache is within its capacity, or holds at most one engine without a reference. -/
def Bounded (cfg : Config) (w : EngineManager) : Prop :=
  (w.engines.size : Int) ≤ cfg.maxLoaded ∨ w.unpinned ≤ 1

/-- The cache is within its capacity, or every engine in it has a reference. -/
def Settled (cfg : Config) (w : EngineManager) : Prop :=
  (w.engines.size : Int) ≤ cfg.maxLoaded ∨ ∀ name ∈ w.engines, 0 < w.refCounts.get name

variable {cfg : Config} {w w' : EngineManager} {a : Action}

/-- Every cached engine is pinned or not. -/
theorem pinned_add_unpinned (w : EngineManager) : w.pinned + w.unpinned = w.engines.size := by
  have hlen : w.engines.keys.length = w.engines.size := List.length_map _
  rw [← hlen, List.length_eq_countP_add_countP fun name ↦ decide (0 < w.refCounts.get name)]
  simp [pinned, unpinned]

/-- Every cached engine has a reference. -/
theorem unpinned_eq_zero (h : ∀ name ∈ w.engines, 0 < w.refCounts.get name) : w.unpinned = 0 := by
  rw [unpinned, List.countP_eq_zero]
  intro name hn
  simpa using h name (AList.mem_keys.mpr hn)

/-- A settled cache has no engine without a reference beyond its capacity. -/
theorem Settled.bounded (hw : w.Settled cfg) : w.Bounded cfg := by
  refine hw.imp_right fun h ↦ ?_
  have hz := unpinned_eq_zero h
  omega

private theorem Bounded.of_subset (hw : w.Bounded cfg) (he : ∀ name ∈ w'.engines, name ∈ w.engines)
    (hr : ∀ name, w.refCounts.get name ≤ w'.refCounts.get name) : w'.Bounded cfg := by
  rcases hw with hw | hw
  · left
    have hle := LruCache.size_le he
    omega
  · right
    have hle : w'.unpinned ≤ w.unpinned :=
      LruCache.countP_keys_le fun name hn hp ↦ by
        have hcount := hr name
        simp only [decide_eq_true_eq] at hp ⊢
        exact ⟨he name hn, by omega⟩
    omega

private theorem settled_evict (counts : RefCounts) (callers : List Caller) (built : List String) :
    Settled cfg ⟨evictIfOverCapacity cfg counts none w.engines, counts, callers, built⟩ := by
  rcases @LruCache.sweep_done _ _ _ cfg.maxLoaded
    (fun name ↦ none = some name ∨ 0 < counts.get name) w.engines with h | h
  · exact .inl h
  · right
    intro name hn
    simpa using h name hn

private theorem bounded_insert (name : String) (engine : EngineId) (callers : List Caller) :
    Bounded cfg { w with engines := w.enginesAfterInsert cfg name engine, callers := callers } := by
  unfold enginesAfterInsert evictIfOverCapacity
  rcases @LruCache.sweep_done _ _ _ cfg.maxLoaded
    (fun m ↦ some name = some m ∨ 0 < w.refCounts.get m)
    (LruCache.moveToEnd (if name ∈ w.engines then w.engines else w.engines.insert name engine)
      name) with h | h
  · exact .inl h
  · right
    refine LruCache.countP_keys_le_one (l := name) fun m hm hp ↦ ?_
    have hs := h m hm
    simp only [Option.some.injEq, decide_eq_true_eq] at hs hp
    exact (hs.resolve_right hp).symm

/-- One step keeps the bound. -/
theorem Bounded.step (hw : w.Bounded cfg) (h : w.step cfg a = some w') :
    w'.Bounded cfg := by
  cases managerStep_of_step h with
  | call use model => exact hw
  | hit i use name engine hc he =>
    exact hw.of_subset (fun m hm ↦ LruCache.mem_moveToEnd.mp hm) fun m ↦ Int.le_refl _
  | miss | loaded | loadFailed | lost => exact hw
  | inserted i use name engine engine' hc he => exact bounded_insert name engine _
  | counted i name engine hc =>
    refine hw.of_subset (fun m hm ↦ hm) fun m ↦ ?_
    show w.refCounts.get m ≤ RefCounts.get (AList.insert name _ w.refCounts) m
    by_cases hm : m = name
    · subst hm
      rw [RefCounts.get, RefCounts.get, AList.lookup_insert, Option.getD_some]
      omega
    · simp [RefCounts.get, AList.lookup_insert_ne hm]
  | released i name engine n hc hn => exact (settled_evict _ _ _).bounded
  | unload name =>
    refine hw.of_subset (fun m hm ↦ ?_) fun m ↦ Int.le_refl _
    simp only [enginesAfterUnload] at hm
    split at hm
    · exact hm
    · exact (AList.mem_erase.mp hm).2

/-- A release settles the cache. -/
theorem settled_of_release {i : Nat} (hf : w.Counted) (h : w.step cfg (.release i) = some w') :
    w'.Settled cfg := by
  cases managerStep_of_step h with
  | released i name engine n hc hn => exact settled_evict _ _ _
  | lost i name engine hc hn =>
    have hpos : 0 < w.holders name :=
      List.countP_pos_iff.mpr ⟨_, List.mem_of_getElem? hc, by simp [Caller.holds]⟩
    have hl := hf name
    rw [if_neg (by omega), hn] at hl
    cases hl

end EngineManager

/-- In every reachable state the cache is within its capacity or has at most one engine without a
reference, so that its size is at most the larger of the capacity and the pinned engines plus one;
right after a release it is within its capacity or has pinned engines only. -/
theorem size_bounded (cfg : Config) (w : EngineManager) (hr : (system cfg).Reachable w) :
    w.Bounded cfg ∧ (w.engines.size : Int) ≤ max cfg.maxLoaded (w.pinned + 1) ∧
      ∀ i w', w.step cfg (.release i) = some w' →
        w'.Settled cfg ∧ (w'.engines.size : Int) ≤ max cfg.maxLoaded w'.pinned := by
  have hw : w.Bounded cfg := by
    refine hr.invariant (I := EngineManager.Bounded cfg) ?_ fun s a t _ hs h ↦ hs.step h
    exact .inr (Nat.zero_le _)
  refine ⟨hw, ?_, fun i w' h ↦ ?_⟩
  · have hsum := w.pinned_add_unpinned
    unfold EngineManager.Bounded at hw
    omega
  · have hs := EngineManager.settled_of_release (counted_of_reachable hr) h
    refine ⟨hs, ?_⟩
    rcases hs with hs | hs
    · omega
    · have hsum := w'.pinned_add_unpinned
      have hz := EngineManager.unpinned_eq_zero hs
      omega

/-- A manager without room: what is loaded while one engine is in use goes with the release. -/
def noRoom : Config := ⟨.tts, "a", 0⟩

/-- Two engines in a cache without room, one of them pinned, and the release of the pinned one. -/
theorem size_bounded_noRoom : ∃ w w' : EngineManager, w.engines.keys = ["b", "a"] ∧
    w.pinned = 1 ∧ w.step noRoom (.release 0) = some w' ∧ w'.engines.keys = [] ∧
    w.Bounded noRoom ∧ (w.engines.size : Int) ≤ max noRoom.maxLoaded (w.pinned + 1) ∧
    ∀ i w', w.step noRoom (.release i) = some w' →
      w'.Settled noRoom ∧ (w'.engines.size : Int) ≤ max noRoom.maxLoaded w'.pinned := by
  have hw : ∃ w w', (system noRoom).run ([Action.call .acquire none] ++ loadActions 0 ++
        [Action.count 0, .call .get (some "b")] ++ loadActions 1) = some w ∧
      w.engines.keys = ["b", "a"] ∧ w.pinned = 1 ∧ w.step noRoom (.release 0) = some w' ∧
      w'.engines.keys = [] := ⟨_, _, rfl, rfl, rfl, rfl, rfl⟩
  obtain ⟨w, w', hrun, hk, hp, hs, hk'⟩ := hw
  exact ⟨w, w', hk, hp, hs, hk',
    size_bounded noRoom w (TransitionSystem.reachable_of_run hrun)⟩

end BibiCore.Engine
