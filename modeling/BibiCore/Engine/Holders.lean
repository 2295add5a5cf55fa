import Mathlib.Data.List.Basic
import BibiCore.Engine.Manager

/-!
# Engines in use

The counts are exact in every reachable state. The cache keeps the engine of every acquirer that
has been counted; it keeps the others' too as long as no sweep and no `unload` takes the name of
an acquirer between the return of `_get_or_load` and its count.
-/

namespace BibiCore.Engine

namespace EngineManager

/-- The acquire blocks for the name that are being executed. -/
def holders (w : EngineManager) (name : String) : Nat := w.callers.countP (·.holds name)

/-- `_ref_counts` has the number of holders of a name, and no entry when there is none. -/
def Counted (w : EngineManager) : Prop :=
  ∀ name, AList.lookup name w.refCounts =
    if w.holders name = 0 then none else some (w.holders name : Int)

/-- The cache has the engine of every acquirer from `_get_or_load`'s return to its release. -/
def Cached (w : EngineManager) : Prop :=
  ∀ c ∈ w.callers, ∀ name engine, c.engine? = some (name, engine) →
    w.engines.lookup name = some engine

/-- Whoever is inside an acquire block holds the engine that the cache has for the name, so that
two holders of one name hold one instance. -/
def HoldersCached (w : EngineManager) : Prop :=
  (∀ name engine, .holding name engine ∈ w.callers → w.engines.lookup name = some engine) ∧
    ∀ name engine engine', .holding name engine ∈ w.callers → .holding name engine' ∈ w.callers →
      engine = engine'

/-- What the sweep or the `pop` of an action leaves in the cache. -/
def swept (cfg : Config) (w : EngineManager) : Action → Engines
  | .insert i =>
    match w.callers[i]? with
    | some (.insert _ name engine) => w.enginesAfterInsert cfg name engine
    | _ => w.engines
  | .release i =>
    match w.callers[i]? with
    | some (.holding name _) =>
      match AList.lookup name w.refCounts with
      | some n => w.enginesAfterRelease cfg (w.countsAfterRelease name n)
      | none => w.engines
    | _ => w.engines
  | .unload name => w.enginesAfterUnload name
  | _ => w.engines

/-- The action takes no name out of the cache that an acquirer has been given an engine for and
not counted yet. -/
def SparesUncounted (cfg : Config) (w : EngineManager) (a : Action) : Prop :=
  ∀ c ∈ w.callers, ∀ name ∈ c.uncounted?, name ∈ w.swept cfg a

instance (cfg : Config) (w : EngineManager) (a : Action) : Decidable (w.SparesUncounted cfg a) :=
  inferInstanceAs (Decidable (∀ c ∈ w.callers, ∀ name ∈ (c.uncounted? : Option _), _))

/-- How a step moves one caller on and what it does to the counts. -/
inductive Moves (w : EngineManager) (engines : Engines) : Caller → Caller → RefCounts → Prop
  | search {c c' : Caller} (hc : c.engine? = none) (hh : ∀ name, c'.holds name = false)
      (hc' : ∀ name engine, c'.engine? = some (name, engine) →
        engines.lookup name = some engine) : Moves w engines c c' w.refCounts
  | count (name : String) (engine : EngineId) :
      Moves w engines (.count name engine) (.holding name engine)
        (AList.insert name (w.refCounts.get name + 1) w.refCounts)
  | release (name : String) (engine : EngineId) (n : Int)
      (hn : AList.lookup name w.refCounts = some n) :
      Moves w engines (.holding name engine) .released (w.countsAfterRelease name n)
  | lost (name : String) (engine : EngineId) (hn : AList.lookup name w.refCounts = none) :
      Moves w engines (.holding name engine) (.raised (.keyError name)) w.refCounts

/-- What a step does to the callers and the counts. -/
inductive Advances (w w' : EngineManager) : Prop
  | call (c : Caller) (hc : c.engine? = none) (hs : w'.callers = w.callers ++ [c])
      (hr : w'.refCounts = w.refCounts)
  | unload (hs : w'.callers = w.callers) (hr : w'.refCounts = w.refCounts)
  | move (i : Nat) (c c' : Caller) (hc : w.callers[i]? = some c)
      (hs : w'.callers = w.callers.set i c') (hm : Moves w w'.engines c c' w'.refCounts)

/-- A cached engine stays under its name or is taken out, and then nobody is counted for it. -/
def Keeps (engines engines' : Engines) (counts : RefCounts) : Prop :=
  ∀ name engine, engines.lookup name = some engine →
    engines'.lookup name = some engine ∨ engines'.lookup name = none ∧ counts.get name ≤ 0

/-- Everything a step can do. -/
structure Effect (cfg : Config) (w : EngineManager) (a : Action) (w' : EngineManager) : Prop where
  engines : ∀ name, w'.engines.lookup name = (w.swept cfg a).lookup name
  keeps : Keeps w.engines w'.engines w'.refCounts
  callers : Advances w w'

variable {cfg : Config} {w w' : EngineManager} {a : Action} {engines : Engines}
  {counts : RefCounts}

private theorem engine?_obtained {use : Use} {name m : String} {engine e : EngineId}
    (h : (Caller.obtained use name engine).engine? = some (m, e)) : m = name ∧ e = engine := by
  cases use with
  | acquire =>
    cases h
    exact ⟨rfl, rfl⟩
  | get => cases h

private theorem holds_obtained (use : Use) (name m : String) (engine : EngineId) :
    (Caller.obtained use name engine).holds m = false := by
  cases use <;> rfl

private theorem holds_eq_false {c : Caller} (hc : c.engine? = none) (name : String) :
    c.holds name = false := by
  cases c <;> first | rfl | cases hc

private theorem keeps_refl : Keeps engines engines counts := fun _ _ h ↦ .inl h

private theorem keeps_moveToEnd (name : String) :
    Keeps engines (LruCache.moveToEnd engines name) counts := by
  intro m e hm
  left
  rw [LruCache.lookup_moveToEnd, hm]

/-- A sweep takes out no name that is counted. -/
theorem keeps_evictIfOverCapacity (protect : Option String) :
    Keeps engines (evictIfOverCapacity cfg counts protect engines) counts := by
  intro m e hm
  rcases LruCache.lookup_sweep engines m with hk | ⟨hk, hs⟩
  · left
    rw [evictIfOverCapacity, hk, hm]
  · right
    refine ⟨hk, ?_⟩
    simp only [decide_eq_false_iff_not, not_or] at hs
    omega

private theorem keeps_insert (name : String) (engine : EngineId) :
    Keeps w.engines (w.enginesAfterInsert cfg name engine) w.refCounts := by
  intro m e hm
  apply keeps_evictIfOverCapacity
  rw [LruCache.lookup_moveToEnd]
  split
  · exact hm
  · next hn =>
    have hne : m ≠ name := by
      rintro rfl
      apply hn
      rw [← AList.lookup_isSome, hm]
      rfl
    rw [AList.lookup_insert_ne hne, hm]

private theorem keeps_unload (name : String) :
    Keeps w.engines (w.enginesAfterUnload name) w.refCounts := by
  intro m e hm
  unfold enginesAfterUnload
  split
  · exact .inl hm
  · next hn =>
    by_cases hmn : m = name
    · subst hmn
      right
      exact ⟨AList.lookup_erase _ _, by omega⟩
    · left
      rw [AList.lookup_erase_ne hmn, hm]

/-- What a step does, case by case. -/
theorem step_effect (h : w.step cfg a = some w') : Effect cfg w a w' := by
  cases managerStep_of_step h with
  | call use model =>
    refine ⟨fun _ ↦ rfl, keeps_refl, .call _ ?_ rfl rfl⟩
    split <;> rfl
  | hit i use name engine hc he =>
    refine ⟨LruCache.lookup_moveToEnd _ _, keeps_moveToEnd name, .move i _ _ hc rfl
      (.search rfl (holds_obtained _ _ · _) fun m e hm ↦ ?_)⟩
    obtain ⟨rfl, rfl⟩ := engine?_obtained hm
    rw [LruCache.lookup_moveToEnd, he]
  | miss i use name hc | loaded i use name hc | loadFailed i use name error hc =>
    exact ⟨fun _ ↦ rfl, keeps_refl, .move i _ _ hc rfl
      (.search rfl (fun _ ↦ rfl) fun _ _ hm ↦ by cases hm)⟩
  | inserted i use name engine engine' hc he =>
    refine ⟨fun _ ↦ by simp only [swept, hc], keeps_insert name engine, .move i _ _ hc rfl
      (.search rfl (fun m ↦ holds_obtained _ _ _ _) fun m e hm ↦ ?_)⟩
    obtain ⟨rfl, rfl⟩ := engine?_obtained hm
    exact he
  | counted i name engine hc =>
    exact ⟨fun _ ↦ rfl, fun _ _ hm ↦ .inl hm, .move i _ _ hc rfl (.count name engine)⟩
  | released i name engine n hc hn =>
    exact ⟨fun _ ↦ by simp only [swept, hc, hn], keeps_evictIfOverCapacity none,
      .move i _ _ hc rfl (.release name engine n hn)⟩
  | lost i name engine hc hn =>
    exact ⟨fun _ ↦ by simp only [swept, hc, hn], keeps_refl,
      .move i _ _ hc rfl (.lost name engine hn)⟩
  | unload name => exact ⟨fun _ ↦ rfl, keeps_unload name, .unload rfl rfl⟩

private theorem holders_set {i : Nat} {c c' : Caller} (hc : w.callers[i]? = some c)
    (hs : w'.callers = w.callers.set i c') (name : String) :
    w'.holders name =
      w.holders name - (if c.holds name then 1 else 0) + if c'.holds name then 1 else 0 := by
  obtain ⟨hi, rfl⟩ := List.getElem?_eq_some_iff.mp hc
  rw [holders, hs, List.countP_set hi, holders]

private theorem holders_pos {name : String} {engine : EngineId}
    (h : .holding name engine ∈ w.callers) : 0 < w.holders name :=
  List.countP_pos_iff.mpr ⟨_, h, by simp [Caller.holds]⟩

/-- The count of a name is the number of its holders. -/
theorem Counted.get (hw : w.Counted) (name : String) :
    w.refCounts.get name = (w.holders name : Int) := by
  rw [RefCounts.get, hw name]
  split
  · next h => simp [h]
  · rfl

private theorem lookup_countsAfterRelease_ne {name m : String} {n : Int} (hm : m ≠ name) :
    AList.lookup m (w.countsAfterRelease name n) = AList.lookup m w.refCounts := by
  unfold countsAfterRelease
  split
  · exact AList.lookup_erase_ne hm
  · exact AList.lookup_insert_ne hm

private theorem lookup_countsAfterRelease (name : String) {n : Nat} (hn : 0 < n) :
    AList.lookup name (w.countsAfterRelease name n) =
      if n - 1 = 0 then none else some ((n - 1 : Nat) : Int) := by
  unfold countsAfterRelease
  split
  · rw [AList.lookup_erase, if_pos (by omega)]
  · rw [AList.lookup_insert, if_neg (by omega), Int.natCast_sub (by omega)]
    rfl

/-- One step keeps the counts exact. -/
theorem Counted.step (hw : w.Counted) (h : w.step cfg a = some w') : w'.Counted := by
  intro m
  cases (step_effect h).callers with
  | call c hc hs hr =>
    have hn : w'.holders m = w.holders m := by
      simp [holders, hs, List.countP_append, holds_eq_false hc m]
    rw [hr, hn, hw m]
  | unload hs hr =>
    have hn : w'.holders m = w.holders m := by rw [holders, hs, holders]
    rw [hr, hn, hw m]
  | move i c c' hc hs hm =>
    have hn := holders_set hc hs m
    generalize w'.refCounts = counts at hm
    cases hm with
    | search hce hh hc' =>
      have hsame : w'.holders m = w.holders m := by simp [hn, holds_eq_false hce m, hh m]
      rw [hsame, hw m]
    | count name engine =>
      by_cases hmn : m = name
      · subst hmn
        have hmore : w'.holders m = w.holders m + 1 := by simp [hn, Caller.holds]
        rw [AList.lookup_insert, hw.get, hmore, if_neg (Nat.succ_ne_zero _), Int.natCast_succ]
      · have hsame : w'.holders m = w.holders m := by simp [hn, Caller.holds, Ne.symm hmn]
        rw [AList.lookup_insert_ne hmn, hsame, hw m]
    | release name engine n hl =>
      have hpos := holders_pos (List.mem_of_getElem? hc)
      rw [hw name, if_neg (by omega)] at hl
      obtain rfl := Option.some.inj hl
      by_cases hmn : m = name
      · subst hmn
        have hless : w'.holders m = w.holders m - 1 := by simp [hn, Caller.holds]
        rw [hless, lookup_countsAfterRelease m hpos]
      · have hsame : w'.holders m = w.holders m := by simp [hn, Caller.holds, Ne.symm hmn]
        rw [hsame, lookup_countsAfterRelease_ne hmn, hw m]
    | lost name engine hl =>
      have hpos := holders_pos (List.mem_of_getElem? hc)
      rw [hw name, if_neg (by omega)] at hl
      cases hl

private theorem uncounted_or_holder {c : Caller} {name : String} {engine : EngineId}
    (hc : c ∈ w.callers) (he : c.engine? = some (name, engine)) :
    c.uncounted? = some name ∨ 0 < w.holders name := by
  cases c with
  | count name' engine' =>
    cases he
    exact .inl rfl
  | holding name' engine' =>
    cases he
    exact .inr (holders_pos hc)
  | _ => cases he

/-- One step keeps the engines of the acquirers cached when it takes no uncounted name. -/
theorem Cached.step (hw : w.Cached) (hcount : w.Counted) (hp : w.SparesUncounted cfg a)
    (h : w.step cfg a = some w') : w'.Cached := by
  -- who was there before keeps its engine: a sweep passes over holders, the guard speaks for
  -- the uncounted
  have hkeep : ∀ c ∈ w.callers, ∀ name engine, c.engine? = some (name, engine) →
      (c.uncounted? = some name ∨ 0 < w'.holders name) →
      w'.engines.lookup name = some engine := by
    intro c hc name engine he hor
    rcases (step_effect h).keeps name engine (hw c hc name engine he) with hk | ⟨hk, hg⟩
    · exact hk
    · rw [(hcount.step h).get] at hg
      have hu := hor.resolve_right (by omega)
      have hmem := hp c hc name hu
      rw [← AList.lookup_isSome, ← (step_effect h).engines, hk] at hmem
      cases hmem
  intro c hc name engine he
  have hor := uncounted_or_holder hc he
  cases (step_effect h).callers with
  | call d hd hs hr =>
    rw [hs] at hc
    rcases List.mem_append.mp hc with hc | hc
    · exact hkeep c hc name engine he hor
    · obtain rfl := List.mem_singleton.mp hc
      rw [hd] at he
      cases he
  | unload hs hr =>
    rw [hs] at hc
    exact hkeep c hc name engine he hor
  | move i d d' hdi hs hm =>
    rw [hs] at hc
    rcases List.mem_or_eq_of_mem_set hc with hc | rfl
    · exact hkeep c hc name engine he hor
    · have hd := List.mem_of_getElem? hdi
      generalize w'.refCounts = counts at hm
      cases hm with
      | search hce hh hc' => exact hc' name engine he
      | count name' engine' =>
        cases he
        exact hkeep _ hd name engine rfl (.inl rfl)
      | release => cases he
      | lost => cases he

/-- A cache that has every acquirer's engine has every holder's. -/
theorem Cached.holdersCached (hw : w.Cached) : w.HoldersCached := by
  have hc : ∀ name engine, .holding name engine ∈ w.callers → w.engines.lookup name = some engine :=
    fun name engine h ↦ hw _ h name engine rfl
  refine ⟨hc, fun name engine engine' h h' ↦ ?_⟩
  exact Option.some.inj ((hc name engine h).symm.trans (hc name engine' h'))

end EngineManager

/-- The counts are exact in every reachable state. -/
theorem counted_of_reachable {cfg : Config} {w : EngineManager} (hr : (system cfg).Reachable w) :
    w.Counted := by
  refine hr.invariant (I := EngineManager.Counted) ?_ fun s a t _ hs h ↦ hs.step h
  exact fun name ↦ rfl

/-- In every run that takes no uncounted acquirer's name out of the cache, whoever is inside an
acquire block holds the cached engine of its name. -/
theorem holdersCached_of_sparesUncounted (cfg : Config) (w : EngineManager)
    (hr : (system cfg).ReachableWith (EngineManager.SparesUncounted cfg) w) : w.HoldersCached := by
  have hcached : w.Cached := by
    refine hr.invariant (I := EngineManager.Cached) ?_ fun s a t hs hi hp h ↦ ?_
    · intro c hc
      cases hc
    · exact hi.step (counted_of_reachable hs.reachable) hp h
  exact hcached.holdersCached

/-- A manager for one model. -/
def oneModel : Config := ⟨.stt, "a", 1⟩

/-- A model is loaded while another one is in use: the cache exceeds its capacity. -/
theorem holdersCached_of_sparesUncounted_run : ∃ w : EngineManager, w.HoldersCached ∧
    .holding "a" 0 ∈ w.callers ∧ w.engines.keys = ["b", "a"] := by
  have hw : ∃ w : EngineManager, (system oneModel).runGuarded
      (EngineManager.SparesUncounted oneModel) (system oneModel).init
      ([Action.call .acquire none] ++ loadActions 0 ++ [Action.count 0, .call .get (some "b")] ++
        loadActions 1) = some w ∧
      .holding "a" 0 ∈ w.callers ∧ w.engines.keys = ["b", "a"] := ⟨_, rfl, by decide, rfl⟩
  obtain ⟨w, hrun, hh, hk⟩ := hw
  exact ⟨w, holdersCached_of_sparesUncounted oneModel w (.runGuarded .init hrun), hh, hk⟩

/-- The other model is loaded before the acquirer of the first is counted: its engine is evicted,
and the next acquirer loads and holds another one. -/
theorem not_holdersCached : ∃ w : EngineManager, (system oneModel).run
      ([.call .acquire none] ++ loadActions 0 ++ [.call .get (some "b")] ++ loadActions 1 ++
        [.count 0, .call .acquire none] ++ loadActions 2 ++ [.count 2]) = some w ∧
    .holding "a" 0 ∈ w.callers ∧ .holding "a" 2 ∈ w.callers ∧
      w.engines.lookup "a" = some 2 ∧ ¬ w.HoldersCached := by
  refine ⟨_, rfl, by decide, by decide, rfl, fun h ↦ ?_⟩
  exact absurd (h.2 "a" 0 2 (by decide) (by decide)) (by decide)

end BibiCore.Engine
