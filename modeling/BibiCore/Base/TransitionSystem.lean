import Mathlib.Data.List.Induction

/-!
# Transition systems, guarded runs and their invariants

A transition system is an initial state and a partial step: an action that is not enabled
in a state has no successor. Interleavings of several parties are the action lists of one
system. A guard `P` on a state and an action singles out the runs all of whose steps meet
it; the rules below carry a property from one step to every such run.
-/

universe u v

/-- An initial state and a partial step. -/
structure TransitionSystem (σ : Type u) (α : Type v) where
  init : σ
  step : σ → α → Option σ

namespace TransitionSystem

variable {σ : Type u} {α : Type v}

/-- Run a list of actions from a state; `none` as soon as one is not enabled. -/
def runFrom (S : TransitionSystem σ α) : σ → List α → Option σ
  | s, [] => some s
  | s, a :: as =>
    match S.step s a with
    | some t => runFrom S t as
    | none => none

/-- Run a list of actions from the initial state. -/
def run (S : TransitionSystem σ α) (as : List α) : Option σ := S.runFrom S.init as

/-- Every action of the run meets the guard in the state it is taken in. -/
def Along (S : TransitionSystem σ α) (P : σ → α → Prop) : σ → List α → Prop
  | _, [] => True
  | s, a :: as => P s a ∧ ∀ t, S.step s a = some t → Along S P t as

/-- Every state the run passes through has the property, both ends included. -/
def Always (S : TransitionSystem σ α) (Q : σ → Prop) : σ → List α → Prop
  | s, [] => Q s
  | s, a :: as => Q s ∧ ∀ t, S.step s a = some t → Always S Q t as

/-- What the steps of a run give out, in order, when a step from `s` by `a` gives `out s a`. -/
def emitted {β : Type*} (S : TransitionSystem σ α) (out : σ → α → List β) : σ → List α → List β
  | _, [] => []
  | s, a :: as =>
    match S.step s a with
    | some t => out s a ++ emitted S out t as
    | none => []

/-- States reached by runs whose every step meets the guard. -/
inductive ReachableWith (S : TransitionSystem σ α) (P : σ → α → Prop) : σ → Prop
  | init : ReachableWith S P S.init
  | step {s t : σ} {a : α} (hr : ReachableWith S P s) (hp : P s a)
      (hs : S.step s a = some t) : ReachableWith S P t

/-- States reached by any run. -/
def Reachable (S : TransitionSystem σ α) : σ → Prop := S.ReachableWith fun _ _ ↦ True

variable {S : TransitionSystem σ α} {P P' : σ → α → Prop} {I : σ → Prop}

/-- Without actions the system stays where it is. -/
@[simp] theorem runFrom_nil (s : σ) : S.runFrom s [] = some s := rfl

/-- The run of a nonempty list takes its first step and runs the rest. -/
theorem runFrom_cons (s : σ) (a : α) (as : List α) :
    S.runFrom s (a :: as) = (S.step s a).bind fun t ↦ S.runFrom t as := by
  rw [runFrom]
  cases S.step s a <;> rfl

/-- A run of two lists runs the second from where the first ends. -/
theorem runFrom_append (s : σ) (as bs : List α) :
    S.runFrom s (as ++ bs) = (S.runFrom s as).bind fun t ↦ S.runFrom t bs := by
  induction as generalizing s with
  | nil => rfl
  | cons a as ih =>
    rw [List.cons_append, runFrom_cons, runFrom_cons, Option.bind_assoc]
    exact Option.bind_congr fun t _ ↦ ih t

/-- The last step of a run. -/
theorem run_concat_eq_some {as : List α} {a : α} {t : σ} :
    S.run (as ++ [a]) = some t ↔ ∃ s, S.run as = some s ∧ S.step s a = some t := by
  rw [run, runFrom_append, Option.bind_eq_some_iff]
  refine exists_congr fun s ↦ and_congr_right fun _ ↦ ?_
  rw [runFrom_cons, Option.bind_eq_some_iff]
  simp

/-- What a run takes after one of its steps is a run from where that step leads. -/
theorem runFrom_of_run_append_cons {as bs : List α} {a : α} {s t u : σ}
    (h : S.run (as ++ a :: bs) = some u) (hs : S.run as = some s) (ht : S.step s a = some t) :
    S.runFrom t bs = some u := by
  rw [run, runFrom_append, ← run, hs, Option.bind_some, runFrom_cons, ht, Option.bind_some] at h
  exact h

/-- The rule for what a run keeps: what every step keeps. -/
theorem runFrom_preserves {as : List α} {s u : σ} (hs : ∀ s a t, I s → S.step s a = some t → I t)
    (hi : I s) (h : S.runFrom s as = some u) : I u := by
  induction as generalizing s with
  | nil =>
    obtain rfl : s = u := Option.some.inj h
    exact hi
  | cons a as ih =>
    rw [runFrom_cons] at h
    obtain ⟨m, hm, h⟩ := Option.bind_eq_some_iff.mp h
    exact ih (hs s a m hi hm) h

/-- The guard on the last step of a run. -/
theorem along_concat {s t : σ} {as : List α} {a : α} (h : S.runFrom s as = some t) :
    S.Along P s (as ++ [a]) ↔ S.Along P s as ∧ P t a := by
  induction as generalizing s with
  | nil =>
    obtain rfl : s = t := Option.some.inj h
    simp [Along]
  | cons b bs ih =>
    rw [runFrom_cons] at h
    obtain ⟨m, hm, h⟩ := Option.bind_eq_some_iff.mp h
    simp [Along, hm, ih h, and_assoc]

/-- The rule for what a run's end has to do with the actions taken on the way. -/
theorem run_induction {J : List α → σ → Prop} (h0 : J [] S.init)
    (hs : ∀ as s a t, S.run as = some s → J as s → S.step s a = some t → J (as ++ [a]) t)
    {as : List α} {t : σ} (h : S.run as = some t) : J as t := by
  induction as using List.reverseRecOn generalizing t with
  | nil =>
    obtain rfl : S.init = t := Option.some.inj h
    exact h0
  | append_singleton as a ih =>
    obtain ⟨s, hrun, hstep⟩ := run_concat_eq_some.mp h
    exact hs as s a t hrun (ih hrun) hstep

/-- What two runs in a row give out. -/
theorem emitted_append {β : Type*} {out : σ → α → List β} {s t : σ} {as bs : List α}
    (h : S.runFrom s as = some t) :
    S.emitted out s (as ++ bs) = S.emitted out s as ++ S.emitted out t bs := by
  induction as generalizing s with
  | nil =>
    obtain rfl : s = t := Option.some.inj h
    rfl
  | cons a as ih =>
    rw [runFrom_cons] at h
    obtain ⟨m, hm, h⟩ := Option.bind_eq_some_iff.mp h
    simp only [List.cons_append, emitted, hm, ih h, List.append_assoc]

/-- What the last step of a run gives out. -/
theorem emitted_concat {β : Type*} {out : σ → α → List β} {s t u : σ} {as : List α} {a : α}
    (h : S.runFrom s as = some t) (ha : S.step t a = some u) :
    S.emitted out s (as ++ [a]) = S.emitted out s as ++ out t a := by
  simp [emitted_append h, emitted, ha]

/-- What a run gives out, one of its steps gives out. -/
theorem exists_of_mem_emitted {β : Type*} {out : σ → α → List β} {s : σ} {as : List α} {b : β}
    (h : b ∈ S.emitted out s as) : ∃ a ∈ as, ∃ t, b ∈ out t a := by
  induction as generalizing s with
  | nil => cases h
  | cons a as ih =>
    rw [emitted] at h
    split at h
    · rcases List.mem_append.mp h with h | h
      · exact ⟨a, List.mem_cons_self, s, h⟩
      · obtain ⟨a', ha', ht⟩ := ih h
        exact ⟨a', List.mem_cons_of_mem a ha', ht⟩
    · cases h

/-- A weaker guard admits every run of a stronger one. -/
theorem ReachableWith.mono (h : ∀ s a, P s a → P' s a) {s : σ} (hr : S.ReachableWith P s) :
    S.ReachableWith P' s := by
  induction hr with
  | init => exact .init
  | step _ hp hs ih => exact .step ih (h _ _ hp) hs

/-- Guarded runs are runs. -/
theorem ReachableWith.reachable {s : σ} (hr : S.ReachableWith P s) : S.Reachable s :=
  hr.mono fun _ _ _ ↦ trivial

/-- One more step of any run. -/
theorem Reachable.next {s t : σ} {a : α} (hr : S.Reachable s) (hs : S.step s a = some t) :
    S.Reachable t :=
  ReachableWith.step hr trivial hs

/-- The invariant rule: what holds initially and survives every admitted step from a
reached state holds in every reached state. -/
theorem ReachableWith.invariant (h0 : I S.init)
    (hs : ∀ s a t, S.ReachableWith P s → I s → P s a → S.step s a = some t → I t)
    {s : σ} (hr : S.ReachableWith P s) : I s := by
  induction hr with
  | init => exact h0
  | step hr hp ht ih => exact hs _ _ _ hr ih hp ht

/-- The invariant rule for unguarded runs. -/
theorem Reachable.invariant (h0 : I S.init)
    (hs : ∀ s a t, S.Reachable s → I s → S.step s a = some t → I t)
    {s : σ} (hr : S.Reachable s) : I s :=
  ReachableWith.invariant h0 (fun s a t hr hi _ ↦ hs s a t hr hi) hr

/-- A run from a reached state reaches its end, when every step meets the guard. -/
theorem ReachableWith.runFrom {s t : σ} {as : List α} (hr : S.ReachableWith P s)
    (ha : S.Along P s as) (h : S.runFrom s as = some t) : S.ReachableWith P t := by
  induction as generalizing s with
  | nil => simpa [← Option.some.inj h] using hr
  | cons a as ih =>
    rw [runFrom_cons] at h
    obtain ⟨m, hm, h⟩ := Option.bind_eq_some_iff.mp h
    exact ih (.step hr ha.1 hm) (ha.2 m hm) h

private theorem along_true (s : σ) (as : List α) : S.Along (fun _ _ ↦ True) s as := by
  induction as generalizing s with
  | nil => trivial
  | cons a as ih => exact ⟨trivial, fun t _ ↦ ih t⟩

/-- The end of any run is reachable. -/
theorem reachable_of_run {as : List α} {t : σ} (h : S.run as = some t) : S.Reachable t :=
  ReachableWith.runFrom .init (along_true _ _) h

/-- A reachable state is the end of a run. -/
theorem Reachable.exists_run {s : σ} (hr : S.Reachable s) : ∃ as, S.run as = some s := by
  induction hr with
  | init => exact ⟨[], rfl⟩
  | step _ _ hs ih =>
    obtain ⟨as, has⟩ := ih
    exact ⟨as ++ [_], run_concat_eq_some.mpr ⟨_, has, hs⟩⟩

/-- A property whose loss in one step is exactly a breach of the guard holds throughout a run
if and only if every step of the run meets the guard. -/
theorem always_iff_along (h0 : I S.init)
    (hs : ∀ s a t, S.Reachable s → I s → S.step s a = some t → (I t ↔ P s a))
    {as : List α} {u : σ} (h : S.run as = some u) :
    S.Always I S.init as ↔ S.Along P S.init as := by
  suffices key : ∀ s, S.Reachable s → I s → S.runFrom s as = some u →
      (S.Always I s as ↔ S.Along P s as) from key _ .init h0 h
  clear h h0
  induction as with
  | nil => exact fun s _ hi _ ↦ ⟨fun _ ↦ trivial, fun _ ↦ hi⟩
  | cons a as ih =>
    intro s hr hi h
    rw [runFrom_cons] at h
    obtain ⟨m, hm, h⟩ := Option.bind_eq_some_iff.mp h
    have hstep := hs s a m hr hi hm
    constructor
    · rintro ⟨_, ha⟩
      have hIm : I m := by
        have := ha m hm
        cases as with
        | nil => exact this
        | cons b bs => exact this.1
      refine ⟨hstep.mp hIm, fun t ht ↦ ?_⟩
      obtain rfl : m = t := Option.some.inj (hm.symm.trans ht)
      exact (ih m (hr.next hm) hIm h).mp (ha m hm)
    · rintro ⟨hp, ha⟩
      have hIm : I m := hstep.mpr hp
      refine ⟨hi, fun t ht ↦ ?_⟩
      obtain rfl : m = t := Option.some.inj (hm.symm.trans ht)
      exact (ih m (hr.next hm) hIm h).mpr (ha m hm)

/-- The budget rule: when every step of a run pays for what it adds to a cost `c` out of a budget
`b`, the whole run adds no more than the budget it began with. -/
theorem runFrom_budget {c b : σ → Nat} {u : σ}
    (hs : ∀ s a t bs, S.Reachable s → I s → S.step s a = some t → S.runFrom t bs = some u →
      I t ∧ c t + b t ≤ c s + b s)
    {s : σ} {as : List α} (hr : S.Reachable s) (hi : I s) (h : S.runFrom s as = some u) :
    c u ≤ c s + b s := by
  suffices key : c u + b u ≤ c s + b s by omega
  induction as generalizing s with
  | nil =>
    obtain rfl : s = u := Option.some.inj h
    exact Nat.le_refl _
  | cons a as ih =>
    rw [runFrom_cons] at h
    obtain ⟨m, hm, h⟩ := Option.bind_eq_some_iff.mp h
    obtain ⟨hi', hle⟩ := hs s a m as hr hi hm h
    exact Nat.le_trans (ih (hr.next hm) hi' h) hle

/-- The price rule: when every action counted by `p` is paid for out of a budget `b`, a run takes
no more of them than the budget it began with. -/
theorem countP_add_le {p : α → Bool} {b : σ → Nat}
    (hs : ∀ s a t, I s → S.step s a = some t → I t ∧ (if p a then 1 else 0) + b t ≤ b s)
    {s u : σ} {as : List α} (hi : I s) (h : S.runFrom s as = some u) :
    as.countP p + b u ≤ b s := by
  induction as generalizing s with
  | nil =>
    obtain rfl : s = u := Option.some.inj h
    rw [List.countP_nil]
    omega
  | cons a as ih =>
    rw [runFrom_cons] at h
    obtain ⟨m, hm, h⟩ := Option.bind_eq_some_iff.mp h
    obtain ⟨hi', hle⟩ := hs s a m hi hm
    have hrest := ih hi' h
    rw [List.countP_cons]
    omega

/-- No action with the property is enabled. -/
def Stalled (S : TransitionSystem σ α) (p : α → Bool) (s : σ) : Prop :=
  ∀ a, p a = true → S.step s a = none

/-- The length rule: when every action takes a unit of the budget `b`, of which those counted by
`p` bring `fee`, a run is no longer than what it began with and was brought. -/
theorem length_add_le {p : α → Bool} {b : σ → Nat} {fee : Nat}
    (hs : ∀ s a t, I s → S.step s a = some t →
      I t ∧ b t + 1 ≤ b s + if p a = true then fee else 0)
    {s u : σ} {as : List α} (hi : I s) (h : S.runFrom s as = some u) :
    as.length + b u ≤ b s + fee * as.countP p := by
  induction as generalizing s with
  | nil =>
    obtain rfl : s = u := Option.some.inj h
    simp
  | cons a as ih =>
    rw [runFrom_cons] at h
    obtain ⟨m, hm, h⟩ := Option.bind_eq_some_iff.mp h
    obtain ⟨hi', hle⟩ := hs s a m hi hm
    have hrest := ih hi' h
    rw [List.length_cons, List.countP_cons, Nat.mul_add]
    by_cases hp : p a = true
    · rw [if_pos hp] at hle ⊢
      omega
    · rw [if_neg hp] at hle ⊢
      omega

/-- The stopping rule: when every action with the property takes a unit of the budget, a state
that has none of them left is reached by them alone. -/
theorem exists_runFrom_stalled {p : α → Bool} {b : σ → Nat}
    (hs : ∀ s a t, I s → p a = true → S.step s a = some t → I t ∧ b t < b s) {s : σ}
    (hi : I s) : ∃ as u, (∀ a ∈ as, p a = true) ∧ S.runFrom s as = some u ∧ I u ∧
      S.Stalled p u := by
  induction hn : b s using Nat.strongRecOn generalizing s with
  | ind n ih =>
    by_cases hstall : S.Stalled p s
    · exact ⟨[], s, by simp, rfl, hi, hstall⟩
    · obtain ⟨a, hp, t, ht⟩ : ∃ a, p a = true ∧ ∃ t, S.step s a = some t := by
        simpa [Stalled, Option.ne_none_iff_exists'] using hstall
      obtain ⟨hi', hlt⟩ := hs s a t hi hp ht
      obtain ⟨as, u, has, hrun, hu, hstall⟩ := ih (b t) (hn ▸ hlt) hi' rfl
      refine ⟨a :: as, u, List.forall_mem_cons.mpr ⟨hp, has⟩, ?_, hu, hstall⟩
      rw [runFrom_cons, ht, Option.bind_some, hrun]

/-- Executable run under a decidable guard: `none` when an action is not enabled or breaks
the guard. -/
def runGuarded (S : TransitionSystem σ α) (P : σ → α → Prop) [∀ s a, Decidable (P s a)] :
    σ → List α → Option σ
  | s, [] => some s
  | s, a :: as =>
    if P s a then
      match S.step s a with
      | some t => runGuarded S P t as
      | none => none
    else none

/-- A successful guarded execution certifies guarded reachability. -/
theorem ReachableWith.runGuarded [∀ s a, Decidable (P s a)] {s t : σ} {as : List α}
    (hr : S.ReachableWith P s) (h : S.runGuarded P s as = some t) : S.ReachableWith P t := by
  induction as generalizing s with
  | nil => simpa [← Option.some.inj h] using hr
  | cons a as ih =>
    rw [TransitionSystem.runGuarded] at h
    split at h
    · next hp =>
      split at h
      · next m hm => exact ih (.step hr hp hm) h
      · cases h
    · cases h

/-- A successful guarded execution is a run whose every step meets the guard. -/
theorem along_of_runGuarded [∀ s a, Decidable (P s a)] {s t : σ} {as : List α}
    (h : S.runGuarded P s as = some t) : S.runFrom s as = some t ∧ S.Along P s as := by
  induction as generalizing s with
  | nil => exact ⟨h, trivial⟩
  | cons a as ih =>
    rw [TransitionSystem.runGuarded] at h
    split at h
    · next hp =>
      split at h
      · next m hm =>
        obtain ⟨hrun, halong⟩ := ih h
        refine ⟨by rw [runFrom_cons, hm, Option.bind_some, hrun], hp, fun u hu ↦ ?_⟩
        rwa [← Option.some.inj (hm.symm.trans hu)]
      · cases h
    · cases h

end TransitionSystem
