import Mathlib.Data.List.AList
import Mathlib.Data.List.Dedup

/-!
# Least-recently-used caches

An association list whose newest entry stands in front. `moveToEnd` makes an entry the newest,
`sweep` walks from the oldest to the newest entry and drops those it need not spare, until the
capacity is met.
-/

universe u v

namespace List

variable {α : Type u} [DecidableEq α]

/-- Without repetitions, each element stands where it occurred last. -/
theorem dedup_concat (l : List α) (a : α) : (l ++ [a]).dedup = l.dedup.erase a ++ [a] := by
  induction l with
  | nil => simp
  | cons b l ih =>
    rw [cons_append]
    by_cases hb : b ∈ l
    · rw [dedup_cons_of_mem hb, dedup_cons_of_mem (mem_append_left _ hb), ih]
    rw [dedup_cons_of_notMem hb]
    by_cases ha : b = a
    · subst ha
      rw [dedup_cons_of_mem (by simp), ih, erase_cons_head, erase_of_not_mem (by simpa using hb)]
    · rw [dedup_cons_of_notMem (by simp [hb, ha]), ih, erase_cons_tail (by simpa using ha),
        cons_append]

end List

/-- A cache from keys to values, newest entry first. -/
abbrev LruCache (κ : Type u) (ν : Type v) := AList fun _ : κ ↦ ν

namespace LruCache

variable {κ : Type u} {ν : Type v} [DecidableEq κ]

/-- The number of entries. -/
def size (c : LruCache κ ν) : Nat := c.entries.length

/-- Make an entry the newest one. -/
def moveToEnd (c : LruCache κ ν) (k : κ) : LruCache κ ν :=
  match c.lookup k with
  | some v => c.insert k v
  | none => c

/-- The walk of `sweep` over the keys that are left to look at. -/
def sweepKeys (capacity : Int) (spared : κ → Bool) : List κ → LruCache κ ν → LruCache κ ν
  | [], c => c
  | k :: ks, c =>
    if (size c : Int) ≤ capacity then c
    else if spared k then sweepKeys capacity spared ks c
    else sweepKeys capacity spared ks (c.erase k)

/-- Drop the oldest entries that are not spared, until the capacity is met. -/
def sweep (capacity : Int) (spared : κ → Bool) (c : LruCache κ ν) : LruCache κ ν :=
  if (size c : Int) ≤ capacity then c else sweepKeys capacity spared c.keys.reverse c

variable {capacity : Int} {spared : κ → Bool}

/-- The order of use is no part of the contents. -/
@[simp] theorem lookup_moveToEnd (c : LruCache κ ν) (k l : κ) :
    (moveToEnd c k).lookup l = c.lookup l := by
  unfold moveToEnd
  split
  · next v hv =>
    by_cases h : l = k
    · rw [h, AList.lookup_insert, hv]
    · rw [AList.lookup_insert_ne h]
  · rfl

private theorem lookup_sweepKeys (ks : List κ) (c : LruCache κ ν) (k : κ) :
    (sweepKeys capacity spared ks c).lookup k = c.lookup k ∨
      (sweepKeys capacity spared ks c).lookup k = none ∧ spared k = false := by
  induction ks generalizing c with
  | nil => exact .inl rfl
  | cons l ks ih =>
    unfold sweepKeys
    split
    · exact .inl rfl
    split
    · exact ih c
    · next hl =>
      rcases ih (c.erase l) with h | h
      · by_cases hk : k = l
        · subst hk
          right
          rw [h, AList.lookup_erase]
          exact ⟨rfl, Bool.eq_false_iff.mpr hl⟩
        · left
          rw [h, AList.lookup_erase_ne hk]
      · exact .inr h

/-- A sweep keeps an entry as it is or drops it, and drops none that it spares. -/
theorem lookup_sweep (c : LruCache κ ν) (k : κ) :
    (sweep capacity spared c).lookup k = c.lookup k ∨
      (sweep capacity spared c).lookup k = none ∧ spared k = false := by
  unfold sweep
  split
  · exact .inl rfl
  · exact lookup_sweepKeys _ c k

/-- A use makes no entry and drops none. -/
theorem mem_moveToEnd {c : LruCache κ ν} {k l : κ} : l ∈ moveToEnd c k ↔ l ∈ c := by
  rw [← AList.lookup_isSome, lookup_moveToEnd, AList.lookup_isSome]

/-- A sweep drops no entry that it spares. -/
theorem mem_sweep {c : LruCache κ ν} {k : κ} (hk : k ∈ c) (hs : spared k = true) :
    k ∈ sweep capacity spared c := by
  rw [← AList.lookup_isSome] at hk ⊢
  rcases lookup_sweep c k with h | ⟨-, h⟩
  · rwa [h]
  · rw [hs] at h
    cases h

private theorem sweepKeys_done (ks : List κ) (c : LruCache κ ν)
    (hc : ∀ k ∈ c, k ∈ ks ∨ spared k = true) :
    (size (sweepKeys capacity spared ks c) : Int) ≤ capacity ∨
      ∀ k ∈ sweepKeys capacity spared ks c, spared k = true := by
  induction ks generalizing c with
  | nil => exact .inr fun k hk ↦ (hc k hk).resolve_left (List.not_mem_nil)
  | cons l ks ih =>
    unfold sweepKeys
    split
    · next hle => exact .inl hle
    split
    · next hl =>
      apply ih
      intro k hk
      rcases hc k hk with hmem | hs
      · rcases List.mem_cons.mp hmem with rfl | hmem
        · exact .inr hl
        · exact .inl hmem
      · exact .inr hs
    · apply ih
      intro k hk
      obtain ⟨hne, hk⟩ := AList.mem_erase.mp hk
      exact (hc k hk).imp_left fun hmem ↦ (List.mem_cons.mp hmem).resolve_left hne

/-- A sweep meets the capacity or leaves nothing but what it spares. -/
theorem sweep_done (c : LruCache κ ν) :
    (size (sweep capacity spared c) : Int) ≤ capacity ∨
      ∀ k ∈ sweep capacity spared c, spared k = true := by
  unfold sweep
  split
  · next hle => exact .inl hle
  · apply sweepKeys_done
    intro k hk
    exact .inl (List.mem_reverse.mpr hk)

/-! ### Counting entries -/

omit [DecidableEq κ] in
/-- The entries of one kind are no more than those of another that has them all. -/
theorem countP_keys_le {c d : LruCache κ ν} {p q : κ → Bool}
    (h : ∀ k ∈ c, p k = true → k ∈ d ∧ q k = true) : c.keys.countP p ≤ d.keys.countP q := by
  rw [List.countP_eq_length_filter, List.countP_eq_length_filter]
  apply List.Subperm.length_le
  apply List.subperm_of_subset (c.keys_nodup.filter p)
  intro k hk
  obtain ⟨hk, hp⟩ := List.mem_filter.mp hk
  have hd := h k (AList.mem_keys.mpr hk) hp
  exact List.mem_filter.mpr ⟨AList.mem_keys.mp hd.1, hd.2⟩

omit [DecidableEq κ] in
/-- A cache whose entries are all among another's is no larger. -/
theorem size_le {c d : LruCache κ ν} (h : ∀ k ∈ c, k ∈ d) : size c ≤ size d := by
  have hlen (e : LruCache κ ν) : size e = e.keys.countP fun _ ↦ true := by
    simp [size, AList.keys, List.keys]
  rw [hlen, hlen]
  exact countP_keys_le fun k hk _ ↦ ⟨h k hk, rfl⟩

/-- Entries that all have one key are at most one. -/
theorem countP_keys_le_one {c : LruCache κ ν} {p : κ → Bool} {l : κ}
    (h : ∀ k ∈ c, p k = true → k = l) : c.keys.countP p ≤ 1 := by
  have hle : c.keys.countP p ≤ c.keys.count l :=
    List.countP_mono_left fun k hk hp ↦ by
      rw [h k (AList.mem_keys.mpr hk) hp]
      exact beq_self_eq_true l
  have hone := List.nodup_iff_count_le_one.mp c.keys_nodup l
  omega

/-! ### The order of use -/

/-- The keys, the one used longest ago first. -/
def order (c : LruCache κ ν) : List κ := c.keys.reverse

omit [DecidableEq κ] in
/-- The order names the keys of the cache. -/
theorem mem_order {c : LruCache κ ν} {k : κ} : k ∈ order c ↔ k ∈ c := List.mem_reverse

omit [DecidableEq κ] in
/-- No key stands twice in the order. -/
theorem order_nodup (c : LruCache κ ν) : (order c).Nodup := List.nodup_reverse.mpr c.keys_nodup

omit [DecidableEq κ] in
/-- The order is as long as the cache is large. -/
theorem length_order (c : LruCache κ ν) : (order c).length = size c := by
  simp [order, size, AList.keys, List.keys]

/-- A dropped key leaves the others in order. -/
theorem order_erase (c : LruCache κ ν) (k : κ) : order (c.erase k) = (order c).erase k := by
  rw [(order_nodup c).erase_eq_filter, order, AList.keys_erase, c.keys_nodup.erase_eq_filter,
    ← List.filter_reverse]
  rfl

/-- Dropping a key of the cache makes it smaller by one. -/
theorem size_erase {c : LruCache κ ν} {k : κ} (hk : k ∈ c) : size (c.erase k) + 1 = size c := by
  rw [← length_order, ← length_order, order_erase]
  have hmem : k ∈ order c := mem_order.mpr hk
  have hpos := List.length_pos_of_mem hmem
  have hlen := List.length_erase_of_mem hmem
  omega

/-- An entry that is used goes last. -/
theorem order_insert (c : LruCache κ ν) (k : κ) (v : ν) :
    order (c.insert k v) = (order c).erase k ++ [k] := by
  rw [← order_erase, order, AList.keys_insert, List.reverse_cons, ← AList.keys_erase]
  rfl

/-- A key that is moved to the end goes last. -/
theorem order_moveToEnd {c : LruCache κ ν} {k : κ} (hk : k ∈ c) :
    order (moveToEnd c k) = (order c).erase k ++ [k] := by
  unfold moveToEnd
  split
  · exact order_insert c k _
  · next h => exact absurd hk (AList.lookup_eq_none.mp h)

private theorem kerase_eq_filter {l : List (Sigma fun _ : κ ↦ ν)} (h : l.NodupKeys) (k : κ) :
    l.kerase k = l.filter fun e ↦ e.1 ≠ k := by
  induction l with
  | nil => rfl
  | cons e l ih =>
    have hl := ih (List.nodupKeys_cons.mp h).2
    by_cases hk : k = e.1
    · have hnot : k ∉ l.keys := by
        rw [hk]
        exact List.notMem_keys_of_nodupKeys_cons h
      rw [List.kerase_of_notMem_keys hnot] at hl
      rw [List.kerase_cons_eq hk, List.filter_cons_of_neg (by simp [hk]), ← hl]
    · rw [List.kerase_cons_ne hk, List.filter_cons_of_pos (by simp [Ne.symm hk]), hl]

/-- Dropping a key leaves the entries of the others. -/
theorem entries_erase (c : LruCache κ ν) (k : κ) :
    (c.erase k).entries = c.entries.filter fun e ↦ e.1 ≠ k :=
  kerase_eq_filter c.nodupKeys k

/-- The keys among `ks` that a sweep over `ks` drops: as many of those that are not spared, from
the oldest on, as there are entries beyond the capacity. -/
def victims (capacity : Int) (spared : κ → Bool) (ks : List κ) (c : LruCache κ ν) : List κ :=
  (ks.filter fun k ↦ !spared k).take ((size c : Int) - capacity).toNat

private theorem entries_sweepKeys (ks : List κ) (c : LruCache κ ν) (hks : ks.Nodup)
    (hc : ∀ k ∈ ks, k ∈ c) :
    (sweepKeys capacity spared ks c).entries =
      c.entries.filter fun e ↦ e.1 ∉ victims capacity spared ks c := by
  induction ks generalizing c with
  | nil => simp [sweepKeys, victims]
  | cons k ks ih =>
    obtain ⟨hk, hks⟩ := List.nodup_cons.mp hks
    obtain ⟨hkc, hc⟩ := List.forall_mem_cons.mp hc
    unfold sweepKeys
    split
    · next hle =>
      have hzero : ((size c : Int) - capacity).toNat = 0 := by omega
      simp [victims, hzero]
    split
    · next hs =>
      have hv : victims capacity spared (k :: ks) c = victims capacity spared ks c := by
        simp [victims, hs]
      rw [hv]
      exact ih c hks hc
    · next hle hs =>
      have hsize := size_erase hkc
      have hexcess : ((size c : Int) - capacity).toNat =
          ((size (c.erase k) : Int) - capacity).toNat + 1 := by omega
      have hv : victims capacity spared (k :: ks) c =
          k :: victims capacity spared ks (c.erase k) := by
        rw [victims, List.filter_cons_of_pos (by simp [hs]), hexcess, List.take_succ_cons]
        rfl
      have hc' : ∀ l ∈ ks, l ∈ c.erase k := fun l hl ↦
        AList.mem_erase.mpr ⟨ne_of_mem_of_not_mem hl hk, hc l hl⟩
      rw [ih (c.erase k) hks hc', entries_erase, List.filter_filter, hv]
      apply List.filter_congr
      intro e _
      simp [Bool.and_comm]

/-- A sweep drops the victims among all keys and leaves the rest as it is. -/
theorem entries_sweep (capacity : Int) (spared : κ → Bool) (c : LruCache κ ν) :
    (sweep capacity spared c).entries =
      c.entries.filter fun e ↦ e.1 ∉ victims capacity spared (order c) c := by
  unfold sweep
  split
  · next hle =>
    have hzero : ((size c : Int) - capacity).toNat = 0 := by omega
    simp [victims, hzero]
  · exact entries_sweepKeys _ c (order_nodup c) fun k hk ↦ mem_order.mp hk

/-- Drop the names beyond the capacity from an order, the oldest first and none that is spared. -/
def trim (capacity : Int) (spared : κ → Bool) (names : List κ) : List κ :=
  names.filter fun k ↦
    k ∉ (names.filter fun k ↦ !spared k).take ((names.length : Int) - capacity).toNat

/-- A sweep trims the order. -/
theorem order_sweep (capacity : Int) (spared : κ → Bool) (c : LruCache κ ν) :
    order (sweep capacity spared c) = trim capacity spared (order c) := by
  have hkeys : (sweep capacity spared c).keys =
      c.keys.filter fun k ↦ k ∉ victims capacity spared (order c) c := by
    rw [AList.keys, List.keys, entries_sweep]
    show _ = (c.entries.map Sigma.fst).filter _
    rw [List.filter_map]
    rfl
  rw [order, hkeys, ← List.filter_reverse, trim, length_order]
  rfl

/-- What can be asked of a least-recently-used cache. -/
inductive Request (κ : Type u) where
  | use (k : κ)
  | add (k : κ)
  | trim
  | remove (k : κ)
  deriving DecidableEq

/-- The keys of a least-recently-used cache after a request, the one used longest ago first: only
keys that are not pinned are dropped, and for want of room only the oldest of them. -/
def serve (capacity : Int) (pinned : κ → Bool) (ks : List κ) : Request κ → List κ
  | .use k => if k ∈ ks then ks.erase k ++ [k] else ks
  | .add k => trim capacity (fun l ↦ l = k ∨ pinned l) (ks.erase k ++ [k])
  | .trim => trim capacity pinned ks
  | .remove k => if pinned k then ks else ks.erase k

end LruCache
