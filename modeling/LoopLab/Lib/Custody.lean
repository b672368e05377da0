import LoopLab.Lib.Table
import Mathlib.Data.List.Perm.Basic
import Mathlib.Data.List.Sublists
import Mathlib.Algebra.Order.BigOperators.Group.List

/-!
# Things in custody

What the rows of a table hold is counted as one share; writing or dropping one row moves the share by that row
alone.
-/

set_option autoImplicit false

namespace LoopLab.Lib

universe u v w
variable {κ : Type u} {α : Type v} {β : Type w} [DecidableEq κ] [DecidableEq β]

namespace Table

variable {key : α → κ}

theorem perm_erase {t : Table key} {k : κ} {a : α} (h : t.get k = some a) :
    t.rows.Perm (a :: (t.erase k).rows) := by
  obtain ⟨rows, nodup⟩ := t
  simp only [get, erase] at h ⊢
  induction rows with
  | nil => cases h
  | cons b bs ih =>
    obtain ⟨hb, hbs⟩ := List.nodup_cons.mp nodup
    by_cases hk : key b = k
    · rw [List.find?_cons_of_pos (by simpa using hk)] at h
      cases h
      have hrest : bs.filter (key · ≠ k) = bs := by
        apply List.filter_eq_self.mpr
        intro c hc
        exact decide_eq_true fun hck => hb (List.mem_map.mpr ⟨c, hc, hck.trans hk.symm⟩)
      rw [List.filter_cons_of_neg (by simpa using hk), hrest]
    · rw [List.find?_cons_of_neg (by simpa using hk)] at h
      rw [List.filter_cons_of_pos (by simpa using hk)]
      exact ((ih hbs h).cons b).trans (.swap _ _ _)

theorem erase_put (t : Table key) (a : α) : ((t.put a).erase (key a)).rows = (t.erase (key a)).rows := by
  obtain ⟨rows, nodup⟩ := t
  simp only [put, erase]
  clear nodup
  induction rows with
  | nil => simp [putRow]
  | cons b bs ih =>
    unfold putRow
    by_cases hb : key b = key a
    · rw [if_pos hb, List.filter_cons_of_neg (by simp), List.filter_cons_of_neg (by simpa using hb)]
    · rw [if_neg hb, List.filter_cons_of_pos (by simpa using hb), List.filter_cons_of_pos (by simpa using hb), ih]

theorem perm_put (t : Table key) (a : α) : (t.put a).rows.Perm (a :: (t.erase (key a)).rows) := by
  rw [← erase_put]
  exact perm_erase (get_put_self t a)

theorem rows_erase_of_none {t : Table key} {k : κ} (h : t.get k = none) : (t.erase k).rows = t.rows := by
  apply List.filter_eq_self.mpr
  intro a ha
  exact decide_eq_true (get_eq_none.mp h a ha)

def share (hold : α → List β) (t : Table key) (b : β) : Nat := (t.rows.flatMap hold).count b

variable (hold : α → List β) {t : Table key} {k : κ} {a old : α} (b : β)

omit [DecidableEq κ] in
theorem share_eq (ts : List α) (h : t.rows.Perm ts) : t.share hold b = (ts.flatMap hold).count b :=
  (h.flatMap_right hold).count_eq b

theorem share_erase (h : t.get k = some a) : t.share hold b = (hold a).count b + (t.erase k).share hold b := by
  rw [share_eq hold b _ (perm_erase h), List.flatMap_cons, List.count_append]
  rfl

theorem share_erase_of_none (h : t.get k = none) : (t.erase k).share hold b = t.share hold b := by
  unfold share
  rw [rows_erase_of_none h]

theorem share_put : (t.put a).share hold b = (hold a).count b + (t.erase (key a)).share hold b := by
  rw [share_eq hold b _ (perm_put t a), List.flatMap_cons, List.count_append]
  rfl

theorem share_put_of_none (h : t.get (key a) = none) :
    (t.put a).share hold b = (hold a).count b + t.share hold b := by
  rw [share_put, share_erase_of_none hold b h]

theorem share_put_of_get (h : t.get (key a) = some old) :
    (t.put a).share hold b + (hold old).count b = t.share hold b + (hold a).count b := by
  rw [share_put, share_erase hold b h]
  omega

end Table

namespace Dict

variable {d : Dict κ α} {k : κ} {a old : α} (hold : κ × α → List β) (b : β)

omit [DecidableEq β] in
theorem get_table (h : d.get k = some a) : Table.get d k = some (k, a) := by
  obtain ⟨row, hrow, rfl⟩ := Option.map_eq_some_iff.mp h
  rw [hrow, ← Table.key_of_get hrow]

omit [DecidableEq β] in
theorem mem_rows : (k, a) ∈ d.rows ↔ d.get k = some a := by
  constructor
  · intro h
    unfold Dict.get
    rw [Table.get_of_mem h]
    rfl
  · intro h
    exact Table.mem_of_get (get_table h)

theorem share_set_of_none (h : d.get k = none) :
    Table.share hold (d.set k a) b = (hold (k, a)).count b + Table.share hold d b :=
  Table.share_put_of_none hold b (Option.map_eq_none_iff.mp h)

theorem share_set_of_get (h : d.get k = some old) :
    Table.share hold (d.set k a) b + (hold (k, old)).count b = Table.share hold d b + (hold (k, a)).count b :=
  Table.share_put_of_get hold b (get_table h)

theorem share_erase (h : d.get k = some a) :
    Table.share hold d b = (hold (k, a)).count b + Table.share hold (Table.erase d k) b :=
  Table.share_erase hold b (get_table h)

omit [DecidableEq β] in
theorem rows_eq_nil (h : ∀ k, d.get k = none) : d.rows = [] := by
  apply List.eq_nil_iff_forall_not_mem.mpr
  intro row hrow
  exact mem_keys.mp (List.mem_map_of_mem hrow) (h row.1)

end Dict

section FreeList

variable {pool free : List β}

def inOrder (pool free : List β) : List β := pool.filter fun b => decide (b ∈ free)

theorem eq_inOrder (hnodup : pool.Nodup) (h : free.Sublist pool) : free = inOrder pool free := by
  unfold inOrder
  induction h with
  | slnil => rfl
  | cons b h ih =>
    obtain ⟨hb, hpool⟩ := List.nodup_cons.mp hnodup
    rw [List.filter_cons_of_neg (by simpa using fun hmem => hb (h.subset hmem))]
    exact ih hpool
  | cons_cons b h ih =>
    obtain ⟨hb, hpool⟩ := List.nodup_cons.mp hnodup
    rw [List.filter_cons_of_pos (by simp)]
    congr 1
    apply (ih hpool).trans
    apply List.filter_congr
    intro c hc
    have hne : c ≠ b := fun heq => hb (heq ▸ hc)
    simp [hne]

theorem inOrder_sublist (pool free : List β) : (inOrder pool free).Sublist pool := List.filter_sublist

theorem mem_inOrder {b : β} : b ∈ inOrder pool free ↔ b ∈ pool ∧ b ∈ free := by
  simp [inOrder]

theorem sort_eq_inOrder (hnodup : pool.Nodup) (hfree : free.Nodup) (hsub : ∀ b ∈ free, b ∈ pool) :
    free.mergeSort (fun a b => decide (pool.idxOf a ≤ pool.idxOf b)) = inOrder pool free := by
  have hperm : (free.mergeSort fun a b => decide (pool.idxOf a ≤ pool.idxOf b)).Perm (inOrder pool free) := by
    apply (List.mergeSort_perm _ _).trans
    apply (List.perm_ext_iff_of_nodup hfree (hnodup.sublist (inOrder_sublist pool free))).mpr
    intro b
    rw [mem_inOrder]
    exact ⟨fun hb => ⟨hsub b hb, hb⟩, And.right⟩
  apply List.Perm.eq_of_pairwise ?_ (List.pairwise_mergeSort ?_ ?_ _) ?_ hperm
  · intro a b ha hb hab hba
    have hmem : a ∈ pool := hsub a (List.mem_mergeSort.mp ha)
    have hidx : pool.idxOf a = pool.idxOf b :=
      Nat.le_antisymm (of_decide_eq_true hab) (of_decide_eq_true hba)
    exact (List.idxOf_inj hmem).mp hidx
  · intro a b c hab hbc
    exact decide_eq_true (Nat.le_trans (of_decide_eq_true hab) (of_decide_eq_true hbc))
  · intro a b
    simp only [Bool.or_eq_true, decide_eq_true_eq]
    omega
  · apply List.Pairwise.sublist (inOrder_sublist pool free)
    apply List.pairwise_iff_getElem.mpr
    intro i j hi hj hij
    rw [hnodup.idxOf_getElem i hi, hnodup.idxOf_getElem j hj]
    exact decide_eq_true (Nat.le_of_lt hij)

omit [DecidableEq β] in
theorem sublist_eq_iff (h : free.Sublist pool) : free = pool ↔ free.length = pool.length :=
  ⟨congrArg List.length, h.eq_of_length⟩

theorem exists_not_mem_iff (hnodup : pool.Nodup) (h : free.Sublist pool) :
    (∃ b ∈ pool, b ∉ free) ↔ free ≠ pool := by
  constructor
  · rintro ⟨b, hb, hfree⟩ rfl
    exact hfree hb
  · intro hne
    by_contra hall
    apply hne
    rw [eq_inOrder hnodup h]
    apply List.filter_eq_self.mpr
    intro b hb
    apply decide_eq_true
    by_contra hfree
    exact hall ⟨b, hb, hfree⟩

end FreeList

theorem lt_countP_of_sorted {xs : List Nat} {i e : Nat}
    (h : (xs.mergeSort fun a b => decide (b ≤ a))[i]? = some e) : i < xs.countP fun a => decide (e ≤ a) := by
  obtain ⟨hi, he⟩ := List.getElem?_eq_some_iff.mp h
  have hsorted : (xs.mergeSort fun a b => decide (b ≤ a)).Pairwise fun a b => decide (b ≤ a) = true := by
    apply List.pairwise_mergeSort
    · intro a b c hab hbc
      exact decide_eq_true (Nat.le_trans (of_decide_eq_true hbc) (of_decide_eq_true hab))
    · intro a b
      simp only [Bool.or_eq_true, decide_eq_true_eq]
      omega
  have hall : ∀ a ∈ (xs.mergeSort fun a b => decide (b ≤ a)).take (i + 1), decide (e ≤ a) = true := by
    intro a ha
    obtain ⟨j, hj, rfl⟩ := List.mem_take_iff_getElem.mp ha
    rcases Nat.lt_or_ge j i with hlt | hge
    · rw [← he]
      exact List.pairwise_iff_getElem.mp hsorted j i (by omega) hi hlt
    · have hji : j = i := by omega
      subst hji
      rw [he]
      exact decide_eq_true (Nat.le_refl e)
  have hcount := List.countP_eq_length.mpr hall
  have hperm := (List.mergeSort_perm xs fun a b => decide (b ≤ a)).countP_eq fun a => decide (e ≤ a)
  have hsub := (List.take_sublist (i + 1) (xs.mergeSort fun a b => decide (b ≤ a))).countP_le
    (p := fun a => decide (e ≤ a))
  rw [List.length_take] at hcount
  omega

end LoopLab.Lib

/-!
## Amounts in escrow

What the entries of a dictionary weigh together.
-/

namespace LoopLab.Lib.Dict

universe u v w
variable {κ : Type u} {α : Type v} {M : Type w} [DecidableEq κ]

section Total
variable [AddCommMonoid M]

def tally (weight : κ → α → M) (d : Dict κ α) : M := (d.rows.map fun row => weight row.1 row.2).sum

theorem tally_of_perm {w : κ → α → M} {d : Dict κ α} {rows : List (κ × α)} (h : d.rows.Perm rows) :
    d.tally w = (rows.map fun row => w row.1 row.2).sum :=
  (h.map _).sum_eq

theorem tally_of_get {w : κ → α → M} {d : Dict κ α} {k : κ} {a : α} (h : d.get k = some a) :
    d.tally w = w k a + tally w (Table.erase d k) := by
  rw [tally_of_perm (Table.perm_erase (get_table h)), List.map_cons, List.sum_cons]
  rfl

theorem tally_set {w : κ → α → M} {d : Dict κ α} {k : κ} {a : α} :
    (d.set k a).tally w = w k a + tally w (Table.erase d k) := by
  apply (tally_of_perm (Table.perm_put d (k, a))).trans
  rw [List.map_cons, List.sum_cons]
  rfl

theorem tally_set_of_none {w : κ → α → M} {d : Dict κ α} {k : κ} {a : α} (h : d.get k = none) :
    (d.set k a).tally w = w k a + d.tally w := by
  rw [tally_set]
  unfold tally
  rw [Table.rows_erase_of_none (Option.map_eq_none_iff.mp h)]

theorem tally_add {A : Type v} [AddZeroClass A] {w : κ → A → M} {d : Dict κ A} {k : κ} {a : A}
    (hadd : ∀ b, w k (b + a) = w k a + w k b) :
    (d.set k ((d.get k).getD 0 + a)).tally w = w k a + d.tally w := by
  cases h : d.get k with
  | none => rw [Option.getD_none, zero_add, tally_set_of_none h]
  | some b => rw [Option.getD_some, tally_set, hadd, tally_of_get h, add_assoc]

def total (weight : α → M) (d : Dict κ α) : M := (d.rows.map fun row => weight row.2).sum

variable {weight : α → M} {d : Dict κ α} {k : κ} {a old : α}

theorem total_of_get (h : d.get k = some a) : d.total weight = weight a + total weight (Table.erase d k) :=
  tally_of_get (w := fun _ => weight) h

theorem total_set : (d.set k a).total weight = weight a + total weight (Table.erase d k) :=
  tally_set (w := fun _ => weight)

theorem total_set_of_none (h : d.get k = none) : (d.set k a).total weight = weight a + d.total weight :=
  tally_set_of_none (w := fun _ => weight) h

theorem total_set_of_get (h : d.get k = some old) :
    (d.set k a).total weight + weight old = d.total weight + weight a := by
  rw [total_set, total_of_get h, add_assoc, add_comm (weight a), add_comm _ (weight old)]

end Total

section Ordered
variable [AddCommMonoid M] [PartialOrder M] [IsOrderedAddMonoid M]
variable {weight other : α → M} {d : Dict κ α} {k : κ} {a : α}

theorem total_nonneg (h : ∀ k a, d.get k = some a → 0 ≤ weight a) : 0 ≤ d.total weight := by
  apply List.sum_nonneg
  intro x hx
  obtain ⟨⟨k, a⟩, hmem, rfl⟩ := List.mem_map.mp hx
  exact h k a (mem_rows.mp hmem)

theorem total_le_total (h : ∀ k a, d.get k = some a → weight a ≤ other a) : d.total weight ≤ d.total other := by
  apply List.sum_le_sum
  rintro ⟨k, a⟩ hmem
  exact h k a (mem_rows.mp hmem)

end Ordered

end LoopLab.Lib.Dict
