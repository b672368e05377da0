import Mathlib.Data.List.Nodup

/-!
# Sorted lists of distinct elements

Dropping the repeats of a list and sorting it gives one list for each set of elements.
-/

set_option autoImplicit false

namespace LoopLab.Lib

universe u
variable {α : Type u} [DecidableEq α]

theorem nodup_eraseDups (xs : List α) : xs.eraseDups.Nodup := by
  induction hn : xs.length using Nat.strongRecOn generalizing xs with
  | ind n ih =>
    cases xs with
    | nil => exact .nil
    | cons x xs =>
      rw [List.eraseDups_cons]
      have hle : (xs.filter fun y => !y == x).length ≤ xs.length := List.length_filter_le _ _
      rw [List.length_cons] at hn
      apply List.nodup_cons.mpr
      constructor
      · intro hx
        have := (List.mem_filter.mp (List.mem_eraseDups.mp hx)).2
        simp at this
      · exact ih _ (by omega) _ rfl

structure LinearBool (le : α → α → Bool) : Prop where
  trans : ∀ a b c, le a b = true → le b c = true → le a c = true
  total : ∀ a b, (le a b || le b a) = true
  antisymm : ∀ a b, le a b = true → le b a = true → a = b

namespace LinearBool

variable {le : α → α → Bool} {xs ys : List α}

omit [DecidableEq α] in
theorem sorted (h : LinearBool le) (xs : List α) :
    (xs.mergeSort le).Pairwise fun a b => le a b = true :=
  List.pairwise_mergeSort h.trans h.total xs

omit [DecidableEq α] in
theorem sort_congr (h : LinearBool le) (hx : xs.Nodup) (hy : ys.Nodup) (heq : ∀ a, a ∈ xs ↔ a ∈ ys) :
    xs.mergeSort le = ys.mergeSort le := by
  have hperm : xs.Perm ys := (List.perm_ext_iff_of_nodup hx hy).mpr heq
  apply List.Perm.eq_of_pairwise ?_ (h.sorted xs) (h.sorted ys)
  · exact ((List.mergeSort_perm _ _).trans hperm).trans (List.mergeSort_perm _ _).symm
  · intro a b _ _ hab hba
    exact h.antisymm a b hab hba

def least (le : α → α → Bool) (a b : α) : α := if le a b then a else b

omit [DecidableEq α] in
theorem least_comm (h : LinearBool le) (a b : α) : least le a b = least le b a := by
  unfold least
  by_cases hab : le a b = true
  · rw [if_pos hab]
    split
    · rename_i hba
      exact h.antisymm a b hab hba
    · rfl
  · have hba : le b a = true := by
      have := h.total a b
      simpa [hab] using this
    rw [if_neg hab, if_pos hba]

omit [DecidableEq α] in
theorem least_assoc (h : LinearBool le) (a b c : α) :
    least le (least le a b) c = least le a (least le b c) := by
  unfold least
  by_cases hab : le a b = true
  · by_cases hbc : le b c = true
    · rw [if_pos hab, if_pos hbc, if_pos hab, if_pos (h.trans a b c hab hbc)]
    · rw [if_pos hab, if_neg hbc]
  · by_cases hbc : le b c = true
    · rw [if_neg hab, if_pos hbc, if_neg hab]
    · have hba : le b a = true := by simpa [hab] using h.total a b
      have hcb : le c b = true := by simpa [hbc] using h.total b c
      have hac : ¬ le a c = true := by
        intro hac
        exact hab (h.trans a c b hac hcb)
      rw [if_neg hab, if_neg hbc, if_neg hac]

omit [DecidableEq α] in
theorem least_le (h : LinearBool le) (a b : α) : le (least le a b) a = true ∧ le (least le a b) b = true := by
  have hrefl (x : α) : le x x = true := by simpa using h.total x x
  unfold least
  split
  · rename_i hab
    exact ⟨hrefl a, hab⟩
  · rename_i hab
    have hba : le b a = true := by simpa [hab] using h.total a b
    exact ⟨hba, hrefl b⟩

omit [DecidableEq α] in
theorem foldl_least (h : LinearBool le) (xs : List α) (a : α) :
    xs.foldl (least le) a ∈ a :: xs ∧ ∀ x ∈ a :: xs, le (xs.foldl (least le) a) x = true := by
  induction xs generalizing a with
  | nil =>
    refine ⟨List.mem_singleton_self a, ?_⟩
    intro x hx
    rw [List.mem_singleton.mp hx]
    simpa using h.total a a
  | cons b xs ih =>
    obtain ⟨hmem, hle⟩ := ih (least le a b)
    obtain ⟨hlea, hleb⟩ := h.least_le a b
    constructor
    · rcases List.mem_cons.mp hmem with heq | hmem
      · rw [List.foldl_cons, heq]
        unfold least
        split
        · exact List.mem_cons_self
        · exact List.mem_cons_of_mem a List.mem_cons_self
      · exact List.mem_cons_of_mem a (List.mem_cons_of_mem b hmem)
    · intro x hx
      have hhead := hle _ List.mem_cons_self
      rcases List.mem_cons.mp hx with rfl | hx
      · exact h.trans _ _ _ hhead hlea
      · rcases List.mem_cons.mp hx with rfl | hx
        · exact h.trans _ _ _ hhead hleb
        · exact hle x (List.mem_cons_of_mem _ hx)

theorem set_congr (h : LinearBool le) (heq : ∀ a, a ∈ xs ↔ a ∈ ys) :
    xs.eraseDups.mergeSort le = ys.eraseDups.mergeSort le := by
  apply h.sort_congr (nodup_eraseDups xs) (nodup_eraseDups ys)
  intro a
  rw [List.mem_eraseDups, List.mem_eraseDups, heq]

end LinearBool

theorem nodup_sortedSet (le : α → α → Bool) (xs : List α) : (xs.eraseDups.mergeSort le).Nodup :=
  (List.mergeSort_perm _ _).nodup_iff.mpr (nodup_eraseDups xs)

theorem mem_sortedSet {le : α → α → Bool} {xs : List α} {a : α} :
    a ∈ xs.eraseDups.mergeSort le ↔ a ∈ xs := by
  rw [List.mem_mergeSort, List.mem_eraseDups]

theorem linearBool_string : LinearBool fun a b : String => decide (a ≤ b) where
  trans a b c hab hbc := by
    simp only [decide_eq_true_eq] at hab hbc ⊢
    exact String.le_trans hab hbc
  total a b := by
    simp only [Bool.or_eq_true, decide_eq_true_eq]
    exact String.le_total a b
  antisymm a b hab hba := by
    simp only [decide_eq_true_eq] at hab hba
    exact String.le_antisymm hab hba

theorem linearBool_nat : LinearBool fun a b : Nat => decide (a ≤ b) where
  trans a b c hab hbc := by
    simp only [decide_eq_true_eq] at hab hbc ⊢
    omega
  total a b := by
    simp only [Bool.or_eq_true, decide_eq_true_eq]
    omega
  antisymm a b hab hba := by
    simp only [decide_eq_true_eq] at hab hba
    omega

end LoopLab.Lib
