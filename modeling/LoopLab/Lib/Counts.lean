import LoopLab.Lib.Custody
import LoopLab.Lib.Sorted
import Mathlib.Data.List.Perm.Lattice

/-!
# Counts and rankings

A dictionary of counts filled from a list counts its elements, and two such dictionaries that count alike hold the
same rows.
-/

set_option autoImplicit false

namespace LoopLab.Lib

universe u v
variable {κ : Type u}

/-! ## Counting -/

section Counting
variable [DecidableEq κ]

/-- `counts[k] = counts.get(k, 0) + 1` -/
def bump (counts : Dict κ Nat) (k : κ) : Dict κ Nat := counts.set k ((counts.get k).getD 0 + 1)

def countAll (ks : List κ) : Dict κ Nat := ks.foldl bump Table.empty

theorem get_foldl_bump (ks : List κ) (counts : Dict κ Nat) (k : κ) :
    (ks.foldl bump counts).get k = if k ∈ ks then some ((counts.get k).getD 0 + ks.count k) else counts.get k := by
  induction ks generalizing counts with
  | nil => simp
  | cons a ks ih =>
    rw [List.foldl_cons, ih]
    unfold bump
    rw [Dict.get_set]
    by_cases ha : k = a
    · subst ha
      by_cases hk : k ∈ ks
      · rw [if_pos hk, if_pos rfl, if_pos List.mem_cons_self, List.count_cons_self, Option.getD_some]
        congr 1
        omega
      · rw [if_neg hk, if_pos rfl, if_pos List.mem_cons_self, List.count_cons_self, List.count_eq_zero_of_not_mem hk]
    · have hmem : k ∈ a :: ks ↔ k ∈ ks := by simp [ha]
      rw [if_neg ha, List.count_cons_of_ne (Ne.symm ha)]
      simp only [hmem]

theorem get_countAll (ks : List κ) (k : κ) : (countAll ks).get k = if k ∈ ks then some (ks.count k) else none := by
  unfold countAll
  rw [get_foldl_bump, Dict.get_empty]
  simp

theorem count_flatMap_eq_countP {α : Type v} {f : α → List κ} (as : List α) (hf : ∀ a ∈ as, (f a).Nodup) (k : κ) :
    (as.flatMap f).count k = as.countP fun a => k ∈ f a := by
  induction as with
  | nil => rfl
  | cons a as ih =>
    rw [List.flatMap_cons, List.count_append, List.countP_cons, ih fun b hb => hf b (List.mem_cons_of_mem a hb)]
    by_cases hk : k ∈ f a
    · rw [List.count_eq_one_of_mem (hf a List.mem_cons_self) hk]
      simp only [hk, decide_true, if_true]
      omega
    · rw [List.count_eq_zero_of_not_mem hk]
      simp only [hk, decide_false, Bool.false_eq_true, if_false]
      omega

theorem mem_countAll_flatMap {α : Type v} {f : α → List κ} {as : List α} (hf : ∀ a ∈ as, (f a).Nodup) {k : κ} {n : Nat} :
    (k, n) ∈ (countAll (as.flatMap f)).rows ↔ n = as.countP (fun a => k ∈ f a) ∧ 0 < n := by
  rw [Dict.mem_rows, get_countAll, count_flatMap_eq_countP as hf]
  split
  · rename_i hmem
    obtain ⟨a, ha, hk⟩ := List.mem_flatMap.mp hmem
    have hpos : 0 < as.countP fun a => k ∈ f a := List.countP_pos_iff.mpr ⟨a, ha, decide_eq_true hk⟩
    rw [Option.some.injEq]
    constructor
    · rintro rfl
      exact ⟨rfl, hpos⟩
    · rintro ⟨rfl, -⟩
      rfl
  · rename_i hmem
    apply iff_of_false (by simp)
    rintro ⟨rfl, hpos⟩
    obtain ⟨a, ha, hk⟩ := List.countP_pos_iff.mp hpos
    exact hmem (List.mem_flatMap.mpr ⟨a, ha, of_decide_eq_true hk⟩)

theorem Dict.perm_of_get {α : Type v} {d e : Dict κ α} (h : ∀ k, d.get k = e.get k) : d.rows.Perm e.rows := by
  apply (List.perm_ext_iff_of_nodup (List.Nodup.of_map _ d.nodup) (List.Nodup.of_map _ e.nodup)).mpr
  rintro ⟨k, a⟩
  rw [Dict.mem_rows, Dict.mem_rows, h k]

end Counting

/-! ## Pairs -/

def pairsOf : List κ → List (κ × κ)
  | [] => []
  | a :: rest => rest.map (fun b => (a, b)) ++ pairsOf rest

section Pairs
variable {r : κ → κ → Prop} {l : List κ} {a b : κ}

theorem mem_of_pairsOf (h : (a, b) ∈ pairsOf l) : a ∈ l ∧ b ∈ l := by
  induction l with
  | nil => cases h
  | cons c rest ih =>
    rcases List.mem_append.mp h with h | h
    · obtain ⟨d, hd, heq⟩ := List.mem_map.mp h
      obtain ⟨rfl, rfl⟩ := Prod.mk.inj heq
      exact ⟨List.mem_cons_self, List.mem_cons_of_mem _ hd⟩
    · exact ⟨List.mem_cons_of_mem _ (ih h).1, List.mem_cons_of_mem _ (ih h).2⟩

theorem mem_pairsOf (hirrefl : ∀ x, ¬r x x) (hasymm : ∀ x y, r x y → ¬r y x) (h : l.Pairwise r) :
    (a, b) ∈ pairsOf l ↔ a ∈ l ∧ b ∈ l ∧ r a b := by
  induction l with
  | nil => simp [pairsOf]
  | cons c rest ih =>
    obtain ⟨hc, hrest⟩ := List.pairwise_cons.mp h
    rw [pairsOf, List.mem_append, ih hrest]
    constructor
    · rintro (h | ⟨ha, hb, hr⟩)
      · obtain ⟨d, hd, heq⟩ := List.mem_map.mp h
        obtain ⟨rfl, rfl⟩ := Prod.mk.inj heq
        exact ⟨List.mem_cons_self, List.mem_cons_of_mem _ hd, hc _ hd⟩
      · exact ⟨List.mem_cons_of_mem _ ha, List.mem_cons_of_mem _ hb, hr⟩
    · rintro ⟨ha, hb, hr⟩
      rcases List.mem_cons.mp hb with rfl | hb'
      · rcases List.mem_cons.mp ha with rfl | ha'
        · exact absurd hr (hirrefl _)
        · exact absurd hr (hasymm _ _ (hc a ha'))
      · rcases List.mem_cons.mp ha with rfl | ha'
        · exact Or.inl (List.mem_map.mpr ⟨b, hb', rfl⟩)
        · exact Or.inr ⟨ha', hb', hr⟩

theorem nodup_pairsOf (h : l.Nodup) : (pairsOf l).Nodup := by
  induction l with
  | nil => exact .nil
  | cons c rest ih =>
    obtain ⟨hc, hrest⟩ := List.nodup_cons.mp h
    apply List.nodup_append.mpr
    refine ⟨hrest.map fun x y heq => (Prod.mk.inj heq).2, ih hrest, ?_⟩
    rintro ⟨x, y⟩ hx _ hy rfl
    obtain ⟨d, -, heq⟩ := List.mem_map.mp hx
    obtain ⟨rfl, rfl⟩ := Prod.mk.inj heq
    exact hc (mem_of_pairsOf hy).1

end Pairs

/-! ## Places in a ranking -/

theorem mem_take_iff {before : κ → κ → Bool} (hirrefl : ∀ x, before x x = false)
    (hasymm : ∀ x y, before x y = true → before y x = false) {l : List κ}
    (h : l.Pairwise fun x y => before x y = true) (n : Nat) (c : κ) :
    c ∈ l.take n ↔ c ∈ l ∧ l.countP (before · c) < n := by
  induction l generalizing n with
  | nil => simp
  | cons x rest ih =>
    obtain ⟨hx, hrest⟩ := List.pairwise_cons.mp h
    rw [List.countP_cons]
    cases n with
    | zero => simp
    | succ n =>
      rw [List.take_succ_cons, List.mem_cons, List.mem_cons, ih hrest]
      by_cases hc : c = x
      · subst hc
        have hnone : rest.countP (before · c) = 0 := by
          apply List.countP_eq_zero.mpr
          intro y hy
          rw [hasymm c y (hx y hy)]
          exact Bool.false_ne_true
        rw [hnone, hirrefl]
        simp
      · simp only [hc, false_or]
        constructor
        · rintro ⟨hmem, hlt⟩
          rw [hx c hmem]
          exact ⟨hmem, by simpa using hlt⟩
        · rintro ⟨hmem, hlt⟩
          rw [hx c hmem] at hlt
          exact ⟨hmem, by simpa using hlt⟩

end LoopLab.Lib
