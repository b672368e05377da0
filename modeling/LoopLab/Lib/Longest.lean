import Mathlib.Data.List.Nodup
import Mathlib.Logic.Relation

/-!
# Longest simple paths

In a graph given by successors, the longest path from a place that visits no place twice.
-/

set_option autoImplicit false

namespace LoopLab.Lib

universe u
variable {α : Type u} {next : α → List α} {avoid : List α} {a b : α} {l : List α} {n m : Nat}

def IsPath (next : α → List α) : α → List α → Prop
  | _, [] => True
  | a, b :: l => b ∈ next a ∧ IsPath next b l

def IsSimple (next : α → List α) : List α → α → List α → Prop
  | _, _, [] => True
  | avoid, a, b :: l => b ∈ next a ∧ b ∉ a :: avoid ∧ IsSimple next (a :: avoid) b l

theorem isSimple_iff (ha : a ∉ avoid) :
    IsSimple next avoid a l ↔ IsPath next a l ∧ (a :: l).Nodup ∧ ∀ x ∈ l, x ∉ avoid := by
  induction l generalizing avoid a with
  | nil => simp [IsSimple, IsPath]
  | cons b l ih =>
    unfold IsSimple IsPath
    constructor
    · rintro ⟨hb, hnew, hrest⟩
      obtain ⟨hpath, hnodup, havoid⟩ := (ih hnew).mp hrest
      refine ⟨⟨hb, hpath⟩, List.nodup_cons.mpr ⟨?_, hnodup⟩, ?_⟩
      · intro hmem
        rcases List.mem_cons.mp hmem with rfl | hmem
        · exact hnew List.mem_cons_self
        · exact havoid a hmem List.mem_cons_self
      · intro x hx hxa
        rcases List.mem_cons.mp hx with rfl | hx
        · exact hnew (List.mem_cons_of_mem a hxa)
        · exact havoid x hx (List.mem_cons_of_mem a hxa)
    · rintro ⟨⟨hb, hpath⟩, hnodup, havoid⟩
      obtain ⟨hnot, hnodup⟩ := List.nodup_cons.mp hnodup
      have hnew : b ∉ a :: avoid := by
        intro hmem
        rcases List.mem_cons.mp hmem with rfl | hmem
        · exact hnot List.mem_cons_self
        · exact havoid b List.mem_cons_self hmem
      refine ⟨hb, hnew, (ih hnew).mpr ⟨hpath, hnodup, ?_⟩⟩
      intro x hx hmem
      rcases List.mem_cons.mp hmem with rfl | hmem
      · exact hnot (List.mem_cons_of_mem b hx)
      · exact havoid x (List.mem_cons_of_mem b hx) hmem

structure Longest (next : α → List α) (avoid : List α) (a : α) (n : Nat) : Prop where
  found : ∃ l, IsSimple next avoid a l ∧ l.length = n
  most : ∀ l, IsSimple next avoid a l → l.length ≤ n

theorem Longest.unique (h : Longest next avoid a n) (h' : Longest next avoid a m) : n = m := by
  obtain ⟨l, hl, rfl⟩ := h.found
  obtain ⟨l', hl', rfl⟩ := h'.found
  exact Nat.le_antisymm (h'.most l hl) (h.most l' hl')

def OffCycles (next : α → List α) (a : α) : Prop :=
  ∀ b, Relation.ReflTransGen (fun x y => y ∈ next x) a b → ¬ Relation.TransGen (fun x y => y ∈ next x) b b

def Clear (next : α → List α) (avoid : List α) (a : α) : Prop :=
  ∀ b, Relation.ReflTransGen (fun x y => y ∈ next x) a b → b ∉ avoid

theorem OffCycles.clear (h : OffCycles next a)
    (hpassed : ∀ q ∈ avoid, Relation.TransGen (fun x y => y ∈ next x) q a) : Clear next avoid a := by
  intro b hb hmem
  exact h b hb ((hpassed b hmem).trans_left hb)

theorem offCycles_of_next (ha : a ∉ avoid)
    (hnext : ∀ b ∈ next a, OffCycles next b ∧ Clear next (a :: avoid) b) :
    OffCycles next a ∧ Clear next avoid a := by
  constructor
  · intro b hb hcycle
    rcases Relation.ReflTransGen.cases_head hb with rfl | ⟨c, hc, hcb⟩
    · obtain ⟨c, hc, hca⟩ := Relation.TransGen.head'_iff.mp hcycle
      exact (hnext c hc).2 a hca List.mem_cons_self
    · exact (hnext c hc).1 b hcb hcycle
  · intro b hb hmem
    rcases Relation.ReflTransGen.cases_head hb with rfl | ⟨c, hc, hcb⟩
    · exact ha hmem
    · exact (hnext c hc).2 b hcb (List.mem_cons_of_mem a hmem)

theorem reached_of_isPath (h : IsPath next a l) (hb : b ∈ a :: l) :
    Relation.ReflTransGen (fun x y => y ∈ next x) a b := by
  induction l generalizing a with
  | nil =>
    rw [List.mem_singleton.mp hb]
  | cons c l ih =>
    rcases List.mem_cons.mp hb with rfl | hb
    · exact .refl
    · exact .head h.1 (ih h.2 hb)

theorem Longest.transfer {avoid' : List α} (h : Longest next avoid a n) (hclear : Clear next avoid a)
    (hclear' : Clear next avoid' a) : Longest next avoid' a n := by
  have ha := hclear a .refl
  have ha' := hclear' a .refl
  have hsame (l : List α) : IsSimple next avoid a l ↔ IsSimple next avoid' a l := by
    rw [isSimple_iff ha, isSimple_iff ha']
    constructor
    · rintro ⟨hpath, hnodup, -⟩
      exact ⟨hpath, hnodup, fun x hx => hclear' x (reached_of_isPath hpath (List.mem_cons_of_mem a hx))⟩
    · rintro ⟨hpath, hnodup, -⟩
      exact ⟨hpath, hnodup, fun x hx => hclear x (reached_of_isPath hpath (List.mem_cons_of_mem a hx))⟩
  obtain ⟨l, hl, hlen⟩ := h.found
  exact ⟨⟨l, (hsame l).mp hl, hlen⟩, fun l hl => h.most l ((hsame l).mpr hl)⟩

structure LongestOver (next : α → List α) (avoid : List α) (a : α) (done : List α) (n : Nat) : Prop where
  found : ∃ l, IsSimple next avoid a l ∧ l.length = n
  most : ∀ b l, b ∈ done → IsSimple next avoid a (b :: l) → l.length + 1 ≤ n

namespace LongestOver
variable {done : List α}

theorem start : LongestOver next avoid a [] 0 :=
  ⟨⟨[], trivial, rfl⟩, fun b l hb => by cases hb⟩

theorem skip (h : LongestOver next avoid a done n) (hb : b ∈ a :: avoid) : LongestOver next avoid a (done ++ [b]) n := by
  refine ⟨h.found, fun c l hc hl => ?_⟩
  rcases List.mem_append.mp hc with hc | hc
  · exact h.most c l hc hl
  · rw [List.mem_singleton.mp hc] at hl
    exact absurd hb hl.2.1

theorem step (h : LongestOver next avoid a done n) (hb : b ∈ next a) (hnew : b ∉ a :: avoid)
    (hm : Longest next (a :: avoid) b m) : LongestOver next avoid a (done ++ [b]) (max n (1 + m)) := by
  constructor
  · rcases Nat.le_total n (1 + m) with hle | hle
    · obtain ⟨l, hl, rfl⟩ := hm.found
      refine ⟨b :: l, ⟨hb, hnew, hl⟩, ?_⟩
      rw [Nat.max_eq_right hle, List.length_cons, Nat.add_comm]
    · rw [Nat.max_eq_left hle]
      exact h.found
  · intro c l hc hl
    rcases List.mem_append.mp hc with hc | hc
    · exact Nat.le_trans (h.most c l hc hl) (Nat.le_max_left n (1 + m))
    · rw [List.mem_singleton.mp hc] at hl
      have hmost := hm.most l hl.2.2
      omega

theorem finish (h : LongestOver next avoid a (next a) n) : Longest next avoid a n := by
  refine ⟨h.found, fun l hl => ?_⟩
  cases l with
  | nil => exact Nat.zero_le n
  | cons b l => exact h.most b l hl.1 hl

end LongestOver

end LoopLab.Lib
