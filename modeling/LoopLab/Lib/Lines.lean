import Mathlib.Data.List.Basic
import Mathlib.Data.List.DropRight
import Mathlib.Data.List.Induction

/-!
# Text as separated lines

A text over any alphabet is cut at every occurrence of a separator: the complete lines, each without its separator,
and what follows the last separator.
-/

set_option autoImplicit false

namespace LoopLab.Lib

universe u
variable {α : Type u}

def join (sep : α) (ls : List (List α)) : List α := ls.flatMap (· ++ [sep])

def Unbroken (sep : α) (ls : List (List α)) : Prop := ∀ l ∈ ls, sep ∉ l

section Join
variable {sep : α} {ls ms : List (List α)} {l : List α}

@[simp] theorem join_nil : join sep [] = [] := rfl

@[simp] theorem join_cons : join sep (l :: ls) = l ++ sep :: join sep ls := by
  simp [join]

@[simp] theorem join_append : join sep (ls ++ ms) = join sep ls ++ join sep ms := by
  simp [join]

theorem join_ne_nil (h : ls ≠ []) : join sep ls ≠ [] := by
  cases ls with
  | nil => exact absurd rfl h
  | cons l ls => simp

theorem join_eq_nil : join sep ls = [] ↔ ls = [] := by
  constructor
  · intro h
    by_contra hls
    exact join_ne_nil hls h
  · rintro rfl
    rfl

theorem getLast?_join (h : ls ≠ []) : (join sep ls).getLast? = some sep := by
  obtain ⟨ms, l, rfl⟩ := List.eq_nil_or_concat ls |>.resolve_left h
  simp [join]

theorem mem_join (h : ls ≠ []) : sep ∈ join sep ls :=
  List.mem_of_getLast? (getLast?_join h)

theorem unbroken_nil : Unbroken sep [] := by
  intro l hl
  exact absurd hl List.not_mem_nil

theorem unbroken_cons : Unbroken sep (l :: ls) ↔ sep ∉ l ∧ Unbroken sep ls :=
  List.forall_mem_cons

theorem unbroken_append : Unbroken sep (ls ++ ms) ↔ Unbroken sep ls ∧ Unbroken sep ms :=
  List.forall_mem_append

end Join

variable [DecidableEq α] {sep : α}

def push (sep a : α) : List (List α) × List α → List (List α) × List α
  | ([], t) => if a = sep then ([[]], t) else ([], a :: t)
  | (l :: ls, t) => if a = sep then ([] :: l :: ls, t) else ((a :: l) :: ls, t)

def cut (sep : α) (as : List α) : List (List α) × List α := as.foldr (push sep) ([], [])

theorem push_sep (p : List (List α) × List α) : push sep sep p = ([] :: p.1, p.2) := by
  obtain ⟨_ | ⟨l, ls⟩, t⟩ := p <;> simp [push]

theorem push_join (a : α) (p : List (List α) × List α) :
    join sep (push sep a p).1 ++ (push sep a p).2 = a :: (join sep p.1 ++ p.2) := by
  obtain ⟨_ | ⟨l, ls⟩, t⟩ := p
  all_goals
    by_cases h : a = sep
    · subst a
      simp [push]
    · simp [push, h]

theorem push_unbroken (a : α) {p : List (List α) × List α} (hl : Unbroken sep p.1)
    (ht : sep ∉ p.2) : Unbroken sep (push sep a p).1 ∧ sep ∉ (push sep a p).2 := by
  obtain ⟨_ | ⟨l, ls⟩, t⟩ := p
  all_goals
    by_cases h : a = sep
    · subst a
      simp_all [push, Unbroken]
    · have h' : sep ≠ a := Ne.symm h
      simp_all [push, Unbroken]

variable (sep) in
theorem join_cut (as : List α) : join sep (cut sep as).1 ++ (cut sep as).2 = as := by
  induction as with
  | nil => rfl
  | cons a as ih => rw [cut, List.foldr_cons, push_join, ← cut, ih]

variable (sep) in
theorem cut_unbroken (as : List α) : Unbroken sep (cut sep as).1 ∧ sep ∉ (cut sep as).2 := by
  induction as with
  | nil => exact ⟨unbroken_nil, List.not_mem_nil⟩
  | cons a as ih => exact push_unbroken a ih.1 ih.2

theorem cut_tail {t : List α} (ht : sep ∉ t) : cut sep t = ([], t) := by
  induction t with
  | nil => rfl
  | cons a t ih =>
    have ha : a ≠ sep := fun h => ht (h ▸ List.mem_cons_self)
    rw [cut, List.foldr_cons, ← cut, ih (fun h => ht (List.mem_cons_of_mem _ h)), push, if_neg ha]

theorem cut_line {l : List α} (hl : sep ∉ l) (as : List α) :
    cut sep (l ++ sep :: as) = (l :: (cut sep as).1, (cut sep as).2) := by
  induction l with
  | nil => exact push_sep _
  | cons a l ih =>
    have ha : a ≠ sep := fun h => hl (h ▸ List.mem_cons_self)
    rw [List.cons_append, cut, List.foldr_cons, ← cut,
      ih (fun h => hl (List.mem_cons_of_mem _ h)), push, if_neg ha]

theorem cut_join_append {ls : List (List α)} (h : Unbroken sep ls) (as : List α) :
    cut sep (join sep ls ++ as) = (ls ++ (cut sep as).1, (cut sep as).2) := by
  induction ls with
  | nil => rfl
  | cons l ls ih =>
    obtain ⟨hl, hls⟩ := unbroken_cons.mp h
    rw [join_cons, List.append_assoc, List.cons_append, cut_line hl, ih hls]
    rfl

theorem cut_join {ls : List (List α)} {t : List α} (h : Unbroken sep ls) (ht : sep ∉ t) :
    cut sep (join sep ls ++ t) = (ls, t) := by
  rw [cut_join_append h, cut_tail ht, List.append_nil]

theorem rdropWhile_sep (as : List α) : as.rdropWhile (· ≠ sep) = join sep (cut sep as).1 := by
  have ht := (cut_unbroken sep as).2
  conv_lhs => rw [← join_cut sep as]
  generalize (cut sep as).1 = ls at *
  generalize (cut sep as).2 = t at *
  induction t using List.reverseRecOn with
  | nil =>
    rw [List.append_nil]
    by_cases hls : ls = []
    · subst ls
      rfl
    · rw [List.rdropWhile_eq_self_iff]
      intro hne
      have : (join sep ls).getLast? = some sep := getLast?_join hls
      rw [List.getLast?_eq_some_getLast hne, Option.some.injEq] at this
      simp [this]
  | append_singleton t a ih =>
    rw [List.mem_append, not_or, List.mem_singleton] at ht
    rw [← List.append_assoc, List.rdropWhile_concat_pos _ _ _ (by simpa using Ne.symm ht.2)]
    exact ih ht.1

/-! ## Splitting -/

/-- The text split at every separator; there is one piece more than separators. -/
def pieces (sep : α) (as : List α) : List (List α) := (cut sep as).1 ++ [(cut sep as).2]

variable (sep) in
theorem pieces_ne_nil (as : List α) : pieces sep as ≠ [] := by simp [pieces]

theorem pieces_join_append {ls : List (List α)} {t : List α} (h : Unbroken sep ls) (ht : sep ∉ t) :
    pieces sep (join sep ls ++ t) = ls ++ [t] := by
  rw [pieces, cut_join h ht]

theorem pieces_cons_sep (as : List α) : pieces sep (sep :: as) = [] :: pieces sep as := by
  rw [pieces, cut, List.foldr_cons, push_sep]
  rfl

theorem pieces_cons {a : α} (ha : a ≠ sep) (as : List α) :
    ∃ l ls, pieces sep as = l :: ls ∧ pieces sep (a :: as) = (a :: l) :: ls := by
  rw [pieces, pieces, cut, cut, List.foldr_cons]
  generalize List.foldr (push sep) ([], []) as = p
  obtain ⟨_ | ⟨l, ls⟩, t⟩ := p
  · exact ⟨t, [], rfl, by simp [push, ha]⟩
  · exact ⟨l, ls ++ [t], rfl, by simp [push, ha]⟩

variable (sep) in
theorem pieces_drop (n : Nat) (as : List α) :
    ∃ before l after k, pieces sep as = before ++ l :: after ∧
      pieces sep (as.drop n) = l.drop k :: after := by
  induction n generalizing as with
  | zero =>
    obtain ⟨l, ls, h⟩ := List.exists_cons_of_ne_nil (pieces_ne_nil sep as)
    exact ⟨[], l, ls, 0, h, by simpa using h⟩
  | succ n ih =>
    cases as with
    | nil => exact ⟨[], [], [], 0, rfl, rfl⟩
    | cons a as =>
      obtain ⟨before, l, after, k, hp, hd⟩ := ih as
      by_cases ha : a = sep
      · subst a
        exact ⟨[] :: before, l, after, k, by rw [pieces_cons_sep, hp, List.cons_append], hd⟩
      · obtain ⟨h, hs, hhead, hcons⟩ := pieces_cons ha as
        rw [hp] at hhead
        cases before with
        | nil =>
          cases hhead
          exact ⟨[], a :: l, after, k + 1, hcons, by rw [List.drop_succ_cons, List.drop_succ_cons, hd]⟩
        | cons b before =>
          cases hhead
          exact ⟨(a :: h) :: before, l, after, k, hcons, hd⟩

theorem join_prefix {ls : List (List α)} {as : List α} (h : Unbroken sep ls)
    (hp : join sep ls <+: as) :
    ∃ ms, (cut sep as).1 = ls ++ ms ∧ as = join sep (ls ++ ms) ++ (cut sep as).2 := by
  obtain ⟨bs, rfl⟩ := hp
  refine ⟨(cut sep bs).1, by rw [cut_join_append h], ?_⟩
  rw [cut_join_append h, join_append, List.append_assoc, join_cut sep]

end LoopLab.Lib
