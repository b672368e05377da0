import LoopLab.Lib.Lines
import Mathlib.Data.List.SplitBy

/-!
# Occurrences of a text in a text

The first occurrence, the occurrences counted from the left without overlap, and the texts that replace
them. Where the count is one, every other occurrence overlaps the first.

Lines joined by a separator occur in joined lines between line boundaries as they occur among the lines.
-/

set_option autoImplicit false

namespace LoopLab.Lib.Occurs

universe u
variable {α : Type u}

/-- The text stands at position `i`. -/
def At (sub s : List α) (i : Nat) : Prop := sub <+: s.drop i

def Apart (sub s : List α) : Prop := ∀ i j, At sub s i → At sub s j → i < j → i + sub.length ≤ j

section At
variable {sub s : List α} {i j m : Nat}

theorem at_drop : At sub (s.drop m) j ↔ At sub s (m + j) := by
  unfold At
  rw [List.drop_drop]

theorem At.eq (h : At sub s i) : s = s.take i ++ sub ++ s.drop (i + sub.length) := by
  obtain ⟨rest, hrest⟩ := h
  have hdrop : s.drop (i + sub.length) = rest := by
    rw [← List.drop_drop, ← hrest, List.drop_left]
  rw [hdrop, List.append_assoc, hrest, List.take_append_drop]

theorem at_of_eq {pre post : List α} (h : s = pre ++ sub ++ post) : At sub s pre.length := by
  rw [h]
  unfold At
  rw [List.append_assoc, List.drop_left]
  exact List.prefix_append ..

theorem At.le (h : At sub s i) (hsub : sub ≠ []) : i + sub.length ≤ s.length := by
  have hlen := h.length_le
  have hpos := List.length_pos_iff.mpr hsub
  rw [List.length_drop] at hlen
  omega

end At

variable [DecidableEq α]

/-- `s.find(sub)` -/
def find (sub : List α) : List α → Option Nat
  | [] => if sub = [] then some 0 else none
  | c :: cs => if sub.isPrefixOf (c :: cs) then some 0 else (find sub cs).map (· + 1)

/-- The occurrences that do not overlap an earlier one, with the first `skip` elements inside one. -/
def countFrom (sub : List α) : Nat → List α → Nat
  | _, [] => 0
  | skip + 1, _ :: cs => countFrom sub skip cs
  | 0, c :: cs => if sub.isPrefixOf (c :: cs) then countFrom sub (sub.length - 1) cs + 1 else countFrom sub 0 cs

/-- `s.count(sub)` of a text that is not empty -/
def count (sub s : List α) : Nat := countFrom sub 0 s

def replaceFrom (sub rep : List α) : Nat → List α → List α
  | _, [] => []
  | skip + 1, _ :: cs => replaceFrom sub rep skip cs
  | 0, c :: cs =>
    if sub.isPrefixOf (c :: cs) then rep ++ replaceFrom sub rep (sub.length - 1) cs
    else c :: replaceFrom sub rep 0 cs

/-- `s.replace(sub, with)` of a text that is not empty -/
def replaceAll (sub rep s : List α) : List α := replaceFrom sub rep 0 s

/-- `s.replace(sub, with, 1)` -/
def replaceFirst (sub rep s : List α) : List α :=
  (find sub s).elim s fun i => s.take i ++ rep ++ s.drop (i + sub.length)

variable {sub s : List α} {i : Nat}

theorem find_spec (h : find sub s = some i) : At sub s i ∧ ∀ j, At sub s j → i ≤ j := by
  induction s generalizing i with
  | nil =>
    unfold find at h
    split at h
    · rename_i hsub
      cases h
      rw [hsub]
      exact ⟨List.nil_prefix, fun j _ => Nat.zero_le j⟩
    · cases h
  | cons c cs ih =>
    unfold find at h
    split at h
    · rename_i hp
      cases h
      exact ⟨List.isPrefixOf_iff_prefix.mp hp, fun j _ => Nat.zero_le j⟩
    · rename_i hp
      obtain ⟨i, hi, rfl⟩ := Option.map_eq_some_iff.mp h
      obtain ⟨hat, hfirst⟩ := ih hi
      refine ⟨hat, fun j hj => ?_⟩
      cases j with
      | zero => exact absurd (List.isPrefixOf_iff_prefix.mpr hj) hp
      | succ j => exact Nat.succ_le_succ (hfirst j hj)

theorem find_none (hsub : sub ≠ []) (h : find sub s = none) (j : Nat) : ¬ At sub s j := by
  induction s generalizing j with
  | nil =>
    intro hj
    have hle := hj.le hsub
    have hpos := List.length_pos_iff.mpr hsub
    rw [List.length_nil] at hle
    omega
  | cons c cs ih =>
    unfold find at h
    split at h
    · cases h
    · rename_i hp
      cases j with
      | zero => exact fun hj => hp (List.isPrefixOf_iff_prefix.mpr hj)
      | succ j => exact ih (Option.map_eq_none_iff.mp h) j

theorem countFrom_eq (sub : List α) (skip : Nat) (s : List α) : countFrom sub skip s = count sub (s.drop skip) := by
  induction s generalizing skip with
  | nil => cases skip <;> rfl
  | cons c cs ih =>
    cases skip with
    | zero => rfl
    | succ skip => exact ih skip

theorem count_of_none (h : find sub s = none) : count sub s = 0 := by
  induction s with
  | nil => rfl
  | cons c cs ih =>
    unfold find at h
    split at h
    · cases h
    · rename_i hp
      have hrest : count sub (c :: cs) = count sub cs := if_neg hp
      rw [hrest]
      exact ih (Option.map_eq_none_iff.mp h)

theorem count_of_some (hsub : sub ≠ []) (h : find sub s = some i) :
    count sub s = count sub (s.drop (i + sub.length)) + 1 := by
  induction s generalizing i with
  | nil =>
    unfold find at h
    rw [if_neg hsub] at h
    cases h
  | cons c cs ih =>
    unfold find at h
    split at h
    · rename_i hp
      cases h
      have hhere : count sub (c :: cs) = countFrom sub (sub.length - 1) cs + 1 := if_pos hp
      have hlen : 0 + sub.length = sub.length - 1 + 1 := by
        have hpos := List.length_pos_iff.mpr hsub
        omega
      rw [hhere, countFrom_eq, hlen, List.drop_succ_cons]
    · rename_i hp
      obtain ⟨i, hi, rfl⟩ := Option.map_eq_some_iff.mp h
      have hrest : count sub (c :: cs) = count sub cs := if_neg hp
      rw [hrest, ih hi, Nat.add_right_comm, List.drop_succ_cons]

theorem count_eq_zero (hsub : sub ≠ []) : count sub s = 0 ↔ ∀ j, ¬ At sub s j := by
  cases h : find sub s with
  | none => exact iff_of_true (count_of_none h) (find_none hsub h)
  | some i =>
    apply iff_of_false
    · rw [count_of_some hsub h]
      exact Nat.succ_ne_zero _
    · exact fun hnone => hnone i (find_spec h).1

theorem of_count_one (hsub : sub ≠ []) (h : count sub s = 1) :
    ∃ i, find sub s = some i ∧ At sub s i ∧ ∀ j, At sub s j → i ≤ j ∧ j < i + sub.length := by
  cases hfind : find sub s with
  | none =>
    rw [count_of_none hfind] at h
    cases h
  | some i =>
    obtain ⟨hat, hfirst⟩ := find_spec hfind
    rw [count_of_some hsub hfind, Nat.add_eq_right, count_eq_zero hsub] at h
    refine ⟨i, rfl, hat, fun j hj => ⟨hfirst j hj, ?_⟩⟩
    by_contra hover
    apply h (j - (i + sub.length))
    rw [at_drop, Nat.add_sub_cancel' (not_lt.mp hover)]
    exact hj

theorem unique_iff_apart (hsub : sub ≠ []) (h : count sub s = 1) :
    (∃ i, At sub s i ∧ ∀ j, At sub s j → j = i) ↔ Apart sub s := by
  constructor
  · rintro ⟨i, -, hunique⟩ j k hj hk hlt
    rw [hunique j hj, hunique k hk] at hlt
    exact absurd hlt (lt_irrefl i)
  · intro hapart
    obtain ⟨i, -, hi, hover⟩ := of_count_one hsub h
    refine ⟨i, hi, fun j hj => ?_⟩
    obtain ⟨hle, hlt⟩ := hover j hj
    by_contra hne
    have hlt' : i < j := lt_of_le_of_ne hle (Ne.symm hne)
    exact absurd (hapart i j hi hj hlt') (not_le.mpr hlt)

section Joined
variable {sep : α} {part lines : List (List α)}

omit [DecidableEq α] in
theorem intercalate_concat (h : lines ≠ []) : [sep].intercalate lines ++ [sep] = join sep lines := by
  induction lines with
  | nil => exact absurd rfl h
  | cons l lines ih =>
    cases lines with
    | nil => simp
    | cons m lines =>
      rw [List.intercalate_cons_cons, List.append_assoc, ih (List.cons_ne_nil m lines), join_cons, join_cons]
      simp

omit [DecidableEq α] in
theorem length_intercalate (h : lines ≠ []) : ([sep].intercalate lines).length + 1 = (join sep lines).length := by
  rw [← intercalate_concat h, List.length_append, List.length_singleton]

theorem count_join (h : Unbroken sep lines) : (join sep lines).count sep = lines.length := by
  induction lines with
  | nil => rfl
  | cons l lines ih =>
    obtain ⟨hl, hlines⟩ := unbroken_cons.mp h
    rw [join_cons, List.count_append, List.count_eq_zero_of_not_mem hl, List.count_cons_self, ih hlines,
      List.length_cons, Nat.zero_add]

omit [DecidableEq α] in
theorem at_join (hpart : part ≠ []) {k : Nat} (h : At part lines k) :
    At ([sep].intercalate part) ([sep].intercalate lines) (join sep (lines.take k)).length := by
  have hlines : lines ≠ [] := by
    rintro rfl
    have hle := h.le hpart
    have hpos := List.length_pos_iff.mpr hpart
    rw [List.length_nil] at hle
    omega
  have htext : [sep].intercalate lines ++ [sep] =
      join sep (lines.take k) ++ ([sep].intercalate part ++ [sep]) ++ join sep (lines.drop (k + part.length)) := by
    rw [intercalate_concat hlines, intercalate_concat hpart, ← join_append, ← join_append, ← h.eq]
  rcases List.eq_nil_or_concat (join sep (lines.drop (k + part.length))) with hnone | ⟨rest, last, hrest⟩
  · rw [hnone, List.append_nil, ← List.append_assoc, List.append_cancel_right_eq] at htext
    rw [htext]
    exact at_of_eq (List.append_nil _).symm
  · have hlast : last = sep := by
      have hne : lines.drop (k + part.length) ≠ [] := by
        intro hnil
        rw [hnil] at hrest
        simp at hrest
      have hend : (join sep (lines.drop (k + part.length))).getLast? = some sep := getLast?_join hne
      rw [hrest] at hend
      simpa using hend
    rw [hrest, List.concat_eq_append, hlast, ← List.append_assoc, List.append_cancel_right_eq] at htext
    have hsplit : [sep].intercalate lines =
        join sep (lines.take k) ++ [sep].intercalate part ++ ([sep] ++ rest) := by
      rw [htext]
      simp only [List.append_assoc]
    exact at_of_eq hsplit

theorem eq_join_cut {text : List α} (h : text = [] ∨ text.getLast? = some sep) :
    text = join sep (cut sep text).1 := by
  have hjoin := join_cut sep text
  have htail := (cut_unbroken sep text).2
  rcases List.eq_nil_or_concat (cut sep text).2 with hnil | ⟨front, last, hlast⟩
  · rw [hnil, List.append_nil] at hjoin
    exact hjoin.symm
  · rw [List.concat_eq_append] at hlast
    have hend : text.getLast? = some last := by
      rw [← hjoin, hlast]
      simp
    rcases h with rfl | h
    · cases hend
    · rw [h, Option.some.injEq] at hend
      rw [hlast, ← hend] at htail
      simp at htail

theorem at_of_join (hunbroken : Unbroken sep part) (hlines : Unbroken sep lines) (hpart : part ≠ [])
    (hne : lines ≠ []) {i : Nat} (h : At ([sep].intercalate part) ([sep].intercalate lines) i)
    (hstart : i = 0 ∨ ([sep].intercalate lines)[i - 1]? = some sep)
    (hend : i + ([sep].intercalate part).length = ([sep].intercalate lines).length ∨
      ([sep].intercalate lines)[i + ([sep].intercalate part).length]? = some sep) :
    At part lines ((([sep].intercalate lines).take i).count sep) ∧
      (join sep (lines.take ((([sep].intercalate lines).take i).count sep))).length = i := by
  have hjoin : [sep].intercalate lines ++ [sep] = join sep lines := intercalate_concat hne
  have hle : i ≤ ([sep].intercalate lines).length := by
    by_contra hover
    have hdrop : ([sep].intercalate lines).drop i = [] := List.drop_eq_nil_of_le (by omega)
    have hempty : [sep].intercalate part = [] := by
      unfold At at h
      rw [hdrop] at h
      exact List.prefix_nil.mp h
    rw [hempty, List.length_nil, Nat.add_zero] at hend
    rcases hend with hend | hend
    · omega
    · rw [List.getElem?_eq_none (by omega)] at hend
      cases hend
  generalize [sep].intercalate lines = text at *
  have hfront : text.take i = join sep (cut sep (text.take i)).1 := by
    apply eq_join_cut
    rcases hstart with rfl | hstart
    · exact .inl List.take_zero
    · by_cases hi : i = 0
      · rw [hi]
        exact .inl List.take_zero
      · rw [List.getLast?_take, if_neg hi, hstart]
        exact .inr rfl
  obtain ⟨rest, hrest⟩ : ∃ rest, text.drop (i + ([sep].intercalate part).length) ++ [sep] = sep :: rest := by
    rcases hend with hend | hend
    · rw [hend, List.drop_length]
      exact ⟨[], rfl⟩
    · obtain ⟨hlt, hget⟩ := List.getElem?_eq_some_iff.mp hend
      rw [List.drop_eq_getElem_cons hlt, hget]
      exact ⟨_, rfl⟩
  have hsplit : lines = (cut sep (text.take i)).1 ++ (part ++ (cut sep rest).1) := by
    have hwhole : join sep lines = text.take i ++ (join sep part ++ rest) := by
      rw [← hjoin, ← intercalate_concat hpart]
      conv_lhs => rw [h.eq, List.append_assoc, hrest]
      simp only [List.append_assoc, List.singleton_append]
    have hcut : cut sep (join sep lines) = (lines, []) := by
      have hall := cut_join hlines (t := []) List.not_mem_nil
      rwa [List.append_nil] at hall
    rw [hwhole, hfront, cut_join_append (cut_unbroken sep _).1, cut_join_append hunbroken] at hcut
    exact (congrArg Prod.fst hcut).symm
  have hcount : (text.take i).count sep = (cut sep (text.take i)).1.length := by
    conv_lhs => rw [hfront]
    exact count_join (cut_unbroken sep _).1
  rw [hcount]
  constructor
  · apply at_of_eq
    rw [hsplit, List.append_assoc]
  · have htake : lines.take (cut sep (text.take i)).1.length = (cut sep (text.take i)).1 := by
      conv_lhs => rw [hsplit]
      exact List.take_left
    rw [htake, ← hfront, List.length_take, Nat.min_eq_left hle]

theorem unique_part_iff (hpart : part ≠ []) (hsub : [sep].intercalate part ≠ [])
    (hcount : count ([sep].intercalate part) ([sep].intercalate lines) = 1) {k : Nat} (hk : At part lines k) :
    (∀ j, At part lines j → j = k) ↔ Apart part lines := by
  constructor
  · intro hunique i j hi hj hlt
    rw [hunique i hi, hunique j hj] at hlt
    exact absurd hlt (lt_irrefl k)
  · intro hapart j hj
    obtain ⟨first, -, -, hover⟩ := of_count_one hsub hcount
    -- a place behind the whole of another one would have been counted as well
    have hbehind {i j : Nat} (hi : At part lines i) (hj : At part lines j) (hlt : i < j) : False := by
      have hfar := hapart i j hi hj hlt
      have hplace := hover _ (at_join hpart hi)
      have hother := hover _ (at_join hpart hj)
      have hlen : (join sep (lines.take (i + part.length))).length ≤ (join sep (lines.take j)).length := by
        rw [← List.take_append_drop (i + part.length) (lines.take j), List.take_take, Nat.min_eq_left hfar,
          join_append, List.length_append]
        exact Nat.le_add_right ..
      have hwhole : (join sep (lines.take (i + part.length))).length =
          (join sep (lines.take i)).length + (([sep].intercalate part).length + 1) := by
        have htake : lines.take (i + part.length) = lines.take i ++ part := by
          rw [List.take_add]
          conv_lhs => rw [(List.prefix_iff_eq_take.mp hi).symm]
        rw [htake, join_append, List.length_append, length_intercalate hpart]
      omega
    rcases Nat.lt_trichotomy j k with hlt | heq | hlt
    · exact (hbehind hj hk hlt).elim
    · exact heq
    · exact (hbehind hk hj hlt).elim

end Joined

end LoopLab.Lib.Occurs

/-!
## Seams between texts

A text is split between two neighbours that do not belong together.
-/

namespace LoopLab.Lib

universe u
variable {α : Type u} {r : α → α → Bool}

def Seam (r : α → α → Bool) (a b : List α) : Prop := ∀ x ∈ a.getLast?, ∀ y ∈ b.head?, r x y = false

instance (a b : List α) : Decidable (Seam r a b) :=
  inferInstanceAs (Decidable (∀ x ∈ a.getLast?, ∀ y ∈ b.head?, r x y = false))

theorem seam_nil_left (b : List α) : Seam r [] b := by
  intro x hx
  cases hx

variable {parts others : List (List α)} {text : List α}

theorem getLast?_flatten (h : [] ∉ parts) {x : α} (hx : x ∈ parts.flatten.getLast?) :
    ∃ part ∈ parts.getLast?, part.getLast? = some x := by
  rcases List.eq_nil_or_concat parts with rfl | ⟨front, part, rfl⟩
  · cases hx
  · have hpart : part ≠ [] := by
      rintro rfl
      exact h (by simp)
    refine ⟨part, by simp, ?_⟩
    rw [List.concat_eq_append, List.flatten_append, List.flatten_singleton, Option.mem_def, List.getLast?_append_of_ne_nil _ hpart] at hx
    exact hx

theorem head?_flatten (h : [] ∉ parts) {x : α} (hx : x ∈ parts.flatten.head?) :
    ∃ part ∈ parts.head?, part.head? = some x := by
  cases parts with
  | nil => cases hx
  | cons part parts =>
    have hpart : part ≠ [] := by
      rintro rfl
      exact h (by simp)
    refine ⟨part, rfl, ?_⟩
    rw [List.flatten_cons, Option.mem_def, List.head?_append_of_ne_nil _ hpart] at hx
    exact hx

theorem parts_of_splitBy (h : text.splitBy r = parts ++ others) :
    parts.flatten.splitBy r = parts ∧ others.flatten.splitBy r = others ∧
      Seam r parts.flatten others.flatten := by
  obtain ⟨-, hnil, hchain, hcut⟩ := List.splitBy_eq_iff.mp h
  rw [List.mem_append, not_or] at hnil
  rw [List.forall_mem_append] at hchain
  rw [List.isChain_append] at hcut
  obtain ⟨hparts, hothers, hmeet⟩ := hcut
  refine ⟨List.splitBy_flatten hnil.1 hchain.1 hparts, List.splitBy_flatten hnil.2 hchain.2 hothers, ?_⟩
  intro x hx y hy
  obtain ⟨a, ha, hax⟩ := getLast?_flatten hnil.1 hx
  obtain ⟨b, hb, hby⟩ := head?_flatten hnil.2 hy
  obtain ⟨hane, hbne, hr⟩ := hmeet a ha b hb
  rw [List.getLast?_eq_some_getLast hane, Option.some.injEq] at hax
  rw [List.head?_eq_some_head hbne, Option.some.injEq] at hby
  rw [← hax, ← hby]
  exact hr

theorem framed_iff {between : List α} (hparts : parts.flatten.splitBy r = parts)
    (hothers : others.flatten.splitBy r = others) :
    (∃ middle, (parts.flatten ++ between ++ others.flatten).splitBy r = parts ++ middle ++ others) ↔
      Seam r parts.flatten (between ++ others.flatten) ∧ Seam r between others.flatten := by
  constructor
  · rintro ⟨middle, h⟩
    have htext := List.flatten_splitBy r (parts.flatten ++ between ++ others.flatten)
    rw [h, List.flatten_append, List.flatten_append, List.append_cancel_right_eq,
      List.append_cancel_left_eq] at htext
    rw [List.append_assoc parts] at h
    obtain ⟨-, hrest, hleft⟩ := parts_of_splitBy h
    obtain ⟨-, -, hright⟩ := parts_of_splitBy hrest
    rw [List.flatten_append, htext] at hleft
    rw [htext] at hright
    exact ⟨hleft, hright⟩
  · rintro ⟨hleft, hright⟩
    refine ⟨between.splitBy r, ?_⟩
    rw [List.append_assoc, List.splitBy_append hleft, List.splitBy_append hright, hparts, hothers,
      List.append_assoc]

end LoopLab.Lib
