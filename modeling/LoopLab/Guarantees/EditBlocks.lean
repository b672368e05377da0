import LoopLab.Tools.EditMatch

/-!
# An edit changes the one block it names

An edit that is made names its block clearly when no two places of the searched text overlap.
-/

set_option autoImplicit false

namespace LoopLab.Tools.EditMatch
open Lib

/-- No line ends between the characters. -/
def joined (a b : Char) : Bool := !Py.isLineEnd a || (a = '\r' && b = '\n')

theorem joined_eq_false {a b : Char} : joined a b = false ↔ Py.isLineEnd a = true ∧ ¬(a = '\r' ∧ b = '\n') := by
  unfold joined
  simp

theorem isSpace_of_isLineEnd {c : Char} (h : Py.isLineEnd c = true) : Py.isSpace c = true := by
  unfold Py.isLineEnd at h
  unfold Py.isSpace
  simp only [List.contains_iff_mem, List.mem_cons, List.not_mem_nil, or_false] at h
  rcases h with h | h | h | h | h | h | h | h | h | h
  all_goals
    rw [h]
    rfl

section Lines

theorem isChain_reverse {line rest : List Char} (h : ∀ c ∈ line, Py.isLineEnd c = false)
    (hrest : rest.IsChain fun a b => joined a b = true) :
    (line.reverse ++ rest).IsChain fun a b => joined a b = true := by
  induction line generalizing rest with
  | nil => exact hrest
  | cons c line ih =>
    obtain ⟨hc, hline⟩ := List.forall_mem_cons.mp h
    rw [List.reverse_cons, List.append_assoc, List.singleton_append]
    apply ih hline
    apply List.isChain_cons.mpr
    refine ⟨fun d _ => ?_, hrest⟩
    unfold joined
    rw [hc]
    rfl

theorem splitBy_line {line cs : List Char} {c : Char} (hline : line.IsChain fun a b => joined a b = true)
    (hlast : line.getLast? = some c) (hend : ∀ d ∈ cs.head?, joined c d = false) :
    (line ++ cs).splitBy joined = line :: cs.splitBy joined := by
  have hne : line ≠ [] := by
    rintro rfl
    cases hlast
  rw [List.splitBy_append, List.splitBy_of_isChain hne hline, List.singleton_append]
  intro x hx y hy
  rw [hlast, Option.mem_some_iff] at hx
  rw [← hx]
  exact hend y hy

theorem keptFrom_eq (line cs : List Char) (h : ∀ c ∈ line, Py.isLineEnd c = false) :
    Py.keptFrom line cs = (line.reverse ++ cs).splitBy joined := by
  induction line, cs using Py.keptFrom.induct with
  | case1 => rfl
  | case2 line hne =>
    have hchain := isChain_reverse h List.isChain_nil
    rw [List.append_nil] at hchain
    rw [Py.keptFrom.eq_2 line hne, List.append_nil, List.splitBy_of_isChain (by simpa using hne) hchain]
  | case3 line cs ih =>
    have hchain : (line.reverse ++ ['\r', '\n']).IsChain fun a b => joined a b = true :=
      isChain_reverse h (by decide)
    have hseam : ∀ d ∈ cs.head?, joined '\n' d = false := by
      intro d _
      exact joined_eq_false.mpr ⟨rfl, by simp⟩
    have hsplit : line.reverse ++ '\r' :: '\n' :: cs = (line.reverse ++ ['\r', '\n']) ++ cs := by simp
    rw [Py.keptFrom.eq_3, ih (by simp), hsplit, splitBy_line hchain (by simp) hseam, List.reverse_nil, List.nil_append]
  | case4 line c cs hcr hend ih =>
    have hchain : (line.reverse ++ [c]).IsChain fun a b => joined a b = true :=
      isChain_reverse h (List.isChain_singleton c)
    have hseam : ∀ d ∈ cs.head?, joined c d = false := by
      intro d hd
      apply joined_eq_false.mpr
      refine ⟨hend, fun ⟨hc, hd'⟩ => ?_⟩
      obtain ⟨rest, rfl⟩ := List.head?_eq_some_iff.mp hd
      exact hcr rest hc (by rw [hd'])
    have hsplit : line.reverse ++ c :: cs = (line.reverse ++ [c]) ++ cs := by simp
    rw [Py.keptFrom.eq_4 line c cs hcr, if_pos hend, ih (by simp), hsplit, splitBy_line hchain (by simp) hseam,
      List.reverse_nil, List.nil_append]
  | case5 line c cs hcr hend ih =>
    have hnot : ∀ d ∈ c :: line, Py.isLineEnd d = false := by
      intro d hd
      rcases List.mem_cons.mp hd with rfl | hd
      · exact eq_false_of_ne_true hend
      · exact h d hd
    rw [Py.keptFrom.eq_4 line c cs hcr, if_neg hend, ih hnot, List.reverse_cons, List.append_assoc,
      List.singleton_append]

theorem keptLines_eq (cs : List Char) : Py.keptLines cs = cs.splitBy joined := keptFrom_eq [] cs (by simp)

theorem rstrip_concat {l : List Char} {c : Char} (h : Py.isLineEnd c = true) :
    Py.rstrip (l ++ [c]) = Py.rstrip l :=
  List.rdropWhile_concat_pos _ _ _ (isSpace_of_isLineEnd h)

theorem map_rstrip (line cs : List Char) :
    (Py.linesFrom line cs).map Py.rstrip = (Py.keptFrom line cs).map Py.rstrip := by
  induction line, cs using Py.linesFrom.induct with
  | case1 => rfl
  | case2 line hne => rw [Py.linesFrom.eq_2 line hne, Py.keptFrom.eq_2 line hne]
  | case3 line cs ih =>
    have hends : Py.rstrip (line.reverse ++ ['\r', '\n']) = Py.rstrip line.reverse := by
      rw [← List.singleton_append, ← List.append_assoc, rstrip_concat (by rfl), rstrip_concat (by rfl)]
    rw [Py.linesFrom.eq_3, Py.keptFrom.eq_3, List.map_cons, List.map_cons, ih, hends]
  | case4 line c cs hcr hend ih =>
    rw [Py.linesFrom.eq_4 line c cs hcr, Py.keptFrom.eq_4 line c cs hcr, if_pos hend, if_pos hend, List.map_cons,
      List.map_cons, ih, rstrip_concat hend]
  | case5 line c cs hcr hend ih =>
    rw [Py.linesFrom.eq_4 line c cs hcr, Py.keptFrom.eq_4 line c cs hcr, if_neg hend, if_neg hend, ih]

theorem normLines_eq (cs : List Char) : normLines cs = (Py.keptLines cs).map Py.rstrip := map_rstrip [] cs

theorem newline_not_mem {line cs l : List Char} (h : '\n' ∉ line) (hl : l ∈ Py.linesFrom line cs) : '\n' ∉ l := by
  induction line, cs using Py.linesFrom.induct with
  | case1 => cases hl
  | case2 line hne =>
    rw [Py.linesFrom.eq_2 line hne, List.mem_singleton] at hl
    rw [hl]
    exact fun hmem => h (List.mem_reverse.mp hmem)
  | case3 line cs ih =>
    rw [Py.linesFrom.eq_3] at hl
    rcases List.mem_cons.mp hl with rfl | hl
    · exact fun hmem => h (List.mem_reverse.mp hmem)
    · exact ih List.not_mem_nil hl
  | case4 line c cs hcr hend ih =>
    rw [Py.linesFrom.eq_4 line c cs hcr, if_pos hend] at hl
    rcases List.mem_cons.mp hl with rfl | hl
    · exact fun hmem => h (List.mem_reverse.mp hmem)
    · exact ih List.not_mem_nil hl
  | case5 line c cs hcr hend ih =>
    rw [Py.linesFrom.eq_4 line c cs hcr, if_neg hend] at hl
    apply ih ?_ hl
    intro hmem
    rcases List.mem_cons.mp hmem with rfl | hmem
    · exact hend rfl
    · exact h hmem

theorem normLines_unbroken (t : List Char) : Unbroken '\n' (normLines t) := by
  intro l hl hmem
  obtain ⟨line, hline, rfl⟩ := List.mem_map.mp hl
  have hbegins : Py.rstrip line <+: line := List.rdropWhile_prefix Py.isSpace line
  exact newline_not_mem List.not_mem_nil hline (hbegins.subset hmem)

theorem normLines_ne_nil {t : List Char} (h : t ≠ []) : normLines t ≠ [] := by
  intro hnil
  rw [normLines_eq, List.map_eq_nil_iff, keptLines_eq, List.splitBy_eq_nil] at hnil
  exact h hnil

end Lines

/-- The text ends in a line feed. -/
def endsLf (t : List Char) : Bool := ['\n'].isSuffixOf t

/-- The text ends in a carriage return and a line feed. -/
def endsCrLf (t : List Char) : Bool := ['\r', '\n'].isSuffixOf t

/-- The text without one line feed at its end. -/
def withoutLf (t : List Char) : List Char := if endsLf t then t.dropLast else t

/-- Nothing is joined where a replacement stands for lines that end as `last` does: in front the line before
does not take its first line feed, and behind it ends like a line, unless it is empty or ends the file. -/
def Fits (before last after replace : List Char) : Prop :=
  let given := if endsLf last then replace else withoutLf replace
  (Seam joined before (given ++ after) ∨ given ≠ [] ∧ endsCrLf last) ∧ (Seam joined given after ∨ endsLf last)

section Fitted
variable {last replace before after : List Char}

theorem endsLf_iff {t : List Char} : endsLf t = true ↔ t.getLast? = some '\n' := by
  unfold endsLf
  rw [List.isSuffixOf_iff_suffix]
  constructor
  · rintro ⟨front, rfl⟩
    simp
  · intro h
    obtain ⟨front, rfl⟩ := List.getLast?_eq_some_iff.mp h
    exact List.suffix_append ..

theorem endsLf_of_endsCrLf {t : List Char} (h : endsCrLf t = true) : endsLf t = true := by
  unfold endsCrLf at h
  unfold endsLf
  rw [List.isSuffixOf_iff_suffix] at h ⊢
  exact List.IsSuffix.trans ⟨['\r'], rfl⟩ h

theorem fitted_of_bare (h : endsLf last = false) : fitted last replace = withoutLf replace := by
  have hcr : endsCrLf last = false := by
    by_contra hne
    rw [endsLf_of_endsCrLf (eq_true_of_ne_false hne)] at h
    cases h
  unfold endsLf at h
  unfold endsCrLf at hcr
  unfold fitted withoutLf endsLf
  simp only [h, hcr, Bool.false_eq_true, if_false, ne_eq, not_true_eq_false, not_false_eq_true, true_and, false_and,
    and_false]
  by_cases hlf : ['\n'].isSuffixOf replace = true
  · have hne : replace ≠ [] := by
      rintro rfl
      cases hlf
    rw [if_pos ⟨hne, hlf⟩, if_pos hlf, List.dropLast_eq_take]
    rfl
  · rw [if_neg (fun hand => hlf hand.2), if_neg hlf]

theorem fitted_of_lf (h : endsLf last = true) (hcr : endsCrLf last = false) :
    fitted last replace = if replace = [] ∨ endsLf replace then replace else replace ++ ['\n'] := by
  unfold endsLf at h
  unfold endsCrLf at hcr
  unfold fitted endsLf
  simp only [h, hcr, Bool.false_eq_true, if_false, ne_eq, not_true_eq_false, true_and, false_and, and_false]
  by_cases hend : replace = [] ∨ ['\n'].isSuffixOf replace = true
  · rw [if_pos hend, if_neg]
    rintro ⟨hne, hlf⟩
    exact hend.elim hne hlf
  · rw [if_neg hend, if_pos (not_or.mp hend)]

def crlf (t : List Char) : List Char :=
  Occurs.replaceAll ['\n'] ['\r', '\n'] (Occurs.replaceAll ['\r', '\n'] ['\n'] t)

theorem fitted_of_crlf (hcr : endsCrLf last = true) :
    fitted last replace = if crlf replace = [] ∨ endsCrLf (crlf replace) then crlf replace
      else crlf replace ++ ['\r', '\n'] := by
  have h := endsLf_of_endsCrLf hcr
  unfold endsLf at h
  unfold endsCrLf at hcr
  unfold fitted endsCrLf crlf
  have hne : ['\r', '\n'] ≠ ['\n'] := by decide
  simp only [h, hcr, hne, if_true, ne_eq, not_true_eq_false, not_false_eq_true, true_and, false_and, and_false,
    if_false]
  generalize Occurs.replaceAll ['\n'] ['\r', '\n'] (Occurs.replaceAll ['\r', '\n'] ['\n'] replace) = rep
  by_cases hend : rep = [] ∨ ['\r', '\n'].isSuffixOf rep = true
  · rw [if_pos hend, if_neg]
    rintro ⟨hne, hlf⟩
    exact hend.elim hne hlf
  · rw [if_neg hend, if_pos (not_or.mp hend)]

theorem replaceAll_ne_nil {sub rep s : List Char} (hrep : rep ≠ []) (hs : s ≠ []) :
    Occurs.replaceAll sub rep s ≠ [] := by
  cases s with
  | nil => exact absurd rfl hs
  | cons c cs =>
    unfold Occurs.replaceAll Occurs.replaceFrom
    split
    · exact fun hnil => hrep (List.append_eq_nil_iff.mp hnil).1
    · exact List.cons_ne_nil _ _

theorem crlf_nil : crlf [] = [] := rfl

theorem crlf_ne_nil (h : replace ≠ []) : crlf replace ≠ [] :=
  replaceAll_ne_nil (List.cons_ne_nil _ _) (replaceAll_ne_nil (List.cons_ne_nil _ _) h)

theorem head?_crlf : (crlf replace).head? ≠ some '\n' := by
  unfold crlf
  cases Occurs.replaceAll ['\r', '\n'] ['\n'] replace with
  | nil => simp [Occurs.replaceAll, Occurs.replaceFrom]
  | cons c cs =>
    unfold Occurs.replaceAll Occurs.replaceFrom
    split
    · simp
    · rename_i hc
      intro hhead
      rw [List.head?_cons, Option.some.injEq] at hhead
      apply hc
      rw [hhead]
      rfl

theorem fitted_ends (h : endsLf last = true) : fitted last replace = [] ∨ endsLf (fitted last replace) = true := by
  cases hcr : endsCrLf last with
  | false =>
    rw [fitted_of_lf h hcr]
    split
    · rename_i hend
      exact hend
    · exact .inr (endsLf_iff.mpr (by simp))
  | true =>
    rw [fitted_of_crlf hcr]
    split
    · rename_i hend
      exact hend.imp_right endsLf_of_endsCrLf
    · exact .inr (endsLf_iff.mpr (by simp))

theorem seam_of_ends {t : List Char} (h : t = [] ∨ endsLf t = true) : Seam joined t after := by
  rcases h with rfl | h
  · exact seam_nil_left after
  · intro x hx y _
    rw [endsLf_iff.mp h, Option.mem_some_iff] at hx
    rw [← hx]
    exact joined_eq_false.mpr ⟨rfl, by simp⟩

theorem seam_congr {a b c : List Char} (h : b.head? = c.head?) : Seam joined a b ↔ Seam joined a c := by
  unfold Seam
  rw [h]

theorem fits_iff (hbefore : ∀ c ∈ before.getLast?, Py.isLineEnd c = true) :
    Seam joined before (fitted last replace ++ after) ∧ Seam joined (fitted last replace) after ↔
      Fits before last after replace := by
  unfold Fits
  cases hlf : endsLf last with
  | false =>
    have hcr : endsCrLf last ≠ true := by
      intro hcr
      rw [endsLf_of_endsCrLf hcr] at hlf
      cases hlf
    simp [fitted_of_bare hlf, hcr]
  | true =>
    have hbehind : Seam joined (fitted last replace) after := seam_of_ends (fitted_ends hlf)
    simp only [if_true, hbehind, and_true, or_true]
    cases hcr : endsCrLf last with
    | false =>
      have hhead : (fitted last replace ++ after).head? = (replace ++ after).head? := by
        rw [fitted_of_lf hlf hcr]
        split
        · rfl
        · rename_i hne
          rw [List.append_assoc, List.head?_append_of_ne_nil _ (not_or.mp hne).1,
            List.head?_append_of_ne_nil _ (not_or.mp hne).1]
      simp [seam_congr hhead]
    | true =>
      by_cases hne : replace = []
      · rw [fitted_of_crlf hcr, hne, crlf_nil]
        simp
      · have hin : (fitted last replace ++ after).head? = (crlf replace).head? := by
          rw [fitted_of_crlf hcr]
          split
          · exact List.head?_append_of_ne_nil _ (crlf_ne_nil hne)
          · rw [List.append_assoc, List.head?_append_of_ne_nil _ (crlf_ne_nil hne)]
        have hfront : Seam joined before (fitted last replace ++ after) := by
          intro x hx y hy
          rw [hin] at hy
          refine joined_eq_false.mpr ⟨hbefore x hx, fun ⟨_, hy'⟩ => ?_⟩
          exact head?_crlf (hy' ▸ hy)
        simp [hfront, hne]

end Fitted

/-- The block an edit names: the only occurrence of the searched text, or where it does not occur, the only run
of lines that it is up to the blanks at their ends, with the lines around the run left as they are. -/
def ChangesOneBlock (cur search replace new : List Char) : Prop :=
  (∃ i, Occurs.At search cur i ∧ (∀ j, Occurs.At search cur j → j = i) ∧
    new = cur.take i ++ replace ++ cur.drop (i + search.length)) ∨
  ((∀ i, ¬ Occurs.At search cur i) ∧
    ∃ k, Occurs.At (normLines search) (normLines cur) k ∧
      (∀ j, Occurs.At (normLines search) (normLines cur) j → j = k) ∧
      ∃ middle, Py.keptLines new = (Py.keptLines cur).take k ++ middle ++
        (Py.keptLines cur).drop (k + (normLines search).length))

/-- The replacement fits where it stands for a run of the lines. -/
def FitsAt (lines : List (List Char)) (k size : Nat) (replace : List Char) : Prop :=
  Fits (lines.take k).flatten (lines[k + size - 1]?.getD []) (lines.drop (k + size)).flatten replace

/-- No two places that the searched text could name overlap, and nothing is joined beside whole lines. -/
def Clear (cur search replace : List Char) : Prop :=
  Occurs.Apart search cur ∧
    ((∀ i, ¬ Occurs.At search cur i) →
      Occurs.Apart (normLines search) (normLines cur) ∧
        ∀ k, Occurs.At (normLines search) (normLines cur) k →
          FitsAt (Py.keptLines cur) k (normLines search).length replace)

section Edit
variable {cur search replace new : List Char} {path : String}

theorem anchored_spec {cn sn : List Char} {idx : Nat} (h : anchored cn sn = some idx) :
    sn ≠ [] ∧ Occurs.At sn cn idx ∧ Occurs.count sn cn = 1 ∧ (idx = 0 ∨ cn[idx - 1]? = some '\n') ∧
      (idx + sn.length = cn.length ∨ cn[idx + sn.length]? = some '\n') := by
  unfold anchored at h
  split at h
  · cases h
  · rename_i hne
    obtain ⟨hfind, hcond⟩ := Option.filter_eq_some_iff.mp h
    exact ⟨hne, (Occurs.find_spec hfind).1, of_decide_eq_true hcond⟩

theorem applied (h : (applySearchReplace cur search replace path).1 = some new) :
    search ≠ [] ∧
      (Occurs.count search cur = 1 ∧ new = Occurs.replaceFirst search replace cur ∨
        Occurs.count search cur = 0 ∧ ∃ idx, anchored (norm cur) (norm search) = some idx ∧
          new = spliced (Py.keptLines cur) (((norm cur).take idx).count '\n') ((norm search).count '\n' + 1)
            replace) := by
  unfold applySearchReplace at h
  split at h
  · cases h
  · rename_i hne
    refine ⟨hne, ?_⟩
    dsimp only at h
    split at h
    · rename_i hzero
      split at h
      · rename_i idx hidx
        exact .inr ⟨hzero, idx, hidx, (Option.some.inj h).symm⟩
      · cases h
    · split at h
      · cases h
      · rename_i hzero hmany
        refine .inl ⟨?_, (Option.some.inj h).symm⟩
        omega

theorem size_eq (h : search ≠ []) : (norm search).count '\n' + 1 = (normLines search).length := by
  rw [← Occurs.count_join (normLines_unbroken search), ← Occurs.intercalate_concat (normLines_ne_nil h),
    List.count_append, List.count_singleton_self]
  rfl

theorem spliced_iff (replace : List Char) {lines : List (List Char)} {text : List Char} (hlines : text.splitBy joined = lines)
    {k size : Nat} (hsize : 0 < size) (hk : k + size ≤ lines.length) :
    (∃ middle, Py.keptLines (spliced lines k size replace) = lines.take k ++ middle ++ lines.drop (k + size)) ↔
      FitsAt lines k size replace := by
  have hfront := parts_of_splitBy (hlines.trans (List.take_append_drop k lines).symm)
  have hback := parts_of_splitBy (hlines.trans (List.take_append_drop (k + size) lines).symm)
  have hends : ∀ c ∈ (lines.take k).flatten.getLast?, Py.isLineEnd c = true := by
    intro c hc
    have hne : (lines.drop k).flatten ≠ [] := by
      rw [← List.splitBy_ne_nil (r := joined), hfront.2.1, ← List.length_pos_iff, List.length_drop]
      omega
    exact (joined_eq_false.mp (hfront.2.2 c hc _ (List.head?_eq_some_head hne))).1
  unfold FitsAt
  rw [← fits_iff hends, ← framed_iff hfront.1 hback.2.1, keptLines_eq]
  rfl

/-- An edit that is made changes one block exactly when the block is named clearly and its lines fit. -/
theorem changes_one_block_iff (h : (applySearchReplace cur search replace path).1 = some new) :
    ChangesOneBlock cur search replace new ↔ Clear cur search replace := by
  obtain ⟨hsearch, ⟨hcount, rfl⟩ | ⟨hcount, idx, hidx, rfl⟩⟩ := applied h
  · obtain ⟨i, hfind, hi, -⟩ := Occurs.of_count_one hsearch hcount
    have hnew : Occurs.replaceFirst search replace cur = cur.take i ++ replace ++ cur.drop (i + search.length) := by
      unfold Occurs.replaceFirst
      rw [hfind]
      rfl
    unfold ChangesOneBlock Clear
    rw [← Occurs.unique_iff_apart hsearch hcount]
    constructor
    · rintro (⟨j, hj, hunique, -⟩ | ⟨hnone, -⟩)
      · exact ⟨⟨j, hj, hunique⟩, fun hnone => absurd hi (hnone i)⟩
      · exact absurd hi (hnone i)
    · rintro ⟨⟨j, hj, hunique⟩, -⟩
      refine .inl ⟨i, hi, fun j' hj' => (hunique j' hj').trans (hunique i hi).symm, hnew⟩
  · obtain ⟨hne, hat, hone, hstart, hend⟩ := anchored_spec hidx
    have hnone := (Occurs.count_eq_zero hsearch).mp hcount
    have hpart := normLines_ne_nil hsearch
    have hlines : normLines cur ≠ [] := by
      intro hnil
      unfold norm at hat
      rw [hnil] at hat
      have hle := hat.le hne
      have hpos := List.length_pos_iff.mpr hne
      simp at hle
      exact hne hle.2
    have hrun := (Occurs.at_of_join (normLines_unbroken search) (normLines_unbroken cur) hpart hlines hat hstart
      hend).1
    have hsize := size_eq hsearch
    have hpos := List.length_pos_iff.mpr hpart
    have hlen : (normLines cur).length = (Py.keptLines cur).length := by rw [normLines_eq, List.length_map]
    change Occurs.At (normLines search) (normLines cur) (((norm cur).take idx).count '\n') at hrun
    generalize ((norm cur).take idx).count '\n' = k at hrun ⊢
    have hunique := Occurs.unique_part_iff hpart hne hone hrun
    have hfits := spliced_iff replace (keptLines_eq cur).symm hpos (hlen ▸ hrun.le hpart)
    rw [hsize]
    unfold ChangesOneBlock Clear
    constructor
    · rintro (⟨i, hi, -⟩ | ⟨-, j, hj, hj', hmiddle⟩)
      · exact absurd hi (hnone i)
      · obtain rfl := hj' k hrun
        refine ⟨fun i _ hi => absurd hi (hnone i), fun _ => ⟨hunique.mp hj', fun i hi => ?_⟩⟩
        rw [hj' i hi]
        exact hfits.mp hmiddle
    · rintro ⟨-, hclear⟩
      obtain ⟨hapart, hfit⟩ := hclear hnone
      exact .inr ⟨hnone, k, hrun, hunique.mpr hapart, hfits.mpr (hfit k hrun)⟩

end Edit

theorem changes_one_block_of_crlf :
    (applySearchReplace "x\r\na \r\nb\r\n".toList "a\n".toList "c\n".toList "notes.md").1 =
      some "x\r\nc\r\nb\r\n".toList ∧
    (ChangesOneBlock "x\r\na \r\nb\r\n".toList "a\n".toList "c\n".toList "x\r\nc\r\nb\r\n".toList ↔
      Clear "x\r\na \r\nb\r\n".toList "a\n".toList "c\n".toList) := by
  have h : (applySearchReplace "x\r\na \r\nb\r\n".toList "a\n".toList "c\n".toList "notes.md").1 =
      some "x\r\nc\r\nb\r\n".toList := by decide +kernel
  exact ⟨h, changes_one_block_iff h⟩

/-- The searched text stands twice, each time over the middle line; and a line that ends in a form feed is joined
to the replacement of the line before it. -/
theorem overlap_and_joined_line :
    (applySearchReplace "ab\nab\nab\n".toList "ab\nab\n".toList "cd\n".toList "notes.md").1 =
      some "cd\nab\n".toList ∧
    ¬ ChangesOneBlock "ab\nab\nab\n".toList "ab\nab\n".toList "cd\n".toList "cd\nab\n".toList ∧
    (applySearchReplace "a \x0cb\n".toList "a\n".toList "c\n".toList "notes.md").1 = some "cb\n".toList ∧
    ¬ ChangesOneBlock "a \x0cb\n".toList "a\n".toList "c\n".toList "cb\n".toList := by
  refine ⟨by decide +kernel, ?_, by decide +kernel, ?_⟩
  · have hfirst : Occurs.At "ab\nab\n".toList "ab\nab\nab\n".toList 0 := ⟨"ab\n".toList, by decide +kernel⟩
    have hsecond : Occurs.At "ab\nab\n".toList "ab\nab\nab\n".toList 3 := ⟨[], by decide +kernel⟩
    rintro (⟨i, -, hunique, -⟩ | ⟨hnone, -⟩)
    · have hsame := (hunique 0 hfirst).trans (hunique 3 hsecond).symm
      omega
    · exact hnone 0 hfirst
  · have hnone : ∀ i, ¬ Occurs.At "a\n".toList "a \x0cb\n".toList i :=
      (Occurs.count_eq_zero (by decide +kernel)).mp (by decide +kernel)
    have hrun : Occurs.At (normLines "a\n".toList) (normLines "a \x0cb\n".toList) 0 := ⟨[['b']], by decide +kernel⟩
    rintro (⟨i, hi, -⟩ | ⟨-, k, -, hunique, middle, hmiddle⟩)
    · exact hnone i hi
    · obtain rfl := hunique 0 hrun
      have hnew : Py.keptLines "cb\n".toList = ["cb\n".toList] := by decide +kernel
      have hlast : (Py.keptLines "a \x0cb\n".toList).drop (0 + (normLines "a\n".toList).length) = ["b\n".toList] := by
        decide +kernel
      rw [hnew, hlast] at hmiddle
      have hends := congrArg List.getLast? hmiddle
      rw [List.getLast?_concat, List.getLast?_singleton, Option.some.injEq] at hends
      exact absurd hends (by decide +kernel)

end LoopLab.Tools.EditMatch
