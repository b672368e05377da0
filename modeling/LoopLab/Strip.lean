import LoopLab.Json
import Mathlib.Data.List.DropRight

/-!
# Texts of a program

Texts are stripped before they are compared, and a program is read as its blocks.
-/

set_option autoImplicit false

/-!
## Stripped texts

What `str.strip` leaves is stripped, and no longer than the text it was given.
-/

namespace LoopLab

theorem stripChars_idem (cs : List Char) : Py.stripChars (Py.stripChars cs) = Py.stripChars cs := by
  have hfront : (Py.stripChars cs).dropWhile Py.isSpace = Py.stripChars cs := by
    have hbegins : Py.stripChars cs <+: cs.dropWhile Py.isSpace :=
      List.rdropWhile_prefix Py.isSpace (cs.dropWhile Py.isSpace)
    obtain ⟨ends, hends⟩ := hbegins
    cases h : Py.stripChars cs with
    | nil => rfl
    | cons c rest =>
      rw [h] at hends
      have hidem : (cs.dropWhile Py.isSpace).dropWhile Py.isSpace = cs.dropWhile Py.isSpace :=
        List.dropWhile_idempotent Py.isSpace cs
      rw [← hends, List.cons_append] at hidem
      have hc : ¬ Py.isSpace c = true := by
        intro hc
        rw [List.dropWhile_cons_of_pos hc] at hidem
        have hlen := (List.dropWhile_sublist Py.isSpace (l := rest ++ ends)).length_le
        rw [hidem, List.length_cons] at hlen
        omega
      exact List.dropWhile_cons_of_neg hc
  have hback : (Py.stripChars cs).rdropWhile Py.isSpace = Py.stripChars cs :=
    List.rdropWhile_idempotent Py.isSpace (cs.dropWhile Py.isSpace)
  show ((Py.stripChars cs).dropWhile Py.isSpace).rdropWhile Py.isSpace = Py.stripChars cs
  rw [hfront, hback]

theorem strip_idem (s : String) : Py.strip (Py.strip s) = Py.strip s := by
  unfold Py.strip
  rw [String.toList_ofList, stripChars_idem]

theorem stripChars_eq_self {cs : List Char} (h : ∀ c ∈ cs, Py.isSpace c = false) : Py.stripChars cs = cs := by
  have hkeep : ∀ l : List Char, (∀ c ∈ l, Py.isSpace c = false) → l.dropWhile Py.isSpace = l := by
    intro l hl
    cases l with
    | nil => rfl
    | cons c rest => exact List.dropWhile_cons_of_neg (by simp [hl c (List.mem_cons_self ..)])
  unfold Py.stripChars
  rw [hkeep cs h, hkeep cs.reverse fun c hc => h c (List.mem_reverse.mp hc), List.reverse_reverse]

theorem strip_length_le (s : String) : (Py.strip s).length ≤ s.length := by
  unfold Py.strip Py.stripChars
  rw [String.length_ofList, List.length_reverse]
  have hback := (List.dropWhile_sublist Py.isSpace (l := (s.toList.dropWhile Py.isSpace).reverse)).length_le
  have hfront := (List.dropWhile_sublist Py.isSpace (l := s.toList)).length_le
  rw [List.length_reverse] at hback
  rw [← String.length_toList]
  omega

end LoopLab

/-!
## The blocks of a program

A solution is split into paragraphs; a cut is the program with one of them commented out.
-/

namespace LoopLab

/-- The characters `str.splitlines` ends a line at; a carriage return takes the line feed after it. -/
def Py.isLineEnd (c : Char) : Bool :=
  [0x0A, 0x0B, 0x0C, 0x0D, 0x1C, 0x1D, 0x1E, 0x85, 0x2028, 0x2029].contains c.toNat

/-- The lines of the characters, behind those read of the current one, newest first. -/
def Py.linesFrom : List Char → List Char → List (List Char)
  | [], [] => []
  | line, [] => [line.reverse]
  | line, '\r' :: '\n' :: cs => line.reverse :: linesFrom [] cs
  | line, c :: cs =>
    if isLineEnd c then line.reverse :: linesFrom [] cs else linesFrom (c :: line) cs

/-- `s.splitlines()` -/
def Py.splitlines (s : String) : List String := (linesFrom [] s.toList).map String.ofList

/-- The ends of the blocks of the lines from `i` on; `start` is where the current one began. -/
def blocksFrom (i : Nat) (start : Option Nat) : List String → List (Nat × Nat)
  | [] => (start.map (·, i)).toList
  | line :: lines =>
    if Py.strip line = "" then (start.map (·, i)).toList ++ blocksFrom (i + 1) none lines
    else blocksFrom (i + 1) (some (start.getD i)) lines

/-- `code_blocks`: the line ranges of the paragraphs. -/
def codeBlocks (code : String) : List (Nat × Nat) := blocksFrom 0 none (Py.splitlines code)

def commentBlock (code : String) (block : Nat × Nat) : String :=
  let lines := (Py.splitlines code).zipIdx.map fun (line, k) =>
    if block.1 ≤ k && k < block.2 then "# [ablated] " ++ line else line
  "\n".intercalate lines ++ "\n"

/-- `cut_of`: the program without one block, if it has that block. -/
def cutOf (code : String) (block : Nat) : Option String :=
  (codeBlocks code)[block]?.map (commentBlock code)

end LoopLab
