import LoopLab.Strip
import LoopLab.Lib.Occurs

/-!
# One edit of a file, named by the text it replaces

The text is searched as it stands, and where it does not occur, as whole lines without regard to the blanks at
their ends.
-/

set_option autoImplicit false

namespace LoopLab

/-- The lines with their ends, behind the characters read of the current one, newest first. -/
def Py.keptFrom : List Char → List Char → List (List Char)
  | [], [] => []
  | line, [] => [line.reverse]
  | line, '\r' :: '\n' :: cs => (line.reverse ++ ['\r', '\n']) :: keptFrom [] cs
  | line, c :: cs =>
    if isLineEnd c then (line.reverse ++ [c]) :: keptFrom [] cs else keptFrom (c :: line) cs

/-- `s.splitlines(keepends=True)` -/
def Py.keptLines (cs : List Char) : List (List Char) := keptFrom [] cs

/-- `s.rstrip()` -/
def Py.rstrip (cs : List Char) : List Char := cs.rdropWhile isSpace

namespace Tools.EditMatch
open Lib

def normLines (t : List Char) : List (List Char) := (Py.linesFrom [] t).map Py.rstrip

def norm (t : List Char) : List Char := ['\n'].intercalate (normLines t)

/-- Where the lines of the search stand in the file, the only place of their text and whole lines of it. -/
def anchored (cn sn : List Char) : Option Nat :=
  if sn = [] then none
  else
    (Occurs.find sn cn).filter fun idx =>
      Occurs.count sn cn = 1 ∧ (idx = 0 ∨ cn[idx - 1]? = some '\n') ∧
        (idx + sn.length = cn.length ∨ cn[idx + sn.length]? = some '\n')

/-- The replacement with the line ends of the lines it stands for, `last` being the last one. -/
def fitted (last replace : List Char) : List Char :=
  let eol := if ['\r', '\n'].isSuffixOf last then ['\r', '\n'] else ['\n']
  let lastHadNl := ['\n'].isSuffixOf last
  let rep := if eol ≠ ['\n'] then Occurs.replaceAll ['\n'] eol (Occurs.replaceAll ['\r', '\n'] ['\n'] replace)
    else replace
  if rep ≠ [] ∧ lastHadNl ∧ ¬ eol.isSuffixOf rep then rep ++ eol
  else if rep ≠ [] ∧ ¬ lastHadNl ∧ eol.isSuffixOf rep then rep.take (rep.length - eol.length)
  else rep

/-- The file with `size` lines from line `pre` on swapped for the replacement. -/
def spliced (lines : List (List Char)) (pre size : Nat) (replace : List Char) : List Char :=
  (lines.take pre).flatten ++ fitted (lines[pre + size - 1]?.getD []) replace ++ (lines.drop (pre + size)).flatten

def nearest (cur search : List Char) : List Char :=
  let first := Py.stripChars ((Py.linesFrom [] search).headD [])
  ((Py.linesFrom [] cur).find? fun l => first ≠ [] ∧ (Occurs.find first l).isSome).getD []

def noMatch (cur search : List Char) (path : String) : String :=
  let near := nearest cur search
  "(no match: `search` was not found in " ++ path ++ " — copy it EXACTLY from the current content" ++
    (if near = [] then "" else ", nearest line: " ++ String.ofList (near.take 120)) ++ ")"

def ambiguous (n : Nat) (path : String) : String :=
  "(ambiguous: `search` occurs " ++ toString n ++ " times in " ++ path ++
    " — include more surrounding lines to make it unique)"

/-- `apply_search_replace`: the new text, if one was made, and the message. -/
def applySearchReplace (cur search replace : List Char) (path : String) : Option (List Char) × String :=
  if search = [] then (none, "(refused: empty `search` — copy the exact snippet you want to replace)")
  else
    let n := Occurs.count search cur
    if n = 0 then
      match anchored (norm cur) (norm search) with
      | some idx =>
        let pre := ((norm cur).take idx).count '\n'
        let size := (norm search).count '\n' + 1
        (some (spliced (Py.keptLines cur) pre size replace),
          "edited " ++ path ++ " (whitespace-tolerant match, 1 hunk applied)")
      | none => (none, noMatch cur search path)
    else if n > 1 then (none, ambiguous n path)
    else (some (Occurs.replaceFirst search replace cur), "edited " ++ path ++ " (1 hunk applied)")

end Tools.EditMatch

end LoopLab
