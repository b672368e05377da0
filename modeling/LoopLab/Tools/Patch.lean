import LoopLab.Strip
import LoopLab.Metrics
import LoopLab.Lib.Glob
import LoopLab.Lib.Lines

/-!
# The gate in front of a diff

Names that git quotes, and what the gate reads of a diff.
-/

set_option autoImplicit false

/-!
## Names that git quotes

A quoted name is read as a string literal of bytes, and the bytes as UTF-8.
-/

namespace LoopLab.Tools

/-! ## Bytes -/

def hexDigits : Nat → Nat → List Nat
  | 0, _ => []
  | k + 1, n => hexDigits k (n / 16) ++ [let d := n % 16; if d < 10 then 0x30 + d else 0x57 + d]

/-- `s.encode("latin-1", "backslashreplace")` -/
def latinBytes (cs : List Char) : List Nat :=
  cs.flatMap fun c =>
    if c.toNat < 0x100 then [c.toNat]
    else if c.toNat < 0x10000 then [0x5C, 0x75] ++ hexDigits 4 c.toNat
    else [0x5C, 0x55] ++ hexDigits 8 c.toNat

/-- A character that is not complete: how many bytes it still takes, between which bounds the next one
lies, and what the bytes so far give. -/
structure Pending where
  owed : Nat
  lo : Nat
  hi : Nat
  value : Nat

def firstByte (b : Nat) : List Char × Option Pending :=
  if b < 0x80 then ([Char.ofNat b], none)
  else if 0xC2 ≤ b && b ≤ 0xDF then ([], some ⟨1, 0x80, 0xBF, b % 32⟩)
  else if b = 0xE0 then ([], some ⟨2, 0xA0, 0xBF, b % 16⟩)
  else if b = 0xED then ([], some ⟨2, 0x80, 0x9F, b % 16⟩)
  else if 0xE1 ≤ b && b ≤ 0xEF then ([], some ⟨2, 0x80, 0xBF, b % 16⟩)
  else if b = 0xF0 then ([], some ⟨3, 0x90, 0xBF, b % 8⟩)
  else if b = 0xF4 then ([], some ⟨3, 0x80, 0x8F, b % 8⟩)
  else if 0xF1 ≤ b && b ≤ 0xF3 then ([], some ⟨3, 0x80, 0xBF, b % 8⟩)
  else (['\uFFFD'], none)

def utf8From : Option Pending → List Nat → List Char
  | none, [] => []
  | some _, [] => ['\uFFFD']
  | none, b :: bs => (firstByte b).1 ++ utf8From (firstByte b).2 bs
  | some p, b :: bs =>
    if p.lo ≤ b && b ≤ p.hi then
      let value := p.value * 64 + b % 64
      if p.owed = 1 then Char.ofNat value :: utf8From none bs
      else utf8From (some ⟨p.owed - 1, 0x80, 0xBF, value⟩) bs
    else '\uFFFD' :: (firstByte b).1 ++ utf8From (firstByte b).2 bs

/-- `bytes.decode("utf-8", "replace")` -/
def utf8 (bytes : List Nat) : List Char := utf8From none bytes

/-! ## Literals -/

def digitOf (b : Nat) : Option Nat :=
  if 0x30 ≤ b && b ≤ 0x39 then some (b - 0x30)
  else if 0x41 ≤ b && b ≤ 0x46 then some (b - 0x37)
  else if 0x61 ≤ b && b ≤ 0x66 then some (b - 0x57)
  else none

/-- The number that digits write in a base, if all of them are digits of it. -/
def numberOf (base : Nat) (digits : List Nat) : Option Nat :=
  digits.foldlM (fun n b => do
    let d ← digitOf b
    if d < base then some (n * base + d) else none) 0

/-- What an escape of one character stands for; an escaped line feed stands for nothing. -/
def escaped (b : Nat) : Option (List Nat) :=
  match Char.ofNat b with
  | '\n' => some []
  | '\\' | '\'' | '"' => some [b]
  | 'a' => some [7]
  | 'b' => some [8]
  | 't' => some [9]
  | 'n' => some [10]
  | 'v' => some [11]
  | 'f' => some [12]
  | 'r' => some [13]
  | _ => none

def escapeWidth (b : Nat) : Option Nat :=
  match Char.ofNat b with
  | 'x' => some 2
  | 'u' => some 4
  | 'U' => some 8
  | _ => none

/-- `\N{..}`: the name, and what follows the brace. -/
def named (bs : List Nat) : Option (List Nat × List Nat) :=
  match bs with
  | 0x7B :: rest =>
    match rest.span (· ≠ 0x7D) with
    | (_, []) => none
    | (name, _ :: rest) => some (name, rest)
  | _ => none

section Literals
variable (charNamed : List Nat → Option Nat)

/-- `bytes.decode("unicode_escape")`, `charNamed` being the names of the Unicode database. -/
def unescapeFrom : Nat → List Nat → Option (List Nat)
  | 0, _ | _, [] => some []
  | n + 1, b :: rest =>
    if b ≠ 0x5C then (b :: ·) <$> unescapeFrom n rest
    else
      match rest with
      | [] => none
      | e :: rest =>
        match escaped e, escapeWidth e with
        | some out, _ => (out ++ ·) <$> unescapeFrom n rest
        | none, some width => do
          let value ← if rest.length < width then none else numberOf 16 (rest.take width)
          if 0x10FFFF < value then none else (value :: ·) <$> unescapeFrom n (rest.drop width)
        | none, none =>
          let octal := (e :: rest.take 2).takeWhile fun b => 0x30 ≤ b && b ≤ 0x37
          if octal ≠ [] then do
            let value ← numberOf 8 octal
            (value :: ·) <$> unescapeFrom n (rest.drop (octal.length - 1))
          else if e = 0x4E then do
            let (name, rest) ← named rest
            let value ← charNamed name
            (value :: ·) <$> unescapeFrom n rest
          else ([b, e] ++ ·) <$> unescapeFrom n rest

def unquoteGitPath (p : String) : String :=
  let cs := p.toList
  if 2 ≤ cs.length && cs.head? == some '"' && cs.getLast? == some '"' then
    let inner := cs.tail.dropLast
    let bytes := latinBytes inner
    match unescapeFrom charNamed bytes.length bytes with
    | some decoded => String.ofList (if decoded.all (· < 0x100) then utf8 decoded else inner)
    | none => String.ofList inner
  else p

end Literals

example : unquoteGitPath (fun _ => none) "\"caf\\303\\251.py\"" = "café.py" := by decide +kernel

end LoopLab.Tools

/-!
## The gate in front of a diff

The names of a diff are read off its lines and held to the edit surface one by one.
-/

namespace LoopLab.Tools
open Lib

/-! ## Texts -/

def startsWith (s start : String) : Bool := start.toList.isPrefixOf s.toList

/-- `s[n:]` -/
def dropFront (n : Nat) (s : String) : String := String.ofList (s.toList.drop n)

/-- `s.split()` -/
def wordsOf (s : String) : List String :=
  ((s.toList.splitOnP Py.isSpace).filter (!·.isEmpty)).map String.ofList

def slash (c : Char) : Char := if c = '\\' then '/' else c

/-- `p.replace("\\", "/")` -/
def slashed (p : String) : String := String.ofList (p.toList.map slash)

/-- `sub in s` -/
def hasText (sub s : List Char) : Bool := s.tails.any sub.isPrefixOf

/-- `s.replace(sub, "", 1)` -/
def cutFirst (sub : List Char) : List Char → List Char
  | [] => []
  | c :: cs => if sub.isPrefixOf (c :: cs) then (c :: cs).drop sub.length else c :: cutFirst sub cs

/-- What the functions read of the language's tables: the names of characters, and the case folding. -/
structure Unicode where
  charNamed : List Nat → Option Nat := fun _ => none
  lower : String → String := Py.lower

section Names
variable (u : Unicode)

/-! ## The names of a diff -/

/-- A name without the `a/` or `b/` in front of it. -/
def withoutSide (p : String) : String :=
  if startsWith p "a/" || startsWith p "b/" then dropFront 2 p else p

/-- The name on a `---` or `+++` line. -/
def headerName (line : String) : String :=
  let cell := ((Py.strip (dropFront 4 line)).toList.splitOn '\t').headD []
  unquoteGitPath u.charNamed (String.ofList cell)

/-- The names a `diff --git` line gives a block without a header. -/
def fallbackNames (line : String) : List String :=
  ((wordsOf line).drop 2).map fun word => withoutSide (unquoteGitPath u.charNamed word)

structure Scan where
  paths : List String := []
  gitFallback : List String := []
  blockHasHeader : Bool := true

def Scan.flush (s : Scan) : List String := if s.blockHasHeader then s.paths else s.paths ++ s.gitFallback

def Scan.line (s : Scan) (line : String) : Scan :=
  if startsWith line "diff --git " then
    { paths := s.flush, gitFallback := fallbackNames u line, blockHasHeader := false }
  else if startsWith line "+++ " || startsWith line "--- " then
    let p := headerName u line
    if p = "/dev/null" then { s with blockHasHeader := true }
    else { s with blockHasHeader := true, paths := s.paths ++ [withoutSide p] }
  else s

def changedPaths (diffText : String) : List String :=
  Py.sortedSet (((Py.splitlines diffText).foldl (Scan.line u) {}).flush)

/-! ## Symbolic links -/

def hexChar (c : Char) : Bool := ('0' ≤ c && c ≤ '9') || ('a' ≤ c && c ≤ 'f') || ('A' ≤ c && c ≤ 'F')

def afterText (start : String) (cs : List Char) : Option (List Char) :=
  if start.toList.isPrefixOf cs then some (cs.drop start.toList.length) else none

def afterHex (cs : List Char) : Option (List Char) :=
  if (cs.takeWhile hexChar).isEmpty then none else some (cs.dropWhile hexChar)

/-- `_SYMLINK_MODE_LINE` -/
def symlinkModeLine (line : String) : Bool :=
  let cs := line.toList
  let mode := (afterText "new file mode 120000" cs).or (afterText "new mode 120000" cs)
  let index := do
    let cs ← afterText "index " cs
    let cs ← afterHex cs
    let cs ← afterText ".." cs
    let cs ← afterHex cs
    afterText " 120000" cs
  mode.any (·.all Py.isSpace) || index.any (·.all Py.isSpace)

/-- The blocks of a diff; what stands before the first `diff --git` line is one. -/
def blocksOf : List String → List (List String)
  | [] => [[]]
  | line :: lines =>
    match blocksOf lines with
    | [] => [[line]]
    | block :: blocks =>
      if block.head?.any (startsWith · "diff --git ") then [line] :: block :: blocks
      else (line :: block) :: blocks

def symlinkPaths (diffText : String) : List String :=
  Py.sortedSet ((blocksOf (Py.splitlines diffText)).flatMap fun block =>
    if block.any symlinkModeLine then changedPaths u ("\n".intercalate block) else [])

/-! ## The edit surface -/

/-- `_DRIVE` -/
def hasDrive : List Char → Bool
  | c :: ':' :: _ => c.isAlpha
  | _ => false

def escapes (path : String) : Bool :=
  let pp := slashed path
  startsWith pp "/" || hasDrive path.toList || startsWith path "/" ||
    (pp.toList.splitOn '/').contains ['.', '.']

def ci (s : String) : String := u.lower (slashed s)

/-- `_match` -/
def surfaceMatch (path glob : String) : Bool :=
  let text := path.toList
  let pattern := glob.toList
  Glob.fnmatch text pattern ||
    ("**/".toList.isPrefixOf pattern && Glob.fnmatch text (pattern.drop 3)) ||
    (hasText "**/".toList pattern && Glob.fnmatch text (cutFirst "**/".toList pattern))

def isGradeGlob (glob : String) : Bool :=
  let g := (u.lower glob).toList
  hasText "grade".toList g || hasText "grading".toList g

def inSurface (p : String) (allow prefixes : List String) : Bool :=
  let pl := slashed p
  let owner := (prefixes.find? fun pre => startsWith pl (pre ++ "/")).filter (· ≠ "")
  let globs := match owner with
    | some owner => allow.filter (startsWith · (owner ++ "/"))
    | none =>
      if prefixes.isEmpty then allow
      else allow.filter fun g => !(prefixes.any fun pre => startsWith g (pre ++ "/"))
  globs.any (surfaceMatch pl)

inductive Reason where
  | escapes
  | isProtected
  | outsideSurface
  deriving DecidableEq, Repr

/-- `SurfacePolicy`, as the gate makes one: the lists it protects by are folded. -/
structure SurfacePolicy where
  surface : List String
  protect : List String
  prefixes : List String
  allowExceptions : List String

/-- `SurfacePolicy.__init__`, for the prefixes as the gate passes them -/
def SurfacePolicy.ofLists (allow protect prefixes exceptions : List String) : SurfacePolicy where
  surface := allow
  protect := protect.map (ci u)
  prefixes := prefixes.map fun x => String.ofList (x.toList.rdropWhile (· = '/'))
  allowExceptions := exceptions.map (ci u)

def SurfacePolicy.isProtected (s : SurfacePolicy) (path : String) : Bool :=
  let pc := ci u path
  let hits := s.protect.filter fun g => pc = g || surfaceMatch pc g
  !hits.isEmpty &&
    !(s.allowExceptions.any (fun g => pc = g || surfaceMatch pc g) && hits.all (isGradeGlob u))

/-- `SurfacePolicy.check`: the first reason against a path, none if it is editable. -/
def SurfacePolicy.check (s : SurfacePolicy) (path : String) : Option Reason :=
  if Tools.escapes path then some .escapes
  else if s.isProtected u path then some .isProtected
  else if !inSurface path s.surface s.prefixes then some .outsideSurface
  else none

/-! ## The gate -/

structure Gated where
  ok : Bool
  paths : List String
  rejected : List String

def gate (diffText : String) (allow protect prefixes exceptions : List String) : Gated :=
  let policy := SurfacePolicy.ofLists u allow protect prefixes exceptions
  let paths := changedPaths u diffText
  let rejected := paths.filter fun p => (policy.check u p).isSome
  { ok := !paths.isEmpty && rejected.isEmpty, paths, rejected }

/-- What `apply_patch` returns where it does not hand the diff to `git apply`. -/
structure Refusal where
  paths : List String
  rejected : List String
  error : String

/-- `apply_patch`, up to where it hands the diff to `git apply`. -/
def applyPatch (diffText : String) (allow protect prefixes exceptions : List String) :
    Except Refusal Gated :=
  let g := gate u diffText allow protect prefixes exceptions
  if !g.ok then
    .error ⟨g.paths, g.rejected, if g.rejected.isEmpty then "empty patch" else "out-of-surface"⟩
  else
    let links := symlinkPaths u diffText
    if links.isEmpty then .ok g
    else .error ⟨g.paths, links, "a symbolic link (git mode 120000) is not a file edit"⟩

end Names

end LoopLab.Tools
