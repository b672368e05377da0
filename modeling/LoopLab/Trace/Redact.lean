import LoopLab.Json
import LoopLab.Lib.Regex
import Mathlib.Algebra.GroupWithZero.Nat

/-!
# Redaction

Every text that is kept for good is first normalised and stripped of controls, then the values of the
operator's secret variables, the known shapes of credentials and tokens of high entropy are masked, and
at last it is cut to its bound, with a receipt of what was cut.
-/

set_option autoImplicit false

namespace LoopLab.Redact
open Lib Lib.Pattern

/-- What redaction takes from the language and from its host: the Unicode tables, the digest, the
entropy of a token against its cutoff, `str` of a float or a container and the secret variables, the longest first. -/
structure TextEnv where
  nfkc : List Char → List Char
  /-- `unicodedata.category(ch).startswith("C")` -/
  control : Char → Bool
  /-- `\w` -/
  word : Char → Bool
  lower : List Char → List Char
  sha256 : List Char → List Char
  entropic : List Char → Bool
  secrets : List (List Char)
  render : Json → String

/-! ## Characters -/

def inRange (lo hi : Nat) (c : Char) : Bool := lo ≤ c.toNat && c.toNat ≤ hi

def isLower (c : Char) : Bool := inRange 97 122 c
def isUpper (c : Char) : Bool := inRange 65 90 c
def isDigit (c : Char) : Bool := inRange 48 57 c
def isAlnum (c : Char) : Bool := isLower c || isUpper c || isDigit c

def among (cs : List Char) (c : Char) : Bool := cs.any fun d => d.toNat = c.toNat

def foldCase (c : Char) : Char :=
  if isUpper c then Char.ofNat (c.toNat + 32)
  else if c.toNat = 0x130 || c.toNat = 0x131 then 'i'
  else if c.toNat = 0x17F then 's'
  else if c.toNat = 0x212A then 'k'
  else c

def anyCase (s : String) : Pattern := ofChars (fun c d => foldCase c = foldCase d) s.toList

def spaces : Pattern := many (char Py.isSpace)

/-! ## Names of fields -/

def CREDENTIAL_QUALIFIERS : List (List Char) :=
  ["api", "auth", "access", "refresh", "bearer", "session", "oauth", "id", "csrf", "secret", "private",
    "personal"].map String.toList

/-- `_TOKEN_COUNT_STEM` -/
def tokenCountStem : Pattern :=
  let ends := check fun _ after => !(after.head?.any isLower)
  oneOf [all [lit "tokeniz", many (char isLower)], all [lit "tokens", ends],
    all [lit "token_", oneOf [all [lit "count", opt (lit "s")], lit "usage"], ends]]

/-- `_SECRET_KEY_RE` -/
def secretKey : Pattern :=
  let dash := opt (char (among ['_', '-']))
  oneOf [all [anyCase "api", dash, anyCase "key"], anyCase "secret", all [anyCase "access", dash, anyCase "key"],
    anyCase "token", anyCase "password", anyCase "passwd", anyCase "credential"]

/-- The words of a list of characters, parted at those that `sep` takes. -/
def partsAt (sep : Char → Bool) (cs : List Char) : List (List Char) :=
  (cs.foldr (fun c (acc : List Char × List (List Char)) =>
    if sep c then ([], acc.1 :: acc.2) else (c :: acc.1, acc.2)) ([], [])) |> fun acc => acc.1 :: acc.2

section Env
variable (env : TextEnv)

def nameParts (key : List Char) : List (List Char) :=
  let camel := all [group 1 (char fun c => isLower c || isDigit c), group 2 (char isUpper)]
  let spaced := camel.sub (fun m => m.get 1 ++ [' '] ++ m.get 2) key
  (partsAt (fun c => !(isLower c || isDigit c)) (env.lower spaced)).filter (· ≠ [])

def isSecretKeyName (name : List Char) : Bool :=
  let raw := env.nfkc name
  let key := env.lower raw
  let qualified := (nameParts env raw).any CREDENTIAL_QUALIFIERS.contains
  secretKey.found (if qualified then key else tokenCountStem.sub (fun _ => [' ']) key)

/-! ## Shapes of credentials -/

/-- `_ASSIGN_PREFIX` -/
def assignPrefix : List Pattern :=
  let name := fun c => isAlnum (foldCase c) || among ['_', '-'] c
  [notBehind name, group 1 (plus (char name)),
    group 2 (all [opt (char (among ['\'', '"'])), spaces, oneOf [lit "=>", char (among [':', '='])], spaces])]

def quoted (q : Char) : Pattern :=
  let lineEnd := check fun _ after =>
    match after with
    | [] => true
    | '\n' :: _ => true
    | '\r' :: '\n' :: _ => true
    | _ => false
  all [char (among [q]),
    many (oneOf [all [char (among ['\\']), char fun c => c.toNat ≠ 10],
      char fun c => !among [q, '\\', '\r', '\n'] c]),
    oneOf [char (among [q]), lineEnd]]

def quotedKeyvalRepl (m : Match) : List Char :=
  if !isSecretKeyName env (m.get 1) then m.whole else
  let value := m.get 3
  let quote := value.take 1
  let closing := if value.length > 1 && value.getLast? = quote.head? then quote else []
  m.get 1 ++ m.get 2 ++ quote ++ "***".toList ++ closing

def keyvalRepl (m : Match) : List Char :=
  if isSecretKeyName env (m.get 1) then m.get 1 ++ m.get 2 ++ "***".toList else m.whole

/-- `_PATTERNS` -/
def patterns : List (Pattern × (Match → List Char)) :=
  let token68 := plus (char fun c => isAlnum (foldCase c) || among ['.', '_', '~', '+', '/', '=', '-'] c)
  let dash := opt (char (among ['_', '-']))
  [(all [lit "sk-", atLeast 16 (char fun c => isAlnum c || among ['_', '-'] c)], fun _ => "sk-***".toList),
    (all [lit "AKIA", exactly (char fun c => isDigit c || isUpper c) 16], fun _ => "AKIA***".toList),
    (all [lit "github_pat_", atLeast 20 (char fun c => isAlnum c || among ['_'] c)],
      fun _ => "github_pat_***".toList),
    (all [lit "gh", char (among ['p', 'o', 'u', 's', 'r']), lit "_", atLeast 20 (char isAlnum)],
      fun _ => "gh***".toList),
    (all [lit "hf_", atLeast 20 (char isAlnum)], fun _ => "hf_***".toList),
    (all [lit "xox", char (among ['b', 'a', 'p', 'r', 's', 'e']), lit "-",
      atLeast 10 (char fun c => isAlnum c || among ['-'] c)], fun _ => "xox***".toList),
    (all [group 1 (all [boundary env.word, anyCase "authorization", spaces, char (among [':', '=']), spaces]),
      group 2 (oneOf [anyCase "bearer", anyCase "basic"]), plus (char Py.isSpace), token68],
      fun m => m.get 1 ++ m.get 2 ++ " ***".toList),
    (all [boundary env.word, anyCase "bearer", plus (char Py.isSpace), token68], fun _ => "bearer ***".toList),
    (all [behind "://", plus (char fun c => !(among [':', '/'] c || Py.isSpace c)), lit ":",
      plus (char fun c => !(among ['@', '/'] c || Py.isSpace c)), lit "@"], fun _ => "***:***@".toList),
    (all [group 1 (all [char (among ['?', '&', '#', ';']),
      oneOf [all [anyCase "api", dash, anyCase "key"], anyCase "secret", all [anyCase "access", dash, anyCase "key"],
        all [anyCase "access", dash, anyCase "token"], anyCase "token", anyCase "password", anyCase "passwd",
        anyCase "credential"], lit "="]),
      group 2 (plus (char fun c => !(among ['&', '#', ';'] c || Py.isSpace c)))], fun m => m.get 1 ++ "***".toList),
    (all (assignPrefix ++ [group 3 (oneOf [quoted '"', quoted '\''])]), quotedKeyvalRepl env),
    (all (assignPrefix ++ [group 3 (plus (char fun c =>
      !(among ['\'', '"', ',', ';', '#', '&', '}', ']'] c || Py.isSpace c)))]), keyvalRepl env)]

/-! ## Tokens of high entropy -/

def VOWELS : List Char := "aeiouyAEIOUY".toList

def wordLike (minLen : Nat) (w : List Char) : Bool :=
  minLen ≤ w.length && w.length ≤ 4 * w.countP (among VOWELS)

def proseLikeToken (token : List Char) : Bool :=
  let words := (all [opt (char isUpper), atLeast 3 (char isLower)]).findAll token
  let covered := ((words.filter (wordLike 4)).map List.length).sum
  if token.length ≤ covered * 2 && words.any (wordLike 6) then true else
  let segments := partsAt (among ['_', '-']) token
  if segments.length < 5 || 8 * segments.length < (segments.map List.length).sum then false
  else segments.any fun seg => ((atLeast 6 (char isLower)).findAll seg).any (wordLike 6)

def entropyCandidate (token : List Char) : Bool :=
  token.any isLower && token.any isUpper && token.any isDigit && !proseLikeToken token

def longToken : Pattern := atLeast 24 (char fun c => isAlnum c || among ['+', '=', '_', '-'] c)

def redactSecrets (text : List Char) : List Char :=
  let shaped := (patterns env).foldl (fun text pat => pat.1.sub pat.2 text) text
  longToken.sub (fun m =>
    if env.entropic m.whole && entropyCandidate m.whole then "***REDACTED***".toList else m.whole) shaped

def redactEnvValues (text : List Char) : List Char :=
  env.secrets.foldl (fun text value =>
    (ofChars (fun c d => c = d) value).sub (fun _ => "***REDACTED_ENV***".toList) text) text

/-! ## Bounds -/

def natDigits (n : Nat) : List Char := (toString n).toList

def truncationMarker (text : List Char) : List Char :=
  "\n[redacted preview: original_chars=".toList ++ natDigits text.length ++ " sha256=".toList ++
    env.sha256 text ++ "]".toList

def boundedRedactedText (text : List Char) (maxChars : Nat) : List Char :=
  if text.length ≤ maxChars then text else
  let marker := truncationMarker env text
  if maxChars ≤ marker.length then marker.drop (marker.length - maxChars)
  else text.take (maxChars - marker.length) ++ marker

def withoutControls (keepNewlines : Bool) (text : List Char) : List Char :=
  text.map fun c => if (c.toNat = 10 && keepNewlines) || !env.control c then c else ' '

/-- `text.replace("\r\n", "\n").replace("\r", "\n")` -/
def unixLines : List Char → List Char
  | '\r' :: '\n' :: rest => '\n' :: unixLines rest
  | '\r' :: rest => '\n' :: unixLines rest
  | c :: rest => c :: unixLines rest
  | [] => []

/-- `" ".join(text.split())` -/
def foldLines (text : List Char) : List Char :=
  [' '].intercalate ((partsAt Py.isSpace text).filter (· ≠ []))

def cleaned (singleLine : Bool) (text : List Char) : List Char :=
  let plain := withoutControls env (!singleLine) (unixLines (env.nfkc text))
  let redacted := redactSecrets env (redactEnvValues env plain)
  if singleLine then foldLines redacted else redacted

def persistedInput (value : Json) : String :=
  match value with
  | .null => ""
  | .str s => s
  | .int i => toString i
  | .bool b => if b then "True" else "False"
  | v => env.render v

def redactPersistedText (value : Json) (maxChars : Nat) (singleLine : Bool) : String :=
  String.ofList (boundedRedactedText env (cleaned env singleLine (persistedInput env value).toList) maxChars)

theorem length_bounded (text : List Char) (n : Nat) : (boundedRedactedText env text n).length ≤ n := by
  unfold boundedRedactedText
  dsimp only
  split
  · assumption
  · split
    · rw [List.length_drop]
      omega
    · rw [List.length_append, List.length_take]
      omega

end Env

end LoopLab.Redact
