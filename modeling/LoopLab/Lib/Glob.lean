import Mathlib.Data.List.Basic

/-!
# Shell patterns

A pattern is read into pieces. A star takes any text, a question mark any character, and a bracket the characters
and ranges between its ends; a bracket without an end stands for itself.
-/

set_option autoImplicit false

namespace LoopLab.Lib

inductive Glob where
  | star
  | one (p : Char → Bool)

namespace Glob

/-! ## Brackets -/

/-- The text of a bracket cut at the hyphens of its ranges; `skip` characters make none. -/
def chunksFrom : Nat → List Char → List Char → List (List Char)
  | _, chunk, [] => [chunk.reverse]
  | skip, chunk, c :: cs =>
    if c = '-' ∧ skip = 0 then chunk.reverse :: chunksFrom 2 [] cs else chunksFrom (skip - 1) (c :: chunk) cs

def keepTrailing : List (List Char) → List (List Char)
  | [chunk, []] => [chunk ++ ['-']]
  | chunk :: chunks => chunk :: keepTrailing chunks
  | [] => []

/-- Ranges whose ends are out of order are taken out, from the last to the first. -/
def dropEmpty : List (List Char) → List (List Char)
  | [] => []
  | chunk :: chunks =>
    match dropEmpty chunks with
    | [] => [chunk]
    | next :: rest =>
      match chunk.getLast?, next.head? with
      | some lo, some hi =>
        if hi < lo then (chunk.dropLast ++ next.tail) :: rest else chunk :: next :: rest
      | _, _ => chunk :: next :: rest

def stuffOf (text : List Char) : List (Option Char) :=
  let chunks := keepTrailing (chunksFrom (if text.head? = some '!' then 2 else 1) [] text)
  [none].intercalate ((dropEmpty chunks).map (·.map some))

def inStuff : List (Option Char) → Char → Bool
  | some lo :: none :: some hi :: rest, c => (lo ≤ c && c ≤ hi) || inStuff rest c
  | some a :: rest, c => c = a || inStuff rest c
  | none :: rest, c => c = '-' || inStuff rest c
  | [], _ => false

def classOf (text : List Char) : Char → Bool :=
  match stuffOf text with
  | some '!' :: rest => fun c => !inStuff rest c
  | stuff => inStuff stuff

/-- The text of a bracket and what follows it; a `]` in front does not end it. -/
def bracket (cs : List Char) : Option (List Char × List Char) :=
  let negation := if cs.head? = some '!' then ['!'] else []
  let behind := cs.drop negation.length
  let opening := negation ++ if behind.head? = some ']' then [']'] else []
  match (cs.drop opening.length).span (· ≠ ']') with
  | (_, []) => none
  | (text, _ :: rest) => some (opening ++ text, rest)

/-! ## Patterns -/

def parseFrom : Nat → List Char → List Glob
  | 0, _ | _, [] => []
  | n + 1, c :: cs =>
    if c = '*' then star :: parseFrom n cs
    else if c = '?' then one (fun _ => true) :: parseFrom n cs
    else if c = '[' then
      match bracket cs with
      | none => one (· = '[') :: parseFrom n cs
      | some (text, rest) => one (classOf text) :: parseFrom n rest
    else one (· = c) :: parseFrom n cs

def parse (pattern : List Char) : List Glob := parseFrom pattern.length pattern

def matchesAll : List Glob → List Char → Bool
  | [], cs => cs.isEmpty
  | star :: ps, cs => cs.tails.any (matchesAll ps)
  | one _ :: _, [] => false
  | one p :: ps, c :: cs => p c && matchesAll ps cs

def fnmatch (text pattern : List Char) : Bool := matchesAll (parse pattern) text

/-! ## Escaped texts -/

def special (c : Char) : Bool := c = '*' || c = '?' || c = '['

def escape (cs : List Char) : List Char := cs.flatMap fun c => if special c then ['[', c, ']'] else [c]

variable {c d : Char} {cs ds : List Char}

theorem escape_of_special (h : special c = true) : escape (c :: cs) = '[' :: c :: ']' :: escape cs := by
  unfold escape
  rw [List.flatMap_cons, if_pos h]
  rfl

theorem escape_of_plain (h : special c = false) : escape (c :: cs) = c :: escape cs := by
  unfold escape
  rw [List.flatMap_cons, h]
  rfl

theorem special_iff : special c = true ↔ c = '*' ∨ c = '?' ∨ c = '[' := by
  simp [special, or_assoc]

theorem bracket_of_special (h : special c = true) : bracket (c :: ']' :: cs) = some ([c], cs) := by
  rcases special_iff.mp h with rfl | rfl | rfl <;> rfl

theorem classOf_of_special (h : special c = true) : classOf [c] d = true ↔ d = c := by
  rcases special_iff.mp h with rfl | rfl | rfl <;> simp [classOf, stuffOf, chunksFrom, keepTrailing,
    dropEmpty, inStuff]

theorem matchesAll_one {p : Char → Bool} {ps : List Glob} :
    matchesAll (one p :: ps) ds = true ↔ ∃ e es, ds = e :: es ∧ p e = true ∧ matchesAll ps es = true := by
  cases ds with
  | nil => simp [matchesAll]
  | cons e es => simp [matchesAll]

theorem matchesAll_one_iff {p : Char → Bool} {ps : List Glob} (hp : ∀ e, p e = true ↔ e = c)
    (hps : ∀ es, matchesAll ps es = true ↔ es = cs) : matchesAll (one p :: ps) ds = true ↔ ds = c :: cs := by
  rw [matchesAll_one]
  constructor
  · rintro ⟨e, es, rfl, he, hes⟩
    rw [(hp e).mp he, (hps es).mp hes]
  · rintro rfl
    exact ⟨c, cs, rfl, (hp c).mpr rfl, (hps cs).mpr rfl⟩

theorem matchesAll_parseFrom_escape {n : Nat} (h : (escape cs).length ≤ n) :
    matchesAll (parseFrom n (escape cs)) ds = true ↔ ds = cs := by
  induction cs generalizing n ds with
  | nil =>
    cases n <;> simp [escape, parseFrom, matchesAll]
  | cons c cs ih =>
    cases hc : special c with
    | true =>
      rw [escape_of_special hc] at h ⊢
      obtain ⟨m, rfl⟩ : ∃ m, n = m + 1 := Nat.exists_eq_succ_of_ne_zero (by simp at h; omega)
      simp only [parseFrom, bracket_of_special hc]
      rw [if_neg (by decide), if_neg (by decide), if_pos trivial]
      simp only [List.length_cons] at h
      exact matchesAll_one_iff (fun e => classOf_of_special hc) fun es => ih (by omega)
    | false =>
      rw [escape_of_plain hc] at h ⊢
      obtain ⟨m, rfl⟩ : ∃ m, n = m + 1 := Nat.exists_eq_succ_of_ne_zero (by simp at h; omega)
      have hne : c ≠ '*' ∧ c ≠ '?' ∧ c ≠ '[' := by
        refine ⟨?_, ?_, ?_⟩ <;> rintro rfl <;> cases hc
      simp only [parseFrom]
      rw [if_neg hne.1, if_neg hne.2.1, if_neg hne.2.2]
      simp only [List.length_cons] at h
      exact matchesAll_one_iff (fun e => decide_eq_true_iff) fun es => ih (by omega)

theorem fnmatch_escape : fnmatch ds (escape cs) = true ↔ ds = cs := matchesAll_parseFrom_escape (Nat.le_refl _)

theorem not_prefix_of_suffix_escape {rest t : List Char} (h : t <:+ escape cs) :
    ¬ ('*' :: '*' :: rest) <+: t := by
  induction cs with
  | nil =>
    rw [List.suffix_nil.mp h]
    simp
  | cons c cs ih =>
    cases hc : special c with
    | true =>
      rw [escape_of_special hc, List.suffix_cons_iff, List.suffix_cons_iff, List.suffix_cons_iff] at h
      rcases h with rfl | rfl | rfl | h
      · simp
      · simp
      · simp
      · exact ih h
    | false =>
      rw [escape_of_plain hc, List.suffix_cons_iff] at h
      rcases h with rfl | h
      · rintro hbegins
        have heq := (List.cons_prefix_cons.mp hbegins).1
        rw [← heq] at hc
        cases hc
      · exact ih h

end Glob

end LoopLab.Lib
