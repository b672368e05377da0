import LoopLab.Json
import Mathlib.Data.Finset.Card
import Mathlib.Data.Finset.Basic
import Mathlib.Data.Finset.Dedup

/-!
# The answer in a text reply

A reply can hold more than one JSON object: the schema it was asked with, pasted back, an example, the answer.
-/

set_option autoImplicit false

namespace LoopLab.Llm.Extract

/-- What a reader makes of a text: a value, the error it is asked to raise, or another one. -/
inductive Read (α : Type) where
  | value (a : α)
  | malformed
  | error

/-- The readers of Python, `δ` being its dictionaries. -/
structure Readers (δ : Type) where
  names : δ → List (Option String)
  /-- `decoder.raw_decode(text, i)`: the value, where it is a dictionary, and its end. -/
  rawDecode : List Char → Nat → Read (Option δ × Nat)
  /-- `ast.literal_eval(text)` -/
  literalEval : List Char → Read (Option δ)
  lower : String → String

/-! ## `_THINK` -/

/-- A letter of a pattern under `re.IGNORECASE`. -/
def caseless (x c : Char) : Bool :=
  c.toLower = x || (x = 'k' && c = '\u212A') || (x = 'i' && (c = '\u0130' || c = '\u0131'))

def afterWord : List Char → List Char → Option (List Char)
  | [], text => some text
  | _ :: _, [] => none
  | x :: word, c :: text => if caseless x c then afterWord word text else none

def afterFirst (word : List Char) : List Char → Option (List Char)
  | [] => afterWord word []
  | c :: text => (afterWord word (c :: text)).or (afterFirst word text)

theorem length_afterWord {word text rest : List Char} (h : afterWord word text = some rest) :
    rest.length ≤ text.length := by
  induction word generalizing text with
  | nil =>
    obtain rfl := Option.some.inj h
    exact Nat.le_refl _
  | cons x word ih =>
    cases text with
    | nil => cases h
    | cons c text =>
      simp only [afterWord] at h
      split at h
      · exact (ih h).trans (Nat.le_succ _)
      · cases h

theorem length_afterFirst {word text rest : List Char} (h : afterFirst word text = some rest) :
    rest.length ≤ text.length := by
  induction text with
  | nil => exact length_afterWord h
  | cons c text ih =>
    simp only [afterFirst] at h
    cases hword : afterWord word (c :: text) with
    | some tail =>
      rw [hword] at h
      obtain rfl := Option.some.inj h
      exact length_afterWord hword
    | none =>
      rw [hword] at h
      exact (ih h).trans (Nat.le_succ _)

def afterThought (text : List Char) : Option (List Char) :=
  (afterWord "<think>".toList text).bind (afterFirst "</think>".toList)

theorem length_afterThought {text rest : List Char} (h : afterThought text = some rest) :
    rest.length < text.length := by
  obtain ⟨tail, htail, hrest⟩ := Option.bind_eq_some_iff.mp h
  have hword : "<think>".toList = '<' :: "think>".toList := rfl
  rw [hword] at htail
  cases text with
  | nil => cases htail
  | cons c text =>
    unfold afterWord at htail
    split at htail
    · have hlen := length_afterWord htail
      have hlen' := length_afterFirst hrest
      rw [List.length_cons]
      omega
    · cases htail

/-- `_THINK.sub("", text)` -/
def stripThink : List Char → List Char
  | [] => []
  | c :: text =>
    match _h : afterThought (c :: text) with
    | some rest => stripThink rest
    | none => c :: stripThink text
termination_by text => text.length
decreasing_by
  · exact length_afterThought _h
  · exact Nat.lt_succ_self _

/-! ## The schema -/

section Schema
variable {δ : Type} (readers : Readers δ)

structure KeySets where
  required : Finset String
  declared : Finset String

def schemaKeySets (schema : Json) : KeySets :=
  match schema.obj? with
  | some schema =>
    let props := (Obj.get schema "properties").obj?.getD []
    let declared := (props.map fun row => readers.lower row.1).toFinset
    let req := (Obj.get schema "required").arr?.getD []
    let required := (req.filterMap fun k => k.str?.map readers.lower).toFinset
    ⟨if declared.Nonempty then required ∩ declared else required, declared⟩
  | none => ⟨∅, ∅⟩

/-- `_schema_fit`: the required names present, and whether any declared one is. -/
structure Fit where
  required : Nat
  answers : Bool
  deriving DecidableEq

def schemaFit (obj : δ) (keySets : KeySets) : Fit :=
  let keys := ((readers.names obj).filterMap fun key => key.map readers.lower).toFinset
  ⟨(keys ∩ keySets.required).card, decide (keys ∩ keySets.declared).Nonempty⟩

/-- `_JSON_SCHEMA_KEYWORDS` -/
def jsonSchemaKeywords : List String := [
  "$schema", "$id", "$ref", "$defs", "$comment", "$anchor", "$dynamicRef", "$dynamicAnchor",
  "$vocabulary", "definitions", "type", "title", "description", "properties", "required",
  "additionalProperties", "unevaluatedProperties", "patternProperties", "propertyNames",
  "minProperties", "maxProperties", "dependentRequired", "dependentSchemas", "items",
  "prefixItems", "additionalItems", "unevaluatedItems", "contains", "minContains",
  "maxContains", "minItems", "maxItems", "uniqueItems", "enum", "const", "default", "examples",
  "anyOf", "allOf", "oneOf", "not", "if", "then", "else", "format", "pattern", "minLength",
  "maxLength", "minimum", "maximum", "exclusiveMinimum", "exclusiveMaximum", "multipleOf",
  "readOnly", "writeOnly", "deprecated", "discriminator", "contentEncoding", "contentMediaType"]

/-- `_JSON_SCHEMA_STRUCTURE` -/
def jsonSchemaStructure : List String := [
  "type", "properties", "required", "$defs", "definitions", "$schema", "$ref", "items", "anyOf", "allOf", "oneOf"]

def isIn (words : List String) (key : Option String) : Bool := key.any words.contains

def isEcho (obj : δ) : Bool :=
  (readers.names obj).all (isIn jsonSchemaKeywords) && (readers.names obj).any (isIn jsonSchemaStructure)

def standing (obj : δ) (fit : Fit) : Nat :=
  if fit.required ≠ 0 ∨ fit.answers then 2
  else if (readers.names obj).isEmpty then 1
  else if isEcho readers obj then 0 else 2

def answers (obj : δ) (fit : Fit) : Bool := fit.required ≠ 0 || fit.answers || (readers.names obj).isEmpty

/-- `(*fit, _standing(obj, fit))` -/
structure Rank where
  required : Nat
  answers : Bool
  standing : Nat

/-- `>` of two ranks, as tuples. -/
def Rank.above (r s : Rank) : Bool :=
  s.required < r.required || (s.required = r.required &&
    ((!s.answers && r.answers) || (s.answers = r.answers && s.standing < r.standing)))

def rank (keySets : KeySets) (obj : δ) : Rank :=
  let fit := schemaFit readers obj keySets
  ⟨fit.required, fit.answers, standing readers obj fit⟩

/-! ## The scan -/

/-- `text.find(c, i)` -/
def find (c : Char) (text : List Char) (i : Nat) : Option Nat := ((text.drop i).findIdx? (· = c)).map (i + ·)

/-- `text.rfind(c)` -/
def rfind (c : Char) (text : List Char) : Option Nat :=
  (text.reverse.findIdx? (· = c)).map (text.length - 1 - ·)

theorem find_lt {c : Char} {text : List Char} {i j : Nat} (h : find c text i = some j) : i ≤ j ∧ j < text.length := by
  obtain ⟨k, hk, rfl⟩ := Option.map_eq_some_iff.mp h
  obtain ⟨hlt, -⟩ := List.findIdx?_eq_some_iff_getElem.mp hk
  rw [List.length_drop] at hlt
  omega

/-- `_JSON_CANDIDATE_CAP` -/
def jsonCandidateCap : Nat := 16

/-- Where the scan ends: with an object to return, with an error that is not caught, or with the best. -/
inductive Scanned (δ : Type) where
  | returned (obj : δ)
  | error
  | ended (best : Option (δ × Rank))

/-- `(len(required), bool(declared), 1)` -/
def perfect (keySets : KeySets) : Rank := ⟨keySets.required.card, decide keySets.declared.Nonempty, 1⟩

/-- `if rank > best_rank: best, best_rank = obj, rank`; nothing stands for `None` and the rank below all. -/
def better (keySets : KeySets) (best : Option (δ × Rank)) (obj : δ) : δ × Rank :=
  match best with
  | none => (obj, rank readers keySets obj)
  | some best => if (rank readers keySets obj).above best.2 then (obj, rank readers keySets obj) else best

/-- `while i != -1`, from `text.find("{", i)` on -/
def scan (keySets : KeySets) (text : List Char) (best : Option (δ × Rank)) (seen i : Nat) : Scanned δ :=
  match _h : find '\x7b' text i with
  | none => .ended best
  | some j =>
    match readers.rawDecode text j with
    | .error => .error
    | .malformed => scan keySets text best seen (j + 1)
    | .value (none, stop) => scan keySets text best seen (max stop (j + 1))
    | .value (some obj, stop) =>
      if keySets.declared = ∅ ∧ keySets.required = ∅ then .returned obj
      else
        let best := better readers keySets best obj
        if !(perfect keySets).above best.2 then .returned best.1
        else if jsonCandidateCap ≤ seen + 1 then .ended (some best)
        else scan keySets text (some best) (seen + 1) (max stop (j + 1))
termination_by text.length - i
decreasing_by
  all_goals
    have hfind := find_lt _h
    omega

inductive Extracted (δ : Type) where
  | answer (obj : δ)
  | parseError (message : String)
  | error

def literal (keySets : KeySets) (text : List Char) : Extracted δ :=
  match find '\x7b' text 0, rfind '\x7d' text with
  | some s, some e =>
    if s < e then
      match readers.literalEval ((text.drop s).take (e + 1 - s)) with
      | .error => .error
      | .value (some obj) =>
        if (keySets.declared = ∅ ∧ keySets.required = ∅) ∨ answers readers obj (schemaFit readers obj keySets) then
          .answer obj
        else .parseError "no JSON object found in text"
      | _ => .parseError "no JSON object found in text"
    else .parseError "no JSON object found in text"
  | _, _ => .parseError "no JSON object found in text"

def conclude (keySets : KeySets) (text : List Char) : Scanned δ → Extracted δ
  | .returned obj => .answer obj
  | .error => .error
  | .ended (some (best, r)) =>
    if answers readers best ⟨r.required, r.answers⟩ then .answer best
    else .parseError "no JSON object in the text answers the schema"
  | .ended none => literal readers keySets text

def extractJson (text : List Char) (schema : Json) : Extracted δ :=
  let text := stripThink text
  let keySets := schemaKeySets readers schema
  conclude readers keySets text (scan readers keySets text none 0 0)

end Schema

end LoopLab.Llm.Extract
