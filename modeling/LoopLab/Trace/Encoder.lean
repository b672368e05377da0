import LoopLab.Log.Codec
import Mathlib.Data.Finset.Insert
import Mathlib.Data.Finset.Erase

/-!
# The wire text of a trace projection

A projection can be nested deeper than the call stack of the server, so its JSON text is written by a loop over a
stack of frames, up to a limit of bytes.
-/

set_option autoImplicit false

namespace LoopLab.Trace

abbrev Text := List (Fin 0x110000)

inductive Key where
  | str (text : Text)
  | other

/-- A Python value by its exact type, a container with its `id`; floats are left open. -/
inductive Value (F : Type) where
  | null
  | bool (b : Bool)
  | int (n : Int)
  | float (x : F)
  | str (text : Text)
  | list (identity : Nat) (items : List (Value F))
  | tuple (identity : Nat) (items : List (Value F))
  | dict (identity : Nat) (items : List (Key × Value F))
  | other

/-- What the interpreter prints: the `repr` of its floats, and the longest integer it turns into digits (zero
for no limit). -/
structure Printer (F : Type) where
  isFinite : F → Bool
  repr : F → String
  repr_ne : ∀ x, repr x ≠ ""
  maxStrDigits : Nat

def ascii (s : String) : Bytes := s.toList.flatMap String.utf8EncodeChar

/-- One character of a string with `ensure_ascii=False`, in UTF-8; a surrogate has none. -/
def dumpsChar (c : Fin 0x110000) : Option Bytes :=
  if c = 0x22 then some (ascii "\\\"")
  else if c = 0x5C then some (ascii "\\\\")
  else if c = 0x08 then some (ascii "\\b")
  else if c = 0x0C then some (ascii "\\f")
  else if c = 0x0A then some (ascii "\\n")
  else if c = 0x0D then some (ascii "\\r")
  else if c = 0x09 then some (ascii "\\t")
  else if c.val < 0x20 then
    some (ascii (String.ofList ['\\', 'u', '0', '0', (c.val / 16).digitChar, (c.val % 16).digitChar]))
  else if c.val.isValidChar then some (String.utf8EncodeChar (Char.ofNat c.val))
  else none

section Text
variable {F : Type} (p : Printer F)

def dumpsStr (text : Text) : Option Bytes :=
  (text.mapM dumpsChar).map fun chars => ascii "\"" ++ chars.flatten ++ ascii "\""

def dumpsInt (n : Int) : Option Bytes :=
  let digits := n.natAbs.repr
  if p.maxStrDigits ≠ 0 ∧ p.maxStrDigits < digits.length then none
  else some ((if n < 0 then ascii "-" else []) ++ ascii digits)

/-- `json.dumps(current, ensure_ascii=False, allow_nan=False, ...)` of a scalar, in UTF-8. -/
def dumps : Value F → Option Bytes
  | .null => some (ascii "null")
  | .bool b => some (ascii (if b then "true" else "false"))
  | .int n => dumpsInt p n
  | .float x => if p.isFinite x then some (ascii (p.repr x)) else none
  | .str text => dumpsStr text
  | _ => none

/-! ## The ordinary encoder -/

def enclose (opening : String) (parts : List Bytes) (closing : String) : Bytes :=
  ascii opening ++ ((ascii ",").intercalate parts ++ ascii closing)

mutual

def encode : Value F → Option Bytes
  | .list _ items => (encodeList items).map fun parts => enclose "[" parts "]"
  | .tuple _ items => (encodeList items).map fun parts => enclose "[" parts "]"
  | .dict _ items => (encodeItems items).map fun parts => enclose "\x7b" parts "\x7d"
  | .null => dumps p .null
  | .bool b => dumps p (.bool b)
  | .int n => dumps p (.int n)
  | .float x => dumps p (.float x)
  | .str text => dumps p (.str text)
  | .other => none

def encodeList : List (Value F) → Option (List Bytes)
  | [] => some []
  | child :: rest => (encode child).bind fun part => (encodeList rest).map (part :: ·)

def encodeItems : List (Key × Value F) → Option (List Bytes)
  | [] => some []
  | (.str key, child) :: rest =>
    (dumpsStr key).bind fun name => (encode child).bind fun part =>
      (encodeItems rest).map ((name ++ ascii ":" ++ part) :: ·)
  | (.other, _) :: _ => none

end

/-! ## The encoder without a call stack -/

inductive Frame (F : Type) where
  | value (current : Value F)
  | dict (items : List (Key × Value F)) (first : Bool) (identity : Nat)
  | list (items : List (Value F)) (first : Bool) (identity : Nat)

noncomputable def unwritten : List (Frame F) → Nat
  | [] => 0
  | .value current :: stack => sizeOf current + unwritten stack
  | .dict items _ _ :: stack => sizeOf items + unwritten stack
  | .list items _ _ :: stack => sizeOf items + unwritten stack

theorem Value.size_pos (current : Value F) : 0 < sizeOf current := by
  cases current <;> simp only [Value.null.sizeOf_spec, Value.bool.sizeOf_spec, Value.int.sizeOf_spec,
    Value.float.sizeOf_spec, Value.str.sizeOf_spec, Value.list.sizeOf_spec, Value.tuple.sizeOf_spec,
    Value.dict.sizeOf_spec, Value.other.sizeOf_spec] <;> omega

variable (maxBytes : Nat)

/-- `append(chunk)` -/
def append (output chunk : Bytes) : Option Bytes :=
  if maxBytes < output.length + chunk.length then none else some (output ++ chunk)

/-- `while stack:` -/
def drain : List (Frame F) → Finset Nat → Bytes → Option Bytes
  | [], _, output => some output
  | .value (.dict identity items) :: stack, active, output =>
    if identity ∈ active then none
    else (append maxBytes output (ascii "\x7b")).bind fun output =>
      drain (.dict items true identity :: stack) (insert identity active) output
  | .value (.list identity items) :: stack, active, output =>
    if identity ∈ active then none
    else (append maxBytes output (ascii "[")).bind fun output =>
      drain (.list items true identity :: stack) (insert identity active) output
  | .value (.tuple identity items) :: stack, active, output =>
    if identity ∈ active then none
    else (append maxBytes output (ascii "[")).bind fun output =>
      drain (.list items true identity :: stack) (insert identity active) output
  | .value .other :: _, _, _ => none
  | .value current :: stack, active, output =>
    (dumps p current).bind fun chunk => (append maxBytes output chunk).bind fun output =>
      drain stack active output
  | .dict [] _ identity :: stack, active, output =>
    (append maxBytes output (ascii "\x7d")).bind fun output =>
      if identity ∈ active then drain stack (active.erase identity) output else none
  | .dict ((.other, _) :: _) _ _ :: _, _, _ => none
  | .dict ((.str key, child) :: items) first identity :: stack, active, output =>
    (if first then some output else append maxBytes output (ascii ",")).bind fun output =>
      (dumpsStr key).bind fun name => (append maxBytes output name).bind fun output =>
        (append maxBytes output (ascii ":")).bind fun output =>
          drain (.value child :: .dict items false identity :: stack) active output
  | .list [] _ identity :: stack, active, output =>
    (append maxBytes output (ascii "]")).bind fun output =>
      if identity ∈ active then drain stack (active.erase identity) output else none
  | .list (child :: items) first identity :: stack, active, output =>
    (if first then some output else append maxBytes output (ascii ",")).bind fun output =>
      drain (.value child :: .list items false identity :: stack) active output
termination_by stack => unwritten stack
decreasing_by
  case _ => simp only [unwritten, Value.dict.sizeOf_spec]; omega
  case _ => simp only [unwritten, Value.list.sizeOf_spec]; omega
  case _ => simp only [unwritten, Value.tuple.sizeOf_spec]; omega
  case _ => exact Nat.lt_add_of_pos_left current.size_pos
  case _ => simp only [unwritten, List.nil.sizeOf_spec]; omega
  case _ => simp only [unwritten, List.cons.sizeOf_spec, Prod.mk.sizeOf_spec]; omega
  case _ => simp only [unwritten, List.nil.sizeOf_spec]; omega
  case _ => simp only [unwritten, List.cons.sizeOf_spec]; omega

/-- `trace_projection_json_bytes`; nothing stands for its errors. -/
def traceProjectionJsonBytes (value : Value F) (maxBytes : Int) : Option Bytes :=
  if maxBytes ≤ 0 then none else drain p maxBytes.toNat [.value value] ∅ []

end Text

end LoopLab.Trace
