import LoopLab.Lib.Bytes
import LoopLab.Tools.Patch

/-!
# Uploaded arrays

An array is a header, which is a literal of type, order and shape, and the items one after the other. An archive of arrays
is read within one bound.
-/

set_option autoImplicit false

namespace LoopLab.Npy
open Lib Lib.Bytes

abbrev Bytes := List UInt8

def MAGIC : Bytes := [0x93, 0x4E, 0x55, 0x4D, 0x50, 0x59]

def nul : Char := Char.ofNat 0

/-- What `literal_eval` makes of a text; of a dictionary the text keys, each once. -/
inductive Literal
  | str (s : String)
  | bool (b : Bool)
  | int (n : Int)
  | tuple (entries : List Literal)
  | dict (rows : List (String × Literal))
  | other

/-- A value of an array; `F` are the floats. -/
inductive Value (F : Type)
  | int (n : Int)
  | float (x : F)
  | bool (b : Bool)
  | str (text : List Char)

/-- A member of an archive; no content where reading it fails. -/
structure Member where
  filename : List Char
  fileSize : Nat
  content : Option Bytes

/-- The interpreter: its byte order, its literals, its archives and its floats. -/
structure Runtime (F : Type) where
  bigEndian : Bool
  literalEval : List Char → Option Literal
  repr : String → List Nat → Option (List Char)
  infolist : Bytes → Option (List Member)
  pack : Nat → F → Nat
  unpack : Nat → Nat → F
  ofInt : Int → Option F
  shown : F → List Char
  nonzero : F → Bool
  pack_lt : ∀ width x, pack width x < 256 ^ width

abbrev Reading (F : Type) := List Nat × List (Value F)

/-! ## The header -/

/-- The length of the header, and where it starts. -/
def headerSpan (data : Bytes) : Option (Nat × Nat) :=
  if data.take 6 ≠ MAGIC ∨ data.length < 10 then none
  else
    let major := data.getD 6 0
    if major = 1 then some (number ((data.drop 8).take 2), 10)
    else if major = 2 ∨ major = 3 then
      if data.length < 12 then none else some (number ((data.drop 8).take 4), 12)
    else none

def latin1 (bytes : Bytes) : List Char := bytes.map fun b => Char.ofNat b.toNat

def headerText (data : Bytes) (start length : Nat) : Option (List Char) :=
  let bytes := (data.drop start).take length
  if data.getD 6 0 < 3 then some (latin1 bytes) else (String.fromUTF8? ⟨bytes.toArray⟩).map String.toList

def dimension : Literal → Option Nat
  | .int n => if 0 ≤ n then some n.toNat else none
  | _ => none

/-- What an array says of itself, and what follows its header. -/
structure Declared where
  descr : String
  shape : List Nat
  body : Bytes

def Declared.count (d : Declared) : Nat := d.shape.foldl (· * ·) 1

def field (rows : List (String × Literal)) (key : String) : Option Literal := (rows.find? (·.1 = key)).map (·.2)

def declaredRows (rows : List (String × Literal)) (body : Bytes) : Option Declared :=
  match field rows "descr", field rows "fortran_order", field rows "shape" with
  | some (.str descr), some (.bool false), some (.tuple dims) =>
    if 2 < dims.length then none else (dims.mapM dimension).map fun shape => ⟨descr, shape, body⟩
  | _, _, _ => none

/-- The type of the items: its order, its kind and its width. -/
structure DType where
  order : Char
  kind : Char
  width : Int

def dtypeOf (descr : String) : Option DType :=
  match descr.toList with
  | order :: kind :: digits =>
    if digits ≠ [] ∧ order ∈ ['<', '>', '|', '='] then (Py.parseInt (String.ofList digits)).map (⟨order, kind, ·⟩) else none
  | _ => none

/-- The widths of `_INT_CODES`, `_UINT_CODES` and `_FLOAT_CODES`. -/
def arrayWidths (kind : Char) : List Int :=
  if kind = 'i' ∨ kind = 'u' then [1, 2, 4, 8] else if kind = 'f' then [4, 8] else []

/-! ## The items -/

section Items
variable {α : Type}

/-- Where an index of a slice lies. -/
def place (length : Nat) (i : Int) : Nat := if i < 0 then (i + length).toNat else i.toNat

/-- `xs[i:j]` -/
def slice (xs : List α) (i j : Int) : List α := (xs.take (place xs.length j)).drop (place xs.length i)

end Items

def rstrip (text : List Char) : List Char := (text.reverse.dropWhile (· = nul)).reverse

def rstripBytes (bytes : Bytes) : Bytes := (bytes.reverse.dropWhile (· = 0)).reverse

/-- `bytes.decode("utf-32-be")` or `"utf-32-le"` -/
def utf32 (big : Bool) : Bytes → Option (List Char)
  | [] => some []
  | a :: b :: c :: d :: rest =>
    let code := number (if big then [d, c, b, a] else [a, b, c, d])
    if code.isValidChar then (utf32 big rest).map (Char.ofNat code :: ·) else none
  | _ => none

variable {F : Type} (rt : Runtime F)

def swaps (order : Char) : Bool := (order = '>' && !rt.bigEndian) || (order = '<' && rt.bigEndian)

/-- An item of `arr`, swapped where the orders differ. -/
def itemNumber (t : DType) (item : Bytes) : Nat :=
  let item := if swaps rt t.order && 1 < t.width then item.reverse else item
  number (if rt.bigEndian then item.reverse else item)

def numeric (t : DType) (n : Nat) : Value F :=
  if t.kind = 'f' then .float (rt.unpack t.width.toNat n)
  else if t.kind = 'u' ∨ 2 * n < 256 ^ t.width.toNat then .int n
  else .int (n - (256 ^ t.width.toNat : Nat))

def valuesOf (t : DType) (count : Nat) (body : Bytes) : Option (List (Value F)) :=
  if t.kind = 'U' then
    if (body.length : Int) < 4 * t.width * count then none
    else (utf32 (t.order = '>') (slice body 0 (4 * t.width * count))).map fun text =>
      (List.range count).map fun i : Nat => .str (rstrip (slice text (i * t.width) ((i + 1) * t.width)))
  else if t.kind = 'S' then
    if (body.length : Int) < t.width * count then none
    else some ((List.range count).map fun i : Nat =>
      .str (Tools.utf8 ((rstripBytes (slice body (i * t.width) ((i + 1) * t.width))).map UInt8.toNat)))
  else if t.kind = 'b' ∧ t.width = 1 then
    if body.length < count then none else some ((body.take count).map fun b => .bool (b ≠ 0))
  else if t.width ∈ arrayWidths t.kind then
    if (body.length : Int) < t.width * count then none
    else some ((items t.width.toNat count body).map fun item => numeric rt t (itemNumber rt t item))
  else none

/-! ## Reading -/

def declared (data : Bytes) : Option Declared := do
  let (length, start) ← headerSpan data
  if 65536 < length then none
  else
    match (← rt.literalEval (← headerText data start length)) with
    | .dict rows => declaredRows rows (data.drop (start + length))
    | _ => none

/-- `read_npy`; nothing where it raises `NpyFormatError`. -/
def readNpy (maxElements : Nat) (data : Bytes) : Option (Reading F) := do
  let d ← declared rt data
  if maxElements < d.count then none
  else
    let t ← dtypeOf d.descr
    (valuesOf rt t d.count d.body).map fun values => (d.shape, values)

def memberNamed (name : List Char) : Bool :=
  name.drop (name.length - 4) = ".npy".toList && !name.contains '/' && !name.contains '\\'

def memberName (name : List Char) : List Char := name.take (name.length - 4)

def readMembers (maxElements : Nat) : List Member → Nat → Dict (List Char) (Reading F) → Option (Dict (List Char) (Reading F))
  | [], _, out => some out
  | info :: members, budget, out =>
    if memberNamed info.filename && info.fileSize ≤ 16 * maxElements + 65536 then do
      let (shape, values) ← readNpy rt budget (← info.content)
      readMembers maxElements members (budget - values.length) (out.set (memberName info.filename) (shape, values))
    else none

def readNpz (maxElements maxMembers : Nat) (data : Bytes) : Option (Dict (List Char) (Reading F)) := do
  let members ← rt.infolist data
  if maxMembers < members.length then none else readMembers rt maxElements members maxElements Table.empty

/-! ## Writing -/

def truth (b : Bool) : Int := if b then 1 else 0

/-- `str(v)` -/
def text : Value F → List Char
  | .int n => (toString n).toList
  | .float x => rt.shown x
  | .bool b => (if b then "True" else "False").toList
  | .str text => text

def truthy : Value F → Bool
  | .int n => n ≠ 0
  | .float x => rt.nonzero x
  | .bool b => b
  | .str text => text ≠ []

def asIndex : Value F → Option Int
  | .int n => some n
  | .bool b => some (truth b)
  | _ => none

def asFloat : Value F → Option F
  | .float x => some x
  | .int n => rt.ofInt n
  | .bool b => rt.ofInt (truth b)
  | .str _ => none

/-- `text[:width].ljust(width, "\0")` -/
def padded (width : Int) (text : List Char) : List Char :=
  slice text 0 width ++ List.replicate (width.toNat - (slice text 0 width).length) nul

/-- An item that `array` takes. -/
def packed (kind : Char) (width : Nat) (v : Value F) : Option Nat :=
  if kind = 'f' then (asFloat rt v).map (rt.pack width)
  else
    (asIndex v).bind fun n =>
      if kind = 'u' then if 0 ≤ n ∧ n < (256 ^ width : Nat) then some n.toNat else none
      else if -(256 ^ width : Nat) ≤ 2 * n ∧ 2 * n < (256 ^ width : Nat) then some (n % (256 ^ width : Nat)).toNat else none

/-- The machine's item, swapped on a host of the other order. -/
def itemBytes (width n : Nat) : Bytes :=
  let item := if rt.bigEndian then (spell width n).reverse else spell width n
  if rt.bigEndian then item.reverse else item

def bodyOf (dtype : String) (flat : List (Value F)) : Option Bytes :=
  if dtype.toList.take 2 = ['<', 'U'] then
    (Py.parseInt (String.ofList (dtype.toList.drop 2))).map fun width =>
      (flat.flatMap fun v => padded width (text rt v)).flatMap fun c => spell 4 c.toNat
  else if dtype = "|b1" then some (flat.map fun v => if truthy rt v then 1 else 0)
  else
    match dtype.toList with
    | _ :: kind :: digits => do
      let width ← Py.parseInt (String.ofList digits)
      if width ∈ arrayWidths kind then
        (flat.mapM (packed rt kind width.toNat)).map fun numbers => (numbers.map (itemBytes rt width.toNat)).flatten
      else none
    | _ => none

/-- The literal in latin-1, filled up to a multiple of 64. -/
def headerOf (dtype : String) (shape : List Nat) : Option Bytes := do
  let literal ← rt.repr dtype shape
  if literal.all (·.toNat < 256) then
    let header := literal.map fun c => UInt8.ofNat c.toNat
    some (header ++ List.replicate ((64 - (10 + header.length + 1) % 64) % 64) 32 ++ [10])
  else none

/-- `write_npy`; nothing where it raises. -/
def writeNpy (flat : List (Value F)) (shape : List Nat) (dtype : String) : Option Bytes := do
  let body ← bodyOf rt dtype flat
  let header ← headerOf rt dtype shape
  if header.length < 65536 then some (MAGIC ++ [1, 0] ++ spell 2 header.length ++ header ++ body) else none

end LoopLab.Npy
