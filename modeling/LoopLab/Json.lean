import Mathlib.Algebra.Group.Int.Defs
import Mathlib.Algebra.Group.Nat.Defs
import Mathlib.Data.Option.Basic
import Mathlib.Data.Rat.Defs

/-!
# JSON values as the program reads them

The payload of an event is whatever its line decoded to, so a field can hold any JSON value.
-/

set_option autoImplicit false

namespace LoopLab

inductive Json where
  | null
  | bool (b : Bool)
  | int (i : Int)
  | float (q : Rat)
  | str (s : String)
  | arr (xs : List Json)
  | obj (fields : List (String × Json))
  deriving Repr, Inhabited

abbrev Obj := List (String × Json)

namespace Obj

def has (d : Obj) (k : String) : Bool := (d.lookup k).isSome

/-- `d.get(k, default)` -/
def getD (d : Obj) (k : String) (default : Json) : Json := (d.lookup k).getD default

/-- `d.get(k)` -/
def get (d : Obj) (k : String) : Json := d.getD k .null

/-- `d[k] = v` -/
def set (k : String) (v : Json) : Obj → Obj
  | [] => [(k, v)]
  | (j, w) :: rest => if j = k then (k, v) :: rest else (j, w) :: set k v rest

/-- `d.setdefault(k, v)` -/
def setDefault (d : Obj) (k : String) (v : Json) : Obj := if d.has k then d else d ++ [(k, v)]

theorem lookup_set_ne {o : Obj} {j k : String} {v : Json} (h : j ≠ k) :
    (o.set k v).lookup j = o.lookup j := by
  have hjk : (j == k) = false := beq_false_of_ne h
  induction o with
  | nil => simp [set, List.lookup_cons, hjk]
  | cons x o ih =>
    obtain ⟨i, w⟩ := x
    by_cases hi : i = k
    · subst hi
      simp [set, List.lookup_cons, hjk]
    · simp only [set, hi, if_false, List.lookup_cons, ih]

theorem get_set (o : Obj) (j k : String) (v : Json) : (o.set k v).get j = if j = k then v else o.get j := by
  have hself : (o.set k v).lookup k = some v := by
    induction o with
    | nil => simp [set]
    | cons x o ih =>
      obtain ⟨i, w⟩ := x
      by_cases hi : i = k
      · simp [set, hi]
      · have hki : (k == i) = false := beq_false_of_ne fun h => hi h.symm
        simp only [set, hi, if_false, List.lookup_cons, hki, ih]
  unfold get getD
  split
  · next h => rw [h, hself]; rfl
  · next h => rw [lookup_set_ne h]

end Obj

namespace Json

/-- `bool(v)` -/
def truthy : Json → Bool
  | null => false
  | bool b => b
  | int i => i ≠ 0
  | float q => q ≠ 0
  | str s => s ≠ ""
  | arr xs => !xs.isEmpty
  | obj fields => !fields.isEmpty

/-- `v or default` -/
def orElse (v default : Json) : Json := if v.truthy then v else default

def isNull : Json → Bool
  | null => true
  | _ => false

/-- `v is True` -/
def isTrue : Json → Bool
  | bool b => b
  | _ => false

/-- `v is False` -/
def isFalse : Json → Bool
  | bool b => !b
  | _ => false

def isBool : Json → Bool
  | bool _ => true
  | _ => false

def str? : Json → Option String
  | str s => some s
  | _ => none

/-- `isinstance(v, int) and not isinstance(v, bool)` -/
def int? : Json → Option Int
  | int i => some i
  | _ => none

theorem str?_eq_some {v : Json} {s : String} : v.str? = some s ↔ v = .str s := by
  cases v <;> simp [str?]

theorem int?_eq_some {v : Json} {i : Int} : v.int? = some i ↔ v = .int i := by
  cases v <;> simp [int?]

def arr? : Json → Option (List Json)
  | arr xs => some xs
  | _ => none

def obj? : Json → Option Obj
  | obj fields => some fields
  | _ => none

/-- The number a value compares as; `True` is `1`. -/
def num? : Json → Option Rat
  | bool b => some (if b then 1 else 0)
  | int i => some i
  | float q => some q
  | _ => none

mutual
/-- `a == b`: numbers by value, lists in order, dictionaries regardless of order. -/
def pyEq : Json → Json → Bool
  | null, null => true
  | str s, str t => s == t
  | arr xs, arr ys => pyEqList xs ys
  | obj xs, obj ys => xs.length == ys.length && pyEqFields xs ys
  | a, b => match a.num?, b.num? with
    | some p, some q => p == q
    | _, _ => false
def pyEqList : List Json → List Json → Bool
  | [], [] => true
  | x :: xs, y :: ys => pyEq x y && pyEqList xs ys
  | _, _ => false
def pyEqFields : Obj → Obj → Bool
  | [], _ => true
  | (k, v) :: rest, ys =>
    (match ys.lookup k with | some w => pyEq v w | none => false) && pyEqFields rest ys
end

/-- `v == i` -/
def eqInt (v : Json) (i : Int) : Bool := v.num? == some (i : Rat)

/-- `v == s` -/
def eqStr (v : Json) (s : String) : Bool := v.str? == some s

end Json

/-! ## Numerals in strings -/

namespace Py

/-- The characters `str.strip` and `int` drop at either end. -/
def isSpace (c : Char) : Bool :=
  let n := c.toNat
  (9 ≤ n && n ≤ 13) || (28 ≤ n && n ≤ 32) || n = 0x85 || n = 0xA0 || n = 0x1680 ||
    (0x2000 ≤ n && n ≤ 0x200A) || n = 0x2028 || n = 0x2029 || n = 0x202F || n = 0x205F ||
    n = 0x3000

def stripChars (cs : List Char) : List Char :=
  ((cs.dropWhile isSpace).reverse.dropWhile isSpace).reverse

/-- `s.strip()` -/
def strip (s : String) : String := String.ofList (stripChars s.toList)

/-- A digit of `hexdigest`. -/
def hexDigit (c : Char) : Bool := ('0' ≤ c && c ≤ '9') || ('a' ≤ c && c ≤ 'f')

/-- `str.lower` on the characters whose image is ASCII; the Kelvin sign is the one such character
outside ASCII. -/
def lowerChar (c : Char) : Char := if c.toNat = 0x212A then 'k' else c.toLower

/-- `s.lower()`, as far as comparing the result with an ASCII word can tell. -/
def lower (s : String) : String := String.ofList (s.toList.map lowerChar)

/-- The zeros of the runs of ten decimal digits that `int` and `float` accept. -/
def digitZeros : List Nat :=
  [0x30, 0x660, 0x6F0, 0x7C0, 0x966, 0x9E6, 0xA66, 0xAE6, 0xB66, 0xBE6, 0xC66, 0xCE6, 0xD66, 0xDE6,
   0xE50, 0xED0, 0xF20, 0x1040, 0x1090, 0x17E0, 0x1810, 0x1946, 0x19D0, 0x1A80, 0x1A90, 0x1B50,
   0x1BB0, 0x1C40, 0x1C50, 0xA620, 0xA8D0, 0xA900, 0xA9D0, 0xA9F0, 0xAA50, 0xABF0, 0xFF10, 0x104A0,
   0x10D30, 0x11066, 0x110F0, 0x11136, 0x111D0, 0x112F0, 0x11450, 0x114D0, 0x11650, 0x116C0,
   0x11730, 0x118E0, 0x11950, 0x11C50, 0x11D50, 0x11DA0, 0x11F50, 0x16A60, 0x16AC0, 0x16B50,
   0x1D7CE, 0x1D7D8, 0x1D7E2, 0x1D7EC, 0x1D7F6, 0x1E140, 0x1E2F0, 0x1E4F0, 0x1E950, 0x1FBF0]

def digit (c : Char) : Option Nat :=
  (digitZeros.find? fun z => z ≤ c.toNat && c.toNat < z + 10).map fun z => c.toNat - z

def digitRun : List Char → Option (List Nat)
  | [] => none
  | [c] => (digit c).map ([·])
  | c :: d :: rest => do
    let n ← digit c
    let ns ← if d = '_' then digitRun rest else digitRun (d :: rest)
    pure (n :: ns)

def ofDigits (ds : List Nat) : Nat := ds.foldl (fun acc d => acc * 10 + d) 0

def signed : List Char → Bool × List Char
  | '+' :: cs => (false, cs)
  | '-' :: cs => (true, cs)
  | cs => (false, cs)

def negateIf (neg : Bool) (n : Int) : Int := if neg then -n else n

/-- `int(s)`; numerals of more than 4300 digits are refused. -/
def parseInt (s : String) : Option Int := do
  let (neg, cs) := signed (stripChars s.toList)
  let ds ← digitRun cs
  if ds.length ≤ 4300 then pure (negateIf neg (ofDigits ds)) else none

def floatBound : Rat := 2 ^ 1024 - 2 ^ 970

def isFinite (q : Rat) : Bool := decide (-floatBound < q) && decide (q < floatBound)

def exponent : List Char → Option Int
  | [] => some 0
  | _ :: cs => do
    let (neg, cs) := signed cs
    let ds ← digitRun cs
    pure (negateIf neg (ofDigits ds))

def mantissa (cs : List Char) : Option (List Nat × List Nat) :=
  let whole := cs.takeWhile (· ≠ '.')
  let point := cs.dropWhile (· ≠ '.')
  match whole, point with
  | [], [] => none
  | _, [] => (digitRun whole).map (·, [])
  | [], [_] => none
  | [], _ :: frac => (digitRun frac).map ([], ·)
  | _, [_] => (digitRun whole).map (·, [])
  | _, _ :: frac => do pure (← digitRun whole, ← digitRun frac)

/-- `float(s)` where it is a finite number; `inf`, `nan` and malformed numerals give nothing. -/
def parseFloat (s : String) : Option Rat := do
  let (neg, cs) := signed (stripChars s.toList)
  let isExp := fun c : Char => c = 'e' || c = 'E'
  let (whole, frac) ← mantissa (cs.takeWhile (!isExp ·))
  let e ← exponent (cs.dropWhile (!isExp ·))
  let m : Int := negateIf neg (ofDigits (whole ++ frac))
  let scale := e - frac.length
  let q : Rat := if 0 ≤ scale then m * (10 ^ scale.toNat : Nat) else mkRat m (10 ^ (-scale).toNat)
  if isFinite q then some q else none

end Py

namespace Json

/-- `coerce_node_id` on the value of the field. -/
def coerceInt : Json → Option Int
  | int i => some i
  | float q => if q.den = 1 then some q.num else none
  | str s => Py.parseInt s
  | _ => none

/-- `int(v)`: floats are cut toward zero. -/
def toInt : Json → Option Int
  | bool b => some (if b then 1 else 0)
  | int i => some i
  | float q => some (q.num.tdiv q.den)
  | str s => Py.parseInt s
  | _ => none

/-- `float(v)` where it is a finite number. -/
def toFloat : Json → Option Rat
  | bool b => some (if b then 1 else 0)
  | int i => if Py.isFinite i then some i else none
  | float q => some q
  | str s => Py.parseFloat s
  | _ => none

/-- `finite_metric`: a number, not a boolean, whose float is finite. -/
def finiteMetric : Json → Option Rat
  | int i => if Py.isFinite i then some i else none
  | float q => some q
  | _ => none

def boundedInt (v : Json) (lo hi : Int) : Bool :=
  match v with
  | int i => decide (lo ≤ i ∧ i ≤ hi)
  | _ => false

end Json

/-- `coerce_node_id(d, key)` -/
def coerceNodeId (d : Obj) (key : String := "node_id") : Option Int := (d.get key).coerceInt

end LoopLab
