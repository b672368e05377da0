import LoopLab.Log.Envelope
import Mathlib.Data.List.Infix

/-!
# A codec over a table of values

A codec that prints and reads finitely many objects as `orjson` does, validates an event envelope field by field,
and takes the bytes themselves for their digest.
-/

set_option autoImplicit false

namespace LoopLab

namespace Json

mutual
def same : Json → Json → Bool
  | .null, .null => true
  | .bool a, .bool b => a == b
  | .int a, .int b => a == b
  | .float a, .float b => a == b
  | .str a, .str b => a == b
  | .arr xs, .arr ys => sameList xs ys
  | .obj xs, .obj ys => sameFields xs ys
  | _, _ => false
def sameList : List Json → List Json → Bool
  | [], [] => true
  | x :: xs, y :: ys => same x y && sameList xs ys
  | _, _ => false
def sameFields : Obj → Obj → Bool
  | [], [] => true
  | (j, x) :: xs, (k, y) :: ys => j == k && same x y && sameFields xs ys
  | _, _ => false
end

mutual
theorem eq_of_same : ∀ {a b : Json}, a.same b = true → a = b
  | .null, b, h => by cases b <;> simp_all [same]
  | .bool a, b, h => by cases b <;> simp_all [same]
  | .int a, b, h => by cases b <;> simp_all [same]
  | .float a, b, h => by cases b <;> simp_all [same]
  | .str a, b, h => by cases b <;> simp_all [same]
  | .arr xs, b, h => by
    cases b with
    | arr ys =>
      rw [same] at h
      rw [eq_of_sameList h]
    | _ => simp [same] at h
  | .obj xs, b, h => by
    cases b with
    | obj ys =>
      rw [same] at h
      rw [eq_of_sameFields h]
    | _ => simp [same] at h
theorem eq_of_sameList : ∀ {xs ys : List Json}, sameList xs ys = true → xs = ys
  | [], ys, h => by cases ys <;> simp_all [sameList]
  | x :: xs, ys, h => by
    cases ys with
    | nil => simp [sameList] at h
    | cons y ys =>
      rw [sameList, Bool.and_eq_true] at h
      rw [eq_of_same h.1, eq_of_sameList h.2]
theorem eq_of_sameFields : ∀ {xs ys : Obj}, sameFields xs ys = true → xs = ys
  | [], ys, h => by cases ys <;> simp_all [sameFields]
  | (j, x) :: xs, ys, h => by
    cases ys with
    | nil => simp [sameFields] at h
    | cons y ys =>
      obtain ⟨k, y⟩ := y
      rw [sameFields, Bool.and_eq_true, Bool.and_eq_true, beq_iff_eq] at h
      rw [h.1.1, eq_of_same h.1.2, eq_of_sameFields h.2]
end

/-! ## Text -/

def ascii (s : String) : Bytes := s.toList.map fun ch => ch.toNat.toUInt8

def quoted (s : String) : Bytes := 34 :: (ascii s ++ [34])

mutual
/-- The compact text of a value, for whole floats and strings with nothing to escape. -/
def print : Json → Bytes
  | .null => ascii "null"
  | .bool b => ascii (if b then "true" else "false")
  | .int i => ascii (toString i)
  | .float q => ascii (toString q.num) ++ ascii ".0"
  | .str s => quoted s
  | .arr xs => 91 :: (printList xs ++ [93])
  | .obj fields => 123 :: (printFields fields ++ [125])
def printList : List Json → Bytes
  | [] => []
  | [x] => print x
  | x :: xs => print x ++ 44 :: printList xs
def printFields : Obj → Bytes
  | [] => []
  | [(k, x)] => quoted k ++ 58 :: print x
  | (k, x) :: xs => quoted k ++ 58 :: (print x ++ 44 :: printFields xs)
end

def isObj : Json → Bool
  | .obj _ => true
  | _ => false

/-- Another value's text is neither the beginning nor the end of this one's. -/
def apart (a b : Json) : Bool :=
  if a.print = b.print then a.same b
  else !b.print.isPrefixOf a.print && !b.print.isSuffixOf a.print

def tabled (a : Json) : Bool :=
  a.isObj && a.pyEq a && !a.print.contains newline && a.print.head? == some 123 &&
    a.print.getLast? == some 125

end Json

structure TextTable where
  values : List Json
  ok : (values.all fun a => a.tabled && values.all a.apart) = true

namespace TextTable
variable (t : TextTable)

def loads (text : Bytes) : Option Json := t.values.find? (·.print == text)

def dumps (j : Json) : Option Bytes := if t.values.any j.same then some j.print else none

theorem tabled_of_mem {a : Json} (h : a ∈ t.values) : a.tabled = true := by
  have := List.all_eq_true.mp t.ok a h
  rw [Bool.and_eq_true] at this
  exact this.1

theorem apart_of_mem {a b : Json} (ha : a ∈ t.values) (hb : b ∈ t.values) : a.apart b = true := by
  have := List.all_eq_true.mp t.ok a ha
  rw [Bool.and_eq_true] at this
  exact List.all_eq_true.mp this.2 b hb

theorem dumps_some {j : Json} {text : Bytes} (h : t.dumps j = some text) :
    j ∈ t.values ∧ text = j.print := by
  unfold dumps at h
  split at h
  · rename_i hany
    obtain ⟨a, ha, hsame⟩ := List.any_eq_true.mp hany
    rw [Json.eq_of_same hsame]
    cases h
    exact ⟨ha, by rw [Json.eq_of_same hsame]⟩
  · cases h

theorem loads_some {j : Json} {text : Bytes} (h : t.loads text = some j) :
    j ∈ t.values ∧ text = j.print := by
  have hp := List.find?_some h
  exact ⟨List.mem_of_find?_eq_some h, (by simpa using hp : j.print = text).symm⟩

theorem loads_print {j : Json} (h : j ∈ t.values) : t.loads j.print = some j := by
  unfold loads
  cases hf : t.values.find? (·.print == j.print) with
  | none =>
    have := List.find?_eq_none.mp hf j h
    simp at this
  | some a =>
    obtain ⟨ha, hprint⟩ := t.loads_some hf
    have hap := t.apart_of_mem h ha
    rw [Json.apart, if_pos hprint] at hap
    rw [Json.eq_of_same hap]

theorem tabled_spec {j : Json} (h : j ∈ t.values) :
    j.pyEq j = true ∧ newline ∉ j.print ∧ j.print.head? = some 123 ∧
      j.print.getLast? = some 125 := by
  have := t.tabled_of_mem h
  simp only [Json.tabled, Bool.and_eq_true, beq_iff_eq, Bool.not_eq_true',
    List.contains_eq_mem, decide_eq_false_iff_not] at this
  exact ⟨this.1.1.1.2, this.1.1.2, this.1.2, this.2⟩

theorem print_eq {a b : Json} (ha : a ∈ t.values) (hb : b ∈ t.values)
    (h : b.print <+: a.print ∨ b.print <:+ a.print) : a.print = b.print := by
  have hap := t.apart_of_mem ha hb
  by_contra hne
  rw [Json.apart, if_neg hne, Bool.and_eq_true, Bool.not_eq_true', Bool.not_eq_true'] at hap
  rcases h with h | h
  · rw [← List.isPrefixOf_iff_prefix, hap.1] at h
    cases h
  · rw [← List.isSuffixOf_iff_suffix, hap.2] at h
    cases h

theorem loads_take {j : Json} (h : j ∈ t.values) {k : Nat} (hk : k < j.print.length) :
    t.loads (j.print.take k) = none := by
  cases hl : t.loads (j.print.take k) with
  | none => rfl
  | some b =>
    obtain ⟨hb, hprint⟩ := t.loads_some hl
    have heq := congrArg List.length (t.print_eq h hb (.inl (hprint ▸ List.take_prefix _ _)))
    rw [← hprint, List.length_take] at heq
    omega

theorem loads_drop {j : Json} (h : j ∈ t.values) {k : Nat} (hk : 0 < k) :
    t.loads (j.print.drop k) = none := by
  cases hl : t.loads (j.print.drop k) with
  | none => rfl
  | some b =>
    obtain ⟨hb, hprint⟩ := t.loads_some hl
    have heq := congrArg List.length (t.print_eq h hb (.inr (hprint ▸ List.drop_suffix _ _)))
    have hpos : j.print ≠ [] := by
      intro h0
      have hhead := (t.tabled_spec h).2.2.1
      rw [h0] at hhead
      cases hhead
    have := List.length_pos_iff.mpr hpos
    rw [← hprint, List.length_drop] at heq
    omega

theorem loads_line {r : Bytes} {j : Json} (h : t.loads (stripBytes r) = some j) (k : Nat) :
    t.loads (r.drop k) = none ∨ t.loads (r.drop k) = some j := by
  cases hl : t.loads (r.drop k) with
  | none => exact .inl rfl
  | some b =>
    right
    obtain ⟨hj, hstrip⟩ := t.loads_some h
    obtain ⟨hb, hdrop⟩ := t.loads_some hl
    have hbl := (t.tabled_spec hb).2.2
    rw [← hdrop] at hbl
    -- The line ends with a brace, so only blanks before the text were stripped.
    have hne : r.dropWhile isSpaceByte ≠ [] := by
      intro h0
      have hz : stripBytes r = [] := by rw [stripBytes, h0]; rfl
      have hhead := (t.tabled_spec hj).2.2.1
      rw [← hstrip, hz] at hhead
      cases hhead
    have hsplit := List.takeWhile_append_dropWhile (p := isSpaceByte) (l := r)
    have hlast : (r.dropWhile isSpaceByte).getLast? = some 125 := by
      have hr : r.getLast? = some 125 := by
        have hlen : k < r.length := by
          by_contra hge
          rw [List.drop_eq_nil_of_le (by omega)] at hbl
          cases hbl.1
        rw [← hbl.2, List.getLast?_drop, if_neg (by omega)]
      rw [← hsplit, List.getLast?_append_of_ne_nil _ hne] at hr
      exact hr
    have hr : stripBytes r = r.dropWhile isSpaceByte := by
      rw [stripBytes, List.rdropWhile_eq_self_iff]
      intro hne'
      rw [List.getLast?_eq_some_getLast hne', Option.some.injEq] at hlast
      rw [hlast]
      decide
    rw [hr] at hstrip
    rw [hstrip] at hsplit
    generalize hws : r.takeWhile isSpaceByte = ws at hsplit
    have hspace : ∀ x ∈ ws, isSpaceByte x = true := by
      intro x hx
      rw [← hws] at hx
      exact List.mem_takeWhile_imp hx
    rw [← hsplit, List.drop_append] at hdrop hbl hl
    by_cases hk : k < ws.length
    · exfalso
      obtain ⟨x, xs, hx⟩ := List.exists_cons_of_ne_nil
        (show ws.drop k ≠ [] by simp; omega)
      rw [hx] at hbl
      have hx0 : x = 123 := by simpa using hbl.1
      have := hspace x (List.mem_of_mem_drop (hx ▸ List.mem_cons_self))
      rw [hx0] at this
      exact absurd this (by decide)
    · rw [List.drop_eq_nil_of_le (by omega), List.nil_append] at hl
      by_cases hz : k - ws.length = 0
      · rw [hz, List.drop_zero, t.loads_print hj] at hl
        exact hl.symm
      · rw [t.loads_drop hj (by omega)] at hl
        cases hl

end TextTable

/-! ## Validation of the envelope -/

namespace Json

def withoutDecimalZeros (s : String) : String :=
  let whole := s.toList.takeWhile (· ≠ '.')
  let zeros := (s.toList.dropWhile (· ≠ '.')).drop 1
  if zeros ≠ [] ∧ zeros.all (· = '0') then String.ofList whole else s

/-- An integer field outside strict mode: whole floats, booleans and numerals are taken too, the
numerals also with a fraction of zeros. -/
def laxInt : Json → Option Int
  | .bool b => some (if b then 1 else 0)
  | .int i => some i
  | .float q => if q.den = 1 then some q.num else none
  | .str s => (Py.parseInt s).or (Py.parseInt (withoutDecimalZeros s))
  | _ => none

def intField (strict : Bool) (v : Json) : Option Int := if strict then v.int? else v.laxInt

def floatField : Json → Option Rat
  | .float q => some q
  | .int i => some i
  | _ => none

def optStrField : Json → Option (Option String)
  | .null => some none
  | .str s => some (some s)
  | _ => none

theorem laxInt_toInt {v : Json} {m n : Int} (h : v.laxInt = some m) (h' : v.toInt = some n) :
    m = n := by
  cases v with
  | bool b => exact Option.some.inj (h.symm.trans h')
  | int i => exact Option.some.inj (h.symm.trans h')
  | float q =>
    simp only [laxInt] at h
    split at h
    · rename_i hq
      cases h
      simpa [toInt, hq] using h'
    · cases h
  | str s =>
    simp only [toInt] at h'
    simp only [laxInt, h', Option.some_or, Option.some.injEq] at h
    exact h.symm
  | _ => cases h

theorem intField_toInt {strict : Bool} {v : Json} {m n : Int} (h : v.intField strict = some m)
    (h' : v.toInt = some n) : m = n := by
  cases strict with
  | false => exact laxInt_toInt h h'
  | true =>
    cases v with
    | int i => exact Option.some.inj (h.symm.trans h')
    | _ => cases h

end Json

/-- `Event.model_validate(o, strict=...)` -/
def validateEvent (strict : Bool) (o : Obj) : Option Event := do
  let v ← (o.getD "v" (.int 1)).intField strict
  let seq ← (o.getD "seq" (.int (-1))).intField strict
  let ts ← (o.getD "ts" (.float 0)).floatField
  let type ← (o.get "type").str?
  let data ← (o.getD "data" (.obj [])).obj?
  let traceId ← (o.get "trace_id").optStrField
  let spanId ← (o.get "span_id").optStrField
  pure { v, seq, ts, type, data, traceId, spanId }

theorem validateEvent_dump (strict : Bool) (e : Event) : validateEvent strict e.dump = some e := by
  have hid : ∀ s, (Event.optStr s).optStrField = some s := by
    rintro (_ | s) <;> rfl
  cases strict <;>
    simp [validateEvent, Event.dump, Obj.get, Obj.getD, List.lookup_cons, Json.intField, Json.int?,
      Json.laxInt, Json.floatField, Json.str?, Json.obj?, hid]

theorem validateEvent_seq {strict : Bool} {o : Obj} {e : Event}
    (h : validateEvent strict o = some e) :
    (o.getD "seq" (.int (-1))).intField strict = some e.seq := by
  simp only [validateEvent, Option.bind_eq_bind, Option.bind_eq_some_iff, Option.pure_def] at h
  obtain ⟨_, _, seq, hseq, _, _, _, _, _, _, _, _, _, _, he⟩ := h
  cases he
  exact hseq

def TextTable.codec (t : TextTable) : Codec where
  loads := t.loads
  dumps := t.dumps
  validate := validateEvent
  sha256 := id
  loads_dumps := by
    intro j text h
    obtain ⟨hj, rfl⟩ := t.dumps_some h
    exact t.loads_print hj
  dumps_self := fun h => (t.tabled_spec (t.dumps_some h).1).1
  dumps_newline := by
    intro j text h
    obtain ⟨hj, rfl⟩ := t.dumps_some h
    exact (t.tabled_spec hj).2.1
  dumps_braces := by
    intro o text h
    obtain ⟨hj, rfl⟩ := t.dumps_some h
    exact (t.tabled_spec hj).2.2
  loads_take := by
    intro o text k h hk
    obtain ⟨hj, rfl⟩ := t.dumps_some h
    exact t.loads_take hj hk
  loads_drop := fun k h => t.loads_line h k
  validate_dump := validateEvent_dump
  validate_no_seq := by
    intro strict o e h hnone
    have hseq := validateEvent_seq h
    rw [Obj.getD, hnone] at hseq
    cases strict <;> exact (Option.some.inj hseq).symm
  validate_seq := by
    intro strict o e v i h hv hi
    have hseq := validateEvent_seq h
    rw [Obj.getD, hv] at hseq
    exact Json.intField_toInt hseq hi

end LoopLab
