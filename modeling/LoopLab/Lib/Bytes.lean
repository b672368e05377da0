import Mathlib.Data.Nat.Digits.Lemmas

/-!
# Numbers in bytes, and items of one width

The low byte of a number comes first.
-/

set_option autoImplicit false

universe u

namespace LoopLab.Lib.Bytes

def spell (width n : Nat) : List UInt8 := (List.range width).map fun i => UInt8.ofNat (n / 256 ^ i)

def number (bytes : List UInt8) : Nat := Nat.ofDigits 256 (bytes.map UInt8.toNat)

@[simp] theorem length_spell (width n : Nat) : (spell width n).length = width := by
  unfold spell
  rw [List.length_map, List.length_range]

theorem spell_succ (width n : Nat) : spell (width + 1) n = UInt8.ofNat n :: spell width (n / 256) := by
  unfold spell
  rw [List.range_succ_eq_map, List.map_cons, List.map_map, pow_zero, Nat.div_one]
  apply congrArg
  apply List.map_congr_left
  intro i _
  rw [Function.comp_apply, Nat.div_div_eq_div_mul, Nat.succ_eq_add_one, pow_succ']

theorem number_cons (b : UInt8) (bytes : List UInt8) : number (b :: bytes) = b.toNat + 256 * number bytes :=
  Nat.ofDigits_cons

theorem number_spell {width n : Nat} (h : n < 256 ^ width) : number (spell width n) = n := by
  induction width generalizing n with
  | zero =>
    rw [pow_zero] at h
    obtain rfl : n = 0 := by omega
    rfl
  | succ width ih =>
    have hdiv : n / 256 < 256 ^ width := by
      apply Nat.div_lt_of_lt_mul
      rwa [← pow_succ']
    have hbyte : (UInt8.ofNat n).toNat = n % 256 := rfl
    rw [spell_succ, number_cons, ih hdiv, hbyte, Nat.mod_add_div]

section Items
variable {α : Type u}

/-- The first `count` items of one width. -/
def items (width count : Nat) (xs : List α) : List (List α) := (List.range count).map fun i => (xs.drop (i * width)).take width

theorem items_succ (width count : Nat) (xs : List α) :
    items width (count + 1) xs = xs.take width :: items width count (xs.drop width) := by
  unfold items
  rw [List.range_succ_eq_map, List.map_cons, List.map_map, Nat.zero_mul, List.drop_zero]
  apply congrArg
  apply List.map_congr_left
  intro i _
  rw [Function.comp_apply, List.drop_drop, Nat.succ_mul, Nat.add_comm]

theorem items_flatten {width : Nat} {parts : List (List α)} (h : ∀ p ∈ parts, p.length = width) :
    items width parts.length parts.flatten = parts := by
  induction parts with
  | nil => rfl
  | cons p parts ih =>
    obtain ⟨hp, hparts⟩ := List.forall_mem_cons.mp h
    rw [List.length_cons, items_succ, List.flatten_cons, List.take_left' hp, List.drop_left' hp, ih hparts]

theorem length_flatten {width : Nat} {parts : List (List α)} (h : ∀ p ∈ parts, p.length = width) :
    parts.flatten.length = parts.length * width := by
  induction parts with
  | nil => exact (Nat.zero_mul width).symm
  | cons p parts ih =>
    obtain ⟨hp, hparts⟩ := List.forall_mem_cons.mp h
    rw [List.flatten_cons, List.length_append, hp, ih hparts, List.length_cons, Nat.succ_mul, Nat.add_comm]

end Items

end LoopLab.Lib.Bytes
