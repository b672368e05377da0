import Mathlib.Data.List.Basic

/-!
# Texts of JSON

The grammar of the texts that a JSON parser accepts, with white space where it may stand.
-/

set_option autoImplicit false

namespace LoopLab.Lib.JsonText

def isBlank (c : Char) : Bool := c = ' ' || c = '\t' || c = '\n' || c = '\r'

abbrev Blank (cs : List Char) : Prop := cs.all isBlank = true

abbrev Digits (cs : List Char) : Prop := cs.all Char.isDigit = true

def isHex (c : Char) : Bool := c.isDigit || ('a' ≤ c && c ≤ 'f') || ('A' ≤ c && c ≤ 'F')

inductive Chars : List Char → Prop
  | nil : Chars []
  | plain {c : Char} {cs : List Char} (hquote : c ≠ '"') (hslash : c ≠ '\\') (hcontrol : 32 ≤ c.toNat) (h : Chars cs) :
      Chars (c :: cs)
  | escape {c : Char} {cs : List Char} (hc : c ∈ ['"', '\\', '/', 'b', 'f', 'n', 'r', 't']) (h : Chars cs) :
      Chars ('\\' :: c :: cs)
  | unicode {hex cs : List Char} (hlen : hex.length = 4) (hhex : hex.all isHex = true) (h : Chars cs) :
      Chars ('\\' :: 'u' :: hex ++ cs)

inductive Whole : List Char → Prop
  | zero : Whole ['0']
  | digits {c : Char} {cs : List Char} (hc : c.isDigit = true) (hne : c ≠ '0') (h : Digits cs) : Whole (c :: cs)

inductive Number : List Char → Prop
  | mk {sign whole fraction exponent : List Char} (hsign : sign ∈ [[], ['-']]) (hwhole : Whole whole)
      (hfraction : fraction = [] ∨ ∃ ds, ds ≠ [] ∧ Digits ds ∧ fraction = '.' :: ds)
      (hexponent : exponent = [] ∨ ∃ e ∈ ['e', 'E'], ∃ s ∈ [[], ['+'], ['-']], ∃ ds, ds ≠ [] ∧ Digits ds ∧
        exponent = e :: (s ++ ds)) :
      Number (sign ++ whole ++ fraction ++ exponent)

mutual

inductive Value : List Char → Prop
  | null : Value ['n', 'u', 'l', 'l']
  | true : Value ['t', 'r', 'u', 'e']
  | false : Value ['f', 'a', 'l', 's', 'e']
  | number {cs : List Char} (h : Number cs) : Value cs
  | string {cs : List Char} (h : Chars cs) : Value ('"' :: cs ++ ['"'])
  | empty {cs : List Char} (h : Blank cs) : Value ('[' :: cs ++ [']'])
  | array {cs : List Char} (h : Items cs) : Value ('[' :: cs ++ [']'])
  | object {cs : List Char} (h : Object cs) : Value cs

inductive Items : List Char → Prop
  | one {before cs after : List Char} (hbefore : Blank before) (h : Value cs) (hafter : Blank after) :
      Items (before ++ cs ++ after)
  | cons {first rest : List Char} (hfirst : Items first) (hrest : Items rest) : Items (first ++ ',' :: rest)

inductive Object : List Char → Prop
  | empty {cs : List Char} (h : Blank cs) : Object ('\x7b' :: cs ++ ['\x7d'])
  | members {cs : List Char} (h : Members cs) : Object ('\x7b' :: cs ++ ['\x7d'])

inductive Members : List Char → Prop
  | one {before name gap pad cs after : List Char} (hbefore : Blank before) (hname : Chars name) (hgap : Blank gap)
      (hpad : Blank pad) (h : Value cs) (hafter : Blank after) :
      Members (before ++ '"' :: name ++ '"' :: gap ++ ':' :: pad ++ cs ++ after)
  | cons {first rest : List Char} (hfirst : Members first) (hrest : Members rest) : Members (first ++ ',' :: rest)

end

theorem toDigits_of_pos (n : Nat) (hn : 0 < n) :
    ∃ c cs, Nat.toDigits 10 n = c :: cs ∧ c.isDigit = true ∧ c ≠ '0' ∧ Digits cs := by
  induction n using Nat.strongRecOn with
  | ind n ih =>
    have hdigit (d : Nat) (hd : d < 10) : d.digitChar.isDigit = true ∧ (d ≠ 0 → d.digitChar ≠ '0') := by
      revert d
      decide
    by_cases hlt : n < 10
    · exact ⟨_, [], Nat.toDigits_of_lt_base hlt, (hdigit n hlt).1, (hdigit n hlt).2 (by omega), rfl⟩
    · obtain ⟨c, cs, heq, hc, hne, hcs⟩ := ih (n / 10) (by omega) (by omega)
      refine ⟨c, cs ++ [(n % 10).digitChar], ?_, hc, hne, ?_⟩
      · rw [Nat.toDigits_of_base_le (by omega) (by omega), heq]
        rfl
      · have hlast := (hdigit (n % 10) (by omega)).1
        simp [Digits, hcs, hlast]

theorem whole_toDigits (n : Nat) : Whole (Nat.toDigits 10 n) := by
  by_cases hn : n = 0
  · rw [hn]
    exact .zero
  · obtain ⟨c, cs, heq, hc, hne, hcs⟩ := toDigits_of_pos n (by omega)
    rw [heq]
    exact .digits hc hne hcs

theorem value_toDigits (n : Nat) : Value (Nat.toDigits 10 n) := by
  have hnumber := @Number.mk [] (Nat.toDigits 10 n) [] [] List.mem_cons_self (whole_toDigits n) (Or.inl rfl) (Or.inl rfl)
  rw [List.nil_append, List.append_nil, List.append_nil] at hnumber
  exact .number hnumber

theorem chars_of_all {cs : List Char} (h : cs.all (fun c => c ≠ '"' && c ≠ '\\' && decide (32 ≤ c.toNat)) = true) : Chars cs := by
  induction cs with
  | nil => exact .nil
  | cons c cs ih =>
    simp only [List.all_cons, Bool.and_eq_true, decide_eq_true_eq] at h
    exact .plain h.1.1.1 h.1.1.2 h.1.2 (ih h.2)

theorem object_of_value {name cs : List Char} (hname : Chars name) (h : Value cs) :
    Object ('\x7b' :: '"' :: name ++ '"' :: ':' :: ' ' :: cs ++ ['\x7d']) := by
  have hmember := @Members.one [] name [] [' '] cs [] rfl hname rfl rfl h rfl
  have hobject := Object.members hmember
  simpa using hobject

end LoopLab.Lib.JsonText
