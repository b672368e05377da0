import LoopLab.Trace.Encoder
import Mathlib.Data.Finset.Basic
import Mathlib.Tactic.Common

/-!
# The encoder without a call stack writes the ordinary text

What a frame has still to write is a text; those of all frames, one after the other, are what the loop adds to
its output, or it fails where there is no such text or no room for it.
-/

set_option autoImplicit false

namespace LoopLab.Trace

section Writing
variable {maxBytes : Nat} {output : Bytes}

theorem append_nil (h : output.length ≤ maxBytes) : append maxBytes output [] = some output := by
  unfold append
  rw [if_neg (by simpa using h), List.append_nil]

theorem append_append (a b : Bytes) :
    (append maxBytes output a).bind (append maxBytes · b) = append maxBytes output (a ++ b) := by
  unfold append
  by_cases h : maxBytes < output.length + a.length
  · rw [if_pos h, if_pos (by rw [List.length_append]; omega), Option.bind_none]
  · rw [if_neg h, Option.bind_some]
    simp only [List.length_append, List.append_assoc, Nat.add_assoc]

theorem length_append {chunk output' : Bytes} (h : append maxBytes output chunk = some output') :
    output'.length ≤ maxBytes := by
  unfold append at h
  split at h
  · cases h
  · obtain rfl := Option.some.inj h
    rw [List.length_append]
    omega

theorem append_bind {next : Bytes → Option Bytes} {text : Option Bytes} (chunk : Bytes)
    (hnext : ∀ output', output'.length ≤ maxBytes → next output' = text.bind (append maxBytes output')) :
    (append maxBytes output chunk).bind next = (text.map (chunk ++ ·)).bind (append maxBytes output) := by
  have hbind : (append maxBytes output chunk).bind next =
      (append maxBytes output chunk).bind fun output' => text.bind (append maxBytes output') := by
    cases happ : append maxBytes output chunk with
    | none => rfl
    | some output' => exact hnext output' (length_append happ)
  rw [hbind]
  cases text with
  | none =>
    cases append maxBytes output chunk <;> rfl
  | some text => exact append_append chunk text

end Writing

/-! ## What is left to write -/

section Rest
variable {F : Type} (p : Printer F)

def comma (first : Bool) : Bytes := if first then [] else ascii ","

def restOf : Bool → List Bytes → Bytes
  | _, [] => []
  | first, part :: rest => comma first ++ (part ++ restOf false rest)

def Frame.text : Frame F → Option Bytes
  | .value current => encode p current
  | .dict items first _ => (encodeItems p items).map fun parts => restOf first parts ++ ascii "\x7d"
  | .list items first _ => (encodeList p items).map fun parts => restOf first parts ++ ascii "]"

def pending : List (Frame F) → Option Bytes
  | [] => some []
  | frame :: stack => (frame.text p).bind fun text => (pending stack).map (text ++ ·)

theorem intercalate_eq_restOf (parts : List Bytes) : (ascii ",").intercalate parts = restOf true parts := by
  have htail (part : Bytes) (rest : List Bytes) :
      (ascii ",").intercalate (part :: rest) = part ++ restOf false rest := by
    induction rest generalizing part with
    | nil => simp [List.intercalate, restOf]
    | cons next rest ih => rw [List.intercalate_cons_cons, ih]; simp [restOf, comma]
  cases parts with
  | nil => rfl
  | cons part rest => rw [htail]; simp [restOf, comma]

variable {p} {stack : List (Frame F)} {identity : Nat} {first : Bool}

theorem pending_dict (items : List (Key × Value F)) :
    pending p (.value (.dict identity items) :: stack) =
      (pending p (.dict items true identity :: stack)).map (ascii "\x7b" ++ ·) := by
  simp only [pending, Frame.text, encode, enclose, intercalate_eq_restOf]
  cases encodeItems p items with
  | none => rfl
  | some parts => cases pending p stack <;> simp

theorem pending_list (items : List (Value F)) :
    pending p (.value (.list identity items) :: stack) =
      (pending p (.list items true identity :: stack)).map (ascii "[" ++ ·) := by
  simp only [pending, Frame.text, encode, enclose, intercalate_eq_restOf]
  cases encodeList p items with
  | none => rfl
  | some parts => cases pending p stack <;> simp

theorem pending_tuple (items : List (Value F)) :
    pending p (.value (.tuple identity items) :: stack) =
      (pending p (.list items true identity :: stack)).map (ascii "[" ++ ·) := pending_list items

theorem pending_dict_nil :
    pending p (.dict [] first identity :: stack) = (pending p stack).map (ascii "\x7d" ++ ·) := by
  simp only [pending, Frame.text, encodeItems, Option.map_some, Option.bind_some]
  rfl

theorem pending_list_nil :
    pending p (.list [] first identity :: stack) = (pending p stack).map (ascii "]" ++ ·) := by
  simp only [pending, Frame.text, encodeList, Option.map_some, Option.bind_some]
  rfl

theorem pending_list_cons (child : Value F) (items : List (Value F)) :
    pending p (.list (child :: items) first identity :: stack) =
      (pending p (.value child :: .list items false identity :: stack)).map (comma first ++ ·) := by
  simp only [pending, Frame.text, encodeList]
  cases encode p child with
  | none => rfl
  | some part =>
    cases encodeList p items with
    | none => rfl
    | some parts => cases pending p stack <;> simp [restOf]

theorem pending_dict_cons {key : Text} {name : Bytes} (hname : dumpsStr key = some name) (child : Value F)
    (items : List (Key × Value F)) :
    pending p (.dict ((.str key, child) :: items) first identity :: stack) =
      ((((pending p (.value child :: .dict items false identity :: stack)).map (ascii ":" ++ ·)).map
        (name ++ ·)).map (comma first ++ ·)) := by
  simp only [pending, Frame.text, encodeItems, hname, Option.bind_some]
  cases encode p child with
  | none => rfl
  | some part =>
    cases encodeItems p items with
    | none => rfl
    | some parts => cases pending p stack <;> simp [restOf]

theorem pending_dict_bad {key : Text} (hname : dumpsStr key = none) (child : Value F)
    (items : List (Key × Value F)) :
    pending p (.dict ((.str key, child) :: items) first identity :: stack) = none := by
  simp only [pending, Frame.text, encodeItems, hname, Option.bind_none, Option.map_none]

end Rest

/-! ## The containers being written -/

section Standing
variable {F : Type}

mutual

def Clear (active : Finset Nat) : Value F → Prop
  | .list identity items => identity ∉ active ∧ ClearList (insert identity active) items
  | .tuple identity items => identity ∉ active ∧ ClearList (insert identity active) items
  | .dict identity items => identity ∉ active ∧ ClearItems (insert identity active) items
  | .null => True
  | .bool _ => True
  | .int _ => True
  | .float _ => True
  | .str _ => True
  | .other => True

def ClearList (active : Finset Nat) : List (Value F) → Prop
  | [] => True
  | child :: rest => Clear active child ∧ ClearList active rest

def ClearItems (active : Finset Nat) : List (Key × Value F) → Prop
  | [] => True
  | (_, child) :: rest => Clear active child ∧ ClearItems active rest

end

def Standing : Finset Nat → List (Frame F) → Prop
  | _, [] => True
  | active, .value current :: stack => Clear active current ∧ Standing active stack
  | active, .dict items _ identity :: stack =>
    identity ∈ active ∧ ClearItems active items ∧ Standing (active.erase identity) stack
  | active, .list items _ identity :: stack =>
    identity ∈ active ∧ ClearList active items ∧ Standing (active.erase identity) stack

variable {p : Printer F} {maxBytes : Nat} {stack : List (Frame F)} {active : Finset Nat} {output : Bytes}

theorem comma_bind {first : Bool} {next : Bytes → Option Bytes} {text : Option Bytes}
    (h : output.length ≤ maxBytes)
    (hnext : ∀ output', output'.length ≤ maxBytes → next output' = text.bind (append maxBytes output')) :
    (if first then some output else append maxBytes output (ascii ",")).bind next =
      (text.map (comma first ++ ·)).bind (append maxBytes output) := by
  have hcomma : (if first then some output else append maxBytes output (ascii ",")) =
      append maxBytes output (comma first) := by
    cases first with
    | true => exact (append_nil h).symm
    | false => rfl
  rw [hcomma]
  exact append_bind _ hnext

theorem encode_scalar {current : Value F} (hdict : ∀ identity items, current = .dict identity items → False)
    (hlist : ∀ identity items, current = .list identity items → False)
    (htuple : ∀ identity items, current = .tuple identity items → False) : encode p current = dumps p current := by
  cases current with
  | dict identity items => exact (hdict identity items rfl).elim
  | list identity items => exact (hlist identity items rfl).elim
  | tuple identity items => exact (htuple identity items rfl).elim
  | _ => rfl

theorem drain_eq (hstanding : Standing active stack) (hroom : output.length ≤ maxBytes) :
    drain p maxBytes stack active output = (pending p stack).bind (append maxBytes output) := by
  fun_induction drain p maxBytes stack active output with
  | case1 active output =>
    exact (append_nil hroom).symm
  | case2 identity items stack active output hactive =>
    exact absurd hactive hstanding.1.1
  | case3 identity items stack active output hactive ih =>
    obtain ⟨⟨-, hitems⟩, hstack⟩ := hstanding
    rw [pending_dict]
    apply append_bind
    intro output' hroom'
    apply ih output' _ hroom'
    exact ⟨Finset.mem_insert_self _ _, hitems, by rwa [Finset.erase_insert hactive]⟩
  | case4 identity items stack active output hactive =>
    exact absurd hactive hstanding.1.1
  | case5 identity items stack active output hactive ih =>
    obtain ⟨⟨-, hitems⟩, hstack⟩ := hstanding
    rw [pending_list]
    apply append_bind
    intro output' hroom'
    apply ih output' _ hroom'
    exact ⟨Finset.mem_insert_self _ _, hitems, by rwa [Finset.erase_insert hactive]⟩
  | case6 identity items stack active output hactive =>
    exact absurd hactive hstanding.1.1
  | case7 identity items stack active output hactive ih =>
    obtain ⟨⟨-, hitems⟩, hstack⟩ := hstanding
    rw [pending_tuple]
    apply append_bind
    intro output' hroom'
    apply ih output' _ hroom'
    exact ⟨Finset.mem_insert_self _ _, hitems, by rwa [Finset.erase_insert hactive]⟩
  | case8 =>
    rfl
  | case9 current stack active output hdict hlist htuple hother ih =>
    have hencode : encode p current = dumps p current := encode_scalar hdict hlist htuple
    cases hdumps : dumps p current with
    | none => simp only [pending, Frame.text, hencode, hdumps, Option.bind_none]
    | some chunk =>
      simp only [pending, Frame.text, hencode, hdumps, Option.bind_some]
      apply append_bind
      intro output' hroom'
      exact ih output' hstanding.2 hroom'
  | case10 first identity stack active output ih =>
    obtain ⟨hactive, -, hstack⟩ := hstanding
    rw [pending_dict_nil]
    apply append_bind
    intro output' hroom'
    rw [if_pos hactive]
    exact ih output' hstack hroom'
  | case11 =>
    rfl
  | case12 key child items first identity stack active output ih =>
    obtain ⟨hactive, ⟨hchild, hitems⟩, hstack⟩ := hstanding
    cases hname : dumpsStr key with
    | none =>
      rw [pending_dict_bad hname]
      exact Option.bind_fun_none _
    | some name =>
      rw [pending_dict_cons hname]
      apply comma_bind hroom
      intro output₁ hroom₁
      apply append_bind
      intro output₂ hroom₂
      apply append_bind
      intro output₃ hroom₃
      exact ih output₃ ⟨hchild, hactive, hitems, hstack⟩ hroom₃
  | case13 first identity stack active output ih =>
    obtain ⟨hactive, -, hstack⟩ := hstanding
    rw [pending_list_nil]
    apply append_bind
    intro output' hroom'
    rw [if_pos hactive]
    exact ih output' hstack hroom'
  | case14 child items first identity stack active output ih =>
    obtain ⟨hactive, ⟨hchild, hitems⟩, hstack⟩ := hstanding
    rw [pending_list_cons]
    apply comma_bind hroom
    intro output' hroom'
    exact ih output' ⟨hchild, hactive, hitems, hstack⟩ hroom'

end Standing

/-! ## Values -/

section Values
variable {F : Type} {p : Printer F}

def Value.children : Value F → List (Value F)
  | .list _ items => items
  | .tuple _ items => items
  | .dict _ items => items.map Prod.snd
  | _ => []

/-- `id` of a container -/
def Value.identity? : Value F → Option Nat
  | .list identity _ => some identity
  | .tuple identity _ => some identity
  | .dict identity _ => some identity
  | _ => none

/-- A value and all that it holds. -/
inductive Within : Value F → Value F → Prop
  | refl (v : Value F) : Within v v
  | child {u c v : Value F} : c ∈ v.children → Within u c → Within u v

/-- Two containers of one `id` are one object. -/
def Objects (v : Value F) : Prop :=
  ∀ a b, Within a v → Within b v → a.identity?.isSome → a.identity? = b.identity? → a = b

theorem Within.trans {u v w : Value F} (huv : Within u v) (hvw : Within v w) : Within u w := by
  induction hvw with
  | refl => exact huv
  | child hc _ ih => exact .child hc ih

theorem sizeOf_child {c v : Value F} (h : c ∈ v.children) : sizeOf c < sizeOf v := by
  cases v with
  | list identity items =>
    have hlt : sizeOf c < sizeOf items := List.sizeOf_lt_of_mem h
    rw [Value.list.sizeOf_spec]
    omega
  | tuple identity items =>
    have hlt : sizeOf c < sizeOf items := List.sizeOf_lt_of_mem h
    rw [Value.tuple.sizeOf_spec]
    omega
  | dict identity items =>
    obtain ⟨⟨key, child⟩, hmem, rfl⟩ := List.mem_map.mp h
    have hlt := List.sizeOf_lt_of_mem hmem
    rw [Prod.mk.sizeOf_spec] at hlt
    rw [Value.dict.sizeOf_spec]
    show sizeOf child < _
    omega
  | _ => cases h

theorem clearList_iff {active : Finset Nat} {items : List (Value F)} :
    ClearList active items ↔ ∀ child ∈ items, Clear active child := by
  induction items with
  | nil => simp [ClearList]
  | cons child rest ih => simp [ClearList, ih]

theorem clearItems_iff {active : Finset Nat} {items : List (Key × Value F)} :
    ClearItems active items ↔ ∀ child ∈ items.map Prod.snd, Clear active child := by
  induction items with
  | nil => simp [ClearItems]
  | cons item rest ih => simp [ClearItems, ih]

theorem Objects.clear {root : Value F} (hobj : Objects root) (v : Value F) (hv : Within v root)
    (active : Finset Nat) (hactive : ∀ i ∈ active, ∃ a, Within a root ∧ a.identity? = some i ∧ sizeOf v < sizeOf a) :
    Clear active v := by
  have hfresh {identity : Nat} (hid : v.identity? = some identity) : identity ∉ active := by
    intro hmem
    obtain ⟨a, ha, haid, hlt⟩ := hactive identity hmem
    have heq : a = v := hobj a v ha hv (by rw [haid]; rfl) (haid.trans hid.symm)
    rw [heq] at hlt
    exact lt_irrefl _ hlt
  have hchild {identity : Nat} (hid : v.identity? = some identity) (c : Value F) (hc : c ∈ v.children) :
      Clear (insert identity active) c := by
    have hlt := sizeOf_child hc
    apply hobj.clear c (.trans (.child hc (.refl c)) hv)
    intro i hi
    rcases Finset.mem_insert.mp hi with rfl | hmem
    · exact ⟨v, hv, hid, hlt⟩
    · obtain ⟨a, ha, haid, hlt'⟩ := hactive i hmem
      exact ⟨a, ha, haid, hlt.trans hlt'⟩
  cases v with
  | list identity items => exact ⟨hfresh rfl, clearList_iff.mpr (hchild rfl)⟩
  | tuple identity items => exact ⟨hfresh rfl, clearList_iff.mpr (hchild rfl)⟩
  | dict identity items => exact ⟨hfresh rfl, clearItems_iff.mpr (hchild rfl)⟩
  | _ => trivial
termination_by sizeOf v

/-- What has no text of its own: a float that is not finite, an integer of too many digits, a lone surrogate, a
key that is not a string, and every other type. -/
def Unprintable (p : Printer F) : Value F → Prop
  | .float x => p.isFinite x = false
  | .int n => p.maxStrDigits ≠ 0 ∧ p.maxStrDigits < n.natAbs.repr.length
  | .str text => ∃ c ∈ text, ¬c.val.isValidChar
  | .dict _ items => ∃ item ∈ items, item.1 = .other ∨ ∃ key, item.1 = .str key ∧ ∃ c ∈ key, ¬c.val.isValidChar
  | .other => True
  | _ => False

theorem dumpsChar_eq_none_iff (c : Fin 0x110000) : dumpsChar c = none ↔ ¬c.val.isValidChar := by
  have hsmall (h : c.val < 0xD800) : c.val.isValidChar := Or.inl h
  unfold dumpsChar
  split_ifs with h₁ h₂ h₃ h₄ h₅ h₆ h₇ h₈ h₉
  any_goals
    simp only [reduceCtorEq, false_iff, not_not]
    apply hsmall
    first
      | omega
      | (subst c; decide)
  · simp [h₉]
  · simp [h₉]

theorem dumpsStr_eq_none_iff (text : Text) : dumpsStr text = none ↔ ∃ c ∈ text, ¬c.val.isValidChar := by
  unfold dumpsStr
  rw [Option.map_eq_none_iff]
  induction text with
  | nil => simp
  | cons c text ih =>
    simp only [List.mapM_cons, List.mem_cons, exists_eq_or_imp]
    rw [← ih, ← dumpsChar_eq_none_iff]
    cases dumpsChar c with
    | none => simp
    | some chars => cases text.mapM dumpsChar <;> simp

theorem Value.exists_within {v : Value F} {P : Value F → Prop} :
    (∃ u, Within u v ∧ P u) ↔ P v ∨ ∃ c ∈ v.children, ∃ u, Within u c ∧ P u := by
  constructor
  · rintro ⟨u, hu, hP⟩
    cases hu with
    | refl => exact Or.inl hP
    | child hc hu => exact Or.inr ⟨_, hc, u, hu, hP⟩
  · rintro (hP | ⟨c, hc, u, hu, hP⟩)
    · exact ⟨v, .refl v, hP⟩
    · exact ⟨u, .child hc hu, hP⟩

theorem encodeList_eq_none_iff {items : List (Value F)} :
    encodeList p items = none ↔ ∃ c ∈ items, encode p c = none := by
  induction items with
  | nil => simp [encodeList]
  | cons c rest ih =>
    simp only [encodeList, List.mem_cons, exists_eq_or_imp, Option.bind_eq_none_iff, Option.map_eq_none_iff, ih]
    cases encode p c <;> simp

theorem encodeItems_eq_none_iff {items : List (Key × Value F)} :
    encodeItems p items = none ↔
      (∃ item ∈ items, item.1 = .other ∨ ∃ key, item.1 = .str key ∧ ∃ c ∈ key, ¬c.val.isValidChar) ∨
        ∃ c ∈ items.map Prod.snd, encode p c = none := by
  induction items with
  | nil => simp [encodeItems]
  | cons item rest ih =>
    obtain ⟨key, child⟩ := item
    simp only [List.map_cons, List.mem_cons, exists_eq_or_imp]
    cases key with
    | other => simp [encodeItems]
    | str key =>
      simp only [encodeItems, Option.bind_eq_none_iff, Option.map_eq_none_iff, ih, Key.str.injEq, exists_eq_left',
        reduceCtorEq, false_or, ← dumpsStr_eq_none_iff]
      cases dumpsStr key with
      | none => simp
      | some name =>
        cases encode p child with
        | none => simp
        | some part => simp

theorem encode_eq_none_iff (v : Value F) : encode p v = none ↔ ∃ u, Within u v ∧ Unprintable p u := by
  rw [Value.exists_within]
  have hchild (c : Value F) (hc : c ∈ v.children) : encode p c = none ↔ ∃ u, Within u c ∧ Unprintable p u := by
    have hlt := sizeOf_child hc
    exact encode_eq_none_iff c
  have hchildren : (∃ c ∈ v.children, encode p c = none) ↔ ∃ c ∈ v.children, ∃ u, Within u c ∧ Unprintable p u :=
    exists_congr fun c => and_congr_right fun hc => hchild c hc
  rw [← hchildren]
  cases v with
  | list identity items => simp [encode, encodeList_eq_none_iff, Value.children, Unprintable]
  | tuple identity items => simp [encode, encodeList_eq_none_iff, Value.children, Unprintable]
  | dict identity items =>
    simp only [encode, Option.map_eq_none_iff, encodeItems_eq_none_iff]
    rfl
  | str text => simp [encode, dumps, dumpsStr_eq_none_iff, Value.children, Unprintable]
  | int n => simp [encode, dumps, dumpsInt, Value.children, Unprintable]
  | float x => simp [encode, dumps, Value.children, Unprintable]
  | null => simp [encode, dumps, Value.children, Unprintable]
  | bool b => simp [encode, dumps, Value.children, Unprintable]
  | other => simp [encode, Unprintable]
termination_by sizeOf v

theorem ascii_ne_nil {s : String} (h : s ≠ "") : ascii s ≠ [] := by
  unfold ascii
  rw [Ne, List.flatMap_eq_nil_iff]
  intro hall
  apply h
  rw [← String.toList_eq_nil_iff]
  apply List.eq_nil_iff_forall_not_mem.mpr
  intro c hc
  exact String.utf8EncodeChar_ne_nil (hall c hc)

theorem encode_ne_nil {v : Value F} {text : Bytes} (h : encode p v = some text) : text ≠ [] := by
  have henclose (opening closing : String) (parts : List Bytes) (hne : opening ≠ "") :
      enclose opening parts closing ≠ [] := List.append_ne_nil_of_left_ne_nil (ascii_ne_nil hne) _
  cases v with
  | list identity items =>
    obtain ⟨parts, -, rfl⟩ := Option.map_eq_some_iff.mp h
    exact henclose "[" "]" parts (by decide)
  | tuple identity items =>
    obtain ⟨parts, -, rfl⟩ := Option.map_eq_some_iff.mp h
    exact henclose "[" "]" parts (by decide)
  | dict identity items =>
    obtain ⟨parts, -, rfl⟩ := Option.map_eq_some_iff.mp h
    exact henclose "\x7b" "\x7d" parts (by decide)
  | str text' =>
    obtain ⟨chars, -, rfl⟩ := Option.map_eq_some_iff.mp h
    rw [List.append_assoc]
    exact List.append_ne_nil_of_left_ne_nil (ascii_ne_nil (by decide)) _
  | int n =>
    simp only [encode, dumps, dumpsInt] at h
    split at h
    · cases h
    · obtain rfl := Option.some.inj h
      exact List.append_ne_nil_of_right_ne_nil _ (ascii_ne_nil Nat.repr_ne_empty)
  | float x =>
    simp only [encode, dumps] at h
    split at h
    · obtain rfl := Option.some.inj h
      exact ascii_ne_nil (p.repr_ne x)
    · cases h
  | null =>
    obtain rfl := Option.some.inj h
    exact ascii_ne_nil (by decide)
  | bool b =>
    obtain rfl := Option.some.inj h
    cases b
    · exact ascii_ne_nil (by decide)
    · exact ascii_ne_nil (by decide)
  | other => cases h

/-- The loop gives the text of the ordinary encoder where there is one within the limit, and an error
otherwise. -/
theorem traceProjectionJsonBytes_eq_encode (p : Printer F) (v : Value F) (hobj : Objects v) (maxBytes : Int) :
    traceProjectionJsonBytes p v maxBytes =
        (encode p v).bind (fun text => if text.length ≤ maxBytes then some text else none) ∧
      (encode p v = none ↔ ∃ u, Within u v ∧ Unprintable p u) := by
  refine ⟨?_, encode_eq_none_iff v⟩
  unfold traceProjectionJsonBytes
  by_cases hmax : maxBytes ≤ 0
  · rw [if_pos hmax]
    cases htext : encode p v with
    | none => rfl
    | some text =>
      have hpos := List.length_pos_iff.mpr (encode_ne_nil htext)
      rw [Option.bind_some, if_neg (by omega)]
  · rw [if_neg hmax]
    have hclear : Clear ∅ v := hobj.clear v (.refl v) ∅ fun i hi => absurd hi (Finset.notMem_empty i)
    have hstanding : Standing ∅ [.value v] := ⟨hclear, trivial⟩
    rw [drain_eq hstanding (Nat.zero_le _)]
    simp only [pending, Frame.text, Option.map_some, List.append_nil]
    cases encode p v with
    | none => rfl
    | some text =>
      simp only [Option.bind_some, append, List.length_nil, Nat.zero_add, List.nil_append]
      by_cases hlen : (text.length : Int) ≤ maxBytes
      · rw [if_pos hlen, if_neg (by omega)]
      · rw [if_neg hlen, if_pos (by omega)]

end Values

/-- Floats that are whole numbers. -/
def wholePrinter : Printer Nat where
  isFinite _ := true
  repr n := n.repr ++ ".0"
  repr_ne n := by simp
  maxStrDigits := 4300

/-- A list that holds one empty list twice. -/
def sharedList : Value Nat := .list 0 [.list 1 [], .list 1 []]

theorem sharedList_objects : Objects sharedList := by
  have hwithin (a : Value Nat) (ha : Within a sharedList) : a = sharedList ∨ a = .list 1 [] := by
    cases ha with
    | refl => exact Or.inl rfl
    | child hc hu =>
      simp only [sharedList, Value.children, List.mem_cons, List.not_mem_nil, or_false, or_self] at hc
      subst hc
      cases hu with
      | refl => exact Or.inr rfl
      | child hc _ => cases hc
  intro a b ha hb _ hid
  rcases hwithin a ha with rfl | rfl <;> rcases hwithin b hb with rfl | rfl
  · rfl
  · cases hid
  · cases hid
  · rfl

theorem sharedList_text : traceProjectionJsonBytes wholePrinter sharedList 7 = some (ascii "[[],[]]") :=
  (traceProjectionJsonBytes_eq_encode wholePrinter sharedList sharedList_objects 7).1.trans (by decide)

end LoopLab.Trace
