import Mathlib.Data.List.Basic
import Mathlib.Data.List.TakeDrop

/-!
# Claims and receipts

An account is claimed once and closed by one receipt of the same digest.
-/

set_option autoImplicit false

namespace LoopLab.Lib

universe u v

inductive Receipt (D : Type u) (E : Type v) where
  | claim (d : D)
  | terminal (d : D) (e : E)

namespace Receipt
variable {D : Type u} {E : Type v}

def isClaim : Receipt D E → Bool
  | claim _ => true
  | terminal _ _ => false

def event? : Receipt D E → Option E
  | claim _ => none
  | terminal _ e => some e

def isTerminal (r : Receipt D E) : Bool := r.event?.isSome

end Receipt

structure Account (D : Type u) (E : Type v) where
  claim : Option D := none
  terminal : Option E := none
  conflict : Bool := false

section Rules
variable {D : Type u} {E : Type v} (rows : List (Receipt D E))

/-- A second claim, a terminal before any claim, a second terminal, or one of another digest. -/
def Faulty : Prop :=
  2 ≤ rows.countP Receipt.isClaim ∨
    (∃ before d e after, rows = before ++ .terminal d e :: after ∧ ∀ r ∈ before, r.isTerminal = true) ∨
    2 ≤ rows.countP Receipt.isTerminal ∨
    ∃ d d' e, .claim d ∈ rows ∧ .terminal d' e ∈ rows ∧ d ≠ d'

def PaidBy (e : E) : Prop := ∃ d, rows = [.claim d, .terminal d e]

def early : List (Receipt D E) := rows.takeWhile Receipt.isTerminal

def late : List (Receipt D E) := rows.dropWhile Receipt.isTerminal

def Contradicted : List (Receipt D E) → Prop
  | .claim d :: rest => rest ≠ [] ∧ ∀ e, rest ≠ [.terminal d e]
  | _ => False

variable {rows}

theorem late_cases : late rows = [] ∨ ∃ d rest, late rows = .claim d :: rest := by
  cases hlate : late rows with
  | nil => exact .inl rfl
  | cons r rest =>
    have hhead : Receipt.isTerminal r = false := by
      have hfirst := List.head?_dropWhile_not Receipt.isTerminal rows
      unfold late at hlate
      rw [hlate] at hfirst
      exact hfirst
    cases r with
    | claim d => exact .inr ⟨d, rest, rfl⟩
    | terminal d e => cases hhead

theorem early_append_late : early rows ++ late rows = rows := List.takeWhile_append_dropWhile

theorem early_terminal : ∀ r ∈ early rows, r.isTerminal = true := List.all_eq_true.mp List.all_takeWhile

theorem unclaimed_iff :
    (∃ before d e after, rows = before ++ .terminal d e :: after ∧ ∀ r ∈ before, r.isTerminal = true) ↔ early rows ≠ [] := by
  constructor
  · rintro ⟨before, d, e, after, rfl, hbefore⟩ hnone
    unfold early at hnone
    rw [List.takeWhile_append_of_pos hbefore] at hnone
    have hterminal : (Receipt.terminal d e).isTerminal = true := rfl
    rw [List.takeWhile_cons_of_pos hterminal] at hnone
    simp at hnone
  · intro hsome
    obtain ⟨r, rest, hearly⟩ := List.exists_cons_of_ne_nil hsome
    have hr : r.isTerminal = true := early_terminal r (by rw [hearly]; exact List.mem_cons_self)
    cases r with
    | claim d => cases hr
    | terminal d e =>
      refine ⟨[], d, e, rest ++ late rows, ?_, fun _ h => absurd h List.not_mem_nil⟩
      rw [List.nil_append, ← List.cons_append, ← hearly, early_append_late]

end Rules

namespace Account
variable {D : Type u} {E : Type v}

def first (a : Account D E) : Receipt D E → Account D E
  | .claim d => { a with claim := a.claim.or (some d) }
  | .terminal _ e => { a with terminal := a.terminal.or (some e) }

theorem foldl_first (rows : List (Receipt D E)) :
    ∀ a : Account D E, (rows.foldl first a).terminal = a.terminal.or (rows.findSome? Receipt.event?) := by
  induction rows with
  | nil =>
    intro a
    exact (Option.or_none).symm
  | cons r rows ih =>
    intro a
    rw [List.foldl_cons, ih]
    cases r with
    | claim d => rfl
    | terminal d e =>
      show (a.terminal.or (some e)).or _ = a.terminal.or (some e)
      rw [Option.or_assoc, Option.some_or]

theorem foldl_first_conflict (rows : List (Receipt D E)) :
    ∀ a : Account D E, (rows.foldl first a).conflict = a.conflict := by
  induction rows with
  | nil => exact fun _ => rfl
  | cons r rows ih =>
    intro a
    rw [List.foldl_cons, ih]
    cases r <;> rfl

theorem first_claim {a : Account D E} {r : Receipt D E} {d : D} (h : (a.first r).claim = some d) :
    a.claim = some d ∨ r = .claim d := by
  cases r with
  | claim d' =>
    rcases Option.or_eq_some_iff.mp h with h | ⟨-, h⟩
    · exact .inl h
    · exact .inr (congrArg Receipt.claim (Option.some.inj h))
  | terminal d' e => exact .inl h

theorem first_terminal {a : Account D E} {e : E} (h : a.terminal = some e) (r : Receipt D E) :
    (a.first r).terminal = some e := by
  cases r with
  | claim d => exact h
  | terminal d f =>
    show a.terminal.or (some f) = some e
    rw [h]
    rfl

variable [DecidableEq D]

def closed (a : Account D E) : Receipt D E → Account D E
  | .claim d =>
    if a.claim.isSome || a.terminal.isSome then { a with conflict := true } else { a with claim := some d }
  | .terminal d e =>
    match a.claim with
    | none => a
    | some c =>
      if a.terminal.isSome || c ≠ d then { a with conflict := true } else { a with terminal := some e }

def reported (a : Account D E) : Option E := if a.conflict then none else a.terminal

section Steps
variable {a : Account D E}

theorem closed_conflict (h : a.conflict = true) (r : Receipt D E) : (a.closed r).conflict = true := by
  cases r with
  | claim d =>
    unfold closed
    dsimp only
    split
    · rfl
    · exact h
  | terminal d e =>
    unfold closed
    dsimp only
    split
    · exact h
    · split
      · rfl
      · exact h

theorem foldl_closed_conflict (h : a.conflict = true) (rows : List (Receipt D E)) :
    (rows.foldl closed a).conflict = true := by
  induction rows generalizing a with
  | nil => exact h
  | cons r rows ih => exact ih (closed_conflict h r)

theorem closed_terminal {e : E} (h : a.terminal = some e) (r : Receipt D E) : (a.closed r).terminal = some e := by
  cases r with
  | claim d =>
    unfold closed
    dsimp only
    split <;> exact h
  | terminal d f =>
    unfold closed
    dsimp only
    split
    · exact h
    · rw [h, Option.isSome_some, Bool.true_or, if_pos rfl]

theorem closed_claim {r : Receipt D E} {d : D} (h : (a.closed r).claim = some d) : a.claim = some d ∨ r = .claim d := by
  cases r with
  | claim d' =>
    unfold closed at h
    dsimp only at h
    split at h
    · exact .inl h
    · exact .inr (congrArg Receipt.claim (Option.some.inj h))
  | terminal d' e =>
    unfold closed at h
    dsimp only at h
    split at h
    · exact .inl h
    · split at h <;> exact .inl h

theorem foldl_closed_early {rows : List (Receipt D E)} (h : ∀ r ∈ rows, r.isTerminal = true) (ha : a.claim = none) :
    rows.foldl closed a = a := by
  induction rows with
  | nil => rfl
  | cons r rows ih =>
    have hr := h r List.mem_cons_self
    have hrow : a.closed r = a := by
      cases r with
      | claim d => cases hr
      | terminal d e =>
        unfold closed
        rw [ha]
    rw [List.foldl_cons, hrow]
    exact ih fun s hs => h s (List.mem_cons_of_mem _ hs)

theorem foldl_closed_paid (d : D) (e : E) {rows : List (Receipt D E)} (h : rows ≠ []) :
    (rows.foldl closed { claim := some d, terminal := some e }).conflict = true := by
  obtain ⟨r, rest, rfl⟩ := List.exists_cons_of_ne_nil h
  rw [List.foldl_cons]
  apply foldl_closed_conflict
  cases r with
  | claim d' => rfl
  | terminal d' e' => rfl

theorem foldl_closed_claimed (d : D) (rest : List (Receipt D E)) :
    ((rest.foldl closed { claim := some d }).conflict = true ↔ Contradicted (.claim d :: rest)) ∧
      ∀ e, (rest.foldl closed { claim := some d }).conflict = false ∧
        (rest.foldl closed { claim := some d }).terminal = some e ↔ rest = [.terminal d e] := by
  have hover (hconflict : (rest.foldl closed { claim := some d }).conflict = true) (hmore : Contradicted (.claim d :: rest)) :
      ((rest.foldl closed { claim := some d }).conflict = true ↔ Contradicted (.claim d :: rest)) ∧
        ∀ e, (rest.foldl closed { claim := some d }).conflict = false ∧
          (rest.foldl closed { claim := some d }).terminal = some e ↔ rest = [.terminal d e] := by
    refine ⟨iff_of_true hconflict hmore, fun e => iff_of_false ?_ (hmore.2 e)⟩
    rintro ⟨hclear, -⟩
    rw [hconflict] at hclear
    cases hclear
  cases rest with
  | nil =>
    constructor
    · exact iff_of_false Bool.false_ne_true fun h => h.1 rfl
    · exact fun e => iff_of_false (fun h => nomatch h.2) (List.cons_ne_nil _ _).symm
  | cons r rest =>
    cases r with
    | claim d' =>
      apply hover
      · exact foldl_closed_conflict rfl rest
      · exact ⟨List.cons_ne_nil _ _, fun e h => nomatch h⟩
    | terminal d' e' =>
      by_cases hd : d = d'
      · subst hd
        have hstep : closed { claim := some d } (.terminal d e' : Receipt D E) = { claim := some d, terminal := some e' } := by
          simp [closed]
        by_cases hmore : rest = []
        · subst hmore
          rw [List.foldl_cons, List.foldl_nil, hstep]
          constructor
          · exact iff_of_false Bool.false_ne_true fun h => h.2 e' rfl
          · intro e
            constructor
            · rintro ⟨-, h⟩
              rw [Option.some.inj h]
            · intro h
              cases h
              exact ⟨rfl, rfl⟩
        · apply hover
          · rw [List.foldl_cons, hstep]
            exact foldl_closed_paid d e' hmore
          · refine ⟨List.cons_ne_nil _ _, fun e h => ?_⟩
            exact hmore (List.cons.inj h).2
      · apply hover
        · have hstep : (closed { claim := some d } (.terminal d' e' : Receipt D E)).conflict = true := by
            simp [closed, hd]
          exact foldl_closed_conflict hstep rest
        · refine ⟨List.cons_ne_nil _ _, fun e h => ?_⟩
          cases h
          exact hd rfl

end Steps

theorem foldl_closed (rows : List (Receipt D E)) :
    ((rows.foldl closed {}).conflict = true ↔ Contradicted (late rows)) ∧
      ∀ e, (rows.foldl closed {}).reported = some e ↔ ∃ d, late rows = [.claim d, .terminal d e] := by
  have hsplit : rows.foldl closed {} = (late rows).foldl closed ({} : Account D E) := by
    conv => lhs; rw [← @early_append_late _ _ rows, List.foldl_append]
    rw [foldl_closed_early early_terminal rfl]
  have hreported (a : Account D E) (e : E) : a.reported = some e ↔ a.conflict = false ∧ a.terminal = some e := by
    unfold reported
    cases a.conflict <;> simp
  rw [hsplit]
  simp only [hreported]
  rcases late_cases with hlate | ⟨d, rest, hlate⟩
  · rw [hlate]
    constructor
    · exact iff_of_false Bool.false_ne_true id
    · exact fun e => iff_of_false (fun h => nomatch h.2) fun ⟨_, h⟩ => nomatch h
  · rw [hlate]
    obtain ⟨hconflict, hterminal⟩ := foldl_closed_claimed (E := E) d rest
    refine ⟨hconflict, fun e => (hterminal e).trans ⟨?_, ?_⟩⟩
    · rintro rfl
      exact ⟨d, rfl⟩
    · rintro ⟨d', h⟩
      cases h
      rfl

end Account

section Rule
variable {D : Type u} {E : Type v} [DecidableEq D] {rows : List (Receipt D E)}

theorem faulty_claimed (d : D) (rest : List (Receipt D E)) :
    Faulty (.claim d :: rest) ↔ Contradicted (.claim d :: rest) := by
  constructor
  · intro hfault
    have hfirst : early (.claim d :: rest) = ([] : List (Receipt D E)) := rfl
    constructor
    · rintro rfl
      rcases hfault with h | h | h | ⟨d', d'', e, -, h, -⟩
      · simp [List.countP_cons, Receipt.isClaim] at h
      · exact unclaimed_iff.mp h hfirst
      · simp [Receipt.isTerminal, Receipt.event?] at h
      · simp at h
    · rintro e rfl
      rcases hfault with h | h | h | ⟨d', d'', e', hclaim, hterminal, hne⟩
      · simp [List.countP_cons, Receipt.isClaim] at h
      · exact unclaimed_iff.mp h hfirst
      · simp [List.countP_cons, Receipt.isTerminal, Receipt.event?] at h
      · simp only [List.mem_cons, Receipt.claim.injEq, Receipt.terminal.injEq, List.not_mem_nil, or_false, reduceCtorEq,
          false_or] at hclaim hterminal
        exact hne (hclaim.trans hterminal.1.symm)
  · rintro ⟨hsome, hmore⟩
    obtain ⟨r, rest, rfl⟩ := List.exists_cons_of_ne_nil hsome
    cases r with
    | claim d' =>
      refine .inl ?_
      simp [List.countP_cons, Receipt.isClaim]
    | terminal d' e =>
      by_cases hd : d = d'
      · subst hd
        have hrest : rest ≠ [] := fun hnil => hmore e (by rw [hnil])
        obtain ⟨r, rest, rfl⟩ := List.exists_cons_of_ne_nil hrest
        cases r with
        | claim d' =>
          refine .inl ?_
          simp [List.countP_cons, Receipt.isClaim]
        | terminal d' e' =>
          refine .inr (.inr (.inl ?_))
          simp [List.countP_cons, Receipt.isTerminal, Receipt.event?]
      · exact .inr (.inr (.inr ⟨d, d', e, by simp, by simp, hd⟩))

/-- The account is conflicted just where a rule is broken, and reports just the terminal that pays its one
claim, if and only if no terminal comes before the first claim, or more than one matching terminal follows it. -/
theorem closed_rule :
    (((rows.foldl Account.closed {}).conflict = true ↔ Faulty rows) ∧
      ∀ e, (rows.foldl Account.closed {}).reported = some e ↔ PaidBy rows e) ↔
    early rows = [] ∨ Contradicted (late rows) := by
  obtain ⟨hconflict, hreported⟩ := Account.foldl_closed rows
  by_cases hearly : early rows = []
  · have hlate : late rows = rows := by
      conv => rhs; rw [← @early_append_late _ _ rows, hearly, List.nil_append]
    refine iff_of_true ⟨?_, ?_⟩ (.inl hearly)
    · rw [hconflict, hlate]
      rcases late_cases with hnil | ⟨d, rest, hcons⟩
      · rw [hlate] at hnil
        subst hnil
        refine iff_of_false id ?_
        rintro (h | ⟨before, d, e, after, h, -⟩ | h | ⟨d, d', e, h, -⟩)
        · cases h
        · cases before <;> cases h
        · cases h
        · cases h
      · rw [hlate] at hcons
        rw [hcons]
        exact (faulty_claimed d rest).symm
    · intro e
      rw [hreported e, hlate]
      rfl
  · have hfaulty : Faulty rows := .inr (.inl (unclaimed_iff.mpr hearly))
    have hunpaid (e : E) : ¬ PaidBy rows e := by
      rintro ⟨d, rfl⟩
      exact hearly rfl
    constructor
    · rintro ⟨hrule, -⟩
      exact .inr (hconflict.mp (hrule.mpr hfaulty))
    · rintro (h | hmore)
      · exact absurd h hearly
      · refine ⟨iff_of_true (hconflict.mpr hmore) hfaulty, fun e => iff_of_false ?_ (hunpaid e)⟩
        rw [hreported e]
        rintro ⟨d, h⟩
        rw [h] at hmore
        exact hmore.2 e rfl

end Rule

end LoopLab.Lib
