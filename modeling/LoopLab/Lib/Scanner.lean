import Mathlib.Data.List.Basic

/-!
# Scanners

A scanner reads a list one entry at a time and stops for good at the first entry it refuses.
-/

set_option autoImplicit false

namespace LoopLab.Lib

universe u v
variable {σ : Type u} {α : Type v} (step : σ → α → Option σ)

/-- Read as long as the entries are accepted: the last state, and the entries left unread. -/
def scan : σ → List α → σ × List α
  | s, [] => (s, [])
  | s, a :: as =>
    match step s a with
    | some s' => scan s' as
    | none => (s, a :: as)

/-- Every entry is accepted, and the scanner ends on `s'`. -/
def Takes (s : σ) (as : List α) (s' : σ) : Prop := as.foldlM step s = some s'

variable {step} {s s' : σ} {a : α} {as bs : List α}

theorem Takes.nil : Takes step s [] s := rfl

theorem takes_cons : Takes step s (a :: as) s' ↔ ∃ m, step s a = some m ∧ Takes step m as s' := by
  simp [Takes, List.foldlM_cons, Option.bind_eq_some_iff]

theorem takes_append :
    Takes step s (as ++ bs) s' ↔ ∃ m, Takes step s as m ∧ Takes step m bs s' := by
  simp [Takes, List.foldlM_append, Option.bind_eq_some_iff]

theorem takes_singleton : Takes step s [a] s' ↔ step s a = some s' := by
  simp [Takes]

theorem Takes.append {m : σ} (h : Takes step s as m) (h' : Takes step m bs s') :
    Takes step s (as ++ bs) s' := takes_append.mpr ⟨m, h, h'⟩

theorem Takes.preserves {P : σ → Prop} (keep : ∀ s a s', P s → step s a = some s' → P s')
    (h : Takes step s as s') (hs : P s) : P s' := by
  induction as generalizing s with
  | nil =>
    cases h
    exact hs
  | cons a as ih =>
    obtain ⟨m, ha, h⟩ := takes_cons.mp h
    exact ih h (keep s a m hs ha)

theorem scan_cons_some (h : step s a = some s') : scan step s (a :: as) = scan step s' as := by
  rw [scan, h]

theorem scan_cons_none (h : step s a = none) : scan step s (a :: as) = (s, a :: as) := by
  rw [scan, h]

theorem Takes.scan_append (h : Takes step s as s') (bs : List α) :
    scan step s (as ++ bs) = scan step s' bs := by
  induction as generalizing s with
  | nil =>
    cases h
    rfl
  | cons a as ih =>
    obtain ⟨m, ha, h⟩ := takes_cons.mp h
    rw [List.cons_append, scan_cons_some ha, ih h]

theorem Takes.scan (h : Takes step s as s') : scan step s as = (s', []) := by
  have := h.scan_append []
  rwa [List.append_nil] at this

end LoopLab.Lib
