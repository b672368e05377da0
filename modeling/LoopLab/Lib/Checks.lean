import Mathlib.Tactic.Basic
import Mathlib.Data.List.Nodup

/-!
# Checks in turn

A computation that fails at its first failed check. Where it succeeds every check has passed.
-/

set_option autoImplicit false

namespace LoopLab.Lib

universe u v
variable {ε : Type u} {α β : Type v}

def failIf (p : Prop) [Decidable p] (e : ε) : Except ε PUnit.{v + 1} := if p then .error e else .ok ⟨⟩

theorem failIf_ok {p : Prop} [Decidable p] {e : ε} {r : PUnit.{v + 1}} : failIf p e = .ok r ↔ ¬p := by
  unfold failIf
  split
  · next hp => exact ⟨nofun, fun hn => absurd hp hn⟩
  · next hn => exact ⟨fun _ => hn, fun _ => rfl⟩

theorem bind_ok {x : Except ε α} {f : α → Except ε β} {b : β} :
    x >>= f = .ok b ↔ ∃ a, x = .ok a ∧ f a = .ok b := by
  cases x with
  | error e => exact ⟨nofun, nofun⟩
  | ok a =>
    constructor
    · exact fun h => ⟨a, rfl, h⟩
    · rintro ⟨a', ha, h⟩
      cases ha
      exact h

theorem map_ok {x : Except ε α} {f : α → β} {b : β} : x.map f = .ok b ↔ ∃ a, x = .ok a ∧ f a = b := by
  cases x with
  | error e => exact ⟨nofun, nofun⟩
  | ok a =>
    constructor
    · exact fun h => ⟨a, rfl, Except.ok.inj h⟩
    · rintro ⟨a', ha, rfl⟩
      cases ha
      rfl

theorem mapError_ok {δ : Type u} {x : Except ε α} {f : ε → δ} {a : α} : x.mapError f = .ok a ↔ x = .ok a := by
  cases x with
  | error e => exact ⟨nofun, nofun⟩
  | ok a' =>
    constructor
    · exact fun h => congrArg Except.ok (Except.ok.inj h)
    · exact fun h => congrArg Except.ok (Except.ok.inj h)

end LoopLab.Lib

/-!
## The first of each kind

A list reduced to the first of its elements of each kind, in their order.
-/

namespace LoopLab.Lib

universe u v
variable {α : Type u} {κ : Type v} [DecidableEq κ]

/-- The first elements of each kind not among `seen`. -/
def firstOfEach (key : α → κ) : List α → List κ → List α
  | [], _ => []
  | a :: rest, seen =>
    if seen.contains (key a) then firstOfEach key rest seen
    else a :: firstOfEach key rest (key a :: seen)

theorem firstOfEach_sublist (key : α → κ) (xs : List α) (seen : List κ) :
    (firstOfEach key xs seen).Sublist xs := by
  induction xs generalizing seen with
  | nil => exact List.Sublist.refl _
  | cons a rest ih =>
    rw [firstOfEach]
    split
    · exact (ih seen).cons a
    · exact (ih (key a :: seen)).cons_cons a

end LoopLab.Lib
