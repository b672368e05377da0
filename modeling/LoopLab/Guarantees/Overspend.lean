import LoopLab.Llm.RunBudget
import Mathlib.Tactic.Linarith

/-!
# Concurrent calls do not overspend the budget of a run

What is reserved is what the calls in flight hold, whoever reserves, releases, commits and adopts in between.
-/

set_option autoImplicit false

namespace LoopLab.Llm
open Lib

namespace Figure

variable {f : Figure} {q : Rat}

theorem spend_nonneg (h : f.spend = some q) : 0 ≤ q := by
  cases f with
  | absent | unbounded => exact (Option.some.inj h).le
  | unreadable => cases h
  | finite value =>
    rw [← Option.some.inj h]
    split
    · exact le_refl 0
    · rename_i hneg
      exact not_lt.mp hneg

def tighten (held : Option Rat) (f : Figure) : Option Rat :=
  f.cap.elim held fun c => some (held.elim c (min c))

theorem cap_pos (h : f.cap = some q) : 0 < q := by
  cases f with
  | absent | unbounded | unreadable => cases h
  | finite value =>
    unfold cap at h
    dsimp only at h
    split at h
    · cases h
    · rename_i hpos
      rw [← Option.some.inj h]
      exact not_le.mp hpos

theorem tighten_comm (held : Option Rat) (f g : Figure) : tighten (tighten held f) g = tighten (tighten held g) f := by
  unfold tighten
  cases f.cap with
  | none => rfl
  | some c =>
    cases g.cap with
    | none => rfl
    | some e =>
      cases held with
      | none => exact congrArg some (min_comm e c)
      | some m => exact congrArg some (min_left_comm e c m)

end Figure

theorem runUsdCeiling_pos {costLimit budgetUsd : Figure} {limit : Rat}
    (h : (runUsdCeiling costLimit budgetUsd).1 = some limit) : 0 < limit := by
  unfold runUsdCeiling at h
  split at h
  · cases h
  · rename_i hb _
    cases h
    exact Figure.cap_pos hb
  · rename_i hc
    cases h
    exact Figure.cap_pos hc
  · rename_i hb hc
    split at h
    · cases h
      exact Figure.cap_pos hc
    · cases h
      exact Figure.cap_pos hb

namespace RunBudget

variable {b after : RunBudget}

/-- Committed and reserved spend together are under the ceilings in force. -/
def Within (b : RunBudget) : Prop :=
  (∀ limit, b.costLimit = some limit → b.committedCost + b.reservedCost ≤ limit) ∧
    ∀ limit, b.tokenLimit = some limit → b.committedTokens + b.reservedTokens ≤ limit

def Admits (b : RunBudget) : Prop :=
  b.costRefusal b.estimate.cost = none ∧ b.tokenRefusal b.estimate.tokens = none

theorem Admits.within (h : b.Admits) : (b.hold b.estimate).Within := by
  obtain ⟨hcost, htokens⟩ := h
  constructor
  · intro limit (hlimit : b.costLimit = some limit)
    unfold costRefusal at hcost
    rw [hlimit, Option.bind_some] at hcost
    split at hcost
    · cases hcost
    · rename_i hover
      have hle := not_lt.mp (not_or.mp hover).2
      rwa [add_assoc] at hle
  · intro limit (hlimit : b.tokenLimit = some limit)
    unfold tokenRefusal at htokens
    rw [hlimit, Option.bind_some] at htokens
    split at htokens
    · cases htokens
    · rename_i hover
      have hle := not_lt.mp (not_or.mp hover).2
      rwa [add_assoc] at hle

theorem reserve_cases (b : RunBudget) :
    (b.Admits ∧ b.reserve = (.ok (some b.estimate), b.hold b.estimate)) ∨
      b.reserve = (.ok none, b) ∨
      ∃ refusal, b.reserve = (.error refusal, { b with refusals := b.refusals + 1 }) := by
  unfold reserve
  split
  · cases hrefusal : (b.costRefusal b.estimate.cost).or (b.tokenRefusal b.estimate.tokens) with
    | some refusal => exact .inr (.inr ⟨refusal, rfl⟩)
    | none => exact .inl ⟨Option.or_eq_none_iff.mp hrefusal, rfl⟩
  · exact .inr (.inl rfl)

structure Grown (b after : RunBudget) : Prop where
  costLimit : after.costLimit = b.costLimit
  tokenLimit : after.tokenLimit = b.tokenLimit
  reservedCost : after.reservedCost = b.reservedCost
  reservedTokens : after.reservedTokens = b.reservedTokens
  reservations : after.reservations = b.reservations
  committedCost : b.committedCost ≤ after.committedCost
  committedTokens : b.committedTokens ≤ after.committedTokens

namespace Grown

theorem refl (b : RunBudget) : Grown b b := ⟨rfl, rfl, rfl, rfl, rfl, le_refl _, le_refl _⟩

theorem trans {last : RunBudget} (h : Grown b after) (h' : Grown after last) : Grown b last where
  costLimit := h'.costLimit.trans h.costLimit
  tokenLimit := h'.tokenLimit.trans h.tokenLimit
  reservedCost := h'.reservedCost.trans h.reservedCost
  reservedTokens := h'.reservedTokens.trans h.reservedTokens
  reservations := h'.reservations.trans h.reservations
  committedCost := h.committedCost.trans h'.committedCost
  committedTokens := h.committedTokens.trans h'.committedTokens

end Grown

theorem commit_grown {delta : Delta} (h : b.commit delta = some after) : Grown b after := by
  obtain ⟨cost, hcost, h⟩ := Option.bind_eq_some_iff.mp h
  obtain ⟨tokens, -, h⟩ := Option.bind_eq_some_iff.mp h
  obtain ⟨calls, -, h⟩ := Option.bind_eq_some_iff.mp h
  obtain ⟨priced, -, h⟩ := Option.bind_eq_some_iff.mp h
  cases h
  refine ⟨rfl, rfl, rfl, rfl, rfl, ?_, ?_⟩
  · exact le_add_of_nonneg_right (Figure.spend_nonneg hcost)
  · exact le_add_of_nonneg_right (le_max_left 0 tokens)

theorem commitAll_grown (b : RunBudget) (deltas : List Delta) : Grown b (commitAll b deltas).2 := by
  induction deltas generalizing b with
  | nil => exact .refl b
  | cons delta deltas ih =>
    unfold commitAll
    cases hcommit : b.commit delta with
    | none => exact .refl b
    | some after => exact (commit_grown hcommit).trans (ih after)

theorem seed_grown (b : RunBudget) (deltas : List Delta) : Grown b (b.seed deltas).2 := by
  unfold seed
  split
  · exact .refl b
  · have hall := commitAll_grown { b with seeded := true } deltas
    exact ⟨hall.costLimit, hall.tokenLimit, hall.reservedCost, hall.reservedTokens, hall.reservations,
      hall.committedCost, hall.committedTokens⟩

theorem adopt_eq (b : RunBudget) (limit : Figure) (knob : String) :
    ∃ name, (b.adoptCostCeiling limit knob).2 =
      { b with costLimit := limit.tighten b.costLimit, costKnob := name } := by
  unfold adoptCostCeiling Figure.tighten
  cases limit.cap with
  | none => exact ⟨b.costKnob, rfl⟩
  | some c =>
    dsimp only
    cases hheld : b.costLimit with
    | none => exact ⟨_, rfl⟩
    | some m =>
      by_cases hle : m ≤ c
      · refine ⟨b.costKnob, ?_⟩
        rw [Option.any_some, decide_eq_true hle, Option.elim_some, Option.elim_some, min_eq_right hle, ← hheld]
        rfl
      · refine ⟨if knob = "" then defaultCostKnob else knob, ?_⟩
        rw [Option.any_some, decide_eq_false hle, Option.elim_some, Option.elim_some, min_eq_left (le_of_not_ge hle)]
        rfl

end RunBudget

universe u
variable {κ : Type u} [DecidableEq κ]

def Holding.pending (h : Holding) : Rat := if h.committed then 0 else h.reservation.cost

/-- What the committed calls cost above what they had reserved. -/
def Desk.overrun (d : Desk κ) : Rat := (d.booked.map fun b => max 0 (b.actual - b.estimate)).sum

/-- The budget reserves what its callers hold. -/
structure Exact (d : Desk κ) : Prop where
  cost : d.budget.reservedCost = d.held.total (·.reservation.cost)
  tokens : d.budget.reservedTokens = d.held.total (·.reservation.tokens)
  count : d.budget.reservations = d.held.total fun _ => (1 : Int)

structure Signed (d : Desk κ) : Prop where
  cost : 0 ≤ d.budget.committedCost
  tokens : 0 ≤ d.budget.committedTokens
  held : ∀ call h, d.held.get call = some h → 0 ≤ h.reservation.cost ∧ 0 ≤ h.reservation.tokens

/-- A call that commits has a reservation under which it did not commit yet, and nothing is seeded. -/
def Own (d : Desk κ) : Act κ → Prop
  | .commit call _ => ∃ h ∈ d.held.get call, h.committed = false
  | .seed _ => False
  | _ => True

instance (d : Desk κ) (act : Act κ) : Decidable (Own d act) :=
  match act with
  | .commit call _ => inferInstanceAs (Decidable (∃ h ∈ d.held.get call, h.committed = false))
  | .seed _ => .isFalse id
  | .reserve _ | .release _ | .adopt .. => .isTrue trivial

/-- Every act of a run is one of those. -/
def OwnRun (d : Desk κ) : List (Act κ) → Prop
  | [] => True
  | act :: acts => Own d act ∧ ∀ d' ∈ step d act, OwnRun d' acts

instance decidableOwnRun : ∀ (acts : List (Act κ)) (d : Desk κ), Decidable (OwnRun d acts)
  | [], _ => .isTrue trivial
  | act :: acts, d =>
    have (d' : Desk κ) : Decidable (OwnRun d' acts) := decidableOwnRun acts d'
    inferInstanceAs (Decidable (Own d act ∧ ∀ d' ∈ step d act, OwnRun d' acts))

/-- The ceilings that the acts of a run declare. -/
def adopted (acts : List (Act κ)) : List Figure :=
  acts.filterMap fun
    | .adopt limit _ => some limit
    | _ => none

section Step
variable {d d' : Desk κ} {call : κ} {act : Act κ}

theorem step_reserve (h : step d (.reserve call) = some d') :
    d.held.get call = none ∧
      ((∃ n, d' = { d with budget := { d.budget with refusals := n } }) ∨
        d.budget.Admits ∧ d' = { d with
          budget := d.budget.hold d.budget.estimate
          held := d.held.set call ⟨d.budget.estimate, false⟩ }) := by
  unfold step at h
  dsimp only at h
  split at h
  · cases h
  · rename_i hfree
    refine ⟨Option.not_isSome_iff_eq_none.mp hfree, ?_⟩
    rcases d.budget.reserve_cases with ⟨hadmits, heq⟩ | heq | ⟨refusal, heq⟩
    · rw [heq] at h
      exact .inr ⟨hadmits, (Option.some.inj h).symm⟩
    · rw [heq] at h
      exact .inl ⟨d.budget.refusals, (Option.some.inj h).symm⟩
    · rw [heq] at h
      exact .inl ⟨d.budget.refusals + 1, (Option.some.inj h).symm⟩

theorem step_release (h : step d (.release call) = some d') :
    ∃ held, d.held.get call = some held ∧
      d' = { d with budget := d.budget.release held.reservation, held := Table.erase d.held call } := by
  obtain ⟨held, hheld, rfl⟩ := Option.map_eq_some_iff.mp h
  exact ⟨held, hheld, rfl⟩

def marked (d : Desk κ) (call : κ) : Dict κ Holding :=
  (d.held.get call).elim d.held fun h => d.held.set call { h with committed := true }

theorem step_commit {delta : Delta} (h : step d (.commit call delta) = some d') :
    d' = d ∨ ∃ after, d.budget.commit delta = some after ∧
      d' = ⟨after, marked d call, d.booked ++ [bookedFor d call d.budget after]⟩ := by
  unfold step at h
  dsimp only at h
  split at h
  · exact .inl (Option.some.inj h).symm
  · rename_i after hafter
    exact .inr ⟨after, hafter, (Option.some.inj h).symm⟩

theorem get_marked {k : κ} {h : Holding} (hget : (marked d call).get k = some h) :
    ∃ held, d.held.get k = some held ∧ held.reservation = h.reservation := by
  unfold marked at hget
  cases hcall : d.held.get call with
  | none =>
    rw [hcall] at hget
    exact ⟨h, hget, rfl⟩
  | some held =>
    rw [hcall, Option.elim_some, Dict.get_set] at hget
    split at hget
    · rename_i hk
      cases hget
      exact ⟨held, hk ▸ hcall, rfl⟩
    · exact ⟨h, hget, rfl⟩

theorem total_marked {M : Type} [AddCommGroup M] (weight : Reservation → M) :
    (marked d call).total (fun h => weight h.reservation) = d.held.total fun h => weight h.reservation := by
  unfold marked
  cases hcall : d.held.get call with
  | none => rfl
  | some held => exact add_right_cancel (Dict.total_set_of_get (a := ⟨held.reservation, true⟩) hcall)

end Step

section Invariant
variable {d d' : Desk κ} {act : Act κ}

theorem Exact.of_grown {after : RunBudget} (h : Exact d) (hgrown : d.budget.Grown after) :
    Exact { d with budget := after } where
  cost := hgrown.reservedCost.trans h.cost
  tokens := hgrown.reservedTokens.trans h.tokens
  count := hgrown.reservations.trans h.count

theorem Signed.of_grown {after : RunBudget} (h : Signed d) (hgrown : d.budget.Grown after) :
    Signed { d with budget := after } where
  cost := h.cost.trans hgrown.committedCost
  tokens := h.tokens.trans hgrown.committedTokens
  held := h.held

theorem Signed.estimate (h : Signed d) : 0 ≤ d.budget.estimate.cost ∧ 0 ≤ d.budget.estimate.tokens := by
  unfold RunBudget.estimate
  constructor
  · dsimp only
    split
    · rename_i hpriced
      exact div_nonneg h.cost (Int.cast_nonneg hpriced.le)
    · exact le_refl 0
  · dsimp only
    split
    · rename_i hcalls
      exact Int.ediv_nonneg h.tokens hcalls.le
    · exact le_refl 0

theorem Exact.release (h : Exact d) (hsigned : Signed d) {call : κ} {held : Holding}
    (hheld : d.held.get call = some held) :
    d.budget.release held.reservation = { d.budget with
      reservedCost := d.budget.reservedCost - held.reservation.cost
      reservedTokens := d.budget.reservedTokens - held.reservation.tokens
      reservations := d.budget.reservations - 1 } := by
  have hrest {k : κ} {h : Holding} (hk : Dict.get (Table.erase d.held call) k = some h) : d.held.get k = some h := by
    rw [Dict.get_erase] at hk
    split at hk
    · cases hk
    · exact hk
  have hcost : 0 ≤ d.budget.reservedCost - held.reservation.cost := by
    rw [h.cost, Dict.total_of_get hheld, add_sub_cancel_left]
    exact Dict.total_nonneg fun k h hk => (hsigned.held k h (hrest hk)).1
  have htokens : 0 ≤ d.budget.reservedTokens - held.reservation.tokens := by
    rw [h.tokens, Dict.total_of_get hheld, add_sub_cancel_left]
    exact Dict.total_nonneg fun k h hk => (hsigned.held k h (hrest hk)).2
  have hcount : 0 ≤ d.budget.reservations - 1 := by
    rw [h.count, Dict.total_of_get hheld, add_sub_cancel_left]
    exact Dict.total_nonneg fun _ _ _ => zero_le_one
  unfold RunBudget.release
  rw [max_eq_right hcost, max_eq_right htokens, max_eq_right hcount]

theorem step_signed (h : Signed d) (hstep : step d act = some d') : Signed d' := by
  cases act with
  | reserve call =>
    obtain ⟨-, ⟨n, rfl⟩ | ⟨-, rfl⟩⟩ := step_reserve hstep
    · exact ⟨h.cost, h.tokens, h.held⟩
    · refine ⟨h.cost, h.tokens, fun k held hk => ?_⟩
      dsimp only at hk
      rw [Dict.get_set] at hk
      split at hk
      · cases hk
        exact h.estimate
      · exact h.held k held hk
  | release call =>
    obtain ⟨-, -, rfl⟩ := step_release hstep
    refine ⟨h.cost, h.tokens, fun k held hk => ?_⟩
    dsimp only at hk
    rw [Dict.get_erase] at hk
    split at hk
    · cases hk
    · exact h.held k held hk
  | commit call delta =>
    obtain rfl | ⟨after, hafter, rfl⟩ := step_commit hstep
    · exact h
    · have hgrown := h.of_grown (RunBudget.commit_grown hafter)
      refine ⟨hgrown.cost, hgrown.tokens, fun k held hk => ?_⟩
      obtain ⟨old, hold, heq⟩ := get_marked hk
      rw [← heq]
      exact h.held k old hold
  | seed deltas =>
    cases hstep
    exact h.of_grown (d.budget.seed_grown deltas)
  | adopt limit knob =>
    cases hstep
    obtain ⟨name, heq⟩ := d.budget.adopt_eq limit knob
    rw [heq]
    exact ⟨h.cost, h.tokens, h.held⟩

theorem step_exact (h : Exact d) (hsigned : Signed d) (hstep : step d act = some d') : Exact d' := by
  cases act with
  | reserve call =>
    obtain ⟨hfree, ⟨n, rfl⟩ | ⟨-, rfl⟩⟩ := step_reserve hstep
    · exact ⟨h.cost, h.tokens, h.count⟩
    · constructor
      · rw [Dict.total_set_of_none hfree, ← h.cost]
        exact add_comm _ _
      · rw [Dict.total_set_of_none hfree, ← h.tokens]
        exact add_comm _ _
      · rw [Dict.total_set_of_none hfree, ← h.count]
        exact add_comm _ _
  | release call =>
    obtain ⟨held, hheld, rfl⟩ := step_release hstep
    rw [h.release hsigned hheld]
    constructor
    · exact sub_eq_of_eq_add' (h.cost.trans (Dict.total_of_get hheld))
    · exact sub_eq_of_eq_add' (h.tokens.trans (Dict.total_of_get hheld))
    · exact sub_eq_of_eq_add' (h.count.trans (Dict.total_of_get hheld))
  | commit call delta =>
    obtain rfl | ⟨after, hafter, rfl⟩ := step_commit hstep
    · exact h
    · have hgrown := h.of_grown (RunBudget.commit_grown hafter)
      constructor
      · exact hgrown.cost.trans (total_marked (·.cost)).symm
      · exact hgrown.tokens.trans (total_marked (·.tokens)).symm
      · exact hgrown.count.trans (total_marked fun _ => (1 : Int)).symm
  | seed deltas =>
    cases hstep
    exact h.of_grown (d.budget.seed_grown deltas)
  | adopt limit knob =>
    cases hstep
    obtain ⟨name, heq⟩ := d.budget.adopt_eq limit knob
    rw [heq]
    exact ⟨h.cost, h.tokens, h.count⟩

theorem step_limits (hstep : step d act = some d') :
    d'.budget.tokenLimit = d.budget.tokenLimit ∧
      d'.budget.costLimit = (adopted [act]).foldl Figure.tighten d.budget.costLimit := by
  cases act with
  | reserve call =>
    obtain ⟨-, ⟨n, rfl⟩ | ⟨-, rfl⟩⟩ := step_reserve hstep
    · exact ⟨rfl, rfl⟩
    · exact ⟨rfl, rfl⟩
  | release call =>
    obtain ⟨-, -, rfl⟩ := step_release hstep
    exact ⟨rfl, rfl⟩
  | commit call delta =>
    obtain rfl | ⟨after, hafter, rfl⟩ := step_commit hstep
    · exact ⟨rfl, rfl⟩
    · have hgrown := RunBudget.commit_grown hafter
      exact ⟨hgrown.tokenLimit, hgrown.costLimit⟩
  | seed deltas =>
    cases hstep
    have hgrown := d.budget.seed_grown deltas
    exact ⟨hgrown.tokenLimit, hgrown.costLimit⟩
  | adopt limit knob =>
    cases hstep
    obtain ⟨name, heq⟩ := d.budget.adopt_eq limit knob
    rw [heq]
    exact ⟨rfl, rfl⟩

/-- A ceiling in force stays in force, or gives way to a tighter one. -/
def Tighter (old new : Option Rat) : Prop := ∀ limit, old = some limit → ∃ tighter ≤ limit, new = some tighter

theorem tighter_tighten (held : Option Rat) (f : Figure) : Tighter held (f.tighten held) := by
  rintro limit rfl
  unfold Figure.tighten
  cases f.cap with
  | none => exact ⟨limit, le_refl _, rfl⟩
  | some c => exact ⟨min c limit, min_le_right .., rfl⟩

theorem step_tighter (hstep : step d act = some d') : Tighter d.budget.costLimit d'.budget.costLimit := by
  rw [(step_limits hstep).2]
  cases act with
  | adopt limit knob => exact tighter_tighten d.budget.costLimit limit
  | reserve | release | commit | seed => exact fun limit hlimit => ⟨limit, le_refl _, hlimit⟩

end Invariant

section Run
variable {d d' : Desk κ} {acts : List (Act κ)}

theorem run_cons {act : Act κ} (h : run d (act :: acts) = some d') :
    ∃ mid, step d act = some mid ∧ run mid acts = some d' := by
  unfold run at h
  rw [List.foldlM_cons] at h
  exact Option.bind_eq_some_iff.mp h

theorem run_sound (hexact : Exact d) (hsigned : Signed d) (h : run d acts = some d') : Exact d' ∧ Signed d' := by
  induction acts generalizing d with
  | nil =>
    cases h
    exact ⟨hexact, hsigned⟩
  | cons act acts ih =>
    obtain ⟨mid, hstep, hrun⟩ := run_cons h
    exact ih (step_exact hexact hsigned hstep) (step_signed hsigned hstep) hrun

theorem run_limits (h : run d acts = some d') :
    d'.budget.costLimit = (adopted acts).foldl Figure.tighten d.budget.costLimit := by
  induction acts generalizing d with
  | nil =>
    cases h
    rfl
  | cons act acts ih =>
    obtain ⟨mid, hstep, hrun⟩ := run_cons h
    have hadopted : adopted (act :: acts) = adopted [act] ++ adopted acts := by
      unfold adopted
      rw [← List.filterMap_append, List.singleton_append]
    rw [ih hrun, (step_limits hstep).2, hadopted, List.foldl_append]

end Run

section Overspend
variable {limit : Rat} {d d' : Desk κ} {act : Act κ} {acts : List (Act κ)}

structure Bounded (limit : Rat) (d : Desk κ) : Prop where
  held : ∃ tighter ≤ limit, d.budget.costLimit = some tighter
  spend : d.budget.committedCost + d.held.total Holding.pending ≤ limit + d.overrun

theorem Desk.overrun_nonneg (d : Desk κ) : 0 ≤ d.overrun := by
  apply List.sum_nonneg
  intro x hx
  obtain ⟨b, -, rfl⟩ := List.mem_map.mp hx
  exact le_max_left ..

theorem Signed.pending (h : Signed d) : ∀ call held, d.held.get call = some held → 0 ≤ held.pending := by
  intro call held hheld
  unfold Holding.pending
  split
  · exact le_refl 0
  · exact (h.held call held hheld).1

theorem Exact.pending_le (h : Exact d) (hsigned : Signed d) :
    d.held.total Holding.pending ≤ d.budget.reservedCost := by
  rw [h.cost]
  apply Dict.total_le_total
  intro call held hheld
  unfold Holding.pending
  split
  · exact (hsigned.held call held hheld).1
  · exact le_refl _

theorem Bounded.commit (h : Bounded limit d) {call : κ} {held : Holding} (hheld : d.held.get call = some held)
    (hfirst : held.committed = false) {after : RunBudget} (hgrown : d.budget.Grown after) :
    Bounded limit ⟨after, marked d call, d.booked ++ [bookedFor d call d.budget after]⟩ := by
  refine ⟨hgrown.costLimit ▸ h.held, ?_⟩
  have hmarked : (marked d call).total Holding.pending + held.reservation.cost = d.held.total Holding.pending := by
    have htrade : (d.held.set call ⟨held.reservation, true⟩).total Holding.pending + held.pending =
        d.held.total Holding.pending + Holding.pending ⟨held.reservation, true⟩ := Dict.total_set_of_get hheld
    have hpending : held.pending = held.reservation.cost := by simp [Holding.pending, hfirst]
    have hdone : Holding.pending ⟨held.reservation, true⟩ = 0 := rfl
    rw [hpending, hdone, add_zero] at htrade
    unfold marked
    rw [hheld]
    exact htrade
  have hover : (⟨after, marked d call, d.booked ++ [bookedFor d call d.budget after]⟩ : Desk κ).overrun =
      d.overrun + max 0 (after.committedCost - d.budget.committedCost - held.reservation.cost) := by
    unfold Desk.overrun bookedFor
    rw [List.map_append, List.sum_append, List.map_singleton, List.sum_singleton, hheld, Option.elim_some, hfirst,
      if_neg Bool.false_ne_true]
  have hexcess := le_max_right 0 (after.committedCost - d.budget.committedCost - held.reservation.cost)
  have hspend := h.spend
  rw [hover]
  change after.committedCost + (marked d call).total Holding.pending ≤ _
  linarith

theorem step_bounded (h : Bounded limit d) (hexact : Exact d) (hsigned : Signed d) (hown : Own d act)
    (hstep : step d act = some d') : Bounded limit d' := by
  obtain ⟨tighter, hle, hlimit⟩ := h.held
  cases act with
  | reserve call =>
    obtain ⟨hfree, ⟨n, rfl⟩ | ⟨hadmits, rfl⟩⟩ := step_reserve hstep
    · exact ⟨h.held, h.spend⟩
    · refine ⟨⟨tighter, hle, hlimit⟩, ?_⟩
      have hwithin : d.budget.committedCost + (d.budget.reservedCost + d.budget.estimate.cost) ≤ tighter :=
        hadmits.within.1 tighter hlimit
      have hpending := hexact.pending_le hsigned
      have hover := d.overrun_nonneg
      dsimp only
      rw [Dict.total_set_of_none hfree]
      change d.budget.committedCost + (d.budget.estimate.cost + d.held.total Holding.pending) ≤ limit + d.overrun
      linarith
  | release call =>
    obtain ⟨held, hheld, rfl⟩ := step_release hstep
    refine ⟨⟨tighter, hle, hlimit⟩, ?_⟩
    have hrest : d.held.total Holding.pending = held.pending + Dict.total Holding.pending (Table.erase d.held call) :=
      Dict.total_of_get hheld
    have hpending := hsigned.pending call held hheld
    have hspend := h.spend
    change d.budget.committedCost + _ ≤ limit + d.overrun
    linarith
  | commit call delta =>
    obtain ⟨held, hheld, hfirst⟩ := hown
    obtain rfl | ⟨after, hafter, rfl⟩ := step_commit hstep
    · exact h
    · exact h.commit hheld hfirst (RunBudget.commit_grown hafter)
  | seed deltas => exact hown.elim
  | adopt adoptedLimit knob =>
    cases hstep
    obtain ⟨name, heq⟩ := d.budget.adopt_eq adoptedLimit knob
    rw [heq]
    obtain ⟨new, hnew, hheld⟩ := tighter_tighten d.budget.costLimit adoptedLimit tighter hlimit
    exact ⟨⟨new, hnew.trans hle, hheld⟩, h.spend⟩

theorem run_bounded (h : Bounded limit d) (hexact : Exact d) (hsigned : Signed d) (hown : OwnRun d acts)
    (hrun : run d acts = some d') : Bounded limit d' := by
  induction acts generalizing d with
  | nil =>
    cases hrun
    exact h
  | cons act acts ih =>
    obtain ⟨mid, hstep, hrest⟩ := run_cons hrun
    exact ih (step_bounded h hexact hsigned hown.1 hstep) (step_exact hexact hsigned hstep)
      (step_signed hsigned hstep) (hown.2 mid hstep) hrest

end Overspend

section Fresh
variable (costLimit tokenLimit budgetUsd : Figure)

/-- A budget as it is constructed, with nothing reserved. -/
def fresh : Desk κ := { budget := .init costLimit tokenLimit budgetUsd }

theorem fresh_exact : Exact (fresh costLimit tokenLimit budgetUsd : Desk κ) := ⟨rfl, rfl, rfl⟩

theorem fresh_signed : Signed (fresh costLimit tokenLimit budgetUsd : Desk κ) where
  cost := le_refl 0
  tokens := le_refl 0
  held := by
    intro call h hget
    cases hget

theorem fresh_bounded {limit : Rat} (h : (runUsdCeiling costLimit budgetUsd).1 = some limit) :
    Bounded limit (fresh costLimit tokenLimit budgetUsd : Desk κ) where
  held := ⟨limit, le_refl _, h⟩
  spend := by
    change 0 + (0 : Rat) ≤ limit + 0
    rw [zero_add, add_zero]
    exact (runUsdCeiling_pos h).le

end Fresh

/-- What a budget does after any run of its callers' acts from its construction. -/
theorem reserved_never_overspent (costLimit tokenLimit budgetUsd : Figure) (acts : List (Act κ)) {d : Desk κ}
    (h : run (fresh costLimit tokenLimit budgetUsd) acts = some d) :
    Exact d ∧
      (∀ call held, d.held.get call = some held →
        d.budget.release held.reservation = { d.budget with
          reservedCost := d.budget.reservedCost - held.reservation.cost
          reservedTokens := d.budget.reservedTokens - held.reservation.tokens
          reservations := d.budget.reservations - 1 }) ∧
      (∀ r after, d.budget.reserve = (.ok (some r), after) → after.Within) ∧
      (∀ refusal after, d.budget.reserve = (.error refusal, after) →
        after = { d.budget with refusals := d.budget.refusals + 1 }) ∧
      (∀ act d', step d act = some d' →
        d'.budget.tokenLimit = d.budget.tokenLimit ∧ Tighter d.budget.costLimit d'.budget.costLimit) ∧
      (∀ (acts' : List (Act κ)) d', run (fresh costLimit tokenLimit budgetUsd) acts' = some d' →
        (adopted acts').Perm (adopted acts) → d'.budget.costLimit = d.budget.costLimit) ∧
      ∀ limit, (runUsdCeiling costLimit budgetUsd).1 = some limit →
        OwnRun (fresh costLimit tokenLimit budgetUsd) acts →
          d.budget.committedCost ≤ limit + d.overrun := by
  have hexact := fresh_exact (κ := κ) costLimit tokenLimit budgetUsd
  have hsigned := fresh_signed (κ := κ) costLimit tokenLimit budgetUsd
  obtain ⟨hd, hd'⟩ := run_sound hexact hsigned h
  refine ⟨hd, fun call held hheld => hd.release hd' hheld, ?_, ?_, ?_, ?_, ?_⟩
  · intro r after hreserve
    rcases d.budget.reserve_cases with ⟨hadmits, heq⟩ | heq | ⟨refusal, heq⟩
    · rw [heq] at hreserve
      cases hreserve
      exact hadmits.within
    · rw [heq] at hreserve
      cases hreserve
    · rw [heq] at hreserve
      cases hreserve
  · intro refusal after hreserve
    rcases d.budget.reserve_cases with ⟨-, heq⟩ | heq | ⟨refusal', heq⟩
    · rw [heq] at hreserve
      cases hreserve
    · rw [heq] at hreserve
      cases hreserve
    · rw [heq] at hreserve
      cases hreserve
      rfl
  · intro act d' hstep
    exact ⟨(step_limits hstep).1, step_tighter hstep⟩
  · intro acts' d' hrun hperm
    rw [run_limits hrun, run_limits h]
    exact hperm.foldl_eq' (fun f _ g _ held => Figure.tighten_comm held f g) _
  · intro limit hlimit hown
    have hbounded := run_bounded (fresh_bounded costLimit tokenLimit budgetUsd hlimit) hexact hsigned hown h
    have hpending : 0 ≤ d.held.total Holding.pending := Dict.total_nonneg hd'.pending
    have hspend := hbounded.spend
    linarith

/-- Two calls reserve at once, and the second one costs more than its estimate; a third is refused. -/
def overspentActs : List (Act Nat) :=
  [.reserve 0, .commit 0 ⟨.finite 4, .finite 100, .finite 1, .finite 1⟩, .release 0, .reserve 1, .reserve 2,
    .adopt (.finite 9) "llm_budget_usd", .commit 1 ⟨.finite 7, .finite 80, .finite 1, .finite 1⟩, .release 1,
    .reserve 3]

theorem overspent_by_its_excess :
    ∃ d, run (fresh (.finite 12) .absent .absent) overspentActs = some d ∧
      d.budget.reservedCost = 4 ∧ d.budget.refusals = 1 ∧ d.budget.committedCost = 11 ∧ d.overrun = 7 ∧
      d.budget.committedCost ≤ 12 + d.overrun := by
  obtain ⟨d, hrun⟩ := Option.isSome_iff_exists.mp
    (by decide +kernel : (run (fresh (.finite 12) .absent .absent) overspentActs).isSome = true)
  have hfacts : (run (fresh (.finite 12) .absent .absent) overspentActs).all (fun d =>
      decide (d.budget.reservedCost = 4 ∧ d.budget.refusals = 1 ∧ d.budget.committedCost = 11 ∧ d.overrun = 7)) =
        true := by decide +kernel
  rw [hrun, Option.all_some] at hfacts
  obtain ⟨hreserved, hrefusals, hcommitted, hoverrun⟩ := of_decide_eq_true hfacts
  refine ⟨d, hrun, hreserved, hrefusals, hcommitted, hoverrun, ?_⟩
  apply (reserved_never_overspent (.finite 12) .absent .absent overspentActs hrun).2.2.2.2.2.2 12
  · decide +kernel
  · decide +kernel

end LoopLab.Llm
