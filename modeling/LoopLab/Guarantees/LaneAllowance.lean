import LoopLab.Engine.EvalLanes
import LoopLab.Lib.Custody
import Mathlib.Tactic.Linarith

/-!
# The ceiling on evaluation seconds is overshot by one lane

What is reserved is what the lanes in flight may charge.
-/

set_option autoImplicit false

namespace LoopLab.Engine.EvalLanes
open Lib

/-- The lane an act would start, with what it may charge. -/
def lane : Act → Option Lane
  | .card budget id node _ => some ⟨(id, some node.attempt), evalSecondsEstimate budget (some node)⟩
  | .parallel budget id node _ => some ⟨(id, node.map (·.attempt)), evalSecondsEstimate budget node⟩
  | .serialGrant budget id node => some ⟨(id, some node.attempt), evalSecondsEstimate budget (some node)⟩
  | .serialMissing budget id => some ⟨(id, none), evalSecondsEstimate budget none⟩
  | _ => none

/-- Every lane may charge something. -/
def Positive (act : Act) : Prop := ∀ l, lane act = some l → 0 < l.seconds

/-- A timeout is no longer than what the ceiling leaves beside the charged and the reserved seconds. -/
def Fits (m : Rat) (s : Desk) (timeout : Option Rat) : Prop :=
  ∀ t, timeout = some t → t ≤ m - (s.spent + s.reserved)

/-- The timeouts fit that an act reserves without having asked for them since it last waited. -/
def Covered (m : Rat) (s : Desk) : Act → Prop
  | .parallel _ _ node _ => Fits m s (node.bind (·.governed))
  | .serialGrant budget _ node => Fits m s budget ∧ Fits m s node.governed
  | _ => True

/-- No lane of the lifecycle is in flight, and beside another lane what was not asked for fits. -/
def Meets (m : Rat) (s : Desk) (act : Act) : Prop :=
  (∀ l, lane act = some l → l.key ∉ s.lanes.map (·.key)) ∧ (s.lanes ≠ [] → Covered m s act)

/-- The desks that acts of positive lanes reach, each of which meets the condition. -/
inductive Reached (m : Rat) : Desk → Prop where
  | start : Reached m {}
  | step {s s' : Desk} {act : Act} (h : Reached m s) (hpos : Positive act) (hmeets : Meets m s act)
    (hstep : step (some m) s act = some s') : Reached m s'

/-- The reservations are those of the lanes in flight, one per lifecycle. -/
def Exact (s : Desk) : Prop :=
  (s.lanes.map (·.key)).Nodup ∧ ∀ k v, s.reservations.get k = some v ↔ (⟨k, v⟩ : Lane) ∈ s.lanes

/-- The act asks whether a lane may start; the serial dispatcher asks twice. -/
def Asks (s : Desk) : Act → Prop
  | .card .. | .parallel .. => True
  | .serialAsk _ | .serialMissing .. => s.asked = false
  | .serialGrant .. => s.asked = true
  | _ => False

section Estimate
variable {s : Desk} {m r : Rat} {budget : Option Rat} {node : Option NodeView}

theorem estimate_le_iff (hpos : 0 < evalSecondsEstimate budget node) :
    evalSecondsEstimate budget node ≤ r ↔
      (∀ t, budget = some t → t ≤ r) ∧ ∀ t, node.bind (·.governed) = some t → t ≤ r := by
  unfold evalSecondsEstimate at hpos ⊢
  dsimp only at hpos ⊢
  cases hmax : (budget.toList ++ (node.bind (·.governed)).toList).max? with
  | none =>
    rw [hmax] at hpos
    exact absurd hpos (lt_irrefl _)
  | some x =>
    obtain ⟨hmem, hle⟩ := List.max?_eq_some_iff.mp hmax
    simp only [List.mem_append, Option.mem_toList] at hmem hle
    rw [Option.getD_some]
    constructor
    · intro h
      exact ⟨fun t ht => (hle t (.inl ht)).trans h, fun t ht => (hle t (.inr ht)).trans h⟩
    · rintro ⟨hbudget, hgoverned⟩
      rcases hmem with hmem | hmem
      · exact hbudget x hmem
      · exact hgoverned x hmem

theorem allowed_iff : evalTimeAdmissionRefused s budget node (some m) = false ↔
    s.spent < m ∧ (0 < s.reserved → s.spent + s.reserved + evalSecondsEstimate budget node ≤ m) := by
  unfold evalTimeAdmissionRefused evalTimeAdmissionBlocked
  dsimp only
  by_cases hspent : m ≤ s.spent
  · rw [if_pos hspent]
    exact iff_of_false (by simp) fun h => absurd h.1 (not_lt.mpr hspent)
  · rw [if_neg hspent]
    by_cases hreserved : s.reserved ≤ 0
    · rw [if_pos hreserved]
      exact iff_of_true rfl ⟨not_le.mp hspent, fun h => absurd h (not_lt.mpr hreserved)⟩
    · rw [if_neg hreserved, decide_eq_false_iff_not, not_lt]
      exact ⟨fun h => ⟨not_le.mp hspent, fun _ => h⟩, fun h => h.2 (not_le.mp hreserved)⟩

theorem overCeiling_eq_false_iff : overCeiling (some m) s = false ↔ s.spent < m := by
  simp [overCeiling]

end Estimate

structure Mirrors (s : Desk) : Prop where
  rows : s.reservations.rows = s.lanes.map fun l => (l.key, l.seconds)
  positive : ∀ l ∈ s.lanes, 0 < l.seconds
  inflight : ∀ k ∈ s.inflight, k ∈ s.lanes.map (·.key)

namespace Mirrors
variable {s : Desk} {l : Lane}

theorem keys (h : Mirrors s) : s.reservations.rows.map Prod.fst = s.lanes.map (·.key) := by
  rw [h.rows, List.map_map]
  rfl

theorem nodup (h : Mirrors s) : (s.lanes.map (·.key)).Nodup := by
  rw [← h.keys]
  exact s.reservations.nodup

theorem exact (h : Mirrors s) : Exact s := by
  refine ⟨h.nodup, fun k v => ?_⟩
  rw [← Dict.mem_rows, h.rows, List.mem_map]
  constructor
  · rintro ⟨l, hl, heq⟩
    cases heq
    exact hl
  · intro hl
    exact ⟨⟨k, v⟩, hl, rfl⟩

theorem reserved (h : Mirrors s) : s.reserved = (s.lanes.map (·.seconds)).sum := by
  unfold Desk.reserved
  rw [h.rows, List.map_map]
  rfl

theorem reserved_pos (h : Mirrors s) (hlanes : s.lanes ≠ []) : 0 < s.reserved := by
  rw [h.reserved]
  apply List.sum_pos
  · intro r hr
    obtain ⟨l, hl, rfl⟩ := List.mem_map.mp hr
    exact h.positive l hl
  · simpa using hlanes

theorem reserved_eq_zero (h : Mirrors s) (hlanes : s.lanes = []) : s.reserved = 0 := by
  rw [h.reserved, hlanes]
  rfl

theorem none_of_fresh (h : Mirrors s) (hfresh : l.key ∉ s.lanes.map (·.key)) :
    s.reservations.get l.key = none := by
  by_contra hne
  apply hfresh
  rw [← h.keys]
  exact Dict.mem_keys.mpr hne

theorem rows_reserve (h : Mirrors s) (hpos : 0 < l.seconds) (hfresh : l.key ∉ s.lanes.map (·.key)) :
    (s.reserve l.key l.seconds).reservations.rows = (s.lanes ++ [l]).map fun l => (l.key, l.seconds) := by
  have hnone : Table.get s.reservations l.key = none := by
    simpa [Dict.get] using h.none_of_fresh hfresh
  unfold Desk.reserve Dict.set
  rw [max_eq_right hpos.le, Table.rows_put_of_none hnone, h.rows, List.map_append]
  rfl

theorem start (h : Mirrors s) (hpos : 0 < l.seconds) (hfresh : l.key ∉ s.lanes.map (·.key))
    (spawned : Bool) : Mirrors (s.start l.key l.seconds spawned) := by
  have hrows := h.rows_reserve hpos hfresh
  cases spawned with
  | true =>
    refine ⟨hrows, ?_, ?_⟩
    · intro l' hl'
      rcases List.mem_append.mp hl' with hl' | hl'
      · exact h.positive l' hl'
      · rwa [List.mem_singleton.mp hl']
    · intro k hk
      change k ∈ (s.lanes ++ [l]).map (·.key)
      rw [List.map_append]
      exact List.mem_append_left _ (h.inflight k hk)
  | false =>
    refine ⟨?_, h.positive, h.inflight⟩
    change List.filter _ (s.reserve l.key l.seconds).reservations.rows = s.lanes.map _
    rw [hrows, List.map_append, List.filter_append]
    simp only [List.filter_map, List.map_cons, List.map_nil]
    rw [List.filter_eq_self.mpr, List.filter_eq_nil_iff.mpr, List.append_nil]
    · simp
    · intro l' hl'
      apply decide_eq_true
      intro heq
      exact hfresh (heq ▸ List.mem_map_of_mem hl')

theorem ended (h : Mirrors s) (hl : l ∈ s.lanes) :
    Mirrors { s.release l.key with
      lanes := s.lanes.erase l
      inflight := s.inflight.filter (· ≠ l.key) } := by
  have hlanes : s.lanes.erase l = s.lanes.filter fun l' => decide (l'.key ≠ l.key) := by
    rw [(List.Nodup.of_map _ h.nodup).erase_eq_filter]
    apply List.filter_congr
    intro l' hl'
    by_cases heq : l' = l
    · simp [heq]
    · have hne : l'.key ≠ l.key := fun hkey => heq (List.inj_on_of_nodup_map h.nodup hl' hl hkey)
      simp [heq, hne]
  refine ⟨?_, ?_, ?_⟩
  · change List.filter _ s.reservations.rows = (s.lanes.erase l).map _
    rw [hlanes, h.rows, List.filter_map]
    rfl
  · intro l' hl'
    exact h.positive l' (List.mem_of_mem_erase hl')
  · intro k hk
    obtain ⟨hmem, hne⟩ := List.mem_filter.mp hk
    obtain ⟨l', hl', rfl⟩ := List.mem_map.mp (h.inflight k hmem)
    rw [hlanes]
    exact List.mem_map_of_mem (List.mem_filter.mpr ⟨hl', hne⟩)

end Mirrors

section Steps
variable {s s' : Desk} {m : Rat} {act : Act} {l : Lane}

theorem step_lane (hlane : lane act = some l) (hstep : step (some m) s act = some s') :
    ∃ spawned asked inflight, s' = { s.start l.key l.seconds spawned with asked, inflight } ∧
      ∀ k ∈ inflight, k ∈ s.inflight ∨ spawned = true ∧ k = l.key := by
  cases act <;> cases hlane <;> simp only [step] at hstep
  case card budget id node spawned =>
    split at hstep
    · cases hstep
    · split at hstep
      · cases hstep
      · cases spawned with
        | true =>
          cases hstep
          refine ⟨true, _, s.inflight ++ [(id, some node.attempt)], rfl, ?_⟩
          intro k hk
          rcases List.mem_append.mp hk with hk | hk
          · exact .inl hk
          · exact .inr ⟨rfl, List.mem_singleton.mp hk⟩
        | false =>
          cases hstep
          exact ⟨false, _, _, rfl, fun _ hk => .inl hk⟩
  case parallel budget id node spawned =>
    split at hstep
    · cases hstep
    · split at hstep
      · cases hstep
      · cases hstep
        refine ⟨spawned, s.asked, s.inflight, ?_, fun _ hk => .inl hk⟩
        cases spawned <;> rfl
  case serialGrant budget id node =>
    split at hstep
    · cases hstep
    · cases hstep
      exact ⟨true, _, _, rfl, fun _ hk => .inl hk⟩
  case serialMissing budget id =>
    split at hstep
    · cases hstep
    · cases hstep
      exact ⟨true, _, _, rfl, fun _ hk => .inl hk⟩

theorem mirrors_of_no_lane (h : Mirrors s) (hlane : lane act = none)
    (hstep : step (some m) s act = some s') : Mirrors s' := by
  cases act <;> cases hlane <;> simp only [step] at hstep
  case charge seconds =>
    cases hstep
    exact ⟨h.rows, h.positive, h.inflight⟩
  case serialAsk budget =>
    split at hstep
    · cases hstep
    · cases hstep
      exact ⟨h.rows, h.positive, h.inflight⟩
  case serialSkip =>
    split at hstep
    · cases hstep
      exact ⟨h.rows, h.positive, h.inflight⟩
    · cases hstep
  case ended l =>
    split at hstep
    case isTrue hl =>
      cases hstep
      exact h.ended hl
    case isFalse => cases hstep

theorem mirrors_of_lane (h : Mirrors s) (hlane : lane act = some l) (hpos : 0 < l.seconds)
    (hfresh : l.key ∉ s.lanes.map (·.key)) (hstep : step (some m) s act = some s') : Mirrors s' := by
  obtain ⟨spawned, asked, inflight, rfl, hin⟩ := step_lane hlane hstep
  have hstart := h.start hpos hfresh spawned
  refine ⟨hstart.rows, hstart.positive, ?_⟩
  intro k hk
  rcases hin k hk with hold | ⟨rfl, rfl⟩
  · apply hstart.inflight
    cases spawned <;> exact hold
  · change l.key ∈ (s.lanes ++ [l]).map (·.key)
    simp

theorem mirrors_step (h : Mirrors s) (hpos : Positive act) (hmeets : Meets m s act)
    (hstep : step (some m) s act = some s') : Mirrors s' := by
  cases hlane : lane act with
  | none => exact mirrors_of_no_lane h hlane hstep
  | some l => exact mirrors_of_lane h hlane (hpos l hlane) (hmeets.1 l hlane) hstep

theorem mirrors_of_reached (h : Reached m s) : Mirrors s := by
  induction h with
  | start => exact ⟨rfl, by simp, by simp⟩
  | step _ hpos hmeets hstep ih => exact mirrors_step ih hpos hmeets hstep

theorem fresh_of_exact (hlane : lane act = some l) (hstep : step (some m) s act = some s')
    (h : Exact s') : l.key ∉ s.lanes.map (·.key) := by
  obtain ⟨spawned, asked, inflight, rfl, -⟩ := step_lane hlane hstep
  intro hmem
  cases spawned with
  | true =>
    have hnodup : ((s.lanes ++ [l]).map (·.key)).Nodup := h.1
    rw [List.map_append] at hnodup
    exact (List.nodup_append.mp hnodup).2.2 _ hmem _ (by simp) rfl
  | false =>
    -- the lane that runs lost its row to the one that was never spawned
    obtain ⟨running, hrunning, hkey⟩ := List.mem_map.mp hmem
    have hrow := (h.2 running.key running.seconds).mpr hrunning
    change Dict.get (Table.erase _ l.key) _ = _ at hrow
    rw [Dict.get_erase, if_pos hkey] at hrow
    cases hrow

theorem allowed_of_lane (h : Mirrors s) (hlane : lane act = some l)
    (hstep : step (some m) s act = some s') : s.spent < m ∧
    (s.lanes ≠ [] → match act with
      | .parallel budget _ _ _ => s.spent + s.reserved + evalSecondsEstimate budget none ≤ m
      | .serialGrant .. => True
      | _ => s.spent + s.reserved + l.seconds ≤ m) := by
  cases act <;> cases hlane <;> simp only [step] at hstep
  case card budget id node spawned =>
    split at hstep
    · cases hstep
    · split at hstep
      · cases hstep
      · rename_i hallowed
        obtain ⟨hspent, hfits⟩ := allowed_iff.mp (Bool.eq_false_iff.mpr hallowed)
        exact ⟨hspent, fun hlanes => hfits (h.reserved_pos hlanes)⟩
  case parallel budget id node spawned =>
    split at hstep
    · cases hstep
    · rename_i hallowed
      obtain ⟨hspent, hfits⟩ := allowed_iff.mp (Bool.eq_false_iff.mpr hallowed)
      exact ⟨hspent, fun hlanes => hfits (h.reserved_pos hlanes)⟩
  case serialGrant budget id node =>
    split at hstep
    · cases hstep
    · rename_i hallowed
      have hceiling := (Bool.or_eq_false_iff.mp (Bool.eq_false_iff.mpr hallowed)).2
      exact ⟨overCeiling_eq_false_iff.mp hceiling, fun _ => trivial⟩
  case serialMissing budget id =>
    split at hstep
    · cases hstep
    · rename_i hallowed
      have hrefused := (Bool.or_eq_false_iff.mp (Bool.eq_false_iff.mpr hallowed)).2
      obtain ⟨hspent, hfits⟩ := allowed_iff.mp hrefused
      exact ⟨hspent, fun hlanes => hfits (h.reserved_pos hlanes)⟩

theorem fits_iff (h : Mirrors s) (hlane : lane act = some l) (hpos : 0 < l.seconds)
    (hstep : step (some m) s act = some s') (hlanes : s.lanes ≠ []) :
    s.spent + s.reserved + l.seconds ≤ m ↔ Covered m s act := by
  have hallowed := (allowed_of_lane h hlane hstep).2 hlanes
  have hroom : ∀ x, s.spent + s.reserved + x ≤ m ↔ x ≤ m - (s.spent + s.reserved) := fun x => by
    constructor <;> intro hx <;> linarith
  cases act <;> cases hlane
  case card => exact iff_of_true hallowed trivial
  case serialMissing => exact iff_of_true hallowed trivial
  case serialGrant budget id node => exact (hroom _).trans (estimate_le_iff hpos)
  case parallel budget id node spawned =>
    refine (hroom _).trans ((estimate_le_iff hpos).trans (and_iff_right ?_))
    rintro t rfl
    exact (hroom t).mp hallowed

theorem isSome_step_iff (h : Mirrors s) (hlanes : s.lanes = []) (hasks : Asks s act) :
    (step (some m) s act).isSome ↔ s.spent < m := by
  have hreserved : ¬ 0 < s.reserved := by
    rw [h.reserved_eq_zero hlanes]
    exact lt_irrefl 0
  have hallowed : ∀ budget node,
      evalTimeAdmissionRefused s budget node (some m) = false ↔ s.spent < m := fun budget node =>
    allowed_iff.trans (and_iff_left fun hpos => absurd hpos hreserved)
  have hinflight : s.inflight = [] := by
    apply List.eq_nil_iff_forall_not_mem.mpr
    intro k hk
    have hmem := h.inflight k hk
    rw [hlanes] at hmem
    cases hmem
  cases act
  case charge => cases hasks
  case serialSkip => cases hasks
  case ended => cases hasks
  case card budget id node spawned =>
    rw [← hallowed budget (some node)]
    simp [step, hinflight]
  case parallel budget id node spawned =>
    rw [← hallowed budget none]
    cases hrefused : evalTimeAdmissionRefused s budget none (some m) with
    | true => simp [step, hrefused]
    | false =>
      have hceiling := overCeiling_eq_false_iff.mpr ((hallowed budget none).mp hrefused)
      simp [step, hrefused, hceiling]
  case serialAsk budget =>
    have hasked : s.asked = false := hasks
    rw [← hallowed budget none]
    simp [step, hasked]
  case serialGrant budget id node =>
    have hasked : s.asked = true := hasks
    rw [← overCeiling_eq_false_iff]
    simp [step, hasked]
  case serialMissing budget id =>
    have hasked : s.asked = false := hasks
    rw [← hallowed budget none]
    simp [step, hasked]

theorem spent_of_lane (hlane : lane act = some l) (hstep : step (some m) s act = some s') :
    s'.spent = s.spent := by
  obtain ⟨spawned, asked, inflight, rfl, -⟩ := step_lane hlane hstep
  cases spawned <;> rfl

theorem reserved_of_lane (h : Mirrors s) (hlane : lane act = some l) (hpos : 0 < l.seconds)
    (hfresh : l.key ∉ s.lanes.map (·.key)) (hstep : step (some m) s act = some s') :
    s'.reserved ≤ s.reserved + l.seconds := by
  have hmirrors := mirrors_of_lane h hlane hpos hfresh hstep
  obtain ⟨spawned, asked, inflight, rfl, -⟩ := step_lane hlane hstep
  rw [hmirrors.reserved, h.reserved]
  cases spawned with
  | true =>
    change ((s.lanes ++ [l]).map (·.seconds)).sum ≤ _
    simp
  | false =>
    change (s.lanes.map (·.seconds)).sum ≤ _
    linarith

end Steps

/-- In every run that meets the condition, what is reserved is what the lanes in flight may charge, an
admission keeps that and stays under the ceiling beside another lane exactly when it meets the
condition itself, the ceiling is overshot by less than the lane admitted last, and beside nothing a lane
is admitted while the charged seconds are below the ceiling. -/
theorem lane_allowance (m : Rat) (s : Desk) (h : Reached m s) :
    Exact s ∧
    (∀ act l s', Positive act → lane act = some l → step (some m) s act = some s' →
      (Exact s' ∧ (s.lanes ≠ [] → s.spent + s.reserved + l.seconds ≤ m) ↔ Meets m s act) ∧
      (Meets m s act → s'.spent + s'.reserved < m + l.seconds)) ∧
    ∀ act, s.lanes = [] → Asks s act → ((step (some m) s act).isSome ↔ s.spent < m) := by
  have hm := mirrors_of_reached h
  refine ⟨hm.exact, ?_, fun act hlanes hasks => isSome_step_iff hm hlanes hasks⟩
  intro act l s' hpos hlane hstep
  have hl := hpos l hlane
  have hfits := fits_iff hm hlane hl hstep
  constructor
  · apply and_congr
    · constructor
      · intro hexact l' hl'
        rw [← Option.some.inj (hlane.symm.trans hl')]
        exact fresh_of_exact hlane hstep hexact
      · intro hfresh
        exact (mirrors_of_lane hm hlane hl (hfresh l hlane) hstep).exact
    · exact forall_congr' hfits
  · intro hmeets
    have hreserved := reserved_of_lane hm hlane hl (hmeets.1 l hlane) hstep
    have hspent := (allowed_of_lane hm hlane hstep).1
    rw [spent_of_lane hlane hstep]
    by_cases hlanes : s.lanes = []
    · rw [hm.reserved_eq_zero hlanes] at hreserved
      linarith
    · have hbound := (hfits hlanes).mpr (hmeets.2 hlanes)
      linarith

/-- The first of the two lanes below. -/
def alone : Desk := ({} : Desk).start (0, some 0) (evalSecondsEstimate (some 10) (some ⟨0, none⟩)) true

theorem reached_alone : Reached 25 alone := by
  have hstep : step (some 25) {} (.parallel (some 10) 0 (some ⟨0, none⟩) true) = some alone := by
    simp only [step]
    rw [if_neg, if_neg]
    · rfl
    all_goals decide +kernel
  refine .step .start ?_ ?_ hstep
  · rintro l ⟨rfl⟩
    decide +kernel
  · exact ⟨fun _ _ => List.not_mem_nil, fun hlanes => absurd rfl hlanes⟩

/-- A governed timeout of a minute and a half is reserved in the parallel branch, which had asked for ten
seconds, under a ceiling of twenty five. -/
theorem lane_allowance_governed : ∃ (s s' : Desk) (act : Act) (l : Lane),
    Reached 25 s ∧ Positive act ∧ lane act = some l ∧ step (some 25) s act = some s' ∧ s.lanes ≠ [] ∧
      ¬ s.spent + s.reserved + l.seconds ≤ 25 := by
  refine ⟨alone, _, .parallel (some 10) 1 (some ⟨0, some 90⟩) true, _, reached_alone, ?_, rfl,
    (if_neg (by decide +kernel)).trans (if_neg (by decide +kernel)), List.cons_ne_nil _ _, ?_⟩
  · rintro l ⟨rfl⟩
    decide +kernel
  · decide +kernel

/-- A second lane of ten seconds is reserved beside the first. -/
theorem lane_allowance_alone : ∃ s' : Desk,
    step (some 25) alone (.card (some 10) 1 ⟨0, none⟩ true) = some s' ∧ Exact s' ∧
      alone.spent + alone.reserved + 10 ≤ 25 ∧ s'.spent + s'.reserved < 25 + 10 := by
  have hsome : (step (some 25) alone (.card (some 10) 1 ⟨0, none⟩ true)).isSome := by decide +kernel
  obtain ⟨s', hstep⟩ := Option.isSome_iff_exists.mp hsome
  have hpos : Positive (.card (some 10) 1 ⟨0, none⟩ true) := by
    rintro l ⟨rfl⟩
    decide +kernel
  have hmeets : Meets 25 alone (.card (some 10) 1 ⟨0, none⟩ true) := by
    refine ⟨?_, fun _ => trivial⟩
    rintro l ⟨rfl⟩
    decide +kernel
  have hseconds : evalSecondsEstimate (some 10) (some ⟨0, none⟩) = 10 := by decide +kernel
  obtain ⟨hiff, hover⟩ := (lane_allowance 25 alone reached_alone).2.1 _ _ _ hpos rfl hstep
  obtain ⟨hexact, hbound⟩ := hiff.mpr hmeets
  have hroom := hbound (List.cons_ne_nil _ _)
  have hleft := hover hmeets
  dsimp only at hroom hleft
  rw [hseconds] at hroom hleft
  exact ⟨s', hstep, hexact, hroom, hleft⟩

end LoopLab.Engine.EvalLanes
