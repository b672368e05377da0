import LoopLab.Log.StrictSync
import Mathlib.Tactic.Common

/-!
# Strict syncs are single-flight

The active token belongs to the one call that holds a duplicate or whose worker runs, in every interleaving.
-/

set_option autoImplicit false

namespace LoopLab.StrictSync

@[grind] def WorkerPhase.Runs (p : WorkerPhase) : Prop := p ≠ .absent ∧ p ≠ .ended

/-- A call whose worker runs or whose duplicate is open. -/
def Call.InFlight (call : Call) : Prop := call.worker.Runs ∨ call.closes.length < call.dups

/-- The call has ended, and its worker too. -/
def Call.Over (call : Call) : Prop := (call.phase = .returned ∨ call.phase = .raised) ∧ ¬call.worker.Runs

/-- What holds of the calls of a process at any time. -/
structure SingleFlight (w : World) : Prop where
  one : ∀ c d, (w.calls c).InFlight → (w.calls d).InFlight → c = d
  honest : ∀ c, (w.calls c).phase = .returned →
    (w.calls c).dups = 1 ∧ (w.calls c).syncs = [true] ∧ (w.calls c).closes = [true]
  stalled : ∀ t, w.gate.stalled = some t → w.gate.active = some t ∧ (w.calls t).worker.Runs
  refuses : w.gate.stalled.isSome → ∀ c, (w.calls c).phase = .entering → ∀ overdue, ∃ w',
    w.step c (.enter overdue) = some w' ∧ w'.gate = w.gate ∧ (w'.calls c).phase = .raised ∧ (w'.calls c).dups = 0 ∧
      (w'.calls c).worker = .absent
  quiet : w.gate.stalled.isSome → ∀ c act w', w.step c act = some w' → ∀ d,
    (w'.calls d).dups = (w.calls d).dups ∧ ((w'.calls d).worker = .absent ↔ (w.calls d).worker = .absent)
  woken : w.gate.active = none ∨ w.gate.stalled.isSome → ∀ c, (w.calls c).phase ≠ .waiting false
  ends : ∀ t w', w.step t .workerClear = some w' → w'.gate = ⟨none, none⟩
  proceeds : w.gate.active = none → ∀ c, (w.calls c).phase = .entering → ∀ overdue, ∃ w',
    w.step c (.enter overdue) = some w' ∧ w'.gate.active = some c ∧ (w'.calls c).phase = .acquired
  own : ∀ c act w', w.step c act = some w' → ∀ d, d ≠ c →
    (w'.gate.active = some d ↔ w.gate.active = some d) ∧ (w'.gate.stalled = some d ↔ w.gate.stalled = some d)
  closed : ∀ c, (w.calls c).closes.length ≤ (w.calls c).dups ∧ (w.calls c).dups ≤ 1 ∧
    ((w.calls c).Over → (w.calls c).closes.length = (w.calls c).dups ∧ w.gate.active ≠ some c)

/-- The call has the active token. -/
@[grind] def Call.Holds (call : Call) : Prop :=
  call.phase = .acquired ∨ call.phase = .duplicated ∨ call.phase = .closing ∨ call.phase = .releasing ∨ call.worker.Runs

/-- What the phase of a call says of its duplicate and its worker. -/
@[grind] def Call.Staged (call : Call) : Prop :=
  match call.phase with
  | .entering | .waiting _ | .acquired => call.worker = .absent ∧ call.dups = 0 ∧ call.closes = []
  | .duplicated | .closing => call.worker = .absent ∧ call.dups = 1 ∧ call.closes = []
  | .releasing => call.worker = .absent ∧ call.closes.length = call.dups ∧ call.dups ≤ 1
  | .quarantining | .awaiting | .expired => call.worker ≠ .absent
  | .rechecking => call.worker = .ended
  | .returned => call.worker ≠ .absent ∧ call.done = true ∧ call.failure = []
  | .raised => call.worker = .absent → call.closes.length = call.dups ∧ call.dups ≤ 1

/-- What the phase of a worker says of what it has reported. -/
@[grind] def Call.Reported (call : Call) : Prop :=
  match call.worker with
  | .absent => call.done = false ∧ call.syncs = [] ∧ call.failure = []
  | .syncing => call.done = false ∧ call.dups = 1 ∧ call.syncs = [] ∧ call.closes = [] ∧ call.failure = []
  | .closing => call.done = false ∧ call.dups = 1 ∧ call.closes = [] ∧ (call.failure = [] → call.syncs = [true])
  | .signalling => call.done = false ∧ call.dups = 1 ∧ call.closes.length = 1 ∧
      (call.failure = [] → call.syncs = [true] ∧ call.closes = [true])
  | .clearing | .ended => call.done = true ∧ call.dups = 1 ∧ call.closes.length = 1 ∧
      (call.failure = [] → call.syncs = [true] ∧ call.closes = [true])

/-- A call fits the tokens. -/
structure Call.Fits (token : Nat) (gate : Gate) (call : Call) : Prop where
  staged : call.Staged
  reported : call.Reported
  holds : gate.active = some token ↔ call.Holds
  asleep : call.phase = .waiting false → gate.active ≠ none ∧ gate.stalled = none
  marked : gate.stalled = some token → call.worker.Runs

/-- What a step does to the tokens. -/
inductive Gate.Moves (token : Nat) (gate : Gate) : Gate → Bool → Prop
  | keeps (notify : Bool) : Moves token gate gate notify
  | takes (h : gate.active = none) : Moves token gate { gate with active := some token } false
  | clears (h : gate.active = some token) : Moves token gate ⟨none, none⟩ true
  | stalls (h : gate.active = some token) : Moves token gate { gate with stalled := some token } true

structure World.Sound (w : World) : Prop where
  stalled : ∀ t, w.gate.stalled = some t → w.gate.active = some t
  fits : ∀ c, (w.calls c).Fits c w.gate

section Turn
variable {token : Nat} {gate : Gate} {call : Call} {act : Act} {t : Turn}

theorem clear_moves (hstalled : ∀ t, gate.stalled = some t → gate.active = some t) (h : gate.active = some token) :
    gate.clear token = ⟨none, none⟩ := by
  unfold Gate.clear
  rw [if_pos h]
  cases hs : gate.stalled with
  | none => rfl
  | some u =>
    have hu := hstalled u hs
    rw [h] at hu
    rw [if_pos (congrArg some (Option.some.inj hu).symm)]

theorem stall_of_active (h : gate.active = some token) : gate.stall token = { gate with stalled := some token } := if_pos h

/-- The worker keeps the token until it clears it. -/
theorem workerTurn_spec (hstalled : ∀ t, gate.stalled = some t → gate.active = some t) (h : call.Fits token gate)
    (hturn : call.workerTurn token gate act = some t) :
    gate.Moves token t.gate t.notify ∧ t.call.Fits token t.gate := by
  obtain ⟨hstaged, hreported, hholds, hasleep, hmarked⟩ := h
  unfold Call.workerTurn at hturn
  split at hturn
  all_goals cases hturn
  all_goals
    have hactive : gate.active = some token := by
      rw [hholds]
      simp_all [Call.Holds, WorkerPhase.Runs]
  · refine ⟨.keeps _, ?_⟩
    constructor <;> grind
  · refine ⟨.keeps _, ?_⟩
    constructor <;> grind [List.append_eq_nil_iff]
  · refine ⟨.keeps _, ?_⟩
    constructor <;> grind
  · rw [clear_moves hstalled hactive]
    refine ⟨.clears hactive, ?_⟩
    constructor <;> grind

/-- The caller takes a free token, gives back one that it has, or leaves it to its worker. -/
theorem callerTurn_spec (hstalled : ∀ t, gate.stalled = some t → gate.active = some t) (h : call.Fits token gate)
    (hturn : call.callerTurn token gate act = some t) :
    gate.Moves token t.gate t.notify ∧ t.call.Fits token t.gate := by
  obtain ⟨hstaged, hreported, hholds, hasleep, hmarked⟩ := h
  unfold Call.callerTurn at hturn
  split at hturn
  · split at hturn
    · cases hturn
      refine ⟨.takes ‹_›, ?_⟩
      constructor <;> grind
    · split at hturn
      · cases hturn
        refine ⟨.keeps _, ?_⟩
        constructor <;> grind
      · rename_i hactive hwaits
        have hnone : gate.stalled = none := by
          cases hs : gate.stalled with
          | none => rfl
          | some u => exact absurd (Or.inl (hs.trans (hstalled u hs).symm)) hwaits
        cases hturn
        refine ⟨.keeps _, ?_⟩
        constructor <;> grind
  · split at hturn
    · cases hturn
      refine ⟨.keeps _, ?_⟩
      constructor <;> grind
    · cases hturn
  · cases hturn
    refine ⟨.keeps _, ?_⟩
    constructor <;> grind
  · cases hturn
    refine ⟨.keeps _, ?_⟩
    constructor <;> grind
  · cases hturn
    refine ⟨.keeps _, ?_⟩
    constructor <;> grind
  · cases hturn
    refine ⟨.keeps _, ?_⟩
    constructor <;> grind
  · cases hturn
    refine ⟨.keeps _, ?_⟩
    constructor <;> grind
  · cases hturn
    refine ⟨.keeps _, ?_⟩
    constructor <;> grind
  · have hactive : gate.active = some token := by grind
    cases hturn
    rw [clear_moves hstalled hactive]
    refine ⟨.clears hactive, ?_⟩
    constructor <;> grind
  · cases hturn
    by_cases hactive : gate.active = some token
    · rw [stall_of_active hactive, decide_eq_true hactive]
      refine ⟨.stalls hactive, ?_⟩
      constructor <;> grind
    · rw [Gate.stall, if_neg hactive]
      refine ⟨.keeps _, ?_⟩
      constructor <;> grind
  · split at hturn
    · cases hturn
      refine ⟨.keeps _, ?_⟩
      constructor <;> grind [Call.report]
    · cases hturn
  · cases hturn
    refine ⟨.keeps _, ?_⟩
    constructor <;> grind
  · cases hturn
    refine ⟨.keeps _, ?_⟩
    constructor <;> grind
  · split at hturn
    · rename_i hactive
      cases hturn
      rw [stall_of_active hactive]
      refine ⟨.stalls hactive, ?_⟩
      constructor <;> grind
    · cases hturn
      refine ⟨.keeps _, ?_⟩
      constructor <;> grind
  · cases hturn
    refine ⟨.keeps _, ?_⟩
    constructor <;> grind [Call.report]
  · cases hturn

theorem turn_spec (hstalled : ∀ t, gate.stalled = some t → gate.active = some t) (h : call.Fits token gate)
    (hturn : call.turn token gate act = some t) : gate.Moves token t.gate t.notify ∧ t.call.Fits token t.gate := by
  rcases Option.or_eq_some_iff.mp hturn with hcaller | ⟨-, hworker⟩
  · exact callerTurn_spec hstalled h hcaller
  · exact workerTurn_spec hstalled h hworker

/-- Only a call that has just got the token duplicates a descriptor or starts a thread. -/
theorem turn_quiet (hacquired : call.phase ≠ .acquired) (hduplicated : call.phase ≠ .duplicated)
    (hturn : call.turn token gate act = some t) :
    t.call.dups = call.dups ∧ (t.call.worker = .absent ↔ call.worker = .absent) := by
  rcases Option.or_eq_some_iff.mp hturn with hcaller | ⟨-, hworker⟩
  · unfold Call.callerTurn at hcaller
    grind [Call.report]
  · unfold Call.workerTurn at hworker
    grind

theorem turn_clear (hturn : call.turn token gate .workerClear = some t) :
    call.worker = .clearing ∧ t.gate = gate.clear token := by
  rcases Option.or_eq_some_iff.mp hturn with hcaller | ⟨-, hworker⟩
  · unfold Call.callerTurn at hcaller
    grind
  · unfold Call.workerTurn at hworker
    grind

end Turn

section World
variable {w w' : World} {c : Nat} {act : Act}

theorem Gate.Moves.other {gate gate' : Gate} {token d : Nat} {notify : Bool} (h : gate.Moves token gate' notify)
    (hstalled : ∀ t, gate.stalled = some t → gate.active = some t) (hd : d ≠ token) :
    (gate'.active = some d ↔ gate.active = some d) ∧ (gate'.stalled = some d ↔ gate.stalled = some d) := by
  have hs := hstalled d
  cases h <;> grind

theorem Gate.Moves.stalled {gate gate' : Gate} {token : Nat} {notify : Bool} (h : gate.Moves token gate' notify)
    (hstalled : ∀ t, gate.stalled = some t → gate.active = some t) {t : Nat} (ht : gate'.stalled = some t) :
    gate'.active = some t := by
  cases h with
  | keeps => exact hstalled t ht
  | takes hactive => exact absurd ((hstalled t ht).symm.trans hactive) (Option.some_ne_none t)
  | clears => cases ht
  | stalls hactive => exact hactive.trans ht

/-- Who is woken fits as before, and who is not was not waiting for this step. -/
theorem Call.Fits.other {gate gate' : Gate} {token d : Nat} {notify : Bool} {call : Call} (h : call.Fits d gate)
    (hmoves : gate.Moves token gate' notify) (hstalled : ∀ t, gate.stalled = some t → gate.active = some t) (hd : d ≠ token) :
    (if notify then call.notified else call).Fits d gate' := by
  obtain ⟨hstaged, hreported, hholds, hasleep, hmarked⟩ := h
  obtain ⟨hactive, hother⟩ := hmoves.other hstalled hd
  split
  · unfold Call.notified
    split
    · constructor <;> grind
    · constructor <;> grind
  · refine ⟨hstaged, hreported, hactive.trans hholds, ?_, fun hs => hmarked (hother.mp hs)⟩
    cases hmoves with
    | keeps => exact hasleep
    | takes hnone => exact fun hwaits => absurd hnone (hasleep hwaits).1
    | clears => grind
    | stalls => grind

theorem step_eq (hstep : w.step c act = some w') : ∃ t, (w.calls c).turn c w.gate act = some t ∧ w' = w.after c t := by
  obtain ⟨t, ht, rfl⟩ := Option.map_eq_some_iff.mp hstep
  exact ⟨t, ht, rfl⟩

theorem after_self (w : World) (c : Nat) (t : Turn) : (w.after c t).calls c = t.call := by
  unfold World.after
  dsimp only
  rw [Function.update_self]

theorem after_other (w : World) {c d : Nat} (t : Turn) (h : d ≠ c) :
    (w.after c t).calls d = if t.notify then (w.calls d).notified else w.calls d := by
  unfold World.after
  dsimp only
  rw [Function.update_of_ne h]

theorem World.Sound.step (h : w.Sound) (hstep : w.step c act = some w') : w'.Sound := by
  obtain ⟨t, ht, rfl⟩ := step_eq hstep
  obtain ⟨hmoves, hfits⟩ := turn_spec h.stalled (h.fits c) ht
  constructor
  · intro u hu
    exact hmoves.stalled h.stalled hu
  · intro d
    by_cases hd : d = c
    · subst hd
      rw [after_self]
      exact hfits
    · rw [after_other w t hd]
      exact (h.fits d).other hmoves h.stalled hd

theorem Reachable.sound (h : Reachable w) : w.Sound := by
  induction h with
  | start =>
    constructor
    · intro t ht
      cases ht
    · intro c
      constructor <;> grind
  | step _ hstep ih => exact ih.step hstep

/-- What is in flight has the active token. -/
theorem World.Sound.inFlight (h : w.Sound) (hc : (w.calls c).InFlight) : w.gate.active = some c := by
  obtain ⟨hstaged, hreported, hholds, -, -⟩ := h.fits c
  rw [hholds]
  unfold Call.InFlight at hc
  grind

theorem World.Sound.stalled_runs (h : w.Sound) {t : Nat} (ht : w.gate.stalled = some t) : (w.calls t).worker.Runs :=
  (h.fits t).marked ht

theorem World.Sound.singleFlight (h : w.Sound) : SingleFlight w where
  one c d hc hd := Option.some.inj ((h.inFlight hc).symm.trans (h.inFlight hd))
  honest c hc := by
    have hfits := h.fits c
    have hstaged := hfits.staged
    have hreported := hfits.reported
    grind
  stalled t ht := ⟨h.stalled t ht, h.stalled_runs ht⟩
  refuses hs c hc overdue := by
    obtain ⟨t, ht⟩ := Option.isSome_iff_exists.mp hs
    have hactive := h.stalled t ht
    have hstaged := (h.fits c).staged
    have hturn : (w.calls c).turn c w.gate (.enter overdue) =
        some ⟨{ w.calls c with phase := .raised }, w.gate, false⟩ := by
      unfold Call.turn Call.callerTurn
      rw [hc, hactive, ht]
      simp
    refine ⟨_, congrArg (Option.map (w.after c)) hturn, rfl, ?_⟩
    rw [after_self]
    grind
  quiet hs c act w' hstep d := by
    obtain ⟨t, ht, rfl⟩ := step_eq hstep
    by_cases hd : d = c
    · subst hd
      rw [after_self]
      have hfits := h.fits d
      obtain ⟨u, hu⟩ := Option.isSome_iff_exists.mp hs
      have hactive := h.stalled u hu
      have hstaged := hfits.staged
      have hholds := hfits.holds
      have hmarked := hfits.marked
      exact turn_quiet (by grind) (by grind) ht
    · rw [after_other w t hd]
      split <;> exact ⟨rfl, Iff.rfl⟩
  woken hfree c hc := by
    obtain ⟨hactive, hstalled⟩ := (h.fits c).asleep hc
    rw [hstalled] at hfree
    exact hfree.elim hactive nofun
  ends t w' hstep := by
    obtain ⟨turn, hturn, rfl⟩ := step_eq hstep
    obtain ⟨hclearing, hgate⟩ := turn_clear hturn
    have hholds := (h.fits t).holds
    exact hgate.trans (clear_moves h.stalled (by grind))
  proceeds hfree c hc overdue := by
    have hturn : (w.calls c).turn c w.gate (.enter overdue) =
        some ⟨{ w.calls c with phase := .acquired }, { w.gate with active := some c }, false⟩ := by
      unfold Call.turn Call.callerTurn
      rw [hc]
      dsimp only
      rw [if_pos hfree]
      rfl
    refine ⟨_, congrArg (Option.map (w.after c)) hturn, rfl, ?_⟩
    rw [after_self]
  own c act w' hstep d hd := by
    obtain ⟨t, ht, rfl⟩ := step_eq hstep
    exact (turn_spec h.stalled (h.fits c) ht).1.other h.stalled hd
  closed c := by
    obtain ⟨hstaged, hreported, hholds, -, -⟩ := h.fits c
    unfold Call.Over
    grind

/-- `strict_fsync`, at any time of any interleaving of callers, workers and deadlines. -/
theorem strict_fsync_single_flight (h : Reachable w) : SingleFlight w := h.sound.singleFlight

def World.run (w : World) : List (Nat × Act) → Option World
  | [] => some w
  | (c, act) :: rest => (w.step c act).bind fun w => w.run rest

theorem Reachable.run {steps : List (Nat × Act)} (h : Reachable w) (hrun : w.run steps = some w') : Reachable w' := by
  induction steps generalizing w with
  | nil =>
    obtain rfl := Option.some.inj hrun
    exact h
  | cons s rest ih =>
    obtain ⟨x, hx, hrest⟩ := Option.bind_eq_some_iff.mp hrun
    exact ih (h.step hx) hrest

/-- The first sync blocks past its deadline, and the second call is refused. -/
def blockedSync : List (Nat × Act) :=
  [(0, .enter false), (0, .dup true), (0, .start .started), (1, .enter false), (0, .expire), (0, .giveUp),
    (1, .wake false), (1, .enter false)]

theorem blockedSync_single_flight : ∃ w, World.run {} blockedSync = some w ∧ w.gate.stalled = some 0 ∧
    (w.calls 1).phase = .raised ∧ SingleFlight w := by
  have hrun : (World.run {} blockedSync).map (fun w => (w.gate.stalled, (w.calls 1).phase)) = some (some 0, .raised) := by
    decide
  obtain ⟨w, hw, hends⟩ := Option.map_eq_some_iff.mp hrun
  obtain ⟨hstalled, hraised⟩ := Prod.mk.inj hends
  exact ⟨w, hw, hstalled, hraised, strict_fsync_single_flight (Reachable.start.run hw)⟩

end World

end LoopLab.StrictSync
