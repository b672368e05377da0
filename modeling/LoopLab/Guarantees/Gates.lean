import LoopLab.Stages.CommandEval
import Mathlib.Algebra.Order.Ring.Unbundled.Rat

/-!
# An admitted measurement passed its gates

What the tail of an evaluation answers has passed every gate that is declared.
-/

set_option autoImplicit false

namespace LoopLab.CommandEval
open Lib

/-! ## What is claimed of a result -/

section Claims
variable (rd : Readers) (spec : EvalSpec) (stages : List Stage) (startStage : Option String)

/-- The stage is declared with a command. -/
def hasCommand (i : Nat) : Bool := (stages[i]?).any (·.command ≠ [])

/-- The rows of a result are the stages it went through. -/
structure RowsSound (r : RunResult) : Prop where
  declared : ∃ n, n ≤ stages.length ∧
    (r.stages.getD []).map StageRow.stage = (List.range n).filter (hasCommand stages) ∧
    (r.failedStage = none → r.stages ≠ none → n = stages.length) ∧
    (r.failedStage ≠ none → ∃ row, (r.stages.getD []).getLast? = some row ∧ row.stage + 1 = n)
  names : ∀ row ∈ r.stages.getD [], (stages[row.stage]?).map (Stage.label · row.stage) = some row.name
  reused : ∀ row ∈ r.stages.getD [], row.status = .reused ↔ row.stage < reusedStageCount stages startStage
  passed : ∀ row ∈ (r.stages.getD []).dropLast, row.status.passed = true
  failed : ∀ name, r.failedStage = some name ↔
    ∃ row, (r.stages.getD []).getLast? = some row ∧ row.status.passed = false ∧ row.name = name

/-- The evaluation loop takes the number. -/
def Admitted (r : RunResult) : Prop :=
  r.metric ≠ none ∧ r.timedOut = false ∧ (r.exitCode = 0 ∨ r.stalled = true)

/-- What the single command path answers for the output and the signals of a result, under the floor
of the attempt. -/
def singleCommand (r : RunResult) : RunResult :=
  (readResult rd spec
    { rc := r.exitCode, out := r.stdout, err := r.stderr, timedOut := r.timedOut, stalled := r.stalled
      diverged := r.diverged } (attemptFreshnessFloor rd stages startStage)).result

/-- Every gate was asked, and its answer stands in the result. -/
structure GatesSound (e : Evaluated) : Prop where
  read : ∀ c ∈ spec.constraints, .constraint c ∈ e.asked
  unmet : ∀ c ∈ spec.constraints,
    let value := rd.readMetric e.result.stdout c (attemptFreshnessFloor rd stages startStage)
    unmet c value = true → violationOf c value ∈ e.result.violations.getD []
  corroborated : spec.enforceDrift = true → ∀ x, spec.crossCheck = some x → .crossCheck x ∈ e.asked ∧
    ∀ m, e.result.metric = some m →
      drifts rd m (rd.readMetric e.result.stdout x (attemptFreshnessFloor rd stages startStage)) = false
  metric : e.result.metric = (singleCommand rd spec stages startStage e.result).metric
  violations : e.result.violations = (singleCommand rd spec stages startStage e.result).violations
  drift : e.result.drift = (singleCommand rd spec stages startStage e.result).drift
  extras : e.result.extraMetrics = (singleCommand rd spec stages startStage e.result).extraMetrics ∧
    e.result.extraMetricsProvenance =
      (singleCommand rd spec stages startStage e.result).extraMetricsProvenance ∧
    e.result.extraMetricsDirection =
      (singleCommand rd spec stages startStage e.result).extraMetricsDirection

/-- A result of an evaluation is what it says. -/
structure EvalSound (e : Evaluated) : Prop where
  rows : RowsSound stages startStage e.result
  gates : Admitted e.result → GatesSound rd spec stages startStage e

end Claims

/-! ## Where it holds -/

section Conditions
variable (rd : Readers) (spec : EvalSpec) (stages : List Stage) (startStage : Option String)
variable (outcomes : Nat → Outcome)

/-- No stage that is reused is declared without a command. -/
def ReusedRun : Prop := ∀ i, i < reusedStageCount stages startStage → hasCommand stages i = true

/-- The stage is run and passes all it declares. -/
def Passes (i : Nat) (stg : Stage) (o : Outcome) : Prop :=
  refusedBefore i stg o = none ∧ o.timedOut = false ∧ o.exitCode = 0 ∧ refusedBehind i stg o = none ∧
    hitsCeiling stg o = false

/-- The pipeline reaches its last stage, which prints a number and hangs. -/
structure HangsLast (i : Nat) (stg : Stage) : Prop where
  last : stages[i]? = some stg ∧ i + 1 = stages.length
  run : stg.command ≠ [] ∧ reusedStageCount stages startStage ≤ i
  before : ∀ j s, j < i → reusedStageCount stages startStage ≤ j → stages[j]? = some s → s.command ≠ [] →
    Passes j s (outcomes j)
  starts : refusedBefore i stg (outcomes i) = none
  hangs : (outcomes i).timedOut = false ∧ (outcomes i).exitCode ≠ 0 ∧ (outcomes i).stalled = true ∧
    (outcomes i).diverged = false
  prints : rd.readMetric (outcomes i).out spec.metric (some rd.evalStarted) ≠ none

/-- Nothing but the number is declared, and nothing else is found. -/
structure Ungated (out : String) : Prop where
  constraints : spec.constraints = []
  crossCheck : spec.enforceDrift = true → spec.crossCheck = none
  readers : spec.metrics.rows.any (isAdapter ·.2) = false
  declared : declaredExtras rd spec out false (attemptFreshnessFloor rd stages startStage) = []
  auto : autoExtras rd spec out false = []

end Conditions

/-! ## The tail -/

section Tail
variable {rd : Readers} {spec : EvalSpec} {since : Option Rat} {out : String}

theorem orNone_eq_none {α : Type} {xs : List α} : orNone xs = none ↔ xs = [] := by
  unfold orNone
  split
  · rename_i h
    simpa using h
  · rename_i h
    simpa using h

theorem orNone_getD {α : Type} (xs : List α) : (orNone xs).getD [] = xs := by
  unfold orNone
  split
  · rename_i h
    simpa using h.symm
  · rfl

theorem corroborate_spec {m : Option Rat} {v : Rat} (h : (corroborate rd spec out m since).1 = some v) :
    m = some v ∧ (spec.enforceDrift = true → ∀ x, spec.crossCheck = some x →
      drifts rd v (rd.readMetric out x since) = false) := by
  unfold corroborate at h
  split at h
  · rename_i primary cross hcross
    dsimp only at h
    split at h
    · cases h
    · rename_i hdrift
      cases h
      refine ⟨rfl, ?_⟩
      intro henforced x hx
      have hasked : askedCrossCheck spec (some v) = some x := by
        unfold askedCrossCheck
        rw [henforced]
        exact hx
      rw [hasked] at hcross
      cases hcross
      simpa using hdrift
  · rename_i hnone
    dsimp only at h
    subst h
    refine ⟨rfl, ?_⟩
    intro henforced x hx
    have hasked : askedCrossCheck spec (some v) = some x := by
      unfold askedCrossCheck
      rw [henforced]
      exact hx
    exact absurd hasked (hnone v x rfl)

end Tail

/-! ## One stage -/

section Stages
variable {rd : Readers} {spec : EvalSpec} {last : Bool} {i : Nat} {stg : Stage} {o : Outcome} {run : EvalRun}

theorem refusedBefore_row {row : StageRow} {exitCode : Int} {message : String}
    (h : refusedBefore i stg o = some (row, exitCode, message)) :
    row.stage = i ∧ row.name = stg.label i ∧ row.status.passed = false := by
  unfold refusedBefore at h
  dsimp only at h
  split at h
  · cases h
    exact ⟨rfl, rfl, rfl⟩
  · split at h
    · cases h
      exact ⟨rfl, rfl, rfl⟩
    · obtain ⟨problem, -, heq⟩ := Option.map_eq_some_iff.mp h
      cases heq
      exact ⟨rfl, rfl, rfl⟩

theorem refusedBehind_row {row : StageRow} {message : String} (h : refusedBehind i stg o = some (row, message)) :
    row.stage = i ∧ row.name = stg.label i ∧ row.status.passed = false := by
  unfold refusedBehind at h
  dsimp only at h
  split at h
  · cases h
    exact ⟨rfl, rfl, rfl⟩
  · split at h
    · cases h
      exact ⟨rfl, rfl, rfl⟩
    · split at h
      · split at h
        · cases h
          exact ⟨rfl, rfl, rfl⟩
        · cases h
      · cases h

variable (rd spec last run) in
theorem runStage_passes (h : Passes i stg o) : ∃ (run' : EvalRun) (row : StageRow),
    runStage rd spec last i stg o run = .next run' ∧ run'.rows = some (run.rows.getD [] ++ [row]) ∧
      row.stage = i ∧ row.name = stg.label i ∧ row.status = .ok := by
  obtain ⟨hbefore, htimed, hexit, hbehind, hceiling⟩ := h
  have hok : ¬ ((o.timedOut || decide (o.exitCode ≠ 0)) = true) := by simp [htimed, hexit]
  unfold runStage
  dsimp only
  rw [hbefore]
  dsimp only
  rw [if_neg hok, hbehind]
  dsimp only
  rw [if_neg (by rw [hceiling]; decide)]
  exact ⟨_, _, rfl, rfl, rfl, rfl, rfl⟩

structure HungResult (rd : Readers) (spec : EvalSpec) (o : Outcome) (e : Evaluated) : Prop where
  metric : e.result.metric = rd.readMetric o.out spec.metric (some rd.evalStarted)
  bare : e.result.drift = none ∧ e.result.extraMetrics = none ∧ e.result.extraMetricsProvenance = none ∧
    e.result.extraMetricsDirection = none ∧ e.result.violations = none
  captured : e.result.stdout = o.out ∧ e.result.exitCode = o.exitCode ∧ e.result.timedOut = false ∧
    e.result.stalled = (o.stalled && !o.diverged)
  asked : e.asked = [.primary]

def Killed (last : Bool) (i : Nat) (stg : Stage) (o : Outcome) : Prop :=
  refusedBefore i stg o = none ∧ last = true ∧ o.timedOut = false ∧ o.exitCode ≠ 0

structure StoppedAt (i : Nat) (stg : Stage) (rows : List StageRow) (r : RunResult) : Prop where
  rows : ∃ row, r.stages = some (rows ++ [row]) ∧ r.failedStage = some row.name ∧ row.stage = i ∧
    row.name = stg.label i ∧ row.status.passed = false

variable (rd spec last run) in
theorem runStage_stops (h : ¬ Passes i stg o) :
    runStage rd spec last i stg o run = .ceiling ∨ ∃ e, runStage rd spec last i stg o run = .early e ∧
      StoppedAt i stg (run.rows.getD []) e.result ∧
      (Killed last i stg o → HungResult rd spec o e) ∧ (¬ Killed last i stg o → e.result.metric = none) := by
  unfold runStage
  dsimp only
  cases hbefore : refusedBefore i stg o with
  | some refusal =>
    obtain ⟨row, exitCode, message⟩ := refusal
    obtain ⟨hstage, hname, hstatus⟩ := refusedBefore_row hbefore
    refine .inr ⟨_, rfl, ⟨row, rfl, rfl, hstage, hname, hstatus⟩, ?_, fun _ => rfl⟩
    rintro ⟨hstarts, -⟩
    cases hbefore.symm.trans hstarts
  | none =>
    dsimp only
    by_cases hbad : (o.timedOut || decide (o.exitCode ≠ 0)) = true
    · rw [if_pos hbad]
      refine .inr ⟨_, rfl, ⟨_, rfl, rfl, rfl, rfl, ?_⟩, ?_⟩
      · dsimp only
        split
        · rfl
        · rfl
      · cases hsalvage : last && !o.timedOut with
        | false =>
          refine ⟨?_, fun _ => rfl⟩
          rintro ⟨-, hlast, htimed, -⟩
          rw [hlast, htimed] at hsalvage
          cases hsalvage
        | true =>
          simp only [Bool.and_eq_true, Bool.not_eq_true'] at hsalvage
          obtain ⟨hlast, htimed⟩ := hsalvage
          rw [htimed, Bool.false_or, decide_eq_true_eq] at hbad
          refine ⟨?_, fun hnot => absurd ⟨hbefore, hlast, htimed, hbad⟩ hnot⟩
          intro _
          exact ⟨rfl, ⟨rfl, rfl, rfl, rfl, rfl⟩, ⟨rfl, rfl, htimed, rfl⟩, rfl⟩
    · rw [if_neg hbad]
      rw [Bool.not_eq_true, Bool.or_eq_false_iff, decide_eq_false_iff_not, not_not] at hbad
      obtain ⟨htimed, hexit⟩ := hbad
      cases hbehind : refusedBehind i stg o with
      | some refusal =>
        obtain ⟨row, message⟩ := refusal
        obtain ⟨hstage, hname, hstatus⟩ := refusedBehind_row hbehind
        refine .inr ⟨_, rfl, ⟨row, rfl, rfl, hstage, hname, hstatus⟩, ?_, fun _ => rfl⟩
        rintro ⟨-, -, -, hbad⟩
        exact absurd hexit hbad
      | none =>
        dsimp only
        cases hceiling : hitsCeiling stg o with
        | true => exact .inl rfl
        | false => exact absurd ⟨hbefore, htimed, hexit, hbehind, hceiling⟩ h

end Stages

/-! ## The pipeline -/

section Pipeline
variable {rd : Readers} {spec : EvalSpec} {stages : List Stage} {reused : Nat} {outcomes : Nat → Outcome}

/-- The rows behind the first `n` stages: those reused and those run, each passed. -/
structure RowsBy (stages : List Stage) (reused n : Nat) (rows : List StageRow) : Prop where
  places : rows.map StageRow.stage = (List.range n).filter fun i => decide (i < reused) || hasCommand stages i
  names : ∀ row ∈ rows, (stages[row.stage]?).map (Stage.label · row.stage) = some row.name
  reused : ∀ row ∈ rows, row.status = .reused ↔ row.stage < reused
  passed : ∀ row ∈ rows, row.status.passed = true

variable (stages reused) in
theorem RowsBy.nil : RowsBy stages reused 0 [] where
  places := rfl
  names := List.forall_mem_nil _
  reused := List.forall_mem_nil _
  passed := List.forall_mem_nil _

theorem RowsBy.row {n : Nat} {rows : List StageRow} (h : RowsBy stages reused n rows) {stg : Stage}
    (hstage : stages[n]? = some stg) (hrecorded : n < reused ∨ stg.command ≠ []) {row : StageRow}
    (hplace : row.stage = n) (hname : row.name = stg.label n) (hreused : row.status = .reused ↔ n < reused)
    (hpassed : row.status.passed = true) : RowsBy stages reused (n + 1) (rows ++ [row]) where
  places := by
    have hcommand : hasCommand stages n = decide (stg.command ≠ []) := by
      unfold hasCommand
      rw [hstage]
      rfl
    rw [List.map_append, h.places, List.range_succ, List.filter_append]
    congr 1
    rcases hrecorded with hlt | hcmd
    · simp [hplace, hlt]
    · simp [hplace, hcommand, hcmd]
  names := by
    intro r hr
    rcases List.mem_append.mp hr with hr | hr
    · exact h.names r hr
    · rw [List.mem_singleton.mp hr, hplace, hstage, hname]
      rfl
  reused := by
    intro r hr
    rcases List.mem_append.mp hr with hr | hr
    · exact h.reused r hr
    · rw [List.mem_singleton.mp hr, hplace]
      exact hreused
  passed := by
    intro r hr
    rcases List.mem_append.mp hr with hr | hr
    · exact h.passed r hr
    · rw [List.mem_singleton.mp hr]
      exact hpassed

theorem RowsBy.skip {n : Nat} {rows : List StageRow} (h : RowsBy stages reused n rows) {stg : Stage}
    (hstage : stages[n]? = some stg) (hle : reused ≤ n) (hcommand : stg.command = []) :
    RowsBy stages reused (n + 1) rows where
  places := by
    have hnone : hasCommand stages n = false := by
      unfold hasCommand
      rw [hstage]
      simp [hcommand]
    rw [h.places, List.range_succ, List.filter_append]
    simp [hnone, Nat.not_lt.mpr hle]
  names := h.names
  reused := h.reused
  passed := h.passed

/-- Every stage from `i` on that is run passes, or the first that does not decides. -/
def LoopEnds (rd : Readers) (spec : EvalSpec) (stages : List Stage) (reused : Nat) (outcomes : Nat → Outcome)
    (i : Nat) (ending : StageEnd) : Prop :=
  ((∀ j stg, i ≤ j → reused ≤ j → stages[j]? = some stg → stg.command ≠ [] → Passes j stg (outcomes j)) ∧
    ∃ run rows, ending = .next run ∧ run.rows = some rows ∧ RowsBy stages reused stages.length rows) ∨
  ∃ n stg run rows, i ≤ n ∧ stages[n]? = some stg ∧ stg.command ≠ [] ∧ reused ≤ n ∧
    (∀ j s, i ≤ j → j < n → reused ≤ j → stages[j]? = some s → s.command ≠ [] → Passes j s (outcomes j)) ∧
    ¬ Passes n stg (outcomes n) ∧ run.rows = some rows ∧ RowsBy stages reused n rows ∧
    ending = runStage rd spec (n + 1 = stages.length) n stg (outcomes n) run

variable (rd spec outcomes) in
theorem runStages_ends {rest : List Stage} {i : Nat} {run : EvalRun} {rows : List StageRow}
    (hrest : rest = stages.drop i) (hrows : run.rows = some rows) (hby : RowsBy stages reused i rows)
    (hle : i ≤ stages.length) : LoopEnds rd spec stages reused outcomes i
      (runStages rd spec stages.length reused outcomes rest i run) := by
  induction rest generalizing i run rows with
  | nil =>
    have hend : stages.length ≤ i := by
      rw [← List.drop_eq_nil_iff, ← hrest]
    obtain rfl : i = stages.length := Nat.le_antisymm hle hend
    refine .inl ⟨?_, run, rows, rfl, hrows, hby⟩
    intro j stg hj _ hstage
    rw [List.getElem?_eq_none hj] at hstage
    cases hstage
  | cons stg rest ih =>
    have hlt : i < stages.length := by
      by_contra hnot
      rw [List.drop_eq_nil_of_le (Nat.not_lt.mp hnot)] at hrest
      cases hrest
    rw [List.drop_eq_getElem_cons hlt, List.cons.injEq] at hrest
    obtain ⟨hhead, hrest⟩ := hrest
    have hstage : stages[i]? = some stg := by rw [hhead, List.getElem?_eq_getElem hlt]
    -- what follows a stage that was reused, left out or passed
    have hgoes (run' : EvalRun) (rows' : List StageRow) (hrows' : run'.rows = some rows')
        (hby' : RowsBy stages reused (i + 1) rows')
        (hpasses : reused ≤ i → stg.command ≠ [] → Passes i stg (outcomes i))
        (heq : runStages rd spec stages.length reused outcomes (stg :: rest) i run =
          runStages rd spec stages.length reused outcomes rest (i + 1) run') :
        LoopEnds rd spec stages reused outcomes i
          (runStages rd spec stages.length reused outcomes (stg :: rest) i run) := by
      have hfirst (j : Nat) (s : Stage) (hj : i ≤ j) (hle : reused ≤ j) (hs : stages[j]? = some s)
          (hcommand : s.command ≠ []) (hlater : i + 1 ≤ j → Passes j s (outcomes j)) :
          Passes j s (outcomes j) := by
        rcases Nat.eq_or_lt_of_le hj with rfl | hj
        · cases hstage.symm.trans hs
          exact hpasses hle hcommand
        · exact hlater hj
      rw [heq]
      rcases ih hrest hrows' hby' hlt with ⟨hall, hnext⟩ | ⟨n, s, run'', rows'', hn, hs, hcommand, hle', hbefore, hstops⟩
      · refine .inl ⟨?_, hnext⟩
        intro j s hj hle hs hcommand
        exact hfirst j s hj hle hs hcommand fun hj => hall j s hj hle hs hcommand
      · refine .inr ⟨n, s, run'', rows'', Nat.le_of_succ_le hn, hs, hcommand, hle', ?_, hstops⟩
        intro j t hj hjn hle ht hcommand
        exact hfirst j t hj hle ht hcommand fun hj => hbefore j t hj hjn hle ht hcommand
    by_cases hreused : i < reused
    · refine hgoes { run with rows := some (rows ++ [{ stage := i, name := stg.label i, status := .reused }]) } _
        rfl (hby.row hstage (.inl hreused) rfl rfl (iff_of_true rfl hreused) rfl) ?_ ?_
      · intro hle
        exact absurd hreused (Nat.not_lt.mpr hle)
      · conv_lhs => unfold runStages
        rw [if_pos hreused, hrows]
        rfl
    · have hle : reused ≤ i := Nat.not_lt.mp hreused
      by_cases hcommand : stg.command = []
      · refine hgoes run rows hrows (hby.skip hstage hle hcommand) ?_ ?_
        · intro _ hsome
          exact absurd hcommand hsome
        · conv_lhs => unfold runStages
          rw [if_neg hreused, if_pos hcommand]
      · by_cases hpasses : Passes i stg (outcomes i)
        · obtain ⟨run', row, hrun, hrows', hplace, hname, hstatus⟩ :=
            runStage_passes rd spec (decide (i + 1 = stages.length)) run hpasses
          rw [hrows] at hrows'
          refine hgoes run' _ hrows' (hby.row hstage (.inr hcommand) hplace hname ?_ ?_) (fun _ _ => hpasses) ?_
          · rw [hstatus]
            exact iff_of_false (by decide) hreused
          · rw [hstatus]
            rfl
          · conv_lhs => unfold runStages
            refine (if_neg hreused).trans ((if_neg hcommand).trans ?_)
            rw [hrun]
        · refine .inr ⟨i, stg, run, rows, Nat.le_refl _, hstage, hcommand, hle, ?_, hpasses, hrows, hby, ?_⟩
          · intro j s hj hji
            omega
          · conv_lhs => unfold runStages
            refine (if_neg hreused).trans ((if_neg hcommand).trans ?_)
            rcases runStage_stops rd spec (decide (i + 1 = stages.length)) run hpasses with hstops | ⟨e, hstops, -⟩
            · rw [hstops]
            · rw [hstops]

end Pipeline

/-! ## The rows of a result -/

section Rows
variable {stages : List Stage} {startStage : Option String} {n : Nat} {rows : List StageRow} {r : RunResult}

theorem filter_recorded (h : ReusedRun stages startStage) (n : Nat) :
    ((List.range n).filter fun i => decide (i < reusedStageCount stages startStage) || hasCommand stages i) =
      (List.range n).filter (hasCommand stages) := by
  apply List.filter_congr
  intro i _
  cases hlt : decide (i < reusedStageCount stages startStage) with
  | false => rfl
  | true => rw [h i (of_decide_eq_true hlt), Bool.or_true]

theorem reusedRun_of_rows (hsound : RowsSound stages startStage r) (hle : reusedStageCount stages startStage ≤ n)
    (hplaces : ∀ i < n, i < reusedStageCount stages startStage → i ∈ (r.stages.getD []).map StageRow.stage) :
    ReusedRun stages startStage := by
  intro i hi
  obtain ⟨k, -, hdeclared, -⟩ := hsound.declared
  have hmem := hplaces i (Nat.lt_of_lt_of_le hi hle) hi
  rw [hdeclared] at hmem
  exact (List.mem_filter.mp hmem).2

theorem rows_complete (hby : RowsBy stages (reusedStageCount stages startStage) stages.length rows)
    (hcount : reusedStageCount stages startStage ≤ stages.length)
    (hrows : r.stages = some rows) (hfailed : r.failedStage = none) :
    RowsSound stages startStage r ↔ ReusedRun stages startStage := by
  have hget : r.stages.getD [] = rows := by
    rw [hrows]
    rfl
  constructor
  · intro hsound
    apply reusedRun_of_rows hsound hcount
    intro i hi hreused
    rw [hget, hby.places, List.mem_filter]
    exact ⟨List.mem_range.mpr hi, by simp [hreused]⟩
  · intro hrun
    refine ⟨⟨stages.length, Nat.le_refl _, ?_, fun _ _ => rfl, ?_⟩, ?_, ?_, ?_, ?_⟩
    · rw [hget, hby.places, filter_recorded hrun]
    · intro hfail
      exact absurd hfailed hfail
    · rw [hget]
      exact hby.names
    · rw [hget]
      exact hby.reused
    · rw [hget]
      intro row hrow
      exact hby.passed row ((List.dropLast_sublist rows).subset hrow)
    · intro name
      rw [hfailed, hget]
      refine iff_of_false nofun ?_
      rintro ⟨row, hlast, hstatus, -⟩
      rw [hby.passed row (List.mem_of_getLast? hlast)] at hstatus
      cases hstatus

theorem rows_stopped {stg : Stage} (hby : RowsBy stages (reusedStageCount stages startStage) n rows)
    (hle : reusedStageCount stages startStage ≤ n) (hstage : stages[n]? = some stg) (hcommand : stg.command ≠ [])
    (hstops : StoppedAt n stg rows r) : RowsSound stages startStage r ↔ ReusedRun stages startStage := by
  obtain ⟨row, hrows, hfailed, hplace, hname, hstatus⟩ := hstops
  have hget : r.stages.getD [] = rows ++ [row] := by
    rw [hrows]
    rfl
  have hhas : hasCommand stages n = true := by
    unfold hasCommand
    rw [hstage]
    simp [hcommand]
  have hlt : n < stages.length := by
    by_contra hnot
    rw [List.getElem?_eq_none (Nat.not_lt.mp hnot)] at hstage
    cases hstage
  constructor
  · intro hsound
    apply reusedRun_of_rows hsound hle
    intro i hi hreused
    rw [hget, List.map_append, List.mem_append, hby.places, List.mem_filter]
    exact .inl ⟨List.mem_range.mpr hi, by simp [hreused]⟩
  · intro hrun
    refine ⟨⟨n + 1, hlt, ?_, ?_, ?_⟩, ?_, ?_, ?_, ?_⟩
    · rw [hget, List.map_append, hby.places, filter_recorded hrun, List.range_succ, List.filter_append]
      simp [hhas, hplace]
    · intro hnone
      rw [hfailed] at hnone
      cases hnone
    · intro _
      rw [hget]
      exact ⟨row, List.getLast?_concat, by rw [hplace]⟩
    · rw [hget]
      intro s hs
      rcases List.mem_append.mp hs with hs | hs
      · exact hby.names s hs
      · rw [List.mem_singleton.mp hs, hplace, hstage, hname]
        rfl
    · rw [hget]
      intro s hs
      rcases List.mem_append.mp hs with hs | hs
      · exact hby.reused s hs
      · rw [List.mem_singleton.mp hs, hplace]
        apply iff_of_false
        · intro hreused
          rw [hreused] at hstatus
          cases hstatus
        · exact Nat.not_lt.mpr hle
    · rw [hget, List.dropLast_concat]
      exact hby.passed
    · intro name
      rw [hget, hfailed, List.getLast?_concat]
      constructor
      · rintro ⟨⟩
        exact ⟨row, rfl, hstatus, rfl⟩
      · rintro ⟨other, ⟨⟩, -, rfl⟩
        rfl

end Rows

/-! ## The gates of a result -/

section Gates
variable {rd : Readers} {spec : EvalSpec} {stages : List Stage} {startStage : Option String}

variable (rd spec) in
theorem readResult_kept (run : EvalRun) (since : Option Rat) :
    let r := (readResult rd spec run since).result
    r.stages = run.rows ∧ r.failedStage = none ∧ r.stdout = run.out ∧ r.timedOut = run.timedOut := by
  unfold readResult
  dsimp only
  split
  · exact ⟨rfl, rfl, rfl, rfl⟩
  · exact ⟨rfl, rfl, rfl, rfl⟩

theorem readResult_refused {run : EvalRun} {since : Option Rat} {refusal : String}
    (h : gateReaderRefusal spec = some refusal) : (readResult rd spec run since).result.metric = none := by
  unfold readResult
  rw [h]

variable (rd) in
theorem readResult_captured {run : EvalRun} (since : Option Rat) (h : gateReaderRefusal spec = none)
    (htimed : run.timedOut = false) :
    (readResult rd spec run since).result.toCaptured =
      capturedResultFields rd spec run.out (rd.readMetric run.out spec.metric (some rd.evalStarted)) false since := by
  unfold readResult
  rw [h, htimed]
  rfl

theorem readResult_asked {run : EvalRun} {since : Option Rat} (h : gateReaderRefusal spec = none)
    (htimed : run.timedOut = false) {slot : Slot}
    (hslot : slot ∈ askedReaders rd spec run.out (rd.readMetric run.out spec.metric (some rd.evalStarted)) false
      since) : slot ∈ (readResult rd spec run since).asked := by
  unfold readResult
  rw [h, htimed]
  exact List.mem_append_left _ (List.mem_append_right _ hslot)

theorem captured_metric (m : Option Rat) (timedOut : Bool) (out : String) (since : Option Rat) :
    (capturedResultFields rd spec out m timedOut since).metric = (corroborate rd spec out m since).1 := rfl

variable (rd stages startStage) in
theorem singleCommand_captured {r : RunResult} (h : gateReaderRefusal spec = none) (htimed : r.timedOut = false) :
    (singleCommand rd spec stages startStage r).toCaptured =
      capturedResultFields rd spec r.stdout (rd.readMetric r.stdout spec.metric (some rd.evalStarted)) false
        (attemptFreshnessFloor rd stages startStage) := by
  unfold singleCommand
  exact readResult_captured rd _ h htimed

theorem readResult_gates (run : EvalRun)
    (h : Admitted (readResult rd spec run (attemptFreshnessFloor rd stages startStage)).result) :
    GatesSound rd spec stages startStage
      (readResult rd spec run (attemptFreshnessFloor rd stages startStage)) := by
  obtain ⟨hmetric, htimed, -⟩ := h
  obtain ⟨-, -, hstdout, htimedOut⟩ := readResult_kept rd spec run (attemptFreshnessFloor rd stages startStage)
  have hran : run.timedOut = false := htimedOut.symm.trans htimed
  cases hrefusal : gateReaderRefusal spec with
  | some refusal => exact absurd (readResult_refused hrefusal) hmetric
  | none =>
    have hcaptured := readResult_captured rd (attemptFreshnessFloor rd stages startStage) hrefusal hran
    have hsingle := singleCommand_captured rd stages startStage hrefusal htimed
    rw [hstdout, ← hcaptured] at hsingle
    obtain ⟨v, hv⟩ := Option.ne_none_iff_exists'.mp hmetric
    have hnumber := (congrArg Captured.metric hcaptured).symm.trans hv
    rw [captured_metric] at hnumber
    obtain ⟨hm, hcross⟩ := corroborate_spec hnumber
    constructor
    · intro c hc
      apply readResult_asked hrefusal hran
      unfold askedReaders
      rw [hnumber]
      exact List.mem_append_right _ (List.mem_map_of_mem hc)
    · intro c hc
      dsimp only
      intro hunmet
      rw [hstdout] at hunmet ⊢
      have hviolations : (readResult rd spec run (attemptFreshnessFloor rd stages startStage)).result.violations =
          orNone (violations rd spec run.out (attemptFreshnessFloor rd stages startStage)) := by
        rw [congrArg Captured.violations hcaptured]
        unfold capturedResultFields
        dsimp only
        rw [hnumber]
        rfl
      rw [hviolations, orNone_getD]
      unfold violations
      refine List.mem_filterMap.mpr ⟨c, hc, ?_⟩
      dsimp only
      rw [if_pos hunmet]
    · intro henforced x hx
      constructor
      · apply readResult_asked hrefusal hran
        have hasked : askedCrossCheck spec (rd.readMetric run.out spec.metric (some rd.evalStarted)) = some x := by
          unfold askedCrossCheck
          rw [hm, henforced]
          exact hx
        unfold askedReaders
        rw [hasked]
        exact List.mem_append_left _ (List.mem_append_left _ List.mem_cons_self)
      · intro m hm'
        cases hv.symm.trans hm'
        rw [hstdout]
        exact hcross henforced x hx
    · exact (congrArg Captured.metric hsingle).symm
    · exact (congrArg Captured.violations hsingle).symm
    · exact (congrArg Captured.drift hsingle).symm
    · exact ⟨(congrArg Captured.extraMetrics hsingle).symm,
        (congrArg Captured.extraMetricsProvenance hsingle).symm,
        (congrArg Captured.extraMetricsDirection hsingle).symm⟩

theorem refusal_none (hconstraints : spec.constraints = []) (hcross : spec.enforceDrift = true → spec.crossCheck = none)
    (hreaders : spec.metrics.rows.any (isAdapter ·.2) = false) : gateReaderRefusal spec = none := by
  have hask : (spec.enforceDrift && spec.crossCheck.any isAdapter) = false := by
    cases henforced : spec.enforceDrift with
    | false => rfl
    | true =>
      rw [hcross henforced]
      rfl
  unfold gateReaderRefusal
  rw [hreaders, hconstraints, hask]
  rfl

theorem metrics_plain (h : gateReaderRefusal spec = none) : spec.metrics.rows.any (isAdapter ·.2) = false := by
  unfold gateReaderRefusal at h
  dsimp only at h
  split at h
  · cases h
  · rename_i hreaders
    exact Bool.not_eq_true _ ▸ hreaders

theorem corroborate_unasked (out : String) (m since : Option Rat) (h : askedCrossCheck spec m = none) :
    corroborate rd spec out m since = (m, none) := by
  unfold corroborate
  split
  · rename_i primary cross hcross
    rw [h] at hcross
    cases hcross
  · rfl

theorem captured_ungated {out : String} {m : Option Rat} (h : Ungated rd spec stages startStage out) :
    let captured := capturedResultFields rd spec out m false (attemptFreshnessFloor rd stages startStage)
    captured.metric = m ∧ captured.drift = none ∧ captured.violations = none ∧ captured.extraMetrics = none ∧
      captured.extraMetricsProvenance = none ∧ captured.extraMetricsDirection = none := by
  have hunasked : askedCrossCheck spec m = none := by
    unfold askedCrossCheck
    split
    · rename_i hask
      rw [Bool.and_eq_true] at hask
      exact h.crossCheck hask.1
    · rfl
  have hviolations : violations rd spec out (attemptFreshnessFloor rd stages startStage) = [] := by
    unfold violations
    rw [h.constraints]
    rfl
  unfold capturedResultFields
  rw [corroborate_unasked _ _ _ hunasked, h.declared, h.auto, hviolations]
  refine ⟨rfl, rfl, ?_, rfl, rfl, rfl⟩
  dsimp only
  split
  · rfl
  · rfl

theorem hung_gates {o : Outcome} {e : Evaluated} (h : HungResult rd spec o e) (hadmitted : Admitted e.result) :
    GatesSound rd spec stages startStage e ↔ Ungated rd spec stages startStage o.out := by
  obtain ⟨hmetric, ⟨hdrift, hextra, hprovenance, hdirection, hviolations⟩, ⟨hstdout, -, htimed, -⟩, hasked⟩ := h
  obtain ⟨hnumber, -, -⟩ := hadmitted
  constructor
  · intro hsound
    have hrefusal : gateReaderRefusal spec = none := by
      cases hrefusal : gateReaderRefusal spec with
      | none => rfl
      | some refusal =>
        have hsame := hsound.metric
        unfold singleCommand at hsame
        rw [readResult_refused hrefusal] at hsame
        exact absurd hsame hnumber
    have hconstraints : spec.constraints = [] := by
      apply List.eq_nil_iff_forall_not_mem.mpr
      intro c hc
      have hread := hsound.read c hc
      rw [hasked, List.mem_singleton] at hread
      cases hread
    have hsingle := singleCommand_captured rd stages startStage hrefusal htimed
    have hextras : orNone (declaredExtras rd spec o.out false (attemptFreshnessFloor rd stages startStage) ++
        (autoExtras rd spec o.out false).filter
          (!named · (declaredExtras rd spec o.out false (attemptFreshnessFloor rd stages startStage)))) = none := by
      have hsame := hsound.extras.1
      rw [hextra, congrArg Captured.extraMetrics hsingle, hstdout] at hsame
      exact hsame.symm
    rw [orNone_eq_none, List.append_eq_nil_iff] at hextras
    obtain ⟨hdeclared, hauto⟩ := hextras
    refine ⟨hconstraints, ?_, metrics_plain hrefusal, hdeclared, ?_⟩
    · intro henforced
      cases hcross : spec.crossCheck with
      | none => rfl
      | some x =>
        have hask := (hsound.corroborated henforced x hcross).1
        rw [hasked, List.mem_singleton] at hask
        cases hask
    · rw [hdeclared] at hauto
      rw [← hauto]
      exact (List.filter_eq_self.mpr fun _ _ => rfl).symm
  · intro hungated
    have hrefusal := refusal_none hungated.constraints hungated.crossCheck hungated.readers
    have hsingle := singleCommand_captured rd stages startStage hrefusal htimed
    rw [hstdout] at hsingle
    obtain ⟨hm, hd, hv, hx, hp, hdir⟩ := captured_ungated
      (m := rd.readMetric o.out spec.metric (some rd.evalStarted)) hungated
    constructor
    · intro c hc
      rw [hungated.constraints] at hc
      cases hc
    · intro c hc
      rw [hungated.constraints] at hc
      cases hc
    · intro henforced x hcross
      rw [hungated.crossCheck henforced] at hcross
      cases hcross
    · rw [hmetric, congrArg Captured.metric hsingle, hm]
    · rw [hviolations, congrArg Captured.violations hsingle, hv]
    · rw [hdrift, congrArg Captured.drift hsingle, hd]
    · rw [hextra, hprovenance, hdirection, congrArg Captured.extraMetrics hsingle,
        congrArg Captured.extraMetricsProvenance hsingle, congrArg Captured.extraMetricsDirection hsingle, hx, hp,
        hdir]
      exact ⟨rfl, rfl, rfl⟩

end Gates

/-! ## The result of an evaluation -/

section Results
variable {rd : Readers} {spec : EvalSpec} {stages : List Stage} {startStage : Option String}
variable {outcomes : Nat → Outcome} {single : EvalRun} {e : Evaluated}

theorem reusedStageCount_le (stages : List Stage) (startStage : Option String) :
    reusedStageCount stages startStage ≤ stages.length := by
  unfold reusedStageCount
  split
  · exact Nat.zero_le _
  · rename_i name _
    cases hfind : stages.findIdx? fun stg => decide (stg.name.getD "None" = name) with
    | none => exact Nat.zero_le _
    | some i => exact Nat.le_of_lt (List.findIdx?_eq_some_iff_findIdx_eq.mp hfind).1

theorem sound_complete {run : EvalRun} {rows : List StageRow} (hrows : run.rows = some rows)
    (hby : RowsBy stages (reusedStageCount stages startStage) stages.length rows) :
    EvalSound rd spec stages startStage (readResult rd spec run (attemptFreshnessFloor rd stages startStage)) ↔
      ReusedRun stages startStage := by
  obtain ⟨hkept, hfailed, -⟩ := readResult_kept rd spec run (attemptFreshnessFloor rd stages startStage)
  rw [← rows_complete hby (reusedStageCount_le stages startStage) (hkept.trans hrows) hfailed]
  constructor
  · intro hsound
    exact hsound.rows
  · intro hsound
    exact ⟨hsound, readResult_gates run⟩

theorem sound_single (rd : Readers) (spec : EvalSpec) {run : EvalRun} (hrows : run.rows = none) :
    EvalSound rd spec [] startStage (readResult rd spec run (attemptFreshnessFloor rd [] startStage)) := by
  obtain ⟨hkept, hfailed, -⟩ := readResult_kept rd spec run (attemptFreshnessFloor rd [] startStage)
  have hget : (readResult rd spec run (attemptFreshnessFloor rd [] startStage)).result.stages = none :=
    hkept.trans hrows
  refine ⟨⟨⟨0, Nat.le_refl _, ?_, fun _ _ => rfl, ?_⟩, ?_, ?_, ?_, ?_⟩, readResult_gates run⟩
  · rw [hget]
    rfl
  · intro hfail
    exact absurd hfailed hfail
  · rw [hget]
    exact List.forall_mem_nil _
  · rw [hget]
    exact List.forall_mem_nil _
  · rw [hget]
    exact List.forall_mem_nil _
  · intro name
    rw [hfailed, hget]
    refine iff_of_false nofun ?_
    rintro ⟨row, hlast, -⟩
    cases hlast

theorem sound_stopped {n : Nat} {stg : Stage} {rows : List StageRow}
    (hby : RowsBy stages (reusedStageCount stages startStage) n rows)
    (hle : reusedStageCount stages startStage ≤ n) (hstage : stages[n]? = some stg) (hcommand : stg.command ≠ [])
    (hstops : StoppedAt n stg rows e.result) (hgates : Admitted e.result → HungResult rd spec (outcomes n) e) :
    EvalSound rd spec stages startStage e ↔ ReusedRun stages startStage ∧
      (Admitted e.result → Ungated rd spec stages startStage (outcomes n).out) := by
  rw [← rows_stopped hby hle hstage hcommand hstops]
  constructor
  · rintro ⟨hrows, hsound⟩
    refine ⟨hrows, ?_⟩
    intro hadmitted
    exact (hung_gates (hgates hadmitted) hadmitted).mp (hsound hadmitted)
  · rintro ⟨hrows, hsound⟩
    refine ⟨hrows, ?_⟩
    intro hadmitted
    exact (hung_gates (hgates hadmitted) hadmitted).mpr (hsound hadmitted)

theorem HangsLast.stopped {i n : Nat} {stg s : Stage} (h : HangsLast rd spec stages startStage outcomes i stg)
    (hle : reusedStageCount stages startStage ≤ n) (hstage : stages[n]? = some s) (hcommand : s.command ≠ [])
    (hfails : ¬ Passes n s (outcomes n)) : i = n ∧ stg = s := by
  have hlt : n < stages.length := by
    by_contra hnot
    rw [List.getElem?_eq_none (Nat.not_lt.mp hnot)] at hstage
    cases hstage
  obtain ⟨hlast, hcount⟩ := h.last
  rcases Nat.lt_or_ge n i with hni | hin
  · exact absurd (h.before n s hni hle hstage hcommand) hfails
  · obtain rfl : i = n := by omega
    exact ⟨rfl, Option.some.inj (hlast.symm.trans hstage)⟩

/-- The result of an evaluation is what it says just where no stage is reused without a command, and a last
stage that hung behind its number has no gates to pass. -/
theorem eval_sound_iff (rd : Readers) (spec : EvalSpec) (stages : List Stage) (startStage : Option String)
    (outcomes : Nat → Outcome) (single : EvalRun) (e : Evaluated)
    (h : runCommandEval rd spec stages startStage outcomes single = some e) :
    EvalSound rd spec stages startStage e ↔ ReusedRun stages startStage ∧
      ∀ i stg, HangsLast rd spec stages startStage outcomes i stg →
        Ungated rd spec stages startStage (outcomes i).out := by
  unfold runCommandEval at h
  dsimp only at h
  by_cases hstages : stages = []
  · subst hstages
    rw [if_pos rfl] at h
    cases h
    refine iff_of_true (sound_single rd spec rfl) ⟨?_, ?_⟩
    · intro i hi
      exact absurd (Nat.lt_of_lt_of_le hi (reusedStageCount_le [] startStage)) (Nat.not_lt_zero i)
    · intro i stg hhangs
      cases hhangs.last.1
  · rw [if_neg hstages] at h
    have hnil := RowsBy.nil stages (reusedStageCount stages startStage)
    have hends : LoopEnds rd spec stages (reusedStageCount stages startStage) outcomes 0
        (runStages rd spec stages.length (reusedStageCount stages startStage) outcomes stages 0
          { rows := some [] }) :=
      runStages_ends rd spec outcomes List.drop_zero.symm rfl hnil (Nat.zero_le _)
    rcases hends with ⟨hall, run, rows, hnext, hrows, hby⟩ |
      ⟨n, stg, run, rows, -, hstage, hcommand, hle, hbefore, hfails, hrows, hby, hstops⟩
    · rw [hnext] at h
      cases h
      rw [sound_complete hrows hby]
      constructor
      · intro hrun
        refine ⟨hrun, ?_⟩
        intro i stg hhangs
        obtain ⟨-, -, hexit, -⟩ := hall i stg (Nat.zero_le _) hhangs.run.2 hhangs.last.1 hhangs.run.1
        exact absurd hexit hhangs.hangs.2.1
      · exact And.left
    · rw [hstops] at h
      rcases runStage_stops rd spec (decide (n + 1 = stages.length)) run hfails with hceiling |
        ⟨ended, hended, hstopped, hkilled, halive⟩
      · rw [hceiling] at h
        cases h
      · rw [hended] at h
        cases h
        rw [hrows] at hstopped
        have hgates : Admitted e.result → Killed (decide (n + 1 = stages.length)) n stg (outcomes n) := by
          intro hadmitted
          by_contra hnot
          exact hadmitted.1 (halive hnot)
        rw [sound_stopped hby hle hstage hcommand hstopped fun hadmitted =>
          hkilled (hgates hadmitted)]
        apply and_congr_right
        intro _
        constructor
        · intro hungated i s hhangs
          obtain ⟨rfl, rfl⟩ := hhangs.stopped hle hstage hcommand hfails
          apply hungated
          have hlast : decide (i + 1 = stages.length) = true := decide_eq_true hhangs.last.2
          obtain ⟨hmetric, -, ⟨-, hexit, htimed, hstalled⟩, -⟩ :=
            hkilled ⟨hhangs.starts, hlast, hhangs.hangs.1, hhangs.hangs.2.1⟩
          refine ⟨hmetric ▸ hhangs.prints, htimed, .inr ?_⟩
          rw [hstalled, hhangs.hangs.2.2.1, hhangs.hangs.2.2.2]
          rfl
        · intro hungated hadmitted
          obtain ⟨hstarts, hlast, htimed, hexit⟩ := hgates hadmitted
          obtain ⟨hmetric, -, ⟨-, hcode, -, hstalled⟩, -⟩ := hkilled ⟨hstarts, hlast, htimed, hexit⟩
          obtain ⟨hnumber, -, hadmit⟩ := hadmitted
          have hhung : e.result.stalled = true := by
            rcases hadmit with hzero | hhung
            · exact absurd (hcode.symm.trans hzero) hexit
            · exact hhung
          rw [hstalled, Bool.and_eq_true, Bool.not_eq_true'] at hhung
          apply hungated n stg
          refine ⟨⟨hstage, of_decide_eq_true hlast⟩, ⟨hcommand, hle⟩, ?_, hstarts,
            ⟨htimed, hexit, hhung.1, hhung.2⟩, hmetric ▸ hnumber⟩
          intro j s hj hreused hs hcmd
          exact hbefore j s (Nat.zero_le _) hj hreused hs hcmd

/-- A training and the score of it, which prints its number with its latency. -/
def trainAndScore : List Stage :=
  [{ name := some "train", command := ["python", "train.py"] },
   { name := some "score", command := ["python", "score.py"] }]

def printedLine : String := "\x7b\"metric\": 0.9, \"latency\": 250\x7d"

/-- The readers of that line, and of nothing else. -/
def lineReaders : Readers where
  readMetric out reader _ :=
    if out ≠ printedLine then none
    else if (reader.get "key").eqStr "metric" then some (9 / 10)
    else if (reader.get "key").eqStr "latency" then some 250 else none
  apart primary cross := decide (1 / 1000000 * (1 + max cross (-cross)) < max (primary - cross) (cross - primary))
  jsonLineExtras _ _ := []
  jsonLineTrials _ := none
  jsonLineFingerprint _ := none
  declaredFailureReason _ := none
  evalStarted := 0

def metricReader : Obj := [("kind", .str "stdout_json"), ("key", .str "metric")]

/-- The latency is bounded by 100. -/
def latencyBound : Obj :=
  [("kind", .str "stdout_json"), ("key", .str "latency"), ("name", .str "latency"), ("max", .int 100)]

def boundedSpec : EvalSpec where
  metric := metricReader
  constraints := [latencyBound]

theorem eval_sound_passed : ∃ e,
    runCommandEval lineReaders boundedSpec trainAndScore none (fun _ => { out := printedLine }) {} = some e ∧
      EvalSound lineReaders boundedSpec trainAndScore none e := by
  refine ⟨_, rfl, (eval_sound_iff lineReaders boundedSpec trainAndScore none
    (fun _ => { out := printedLine }) {} _ rfl).mpr ⟨?_, ?_⟩⟩
  · intro i hi
    exact absurd hi (Nat.not_lt_zero i)
  · intro i stg hhangs
    exact absurd rfl hhangs.hangs.2.1

/-- The score prints its line and hangs, and is killed for its silence. -/
def hungScore : Nat → Outcome
  | 1 => { exitCode := -9, out := printedLine, stalled := true }
  | _ => {}

/-- The number of the stage that hung is taken, and nobody asks for the latency. -/
theorem hung_score_ungated : ∃ e,
    runCommandEval lineReaders boundedSpec trainAndScore none hungScore {} = some e ∧
      ¬ EvalSound lineReaders boundedSpec trainAndScore none e := by
  refine ⟨_, rfl, ?_⟩
  intro hsound
  have hgates := hsound.gates ⟨nofun, rfl, .inr rfl⟩
  have hread := hgates.read latencyBound (List.mem_singleton_self _)
  rcases List.mem_singleton.mp hread with ⟨⟩

end Results

end LoopLab.CommandEval
