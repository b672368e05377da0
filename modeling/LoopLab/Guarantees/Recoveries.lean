import LoopLab.Stages.Salvage

/-!
# A recovered number competes on a measured number's terms

What a salvage lets compete comes from a result that was not refused, under gates that were read and met.
-/

set_option autoImplicit false

namespace LoopLab.Salvage
open Lib CommandEval

/-! ## What is claimed -/

section Claims
variable (rd : Readings) (a : Attempt)

/-- The declared numeric relation is broken. -/
def Row.numericBroken (row : Row) : Prop := row.status = .expectFailed ∧ row.numericDeclared = true

/-- The bytes the number of an attempt was read from: the ones the declared reader opens, else the one
file of that name the attempt wrote elsewhere. -/
def Attempt.numberBytes : Option Written :=
  if a.res.metric.isSome then readBytes a.tree a.res.stdout a.spec.metric none
  else if (readMetric rd a.tree a.res.stdout a.spec.metric (some a.started)).isSome then
    readBytes a.tree a.res.stdout a.spec.metric (some a.started)
  else (relocated a.tree a.spec.metric (some a.started)).bind fun moved =>
    readBytes a.tree a.res.stdout moved.1 (some a.started)

/-- The number was read from bytes an operator's stage of this attempt wrote. -/
def Attempt.OperatorWrote : Prop := ∃ b, a.numberBytes rd = some b ∧ b.writer = .operator

/-- The contract of the failed stage, an operator's, holds as corrected. -/
def Attempt.Rechecked : Prop :=
  let files := recheckableExpect a.res.failedStage a.chain a.fix
  stageProducer a.es.stages a.res.failedStage = OPERATOR_PRODUCED ∧ files ≠ [] ∧
    ∃ since, recheckFloor a.res.stages a.res.failedStage = some since ∧
      artifactsHold a.corrected files since = true

/-- The terminal's number competes on the terms of a measured one. -/
structure Competes (t : Terminal) : Prop where
  mode : settleMode a.mode ≠ .off
  result : a.res.timedOut = false ∧ a.res.diverged = false ∧ a.res.setupFailed = false ∧
    a.res.gateReadersRefused = false
  rows : ∀ row ∈ a.res.stages, row.status ≠ .checkFailed ∧ row.checkInconclusive = "" ∧ ¬row.numericBroken
  origin : a.OperatorWrote rd
  admitted : settleMode a.mode = .select ∨ a.Rechecked
  constraints : ∀ c ∈ a.spec.constraints, ∃ v,
    readMetric rd a.tree a.res.stdout c (some a.started) = some v ∧ unmet c (some v) = false
  corroborated : a.spec.enforceDrift = true → ∀ x, a.spec.crossCheck = some x → ∃ v,
    readMetric rd a.tree a.res.stdout x (some a.started) = some v ∧ rd.apart t.metric v = false
  activation : ¬a.blocked

/-- The salvage settles the attempt, and nothing marks the number. -/
structure SettlesUnmarked (t : Terminal) : Prop where
  settled : a.evalSalvage rd = some t
  unmarked : t.violations = []

/-- How a result comes of its pipeline: of a setup or a command that never got to the stages, of the
single command, or with a row for every stage up to the one that ended it. -/
inductive Came (pipeline : Option (List (String × Writer))) (res : Result) : Prop where
  | refused (rows : res.stages = []) (unread : res.metric = none)
      (why : res.setupFailed = true ∨ res.exitCode ≠ 0 ∧ res.stalled = false)
  | single (command : pipeline = none) (rows : res.stages = []) (failed : res.failedStage = "")
      (wrote : res.stdout.writer = .operator)
  | staged (stages : List (String × Writer)) (before : List Row) (row : Row) (writer : Writer)
      (declared : pipeline = some stages) (rows : res.stages = before ++ [row])
      (passed : ∀ r ∈ before, r.status.passed = true) (stage : (row.name, writer) ∈ stages)
      (last : row.status.passed = true → stages.getLast? = some (row.name, writer))
      (failed : res.failedStage = if row.status.passed then "" else row.name)
      (wrote : row.status ≠ .needsFailed → row.status ≠ .envUnsupported → res.stdout.writer = writer)

/-- The reader reads what was captured. -/
def Attempt.ReadsCaptured : Prop :=
  specKind a.spec.metric = "stdout_json" ∨ specKind a.spec.metric = "stdout_regex"

/-- No declared marker blocks the attempt, and a number read from a file is read from one that an
operator's stage of this attempt wrote. -/
structure OnItsTerms : Prop where
  activation : ¬a.blocked
  file : a.ReadsCaptured ∨ a.OperatorWrote rd

end Claims

/-! ## Whose stage it is -/

section Ownership
variable {es : EvalStages} {manifest : Option Manifest} {stages : List (String × Writer)}

theorem stageProducer_manifest {m : Manifest} {n : String} (h : n ∈ m.names) :
    stageProducer [] n = AGENT_PRODUCED := by
  obtain ⟨hname, hstrip⟩ := m.named n h
  have hscore : n ≠ OPERATOR_PROTECTED_STAGE := by
    rintro rfl
    exact m.reserved _ h (by decide)
  unfold stageProducer
  simp [hstrip, hname, hscore]

theorem hostStage_operator {x : String × Writer} (h : x ∈ es.hostStage) : x.2 = .operator := by
  unfold EvalStages.hostStage at h
  split at h
  · rw [List.mem_singleton.mp h]
  · cases h

theorem candidateThenHost_operator {x : String × Writer} (h : x ∈ es.candidateThenHost) : x.2 = .operator := by
  unfold EvalStages.candidateThenHost at h
  rcases List.mem_append.mp h with h | h
  · split at h
    · rw [List.mem_singleton.mp h]
    · cases h
  · exact hostStage_operator h

theorem fallback_operator (h : (if es.host then some es.candidateThenHost else none) = some stages)
    {x : String × Writer} (hx : x ∈ stages) : x.2 = .operator := by
  split at h
  · cases h
    exact candidateThenHost_operator hx
  · cases h

theorem manifest_tail_operator {m : Manifest} {x : String × Writer}
    (h : x ∈ if es.host then
        (if es.command then [(freeSelfScoreName m.names, Writer.operator)] else []) ++ es.hostStage
      else [("score", .operator)]) : x.2 = .operator := by
  split at h
  · rcases List.mem_append.mp h with h | h
    · split at h
      · rw [List.mem_singleton.mp h]
      · cases h
    · exact hostStage_operator h
  · rw [List.mem_singleton.mp h]

theorem producer_honest (h : resolveStages es manifest = some stages) {n : String} {w : Writer}
    (hx : (n, w) ∈ stages) (hproducer : stageProducer es.stages n = OPERATOR_PRODUCED) : w = .operator := by
  unfold resolveStages at h
  dsimp only at h
  split at h
  · split at h
    · cases h
      rcases List.mem_append.mp hx with hx | hx
      · obtain ⟨_, _, heq⟩ := List.mem_map.mp hx
        cases heq
        rfl
      · exact hostStage_operator hx
    · exact fallback_operator h hx
  · rename_i hnone
    rw [ne_eq, not_not] at hnone
    split at h
    · cases h
      rcases List.mem_append.mp hx with hx | hx
      · obtain ⟨n', hn', heq⟩ := List.mem_map.mp hx
        cases heq
        rw [hnone, stageProducer_manifest hn'] at hproducer
        exact absurd hproducer (by decide)
      · exact manifest_tail_operator hx
    · exact fallback_operator h hx

theorem last_operator (h : resolveStages es manifest = some stages) {x : String × Writer}
    (hlast : stages.getLast? = some x) : x.2 = .operator := by
  unfold resolveStages at h
  dsimp only at h
  split at h
  · split at h
    · cases h
      rcases List.mem_append.mp (List.mem_of_getLast? hlast) with hx | hx
      · obtain ⟨_, _, heq⟩ := List.mem_map.mp hx
        cases heq
        rfl
      · exact hostStage_operator hx
    · exact fallback_operator h (List.mem_of_getLast? hlast)
  · split at h
    · rename_i m
      cases h
      have htail : (if es.host then
          (if es.command then [(freeSelfScoreName m.names, Writer.operator)] else []) ++ es.hostStage
        else [("score", .operator)]) ≠ [] := by
        cases hhost : es.host with
        | true => simp [EvalStages.hostStage, hhost]
        | false => simp
      rw [List.getLast?_append_of_ne_nil _ htail] at hlast
      exact manifest_tail_operator (List.mem_of_getLast? hlast)
    · exact fallback_operator h (List.mem_of_getLast? hlast)

end Ownership

/-! ## What a salvage takes up -/

section Eligibility
variable {res : Result} {reason condition : String}

structure Eligible (res : Result) : Prop where
  result : res.timedOut = false ∧ res.diverged = false ∧ res.setupFailed = false ∧
    res.gateReadersRefused = false
  doubts : ∀ row ∈ res.stages, row.checkInconclusive = ""
  ended : res.stages = [] → res.exitCode ≠ 0 → res.stalled = true
  last : ∀ row, res.stages.getLast? = some row → row.status.passed = true ∨ row.status = .fail ∨
    row.status = .expectFailed ∧ row.numericDeclared = false

theorem eligible_of_condition (h : salvageCondition res reason = some condition) : Eligible res := by
  unfold salvageCondition at h
  split_ifs at h with hreason hrefused hdiverged hdrift hdoubt hexit hcompleted
  all_goals
    simp only [not_or, Bool.not_eq_true] at hreason hrefused hdiverged hdrift
    simp only [Bool.not_eq_true, List.any_eq_false, decide_eq_true_eq, ne_eq, not_not] at hdoubt
  · refine ⟨⟨hreason.2, hdiverged, hdrift.2, hrefused⟩, hdoubt, ?_, ?_⟩
    · intro hnil
      simp [Result.completed, hnil] at hcompleted
    · intro row hrow
      simp only [Result.completed, Bool.and_eq_true, List.all_eq_true] at hcompleted
      exact .inl (hcompleted.2 row (List.mem_of_getLast? hrow))
  · refine ⟨⟨hreason.2, hdiverged, hdrift.2, hrefused⟩, hdoubt, ?_, ?_⟩
    · intro _ hbad
      by_contra hstalled
      exact hexit ⟨hbad, hstalled, hcompleted⟩
    · intro row hrow
      rw [hrow] at h
      dsimp only at h
      cases hstatus : row.status with
      | ok => exact .inl rfl
      | reused => exact .inl rfl
      | fail => exact .inr (.inl rfl)
      | expectFailed =>
        rw [hstatus] at h
        dsimp only at h
        split at h
        · cases h
        · rename_i hnumeric
          exact .inr (.inr ⟨rfl, by simpa using hnumeric⟩)
      | timeout | needsFailed | envUnsupported | checkFailed =>
        rw [hstatus] at h
        cases h

end Eligibility

/-! ## What a salvage answers -/

section Answers
variable {rd : Readings} {a : Attempt} {t : Terminal} {s : SalvagedMetric} {reason : String}

theorem settleOutcome_unblocked (hblocked : ¬a.blocked) (hartifact : a.artifact = false) :
    a.settleOutcome = (attemptSucceeded a.res false a.objective, a.res) := by
  unfold Attempt.settleOutcome
  simp [hartifact, hblocked]

theorem evalSalvage_spec (hblocked : ¬a.blocked) (h : a.evalSalvage rd = some t) : ∃ reason s,
    salvage rd a.spec a.es.stages a.tree (some a.started) a.res reason a.mode = some s ∧
      (salvageGates rd a.spec a.tree (some a.started) s.metric a.res.stdout).drift = none ∧
      t = a.terminal a.res s (salvageGates rd a.spec a.tree (some a.started) s.metric a.res.stdout) := by
  have hartifact : a.artifact = false := by
    unfold Attempt.evalSalvage at h
    dsimp only at h
    split_ifs at h with _ _ hartifact
    simpa using hartifact
  unfold Attempt.evalSalvage at h
  rw [settleOutcome_unblocked hblocked hartifact] at h
  dsimp only at h
  split_ifs at h
  obtain ⟨s, hs, hterminal⟩ := Option.bind_eq_some_iff.mp h
  split_ifs at hterminal with hdrift
  cases hterminal
  exact ⟨_, s, hs, by simpa using hdrift, rfl⟩

theorem salvage_spec
    (h : salvage rd a.spec a.es.stages a.tree (some a.started) a.res reason a.mode = some s) :
    settleMode a.mode ≠ .off ∧ Eligible a.res ∧
      s.producer = stageProducer a.es.stages a.res.failedStage ∧
      (a.res.metric = none → (readSalvageableMetric rd a.spec a.tree (some a.started) a.res.stdout).isSome) := by
  unfold salvage at h
  split_ifs at h with hoff
  obtain ⟨condition, hcondition, h⟩ := Option.bind_eq_some_iff.mp h
  refine ⟨hoff, eligible_of_condition hcondition, ?_⟩
  dsimp only at h
  split at h
  · rename_i hmetric
    cases h
    refine ⟨rfl, ?_⟩
    intro hnone
    cases hmetric.symm.trans hnone
  · obtain ⟨found, hfound, heq⟩ := Option.map_eq_some_iff.mp h
    cases heq
    refine ⟨rfl, ?_⟩
    intro _
    rw [hfound]
    rfl

theorem numberBytes_captured (hreads : a.ReadsCaptured)
    (hfound : a.res.metric = none →
      (readSalvageableMetric rd a.spec a.tree (some a.started) a.res.stdout).isSome) :
    a.numberBytes rd = some a.res.stdout := by
  have hbytes (since : Option Rat) : readBytes a.tree a.res.stdout a.spec.metric since = some a.res.stdout := by
    unfold readBytes
    exact if_pos hreads
  have hmoved : relocated a.tree a.spec.metric (some a.started) = none := by
    unfold relocated
    rw [if_pos]
    rcases hreads with hkind | hkind <;> simp [hkind, READERS_REQUIRING_PATH]
  unfold Attempt.numberBytes
  cases hmetric : a.res.metric with
  | some metric => simp [hbytes]
  | none =>
    have hread : (readMetric rd a.tree a.res.stdout a.spec.metric (some a.started)).isSome = true := by
      have := hfound hmetric
      unfold readSalvageableMetric at this
      dsimp only at this
      split_ifs at this
      · cases this
      · split at this
        · rename_i hvalue
          rw [hvalue]
          rfl
        · rw [hmoved] at this
          cases this
    rw [if_neg (by decide), if_pos hread, hbytes]

theorem gates_met (h : (salvageGates rd a.spec a.tree (some a.started) s.metric a.res.stdout).violations = []) :
    ∀ c ∈ a.spec.constraints, ∃ v,
      readMetric rd a.tree a.res.stdout c (some a.started) = some v ∧ unmet c (some v) = false := by
  intro c hc
  unfold salvageGates at h
  obtain ⟨hadapters, hsafe⟩ := List.append_eq_nil_iff.mp h
  have hkind : specKind c ≠ "adapter" := by
    intro hadapter
    have hmem : c ∈ a.spec.constraints.filter fun c => specKind c = "adapter" := by
      simp [hc, hadapter]
    rw [List.map_eq_nil_iff.mp hadapters] at hmem
    cases hmem
  have hmet := List.filterMap_eq_nil_iff.mp hsafe c (by simp [hc, hkind])
  dsimp only at hmet
  split_ifs at hmet with hunmet
  cases hvalue : readMetric rd a.tree a.res.stdout c (some a.started) with
  | none =>
    rw [hvalue] at hunmet
    exact absurd rfl hunmet
  | some v =>
    rw [hvalue] at hunmet
    exact ⟨v, rfl, by simpa using hunmet⟩

theorem gates_corroborate
    (h : (salvageGates rd a.spec a.tree (some a.started) s.metric a.res.stdout).drift = none)
    (henforced : a.spec.enforceDrift = true) {x : Obj} (hx : a.spec.crossCheck = some x) : ∃ v,
      readMetric rd a.tree a.res.stdout x (some a.started) = some v ∧ rd.apart s.metric v = false := by
  unfold salvageGates at h
  dsimp only at h
  rw [if_pos henforced, hx, Option.bind_some] at h
  split_ifs at h with hcorroborated
  cases hseen : crossReading rd a.tree (some a.started) a.res.stdout x with
  | none =>
    rw [hseen] at hcorroborated
    cases hcorroborated
  | some v =>
    rw [hseen] at hcorroborated
    unfold crossReading at hseen
    split_ifs at hseen
    exact ⟨v, hseen, by simpa using hcorroborated⟩

theorem recheck_spec {files : List String}
    (h : recheckRepairedContract a.res.stages a.res.failedStage a.chain a.fix a.corrected s = some files)
    (hproducer : s.producer = stageProducer a.es.stages a.res.failedStage) :
    s.producer = OPERATOR_PRODUCED ∧ a.Rechecked := by
  unfold recheckRepairedContract at h
  split_ifs at h with _ hrecheckable _
  simp only [Bool.not_eq_true, Bool.not_eq_false', recheckableSalvage, Bool.and_eq_true,
    decide_eq_true_eq] at hrecheckable
  obtain ⟨since, hsince, h⟩ := Option.bind_eq_some_iff.mp h
  dsimp only at h
  split_ifs at h with hempty _ hholds
  refine ⟨hrecheckable.2, hproducer.symm.trans hrecheckable.2, ?_, since, hsince, hholds⟩
  intro hnil
  rw [hnil] at hempty
  exact hempty rfl

theorem unmarked_spec {gates : Gates} (h : (a.terminal a.res s gates).violations = [])
    (hoff : settleMode a.mode ≠ .off) (hproducer : s.producer = stageProducer a.es.stages a.res.failedStage) :
    gates.violations = [] ∧ s.producer = OPERATOR_PRODUCED ∧
      (settleMode a.mode = .select ∨ a.Rechecked) := by
  unfold Attempt.terminal at h
  dsimp only at h
  split at h
  · rename_i files hfiles
    obtain ⟨hown, -⟩ := List.append_eq_nil_iff.mp h
    obtain ⟨hoperator, hrechecked⟩ := recheck_spec hfiles hproducer
    exact ⟨(List.append_eq_nil_iff.mp hown).2, hoperator, .inr hrechecked⟩
  · obtain ⟨hown, -⟩ := List.append_eq_nil_iff.mp h
    obtain ⟨hown, hrows⟩ := List.append_eq_nil_iff.mp hown
    have hselect : settleMode a.mode = .select ∧ s.producer = OPERATOR_PRODUCED := by
      unfold SalvagedMetric.violationRows at hrows
      split at hrows
      · exact absurd ‹_› hoff
      · split_ifs at hrows with hoperator
        exact ⟨‹_›, hoperator⟩
      · cases hrows
    exact ⟨(List.append_eq_nil_iff.mp hown).2, hselect.2, .inl hselect.1⟩

theorem terminal_metric (res : Result) (gates : Gates) : (a.terminal res s gates).metric = s.metric := by
  unfold Attempt.terminal
  dsimp only
  split <;> rfl

theorem captured_operator (hcame : Came (resolveStages a.es a.manifest) a.res) (heligible : Eligible a.res)
    (hproducer : stageProducer a.es.stages a.res.failedStage = OPERATOR_PRODUCED) :
    a.res.stdout.writer = .operator := by
  cases hcame with
  | refused rows unread why =>
    rcases why with hsetup | ⟨hexit, hstalled⟩
    · rw [heligible.result.2.2.1] at hsetup
      cases hsetup
    · rw [heligible.ended rows hexit] at hstalled
      cases hstalled
  | single command rows failed wrote => exact wrote
  | staged stages before row writer declared rows passed stage last failed wrote =>
    have hlast := heligible.last row (by rw [rows, List.getLast?_concat])
    have hran : row.status ≠ .needsFailed ∧ row.status ≠ .envUnsupported := by
      rcases hlast with hpassed | hfail | ⟨hexpect, -⟩
      · constructor <;> intro hstatus <;> rw [hstatus] at hpassed <;> cases hpassed
      · rw [hfail]
        decide
      · rw [hexpect]
        decide
    rw [wrote hran.1 hran.2]
    by_cases hpassed : row.status.passed = true
    · exact last_operator declared (last hpassed)
    · rw [failed, if_neg hpassed] at hproducer
      exact producer_honest declared stage hproducer

theorem rows_clean {pipeline : Option (List (String × Writer))} (hcame : Came pipeline a.res)
    (heligible : Eligible a.res) : ∀ row ∈ a.res.stages,
      row.status ≠ .checkFailed ∧ row.checkInconclusive = "" ∧ ¬row.numericBroken := by
  intro row hrow
  have hpasses (hpassed : row.status.passed = true) :
      row.status ≠ .checkFailed ∧ row.checkInconclusive = "" ∧ ¬row.numericBroken := by
    refine ⟨?_, heligible.doubts row hrow, ?_⟩
    · intro hstatus
      rw [hstatus] at hpassed
      cases hpassed
    · rintro ⟨hstatus, -⟩
      rw [hstatus] at hpassed
      cases hpassed
  cases hcame with
  | refused rows unread why =>
    rw [rows] at hrow
    cases hrow
  | single command rows failed wrote =>
    rw [rows] at hrow
    cases hrow
  | staged stages before ending writer declared rows passed stage last failed wrote =>
    rw [rows] at hrow
    rcases List.mem_append.mp hrow with hbefore | hending
    · exact hpasses (passed row hbefore)
    · obtain rfl := List.mem_singleton.mp hending
      rcases heligible.last row (by rw [rows, List.getLast?_concat]) with hpassed | hfail | ⟨hexpect, hnumeric⟩
      · exact hpasses hpassed
      · refine ⟨?_, heligible.doubts row (by rw [rows]; exact hrow), ?_⟩
        · rw [hfail]
          decide
        · rintro ⟨hstatus, -⟩
          cases hfail.symm.trans hstatus
      · refine ⟨?_, heligible.doubts row (by rw [rows]; exact hrow), ?_⟩
        · rw [hexpect]
          decide
        · rintro ⟨-, hbroken⟩
          cases hnumeric.symm.trans hbroken

end Answers

/-! ## The guarantee -/

/-- An unmarked recovered number competes on a measured number's terms exactly where no declared marker
blocks the attempt and a file it was read from is an operator's of this attempt. -/
theorem recovered_sound_iff (rd : Readings) (a : Attempt) (t : Terminal)
    (came : Came (resolveStages a.es a.manifest) a.res) (h : SettlesUnmarked rd a t) :
    Competes rd a t ↔ OnItsTerms rd a := by
  constructor
  · intro hsound
    exact ⟨hsound.activation, .inr hsound.origin⟩
  · rintro ⟨hactivation, hfile⟩
    obtain ⟨reason, s, hs, hdrift, ht⟩ := evalSalvage_spec hactivation h.settled
    obtain ⟨hoff, heligible, hproducer, hfound⟩ := salvage_spec hs
    have hunmarked := h.unmarked
    rw [ht] at hunmarked
    obtain ⟨hgates, hoperator, hadmitted⟩ := unmarked_spec hunmarked hoff hproducer
    refine ⟨hoff, heligible.result, rows_clean came heligible, ?_, hadmitted, gates_met hgates, ?_, hactivation⟩
    · rcases hfile with hreads | hwrote
      · exact ⟨_, numberBytes_captured hreads hfound,
          captured_operator came heligible (hproducer.symm.trans hoperator)⟩
      · exact hwrote
    · intro henforced x hx
      rw [ht, terminal_metric]
      exact gates_corroborate hdrift henforced hx

theorem exists_unmarked (rd : Readings) (a : Attempt)
    (h : (a.evalSalvage rd).map (fun t => t.violations.isEmpty) = some true) :
    ∃ t, SettlesUnmarked rd a t := by
  obtain ⟨t, ht, hempty⟩ := Option.map_eq_some_iff.mp h
  exact ⟨t, ht, List.isEmpty_iff.mp hempty⟩

/-- What the pattern `(1)` finds in the text `1`. -/
def oneText : Readings where
  parse _ text := if text = "1" then some 1 else none
  apart x y := x ≠ y

/-- The workdir holds the file of the metric in another directory than the declared one. -/
def misplaced (writer : Writer) : Tree :=
  let file : Artifact := { mtime := 105, size := 1, bytes := some ⟨"1", writer⟩ }
  { locate := fun rel => if rel = "tmp/metric.txt" then some file else none
    walk := [("tmp/metric.txt", file)] }

/-- The Developer's `train` and the operator's `score` ended well, and the score printed nothing. -/
def silentScore (writer : Writer) : Attempt where
  spec := { metric := [("kind", .str "file_regex"), ("path", .str "out/metric.txt"), ("pattern", .str "(1)")] }
  es := {}
  manifest := some { names := ["train"], named := by decide, reserved := by decide }
  mode := .str "select"
  res :=
    { stdout := ⟨"", .operator⟩
      stages := [{ name := "train", status := .ok }, { name := "score", status := .ok }] }
  tree := misplaced writer
  started := 100
  corrected := misplaced writer

theorem silentScore_came (writer : Writer) : Came (resolveStages (silentScore writer).es
    (silentScore writer).manifest) (silentScore writer).res :=
  .staged [("train", .agent), ("score", .operator)] [{ name := "train", status := .ok }]
    { name := "score", status := .ok } .operator rfl rfl (by decide) (by decide) (fun _ => rfl) rfl
    fun _ _ => rfl

theorem recovered_sound_operator : ∃ t, SettlesUnmarked oneText (silentScore .operator) t ∧
    Competes oneText (silentScore .operator) t := by
  obtain ⟨t, ht⟩ := exists_unmarked oneText (silentScore .operator) (by decide +kernel)
  refine ⟨t, ht, (recovered_sound_iff oneText (silentScore .operator) t (silentScore_came _) ht).mpr ⟨?_, .inr ?_⟩⟩
  · decide
  · exact ⟨⟨"1", .operator⟩, by decide +kernel, rfl⟩

/-- The number of a file the Developer's stage wrote competes as the operator's. -/
theorem agent_file_competes : ∃ t, Came (resolveStages (silentScore .agent).es (silentScore .agent).manifest)
      (silentScore .agent).res ∧ SettlesUnmarked oneText (silentScore .agent) t ∧
    ¬Competes oneText (silentScore .agent) t := by
  obtain ⟨t, ht⟩ := exists_unmarked oneText (silentScore .agent) (by decide +kernel)
  refine ⟨t, silentScore_came _, ht, ?_⟩
  rintro ⟨-, -, -, ⟨b, hb, hwriter⟩, -⟩
  have hagent : (silentScore .agent).numberBytes oneText = some ⟨"1", .agent⟩ := by decide +kernel
  rw [hagent] at hb
  cases hb
  cases hwriter

end LoopLab.Salvage
