import LoopLab.Engine.RepairLoop

/-!
# Repair allowances survive process deaths

Each counter of the loop is a read of rows that it writes itself, so a run of the loop keeps the two
equal: the chain of a live process is the one a fresh process would seed from the log, and the rows of
the log never exceed what the settings allow, wherever processes died.
-/

set_option autoImplicit false

namespace LoopLab.Engine.Repairs
open EvalSeconds

/-- The inline repairs among the repair rows. -/
def inlineRows (log : List Event) (nodeId : Int) (generation : Nat) : List Obj :=
  (payloads "node_repaired" log nodeId generation).filter fun d => !isSalvage d

/-- The stages accepted rows name, oldest first. -/
def acceptedStages (str : Json → String) (log : List Event) (nodeId : Int) (generation : Nat) :
    List String :=
  (payloads "stage_rollback" log nodeId generation).filterMap (acceptedStage str)

/-- The counts 1, 2, ..., n, as rows write them. -/
def counts (n : Nat) : List Json := (List.range n).map fun i => .int (i + 1)

def repairBound (settings : RepairSettings) : Nat :=
  min (effectiveRepairCap settings.inlineRepairAttempts) unlimitedRepairCeiling

theorem counts_succ (n : Nat) : counts (n + 1) = counts n ++ [.int (n + 1)] := by
  simp [counts, List.range_succ]

section Rows
variable {nodeId : Int} {generation : Nat}

theorem payloads_append (type : String) (log : List Event) (e : Event) :
    payloads type (log ++ [e]) nodeId generation = payloads type log nodeId generation ++
      if isRow type nodeId generation e then [e.data] else [] := by
  unfold payloads
  rw [List.filter_append, List.map_append]
  by_cases h : isRow type nodeId generation e <;> simp [h]

theorem belongs_of_stamps {d : Obj} (hnode : d.get "node_id" = .int nodeId)
    (hhas : d.has "generation" = true) (hstamp : d.get "generation" = .int generation) :
    durableRowBelongs d nodeId generation = true := by
  simp [durableRowBelongs, coerceNodeId, hnode, Json.coerceInt, eventGenerationBinds,
    eventGeneration, hhas, hstamp, stampOf]

theorem isRow_rowEvent (type : String) {other : String} {d : Obj}
    (hours : durableRowBelongs d nodeId generation = true) :
    isRow type nodeId generation (rowEvent other d) = (other == type) := by
  simp [isRow, rowEvent, hours]

theorem payloads_rowEvent (type : String) (log : List Event) {other : String} {d : Obj}
    (hours : durableRowBelongs d nodeId generation = true) :
    payloads type (log ++ [rowEvent other d]) nodeId generation =
      payloads type log nodeId generation ++ if other = type then [d] else [] := by
  rw [payloads_append, isRow_rowEvent type hours]
  by_cases h : other = type <;> simp [h, rowEvent]

end Rows

theorem durableCount_counts {key : String} {rows : List Obj} {n : Nat}
    (h : rows.map (·.get key) = counts n) : durableCount key rows = n := by
  induction n generalizing rows with
  | zero =>
    have hnil : rows = [] := by simpa [counts] using h
    subst hnil
    rfl
  | succ n ih =>
    rcases List.eq_nil_or_concat rows with rfl | ⟨before, d, rfl⟩
    · simp [counts_succ] at h
    · rw [counts_succ, List.concat_eq_append, List.map_append] at h
      obtain ⟨hbefore, hlast⟩ := List.append_inj' h (by simp)
      have hcount := ih hbefore
      have hd : d.get key = .int (n + 1) := by simpa using hlast
      unfold durableCount at hcount ⊢
      rw [List.concat_eq_append, List.foldl_append, hcount]
      have hmax : max (n : Int) (n + 1) = n + 1 := by omega
      simp [hd, Json.int?, hmax]

/-! ## The readers, one row at a time -/

section Readers
variable (texts : Texts) {nodeId : Int} {generation : Nat}

theorem ledger_attempts (rows : List Obj) (ledger : Ledger) :
    (rows.foldl (Ledger.add texts) ledger).attempts =
      (rows.filter fun d => !isSalvage d).foldl (fun count d =>
        match (d.get "attempt").int? with
        | some n => max count n
        | none => count + 1) ledger.attempts := by
  induction rows generalizing ledger with
  | nil => rfl
  | cons d rest ih =>
    rw [List.foldl_cons, ih]
    by_cases h : isSalvage d = true
    · simp [Ledger.add, h]
    · have hd : isSalvage d = false := by simpa using h
      have hadd : (Ledger.add texts ledger d).attempts = match (d.get "attempt").int? with
          | some n => max ledger.attempts n
          | none => ledger.attempts + 1 := by
        cases hattempt : (d.get "attempt").int? <;> simp [Ledger.add, hd, hattempt]
      simp only [hd, List.filter_cons, Bool.not_false, if_true, List.foldl_cons, hadd]

theorem durableRepairLedger_attempts (log : List Event) :
    (durableRepairLedger texts log nodeId generation).attempts =
      durableCount "attempt" (inlineRows log nodeId generation) :=
  ledger_attempts texts _ .empty

theorem durableRepairLedger_append (log : List Event) {d : Obj}
    (hours : durableRowBelongs d nodeId generation = true) :
    durableRepairLedger texts (log ++ [rowEvent "node_repaired" d]) nodeId generation =
      (durableRepairLedger texts log nodeId generation).add texts d := by
  unfold durableRepairLedger
  rw [payloads_rowEvent _ _ hours, List.foldl_append]
  rfl

theorem durableRollbacks_append (str : Json → String) (log : List Event) {d : Obj}
    (hours : durableRowBelongs d nodeId generation = true) :
    durableRollbacks str (log ++ [rowEvent "stage_rollback" d]) nodeId generation =
      match acceptedStage str d with
      | some stage => insert stage (durableRollbacks str log nodeId generation)
      | none => durableRollbacks str log nodeId generation := by
  unfold durableRollbacks
  rw [payloads_rowEvent _ _ hours, List.foldl_append]
  rfl

theorem mem_durableRollbacks (str : Json → String) (log : List Event) (stage : String) :
    stage ∈ durableRollbacks str log nodeId generation ↔
      stage ∈ acceptedStages str log nodeId generation := by
  have hfold : ∀ (rows : List Obj) (out : Finset String),
      stage ∈ rows.foldl (fun out d =>
        match acceptedStage str d with
        | some stage => insert stage out
        | none => out) out ↔ stage ∈ out ∨ stage ∈ rows.filterMap (acceptedStage str) := by
    intro rows
    induction rows with
    | nil => simp
    | cons d rest ih =>
      intro out
      rw [List.foldl_cons, ih]
      cases h : acceptedStage str d with
      | none => simp [h]
      | some named =>
        rw [List.filterMap_cons_some h, Finset.mem_insert, List.mem_cons]
        tauto
  have hrows := hfold (payloads "stage_rollback" log nodeId generation) ∅
  rw [or_iff_right (Finset.notMem_empty stage)] at hrows
  exact hrows

end Readers

/-! ## What a run keeps -/

section Run
variable (texts : Texts) (settings : RepairSettings) (nodeId : Int) (generation : Nat)

structure Live (log : List Event) (c : Chain) : Prop where
  attempt : c.attempt = (durableRepairLedger texts log nodeId generation).attempts
  repairLog : c.phase ≠ .settled →
    c.repairLog = (durableRepairLedger texts log nodeId generation).rows
  unparseable : c.phase ≠ .settled →
    c.unparseableRepairs = (durableRepairLedger texts log nodeId generation).unparseable
  rolledTo : c.rolledTo = durableRollbacks texts.str log nodeId generation
  fullRetrains : c.fullRetrains = durableFullRetrains log nodeId generation

structure Allowed (s : State) : Prop where
  numbered : (inlineRows s.log nodeId generation).map (·.get "attempt") =
    counts (inlineRows s.log nodeId generation).length
  bounded : (inlineRows s.log nodeId generation).length ≤ repairBound settings
  once : (acceptedStages texts.str s.log nodeId generation).Nodup
  charged : (payloads "full_retrain_charged" s.log nodeId generation).map (·.get "spent") =
    counts (payloads "full_retrain_charged" s.log nodeId generation).length
  capped : settings.inlineRepairRetrainCap ≠ 0 →
    (payloads "full_retrain_charged" s.log nodeId generation).length ≤
      settings.inlineRepairRetrainCap
  live : ∀ c, s.chain = some c → Live texts nodeId generation s.log c

variable {texts settings nodeId generation}

theorem live_seed (log : List Event) :
    Live texts nodeId generation log (seedLedgers texts log nodeId generation) :=
  ⟨rfl, fun _ => rfl, fun _ => rfl, rfl, rfl⟩

theorem Allowed.attempts_eq {s : State} (h : Allowed texts settings nodeId generation s) :
    (durableRepairLedger texts s.log nodeId generation).attempts =
      (inlineRows s.log nodeId generation).length := by
  rw [durableRepairLedger_attempts, durableCount_counts h.numbered]

theorem Allowed.retrains_eq {s : State} (h : Allowed texts settings nodeId generation s) :
    durableFullRetrains s.log nodeId generation =
      (payloads "full_retrain_charged" s.log nodeId generation).length :=
  durableCount_counts h.charged

theorem Allowed.of_chain {s : State} (h : Allowed texts settings nodeId generation s)
    {chain : Option Chain} (hlive : ∀ c, chain = some c → Live texts nodeId generation s.log c) :
    Allowed texts settings nodeId generation { s with chain := chain } :=
  ⟨h.numbered, h.bounded, h.once, h.charged, h.capped, hlive⟩

theorem Live.settle {log : List Event} {c : Chain} (h : Live texts nodeId generation log c)
    (unparseable : Int) :
    Live texts nodeId generation log
      { c with unparseableRepairs := unparseable, phase := .settled } :=
  ⟨h.attempt, fun hphase => absurd rfl hphase, fun hphase => absurd rfl hphase, h.rolledTo,
    h.fullRetrains⟩

theorem Allowed.bystander {s : State} (h : Allowed texts settings nodeId generation s) {e : Event}
    (he : readsRow nodeId generation e = false) :
    Allowed texts settings nodeId generation { s with log := s.log ++ [e] } := by
  simp only [readsRow, Bool.or_eq_false_iff] at he
  obtain ⟨⟨hrepaired, hrollback⟩, hcharged⟩ := he
  have hsame : ∀ type, isRow type nodeId generation e = false →
      payloads type (s.log ++ [e]) nodeId generation = payloads type s.log nodeId generation := by
    intro type htype
    simp [payloads_append, htype]
  have hledger := hsame _ hrepaired
  have hstages := hsame _ hrollback
  have hcharges := hsame _ hcharged
  constructor
  · simpa only [inlineRows, hledger] using h.numbered
  · simpa only [inlineRows, hledger] using h.bounded
  · simpa only [acceptedStages, hstages] using h.once
  · simpa only [hcharges] using h.charged
  · simpa only [hcharges] using h.capped
  · intro c hc
    have hlive := h.live c hc
    constructor
    · simpa only [durableRepairLedger, hledger] using hlive.attempt
    · simpa only [durableRepairLedger, hledger] using hlive.repairLog
    · simpa only [durableRepairLedger, hledger] using hlive.unparseable
    · simpa only [durableRollbacks, hstages] using hlive.rolledTo
    · simpa only [durableFullRetrains, hcharges] using hlive.fullRetrains

theorem Allowed.repair_row {s : State} (h : Allowed texts settings nodeId generation s) {d : Obj}
    (hours : durableRowBelongs d nodeId generation = true) {c : Chain}
    (hnumbered : isSalvage d = false →
      d.get "attempt" = .int ((inlineRows s.log nodeId generation).length + 1) ∧
      (inlineRows s.log nodeId generation).length < repairBound settings)
    (hlive : Live texts nodeId generation (s.log ++ [rowEvent "node_repaired" d]) c) :
    Allowed texts settings nodeId generation
      { log := s.log ++ [rowEvent "node_repaired" d], chain := some c } := by
  have hinline : inlineRows (s.log ++ [rowEvent "node_repaired" d]) nodeId generation =
      inlineRows s.log nodeId generation ++ if isSalvage d then [] else [d] := by
    unfold inlineRows
    rw [payloads_rowEvent _ _ hours, List.filter_append]
    cases hd : isSalvage d <;> simp [hd]
  have hother : ∀ type, "node_repaired" ≠ type →
      payloads type (s.log ++ [rowEvent "node_repaired" d]) nodeId generation =
        payloads type s.log nodeId generation := by
    intro type htype
    rw [payloads_rowEvent _ _ hours, if_neg htype, List.append_nil]
  have hstages := hother "stage_rollback" (by decide)
  have hcharges := hother "full_retrain_charged" (by decide)
  constructor
  · rw [hinline]
    cases hd : isSalvage d with
    | true => simpa using h.numbered
    | false =>
      obtain ⟨hattempt, -⟩ := hnumbered hd
      simp only [Bool.false_eq_true, if_false, List.map_append, List.length_append,
        List.length_singleton, counts_succ, h.numbered, List.map_cons, List.map_nil, hattempt]
  · rw [hinline]
    cases hd : isSalvage d with
    | true => simpa using h.bounded
    | false =>
      obtain ⟨-, hroom⟩ := hnumbered hd
      simp only [Bool.false_eq_true, if_false, List.length_append, List.length_singleton]
      omega
  · simpa only [acceptedStages, hstages] using h.once
  · simpa only [hcharges] using h.charged
  · simpa only [hcharges] using h.capped
  · intro c' hc'
    cases hc'
    exact hlive

theorem room_of_floor {attempt : Nat}
    (h : repairFloorStop attempt settings.inlineRepairAttempts unlimitedRepairCeiling = none) :
    attempt < repairBound settings := by
  unfold repairFloorStop at h
  split_ifs at h with hcap hceiling
  unfold repairBound effectiveRepairCap
  split_ifs with hzero <;> omega

theorem floor_of_gate {ctx : RepairGateContext} (h : (repairGate ctx).1 = true) :
    ctx.floorStop = none := by
  unfold repairGate at h
  cases hstop : ctx.floorStop with
  | none => rfl
  | some stop => cases hon : ctx.inlineRepair <;> simp [hstop, hon] at h

theorem repairFloorStop_of_floorStop {c : Chain} {f : Failure}
    (h : floorStop texts settings c f = none) :
    repairFloorStop c.attempt settings.inlineRepairAttempts unlimitedRepairCeiling = none := by
  unfold floorStop at h
  cases hfloor : repairFloorStop c.attempt settings.inlineRepairAttempts unlimitedRepairCeiling with
  | none => rfl
  | some stop => simp [hfloor] at h

theorem le_repairProviderFailure (developerError : Bool) (defect : Option Defect)
    (unparseable : Int) :
    unparseable ≤ (repairProviderFailure developerError defect unparseable).2 := by
  simp only [repairProviderFailure]
  split_ifs <;> omega

variable (nodeId generation) in
theorem belongs_repairPayload (attempt unparseable : Int) (columns : Columns) :
    durableRowBelongs (repairPayload nodeId generation attempt unparseable columns) nodeId generation
      = true :=
  belongs_of_stamps rfl rfl rfl

variable (nodeId generation) in
theorem repairPayload_read (attempt unparseable : Int) (columns : Columns) :
    (repairPayload nodeId generation attempt unparseable columns).get "attempt" = .int attempt ∧
      isSalvage (repairPayload nodeId generation attempt unparseable columns) = false ∧
      (repairPayload nodeId generation attempt unparseable columns).get "unparseable_repairs" =
        .int unparseable := by
  have haction : (repairPayload nodeId generation attempt unparseable columns).get "triage_action" =
      .str "repair" := rfl
  refine ⟨rfl, ?_, ?_⟩
  · rw [isSalvage, haction]
    decide
  · unfold repairPayload
    cases columns.failureSignature <;> cases columns.judgeDeferred <;> split_ifs <;> rfl

theorem Allowed.decide {s : State} (h : Allowed texts settings nodeId generation s) {c : Chain}
    (hc : s.chain = some c) (hphase : c.phase = .evaluating) (f : Failure) (lets : Bool)
    (reply : Reply) :
    Allowed texts settings nodeId generation
      (decideRepair texts settings nodeId generation s c f lets reply) := by
  have hlive := h.live c hc
  have hattempt : c.attempt = (inlineRows s.log nodeId generation).length := by
    rw [hlive.attempt, h.attempts_eq]
  simp only [decideRepair]
  split_ifs with hgate hfailed
  · apply h.of_chain
    rintro c' ⟨⟩
    exact hlive.settle c.unparseableRepairs
  · apply h.of_chain
    rintro c' ⟨⟩
    exact hlive.settle _
  · have hroom : (inlineRows s.log nodeId generation).length < repairBound settings := by
      apply room_of_floor
      rw [← hattempt]
      simp only [Bool.or_eq_true, Bool.not_eq_true', not_or, Bool.not_eq_false] at hgate
      exact repairFloorStop_of_floorStop (floor_of_gate hgate.1.1)
    obtain ⟨hordinal, hinline, hcounter⟩ := repairPayload_read nodeId generation
      (c.attempt + 1)
      (repairProviderFailure reply.developerError reply.defect c.unparseableRepairs).2 reply.columns
    apply h.repair_row (belongs_repairPayload _ _ _ _ _)
    · intro _
      exact ⟨by rw [hordinal, hattempt], hroom⟩
    · have hledger := durableRepairLedger_append texts s.log (belongs_repairPayload nodeId
        generation (c.attempt + 1)
        (repairProviderFailure reply.developerError reply.defect c.unparseableRepairs).2
        reply.columns)
      have hother : ∀ type, "node_repaired" ≠ type → payloads type (s.log ++
          [rowEvent "node_repaired" (repairPayload nodeId generation (c.attempt + 1)
            (repairProviderFailure reply.developerError reply.defect c.unparseableRepairs).2
            reply.columns)]) nodeId generation = payloads type s.log nodeId generation := by
        intro type htype
        rw [payloads_rowEvent _ _ (belongs_repairPayload _ _ _ _ _), if_neg htype, List.append_nil]
      have hmax : max (durableRepairLedger texts s.log nodeId generation).attempts (c.attempt + 1) =
          c.attempt + 1 := by
        rw [← hlive.attempt]
        omega
      have hopen : c.phase ≠ .settled := by
        rw [hphase]
        decide
      have hlog := hlive.repairLog hopen
      have hbefore := hlive.unparseable hopen
      have hmore := le_repairProviderFailure reply.developerError reply.defect c.unparseableRepairs
      constructor
      · rw [hledger]
        simp only [Ledger.add, hinline, hordinal, Json.int?, Bool.false_eq_true, if_false, hmax]
      · rw [hledger]
        intro _
        simp only [Ledger.add, hinline, hordinal, Json.int?, Bool.false_eq_true, if_false, hmax,
          hlog]
      · intro _
        rw [hledger]
        simp only [Ledger.add, hcounter, Json.int?, Option.getD_some, ← hbefore]
        omega
      · simpa only [durableRollbacks, hother "stage_rollback" (by decide)] using hlive.rolledTo
      · simpa only [durableFullRetrains, hother "full_retrain_charged" (by decide)]
          using hlive.fullRetrains

/-! ### A salvaged metric's row -/

variable (nodeId generation) in
theorem belongs_salvagePayload (attempt : Int) (columns : SalvageColumns) :
    durableRowBelongs (salvagePayload nodeId generation attempt columns) nodeId generation = true :=
  belongs_of_stamps rfl rfl rfl

variable (nodeId generation) in
theorem isSalvage_salvagePayload (attempt : Int) (columns : SalvageColumns) :
    isSalvage (salvagePayload nodeId generation attempt columns) = true := by
  have haction : (salvagePayload nodeId generation attempt columns).get "triage_action" =
      .str salvageCauseTriageAction := rfl
  rw [isSalvage, haction]
  decide

theorem Allowed.salvage {s : State} (h : Allowed texts settings nodeId generation s) {c : Chain}
    (hc : s.chain = some c) (columns : SalvageColumns) :
    Allowed texts settings nodeId generation
      { log := s.log ++ [rowEvent "node_repaired"
          (salvagePayload nodeId generation c.attempt columns)]
        chain := some { c with phase := .settled } } := by
  have hlive := h.live c hc
  have hours := belongs_salvagePayload nodeId generation c.attempt columns
  have hsalvage := isSalvage_salvagePayload nodeId generation c.attempt columns
  have hother : ∀ type, "node_repaired" ≠ type → payloads type (s.log ++
      [rowEvent "node_repaired" (salvagePayload nodeId generation c.attempt columns)]) nodeId
        generation = payloads type s.log nodeId generation := by
    intro type htype
    rw [payloads_rowEvent _ _ hours, if_neg htype, List.append_nil]
  apply h.repair_row hours
  · intro hinline
    rw [hsalvage] at hinline
    cases hinline
  · constructor
    · rw [durableRepairLedger_append texts s.log hours]
      simp only [Ledger.add, hsalvage, if_true]
      exact hlive.attempt
    · exact fun hphase => absurd rfl hphase
    · exact fun hphase => absurd rfl hphase
    · simpa only [durableRollbacks, hother "stage_rollback" (by decide)] using hlive.rolledTo
    · simpa only [durableFullRetrains, hother "full_retrain_charged" (by decide)]
        using hlive.fullRetrains

/-! ### The rollback row -/

theorem rollbackStart_fresh {quoted : String → String} {p : Placement} {ask suspect : String}
    {rolledTo : Finset String} (h : (rollbackStart quoted p ask rolledTo).1 = some suspect) :
    suspect = Py.strip ask ∧ suspect ≠ "" ∧ suspect ∉ rolledTo := by
  unfold rollbackStart at h
  by_cases hblank : Py.strip ask = ""
  · simp [hblank] at h
  by_cases hspent : Py.strip ask ∈ rolledTo
  · simp only [hblank, hspent, if_true, if_false] at h
    split_ifs at h
  · have hsuspect : suspect = Py.strip ask := by
      simp only [hblank, hspent, if_false] at h
      repeat' split at h
      all_goals first
        | exact (Option.some.inj h).symm
        | cases h
    rw [hsuspect]
    exact ⟨rfl, hblank, hspent⟩

variable (nodeId generation) in
theorem belongs_rollbackPayload (attempt : Int) (p : Placement) (ask : String)
    (answer : Option String × Option String) (nextStart : Option String) :
    durableRowBelongs (rollbackPayload nodeId generation attempt p ask answer nextStart) nodeId
      generation = true :=
  belongs_of_stamps rfl rfl rfl

variable (texts nodeId generation) in
theorem acceptedStage_rollbackPayload (attempt : Int)
    (p : Placement) {ask : String} (hask : ask ≠ "") (answer : Option String × Option String)
    (nextStart : Option String) :
    acceptedStage texts.str (rollbackPayload nodeId generation attempt p ask answer nextStart) =
      if answer.1.isSome then some ask else none := by
  have hstage : (rollbackPayload nodeId generation attempt p ask answer nextStart).get "stage" =
      .str ask := rfl
  have haccepted : (rollbackPayload nodeId generation attempt p ask answer nextStart).get "accepted" =
      .bool answer.1.isSome := rfl
  simp [acceptedStage, hstage, haccepted, Json.isTrue, Json.truthy, hask, Texts.str]

theorem Allowed.rollback_row {s : State} (h : Allowed texts settings nodeId generation s) {d : Obj}
    (hours : durableRowBelongs d nodeId generation = true) {c : Chain}
    (hfresh : ∀ stage, acceptedStage texts.str d = some stage →
      stage ∉ durableRollbacks texts.str s.log nodeId generation)
    (hlive : Live texts nodeId generation s.log
      { c with rolledTo := durableRollbacks texts.str s.log nodeId generation })
    (hrolled : c.rolledTo = match acceptedStage texts.str d with
      | some stage => insert stage (durableRollbacks texts.str s.log nodeId generation)
      | none => durableRollbacks texts.str s.log nodeId generation) :
    Allowed texts settings nodeId generation
      { log := s.log ++ [rowEvent "stage_rollback" d], chain := some c } := by
  have hother : ∀ type, "stage_rollback" ≠ type →
      payloads type (s.log ++ [rowEvent "stage_rollback" d]) nodeId generation =
        payloads type s.log nodeId generation := by
    intro type htype
    rw [payloads_rowEvent _ _ hours, if_neg htype, List.append_nil]
  have hledger := hother "node_repaired" (by decide)
  have hcharges := hother "full_retrain_charged" (by decide)
  constructor
  · simpa only [inlineRows, hledger] using h.numbered
  · simpa only [inlineRows, hledger] using h.bounded
  · have hstages : acceptedStages texts.str (s.log ++ [rowEvent "stage_rollback" d]) nodeId
        generation = acceptedStages texts.str s.log nodeId generation ++
          (acceptedStage texts.str d).toList := by
      unfold acceptedStages
      rw [payloads_rowEvent _ _ hours, if_pos rfl, List.filterMap_append]
      cases hd : acceptedStage texts.str d <;> simp [hd]
    rw [hstages]
    cases hd : acceptedStage texts.str d with
    | none => simpa using h.once
    | some stage =>
      have hnew := hfresh stage hd
      rw [mem_durableRollbacks] at hnew
      rw [Option.toList_some, List.nodup_append]
      refine ⟨h.once, List.nodup_singleton _, ?_⟩
      rintro a ha b hb rfl
      rw [List.mem_singleton] at hb
      exact hnew (hb ▸ ha)
  · simpa only [hcharges] using h.charged
  · simpa only [hcharges] using h.capped
  · rintro c' ⟨⟩
    constructor
    · simpa only [durableRepairLedger, hledger] using hlive.attempt
    · simpa only [durableRepairLedger, hledger] using hlive.repairLog
    · simpa only [durableRepairLedger, hledger] using hlive.unparseable
    · rw [durableRollbacks_append texts.str s.log hours, hrolled]
    · simpa only [durableFullRetrains, hcharges] using hlive.fullRetrains

theorem Allowed.place {s : State}
    (h : Allowed texts settings nodeId generation s) {c : Chain} (hc : s.chain = some c)
    (hphase : c.phase = .repaired) (p : Placement) :
    Allowed texts settings nodeId generation (placeRepair texts nodeId generation s c p) := by
  have hlive := h.live c hc
  have hopen : c.phase ≠ .settled := by
    rw [hphase]
    decide
  simp only [placeRepair]
  by_cases hstop : (Decidable.decide (inertRepairLimit ≤ inertStreak c.repairLog) ||
      p.recheckSettles) = true
  · rw [if_pos hstop]
    apply h.of_chain
    rintro c' ⟨⟩
    exact hlive.settle c.unparseableRepairs
  rw [if_neg hstop]
  by_cases hask : Py.strip p.rollbackStage = ""
  · rw [if_pos hask]
    apply h.of_chain
    rintro c' ⟨⟩
    exact ⟨hlive.attempt, fun _ => hlive.repairLog hopen, fun _ => hlive.unparseable hopen,
      hlive.rolledTo, hlive.fullRetrains⟩
  · rw [if_neg hask]
    have hstage := acceptedStage_rollbackPayload texts nodeId generation c.attempt p hask
    apply h.rollback_row (belongs_rollbackPayload _ _ _ _ _ _ _)
    · intro stage hnamed
      rw [hstage] at hnamed
      split_ifs at hnamed with haccepted
      obtain ⟨suspect, hsuspect⟩ := Option.isSome_iff_exists.mp haccepted
      obtain ⟨hname, -, hfresh⟩ := rollbackStart_fresh hsuspect
      rw [strip_idem] at hname
      cases hnamed
      rw [← hlive.rolledTo, ← hname]
      exact hfresh
    · exact ⟨hlive.attempt, fun _ => hlive.repairLog hopen, fun _ => hlive.unparseable hopen, rfl,
        hlive.fullRetrains⟩
    · rw [hstage, ← hlive.rolledTo]
      cases hanswer : (rollbackStart texts.quoted p (Py.strip p.rollbackStage) c.rolledTo).1 with
      | none => simp
      | some suspect =>
        obtain ⟨hname, -, -⟩ := rollbackStart_fresh hanswer
        rw [strip_idem] at hname
        simp [hname]

/-! ### The charge -/

theorem Allowed.charge {s : State} (h : Allowed texts settings nodeId generation s) {c : Chain}
    (hc : s.chain = some c) (hphase : c.phase = .placed true) :
    Allowed texts settings nodeId generation (chargeRetrain settings nodeId generation s c) := by
  have hlive := h.live c hc
  have hopen : c.phase ≠ .settled := by
    rw [hphase]
    decide
  have hspent : c.fullRetrains =
      (payloads "full_retrain_charged" s.log nodeId generation).length := by
    rw [hlive.fullRetrains, h.retrains_eq]
  simp only [chargeRetrain]
  split_ifs with hcap
  · apply h.of_chain
    rintro c' ⟨⟩
    exact hlive.settle c.unparseableRepairs
  · have hours : durableRowBelongs [("node_id", .int nodeId), ("generation", .int generation),
        ("spent", .int (c.fullRetrains + 1)), ("attempt", .int c.attempt)] nodeId generation = true :=
      belongs_of_stamps rfl rfl rfl
    have hother : ∀ type, "full_retrain_charged" ≠ type → payloads type (s.log ++
        [rowEvent "full_retrain_charged" [("node_id", .int nodeId), ("generation", .int generation),
          ("spent", .int (c.fullRetrains + 1)), ("attempt", .int c.attempt)]]) nodeId generation =
            payloads type s.log nodeId generation := by
      intro type htype
      rw [payloads_rowEvent _ _ hours, if_neg htype, List.append_nil]
    have hledger := hother "node_repaired" (by decide)
    have hstages := hother "stage_rollback" (by decide)
    have hcharges : payloads "full_retrain_charged" (s.log ++ [rowEvent "full_retrain_charged"
        [("node_id", .int nodeId), ("generation", .int generation),
          ("spent", .int (c.fullRetrains + 1)), ("attempt", .int c.attempt)]]) nodeId generation =
        payloads "full_retrain_charged" s.log nodeId generation ++
          [[("node_id", .int nodeId), ("generation", .int generation),
            ("spent", .int (c.fullRetrains + 1)), ("attempt", .int c.attempt)]] := by
      rw [payloads_rowEvent _ _ hours, if_pos rfl]
    have hcharged : (payloads "full_retrain_charged" (s.log ++
        [rowEvent "full_retrain_charged" [("node_id", .int nodeId), ("generation", .int generation),
          ("spent", .int (c.fullRetrains + 1)), ("attempt", .int c.attempt)]]) nodeId generation).map
            (·.get "spent") =
        counts ((payloads "full_retrain_charged" s.log nodeId generation).length + 1) := by
      rw [hcharges, List.map_append, h.charged, counts_succ, hspent]
      rfl
    constructor
    · simpa only [inlineRows, hledger] using h.numbered
    · simpa only [inlineRows, hledger] using h.bounded
    · simpa only [acceptedStages, hstages] using h.once
    · rw [hcharged, hcharges, List.length_append]
      rfl
    · intro hpositive
      rw [hcharges, List.length_append, List.length_singleton]
      have hroom : ¬ (settings.inlineRepairRetrainCap : Int) ≤ c.fullRetrains :=
        fun hle => hcap ⟨hpositive, hle⟩
      omega
    · rintro c' ⟨⟩
      constructor
      · simpa only [durableRepairLedger, hledger] using hlive.attempt
      · intro _
        simpa only [durableRepairLedger, hledger] using hlive.repairLog hopen
      · intro _
        simpa only [durableRepairLedger, hledger] using hlive.unparseable hopen
      · simpa only [durableRollbacks, hstages] using hlive.rolledTo
      · rw [durableFullRetrains, durableCount_counts hcharged, hspent]
        push_cast
        rfl

theorem Allowed.step {s s' : State} {op : Op}
    (h : Allowed texts settings nodeId generation s)
    (hstep : Repairs.step texts settings nodeId generation s op = some s') :
    Allowed texts settings nodeId generation s' := by
  cases op with
  | bystander e =>
    cases he : readsRow nodeId generation e with
    | true => simp [Repairs.step, he] at hstep
    | false =>
      simp only [Repairs.step, he, Bool.false_eq_true, if_false, Option.some.injEq] at hstep
      subst hstep
      exact h.bystander he
  | resume =>
    cases hc : s.chain with
    | some c => simp [Repairs.step, hc] at hstep
    | none =>
      simp only [Repairs.step, hc, Option.some.injEq] at hstep
      subst hstep
      apply h.of_chain
      rintro c ⟨⟩
      exact live_seed s.log
  | die =>
    simp only [Repairs.step, Option.some.injEq] at hstep
    subst hstep
    exact h.of_chain fun c hc => nomatch hc
  | settle =>
    cases hc : s.chain with
    | none => simp [Repairs.step, hc] at hstep
    | some c =>
      simp only [Repairs.step, hc] at hstep
      split_ifs at hstep
      cases hstep
      apply h.of_chain
      rintro c' ⟨⟩
      exact (h.live c hc).settle c.unparseableRepairs
  | salvage columns =>
    cases hc : s.chain with
    | none => simp [Repairs.step, hc] at hstep
    | some c =>
      simp only [Repairs.step, hc] at hstep
      split_ifs at hstep
      · cases hstep
        apply h.of_chain
        rintro c' ⟨⟩
        exact (h.live c hc).settle c.unparseableRepairs
      · cases hstep
        exact h.salvage hc columns
  | decide f lets reply =>
    cases hc : s.chain with
    | none => simp [Repairs.step, hc] at hstep
    | some c =>
      simp only [Repairs.step, hc] at hstep
      split_ifs at hstep with hphase
      cases hstep
      exact h.decide hc hphase f lets reply
  | place p =>
    cases hc : s.chain with
    | none => simp [Repairs.step, hc] at hstep
    | some c =>
      simp only [Repairs.step, hc] at hstep
      split_ifs at hstep with hphase
      cases hstep
      exact h.place hc hphase p
  | charge =>
    cases hc : s.chain with
    | none => simp [Repairs.step, hc] at hstep
    | some c =>
      have hlive := h.live c hc
      cases hphase : c.phase with
      | placed forces =>
        cases forces with
        | true =>
          simp only [Repairs.step, hc, hphase, Option.some.injEq] at hstep
          subst hstep
          exact h.charge hc hphase
        | false =>
          simp only [Repairs.step, hc, hphase, Option.some.injEq] at hstep
          subst hstep
          have hopen : c.phase ≠ .settled := by
            rw [hphase]
            decide
          apply h.of_chain
          rintro c' ⟨⟩
          exact ⟨hlive.attempt, fun _ => hlive.repairLog hopen, fun _ => hlive.unparseable hopen,
            hlive.rolledTo, hlive.fullRetrains⟩
      | _ => simp [Repairs.step, hc, hphase] at hstep

end Run

section Lifecycle
variable (texts : Texts) (settings : RepairSettings) (nodeId : Int) (generation : Nat)

/-- A run of the lifecycle: rows, resumes, deaths and decisions in any order the loop allows. -/
def run (s : State) (ops : List Op) : Option State := ops.foldlM (step texts settings nodeId generation) s

variable {texts settings nodeId generation}

theorem Allowed.run {s s' : State} {ops : List Op}
    (h : Allowed texts settings nodeId generation s)
    (hrun : Repairs.run texts settings nodeId generation s ops = some s') :
    Allowed texts settings nodeId generation s' := by
  induction ops generalizing s with
  | nil =>
    cases hrun
    exact h
  | cons op rest ih =>
    simp only [Repairs.run, List.foldlM_cons] at hrun
    obtain ⟨next, hstep, hrest⟩ := Option.bind_eq_some_iff.mp hrun
    exact ih (h.step hstep) hrest

theorem allowed_start {log : List Event} (hfresh : ∀ e ∈ log, readsRow nodeId generation e = false) :
    Allowed texts settings nodeId generation { log := log, chain := none } := by
  have hnone : ∀ type, type ∈ ["node_repaired", "stage_rollback", "full_retrain_charged"] →
      payloads type log nodeId generation = [] := by
    intro type htype
    unfold payloads
    rw [List.map_eq_nil_iff, List.filter_eq_nil_iff]
    intro e he hrow
    have hnot := hfresh e he
    simp only [readsRow, Bool.or_eq_false_iff] at hnot
    simp only [List.mem_cons, List.not_mem_nil, or_false] at htype
    rcases htype with rfl | rfl | rfl
    · simp [hnot.1.1] at hrow
    · simp [hnot.1.2] at hrow
    · simp [hnot.2] at hrow
  have hledger := hnone "node_repaired" (by decide)
  have hstages := hnone "stage_rollback" (by decide)
  have hcharges := hnone "full_retrain_charged" (by decide)
  exact ⟨by simp [inlineRows, hledger, counts], by simp [inlineRows, hledger],
    by simp [acceptedStages, hstages], by simp [hcharges, counts], by simp [hcharges],
    fun c hc => nomatch hc⟩

/-- Wherever processes die, the rows of a lifecycle stay within its settings, and at every repair
decision, and at the inert floor behind it, a live process holds the counters and the ledger that a
fresh one would seed from the log. -/
theorem allowances_survive {log : List Event}
    (hfresh : ∀ e ∈ log, readsRow nodeId generation e = false) {ops : List Op} {s : State}
    (hrun : Repairs.run texts settings nodeId generation { log := log, chain := none } ops = some s) :
    (inlineRows s.log nodeId generation).length ≤
      (if settings.inlineRepairAttempts = 0 then 50 else min settings.inlineRepairAttempts 50) ∧
    (∀ stage, (acceptedStages texts.str s.log nodeId generation).count stage ≤ 1) ∧
    (settings.inlineRepairRetrainCap ≠ 0 →
      (payloads "full_retrain_charged" s.log nodeId generation).length ≤
        settings.inlineRepairRetrainCap ∧
      (payloads "full_retrain_charged" s.log nodeId generation).map (·.get "spent") =
        counts (payloads "full_retrain_charged" s.log nodeId generation).length) ∧
    (∀ c, s.chain = some c → c.phase ≠ .settled →
      { c with phase := .evaluating } = seedLedgers texts s.log nodeId generation) := by
  have hallowed := (allowed_start hfresh).run hrun
  refine ⟨?_, ?_, ?_, ?_⟩
  · have hbound := hallowed.bounded
    unfold repairBound effectiveRepairCap unlimitedRepairCeiling at hbound
    split_ifs at hbound ⊢ <;> omega
  · exact fun stage => List.nodup_iff_count_le_one.mp hallowed.once stage
  · exact fun hpositive => ⟨hallowed.capped hpositive, hallowed.charged⟩
  · intro c hc hopen
    have hlive := hallowed.live c hc
    simp only [seedLedgers, hlive.attempt, hlive.repairLog hopen, hlive.unparseable hopen,
      hlive.rolledTo, hlive.fullRetrains]

/-- Two repairs of a training stage, the process dying after the first one's row. -/
def interruptedRepairs : List Op :=
  let failure : Failure := { reason := "crash", signature := .null }
  let reply : Reply :=
    { columns :=
        { errorIn := "KeyError", rationale := "rename the key", changed := ["train.py"],
          stagesPassed := 1, verified := "verified", reason := "crash", engineReason := "crash" } }
  let placement : Placement :=
    { stages := ["mine", "train"], failedStage := "train", rollbackStage := " mine ",
      changed := ["mine.py"], reachable := some ["mine.py"], stagesRun := 2 }
  [.resume, .decide failure true reply, .die, .resume, .decide failure true reply, .place placement,
    .charge]

def plainTexts : Texts where
  render _ := ""
  quoted s := s
  tail s := s

theorem allowances_survive_interrupted :
    ∃ s, Repairs.run plainTexts { inlineRepairAttempts := 2, inlineRepairRetrainCap := 1 } 4 0
        { log := [], chain := none } interruptedRepairs = some s ∧
      (inlineRows s.log 4 0).length = 2 ∧ acceptedStages plainTexts.str s.log 4 0 = ["mine"] ∧
      ∀ c, s.chain = some c → c.phase ≠ .settled →
        { c with phase := .evaluating } = seedLedgers plainTexts s.log 4 0 := by
  let settings : RepairSettings := { inlineRepairAttempts := 2, inlineRepairRetrainCap := 1 }
  have hsome : (Repairs.run plainTexts settings 4 0 { log := [], chain := none }
      interruptedRepairs).isSome = true := by
    decide +kernel
  obtain ⟨s, hs⟩ := Option.isSome_iff_exists.mp hsome
  have hrows : (Repairs.run plainTexts settings 4 0 { log := [], chain := none }
      interruptedRepairs).map (fun s =>
        ((inlineRows s.log 4 0).length, acceptedStages plainTexts.str s.log 4 0)) =
          some (2, ["mine"]) := by
    decide +kernel
  have hfacts := allowances_survive (by simp) hs
  simp only [hs, Option.map_some, Option.some.injEq, Prod.mk.injEq] at hrows
  exact ⟨s, hs, hrows.1, hrows.2, hfacts.2.2.2⟩

end Lifecycle

end LoopLab.Engine.Repairs
