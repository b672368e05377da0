import LoopLab.Ledger.Derive
import Mathlib.Data.Prod.Lex

/-!
# Enrichments

A delta adds to a card what was learnt of it: a novelty verdict, a footprint, tags and references, a rank.
-/

set_option autoImplicit false

namespace LoopLab
open Lib

def CARD_ENRICHMENT_JOURNAL_MAX : Nat := 4096
def JSON_SAFE_INT_MAX : Int := 2 ^ 53 - 1
def RESOURCE_INT_MAX : Int := 2 ^ 31 - 1

inductive EnrichmentField where
  | noveltyVerdict | crossRunPrior | footprint | steeringContext | conceptTags | lessonRefs | claimRefs
  | researchOrigin | foresightRank | confidence
  deriving DecidableEq, Repr

namespace EnrichmentField

def name : EnrichmentField → String
  | noveltyVerdict => "novelty_verdict"
  | crossRunPrior => "cross_run_prior"
  | footprint => "footprint"
  | steeringContext => "steering_context"
  | conceptTags => "concept_tags"
  | lessonRefs => "lesson_refs"
  | claimRefs => "claim_refs"
  | researchOrigin => "research_origin"
  | foresightRank => "foresight_rank"
  | confidence => "confidence"

def allowed : List EnrichmentField :=
  [noveltyVerdict, crossRunPrior, footprint, steeringContext, conceptTags, lessonRefs, claimRefs,
   researchOrigin, foresightRank, confidence]

end EnrichmentField

structure Fence where
  nodeId : Int
  generation : Int
  digest : String
  deriving DecidableEq, Repr

structure EnrichmentRow where
  id : String
  fence : Option Fence
  seq : Int
  index : Nat
  field : EnrichmentField
  value : Json
  overflow : Bool := false
  invalid : Bool := false

namespace EnrichmentRow

abbrev Key := String × Option Fence × EnrichmentField

def key (r : EnrichmentRow) : Key := (r.id, r.fence, r.field)

/-- `_card_enrichment_order` -/
def order (r : EnrichmentRow) : Int ×ₗ Nat := toLex (r.seq, r.index)

def filedBefore (x y : EnrichmentRow) : Bool :=
  if x.id ≠ y.id then x.id ≤ y.id
  else if x.field ≠ y.field then x.field.name ≤ y.field.name
  else x.order ≤ y.order

end EnrichmentRow

/-- What the closed receipts of other modules leave of a value, and the digest of a proposal. -/
structure EnrichmentEnv extends LedgerEnv where
  normalizeSteeringContext : Json → Option (List Obj)
  boundedRawConceptValues : List Json → List String × Bool × Bool
  cardCrossRunProjection : Obj → Obj
  ideaProposalDigest : Idea → Option String

/-! ## Bounding a value -/

/-- `_bounded_card_enrichment`, with what is left of the budget. -/
def boundedEnrichment : Nat → Json → Nat → Option Json × Nat
  | 0, _, budget => (none, budget)
  | depth + 1, value, budget =>
    if budget = 0 then (none, 0) else
    let budget := budget - 1
    match value with
    | .int i => (if -JSON_SAFE_INT_MAX ≤ i && i ≤ JSON_SAFE_INT_MAX then some value else none, budget)
    | .str s => (some (.str (Py.cut 400 s)), budget)
    | .arr xs =>
      let (out, budget) := (xs.take 64).foldl
        (fun (acc : List Json × Nat) item =>
          let (kept, left) := boundedEnrichment depth item acc.2
          (acc.1 ++ kept.toList, left))
        ([], budget)
      (some (.arr out), budget)
    | .obj fields =>
      let named := fields.filter fun kv => kv.1 ≠ "" && kv.1.length ≤ 128
      let rows := (named.mergeSort fun a b => a.1 ≤ b.1).take 64
      let (out, budget) := rows.foldl
        (fun (acc : Obj × Nat) kv =>
          let (kept, left) := boundedEnrichment depth kv.2 acc.2
          (acc.1 ++ (kept.map (kv.1, ·)).toList, left))
        ([], budget)
      (some (.obj out), budget)
    | _ => (some value, budget)

def boundedCardEnrichment (value : Json) : Option Json := (boundedEnrichment 5 value 256).1

def resourceInt (value : Json) : Option Int :=
  let number : Option Int := match value with
    | .int i => some i
    | .float q => if q.den = 1 then some q.num else none
    | _ => none
  number.filter fun i => 0 ≤ i && i ≤ RESOURCE_INT_MAX

/-- `normalize_researcher_footprint`; an explicit `null` of memory is kept. -/
def normalizeResearcherFootprint (value : Obj) : Obj :=
  let gpus := (resourceInt (value.get "gpus")).map fun i => ("gpus", Json.int i)
  let memory :=
    if !value.has "gpu_mem_mib" then none
    else if (value.get "gpu_mem_mib").isNull then some ("gpu_mem_mib", Json.null)
    else (resourceInt (value.get "gpu_mem_mib")).map fun i => ("gpu_mem_mib", Json.int i)
  gpus.toList ++ memory.toList

def boundedCardFootprintEnrichment (value : Json) : Option Obj := do
  let fields ← value.obj?
  let known := ["gpus", "gpu_mem_mib", "proposed_by", "finalized_by"]
  let quantities := normalizeResearcherFootprint fields
  let signed (who author : String) : Bool := !fields.has who || (fields.get who).eqStr author
  if fields.isEmpty || !fields.all fun kv => known.contains kv.1 then none
  else if ["gpus", "gpu_mem_mib"].any fun k => fields.has k && !quantities.has k then none
  else if !signed "proposed_by" "researcher" || !signed "finalized_by" "developer" then none
  else
    let authors := [("proposed_by", "researcher"), ("finalized_by", "developer")].filterMap fun kv =>
      if fields.has kv.1 then some (kv.1, Json.str kv.2) else none
    some (quantities ++ authors)

section Receipts
variable (env : EnrichmentEnv)

def boundedCardNoveltyEnrichment (value : Json) : Option Obj := do
  let fields ← value.obj?
  let texts ← ["grade", "recommendation"].mapM fun k =>
    match fields.get k with
    | .null => some []
    | .str s => if s.length ≤ 200 && s.toList.all env.printable then some [(k, Json.str s)] else none
    | _ => none
  let numbers ← [("level", 16), ("near_node", CARD_REPLAY_NODE_ID_MAX),
      ("near_generation", CARD_REPLAY_NODE_ID_MAX)].mapM fun (k, most) =>
    if !fields.has k then some []
    else if (fields.get k).boundedInt 0 most then some [(k, fields.get k)] else none
  let known := ["grade", "level", "near_node", "near_generation", "recommendation"]
  if fields.all fun kv => known.contains kv.1 then some (texts.flatten ++ numbers.flatten) else none

def CARD_CROSS_RUN_ROOT_KEYS : List String :=
  ["v", "matched_concepts", "prior_runs", "prior_runs_total", "prior_runs_omitted",
   "prior_runs_complete", "concept_source"]

def CARD_CROSS_RUN_ROW_KEYS : List String :=
  ["run", "run_id", "metric", "best_metric", "run_best_metric", "similarity", "concepts",
   "matched_concepts", "outcomes", "matched_concept_outcomes", "source_receipt"]

def CARD_CROSS_RUN_SOURCE_KEYS : List String :=
  ["source_complete", "partial_capsules", "source_unknown_capsules", "source_concepts_omitted",
   "source_outcomes_omitted", "source_store_complete", "source_rows_total",
   "source_rows_quarantined", "source_malformed_rows", "source_invalid_capsule_rows",
   "source_duplicate_run_rows"]

def closedObject (keys : List String) (value : Json) : Bool :=
  value.obj?.any fun fields => fields.all fun kv => keys.contains kv.1

def boundedCardCrossRunEnrichment (value : Json) : Option Obj := do
  let fields ← value.obj?
  let runs ← (fields.getD "prior_runs" (.arr [])).arr?
  if closedObject CARD_CROSS_RUN_ROOT_KEYS value && runs.length ≤ 64 &&
    runs.all (closedObject CARD_CROSS_RUN_ROW_KEYS) &&
    closedObject CARD_CROSS_RUN_SOURCE_KEYS (fields.getD "concept_source" (.obj []))
  then some (env.cardCrossRunProjection fields) else none

def boundedCardRef (value : Json) : Option String :=
  value.str?.filter fun s =>
    s ≠ "" && s = Py.strip s && s.length ≤ 400 && s.toList.all env.printable

def validDigestRef (pre s : String) : Bool :=
  pre.toList.isPrefixOf s.toList && s.length = pre.length + 64 &&
    (s.toList.drop pre.length).all fun c => ('0' ≤ c && c ≤ '9') || ('a' ≤ c && c ≤ 'f')

def digestRef (space s : String) : Bool := validDigestRef (space ++ ":sha256:") s

def boundedRefs (space : String) (modern : Bool) (value : Json) : Option Json :=
  value.arr?.map fun items =>
    let refs := (items.take 64).filterMap fun item =>
      (boundedCardRef env item).filter fun s => !modern || digestRef space s
    .arr (refs.eraseDups.map .str)

/-! ## The rows of an event -/

/-- What is kept of a field of a row, with the overflow and the faults of its tags. -/
def enrichmentValue (modern : Bool) (value : Json) : EnrichmentField → Option (Json × Bool × Bool)
  | .conceptTags => value.arr?.map fun items =>
    let (tags, overflow, invalid) := env.boundedRawConceptValues items
    (.arr (tags.map .str), overflow, invalid)
  | .steeringContext => (env.normalizeSteeringContext value).map fun rows =>
    (.arr (rows.map .obj), false, false)
  | .footprint => (boundedCardFootprintEnrichment value).map fun v => (.obj v, false, false)
  | .noveltyVerdict => (boundedCardNoveltyEnrichment env value).map fun v => (.obj v, false, false)
  | .crossRunPrior => (boundedCardCrossRunEnrichment env value).map fun v => (.obj v, false, false)
  | .researchOrigin => ((boundedCardRef env value).filter fun s => !modern || digestRef "memo" s).map
    fun s => (.str s, false, false)
  | .lessonRefs => (boundedRefs env "lesson" modern value).map (·, false, false)
  | .claimRefs => (boundedRefs env "claim" modern value).map (·, false, false)
  | .foresightRank | .confidence => (boundedCardEnrichment value).map (·, false, false)

def enrichedId (d : Obj) : Option String :=
  ((d.get "id").str?.map Py.strip).filter fun s => s ≠ "" && s.length ≤ 256

def enrichmentFence (d : Obj) : Option (Option Fence) :=
  if ["node_id", "generation", "proposal_ref"].all fun k => !d.has k then some none else
  match d.get "node_id", d.get "generation", d.get "proposal_ref" with
  | .int nodeId, .int generation, .obj ref =>
    match Obj.get ref "digest" with
    | .str digest =>
      if (Json.int nodeId).boundedInt 0 CARD_REPLAY_NODE_ID_MAX &&
        (Json.int generation).boundedInt 0 CARD_REPLAY_NODE_ID_MAX &&
        ref.all (fun kv => kv.1 = "v" || kv.1 = "digest") && (Obj.get ref "v").eqInt 1 &&
        validDigestRef "idea:v1:" digest
      then some (some { nodeId, generation, digest }) else none
    | _ => none
  | _, _, _ => none

/-- The candidates of a `card_enriched` row, one for each field it keeps. -/
def enrichmentRows (seq : Int) (index : Nat) (d : Obj) : List EnrichmentRow :=
  match enrichedId d, enrichmentFence d with
  | some id, some fence =>
    EnrichmentField.allowed.filterMap fun field =>
      if !d.has field.name then none else
      (enrichmentValue env fence.isSome (d.get field.name) field).map fun (value, overflow, invalid) =>
        { id, fence, seq, index, field, value, overflow, invalid }
  | _, _ => []

def CARD_ENRICHED : String := "card_enriched"

def eventRows (e : Event) (index : Nat) : List EnrichmentRow :=
  if e.type = CARD_ENRICHED then enrichmentRows env e.seq index e.data else []

/-! ## The journal -/

structure EnrichmentJournal where
  rows : Table EnrichmentRow.key := Table.empty
  omissions : List EnrichmentRow.Key := []

def EnrichmentJournal.record (j : EnrichmentJournal) (r : EnrichmentRow) : EnrichmentJournal :=
  match j.rows.get r.key with
  | some prior => if prior.order ≤ r.order then { j with rows := j.rows.put r } else j
  | none =>
    if j.rows.rows.length < CARD_ENRICHMENT_JOURNAL_MAX then { j with rows := j.rows.put r }
    else { j with omissions := j.omissions.insert r.key }

structure EnrichmentState where
  journal : EnrichmentJournal := {}
  index : Nat := 0

def onCardEnriched (s : EnrichmentState) (e : Event) : EnrichmentState where
  journal := (eventRows env e s.index).foldl EnrichmentJournal.record s.journal
  index := s.index + 1

def replayEnrichment (log : List Event) : EnrichmentState := log.foldl (onCardEnriched env) {}

end Receipts

/-! ## The ledger's side -/

/-- What the enrichment phase finds: the nodes, the cards so far and the names they go under. -/
structure EnrichmentBoard where
  st : RunState
  canon : String → String
  cards : Cards

section Compaction
variable (env : EnrichmentEnv) (b : EnrichmentBoard)

def EnrichmentBoard.cardOfNode (nodeId : Int) : Option String :=
  (b.cards.rows.find? fun c =>
    (c.evidence ++ c.discardedNodes ++ c.substitutedNodes).contains nodeId).map Card.id

/-- `_card_sidecar_subject` of a fenced row: its proposal still owns the node. -/
def EnrichmentBoard.subject (f : Fence) : Option String := do
  let n ← b.st.nodes.get f.nodeId
  let card ← b.cardOfNode f.nodeId
  let digest ← env.ideaProposalDigest n.idea
  if n.tombstoned || b.st.aborted n.id || f.generation ≠ n.attempt || f.digest ≠ digest then none
  else some card

def EnrichmentBoard.canonical (raw : String) : Option String := (cardId env.toLedgerEnv raw).map b.canon

def EnrichmentBoard.fenceHolds (fence : Option Fence) (id : String) : Bool :=
  match fence with
  | none => true
  | some f => b.subject env f = some id

def EnrichmentBoard.binds (id : String) (r : EnrichmentRow) : Bool :=
  b.canonical env r.id = some id && b.fenceHolds env r.fence id

structure Winner where
  applicable : Bool
  row : EnrichmentRow

def Winner.group (w : Winner) : String × EnrichmentField := (w.row.id, w.row.field)

/-- A row that binds outranks one that does not; among equals the newest stands. -/
def Winner.yields (prior next : Winner) : Bool :=
  (next.applicable && !prior.applicable) ||
    (next.applicable = prior.applicable && prior.row.order ≤ next.row.order)

def EnrichmentBoard.candidate (r : EnrichmentRow) : Option Winner :=
  ((b.canonical env r.id).filter b.cards.has).map fun id =>
    { applicable := b.fenceHolds env r.fence id, row := { r with id } }

def contest (winners : Table Winner.group) (w : Winner) : Table Winner.group :=
  match winners.get w.group with
  | some prior => if prior.yields w then winners.put w else winners
  | none => winners.put w

def recompactCardEnrichment (journal : EnrichmentJournal) : List EnrichmentRow :=
  let winners := (journal.rows.rows.filterMap (b.candidate env)).foldl contest Table.empty
  (winners.rows.map Winner.row).mergeSort EnrichmentRow.filedBefore

def incompleteCards (journal : EnrichmentJournal) : List String :=
  journal.omissions.filterMap fun k => (b.canonical env k.1).filter b.cards.has

end Compaction

/-! ## Applying a row -/

structure Enrichment where
  noveltyVerdict : Option Obj := none
  crossRunPrior : Option Obj := none
  footprint : Option Obj := none
  steeringContext : List Obj := []
  concepts : Concepts := {}
  lessonRefs : List String := []
  claimRefs : List String := []
  researchOrigin : Option String := none
  foresightRank : Option Nat := none
  confidence : Option Rat := none

inductive EnrichmentUpdate where
  | noveltyVerdict (v : Option Obj)
  | crossRunPrior (v : Option Obj)
  | footprint (v : Option Obj)
  | steeringContext (rows : List Obj)
  | conceptTags (concepts : Concepts)
  | lessonRefs (refs : List String)
  | claimRefs (refs : List String)
  | researchOrigin (v : Option String)
  | foresightRank (rank : Option Nat)
  | confidence (c : Option Rat)

namespace EnrichmentUpdate

def field : EnrichmentUpdate → EnrichmentField
  | noveltyVerdict _ => .noveltyVerdict
  | crossRunPrior _ => .crossRunPrior
  | footprint _ => .footprint
  | steeringContext _ => .steeringContext
  | conceptTags _ => .conceptTags
  | lessonRefs _ => .lessonRefs
  | claimRefs _ => .claimRefs
  | researchOrigin _ => .researchOrigin
  | foresightRank _ => .foresightRank
  | confidence _ => .confidence

end EnrichmentUpdate

namespace Enrichment

def write (e : Enrichment) : EnrichmentUpdate → Enrichment
  | .noveltyVerdict v => { e with noveltyVerdict := v }
  | .crossRunPrior v => { e with crossRunPrior := v }
  | .footprint v => { e with footprint := v }
  | .steeringContext rows => { e with steeringContext := rows }
  | .conceptTags concepts => { e with concepts }
  | .lessonRefs refs => { e with lessonRefs := refs }
  | .claimRefs refs => { e with claimRefs := refs }
  | .researchOrigin v => { e with researchOrigin := v }
  | .foresightRank rank => { e with foresightRank := rank }
  | .confidence c => { e with confidence := c }

def held (e : Enrichment) : EnrichmentField → EnrichmentUpdate
  | .noveltyVerdict => .noveltyVerdict e.noveltyVerdict
  | .crossRunPrior => .crossRunPrior e.crossRunPrior
  | .footprint => .footprint e.footprint
  | .steeringContext => .steeringContext e.steeringContext
  | .conceptTags => .conceptTags e.concepts
  | .lessonRefs => .lessonRefs e.lessonRefs
  | .claimRefs => .claimRefs e.claimRefs
  | .researchOrigin => .researchOrigin e.researchOrigin
  | .foresightRank => .foresightRank e.foresightRank
  | .confidence => .confidence e.confidence

end Enrichment

/-- `_proposal_card_concept_source` of an enrichment. -/
def enrichedConceptSource (overflow invalid : Bool) : Json :=
  .obj [("kind", .str CARD_ENRICHED), ("membership_present", .bool true),
    ("complete", .bool (!overflow && !invalid)), ("overflow", .bool overflow), ("invalid", .bool invalid)]

def appliedRefs (items : List Json) : List String :=
  (((items.take 64).filterMap Json.str?).map fun s => Py.cut 400 (Py.strip s)).filter (· ≠ "") |>.eraseDups

def EnrichmentRow.settle (r : EnrichmentRow) : Option EnrichmentUpdate :=
  let bounded := (r.value.obj?.bind fun _ => boundedCardEnrichment r.value).bind Json.obj?
  match r.field with
  | .noveltyVerdict => bounded.map fun v => .noveltyVerdict (some v)
  | .crossRunPrior => bounded.map fun v => .crossRunPrior (some v)
  | .footprint => bounded.map fun v => .footprint (some v)
  | .conceptTags => r.value.arr?.map fun items => .conceptTags
    { tags := ((items.take 64).filterMap Json.str?).eraseDups
      source := enrichedConceptSource r.overflow r.invalid
      tier := none }
  | .lessonRefs => r.value.arr?.map fun items => .lessonRefs (appliedRefs items)
  | .claimRefs => r.value.arr?.map fun items => .claimRefs (appliedRefs items)
  | .steeringContext => r.value.arr?.map fun items => .steeringContext
    ((items.take 64).filterMap fun item =>
      (item.obj?.bind fun _ => boundedCardEnrichment item).bind Json.obj?)
  | .researchOrigin => r.value.str?.map fun s => .researchOrigin (some (Py.cut 400 s))
  | .foresightRank =>
    if r.value.isBool then none else
    (r.value.toInt.filter fun i => 0 ≤ i && i < 256).map fun i => .foresightRank (some i.toNat)
  | .confidence =>
    if r.value.isBool then none else
    (r.value.toFloat.filter fun q => 0 ≤ q && q ≤ 1).map fun q => .confidence (some q)

def applyRow (e : Enrichment) (r : EnrichmentRow) : Enrichment :=
  if r.field = .conceptTags && e.concepts.ofNode then e
  else match r.settle with
    | some u => e.write u
    | none => e

section Apply
variable (env : EnrichmentEnv) (b : EnrichmentBoard)

def bindingRows (rows : List EnrichmentRow) (id : String) : List EnrichmentRow :=
  (rows.mergeSort fun x y => x.order ≤ y.order).filter (b.binds env id)

/-- `_apply_card_enrichment`, its last loop, for one card. -/
def applyCardEnrichment (rows : List EnrichmentRow) (id : String) (before : Enrichment) : Enrichment :=
  (bindingRows env b rows id).foldl applyRow before

end Apply

section Derive
variable (env : EnrichmentEnv)

def enrichmentBoard (log : List Event) : EnrichmentBoard :=
  let inputs := cardInputs env.toLedgerEnv (replayBoard env.toLedgerEnv log)
  let merged := mergedLedger env.toLedgerEnv inputs
  { st := inputs.st
    canon := merged.aliases.canon
    cards := judgedCards env.toLedgerEnv inputs merged true }

def enrichedCard (log : List Event) (id : String) (before : Enrichment) : Enrichment :=
  let b := enrichmentBoard env log
  applyCardEnrichment env b (recompactCardEnrichment env b (replayEnrichment env log).journal) id before

end Derive

end LoopLab
