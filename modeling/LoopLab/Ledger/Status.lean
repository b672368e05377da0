import LoopLab.Ledger.Returns
import LoopLab.Fold.Selection
import LoopLab.Lib.Front

/-!
# Verdict and status

The verdict says what the evidence of a card shows: an experiment that beat its parents or set a record supports
it.
-/

set_option autoImplicit false

namespace LoopLab
open Lib

/-- `max(a, b)` -/
def Extended.greatest (a b : Extended) : Extended := if a.lt b then b else a

def ledgerBetter (direction : String) (a b : Rat) : Bool := if direction = "max" then a > b else a < b

/-- `max(...)` or `min(...)`, by the direction. -/
def bestOf (direction : String) : List Rat → Option Rat
  | [] => none
  | q :: qs => some (qs.foldl (fun a b => if ledgerBetter direction b a then b else a) q)

section Records
variable (st : RunState)

/-- `_sota_eligible`, under the exclusions of the champion. -/
def sotaEligible (n : Node) : Bool :=
  n.status = .evaluated && !n.tombstoned && countsTowardBest st.breedExcluded st.abortedNodes n
    && n.metric.finiteMetric.isSome

def Node.measured (n : Node) : Rat := n.metric.finiteMetric.getD 0

def contenders : List Node := st.sortedNodes.filter (sotaEligible st)

def settersFrom (direction : String) : Option Rat → List Node → List Int
  | _, [] => []
  | running, n :: rest =>
    if running.all (ledgerBetter direction n.measured) then
      n.id :: settersFrom direction (some n.measured) rest
    else settersFrom direction running rest

def recordSetterIds : List Int := settersFrom st.direction none (contenders st)

def recordEstablisherId : Option Int := (contenders st).head?.map Node.id

/-- `_usable_evidence`: the nodes of a card that are there, and those that count for it. -/
def presentEvidence (evidence : List Int) : List Node :=
  (evidence.filterMap st.nodes.get).filter (!·.tombstoned)

def usableEvidence (untested evidence : List Int) : List Node :=
  (presentEvidence st evidence).filter fun n => sotaEligible st n && !untested.contains n.id

def parentBase (n : Node) : Option Rat :=
  bestOf st.direction (n.parentIds.filterMap fun p =>
    ((st.nodes.get p).filter (·.feasible)).bind (·.metric.finiteMetric))

def supports (n : Node) : Bool :=
  (parentBase st n).any (ledgerBetter st.direction n.measured) ||
    ((recordSetterIds st).contains n.id && recordEstablisherId st ≠ some n.id)

def delta (fl : Floats) (n : Node) : Option Extended :=
  (parentBase st n).map fun base =>
    if st.direction = "max" then fl.minus n.measured (.fin base) else fl.minus base (.fin n.measured)

/-- `best_delta` of `_evidence_verdict` -/
def bestDelta (fl : Floats) (usable : List Node) : Option Extended :=
  match usable.filterMap (delta st fl) with
  | [] => none
  | d :: ds => some (ds.foldl Extended.greatest d)

def evidenceVerdict (untested evidence : List Int) (abandoned : Bool) : CardVerdict :=
  let present := presentEvidence st evidence
  let usable := usableEvidence st untested evidence
  if abandoned then .abandoned
  else if present.isEmpty then .open
  else if usable.any (supports st) then .supported
  else if present.any (·.status = .pending) then .testing
  else if usable.isEmpty then .open
  else .tested

end Records

section Drops
variable (env : LedgerEnv) (aliases : CardAliases)

/-- `_drop_author`: a drop nobody signs is the engine's. -/
def dropAuthor (r : DropRow) : String := (r.droppedBy.filter (· ≠ "")).getD "engine"

structure Drops where
  dropped : Dict String DropRow := Table.empty
  engine : List (String × Nat) := []

def meantCard (r : DropRow) : Option String :=
  ((cardId env r.id).map (aliases.canonAt · r.eventIndex)).filter (· ≠ "")

def dropCard (s : Drops) (r : DropRow) : Drops :=
  match meantCard env aliases r with
  | none => s
  | some id =>
    { dropped := s.dropped.set id r
      engine := if dropAuthor r = "operator" then s.engine else s.engine ++ [(id, r.eventIndex)] }

/-- A reopen undoes only a drop by the operator that no drop by the engine stands behind. -/
def reopenCard (s : Drops) (r : DropRow) : Drops :=
  match (meantCard env aliases r).bind fun id => (s.dropped.get id).map (id, ·) with
  | none => s
  | some (id, prior) =>
    if prior.eventIndex < r.eventIndex && dropAuthor prior = "operator" &&
        !s.engine.any (fun e => e.1 = id && e.2 < r.eventIndex) then
      { s with dropped := Table.erase s.dropped id }
    else s

/-- `_apply_card_drops`: the cards that stand dropped. -/
def droppedCards (board : CardBoard) : Dict String DropRow :=
  (board.cardsReopened.foldl (reopenCard env aliases)
    (board.cardsDropped.foldl (dropCard env aliases) {})).dropped

end Drops

section Lanes
variable (st : RunState)

def Node.built (n : Node) : Bool := n.evalStartBoundary && !n.evalActivityStarted

def gatedEvidence (n : Node) : Bool := st.breedExcluded.contains n.id || !n.feasible

def sortedIds (nodes : List Node) : List Int := (nodes.map Node.id).mergeSort

/-- `_apply_card_status`, for one card: the lane and the nodes it was read off. -/
def cardLane (dropped : Bool) (building : Option (List Int)) (c : Card) : CardStatus × List Int :=
  let present := presentEvidence st c.evidence
  let pending := present.filter (·.status = .pending)
  let started := pending.filter (!·.built)
  if dropped then (.dropped, [])
  else match building with
  | some ids => (.building, ids)
  | none =>
    if present.isEmpty then (.proposed, [])
    else if !started.isEmpty then (.running, sortedIds started)
    else if !pending.isEmpty then (.coded, sortedIds pending)
    else if present.all (gatedEvidence st) then (.gated, sortedIds present)
    else if present.all fun n => n.status = .failed || c.substitutedNodes.contains n.id then
      (.failed, sortedIds present)
    else (.evaluated, sortedIds present)

end Lanes

section Phases
variable (env : LedgerEnv) (inputs : CardInputs) (cards : Cards)

def applyCardVerdicts (controlIds : String → List String) : Cards :=
  cards.mapRows
    (fun c => { c with
      bestDelta := bestDelta inputs.st env.floats (usableEvidence inputs.st c.substitutedNodes c.evidence)
      verdict := evidenceVerdict inputs.st c.substitutedNodes c.evidence
        ((controlIds c.id).any (inputs.board.hypothesesAbandoned.contains ·)) })
    fun _ => rfl

def applyCardStatus (dropped : Dict String DropRow) (building : Dict String (List Int)) : Cards :=
  cards.mapRows
    (fun c =>
      let (status, statusNodes) := cardLane inputs.st (dropped.has c.id) (building.get c.id) c
      { c with status, statusNodes })
    fun _ => rfl

end Phases

end LoopLab

/-!
## What a verdict rests on

A card is supported by gains: an experiment beat the best of its parents, or the record that stood.
-/

namespace LoopLab
open Lib

inductive SupportLevel where
  | replicated
  | singleRun
  | withinNoise
  | notReplicated
  deriving DecidableEq, Repr

/-- `SUPPORT_LEVELS`, the strongest first. -/
def supportLevels : List SupportLevel := [.replicated, .singleRun, .withinNoise, .notReplicated]

/-- The float operations of the host, `std * math.sqrt(2)` with them. -/
structure NoiseFloats extends Floats where
  timesRootTwo : Rat → Extended

def Obj.named (o : Obj) (key : String) : Option String := (o.get key).str?.filter (· ≠ "")

def disagree (a b : Option String) : Bool := a.any fun s => b.any (s ≠ ·)

namespace Node

def replicated (n : Node) : Bool := n.confirmedMean.isSome && n.confirmedSeeds.any (2 ≤ ·)

def comparability (n : Node) : Option Obj := n.metricProvenance.bind fun provenance => (provenance.get "comparability").obj?

def measuredRuler (n : Node) : Option String := do
  let record ← n.comparability
  let keys ← (record.get "keys").obj?
  if keys.isEmpty then none
  else (record.get "protocol").obj?.bind (Obj.named · "profile")

end Node

section Gain
variable (fl : NoiseFloats) (direction : String) (floor : Obj) (candidate incumbent : Node)

def recordsDisagree : Bool :=
  let mine := candidate.comparability.getD []
  let theirs := incumbent.comparability.getD []
  disagree (mine.named "substrate") (theirs.named "substrate") ||
    match (mine.get "protocol").obj?, (theirs.get "protocol").obj? with
    | some ours, some other =>
      ["profile", "scorer", "fingerprint"].any fun facet => disagree (ours.named facet) (other.named facet)
    | _, _ => false

def floorStd : Rat :=
  match (floor.get "std").finiteMetric with
  | none => 0
  | some std =>
    if std ≤ 0 || (floor.get "reason").truthy || (floor.get "protocol_mixed").truthy then 0
    else if recordsDisagree candidate incumbent then 0
    else
      let recorded := floor.get "protocol_profile"
      let rulers := [candidate.measuredRuler, incumbent.measuredRuler]
      if recorded.truthy then
        if rulers.any fun ruler => !ruler.any (recorded.eqStr ·) then 0 else std
      else if rulers.any Option.isSome then 0
      else
        let profile := floor.get "profile"
        let other (n : Node) : Bool :=
          match n.idea.evalProfile with
          | some name => !profile.eqStr name
          | none => !profile.isNull
        if [candidate, incumbent].any other then 0 else std

def gainSupport : SupportLevel :=
  if candidate.replicated && incumbent.replicated then
    let held := oneSeBetter fl.toFloats (candidate.confirmedMean.getD 0) (incumbent.confirmedMean.getD 0)
      (some (candidate.confirmedStd.getD 0)) candidate.confirmedSeeds direction
      (some (incumbent.confirmedStd.getD 0)) incumbent.confirmedSeeds
    if held then .replicated else .notReplicated
  else
    let noiseStd := floorStd floor candidate incumbent
    let gain := if direction = "max" then fl.minus candidate.measured (.fin incumbent.measured)
      else fl.minus incumbent.measured (.fin candidate.measured)
    if 0 < noiseStd && gain.le (fl.timesRootTwo noiseStd) then .withinNoise else .singleRun

end Gain

section Verdict
variable (st : RunState)

/-- `better`, of two measured nodes. -/
def outranks (direction : String) (a b : Node) : Bool := ledgerBetter direction a.measured b.measured

/-- A node that beats the standing record is entered with its holder, and holds it from then on. -/
def recordStep (direction : String) (s : Dict Int Int × Option Node) (n : Node) : Dict Int Int × Option Node :=
  match s.2 with
  | none => (s.1, some n)
  | some holder => if outranks direction n holder then (s.1.set n.id holder.id, some n) else s

def recordBases : Dict Int Int := ((contenders st).foldl (recordStep st.direction) (Table.empty, none)).1

/-- The feasible parents that have a metric: a folded one is finite or missing. -/
def measuredParents (n : Node) : List Node :=
  n.parentIds.filterMap fun p => (st.nodes.get p).filter fun p => p.metric.finiteMetric.isSome && p.feasible

/-- The nodes an experiment beat: the best of its parents, and the holder of the record it broke. -/
def beaten (n : Node) : List Node :=
  let parent := (leader (outranks st.direction) none (measuredParents st n)).filter (outranks st.direction n)
  let holder := ((recordBases st).get n.id).bind st.nodes.get
  parent.toList ++ holder.toList

/-- `verdict_support`; `floor` is the `eval_noise_floor` of the run. -/
def verdictSupport (fl : NoiseFloats) (floor : Obj) (untested evidence : List Int) : Option SupportLevel :=
  let found := (usableEvidence st untested evidence).flatMap fun n =>
    (beaten st n).map (gainSupport fl st.direction floor n)
  supportLevels.find? (found.contains ·)

/-- What `_evidence_verdict` returns. -/
structure EvidenceVerdict where
  bestDelta : Option Extended
  status : CardVerdict
  supported : Bool
  deriving DecidableEq, Repr

def verdictOf (fl : Floats) (untested evidence : List Int) (abandoned : Bool) : EvidenceVerdict where
  bestDelta := bestDelta st fl (usableEvidence st untested evidence)
  status := evidenceVerdict st untested evidence abandoned
  supported := (usableEvidence st untested evidence).any (supports st)

end Verdict

end LoopLab
