import LoopLab.Lib.Table
import Mathlib.Data.Rat.Defs
import Mathlib.Algebra.Order.Ring.Unbundled.Rat

/-!
# Spans and whose they are

A trace is the set of spans with one trace id; it may serve several nodes.
-/

set_option autoImplicit false

namespace LoopLab.Trace
open LoopLab.Lib

inductive NodeRef where
  | num (n : Nat)
  | name (s : String)
  deriving DecidableEq, Repr

/-- `str(node_id)` -/
def NodeRef.str : NodeRef → String
  | num n => toString n
  | name s => s

/-- A row of the trace as the projection leaves it, as far as it says whose it is. -/
structure Span where
  traceId : String
  spanId : String
  parentId : Option String := none
  name : String := "span"
  start : Rat := 0
  nodeId : Option NodeRef := none
  generation : Option Int := none
  buildTrace : Option String := none
  cardId : Option String := none
  deriving DecidableEq, Repr

def firstMin {α : Type} (key : α → Rat) : List α → Option α
  | [] => none
  | a :: as => some (as.foldl (fun best b => if key b < key best then b else best) a)

/-- `{s["span_id"]: s for s in spans}` -/
def byId (spans : List Span) : Table Span.spanId := spans.foldl Table.put Table.empty

/-- `trace_root_span`: the earliest span whose parent is not in the trace. -/
def traceRootSpan (spans : List Span) : Option Span :=
  let ids := byId spans
  firstMin Span.start (ids.rows.filter fun s => !s.parentId.any (ids.has ·))

def rootSpanGeneration (root : Option Span) : Int :=
  ((root.bind Span.generation).filter (0 ≤ ·)).getD 0

def rootSpanNodeId (root : Option Span) : Option NodeRef := root.bind Span.nodeId

def effectiveNodeId (s : Span) (traceRootNid : Option NodeRef) : Option NodeRef :=
  s.nodeId.or traceRootNid

abbrev Claim := NodeRef × Int

/-- `span_build_trace_claim`: the trace a span claims, with the claim; no span claims its own. -/
def spanBuildTraceClaim (s : Span) : Option (String × Claim) := do
  let nid ← s.nodeId
  let claimed ← s.buildTrace
  if claimed = "" || claimed = s.traceId then none
  else some (claimed, nid, (s.generation.filter (0 ≤ ·)).getD 0)

structure ClaimFold where
  claims : Dict String Claim := Table.empty
  conflicting : List String := []

/-- `claims.setdefault(claimed, claim)`, noting a claim by another node. -/
def ClaimFold.note (s : ClaimFold) (span : Span) : ClaimFold :=
  match spanBuildTraceClaim span with
  | none => s
  | some (claimed, claim) =>
    let prior := (s.claims.get claimed).getD claim
    { claims := s.claims.set claimed prior
      conflicting :=
        if prior.1.str ≠ claim.1.str then s.conflicting ++ [claimed] else s.conflicting }

/-- `claimed_build_traces`: a trace that two nodes claim is nobody's. -/
def claimedBuildTraces (spans : List Span) : Dict String Claim :=
  let folded := spans.foldl ClaimFold.note {}
  folded.conflicting.foldl Table.erase folded.claims

def claimedTraceNodeId (claimed : Dict String Claim) (traceId : String) (generation : Option Int) :
    Option NodeRef :=
  ((claimed.get traceId).filter fun c => !generation.any (c.2 ≠ ·)).map Prod.fst

/-- `by_trace`: the spans of each trace. -/
def byTrace (spans : List Span) : Dict String (List Span) :=
  spans.foldl (fun d s => d.set s.traceId (((d.get s.traceId).getD []) ++ [s])) Table.empty

/-- What a trace lends its unstamped spans; a trace of another generation is out of scope. A claimed
build ran before the node did, so it has the generation of the claim and not of its root. -/
def scopeOf (claimed : Dict String Claim) (generation : Option Int) (traceId : String)
    (spans : List Span) : Option (Option NodeRef) :=
  let root := traceRootSpan spans
  let rootNid := rootSpanNodeId root
  match if rootNid.isNone then claimedTraceNodeId claimed traceId generation else none with
  | some nid => some (some nid)
  | none => if generation.any (rootSpanGeneration root ≠ ·) then none else some rootNid

/-- `trace_scope`: the traces in scope. -/
def traceScope (claimed : Dict String Claim) (generation : Option Int)
    (traces : Dict String (List Span)) : Dict String (Option NodeRef) :=
  traces.collect Prod.fst (fun t => (scopeOf claimed generation t.1 t.2).map (t.1, ·))
    (by
      intro t e h
      obtain ⟨scope, -, rfl⟩ := Option.map_eq_some_iff.mp h
      rfl)

/-- `_bounded_node_trace_tail` before its cap: the rows of the whole run that belong to a node. -/
def nodeTraceRows (spans : List Span) (target : String) (generation : Option Int) : List Span :=
  let scopes := traceScope (claimedBuildTraces spans) generation (byTrace spans)
  spans.filter fun s =>
    (scopes.get s.traceId).any fun scope => (effectiveNodeId s scope).any (·.str = target)

/-- `card_research_root_card`, where it names a card. -/
def cardResearchRootCard (s : Span) : Option String :=
  if (s.parentId.filter (· ≠ "")).isSome || s.name ≠ "propose" then none
  else s.cardId.filter (· ≠ "")

end LoopLab.Trace

/-!
## The span index

The rows of the trace with their places in the source, and the maps that find the rows of a trace and the traces of
a node.
-/

namespace LoopLab.Trace
open LoopLab.Lib

structure Record where
  span : Span
  offset : Nat
  length : Nat
  digest : String
  deriving DecidableEq, Repr

/-- `d[k].add(v)` -/
def addTo {κ : Type} [DecidableEq κ] (d : Dict κ (List String)) (k : κ) (v : String) :
    Dict κ (List String) :=
  let old := (d.get k).getD []
  d.set k (if old.contains v then old else old ++ [v])

/-- `d[k].discard(v)` -/
def discardFrom (d : Dict String (List String)) (k v : String) : Dict String (List String) :=
  d.set k (((d.get k).getD []).filter (· ≠ v))

/-- `SpanIndex`; `places` is its `meta`. -/
structure SpanIndex where
  light : List Span := []
  places : List (Nat × Nat) := []
  rowDigests : List String := []
  bySid : Dict String Nat := Table.empty
  byTid : Dict String (List Nat) := Table.empty
  nodeTids : Dict String (List String) := Table.empty
  buildClaims : Dict String Claim := Table.empty
  buildClaimConflicts : List String := []
  nodeBuildTids : Dict String (List String) := Table.empty
  cardProposeTids : Dict String (List String) := Table.empty

namespace SpanIndex
variable (idx : SpanIndex)

/-- `_claim_build_trace`: a contested trace stays nobody's. -/
def claimBuildTrace (s : Span) : SpanIndex :=
  match spanBuildTraceClaim s with
  | none => idx
  | some (claimed, claim) =>
    if idx.buildClaimConflicts.contains claimed then idx else
    match idx.buildClaims.get claimed with
    | none =>
      { idx with
        buildClaims := idx.buildClaims.set claimed claim
        nodeBuildTids := addTo idx.nodeBuildTids claim.1.str claimed }
    | some prior =>
      if prior.1.str ≠ claim.1.str then
        { idx with
          buildClaimConflicts := idx.buildClaimConflicts ++ [claimed]
          buildClaims := Table.erase idx.buildClaims claimed
          nodeBuildTids := discardFrom idx.nodeBuildTids prior.1.str claimed }
      else idx

def place (r : Record) : SpanIndex :=
  { idx with
    light := idx.light ++ [r.span]
    places := idx.places ++ [(r.offset, r.length)]
    rowDigests := idx.rowDigests ++ [r.digest]
    bySid := idx.bySid.set r.span.spanId idx.light.length
    byTid := idx.byTid.set r.span.traceId (((idx.byTid.get r.span.traceId).getD []) ++ [idx.light.length]) }

def noteNode (s : Span) : SpanIndex :=
  match s.nodeId with
  | none => idx
  | some nid => { idx with nodeTids := addTo idx.nodeTids nid.str s.traceId }

def noteCard (s : Span) : SpanIndex :=
  match cardResearchRootCard s with
  | none => idx
  | some card => { idx with cardProposeTids := addTo idx.cardProposeTids card s.traceId }

def append (r : Record) : SpanIndex :=
  (((idx.place r).noteNode r.span).claimBuildTrace r.span).noteCard r.span

def extend (records : List Record) : SpanIndex := records.foldl append idx

def nodeRowsOfTrace (target : String) (generation : Option Int) (tid : String) : List Nat :=
  let traceRows := (idx.byTid.get tid).getD []
  let traceRoot := traceRootSpan (traceRows.filterMap (idx.light[·]?))
  let scope := rootSpanNodeId traceRoot
  let claimedNid := if scope.isNone then claimedTraceNodeId idx.buildClaims tid generation else none
  let keep := fun (scope : Option NodeRef) => traceRows.filter fun row =>
    ((idx.light[row]?).bind (effectiveNodeId · scope)).any (·.str = target)
  match claimedNid with
  | some nid => keep (some nid)
  | none => if generation.any (rootSpanGeneration traceRoot ≠ ·) then [] else keep scope

def rowsForNode (target : String) (generation : Option Int) : List Nat :=
  let candidates := (((idx.nodeTids.get target).getD []) ++ ((idx.nodeBuildTids.get target).getD [])).eraseDups
  (candidates.flatMap (idx.nodeRowsOfTrace target generation)).mergeSort

end SpanIndex

end LoopLab.Trace
