import LoopLab.Fold.Concepts
import LoopLab.Lib.Search
import LoopLab.Serve.Comments

/-!
# Concept edges declared by commands

A command declares parents of concepts.
-/

set_option autoImplicit false

namespace LoopLab.Serve
open Lib

def MAX_CONCEPT_ID_CHARS : Nat := 256

def MAX_CONCEPT_ID_DEPTH : Nat := 12

/-- The letters of the host: `str.lower` and `str.isalnum`, which no blank is. -/
structure Letters where
  lower : String → String
  alnum : Char → Bool
  blank : ∀ c, alnum c = true → Py.isSpace c = false

section Normalize
variable (letters : Letters)

/-- `s.strip("/")` -/
def stripSlashes (cs : List Char) : List Char := (cs.dropWhile (· = '/')).rdropWhile (· = '/')

def partOk (part : List Char) : Bool :=
  part.any letters.alnum && part.all fun c => letters.alnum c || c = '-' || c = '.' || c = '_'

def normalizeConceptId (raw : Json) : Option String :=
  match raw with
  | .str s =>
    if MAX_CONCEPT_ID_CHARS < s.length then none
    else
      let value := stripSlashes ((letters.lower (Py.strip s)).toList.map fun c => if c = ' ' then '-' else c)
      let parts := value.splitOn '/'
      if value = [] || MAX_CONCEPT_ID_CHARS < value.length then none
      else if MAX_CONCEPT_ID_DEPTH < parts.length then none
      else if parts.all (partOk letters) then some (String.ofList value)
      else none
  | _ => none

def CONCEPT_EDGE_RELATIONS : List String := ["is_a", "part_of"]

def CONCEPT_EDGES_PER_COMMAND : Nat := 64

def authoredEdge (src rel dst : String) : ConceptEdge :=
  { src, rel, dst, provenance := "authored", confidence := 1 }

def badEdge (index : Nat) (text : String) : Refusal :=
  { status := 400, message := "edges[" ++ toString index ++ "]" ++ text }

/-- One row of `edges`. -/
def normalizeEdgeRow (index : Nat) (row : Json) : Except Refusal ConceptEdge :=
  match row.obj? with
  | none => .error (badEdge index " must be an object \x7bsrc, rel, dst\x7d")
  | some ed =>
    let rel := ed.getD "rel" (.str "is_a")
    match normalizeConceptId letters (ed.get "src"), normalizeConceptId letters (ed.get "dst") with
    | some src, some dst =>
      match rel.str?.filter (CONCEPT_EDGE_RELATIONS.contains ·) with
      | none => .error (badEdge index (".rel must be one of " ++ ", ".intercalate CONCEPT_EDGE_RELATIONS))
      | some rel =>
        if src = dst then .error (badEdge index " names one concept as its own parent")
        else .ok (authoredEdge src rel dst)
    | _, _ => .error (badEdge index " needs valid concept ids in src and dst")

def normalizeEdgeRows : List ConceptEdge → List (Nat × Json) → Except Refusal (List ConceptEdge)
  | edges, [] => .ok edges
  | edges, (index, row) :: rows =>
    match normalizeEdgeRow letters index row with
    | .error refusal => .error refusal
    | .ok e => normalizeEdgeRows (if e ∈ edges then edges else edges ++ [e]) rows

end Normalize

/-- `parents.setdefault(src, set()).add(dst)` -/
def addParent (parents : Dict String (List String)) (e : ConceptEdge) : Dict String (List String) :=
  parents.set e.src (((parents.get e.src).getD []).insert e.dst)

def parentsOf (edges : List ConceptEdge) : Dict String (List String) :=
  (edges.filter (CONCEPT_EDGE_RELATIONS.contains ·.rel)).foldl addParent Table.empty

def conceptEdgeCycle (folded : Table ConceptEdge.key) (edges : List ConceptEdge) : Option String :=
  let parents := parentsOf (folded.rows ++ edges)
  edges.findSome? fun e =>
    if reaches parents e.src [e.dst] [] then
      some ("edge " ++ e.src ++ " -> " ++ e.dst ++ " would make " ++ e.src ++ " its own ancestor")
    else none

/-- `_normalize_concept_edge`: the edges of the command, against the fold its intake has. -/
def normalizeConceptEdge (letters : Letters) (folded : Table ConceptEdge.key) (raw : Json) :
    Except Refusal (List ConceptEdge) :=
  match raw with
  | .arr (row :: rows) =>
    if CONCEPT_EDGES_PER_COMMAND < rows.length + 1 then
      .error { status := 400, message := "edges exceeds " ++ toString CONCEPT_EDGES_PER_COMMAND ++ " per command" }
    else
      match normalizeEdgeRows letters [] ((row :: rows).zipIdx.map Prod.swap) with
      | .error refusal => .error refusal
      | .ok edges =>
        match conceptEdgeCycle folded edges with
        | some cycle => .error { status := 400, message := cycle }
        | none => .ok edges
  | _ => .error { status := 400, message := "edges must be a non-empty list of \x7bsrc, rel, dst\x7d" }

def preconditionConceptEdge (folded : Table ConceptEdge.key) (edges : List ConceptEdge) : Option Refusal :=
  (conceptEdgeCycle folded edges).map fun cycle =>
    { code := "concept_edge_cycle", message := cycle
      remediation := "refresh the run's concept edges; another edge landed since this was checked" }

def edgeJson (e : ConceptEdge) : Json :=
  .obj [("src", .str e.src), ("rel", .str e.rel), ("dst", .str e.dst), ("provenance", .str e.provenance),
    ("confidence", .float e.confidence)]

def conceptEdgeEvent (actorKind : String) (edges : List ConceptEdge) : Event where
  type := "concept_edge"
  data := [("edges", .arr (edges.map edgeJson)), ("mode", .str "authored"), ("actor_kind", .str actorKind)]

/-! ## The run of commands -/

inductive Entry where
  | command (actorKind : String) (edges : List ConceptEdge)
  | other (e : Event)

def Entry.event : Entry → Event
  | command actorKind edges => conceptEdgeEvent actorKind edges
  | other e => e

def operatorEdges (log : List Entry) : List ConceptEdge :=
  log.flatMap fun
    | .command _ edges => edges
    | .other _ => []

structure Intents where
  log : List Entry := []
  pending : List (String × List ConceptEdge) := []

inductive IntentAct where
  | submit (seen : Nat) (actorKind : String) (raw : Json)
  | land (index : Nat)
  | write (e : Event)

section Run
variable (env : Env) (double : Json → Double) (letters : Letters)

def foldedEdges (log : List Entry) : Table ConceptEdge.key := (conceptGraph env double (log.map Entry.event)).edges

def intentStep (s : Intents) : IntentAct → Intents
  | .submit seen actorKind raw =>
    match normalizeConceptEdge letters (foldedEdges env double (s.log.take seen)) raw with
    | .error _ => s
    | .ok edges => { s with pending := s.pending ++ [(actorKind, edges)] }
  | .land index =>
    match s.pending[index]? with
    | none => s
    | some (actorKind, edges) =>
      let left := { s with pending := s.pending.eraseIdx index }
      match preconditionConceptEdge (foldedEdges env double s.log) edges with
      | some _ => left
      | none => { left with log := s.log ++ [.command actorKind edges] }
  | .write e => { s with log := s.log ++ [.other e] }

def intentRun (acts : List IntentAct) : Intents := acts.foldl (intentStep env double letters) {}

end Run

end LoopLab.Serve
