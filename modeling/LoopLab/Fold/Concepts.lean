import LoopLab.State
import Mathlib.Algebra.Order.Ring.Unbundled.Rat
import Mathlib.Data.Prod.Lex
import Mathlib.Data.String.Basic

/-!
# The concept graph of a run

Typed edges between concepts and the renames of a vocabulary accumulate over the log: of the edges
under one key the greatest stays, of the renames of one name the least.
-/

set_option autoImplicit false

namespace LoopLab
open Lib

/-- What `float` makes of a number. -/
inductive Double where
  | finite (q : Rat)
  | negZero
  | nan
  | infinite (negative : Bool)
  deriving DecidableEq, Repr

/-- A double an edge may be ranked by: what is not finite is zero, and zero has no sign. -/
def Double.ranked : Double → Rat
  | finite q => q
  | _ => 0

structure ConceptEdge where
  src : String
  rel : String
  dst : String
  provenance : String
  confidence : Rat
  deriving DecidableEq, Repr

namespace ConceptEdge

/-- `"\t".join((src, rel, dst))` -/
def key (e : ConceptEdge) : String := String.intercalate (String.singleton '\t') [e.src, e.rel, e.dst]

/-- `_EDGE_PROV_RANK` -/
def provRank (prov : String) : Nat :=
  if prov = "asserted" then 2 else if prov = "evidenced" then 1 else 0

def rank (e : ConceptEdge) : Rat ×ₗ Nat ×ₗ String :=
  toLex (e.confidence, toLex (provRank e.provenance, e.provenance))

end ConceptEdge

structure ConceptGraph where
  edges : Table ConceptEdge.key := Table.empty
  consolidation : Dict String String := Table.empty

/-- `"\t" in s` -/
def hasTab (s : String) : Bool := s.toList.contains '\t'

def edgeRows (d : Obj) : List Json :=
  match d.get "edges" with
  | .arr rows => rows
  | _ => if d.has "src" && d.has "rel" && d.has "dst" then [.obj d] else []

section Handlers
variable (env : Env) (double : Json → Double)

def edgeConfidence (v : Json) : Rat :=
  match v with
  | .int _ | .float _ => (double v).ranked
  | _ => 0

def conceptEdge (row : Json) : Option ConceptEdge :=
  row.obj?.bind fun ed =>
    let field := fun (name : String) => Py.strip (env.str ((ed.get name).orElse (.str "")))
    let src := field "src"
    let rel := field "rel"
    let dst := field "dst"
    if src = "" || rel = "" || dst = "" then none
    else if hasTab src || hasTab rel || hasTab dst then none
    else if rel = "co_occurs" then none
    else some
      { src, rel, dst
        provenance := env.str ((ed.get "provenance").orElse (.str ""))
        confidence := edgeConfidence double (ed.get "confidence") }

def addEdge (edges : Table ConceptEdge.key) (e : ConceptEdge) : Table ConceptEdge.key :=
  match edges.get e.key with
  | none => edges.put e
  | some cur => if cur.rank < e.rank then edges.put e else edges

def onConceptEdge (g : ConceptGraph) (d : Obj) : ConceptGraph :=
  { g with edges := ((edgeRows d).filterMap (conceptEdge env double)).foldl addEdge g.edges }

def renameRows (d : Obj) : List (String × String) :=
  ((d.get "rename").obj?.getD []).filterMap fun (raw, canon) =>
    if raw ≠ "" && canon.truthy then some (raw, env.str canon) else none

def addRename (renames : Dict String String) (r : String × String) : Dict String String :=
  renames.set r.1 (match renames.get r.1 with
    | none => r.2
    | some cur => min cur r.2)

def onConceptConsolidation (g : ConceptGraph) (d : Obj) : ConceptGraph :=
  { g with consolidation := (renameRows env d).foldl addRename g.consolidation }

def conceptStep (g : ConceptGraph) (e : Event) : ConceptGraph :=
  if e.type = "concept_edge" then onConceptEdge env double g e.data
  else if e.type = "concept_consolidation" then onConceptConsolidation env g e.data
  else g

def conceptGraph (log : List Event) : ConceptGraph := log.foldl (conceptStep env double) {}

end Handlers

end LoopLab
