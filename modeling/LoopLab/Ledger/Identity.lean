import LoopLab.Fold.Fitness

/-!
# Cards and their names

A card is one idea on the board; which spellings may name it is decided by the receipts.
-/

set_option autoImplicit false

/-!
## Cards

A card is one idea on the board.
-/

namespace LoopLab
open Lib

/-- The concepts a card or a node names, with the account of who named them. -/
structure Concepts where
  tags : List String := []
  source : Json := .null
  tier : Option String := none

structure CardAction where
  operator : Option String := none
  params : Json := .obj []
  space : Json := .obj []
  evalProfile : Option String := none
  evalTimeout : Option Rat := none
  concepts : Concepts := {}
  parentId : Option Int := none
  parentIds : List Int := []
  parentGenerations : Option (List (Int × Nat)) := none
  scoredAgainst : Option Int := none
  scoredAgainstGeneration : Option Int := none
  scoredAgainstEmpty : Bool := false
  footprint : Json := .null
  steeringContext : Json := .arr []

inductive CardStatus where
  | proposed | building | coded | running | gated | failed | evaluated | dropped
  deriving DecidableEq, Repr

inductive CardVerdict where
  | «open» | testing | supported | tested | abandoned
  deriving DecidableEq, Repr

structure Card where
  id : String
  statement : String := ""
  seedStatement : String := ""
  source : String := "researcher"
  rationale : String := ""
  createdAtNode : Int := 0
  action : CardAction := {}
  parentCardId : Option String := none
  childCardIds : List String := []
  evidence : List Int := []
  aliases : List String := []
  beliefAliases : List String := []
  retryOf : Option String := none
  discardedNodes : List Int := []
  substitutedNodes : List Int := []
  withheldBy : List Int := []
  bestDelta : Option Extended := none
  verdict : CardVerdict := .open
  status : CardStatus := .proposed
  statusNodes : List Int := []

abbrev Cards := Table Card.id

namespace Cards

def parentOf (cards : Cards) (id : String) : Option String := (cards.get id).bind Card.parentCardId

end Cards

end LoopLab

/-!
## Which spellings may name a card

A statement has a short name, its seed; a work item has a stable name of its own.
-/

namespace LoopLab
open Lib

/-- What the ledger takes from code outside the model: the text functions and the float operations
of the language, the action block a `card_added` row states and whether it states one, the concept
values a row may carry, and the finished concepts of a node. -/
structure LedgerEnv extends Env where
  lowercase : String → String
  md5 : String → String
  sha256 : String → String
  parseJson : String → Option Json
  floats : Floats
  action : Obj → CardAction
  ownsAction : Obj → Bool
  conceptValues : List Json → List String
  nodeConcepts : Int → Concepts

/-- An environment for small runs: rows that state no action, and digests that keep the text. -/
def LedgerEnv.plain : LedgerEnv :=
  { Env.plain with
    lowercase := id
    md5 := id
    sha256 := id
    parseJson := fun _ => none
    floats := Floats.exact
    action := fun _ => {}
    ownsAction := fun _ => false
    conceptValues := List.filterMap Json.str?
    nodeConcepts := fun _ => {} }

/-- A row of `cards_added`, or of `hypotheses_added`: there the parent is the belief the question was
asked under. -/
structure AddedRow where
  id : Option String := none
  statement : Option String := none
  source : Option String := none
  rationale : Option String := none
  atNode : Option Int := none
  parent : Option String := none
  action : CardAction := {}
  ownsAction : Bool := false

structure MergeRow where
  canonical : String
  aliases : List String
  statement : Option String := none
  eventIndex : Nat

structure DropRow where
  id : String
  reason : Option String := none
  droppedBy : Option String := none
  eventIndex : Nat

structure CardBoard where
  cardsAdded : List AddedRow := []
  hypothesesAdded : List AddedRow := []
  cardsMerged : List MergeRow := []
  hypothesesMerged : List MergeRow := []
  cardsDropped : List DropRow := []
  cardsReopened : List DropRow := []
  hypothesesAbandoned : List String := []
  hypothesesDeleted : List String := []
  cardFilings : Dict String (Option String) := Table.empty

def squeeze (kind : Char → Bool) (one : Char) : Bool → List Char → List Char
  | _, [] => []
  | inRun, c :: cs =>
    if kind c then if inRun then squeeze kind one true cs else one :: squeeze kind one true cs
    else c :: squeeze kind one false cs

def trimChar (c : Char) (cs : List Char) : List Char :=
  ((cs.dropWhile (· = c)).reverse.dropWhile (· = c)).reverse

def slugChar (c : Char) : Bool := ('a' ≤ c && c ≤ 'z') || ('0' ≤ c && c ≤ '9')

section Names
variable (env : LedgerEnv)

def normalizedHypothesisStatement (statement : String) : String :=
  String.ofList (squeeze Py.isSpace ' ' false (env.lowercase (Py.strip statement)).toList)

def hypothesisStatementDigest (statement : String) : String :=
  env.sha256 (normalizedHypothesisStatement env statement)

def hypothesisId (statement : String) : String :=
  let norm := normalizedHypothesisStatement env statement
  let slug := String.ofList ((trimChar '-' (squeeze (!slugChar ·) '-' false norm.toList)).take 48)
  (if slug = "" then "hypothesis" else slug) ++ "-" ++ Py.cut 6 (env.md5 norm)

/-- `_card_id`: here the bound is on the stripped name. -/
def cardId (s : String) : Option String :=
  let bounded := Py.strip s
  if bounded ≠ "" && bounded.length ≤ 256 && bounded.toList.all env.printable then some bounded
  else none

def statementSeed (statement : String) : String :=
  if statement = "" then "" else hypothesisId env statement

def statementDigest (statement : String) : String :=
  if statement = "" then "" else hypothesisStatementDigest env statement

def AddedRow.stmt (d : AddedRow) : String := Py.strip (d.statement.getD "")

def Node.stmt (n : Node) : String := Py.strip (n.idea.hypothesis.getD "")

def Node.explicitCardId (n : Node) : String := Py.strip (n.idea.cardId.getD "")

structure IdentityTables where
  nativeIds : Dict String (List String) := Table.empty
  nativeStatements : Dict String (List String) := Table.empty
  seedStatements : Dict String (List String) := Table.empty
  seedHash : Dict String String := Table.empty

/-- `d.setdefault(k, [])`, then the value appended unless it is there. -/
def noteOnce (d : Dict String (List String)) (k v : String) : Dict String (List String) :=
  let vs := (d.get k).getD []
  d.set k (if vs.contains v then vs else vs ++ [v])

def registerCardIdentity (t : IdentityTables) (statement : String) (rawNativeId : Option String) :
    IdentityTables :=
  if statement = "" then t else
  let seed := hypothesisId env statement
  let digest := hypothesisStatementDigest env statement
  let t := { t with
    seedHash := t.seedHash.set digest seed
    seedStatements := noteOnce t.seedStatements seed digest }
  match (rawNativeId.bind (cardId env)).filter (· ≠ seed) with
  | none => t
  | some cid => { t with
      nativeIds := noteOnce t.nativeIds digest cid
      nativeStatements := noteOnce t.nativeStatements cid digest }

def identityTables (st : RunState) (board : CardBoard) : IdentityTables :=
  let added := board.cardsAdded.foldl (fun t d => registerCardIdentity env t d.stmt d.id) {}
  let asked := board.hypothesesAdded.foldl (fun t d => registerCardIdentity env t d.stmt none) added
  st.nodes.rows.foldl (fun t n => registerCardIdentity env t n.stmt n.idea.cardId) asked

structure CardIdentity where
  conflictedNativeIds : List String
  ambiguousSeeds : List String
  ownerByStatement : Dict String String
  seedOwner : Dict String String

namespace IdentityTables
variable (t : IdentityTables)

def namespaceConflicts : List String :=
  (t.nativeStatements.rows.filter fun r =>
    ((t.seedStatements.get r.1).getD []).any (!r.2.contains ·)).map Prod.fst

def conflictedNativeIds : List String :=
  (t.nativeStatements.rows.filter fun r => 1 < r.2.length).map Prod.fst

def seedOfDigest (digest : String) : String := (t.seedHash.get digest).getD ""

def ambiguous (row : String × List String) : Bool :=
  let seed := t.seedOfDigest row.1
  row.2.length ≠ 1 || t.conflictedNativeIds.contains (row.2.headD "") ||
    t.namespaceConflicts.contains seed || ((t.seedStatements.get seed).getD []).length ≠ 1

/-- `_card_identity_map`, once the sources are read. -/
def identity : CardIdentity :=
  let owners := t.nativeIds.rows.filter (!t.ambiguous ·)
  { conflictedNativeIds := t.conflictedNativeIds
    ambiguousSeeds := ((t.nativeIds.rows.filter t.ambiguous).map fun r => t.seedOfDigest r.1) ++
      ((t.seedStatements.rows.filter fun r => 1 < r.2.length).map Prod.fst) ++ t.namespaceConflicts
    ownerByStatement := owners.foldl (fun d r => d.set r.1 (r.2.headD "")) Table.empty
    seedOwner := owners.foldl (fun d r => d.set (t.seedOfDigest r.1) (r.2.headD "")) Table.empty }

end IdentityTables

def cardIdentityMap (st : RunState) (board : CardBoard) : CardIdentity :=
  (identityTables env st board).identity

end Names

end LoopLab
