import LoopLab.Ledger.Identity
import LoopLab.Lib.Settle
import LoopLab.Lib.Chase
import LoopLab.Lib.Sorted

/-!
# Cards and their merges

The cards are seeded and linked to their nodes, then merged.
-/

set_option autoImplicit false

/-!
## The cards before any merge

Every added row seeds a card, the native rows first, and every node that states something or names
its card is linked to one as its evidence, in the order of the nodes.
-/

namespace LoopLab
open Lib

/-- The cards under construction, with those whose action block came from a concrete proposal and
the names that were registered and that own an action. -/
structure CardLedger where
  cards : Cards := Table.empty
  actionOwned : List String := []
  registered : List String := []
  actionOwners : List String := []

def Concepts.ofNode (c : Concepts) : Bool := ((c.source.obj?.getD []).get "kind").eqStr "node"

section Seed
variable (env : LedgerEnv) (identity : CardIdentity)

def ownedName (stmt name : String) : String :=
  if name = statementSeed env stmt then (identity.ownerByStatement.get (statementDigest env stmt)).getD name
  else name

def seedName (native : Bool) (d : AddedRow) : Option String :=
  let seed := statementSeed env d.stmt
  let raw := (d.id.bind (cardId env)).getD seed
  if identity.conflictedNativeIds.contains raw then none else
  if identity.ambiguousSeeds.contains seed && (!native || raw = seed) then none else
  (some (ownedName env identity d.stmt raw)).filter fun name => name ≠ "" && name.length ≤ 256

def seedCard (name : String) (d : AddedRow) : Card where
  id := name
  statement := d.stmt
  seedStatement := d.stmt
  source := (d.source.filter (· ≠ "")).getD "human"
  rationale := Py.cut 400 (d.rationale.getD "")
  createdAtNode := d.atNode.getD 0
  action := d.action
  parentCardId := d.parent.bind (cardId env)

def CardLedger.note (L : CardLedger) (native : Bool) (name : String) (d : AddedRow) : CardLedger :=
  if !native then L else
  { L with
    registered := name :: L.registered
    actionOwners := if d.ownsAction then name :: L.actionOwners else L.actionOwners }

def seedRow (L : CardLedger) (row : Bool × AddedRow) : CardLedger :=
  match seedName env identity row.1 row.2 with
  | none => L
  | some name =>
    let L := L.note row.1 name row.2
    if L.cards.has name then L else
    { L with
      cards := L.cards.put (seedCard env name row.2)
      actionOwned := if row.1 && row.2.ownsAction then name :: L.actionOwned else L.actionOwned }

def nativeFirst {α : Type} (native shadow : List α) : List (Bool × α) :=
  native.map (true, ·) ++ shadow.map (false, ·)

def seedCardsFromReceipts (board : CardBoard) : CardLedger :=
  (nativeFirst board.cardsAdded board.hypothesesAdded).foldl (seedRow env identity) {}

end Seed

section Link
variable (env : LedgerEnv) (identity : CardIdentity) (st : RunState)

def nodeParentGenerations (n : Node) : Option (List (Int × Nat)) :=
  n.parentIds.eraseDups.mapM fun p => (st.nodes.get p).map fun m => (p, m.attempt)

def linkName (n : Node) : Option String :=
  let seed := statementSeed env n.stmt
  let raw := if n.explicitCardId = "" then seed else n.explicitCardId
  if identity.conflictedNativeIds.contains n.explicitCardId then none else
  if n.explicitCardId = "" && identity.ambiguousSeeds.contains seed then none else
  (some (ownedName env identity n.stmt raw)).filter (· ≠ "")

def nodeAction (n : Node) (before : CardAction) : CardAction :=
  { before with
    operator := some n.idea.operator
    params := n.idea.params
    space := n.idea.space
    evalProfile := n.idea.evalProfile
    evalTimeout := n.idea.evalTimeout
    parentId := n.parentIds.head?
    parentIds := n.parentIds
    parentGenerations := nodeParentGenerations st n }

def Node.parentCard (n : Node) : Option String := n.idea.parentCardId.filter (· ≠ "")

def nodeCard (name : String) (n : Node) : Card where
  id := name
  statement := n.stmt
  seedStatement := n.stmt
  source := "researcher"
  rationale := Py.cut 400 n.idea.rationale
  createdAtNode := n.id
  action := { nodeAction st n {} with concepts := env.nodeConcepts n.id }
  parentCardId := n.parentCard

def backfill (n : Node) (c : Card) : Card :=
  { c with
    action := nodeAction st n c.action
    parentCardId := (c.parentCardId.filter (· ≠ "")).or n.parentCard }

/-- The first linked node gives the concepts, and every linked node is evidence. -/
def addEvidence (n : Node) (c : Card) : Card :=
  { c with
    action := if c.action.concepts.ofNode then c.action
      else { c.action with concepts := env.nodeConcepts n.id }
    evidence := if c.evidence.contains n.id then c.evidence else c.evidence ++ [n.id] }

/-- The card a node is linked to, before it counts as evidence, and whether its action came with the
node. -/
def linkedCard (L : CardLedger) (name : String) (n : Node) : Card × Bool :=
  match L.cards.get name with
  | none => (nodeCard env st name n, true)
  | some c =>
    if c.evidence.isEmpty && !L.actionOwned.contains name then (backfill st n c, true) else (c, false)

def linkNode (L : CardLedger) (n : Node) : CardLedger :=
  match linkName env identity n with
  | none => L
  | some name =>
    let (c, owned) := linkedCard env st L name n
    { L with
      cards := L.cards.put (addEvidence env n c)
      actionOwned := if owned then name :: L.actionOwned else L.actionOwned
      actionOwners := name :: L.actionOwners }

def RunState.sortedNodes : List Node := st.nodes.rows.mergeSort fun a b => a.id ≤ b.id

def linkCardsToNodes (L : CardLedger) : CardLedger :=
  st.sortedNodes.foldl (linkNode env identity st) L

def linkedLedger (board : CardBoard) : CardLedger :=
  linkCardsToNodes env identity st (seedCardsFromReceipts env identity board)

end Link

end LoopLab

/-!
## The merges

The merge rows of both families and the bridges from a seed to its work item make one alias map.
-/

namespace LoopLab
open Lib

def Py.sortedNodes (xs : List Int) : List Int := xs.eraseDups.mergeSort

/-- `min(a, b)` on strings. -/
def Py.minStr (a b : String) : String := LinearBool.least (fun a b => decide (a ≤ b)) a b

/-- `_CardAliases`; the keys of `identityAlias` are the bridges. -/
structure CardAliases where
  aliasOf : Dict String String := Table.empty
  identityAlias : Dict String String := Table.empty
  mergedStmt : Dict String String := Table.empty
  mergeEdges : Dict String (Dict String Nat) := Table.empty

namespace CardAliases
variable (a : CardAliases)

def canon (x : String) : String := chase a.aliasOf x

def stepAt (index : Nat) (x : String) : Option String :=
  let active := ((a.mergeEdges.get x).getD Table.empty).rows.filter fun e => e.2 ≤ index
  match active.map Prod.fst with
  | [] => a.identityAlias.get x
  | t :: ts => some (ts.foldl Py.minStr t)

def canonAt (x : String) (index : Nat) : String :=
  chaseLoop (a.stepAt index) (a.mergeEdges.rows.length + a.identityAlias.rows.length) [] x

end CardAliases

section Aliases
variable (env : LedgerEnv) (identity : CardIdentity)

def identityBridges : Dict String String :=
  (identity.seedOwner.rows.filter fun r => r.1 ≠ r.2).foldl (fun d r => d.set r.1 r.2) Table.empty

/-- A name of a merge row; one a hypothesis shares with a work item does not count. -/
def mergeName (native : Bool) (raw : String) : Option String :=
  ((cardId env raw).filter fun x => native || !identity.ambiguousSeeds.contains x).map fun x =>
    (identity.seedOwner.get x).getD x

def mergePairs (row : Bool × MergeRow) : List (String × String) :=
  match mergeName env identity row.1 row.2.canonical with
  | none => []
  | some canonical =>
    (((row.2.aliases.take 256).filterMap (mergeName env identity row.1)).eraseDups.filter
      (· ≠ canonical)).map (·, canonical)

def mergeStatement (row : Bool × MergeRow) : Option (String × String) := do
  let canonical ← mergeName env identity row.1 row.2.canonical
  let stmt := Py.strip (row.2.statement.getD "")
  if stmt = "" then none else some (canonical, stmt)

def noteEdges (edges : Dict String (Dict String Nat)) (row : Bool × MergeRow) :
    Dict String (Dict String Nat) :=
  (mergePairs env identity row).foldl
    (fun edges e => edges.set e.1
      (Dict.offer Nat.min ((edges.get e.1).getD Table.empty) (e.2, row.2.eventIndex)))
    edges

def cardMergeAliases (board : CardBoard) : CardAliases :=
  let rows := nativeFirst board.cardsMerged board.hypothesesMerged
  let bridges := identityBridges identity
  let merged := Dict.offers Py.minStr Table.empty (rows.flatMap (mergePairs env identity))
  { aliasOf := bridges.update merged
    identityAlias := bridges
    mergedStmt := (rows.filterMap (mergeStatement env identity)).foldl (fun d e => d.set e.1 e.2)
      Table.empty
    mergeEdges := rows.foldl (noteEdges env identity) Table.empty }

end Aliases

section Fold
variable (env : LedgerEnv) (st : RunState) (identity : CardIdentity) (aliases : CardAliases)
  (L : CardLedger)

/-- `_card_control_ids`: the names by which an old control means a card. -/
def cardControlIds (c : Card) : List String :=
  let seeds := if c.seedStatement = "" then [] else [hypothesisId env c.seedStatement]
  (c.id :: seeds).filter (!identity.ambiguousSeeds.contains ·)

/-- `_card_work_item_ids`: the names that own work, in every spelling. -/
def cardWorkItemIds : List String :=
  let named := st.nodes.rows.filterMap fun n => n.idea.cardId.filter (· ≠ "")
  (named ++ named.map Py.strip ++ L.actionOwners ++ L.registered ++ L.actionOwned ++
    (L.cards.rows.filter fun c => !c.evidence.isEmpty).map Card.id).filter (· ≠ "")

def mergeMembers (tid : String) : List Card :=
  (L.cards.rows.filter fun c => aliases.canon c.id = tid).mergeSort fun c d => c.id ≤ d.id

def mergeActionOwner (tid : String) : Option Card :=
  let members := mergeMembers aliases L tid
  if L.actionOwned.contains tid then L.cards.get tid else
  (members.find? fun c => L.actionOwned.contains c.id).or ((L.cards.get tid).or members.head?)

def mergeBase (tid : String) : Option Card :=
  (L.cards.get tid).or (mergeActionOwner aliases L tid)

def memberAliases (tid : String) : List String :=
  ((mergeMembers aliases L tid).flatMap fun c => c.id :: c.aliases).filter (· ≠ tid)

/-- The names merged into a card that are not its members'; the bridges do not count. -/
def looseAliases (tid : String) : List String :=
  (aliases.aliasOf.rows.map Prod.fst).filter fun x =>
    aliases.canon x = tid && !aliases.identityAlias.has x && x ≠ tid &&
      !(memberAliases aliases L tid).contains x

def mergeGroup (tid : String) : Option Card := do
  let base ← mergeBase aliases L tid
  let owner ← mergeActionOwner aliases L tid
  let names := Py.sortedSet (memberAliases aliases L tid ++ looseAliases aliases L tid)
  some { base with
    id := tid
    action := owner.action
    statement := (aliases.mergedStmt.get tid).getD base.statement
    evidence := Py.sortedNodes ((mergeMembers aliases L tid).flatMap Card.evidence)
    aliases := names
    beliefAliases := names.filter (!(cardWorkItemIds st L).contains ·) }

theorem mergeGroup_id (tid : String) (c : Card) (h : mergeGroup st aliases L tid = some c) :
    c.id = tid := by
  unfold mergeGroup at h
  obtain ⟨base, -, h⟩ := Option.bind_eq_some_iff.mp h
  obtain ⟨owner, -, h⟩ := Option.bind_eq_some_iff.mp h
  cases h
  rfl

def mergeTargets : List String := Py.sortedSet (L.cards.rows.map fun c => aliases.canon c.id)

theorem nodup_mergeTargets : (mergeTargets aliases L).Nodup := nodup_sortedSet _ _

/-- `_fold_merged_cards`: without an alias the cards stay as they are. -/
def foldMergedCards : Cards :=
  if aliases.aliasOf.rows.isEmpty then L.cards
  else (Table.ofKeys (mergeTargets aliases L) (nodup_mergeTargets aliases L)).collect Card.id
    (mergeGroup st aliases L) (mergeGroup_id st aliases L)

def mergedControlIds (tid : String) : List String :=
  if aliases.aliasOf.rows.isEmpty then
    ((L.cards.get tid).map (cardControlIds env identity)).getD [tid]
  else
    Py.sortedSet <|
      ((mergeMembers aliases L tid).flatMap (cardControlIds env identity)) ++
        (tid :: looseAliases aliases L tid).filter (!identity.ambiguousSeeds.contains ·)

end Fold

end LoopLab
