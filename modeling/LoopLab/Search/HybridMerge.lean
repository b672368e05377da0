import LoopLab.Strip
import LoopLab.Lib.Components
import LoopLab.Lib.Occurs
import LoopLab.Lib.Sorted
import Mathlib.Data.List.Range

/-!
# Merging what a retriever takes for duplicates

Three rankings propose the neighbours of every text; the pieces of that graph are shown to a model, whose plan is
repaired into a partition.
-/

set_option autoImplicit false

namespace LoopLab.HybridMerge
open Lib

/-! ## Retrieval -/

/-- The words of a text, its vector, and the arithmetic on scores, which are floats. -/
structure Retrieval (S V : Type) where
  /-- `_tokens` -/
  tokens : String → List String
  embed : String → V
  cosine : V → V → S
  /-- `BM25(docs).scores(query)` -/
  bm25 : List (List String) → List String → List S
  quotient : Nat → Nat → S
  /-- `sum(1.0 / (rrf_k + r) for r in ranks)` -/
  fuse : List Nat → S

section Retrieval
variable {S V : Type} [LT S] [DecidableLT S] [DecidableEq S] [Zero S] (retrieval : Retrieval S V)

/-- The key `(-score, index)`. -/
def before (a b : Nat × S) : Bool := b.2 < a.2 || (b.2 = a.2 && a.1 ≤ b.1)

/-- `_rank(scores)`: the indices with a positive score, best first; the rank of an index is its place. -/
def rank (scores : List S) : List Nat :=
  let positive := scores.zipIdx.filterMap fun (s, i) => if 0 < s then some (i, s) else none
  (positive.mergeSort before).map Prod.fst

/-- `len(qset & ts) / len(qset | ts)` -/
def lexical (query doc : List String) : S :=
  let words := query.eraseDups
  let all := (query ++ doc).eraseDups
  if all.isEmpty then 0 else retrieval.quotient (words.countP (· ∈ doc)) all.length

def rankings (corpus : List String) (query : String) : List (List Nat) :=
  let toks := corpus.map retrieval.tokens
  let qt := retrieval.tokens query
  [rank (toks.map (lexical retrieval qt)), rank (retrieval.bm25 toks qt),
    rank (corpus.map fun c => retrieval.cosine (retrieval.embed query) (retrieval.embed c))]

def places (ranks : List (List Nat)) (i : Nat) : List Nat := ranks.filterMap (·.idxOf? i)

def candidates (corpus : List String) (query : String) (k : Nat) (exclude : Option Nat) (minSignals : Nat) :
    List (Nat × S) :=
  let ranks := rankings retrieval corpus query
  let fused := (List.range corpus.length).filterMap fun i =>
    if some i = exclude ∨ (places ranks i).length < minSignals then none
    else
      let score := retrieval.fuse (places ranks i)
      if 0 < score then some (i, score) else none
  (fused.mergeSort before).take k

/-- The indices among a text's own top `k` neighbours. -/
def near (texts : List String) (k i : Nat) : List Nat :=
  (candidates retrieval texts (texts.getD i "") k (some i) 2).map Prod.fst

def singles (n : Nat) : Dict Nat (List Nat) :=
  Table.image (Table.ofKeys (List.range n) List.nodup_range) Prod.fst (fun i => (i, [])) fun _ => rfl

/-- The adjacency of `cluster_near_duplicates`. -/
def adjacency (texts : List String) (k : Nat) : Dict Nat (List Nat) :=
  let edges := (List.range texts.length).flatMap fun i => (near retrieval texts k i).map fun j => (i, j)
  edges.foldl link (singles texts.length)

/-- `sorted` of a list of indices -/
def ascending (is : List Nat) : List Nat := is.mergeSort fun a b => a ≤ b

def clusterNearDuplicates (texts : List String) (k : Nat) : List (List Nat) :=
  let n := texts.length
  if n ≤ 1 then (List.range n).map fun i => [i]
  else (sweep (adjacency retrieval texts k) (List.range n) []).map ascending

end Retrieval

/-! ## Adjudication -/

/-- `{"members": [...], "merged": ...}` -/
structure Group where
  members : List Nat
  merged : String

structure MergeGroup where
  members : List Int
  merged : String

inductive Answer where
  | plan (groups : List MergeGroup)
  | failed
  | budgetExceeded

/-- The messages of `merge_request`: the system prompt and the user's. -/
structure Request where
  system : String
  user : String

/-- What is being merged, the run's goal, and the rendering of the system prompt, which may raise. -/
structure Options where
  kind : String
  goal : String
  render : String → String → Option String

def mergeRequest (o : Options) (items : List String) : Option Request :=
  let line := fun (c, i) => "[" ++ toString i ++ "] " ++ String.ofList (c.toList.take 600)
  let blocks := "\n".intercalate (items.zipIdx.map line)
  let detail := if (Occurs.find "lesson".toList (Py.lower o.kind).toList).isSome then
      "caveats and scope qualifiers (lesson statements are deliberately number-free)"
    else "every specific detail — thresholds, numbers, caveats —"
  let goal := if o.goal = "" then "" else "Goal context: " ++ o.goal ++ "\n\n"
  (o.render o.kind detail).map fun system =>
    { system := system.replace "\x7bkind\x7d" o.kind
      user := goal ++ "Candidate " ++ o.kind ++ " (decide which indices are the SAME):\n" ++ blocks }

def singleton (items : List String) (i : Nat) : Group := ⟨[i], items.getD i ""⟩

def singletons (items : List String) : List Group := (List.range items.length).map (singleton items)

/-- One group of the plan: its valid members not claimed before, where at least two are left. -/
def repair (items : List String) (st : List Nat × List Group) (g : MergeGroup) : List Nat × List Group :=
  let valid := g.members.filterMap fun (i : Int) =>
    if 0 ≤ i ∧ i < items.length ∧ i.toNat ∉ st.1 then some i.toNat else none
  let members := ascending valid.eraseDups
  if members.length < 2 then st
  else
    let merged := Py.strip g.merged
    let merged := if merged = "" then items.getD (members.headD 0) "" else merged
    (st.1 ++ members, st.2 ++ [⟨members, merged⟩])

/-- `out.sort(key=lambda grp: grp["members"][0])` -/
def byFirst (groups : List Group) : List Group :=
  groups.mergeSort fun g h => g.members.headD 0 ≤ h.members.headD 0

def rebuild (items : List String) (plan : List MergeGroup) : List Group :=
  let (claimed, out) := plan.foldl (repair items) ([], [])
  byFirst (out ++ ((List.range items.length).filter (· ∉ claimed)).map (singleton items))

/-- The client and the memo, each with the state they share with the rest of the run. -/
structure Client (σ : Type) where
  ask : σ → Request → Answer × σ

structure Memo (σ : Type) where
  declined : σ → Request → Bool
  decline : σ → Request → σ

section Adjudication
variable {σ : Type} (o : Options)

/-- `agent_merge`: the groups, and whether the model answered; nothing stands for `BudgetExceeded`. -/
def agentMerge (client : Client σ) (s : σ) (items : List String) : Option ((List Group × Bool) × σ) :=
  if items.length < 2 then some ((singletons items, false), s)
  else match mergeRequest o items with
    | none => some ((singletons items, false), s)
    | some request =>
      match client.ask s request with
      | (.budgetExceeded, _) => none
      | (.failed, s) => some ((singletons items, false), s)
      | (.plan plan, s) => some ((rebuild items plan, true), s)

def memoizedAgentMerge (memo : Memo σ) (client : Client σ) (s : σ) (items : List String) : Option (List Group × σ) :=
  let request := mergeRequest o items
  if request.any (memo.declined s) then some (singletons items, s)
  else (agentMerge o client s items).map fun ((groups, answered), s) =>
    match request with
    | some request =>
      (groups, if answered && groups.all (·.members.length = 1) then memo.decline s request else s)
    | none => (groups, s)

/-- One cluster of `consolidate`. -/
def adjudicate (memo : Option (Memo σ)) (client : Client σ) (texts : List String) (s : σ) (cl : List Nat) :
    Option (List Group × σ) :=
  if cl.length < 2 then some ([⟨cl, texts.getD (cl.headD 0) ""⟩], s)
  else
    let items := cl.map fun i => texts.getD i ""
    let merged : Option (List Group × σ) := match memo with
      | none => (agentMerge o client s items).map fun ((groups, _), s) => (groups, s)
      | some memo => memoizedAgentMerge o memo client s items
    merged.map fun (groups, s) =>
      (groups.map fun g => { g with members := g.members.map fun j => cl.getD j 0 }, s)

def adjudicateAll (memo : Option (Memo σ)) (client : Client σ) (texts : List String) :
    σ → List (List Nat) → Option (List Group × σ)
  | s, [] => some ([], s)
  | s, cl :: rest =>
    (adjudicate o memo client texts s cl).bind fun (groups, s) =>
      (adjudicateAll memo client texts s rest).map fun (more, s) => (groups ++ more, s)

variable {S V : Type} [LT S] [DecidableLT S] [DecidableEq S] [Zero S] (retrieval : Retrieval S V)

/-- `consolidate`; nothing stands for `BudgetExceeded`. -/
def consolidate (texts : List String) (client : Option (Client σ)) (memo : Option (Memo σ)) (clusterK : Nat) (s : σ) :
    Option (List Group × σ) :=
  match client with
  | none => some (singletons texts, s)
  | some client =>
    if texts.length ≤ 1 then some (singletons texts, s)
    else (adjudicateAll o memo client texts s (clusterNearDuplicates retrieval texts clusterK)).map
      fun (groups, s) => (byFirst groups, s)

end Adjudication

end LoopLab.HybridMerge
