import LoopLab.Lib.Settle
import LoopLab.Lib.Occurs
import LoopLab.Serve.ConceptEdges

/-!
# The concept graph

It does not depend on the order of its rows, and declared parents close no cycle.
-/

set_option autoImplicit false

/-!
## The concept graph does not depend on the order of its rows

Of the edges under one key the greatest stays, and two edges under one key that rank alike are one edge.
-/

namespace LoopLab
open Lib

/-! ## Keys -/

def ConceptEdge.Plain (e : ConceptEdge) : Prop :=
  ∀ part ∈ [e.src, e.rel, e.dst], '\t' ∉ part.toList

theorem ConceptEdge.parts_of_key {e f : ConceptEdge} (he : e.Plain) (hf : f.Plain)
    (h : e.key = f.key) : e.src = f.src ∧ e.rel = f.rel ∧ e.dst = f.dst := by
  have hparts : [e.src, e.rel, e.dst] = [f.src, f.rel, f.dst] := by
    have hsplit := String.toList_split_intercalate he
    have hsplit' := String.toList_split_intercalate hf
    rw [if_neg (List.cons_ne_nil _ _)] at hsplit hsplit'
    unfold ConceptEdge.key at h
    rw [← hsplit, ← hsplit', h]
  simp only [List.cons.injEq, and_true] at hparts
  exact hparts

theorem rank_inj {e f : ConceptEdge} (h : e.rank = f.rank) :
    e.confidence = f.confidence ∧ e.provenance = f.provenance := by
  unfold ConceptEdge.rank at h
  have hpair := congrArg ofLex h
  have hrest := congrArg ofLex (congrArg Prod.snd hpair)
  exact ⟨congrArg Prod.fst hpair, congrArg Prod.snd hrest⟩

section Rows
variable {env : Env} {double : Json → Double}

theorem plain_conceptEdge {row : Json} {e : ConceptEdge} (h : conceptEdge env double row = some e) :
    e.Plain := by
  obtain ⟨ed, -, hedge⟩ := Option.bind_eq_some_iff.mp h
  dsimp only at hedge
  split at hedge
  · cases hedge
  · split at hedge
    · cases hedge
    · rename_i htab
      split at hedge
      · cases hedge
      · cases hedge
        have hnone (s : String) (hs : hasTab s = false) : '\t' ∉ s.toList := by
          intro hmem
          have htrue : hasTab s = true := List.contains_iff_mem.mpr hmem
          rw [hs] at htrue
          cases htrue
        rw [Bool.not_eq_true, Bool.or_eq_false_iff, Bool.or_eq_false_iff] at htab
        intro part hpart
        simp only [List.mem_cons, List.not_mem_nil, or_false] at hpart
        rcases hpart with rfl | rfl | rfl
        · exact hnone _ htab.1.1
        · exact hnone _ htab.1.2
        · exact hnone _ htab.2

/-! ## What a log leaves -/

def edgesIn (env : Env) (double : Json → Double) (log : List Event) : List ConceptEdge :=
  (log.filter (·.type = "concept_edge")).flatMap fun e =>
    (edgeRows e.data).filterMap (conceptEdge env double)

def renamesIn (env : Env) (log : List Event) : List (String × String) :=
  (log.filter (·.type = "concept_consolidation")).flatMap fun e => renameRows env e.data

abbrev EdgesOf (edges : Table ConceptEdge.key) (seen : List ConceptEdge) : Prop :=
  Greatest ConceptEdge.rank edges seen

abbrev RenamesOf (renames : Dict String String) (seen : List (String × String)) : Prop :=
  Greatest (fun r => OrderDual.toDual r.2) renames seen

theorem edges_add {edges : Table ConceptEdge.key} {seen : List ConceptEdge} (e : ConceptEdge)
    (h : EdgesOf edges seen) : EdgesOf (addEdge edges e) (seen ++ [e]) := by
  unfold addEdge
  cases hcur : edges.get e.key with
  | none =>
    apply h.put
    intro cur hget
    rw [hcur] at hget
    cases hget
  | some cur =>
    dsimp only
    split
    · rename_i hlt
      apply h.put
      intro other hget
      rw [hcur] at hget
      cases hget
      exact le_of_lt hlt
    · rename_i hnot
      exact h.skip hcur (not_lt.mp hnot)

theorem renames_add {renames : Dict String String} {seen : List (String × String)}
    (r : String × String) (h : RenamesOf renames seen) :
    RenamesOf (addRename renames r) (seen ++ [r]) := by
  unfold addRename Dict.set
  cases hcur : renames.get r.1 with
  | none =>
    apply h.put
    intro cur hget
    unfold Dict.get at hcur
    rw [hget] at hcur
    cases hcur
  | some cur =>
    obtain ⟨row, hrow, hvalue⟩ := Option.map_eq_some_iff.mp hcur
    dsimp only
    by_cases hle : r.2 ≤ cur
    · rw [min_eq_right hle]
      apply h.put
      intro other hget
      rw [hrow] at hget
      cases hget
      rw [hvalue]
      exact OrderDual.toDual_le_toDual.mpr hle
    · have hlt := not_le.mp hle
      have hsame : Table.put renames (r.1, cur) = renames := Dict.set_of_get hcur
      rw [min_eq_left (le_of_lt hlt), hsame]
      apply h.skip hrow
      rw [hvalue]
      exact OrderDual.toDual_le_toDual.mpr (le_of_lt hlt)

theorem foldl_seen {α β : Type} (P : α → List β → Prop) (add : α → β → α)
    (hadd : ∀ a seen b, P a seen → P (add a b) (seen ++ [b])) (rows : List β) {a : α} {seen : List β}
    (h : P a seen) : P (rows.foldl add a) (seen ++ rows) := by
  induction rows generalizing a seen with
  | nil =>
    rw [List.append_nil]
    exact h
  | cons b rows ih =>
    have hnext := ih (hadd a seen b h)
    rw [List.append_assoc] at hnext
    exact hnext

theorem conceptGraph_holds (log : List Event) :
    EdgesOf (conceptGraph env double log).edges (edgesIn env double log) ∧
      RenamesOf (conceptGraph env double log).consolidation (renamesIn env log) := by
  induction log using List.reverseRecOn with
  | nil => exact ⟨Greatest.empty, Greatest.empty⟩
  | append_singleton log e ih =>
    obtain ⟨hedges, hrenames⟩ := ih
    have hsnoc : conceptGraph env double (log ++ [e]) =
        conceptStep env double (conceptGraph env double log) e := by
      unfold conceptGraph
      rw [List.foldl_append]
      rfl
    have hother : "concept_consolidation" ≠ "concept_edge" := by decide
    rw [hsnoc]
    unfold edgesIn renamesIn conceptStep
    rw [List.filter_append, List.filter_append, List.flatMap_append, List.flatMap_append]
    by_cases hedge : e.type = "concept_edge"
    · rw [if_pos hedge]
      have hnot : ¬ e.type = "concept_consolidation" := fun h => hother (h.symm.trans hedge)
      simp only [List.filter_cons, hedge, hother.symm, decide_true, decide_false, if_true, if_false,
        Bool.false_eq_true, List.filter_nil, List.flatMap_cons, List.flatMap_nil, List.append_nil]
      exact ⟨foldl_seen EdgesOf addEdge (fun _ _ r h => edges_add r h) _ hedges, hrenames⟩
    · rw [if_neg hedge]
      by_cases hrename : e.type = "concept_consolidation"
      · rw [if_pos hrename]
        simp only [List.filter_cons, hrename, hother, decide_true, decide_false, if_true, if_false,
          Bool.false_eq_true, List.filter_nil, List.flatMap_cons, List.flatMap_nil, List.append_nil]
        exact ⟨hedges, foldl_seen RenamesOf addRename (fun _ _ r h => renames_add r h) _ hrenames⟩
      · rw [if_neg hrename]
        simp only [List.filter_cons, hrename, hedge, decide_false, if_false, Bool.false_eq_true,
          List.filter_nil, List.flatMap_nil, List.append_nil]
        exact ⟨hedges, hrenames⟩

/-- The type and the payload of a row. -/
def Event.content (e : Event) : String × Obj := (e.type, e.data)

theorem mem_edgesIn {log : List Event} {edge : ConceptEdge} : edge ∈ edgesIn env double log ↔
    ∃ content ∈ log.map Event.content, content.1 = "concept_edge" ∧
      edge ∈ (edgeRows content.2).filterMap (conceptEdge env double) := by
  unfold edgesIn Event.content
  simp only [List.mem_flatMap, List.mem_filter, List.mem_map, decide_eq_true_eq]
  constructor
  · rintro ⟨e, ⟨he, htype⟩, hedge⟩
    exact ⟨_, ⟨e, he, rfl⟩, htype, hedge⟩
  · rintro ⟨-, ⟨e, he, rfl⟩, htype, hedge⟩
    exact ⟨e, ⟨he, htype⟩, hedge⟩

theorem mem_renamesIn {log : List Event} {r : String × String} : r ∈ renamesIn env log ↔
    ∃ content ∈ log.map Event.content, content.1 = "concept_consolidation" ∧
      r ∈ renameRows env content.2 := by
  unfold renamesIn Event.content
  simp only [List.mem_flatMap, List.mem_filter, List.mem_map, decide_eq_true_eq]
  constructor
  · rintro ⟨e, ⟨he, htype⟩, hrename⟩
    exact ⟨_, ⟨e, he, rfl⟩, htype, hrename⟩
  · rintro ⟨-, ⟨e, he, rfl⟩, htype, hrename⟩
    exact ⟨e, ⟨he, htype⟩, hrename⟩

theorem plain_edgesIn {log : List Event} {edge : ConceptEdge} (h : edge ∈ edgesIn env double log) :
    edge.Plain := by
  obtain ⟨content, -, -, hedge⟩ := mem_edgesIn.mp h
  obtain ⟨row, -, hrow⟩ := List.mem_filterMap.mp hedge
  exact plain_conceptEdge hrow

variable (env double) in
/-- Two logs with the same rows, however ordered and however often each comes, have the same concept
edges and the same renames; and rows about different triples never share a key. -/
theorem conceptGraph_congr {log log' : List Event}
    (h : ∀ content, content ∈ log.map Event.content ↔ content ∈ log'.map Event.content) :
    (∀ k, (conceptGraph env double log).edges.get k = (conceptGraph env double log').edges.get k) ∧
      (∀ raw, (conceptGraph env double log).consolidation.get raw =
        (conceptGraph env double log').consolidation.get raw) ∧
      ∀ row row' e e', conceptEdge env double row = some e → conceptEdge env double row' = some e' →
        (e.src, e.rel, e.dst) ≠ (e'.src, e'.rel, e'.dst) → e.key ≠ e'.key := by
  obtain ⟨hedges, hrenames⟩ := conceptGraph_holds log
  obtain ⟨hedges', hrenames'⟩ := conceptGraph_holds log'
  refine ⟨?_, ?_, ?_⟩
  · apply hedges.get_congr hedges'
    · intro edge
      rw [mem_edgesIn, mem_edgesIn]
      simp only [h]
    · intro e he f hf hkey hrank
      obtain ⟨hsrc, hrel, hdst⟩ := ConceptEdge.parts_of_key (plain_edgesIn he) (plain_edgesIn hf) hkey
      obtain ⟨hconfidence, hprovenance⟩ := rank_inj hrank
      cases e
      cases f
      simp_all
  · intro raw
    unfold Dict.get
    congr 1
    apply hrenames.get_congr hrenames'
    · intro r
      rw [mem_renamesIn, mem_renamesIn]
      simp only [h]
    · intro r _ q _ hkey hrank
      exact Prod.ext hkey (OrderDual.toDual_inj.mp hrank)
  · intro row row' e e' he he' hne hkey
    obtain ⟨hsrc, hrel, hdst⟩ :=
      ConceptEdge.parts_of_key (plain_conceptEdge he) (plain_conceptEdge he') hkey
    apply hne
    rw [hsrc, hrel, hdst]

end Rows

def edgeRow (seq : Int) (provenance : String) (confidence : Json) : Event where
  seq := seq
  type := "concept_edge"
  data := [("src", .str "loss/focal"), ("rel", .str "is_a"), ("dst", .str "loss"),
    ("provenance", .str provenance), ("confidence", confidence)]

def renameRow (seq : Int) (canon : String) : Event where
  seq := seq
  type := "concept_consolidation"
  data := [("rename", .obj [("focal", .str canon)])]

def flagLast : List Event :=
  [edgeRow 0 "asserted" (.float (1 / 2)), renameRow 1 "loss/focal", renameRow 2 "loss",
   edgeRow 3 "evidenced" (.bool true)]

/-- The same rows from the last to the first, with one of them twice. -/
def flagFirst : List Event :=
  [edgeRow 0 "evidenced" (.bool true), renameRow 1 "loss", edgeRow 2 "asserted" (.float (1 / 2)),
   renameRow 3 "loss/focal", renameRow 4 "loss"]

def Double.plain : Json → Double
  | .float q => .finite q
  | .int i => .finite i
  | _ => .nan

theorem conceptGraph_congr_flagLast :
    (conceptGraph .plain Double.plain flagLast).edges.get "loss/focal\tis_a\tloss" =
      (conceptGraph .plain Double.plain flagFirst).edges.get "loss/focal\tis_a\tloss" := by
  apply (conceptGraph_congr .plain Double.plain _).1
  intro content
  simp only [flagLast, flagFirst, edgeRow, renameRow, Event.content, List.map_cons, List.map_nil,
    List.mem_cons, List.not_mem_nil, or_false]
  tauto

end LoopLab

/-!
## Declared parents close no cycle

The check of a batch fails exactly when the batch would close a cycle.
-/

namespace LoopLab.Serve
open Lib

/-- The edges declare `b` a parent of `a`. -/
def Parent (edges : List ConceptEdge) (a b : String) : Prop :=
  ∃ e ∈ edges, e.rel ∈ CONCEPT_EDGE_RELATIONS ∧ e.src = a ∧ e.dst = b

section Graph
variable {edges edges' : List ConceptEdge} {folded : Table ConceptEdge.key} {a b : String}

theorem parent_append : Parent (edges ++ edges') a b ↔ Parent edges a b ∨ Parent edges' a b := by
  unfold Parent
  constructor
  · rintro ⟨e, he, hrest⟩
    rcases List.mem_append.mp he with he | he
    · exact .inl ⟨e, he, hrest⟩
    · exact .inr ⟨e, he, hrest⟩
  · rintro (⟨e, he, hrest⟩ | ⟨e, he, hrest⟩)
    · exact ⟨e, List.mem_append_left _ he, hrest⟩
    · exact ⟨e, List.mem_append_right _ he, hrest⟩

theorem next_addParent {parents : Dict String (List String)} {e : ConceptEdge} :
    Next (addParent parents e) a b ↔ Next parents a b ∨ e.src = a ∧ e.dst = b := by
  unfold Next addParent
  rw [Dict.get_set]
  by_cases ha : a = e.src
  · subst ha
    rw [if_pos rfl, Option.getD_some, List.mem_insert_iff]
    constructor
    · rintro (rfl | h)
      · exact .inr ⟨rfl, rfl⟩
      · exact .inl h
    · rintro (h | ⟨-, rfl⟩)
      · exact .inr h
      · exact .inl rfl
  · rw [if_neg ha]
    constructor
    · exact .inl
    · rintro (h | ⟨rfl, -⟩)
      · exact h
      · exact absurd rfl ha

theorem next_foldl (parents : Dict String (List String)) :
    Next (edges.foldl addParent parents) a b ↔ Next parents a b ∨ ∃ e ∈ edges, e.src = a ∧ e.dst = b := by
  induction edges generalizing parents with
  | nil => simp
  | cons e edges ih =>
    rw [List.foldl_cons, ih, next_addParent, List.exists_mem_cons_iff, or_assoc]

theorem next_parentsOf : Next (parentsOf edges) a b ↔ Parent edges a b := by
  unfold parentsOf Parent
  rw [next_foldl]
  simp only [List.mem_filter, List.contains_iff_mem, and_assoc]
  constructor
  · rintro (h | h)
    · cases h
    · exact h
  · exact .inr

theorem cycle_eq_none_iff : conceptEdgeCycle folded edges = none ↔
    ∀ e ∈ edges, ¬ Relation.ReflTransGen (Parent (folded.rows ++ edges)) e.dst e.src := by
  have hnext : Next (parentsOf (folded.rows ++ edges)) = Parent (folded.rows ++ edges) := by
    funext a b
    exact propext next_parentsOf
  unfold conceptEdgeCycle
  rw [List.findSome?_eq_none_iff]
  apply forall₂_congr
  intro e _
  rw [← hnext, ← reaches_single_iff]
  split
  · rename_i hreach
    simp [hreach]
  · rename_i hreach
    simp [hreach]

theorem cycle_eq_none_iff_cycleFree (hfree : CycleFree (Parent folded.rows))
    (hbatch : ∀ e ∈ edges, e.rel ∈ CONCEPT_EDGE_RELATIONS) :
    conceptEdgeCycle folded edges = none ↔ CycleFree (Parent (folded.rows ++ edges)) := by
  have hunion : Parent (folded.rows ++ edges) = fun a b => Parent folded.rows a b ∨ Parent edges a b := by
    funext a b
    exact propext parent_append
  rw [cycle_eq_none_iff, hunion, cycleFree_union_iff hfree]
  constructor
  · rintro h s d ⟨e, he, -, rfl, rfl⟩
    exact h e he
  · intro h e he
    exact h e.src e.dst ⟨e, he, hbatch e he, rfl, rfl⟩

end Graph

/-! ## What a command declares -/

def Clean (s : String) : Prop := s ≠ "" ∧ ∀ c ∈ s.toList, Py.isSpace c = false

def Declared (e : ConceptEdge) : Prop :=
  Clean e.src ∧ Clean e.dst ∧ e.rel ∈ CONCEPT_EDGE_RELATIONS ∧ e.provenance = "authored"

section Declared
variable {letters : Letters} {env : Env} {double : Json → Double} {e : ConceptEdge}

theorem not_space_of_partOk {part : List Char} (h : partOk letters part = true) {c : Char} (hc : c ∈ part) :
    Py.isSpace c = false := by
  unfold partOk at h
  have hall := List.all_eq_true.mp (Bool.and_eq_true_iff.mp h).2 c hc
  simp only [Bool.or_eq_true, decide_eq_true_eq] at hall
  rcases hall with ((halnum | rfl) | rfl) | rfl
  · exact letters.blank c halnum
  · rfl
  · rfl
  · rfl

theorem clean_of_parts {value : List Char} (hne : value ≠ []) (h : (value.splitOn '/').all (partOk letters) = true) :
    Clean (String.ofList value) := by
  constructor
  · intro hempty
    apply hne
    rw [← String.toList_ofList (l := value), hempty]
    rfl
  · intro c hc
    rw [String.toList_ofList] at hc
    have hmem : c ∈ ['/'].intercalate (value.splitOn '/') ++ ['/'] := by
      rw [List.intercalate_splitOn]
      exact List.mem_append_left _ hc
    rw [Occurs.intercalate_concat (List.splitOn_ne_nil _ _)] at hmem
    obtain ⟨part, hpart, hin⟩ := List.mem_flatMap.mp hmem
    rcases List.mem_append.mp hin with hin | hin
    · exact not_space_of_partOk (List.all_eq_true.mp h part hpart) hin
    · rw [List.mem_singleton.mp hin]
      rfl

theorem clean_normalizeConceptId {raw : Json} {s : String} (h : normalizeConceptId letters raw = some s) : Clean s := by
  cases raw with
  | str text =>
    unfold normalizeConceptId at h
    dsimp only at h
    split at h
    · cases h
    · generalize stripSlashes _ = value at h
      split at h
      · cases h
      · rename_i hne
        split at h
        · cases h
        · split at h
          · rename_i hparts
            rw [← Option.some.inj h]
            apply clean_of_parts ?_ hparts
            rintro rfl
            simp at hne
          · cases h
  | null | bool b | int i | float q | arr xs | obj fields => cases h

theorem declared_of_row {index : Nat} {row : Json} (h : normalizeEdgeRow letters index row = .ok e) : Declared e := by
  unfold normalizeEdgeRow at h
  split at h
  · cases h
  · dsimp only at h
    split at h
    · rename_i src dst hsrc hdst
      split at h
      · cases h
      · rename_i rel hrel
        split at h
        · cases h
        · cases h
          have hin := (Option.filter_eq_some_iff.mp hrel).2
          exact ⟨clean_normalizeConceptId hsrc, clean_normalizeConceptId hdst, List.contains_iff_mem.mp hin, rfl⟩
    · cases h

theorem declared_of_rows {rows : List (Nat × Json)} {edges edges' : List ConceptEdge}
    (hedges : ∀ e ∈ edges, Declared e) (h : normalizeEdgeRows letters edges rows = .ok edges') :
    ∀ e ∈ edges', Declared e := by
  induction rows generalizing edges with
  | nil =>
    cases h
    exact hedges
  | cons row rows ih =>
    unfold normalizeEdgeRows at h
    split at h
    · cases h
    · rename_i e he
      apply ih ?_ h
      split
      · exact hedges
      · intro f hf
        rcases List.mem_append.mp hf with hf | hf
        · exact hedges f hf
        · rw [List.mem_singleton.mp hf]
          exact declared_of_row he

theorem declared_of_intake {folded : Table ConceptEdge.key} {raw : Json} {edges : List ConceptEdge}
    (h : normalizeConceptEdge letters folded raw = .ok edges) : ∀ e ∈ edges, Declared e := by
  unfold normalizeConceptEdge at h
  split at h
  · split at h
    · cases h
    · split at h
      · cases h
      · rename_i edges' hrows
        split at h
        · cases h
        · cases h
          exact declared_of_rows (fun e he => absurd he List.not_mem_nil) hrows
  · cases h

theorem strip_clean {s : String} (h : Clean s) : Py.strip s = s := by
  unfold Py.strip
  rw [stripChars_eq_self h.2, String.ofList_toList]

theorem hasTab_of_clean {s : String} (h : Clean s) : hasTab s = false := by
  by_contra htab
  have hmem := List.contains_iff_mem.mp (eq_true_of_ne_false htab)
  have hspace := h.2 '\t' hmem
  cases hspace

theorem clean_relation {rel : String} (h : rel ∈ CONCEPT_EDGE_RELATIONS) : Clean rel ∧ rel ≠ "co_occurs" := by
  have hsides : rel = "is_a" ∨ rel = "part_of" := by simpa [CONCEPT_EDGE_RELATIONS] using h
  have hall : rel.toList.all (fun c => !Py.isSpace c) = true := by
    rcases hsides with rfl | rfl
    · decide
    · decide
  have hplain : ∀ c ∈ rel.toList, Py.isSpace c = false := by
    intro c hc
    simpa using List.all_eq_true.mp hall c hc
  rcases hsides with rfl | rfl
  · exact ⟨⟨by decide, hplain⟩, by decide⟩
  · exact ⟨⟨by decide, hplain⟩, by decide⟩

theorem folded_of_declared (h : Declared e) :
    ∃ f, conceptEdge env double (edgeJson e) = some f ∧ f.src = e.src ∧ f.rel = e.rel ∧ f.dst = e.dst := by
  obtain ⟨hsrc, hdst, hrel, -⟩ := h
  obtain ⟨hclean, hcache⟩ := clean_relation hrel
  have hfield {s : String} (hs : Clean s) : Py.strip (env.str ((Json.str s).orElse (.str ""))) = s := by
    have htruthy : (Json.str s).truthy = true := decide_eq_true hs.1
    unfold Json.orElse
    rw [if_pos htruthy]
    exact strip_clean hs
  refine ⟨{ e with
    provenance := env.str ((Json.str e.provenance).orElse (.str ""))
    confidence := edgeConfidence double (.float e.confidence) }, ?_, rfl, rfl, rfl⟩
  unfold conceptEdge edgeJson
  simp only [Json.obj?, Option.bind_some, Obj.get, Obj.getD, List.lookup_cons, String.reduceBEq, Option.getD_some,
    hfield hsrc, hfield hdst, hfield hclean]
  rw [if_neg (by simp [hsrc.1, hdst.1, hclean.1]),
    if_neg (by simp [hasTab_of_clean hsrc, hasTab_of_clean hdst, hasTab_of_clean hclean]), if_neg hcache]

end Declared

/-! ## Every run of commands -/

section Run
variable {env : Env} {double : Json → Double} {letters : Letters} {s s' : Intents}

theorem operatorEdges_append (log : List Entry) (entry : Entry) :
    operatorEdges (log ++ [entry]) = operatorEdges log ++ operatorEdges [entry] := List.flatMap_append

theorem operatorEdges_take (log : List Entry) (n : Nat) : ∀ e ∈ operatorEdges (log.take n), e ∈ operatorEdges log := by
  intro e he
  obtain ⟨entry, hentry, hin⟩ := List.mem_flatMap.mp he
  exact List.mem_flatMap.mpr ⟨entry, List.mem_of_mem_take hentry, hin⟩

theorem Parent.mono {edges edges' : List ConceptEdge} (h : ∀ e ∈ edges, e ∈ edges') (a b : String)
    (hparent : Parent edges a b) : Parent edges' a b := by
  obtain ⟨e, he, hrest⟩ := hparent
  exact ⟨e, h e he, hrest⟩

theorem parent_folded {log : List Entry} (hdeclared : ∀ e ∈ operatorEdges log, Declared e) (a b : String)
    (h : Parent (operatorEdges log) a b) : Parent (foldedEdges env double log).rows a b := by
  obtain ⟨e, he, hrel, hsrc, hdst⟩ := h
  obtain ⟨f, hf, hfsrc, hfrel, hfdst⟩ := folded_of_declared (hdeclared e he)
  have hin : f ∈ edgesIn env double (log.map Entry.event) := by
    obtain ⟨entry, hentry, hmem⟩ := List.mem_flatMap.mp he
    cases entry with
    | other row => cases hmem
    | command actorKind edges =>
      apply mem_edgesIn.mpr
      refine ⟨(conceptEdgeEvent actorKind edges).content, ?_, rfl, ?_⟩
      · rw [List.map_map]
        exact List.mem_map.mpr ⟨_, hentry, rfl⟩
      · exact List.mem_filterMap.mpr ⟨edgeJson e, List.mem_map_of_mem hmem, hf⟩
  have hgraph := (@conceptGraph_holds env double (log.map Entry.event)).1
  obtain ⟨row, hrow, -⟩ := hgraph.found f hin
  have hseen := hgraph.mem row (Table.mem_of_get hrow)
  obtain ⟨h₁, h₂, h₃⟩ := ConceptEdge.parts_of_key (plain_edgesIn hseen) (plain_edgesIn hin) (Table.key_of_get hrow)
  refine ⟨row, Table.mem_of_get hrow, ?_, ?_, ?_⟩
  · rw [h₂, hfrel]
    exact hrel
  · rw [h₁, hfsrc, hsrc]
  · rw [h₃, hfdst, hdst]

structure Sound (s : Intents) : Prop where
  pending : ∀ intent ∈ s.pending, ∀ e ∈ intent.2, Declared e
  declared : ∀ e ∈ operatorEdges s.log, Declared e
  free : CycleFree (Parent (operatorEdges s.log))

theorem free_of_recheck {log : List Entry} {edges : List ConceptEdge} (hdeclared : ∀ e ∈ operatorEdges log, Declared e)
    (hfree : CycleFree (Parent (operatorEdges log)))
    (h : conceptEdgeCycle (foldedEdges env double log) edges = none) :
    CycleFree (Parent (operatorEdges log ++ edges)) := by
  have hunion : Parent (operatorEdges log ++ edges) = fun a b => Parent (operatorEdges log) a b ∨ Parent edges a b := by
    funext a b
    exact propext parent_append
  have hsub (a b : String) (hparent : Parent (operatorEdges log) a b ∨ Parent edges a b) :
      Parent ((foldedEdges env double log).rows ++ edges) a b :=
    parent_append.mpr (hparent.imp_left (parent_folded hdeclared a b))
  rw [hunion, cycleFree_union_iff hfree]
  rintro src dst ⟨e, he, -, rfl, rfl⟩ hback
  exact cycle_eq_none_iff.mp h e he (Relation.ReflTransGen.mono hsub _ _ hback)

theorem intentStep_sound (h : Sound s) (act : IntentAct) : Sound (intentStep env double letters s act) := by
  cases act with
  | submit seen actorKind raw =>
    unfold intentStep
    dsimp only
    split
    · exact h
    · rename_i edges hedges
      refine ⟨fun intent hintent => ?_, h.declared, h.free⟩
      rcases List.mem_append.mp hintent with hintent | hintent
      · exact h.pending intent hintent
      · rw [List.mem_singleton.mp hintent]
        exact declared_of_intake hedges
  | land index =>
    unfold intentStep
    dsimp only
    split
    · exact h
    · rename_i actorKind edges hget
      have hleft : ∀ intent ∈ s.pending.eraseIdx index, ∀ e ∈ intent.2, Declared e :=
        fun intent hintent => h.pending intent (List.mem_of_mem_eraseIdx hintent)
      split
      · exact ⟨hleft, h.declared, h.free⟩
      · rename_i hcheck
        have hedges := h.pending _ (List.mem_of_getElem? hget)
        have happend : operatorEdges (s.log ++ [.command actorKind edges]) = operatorEdges s.log ++ edges := by
          rw [operatorEdges_append]
          simp [operatorEdges]
        refine ⟨hleft, ?_, ?_⟩
        · rw [happend]
          intro e he
          exact (List.mem_append.mp he).elim (h.declared e) (hedges e)
        · rw [happend]
          exact free_of_recheck h.declared h.free (Option.map_eq_none_iff.mp hcheck)
  | write e =>
    have happend : operatorEdges (s.log ++ [.other e]) = operatorEdges s.log := by
      rw [operatorEdges_append]
      simp [operatorEdges]
    unfold intentStep
    exact ⟨h.pending, happend ▸ h.declared, happend ▸ h.free⟩

theorem sound_start : Sound {} where
  pending := fun intent hintent => absurd hintent List.not_mem_nil
  declared := fun e he => absurd he List.not_mem_nil
  free := by
    intro a hcycle
    obtain ⟨b, ⟨e, he, -⟩, -⟩ := Relation.TransGen.head'_iff.mp hcycle
    cases he

theorem intentRun_sound (acts : List IntentAct) : Sound (intentRun env double letters acts) := by
  unfold intentRun
  induction acts using List.reverseRecOn with
  | nil => exact sound_start
  | append_singleton acts act ih =>
    rw [List.foldl_append]
    exact intentStep_sound ih act

variable (env double letters) in
/-- The check tells exactly the batches that close a cycle, and the operator's parents never have one. -/
theorem declared_parents_close_no_cycle :
    (∀ (folded : Table ConceptEdge.key) (edges : List ConceptEdge), CycleFree (Parent folded.rows) →
      (∀ e ∈ edges, e.rel ∈ CONCEPT_EDGE_RELATIONS) →
        (conceptEdgeCycle folded edges = none ↔ CycleFree (Parent (folded.rows ++ edges)))) ∧
    ∀ (acts : List IntentAct) (n : Nat),
      CycleFree (Parent (operatorEdges ((intentRun env double letters acts).log.take n))) := by
  refine ⟨fun folded edges => cycle_eq_none_iff_cycleFree, fun acts n => ?_⟩
  have hsound : Sound (intentRun env double letters acts) := intentRun_sound acts
  exact hsound.free.mono (Parent.mono (operatorEdges_take _ n))

end Run

end LoopLab.Serve
