import LoopLab.Trace.Claims
import LoopLab.Lib.Sorted

/-!
# The index finds what the whole file holds

Whatever the order in which the rows arrive, the rows the index finds for a node are those that a scan
of all rows keeps, in the order of the file.
-/

set_option autoImplicit false

namespace LoopLab.Trace
open LoopLab.Lib

/-! ## Roots -/

theorem foldl_pick_mem {α : Type} {pick : α → α → α} (hpick : ∀ a b, pick a b = a ∨ pick a b = b)
    (as : List α) (a : α) : as.foldl pick a = a ∨ as.foldl pick a ∈ as := by
  induction as generalizing a with
  | nil => exact .inl rfl
  | cons b as ih =>
    rw [List.foldl_cons]
    rcases ih (pick a b) with heq | hmem
    · rcases hpick a b with ha | hb
      · exact .inl (heq.trans ha)
      · exact .inr (List.mem_cons.mpr (.inl (heq.trans hb)))
    · exact .inr (List.mem_cons_of_mem b hmem)

theorem firstMin_mem {α : Type} {key : α → Rat} {as : List α} {a : α} (h : firstMin key as = some a) :
    a ∈ as := by
  cases as with
  | nil => cases h
  | cons b as =>
    cases h
    have hpick (a b : α) : (if key b < key a then b else a) = a ∨ (if key b < key a then b else a) = b := by
      split
      · exact .inr rfl
      · exact .inl rfl
    rcases foldl_pick_mem hpick as b with heq | hmem
    · exact List.mem_cons.mpr (.inl heq)
    · exact List.mem_cons_of_mem b hmem

theorem mem_foldl_put {spans : List Span} {t : Table Span.spanId} {s : Span}
    (h : s ∈ (spans.foldl Table.put t).rows) : s ∈ t.rows ∨ s ∈ spans := by
  induction spans generalizing t with
  | nil => exact .inl h
  | cons r spans ih =>
    rcases ih h with hput | hmem
    · rcases Table.mem_put.mp hput with rfl | ⟨hold, -⟩
      · exact .inr List.mem_cons_self
      · exact .inl hold
    · exact .inr (List.mem_cons_of_mem r hmem)

theorem mem_byId {spans : List Span} {s : Span} (h : s ∈ (byId spans).rows) : s ∈ spans := by
  rcases mem_foldl_put h with hempty | hmem
  · cases hempty
  · exact hmem

theorem traceRootSpan_mem {spans : List Span} {s : Span} (h : traceRootSpan spans = some s) :
    s ∈ spans :=
  mem_byId (List.mem_filter.mp (firstMin_mem h)).1

/-! ## Places -/

def placesOf (spans : List Span) (keep : Span → Bool) : List Nat :=
  (List.range spans.length).filter fun i => (spans[i]?).any keep

theorem mem_placesOf {spans : List Span} {keep : Span → Bool} {i : Nat} :
    i ∈ placesOf spans keep ↔ ∃ s, spans[i]? = some s ∧ keep s = true := by
  unfold placesOf
  rw [List.mem_filter, List.mem_range]
  cases hs : spans[i]? with
  | none => simp
  | some s =>
    have hi := (List.getElem?_eq_some_iff.mp hs).1
    simp [hi]

theorem placesOf_snoc (spans : List Span) (s : Span) (keep : Span → Bool) :
    placesOf (spans ++ [s]) keep = placesOf spans keep ++ if keep s then [spans.length] else [] := by
  unfold placesOf
  rw [List.length_append, List.length_singleton, List.range_succ, List.filter_append]
  congr 1
  · apply List.filter_congr
    intro i hi
    rw [List.getElem?_append_left (List.mem_range.mp hi)]
  · cases hs : keep s <;> simp [hs]

theorem pairwise_placesOf (spans : List Span) (keep : Span → Bool) :
    (placesOf spans keep).Pairwise (· < ·) :=
  List.Pairwise.filter _ List.pairwise_lt_range

theorem nodup_placesOf (spans : List Span) (keep : Span → Bool) : (placesOf spans keep).Nodup :=
  List.Nodup.filter _ List.nodup_range

theorem filterMap_placesOf (spans : List Span) (keep : Span → Bool) :
    (placesOf spans keep).filterMap (spans[·]?) = spans.filter keep := by
  induction spans using List.reverseRecOn with
  | nil => rfl
  | append_singleton spans s ih =>
    rw [placesOf_snoc, List.filterMap_append, List.filter_append, ← ih]
    congr 1
    · apply List.filterMap_congr
      intro i hi
      obtain ⟨r, hr, -⟩ := mem_placesOf.mp hi
      rw [List.getElem?_append_left (List.getElem?_eq_some_iff.mp hr).1]
    · cases hs : keep s <;> simp [hs]

/-! ## The index -/

structure SpanIndex.Covers (idx : SpanIndex) (spans : List Span) : Prop where
  light : idx.light = spans
  traces : ∀ t, (idx.byTid.get t).getD [] = placesOf spans (·.traceId = t)
  nodes : ∀ n t, t ∈ (idx.nodeTids.get n).getD [] ↔ ∃ s ∈ spans, s.traceId = t ∧ s.nodeId.any (·.str = n)
  claims : idx.Claims spans

theorem SpanIndex.covers_empty : ({} : SpanIndex).Covers [] where
  light := rfl
  traces _ := rfl
  nodes n t := by simp
  claims := by
    constructor
    · intro t
      exact ⟨fun _ => rfl, fun _ => rfl⟩
    · intro t
      constructor
      · intro h
        cases h
      · rintro ⟨c, d, hc, -, -⟩
        cases hc
    · intro n t
      simp

theorem SpanIndex.claimBuildTrace_rows (idx : SpanIndex) (s : Span) :
    (idx.claimBuildTrace s).light = idx.light ∧ (idx.claimBuildTrace s).byTid = idx.byTid ∧
      (idx.claimBuildTrace s).nodeTids = idx.nodeTids := by
  unfold claimBuildTrace
  cases spanBuildTraceClaim s with
  | none => exact ⟨rfl, rfl, rfl⟩
  | some made =>
    dsimp only
    split
    · exact ⟨rfl, rfl, rfl⟩
    · cases idx.buildClaims.get made.1 with
      | none => exact ⟨rfl, rfl, rfl⟩
      | some prior =>
        dsimp only
        split <;> exact ⟨rfl, rfl, rfl⟩

theorem SpanIndex.noteNode_rows (idx : SpanIndex) (s : Span) :
    (idx.noteNode s).light = idx.light ∧ (idx.noteNode s).byTid = idx.byTid := by
  unfold noteNode
  cases s.nodeId <;> exact ⟨rfl, rfl⟩

theorem SpanIndex.mem_noteNode (idx : SpanIndex) (s : Span) (n t : String) :
    t ∈ (((idx.noteNode s).nodeTids.get n).getD []) ↔
      t ∈ ((idx.nodeTids.get n).getD []) ∨ s.traceId = t ∧ s.nodeId.any (·.str = n) = true := by
  unfold noteNode
  cases s.nodeId with
  | none => simp
  | some nid =>
    dsimp only
    rw [mem_addTo]
    simp [eq_comm, and_comm]

theorem SpanIndex.Claims.noteNode {idx : SpanIndex} {spans : List Span} (h : idx.Claims spans) (s : Span) :
    (idx.noteNode s).Claims spans := by
  unfold SpanIndex.noteNode
  cases s.nodeId with
  | none => exact h
  | some nid => exact ⟨h.awards, h.conflicts, h.traces⟩

theorem SpanIndex.Covers.noteCard {idx : SpanIndex} {spans : List Span} (h : idx.Covers spans) (s : Span) :
    (idx.noteCard s).Covers spans := by
  unfold SpanIndex.noteCard
  cases cardResearchRootCard s with
  | none => exact h
  | some card =>
    obtain ⟨hlight, htraces, hnodes, hclaims⟩ := h
    exact ⟨hlight, htraces, hnodes, hclaims.awards, hclaims.conflicts, hclaims.traces⟩

theorem SpanIndex.Covers.append {idx : SpanIndex} {spans : List Span} (h : idx.Covers spans) (r : Record) :
    (idx.append r).Covers (spans ++ [r.span]) := by
  apply SpanIndex.Covers.noteCard
  obtain ⟨hclaimLight, hclaimTraces, hclaimNodes⟩ :=
    ((idx.place r).noteNode r.span).claimBuildTrace_rows r.span
  obtain ⟨hnodeLight, hnodeTraces⟩ := (idx.place r).noteNode_rows r.span
  constructor
  · rw [hclaimLight, hnodeLight]
    exact congrArg (· ++ [r.span]) h.light
  · intro t
    rw [hclaimTraces, hnodeTraces, placesOf_snoc, ← h.traces t]
    unfold SpanIndex.place
    dsimp only
    rw [Dict.get_set, h.light]
    by_cases ht : t = r.span.traceId
    · subst ht
      simp
    · simp [ht, Ne.symm ht]
  · intro n t
    rw [hclaimNodes, SpanIndex.mem_noteNode]
    have hold := h.nodes n t
    simp only [List.mem_append, List.mem_singleton, or_and_right, exists_or, exists_eq_left, ← hold]
    rfl
  · have hplaced : (idx.place r).Claims spans := ⟨h.claims.awards, h.claims.conflicts, h.claims.traces⟩
    exact (hplaced.noteNode r.span).claimBuildTrace r.span

theorem SpanIndex.covers_extend (rs : List Record) : (({} : SpanIndex).extend rs).Covers (rs.map Record.span) := by
  unfold SpanIndex.extend
  induction rs using List.reverseRecOn with
  | nil => exact SpanIndex.covers_empty
  | append_singleton rs r ih =>
    rw [List.foldl_append, List.map_append]
    exact ih.append r

/-! ## Both routes -/

def ofTrace (spans : List Span) (t : String) : List Span := spans.filter (·.traceId = t)

theorem get_byTrace (spans : List Span) (t : String) :
    (byTrace spans).get t = if ofTrace spans t = [] then none else some (ofTrace spans t) := by
  unfold byTrace ofTrace
  induction spans using List.reverseRecOn with
  | nil => rfl
  | append_singleton spans s ih =>
    rw [List.foldl_append, List.filter_append, List.foldl_cons, List.foldl_nil, Dict.get_set]
    by_cases ht : t = s.traceId
    · subst ht
      rw [ih]
      by_cases hempty : spans.filter (·.traceId = s.traceId) = []
      · simp [hempty]
      · simp [hempty]
    · rw [if_neg ht, ih]
      simp [Ne.symm ht]

theorem get_traceScope (claimed : Dict String Claim) (generation : Option Int) (spans : List Span) (s : Span)
    (hs : s ∈ spans) : (traceScope claimed generation (byTrace spans)).get s.traceId =
      scopeOf claimed generation s.traceId (ofTrace spans s.traceId) := by
  have hne : ofTrace spans s.traceId ≠ [] :=
    List.ne_nil_of_mem (List.mem_filter.mpr ⟨hs, decide_eq_true rfl⟩)
  have hget := get_byTrace spans s.traceId
  rw [if_neg hne] at hget
  unfold Dict.get at hget
  obtain ⟨entry, hentry, hspans⟩ := Option.map_eq_some_iff.mp hget
  unfold traceScope Dict.get
  rw [Table.get_collect, hentry, Option.bind_some, Option.map_map, hspans]
  have hkey : entry.1 = s.traceId := Table.key_of_get hentry
  rw [hkey]
  exact Option.map_id'

def keeps (target : String) (scope : Option (Option NodeRef)) (s : Span) : Bool :=
  scope.any fun scope => (effectiveNodeId s scope).any (·.str = target)

theorem scopeOf_congr {claimed claimed' : Dict String Claim} {t : String} (h : claimed.get t = claimed'.get t)
    (generation : Option Int) (spans : List Span) :
    scopeOf claimed generation t spans = scopeOf claimed' generation t spans := by
  unfold scopeOf claimedTraceNodeId
  rw [h]

section Agreement

variable {idx : SpanIndex} {spans : List Span} (h : idx.Covers spans) (target : String) (generation : Option Int)

def SpanIndex.scope (idx : SpanIndex) (spans : List Span) (generation : Option Int) (t : String) :
    Option (Option NodeRef) := scopeOf idx.buildClaims generation t (ofTrace spans t)

include h in
theorem nodeRowsOfTrace_eq (t : String) : idx.nodeRowsOfTrace target generation t =
    placesOf spans fun s => decide (s.traceId = t) && keeps target (idx.scope spans generation t) s := by
  have hspans : ((idx.byTid.get t).getD []).filterMap (idx.light[·]?) = ofTrace spans t := by
    rw [h.traces t, h.light]
    exact filterMap_placesOf spans _
  have hkeep (scope : Option NodeRef) : (((idx.byTid.get t).getD []).filter fun row =>
      ((idx.light[row]?).bind (effectiveNodeId · scope)).any (·.str = target)) =
      placesOf spans fun s => decide (s.traceId = t) && keeps target (some scope) s := by
    rw [h.traces t, h.light]
    unfold placesOf
    rw [List.filter_filter]
    apply List.filter_congr
    intro i hi
    cases spans[i]? with
    | none => rfl
    | some s => exact Bool.and_comm _ _
  unfold SpanIndex.nodeRowsOfTrace SpanIndex.scope scopeOf
  dsimp only
  rw [hspans]
  generalize (if (rootSpanNodeId (traceRootSpan (ofTrace spans t))).isNone = true then
    claimedTraceNodeId idx.buildClaims t generation else none) = claimed
  cases claimed with
  | some nid => exact hkeep (some nid)
  | none =>
    dsimp only
    split
    · simp [keeps, placesOf]
    · exact hkeep _

include h in
theorem candidate_of_keeps {s : Span} (hs : s ∈ spans)
    (hkeeps : keeps target (idx.scope spans generation s.traceId) s = true) :
    s.traceId ∈ (idx.nodeTids.get target).getD [] ∨ s.traceId ∈ (idx.nodeBuildTids.get target).getD [] := by
  obtain ⟨scope, hscope, hown⟩ := (Option.any_eq_true _ _).mp hkeeps
  obtain ⟨nid, hnid, hstr⟩ := (Option.any_eq_true _ _).mp hown
  cases hs' : s.nodeId with
  | some own =>
    left
    have heq : nid = own := by simpa [effectiveNodeId, hs'] using hnid.symm
    subst heq
    exact (h.nodes _ _).mpr ⟨s, hs, rfl, by simpa [hs'] using hstr⟩
  | none =>
    have hlent : scope = some nid := by simpa [effectiveNodeId, hs'] using hnid
    subst hlent
    unfold SpanIndex.scope scopeOf at hscope
    dsimp only at hscope
    split at hscope
    · rename_i nid' hclaimed
      cases hscope
      split at hclaimed
      · right
        obtain ⟨c, hc, rfl⟩ := Option.map_eq_some_iff.mp hclaimed
        exact (h.claims.traces _ _).mpr ⟨c, (Option.filter_eq_some_iff.mp hc).1, of_decide_eq_true hstr⟩
      · cases hclaimed
    · split at hscope
      · cases hscope
      · left
        obtain ⟨root, hroot, hrootNid⟩ := Option.bind_eq_some_iff.mp (Option.some.inj hscope)
        obtain ⟨hmem, htrace⟩ := List.mem_filter.mp (traceRootSpan_mem hroot)
        exact (h.nodes _ _).mpr ⟨root, hmem, of_decide_eq_true htrace, by rw [hrootNid]; exact hstr⟩

end Agreement

theorem rowsForNode_eq {idx : SpanIndex} {spans : List Span} (h : idx.Covers spans) (target : String)
    (generation : Option Int) : idx.rowsForNode target generation =
      placesOf spans fun s => keeps target (idx.scope spans generation s.traceId) s := by
  have hmem (i : Nat) : i ∈ ((((idx.nodeTids.get target).getD []) ++
      ((idx.nodeBuildTids.get target).getD [])).eraseDups.flatMap (idx.nodeRowsOfTrace target generation)) ↔
      i ∈ placesOf spans fun s => keeps target (idx.scope spans generation s.traceId) s := by
    rw [List.mem_flatMap, mem_placesOf]
    constructor
    · rintro ⟨t, -, hi⟩
      rw [nodeRowsOfTrace_eq h, mem_placesOf] at hi
      obtain ⟨s, hs, hkeep⟩ := hi
      obtain ⟨ht, hkeep⟩ := (Bool.and_eq_true _ _).mp hkeep
      exact ⟨s, hs, of_decide_eq_true ht ▸ hkeep⟩
    · rintro ⟨s, hs, hkeep⟩
      refine ⟨s.traceId, ?_, ?_⟩
      · rw [List.mem_eraseDups, List.mem_append]
        exact candidate_of_keeps h target generation (List.mem_of_getElem? hs) hkeep
      · rw [nodeRowsOfTrace_eq h, mem_placesOf]
        exact ⟨s, hs, (Bool.and_eq_true _ _).mpr ⟨decide_eq_true rfl, hkeep⟩⟩
  have hnodup : ((((idx.nodeTids.get target).getD []) ++
      ((idx.nodeBuildTids.get target).getD [])).eraseDups.flatMap (idx.nodeRowsOfTrace target generation)).Nodup := by
    apply List.nodup_flatMap.mpr
    constructor
    · intro t _
      rw [nodeRowsOfTrace_eq h]
      exact nodup_placesOf _ _
    · apply (nodup_eraseDups _).imp
      intro t u htu i hit hiu
      rw [nodeRowsOfTrace_eq h, mem_placesOf] at hit hiu
      obtain ⟨s, hs, hkeep⟩ := hit
      obtain ⟨s', hs', hkeep'⟩ := hiu
      cases hs.symm.trans hs'
      obtain ⟨ht, -⟩ := (Bool.and_eq_true _ _).mp hkeep
      obtain ⟨hu, -⟩ := (Bool.and_eq_true _ _).mp hkeep'
      exact htu ((of_decide_eq_true ht).symm.trans (of_decide_eq_true hu))
  unfold SpanIndex.rowsForNode
  dsimp only
  rw [linearBool_nat.sort_congr hnodup (nodup_placesOf _ _) hmem]
  apply List.mergeSort_of_pairwise
  apply (pairwise_placesOf _ _).imp
  intro i j hij
  exact decide_eq_true (Nat.le_of_lt hij)

theorem nodeTraceRows_eq {idx : SpanIndex} {spans : List Span} (h : idx.Covers spans) (target : String)
    (generation : Option Int) : nodeTraceRows spans target generation =
      spans.filter fun s => keeps target (idx.scope spans generation s.traceId) s := by
  unfold nodeTraceRows
  apply List.filter_congr
  intro s hs
  have hclaim := (claimedBuildTraces_awards spans s.traceId).unique (h.claims.awards s.traceId)
  rw [get_traceScope _ _ _ _ hs, scopeOf_congr hclaim]
  rfl

/-- Whatever rows are appended in whatever order, the index finds for every node and every generation
the rows that a scan of all rows keeps, each once and in the order of the file. -/
theorem index_finds_scan (rs : List Record) (target : String) (generation : Option Int) :
    let idx := ({} : SpanIndex).extend rs
    (idx.rowsForNode target generation).filterMap (idx.light[·]?) =
        nodeTraceRows (rs.map Record.span) target generation ∧
      (idx.rowsForNode target generation).Pairwise (· < ·) ∧
      ∀ row ∈ idx.rowsForNode target generation, row < rs.length := by
  intro idx
  have h : idx.Covers (rs.map Record.span) := SpanIndex.covers_extend rs
  rw [rowsForNode_eq h, nodeTraceRows_eq h, h.light]
  refine ⟨filterMap_placesOf _ _, pairwise_placesOf _ _, ?_⟩
  intro row hrow
  obtain ⟨s, hs, -⟩ := mem_placesOf.mp hrow
  have := (List.getElem?_eq_some_iff.mp hs).1
  simpa using this

end LoopLab.Trace
