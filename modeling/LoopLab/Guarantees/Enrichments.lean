import LoopLab.Ledger.Drops
import LoopLab.Ledger.Enrichment

/-!
# Compacting enrichments

Keeping of each card, lifecycle and field only the newest row, and of these only the newest that still binds the
card, loses nothing of what the rows kept whole would write, as long as the newest row of a rank or a confidence is
one the card can take.
-/

set_option autoImplicit false

namespace LoopLab
open Lib

/-! ## Writing rows -/

theorem enrichment_slots : Slots EnrichmentUpdate.field Enrichment.write fun k e => e.held k where
  write e u := by cases u <;> rfl
  other e u k h := by
    cases u <;> cases k <;> first | rfl | exact absurd rfl h
  ext e f h := by
    obtain ⟨n, c, fp, st, cs, lr, cr, ro, fr, cf⟩ := e
    obtain ⟨n', c', fp', st', cs', lr', cr', ro', fr', cf'⟩ := f
    have h1 := EnrichmentUpdate.noveltyVerdict.inj (h .noveltyVerdict)
    have h2 := EnrichmentUpdate.crossRunPrior.inj (h .crossRunPrior)
    have h3 := EnrichmentUpdate.footprint.inj (h .footprint)
    have h4 := EnrichmentUpdate.steeringContext.inj (h .steeringContext)
    have h5 := EnrichmentUpdate.conceptTags.inj (h .conceptTags)
    have h6 := EnrichmentUpdate.lessonRefs.inj (h .lessonRefs)
    have h7 := EnrichmentUpdate.claimRefs.inj (h .claimRefs)
    have h8 := EnrichmentUpdate.researchOrigin.inj (h .researchOrigin)
    have h9 := EnrichmentUpdate.foresightRank.inj (h .foresightRank)
    have h10 := EnrichmentUpdate.confidence.inj (h .confidence)
    dsimp only at h1 h2 h3 h4 h5 h6 h7 h8 h9 h10
    rw [h1, h2, h3, h4, h5, h6, h7, h8, h9, h10]

/-- What a row writes on a card whose tags a node owns or does not. -/
def EnrichmentRow.settleOn (owned : Bool) (r : EnrichmentRow) : Option EnrichmentUpdate :=
  if r.field = .conceptTags && owned then none else r.settle

theorem settle_field {r : EnrichmentRow} {u : EnrichmentUpdate} (h : r.settle = some u) :
    u.field = r.field := by
  unfold EnrichmentRow.settle at h
  dsimp only at h
  cases hf : r.field <;> rw [hf] at h <;> dsimp only at h <;>
    first
    | (split at h
       · cases h
       · obtain ⟨v, -, rfl⟩ := Option.map_eq_some_iff.mp h
         rfl)
    | (obtain ⟨v, -, rfl⟩ := Option.map_eq_some_iff.mp h
       rfl)

theorem settleOn_field {owned : Bool} {r : EnrichmentRow} {u : EnrichmentUpdate}
    (h : r.settleOn owned = some u) : u.field = r.field := by
  unfold EnrichmentRow.settleOn at h
  split at h
  · cases h
  · exact settle_field h

theorem settle_conceptTags {r : EnrichmentRow} {concepts : Concepts}
    (h : r.settle = some (.conceptTags concepts)) : concepts.ofNode = false := by
  have hf := settle_field h
  unfold EnrichmentRow.settle at h
  dsimp only [EnrichmentUpdate.field] at h hf
  rw [← hf] at h
  obtain ⟨items, -, heq⟩ := Option.map_eq_some_iff.mp h
  cases heq
  rfl

theorem ofNode_applyRow (e : Enrichment) (r : EnrichmentRow) :
    (applyRow e r).concepts.ofNode = e.concepts.ofNode := by
  unfold applyRow
  split
  · rfl
  · rename_i howned
    cases hu : r.settle with
    | none => rfl
    | some u =>
      cases u with
      | conceptTags concepts =>
        have hf := settle_field hu
        rw [← hf] at howned
        have hfree : e.concepts.ofNode = false := by simpa [EnrichmentUpdate.field] using howned
        rw [hfree]
        exact settle_conceptTags hu
      | _ => rfl

theorem applyRow_eq (e : Enrichment) (r : EnrichmentRow) : applyRow e r =
    match r.settleOn e.concepts.ofNode with
    | some u => e.write u
    | none => e := by
  unfold applyRow EnrichmentRow.settleOn
  split <;> rfl

theorem foldl_applyRow (rows : List EnrichmentRow) (e : Enrichment) {owned : Bool}
    (h : e.concepts.ofNode = owned) :
    rows.foldl applyRow e = (rows.filterMap (EnrichmentRow.settleOn owned)).foldl Enrichment.write e := by
  induction rows generalizing e with
  | nil => rfl
  | cons r rows ih =>
    rw [List.foldl_cons, ih _ ((ofNode_applyRow e r).trans h), applyRow_eq, h]
    cases hu : r.settleOn owned with
    | none => rw [List.filterMap_cons_none hu]
    | some u => rw [List.filterMap_cons_some hu, List.foldl_cons]

theorem filter_settled (rows : List EnrichmentRow) (owned : Bool) (k : EnrichmentField) :
    (rows.filterMap (EnrichmentRow.settleOn owned)).filter (fun u => u.field = k) =
      (rows.filter fun r => r.field = k).filterMap (EnrichmentRow.settleOn owned) := by
  induction rows with
  | nil => rfl
  | cons r rows ih =>
    cases hu : r.settleOn owned with
    | none =>
      rw [List.filterMap_cons_none hu, ih, List.filter_cons]
      split
      · rw [List.filterMap_cons_none hu]
      · rfl
    | some u =>
      have hf := settleOn_field hu
      rw [List.filterMap_cons_some hu, List.filter_cons, List.filter_cons, hf, ih]
      split
      · rw [List.filterMap_cons_some hu]
      · rfl

/-- The last value written to a field by rows that are settled in turn. -/
def lastSettled (owned : Bool) (rows : List EnrichmentRow) (k : EnrichmentField) : Option EnrichmentUpdate :=
  ((rows.filter fun r => r.field = k).filterMap (EnrichmentRow.settleOn owned)).getLast?

theorem foldl_applyRow_eq_iff (rows rows' : List EnrichmentRow) (e : Enrichment) :
    rows.foldl applyRow e = rows'.foldl applyRow e ↔ ∀ k,
      (lastSettled e.concepts.ofNode rows k).getD (e.held k) =
        (lastSettled e.concepts.ofNode rows' k).getD (e.held k) := by
  rw [foldl_applyRow rows e rfl, foldl_applyRow rows' e rfl, enrichment_slots.run_eq_iff]
  unfold lastSettled
  simp only [filter_settled]

/-! ## The rows of a log -/

section Rows
variable (env : EnrichmentEnv)

/-- Every row of a log that is admitted, with nothing left out. -/
def admittedRows (log : List Event) : List EnrichmentRow :=
  log.zipIdx.flatMap fun e => eventRows env e.1 e.2

theorem admittedRows_snoc (log : List Event) (e : Event) :
    admittedRows env (log ++ [e]) = admittedRows env log ++ eventRows env e log.length := by
  unfold admittedRows
  rw [List.zipIdx_append, List.flatMap_append]
  simp

theorem replayEnrichment_eq (log : List Event) : replayEnrichment env log =
    { journal := (admittedRows env log).foldl EnrichmentJournal.record {}, index := log.length } := by
  induction log using List.reverseRecOn with
  | nil => rfl
  | append_singleton log e ih =>
    have hstep : replayEnrichment env (log ++ [e]) = onCardEnriched env (replayEnrichment env log) e := by
      unfold replayEnrichment
      rw [List.foldl_append]
      rfl
    rw [hstep, ih, admittedRows_snoc, List.foldl_append, List.length_append]
    rfl

theorem mem_enrichmentRows {seq : Int} {index : Nat} {d : Obj} {r : EnrichmentRow}
    (h : r ∈ enrichmentRows env seq index d) :
    r.seq = seq ∧ r.index = index ∧ enrichedId d = some r.id ∧ enrichmentFence d = some r.fence ∧
      enrichmentValue env r.fence.isSome (d.get r.field.name) r.field = some (r.value, r.overflow, r.invalid) := by
  unfold enrichmentRows at h
  split at h
  · rename_i id fence hid hfence
    obtain ⟨field, -, hfield⟩ := List.mem_filterMap.mp h
    split at hfield
    · cases hfield
    · obtain ⟨⟨value, overflow, invalid⟩, hvalue, rfl⟩ := Option.map_eq_some_iff.mp hfield
      exact ⟨rfl, rfl, hid, hfence, hvalue⟩
  · cases h

theorem mem_eventRows {e : Event} {index : Nat} {r : EnrichmentRow} (h : r ∈ eventRows env e index) :
    r ∈ enrichmentRows env e.seq index e.data := by
  unfold eventRows at h
  split at h
  · exact h
  · cases h

theorem mem_admittedRows {log : List Event} {r : EnrichmentRow} (h : r ∈ admittedRows env log) :
    ∃ e, log[r.index]? = some e ∧ r ∈ enrichmentRows env e.seq r.index e.data := by
  obtain ⟨⟨e, i⟩, hmem, hr⟩ := List.mem_flatMap.mp h
  have hrow := mem_eventRows env hr
  obtain ⟨-, rfl, -⟩ := mem_enrichmentRows env hrow
  exact ⟨e, List.mem_zipIdx_iff_getElem?.mp hmem, hrow⟩

theorem admittedRows_unique {log : List Event} {r r' : EnrichmentRow} (h : r ∈ admittedRows env log)
    (h' : r' ∈ admittedRows env log) (hfield : r.field = r'.field) (horder : r.order = r'.order) :
    r = r' := by
  obtain ⟨e, he, hr⟩ := mem_admittedRows env h
  obtain ⟨e', he', hr'⟩ := mem_admittedRows env h'
  have hindex : r.index = r'.index := congrArg Prod.snd (toLex.injective horder)
  rw [hindex, he'] at he
  cases he
  obtain ⟨hseq, -, hid, hfence, hvalue⟩ := mem_enrichmentRows env hr
  obtain ⟨hseq', -, hid', hfence', hvalue'⟩ := mem_enrichmentRows env hr'
  rw [hid] at hid'
  rw [hfence] at hfence'
  rw [hfield, Option.some.inj hfence', hvalue'] at hvalue
  obtain ⟨id, fence, seq, index, field, value, overflow, invalid⟩ := r
  obtain ⟨id', fence', seq', index', field', value', overflow', invalid'⟩ := r'
  dsimp only at *
  cases hid'
  cases hfence'
  cases hvalue
  rw [hseq, hseq', hindex, hfield]

/-- The fields whose values are only checked when they are applied. -/
def EnrichmentField.numeric : EnrichmentField → Bool
  | .foresightRank | .confidence => true
  | _ => false

theorem boundedCardEnrichment_obj (fields : Obj) :
    ∃ kept : Obj, boundedCardEnrichment (.obj fields) = some (.obj kept) := by
  unfold boundedCardEnrichment boundedEnrichment
  exact ⟨_, rfl⟩

theorem settle_admitted {log : List Event} {r : EnrichmentRow} (h : r ∈ admittedRows env log)
    (hfield : r.field.numeric = false) : r.settle.isSome = true := by
  obtain ⟨e, -, hr⟩ := mem_admittedRows env h
  obtain ⟨-, -, -, -, hvalue⟩ := mem_enrichmentRows env hr
  have hobj (v : Option Obj) (hv : v.map (fun o => (Json.obj o, false, false)) =
      some (r.value, r.overflow, r.invalid)) : ∃ o, r.value = .obj o := by
    obtain ⟨o, -, heq⟩ := Option.map_eq_some_iff.mp hv
    exact ⟨o, (Prod.mk.inj heq).1.symm⟩
  have hrefs (space : String) (raw : Json) (hv : (boundedRefs env space r.fence.isSome raw).map
      (·, false, false) = some (r.value, r.overflow, r.invalid)) : ∃ xs, r.value = .arr xs := by
    obtain ⟨v, hrefs, heq⟩ := Option.map_eq_some_iff.mp hv
    obtain ⟨items, -, rfl⟩ := Option.map_eq_some_iff.mp hrefs
    exact ⟨_, (Prod.mk.inj heq).1.symm⟩
  unfold EnrichmentRow.settle
  dsimp only
  cases hf : r.field <;> rw [hf] at hvalue hfield <;> unfold enrichmentValue at hvalue
  case noveltyVerdict =>
    obtain ⟨o, ho⟩ := hobj _ hvalue
    obtain ⟨kept, hkept⟩ := boundedCardEnrichment_obj o
    rw [ho, hkept]
    rfl
  case crossRunPrior =>
    obtain ⟨o, ho⟩ := hobj _ hvalue
    obtain ⟨kept, hkept⟩ := boundedCardEnrichment_obj o
    rw [ho, hkept]
    rfl
  case footprint =>
    obtain ⟨o, ho⟩ := hobj _ hvalue
    obtain ⟨kept, hkept⟩ := boundedCardEnrichment_obj o
    rw [ho, hkept]
    rfl
  case steeringContext =>
    obtain ⟨rows, -, heq⟩ := Option.map_eq_some_iff.mp hvalue
    rw [← (Prod.mk.inj heq).1]
    rfl
  case conceptTags =>
    obtain ⟨items, -, heq⟩ := Option.map_eq_some_iff.mp hvalue
    rw [← (Prod.mk.inj heq).1]
    rfl
  case lessonRefs =>
    obtain ⟨xs, hxs⟩ := hrefs "lesson" _ hvalue
    rw [hxs]
    rfl
  case claimRefs =>
    obtain ⟨xs, hxs⟩ := hrefs "claim" _ hvalue
    rw [hxs]
    rfl
  case researchOrigin =>
    obtain ⟨s, -, heq⟩ := Option.map_eq_some_iff.mp hvalue
    rw [← (Prod.mk.inj heq).1]
    rfl
  case foresightRank => cases hfield
  case confidence => cases hfield

end Rows

/-! ## The journal -/

section Journal
variable {rows : List EnrichmentRow}

theorem greatest_record {j : EnrichmentJournal} (h : Greatest EnrichmentRow.order j.rows rows) (r : EnrichmentRow)
    (hcap : ((rows ++ [r]).map EnrichmentRow.key).dedup.length ≤ CARD_ENRICHMENT_JOURNAL_MAX) :
    Greatest EnrichmentRow.order (j.record r).rows (rows ++ [r]) := by
  unfold EnrichmentJournal.record
  cases hprior : j.rows.get r.key with
  | some prior =>
    dsimp only
    split
    · rename_i hle
      apply h.put
      intro a ha
      rw [hprior] at ha
      cases ha
      exact hle
    · rename_i hgt
      exact h.skip hprior (le_of_lt (lt_of_not_ge hgt))
  | none =>
    dsimp only
    have hroom : j.rows.rows.length < CARD_ENRICHMENT_JOURNAL_MAX := by
      have hlen := h.length_le
      have hmore := dedup_lt_append (h.fresh hprior)
      rw [List.map_append, List.map_singleton] at hcap
      omega
    rw [if_pos hroom]
    apply h.put
    intro a ha
    rw [hprior] at ha
    cases ha

theorem greatest_journal (hcap : (rows.map EnrichmentRow.key).dedup.length ≤ CARD_ENRICHMENT_JOURNAL_MAX) :
    Greatest EnrichmentRow.order (rows.foldl EnrichmentJournal.record {}).rows rows := by
  induction rows using List.reverseRecOn with
  | nil => exact Greatest.empty
  | append_singleton rows r ih =>
    rw [List.foldl_append]
    apply greatest_record (ih ?_) r hcap
    rw [List.map_append] at hcap
    exact Nat.le_trans (dedup_le_append _ _) hcap

end Journal

/-! ## The winners -/

section Winners

def Winner.rank (w : Winner) : Bool ×ₗ (Int ×ₗ Nat) := toLex (w.applicable, w.row.order)

theorem yields_iff (prior next : Winner) : prior.yields next = true ↔ prior.rank ≤ next.rank := by
  unfold Winner.yields Winner.rank
  rw [Prod.Lex.toLex_le_toLex]
  cases prior.applicable <;> cases next.applicable <;> simp

theorem greatest_contest {t : Table Winner.group} {ws : List Winner} (h : Greatest Winner.rank t ws)
    (w : Winner) : Greatest Winner.rank (contest t w) (ws ++ [w]) := by
  unfold contest
  cases hprior : t.get w.group with
  | none =>
    apply h.put
    intro a ha
    rw [hprior] at ha
    cases ha
  | some prior =>
    dsimp only
    split
    · rename_i hyields
      apply h.put
      intro a ha
      rw [hprior] at ha
      cases ha
      exact (yields_iff prior w).mp hyields
    · rename_i hstays
      apply h.skip hprior
      rw [yields_iff] at hstays
      exact le_of_lt (lt_of_not_ge hstays)

theorem greatest_winners (ws : List Winner) : Greatest Winner.rank (ws.foldl contest Table.empty) ws := by
  induction ws using List.reverseRecOn with
  | nil => exact Greatest.empty
  | append_singleton ws w ih =>
    rw [List.foldl_append]
    exact greatest_contest ih w

theorem candidate_eq_some {env : EnrichmentEnv} {b : EnrichmentBoard} {a : EnrichmentRow} {w : Winner} :
    b.candidate env a = some w ↔ ∃ id, b.canonical env a.id = some id ∧ b.cards.has id = true ∧
      w = { applicable := b.fenceHolds env a.fence id, row := { a with id } } := by
  unfold EnrichmentBoard.candidate
  rw [Option.map_eq_some_iff]
  constructor
  · rintro ⟨id, hid, rfl⟩
    obtain ⟨hcanon, hhas⟩ := Option.filter_eq_some_iff.mp hid
    exact ⟨id, hcanon, hhas, rfl⟩
  · rintro ⟨id, hcanon, hhas, rfl⟩
    exact ⟨id, Option.filter_eq_some_iff.mpr ⟨hcanon, hhas⟩, rfl⟩

end Winners

/-! ## The names of a board -/

section Names
variable (env : EnrichmentEnv)

structure EnrichmentBoard.Named (b : EnrichmentBoard) : Prop where
  canonical : ∀ raw id, b.canonical env raw = some id → b.canonical env id = some id

theorem named_enrichmentBoard (log : List Event) : (enrichmentBoard env log).Named env := by
  constructor
  intro raw id h
  obtain ⟨x, hx, rfl⟩ := Option.map_eq_some_iff.mp h
  let inputs := cardInputs env.toLedgerEnv (replayBoard env.toLedgerEnv log)
  let aliases := (mergedLedger env.toLedgerEnv inputs).aliases
  have hadmitted : Admitted env.toLedgerEnv (aliases.canon x) :=
    canon_holds admitted_cardId (seedOwner_holds admitted_cardId inputs.st inputs.board) inputs.board
      (admitted_cardId raw x hx)
  show (cardId env.toLedgerEnv (aliases.canon x)).map aliases.canon = some (aliases.canon x)
  rw [hadmitted.2, Option.map_some, (canon_resolves aliases).idempotent]

end Names

/-! ## Compaction -/

/-- The last row of a field. -/
def newestOf (rows : List EnrichmentRow) (k : EnrichmentField) : Option EnrichmentRow :=
  (rows.filter fun r => r.field = k).getLast?

section Compacted
variable {env : EnrichmentEnv} {b : EnrichmentBoard} {rows : List EnrichmentRow} {id : String}
  {k : EnrichmentField}

theorem mem_bindingRows {r : EnrichmentRow} :
    r ∈ bindingRows env b rows id ↔ r ∈ rows ∧ b.binds env id r = true := by
  unfold bindingRows
  rw [List.mem_filter, List.mem_mergeSort]

theorem mem_fieldRows {r : EnrichmentRow} : r ∈ (bindingRows env b rows id).filter (fun r => r.field = k) ↔
    r ∈ rows ∧ b.binds env id r = true ∧ r.field = k := by
  rw [List.mem_filter, mem_bindingRows, decide_eq_true_eq, and_assoc]

theorem sorted_bindingRows : (bindingRows env b rows id).Pairwise fun x y => x.order ≤ y.order := by
  unfold bindingRows
  apply List.Pairwise.filter
  have htrans (x y z : EnrichmentRow) (hxy : decide (x.order ≤ y.order) = true)
      (hyz : decide (y.order ≤ z.order) = true) : decide (x.order ≤ z.order) = true := by
    rw [decide_eq_true_eq] at hxy hyz ⊢
    exact le_trans hxy hyz
  have htotal (x y : EnrichmentRow) : (decide (x.order ≤ y.order) || decide (y.order ≤ x.order)) = true := by
    rw [Bool.or_eq_true, decide_eq_true_eq, decide_eq_true_eq]
    exact le_total x.order y.order
  exact (List.pairwise_mergeSort htrans htotal rows).imp of_decide_eq_true

theorem newest_binding {r : EnrichmentRow} (h : newestOf (bindingRows env b rows id) k = some r) :
    r ∈ rows ∧ b.binds env id r = true ∧ r.field = k ∧
      ∀ x ∈ rows, b.binds env id x = true → x.field = k → x.order ≤ r.order := by
  obtain ⟨hmem, hbinds, hfield⟩ := mem_fieldRows.mp (List.mem_of_getLast? h)
  refine ⟨hmem, hbinds, hfield, ?_⟩
  intro x hx hxbinds hxfield
  obtain ⟨front, hfront⟩ := List.getLast?_eq_some_iff.mp h
  have hin := mem_fieldRows.mpr ⟨hx, hxbinds, hxfield⟩
  have hsorted : ((bindingRows env b rows id).filter fun r => r.field = k).Pairwise
      fun x y => x.order ≤ y.order := sorted_bindingRows.filter _
  rw [hfront] at hin hsorted
  rcases List.mem_append.mp hin with hin | hin
  · exact (List.pairwise_append.mp hsorted).2.2 x hin r List.mem_cons_self
  · rw [List.mem_singleton.mp hin]

theorem mem_recompact {j : EnrichmentJournal} {r : EnrichmentRow} :
    r ∈ recompactCardEnrichment env b j ↔ ∃ w, w.row = r ∧
      ((j.rows.rows.filterMap (b.candidate env)).foldl contest Table.empty).get w.group = some w := by
  unfold recompactCardEnrichment
  rw [List.mem_mergeSort, List.mem_map]
  constructor
  · rintro ⟨w, hw, hrow⟩
    exact ⟨w, hrow, Table.mem_iff_get.mp hw⟩
  · rintro ⟨w, hrow, hw⟩
    exact ⟨w, Table.mem_iff_get.mpr hw, hrow⟩

theorem recompact_origin {j : EnrichmentJournal} {r : EnrichmentRow} (hnamed : b.Named env)
    (hr : r ∈ recompactCardEnrichment env b j) (hbinds : b.binds env id r = true) :
    ∃ a ∈ j.rows.rows, b.binds env id a = true ∧ r = { a with id } ∧
      ∀ x ∈ j.rows.rows, b.binds env id x = true → x.field = a.field → x.order ≤ a.order := by
  obtain ⟨w, rfl, hw⟩ := mem_recompact.mp hr
  obtain ⟨hmem, hmost⟩ := (greatest_winners _).of_get hw
  obtain ⟨a, ha, hcand⟩ := List.mem_filterMap.mp hmem
  obtain ⟨name, hcanon, hhas, rfl⟩ := candidate_eq_some.mp hcand
  unfold EnrichmentBoard.binds at hbinds
  simp only [Bool.and_eq_true, decide_eq_true_eq] at hbinds
  have hname : name = id := by
    have := hnamed.canonical _ _ hcanon
    rw [hbinds.1] at this
    exact (Option.some.inj this).symm
  subst hname
  have habinds : b.binds env name a = true := by
    unfold EnrichmentBoard.binds
    rw [hcanon, hbinds.2]
    simp
  refine ⟨a, ha, habinds, rfl, ?_⟩
  intro x hx hxbinds hfield
  unfold EnrichmentBoard.binds at hxbinds
  simp only [Bool.and_eq_true, decide_eq_true_eq] at hxbinds
  have hxcand := candidate_eq_some.mpr ⟨name, hxbinds.1, hhas, rfl⟩
  have hle := hmost _ (List.mem_filterMap.mpr ⟨x, hx, hxcand⟩) (by
    unfold Winner.group
    dsimp only
    rw [hfield])
  unfold Winner.rank at hle
  dsimp only at hle
  rw [hxbinds.2, hbinds.2, Prod.Lex.toLex_le_toLex] at hle
  rcases hle with hlt | ⟨-, hle⟩
  · exact absurd hlt (lt_irrefl true)
  · exact hle

theorem exists_recompact {j : EnrichmentJournal} {a : EnrichmentRow} (hnamed : b.Named env)
    (hhas : b.cards.has id = true) (ha : a ∈ j.rows.rows) (hbinds : b.binds env id a = true) :
    ∃ r ∈ recompactCardEnrichment env b j, b.binds env id r = true ∧ r.field = a.field := by
  unfold EnrichmentBoard.binds at hbinds
  simp only [Bool.and_eq_true, decide_eq_true_eq] at hbinds
  have hcand := candidate_eq_some.mpr ⟨id, hbinds.1, hhas, rfl⟩
  obtain ⟨w, hw, hle⟩ := (greatest_winners _).found _ (List.mem_filterMap.mpr ⟨a, ha, hcand⟩)
  have hgroup := Table.key_of_get hw
  rw [← hgroup] at hw
  obtain ⟨hmem, -⟩ := (greatest_winners _).of_get hw
  obtain ⟨x, -, hxcand⟩ := List.mem_filterMap.mp hmem
  obtain ⟨name, -, -, rfl⟩ := candidate_eq_some.mp hxcand
  unfold Winner.group at hgroup
  dsimp only at hgroup
  obtain ⟨rfl, hfield⟩ := Prod.mk.inj hgroup
  refine ⟨{ x with id := name },
    mem_recompact.mpr ⟨⟨b.fenceHolds env x.fence name, { x with id := name }⟩, rfl, ?_⟩, ?_, hfield⟩
  · exact hw
  · unfold Winner.rank at hle
    dsimp only at hle
    rw [hbinds.2, Prod.Lex.toLex_le_toLex] at hle
    have happl : b.fenceHolds env x.fence name = true := by
      rcases hle with hlt | ⟨heq, -⟩
      · exact absurd (Bool.le_true _) (not_le_of_gt hlt)
      · exact heq.symm
    unfold EnrichmentBoard.binds
    rw [hnamed.canonical _ _ hbinds.1, happl]
    simp

theorem getLast_filterMap_of_const {α β : Type} {f : α → Option β} {xs : List α} {a : α} (hne : xs ≠ [])
    (h : ∀ x ∈ xs, x = a) : (xs.filterMap f).getLast? = f a := by
  rw [List.eq_replicate_of_mem h]
  induction hn : xs.length with
  | zero => exact absurd (List.length_eq_zero_iff.mp hn) hne
  | succ n =>
    cases hfa : f a with
    | none =>
      have hnil : (List.replicate (n + 1) a).filterMap f = [] := by
        apply List.filterMap_eq_nil_iff.mpr
        intro x hx
        rw [List.eq_of_mem_replicate hx, hfa]
      rw [hnil]
      rfl
    | some u =>
      rw [List.replicate_succ', List.filterMap_append, List.filterMap_cons_some hfa]
      exact List.getLast?_concat

theorem lastSettled_recompact {j : EnrichmentJournal} (hnamed : b.Named env) (hhas : b.cards.has id = true)
    (hj : Greatest EnrichmentRow.order j.rows rows)
    (huniq : ∀ x ∈ rows, ∀ y ∈ rows, x.field = y.field → x.order = y.order → x = y) (owned : Bool) :
    lastSettled owned (bindingRows env b (recompactCardEnrichment env b j) id) k =
      (newestOf (bindingRows env b rows id) k).bind (EnrichmentRow.settleOn owned) := by
  unfold lastSettled
  cases hnew : newestOf (bindingRows env b rows id) k with
  | none =>
    have hnone : (bindingRows env b rows id).filter (fun r => r.field = k) = [] :=
      List.getLast?_eq_none_iff.mp hnew
    have hnil : (bindingRows env b (recompactCardEnrichment env b j) id).filter (fun r => r.field = k) = [] := by
      apply List.eq_nil_iff_forall_not_mem.mpr
      intro r hr
      obtain ⟨hmem, hbinds, hfield⟩ := mem_fieldRows.mp hr
      obtain ⟨a, ha, habinds, rfl, -⟩ := recompact_origin hnamed hmem hbinds
      have : a ∈ (bindingRows env b rows id).filter (fun r => r.field = k) :=
        mem_fieldRows.mpr ⟨hj.mem a ha, habinds, hfield⟩
      rw [hnone] at this
      cases this
    rw [hnil]
    rfl
  | some r =>
    obtain ⟨hr, hbinds, hfield, hmost⟩ := newest_binding hnew
    have hin : r ∈ j.rows.rows := by
      obtain ⟨a, ha, hle⟩ := hj.found r hr
      have hkey : a.key = r.key := Table.key_of_get ha
      unfold EnrichmentRow.key at hkey
      obtain ⟨hid, hrest⟩ := Prod.mk.inj hkey
      obtain ⟨hfence, hafield⟩ := Prod.mk.inj hrest
      have hamem := Table.mem_of_get ha
      have habinds : b.binds env id a = true := by
        unfold EnrichmentBoard.binds at hbinds ⊢
        rw [hid, hfence, hbinds]
      have hle' := hmost a (hj.mem a hamem) habinds (hafield.trans hfield)
      rw [← huniq a (hj.mem a hamem) r hr hafield (le_antisymm hle' hle)]
      exact hamem
    have hconst : ∀ x ∈ (bindingRows env b (recompactCardEnrichment env b j) id).filter (fun r => r.field = k),
        x = { r with id } := by
      intro x hx
      obtain ⟨hmem, hxbinds, hxfield⟩ := mem_fieldRows.mp hx
      obtain ⟨a, ha, habinds, rfl, hamost⟩ := recompact_origin hnamed hmem hxbinds
      have hafield : a.field = k := hxfield
      have hle := hmost a (hj.mem a ha) habinds hafield
      have hge := hamost r hin hbinds (hfield.trans hafield.symm)
      rw [huniq a (hj.mem a ha) r hr (hafield.trans hfield.symm) (le_antisymm hle hge)]
    have hne : (bindingRows env b (recompactCardEnrichment env b j) id).filter (fun r => r.field = k) ≠ [] := by
      obtain ⟨x, hx, hxbinds, hxfield⟩ := exists_recompact hnamed hhas hin hbinds
      exact List.ne_nil_of_mem (mem_fieldRows.mpr ⟨hx, hxbinds, hxfield.trans hfield⟩)
    rw [getLast_filterMap_of_const hne hconst]
    rfl

end Compacted

/-! ## What is lost -/

/-- A row with a value the card cannot take is newer than the last that wrote the field. -/
def Displaced (rows : List EnrichmentRow) (before : Enrichment) (k : EnrichmentField) : Prop :=
  ∃ r u, newestOf rows k = some r ∧ r.settle = none ∧ lastSettled false rows k = some u ∧ u ≠ before.held k

section Lost
variable {rows : List EnrichmentRow} {before : Enrichment} {k : EnrichmentField}

theorem settleOn_of_ne {r : EnrichmentRow} (owned : Bool) (h : r.field ≠ .conceptTags) :
    r.settleOn owned = r.settle := by
  unfold EnrichmentRow.settleOn
  rw [if_neg]
  simp [h]

theorem lastSettled_of_newest {owned : Bool}
    (h : ∀ r, newestOf rows k = some r → (r.settleOn owned).isSome = true) :
    lastSettled owned rows k = (newestOf rows k).bind (EnrichmentRow.settleOn owned) := by
  cases hnew : newestOf rows k with
  | none =>
    unfold lastSettled
    rw [List.getLast?_eq_none_iff.mp hnew]
    rfl
  | some r =>
    obtain ⟨front, hfront⟩ := List.getLast?_eq_some_iff.mp hnew
    obtain ⟨u, hu⟩ := Option.isSome_iff_exists.mp (h r hnew)
    unfold lastSettled
    rw [hfront, List.filterMap_append, List.filterMap_cons_some hu, Option.bind_some, hu]
    exact List.getLast?_concat

theorem lastSettled_owned (hk : k ≠ .conceptTags) (owned : Bool) :
    lastSettled owned rows k = lastSettled false rows k := by
  unfold lastSettled
  congr 1
  apply List.filterMap_congr
  intro r hr
  have hfield : r.field = k := of_decide_eq_true (List.mem_filter.mp hr).2
  rw [settleOn_of_ne owned (hfield ▸ hk), settleOn_of_ne false (hfield ▸ hk)]

theorem field_of_newest {r : EnrichmentRow} (h : newestOf rows k = some r) : r ∈ rows ∧ r.field = k := by
  have hr := List.mem_of_getLast? h
  rw [List.mem_filter, decide_eq_true_eq] at hr
  exact hr

theorem settled_of_checked (owned : Bool) (hk : k.numeric = false)
    (hchecked : ∀ r ∈ rows, r.field.numeric = false → r.settle.isSome = true) :
    lastSettled owned rows k = (newestOf rows k).bind (EnrichmentRow.settleOn owned) := by
  by_cases htags : (k = .conceptTags) ∧ owned = true
  · obtain ⟨rfl, rfl⟩ := htags
    have hnone (r : EnrichmentRow) (hr : r.field = .conceptTags) : r.settleOn true = none := by
      unfold EnrichmentRow.settleOn
      rw [if_pos]
      simp [hr]
    have hleft : lastSettled true rows .conceptTags = none := by
      unfold lastSettled
      rw [List.filterMap_eq_nil_iff.mpr]
      · rfl
      · intro r hr
        exact hnone r (of_decide_eq_true (List.mem_filter.mp hr).2)
    rw [hleft]
    cases hnew : newestOf rows .conceptTags with
    | none => rfl
    | some r => exact (hnone r (field_of_newest hnew).2).symm
  · apply lastSettled_of_newest
    intro r hnew
    obtain ⟨hr, rfl⟩ := field_of_newest hnew
    have hsettle := hchecked r hr hk
    unfold EnrichmentRow.settleOn
    rw [if_neg]
    · exact hsettle
    · simpa using htags

theorem settled_iff (owned : Bool) (hk : k.numeric = true) :
    ((newestOf rows k).bind (EnrichmentRow.settleOn owned)).getD (before.held k) =
      (lastSettled owned rows k).getD (before.held k) ↔ ¬ Displaced rows before k := by
  have htags : k ≠ .conceptTags := by
    rintro rfl
    cases hk
  rw [lastSettled_owned htags]
  cases hnew : newestOf rows k with
  | none =>
    have hnone : lastSettled false rows k = none := by
      unfold lastSettled
      rw [List.getLast?_eq_none_iff.mp hnew]
      rfl
    rw [hnone]
    apply iff_of_true rfl
    rintro ⟨r, u, hr, -⟩
    rw [hnew] at hr
    cases hr
  | some r =>
    obtain ⟨-, hfield⟩ := field_of_newest hnew
    have howned := settleOn_of_ne owned (hfield ▸ htags)
    rw [Option.bind_some, howned]
    cases hr : r.settle with
    | some u =>
      have hlast : lastSettled false rows k = some u := by
        rw [lastSettled_of_newest, hnew, Option.bind_some, settleOn_of_ne false (hfield ▸ htags), hr]
        intro x hx
        rw [hnew] at hx
        cases hx
        rw [settleOn_of_ne false (hfield ▸ htags), hr]
        rfl
      rw [hlast]
      apply iff_of_true rfl
      rintro ⟨x, u, hx, hnone, -⟩
      rw [hnew] at hx
      cases hx
      rw [hr] at hnone
      cases hnone
    | none =>
      constructor
      · rintro heq ⟨-, u, -, -, hlast, hne⟩
        rw [hlast] at heq
        exact hne heq.symm
      · intro hkept
        cases hlast : lastSettled false rows k with
        | none => rfl
        | some u =>
          by_contra hne
          exact hkept ⟨r, u, hnew, hr, hlast, Ne.symm hne⟩

end Lost

section Main
variable (env : EnrichmentEnv)

theorem admittedRows_append (p t : List Event) : ∃ rest, admittedRows env (p ++ t) = admittedRows env p ++ rest := by
  unfold admittedRows
  rw [List.zipIdx_append, List.flatMap_append]
  exact ⟨_, rfl⟩

/-- The compacted rows of a log leave every card as all of its rows would, up to a row of a rank or a
confidence that the card cannot take and that displaced an older one. -/
theorem enriched_whole_iff (log : List Event)
    (hkeys : ((admittedRows env log).map EnrichmentRow.key).dedup.length ≤ CARD_ENRICHMENT_JOURNAL_MAX)
    (p : List Event) (hp : p <+: log) (id : String) (hid : (enrichmentBoard env p).cards.has id = true)
    (before : Enrichment) :
    enrichedCard env p id before =
        applyCardEnrichment env (enrichmentBoard env p) (admittedRows env p) id before ↔
      ∀ k : EnrichmentField, k.numeric = true →
        ¬ Displaced (bindingRows env (enrichmentBoard env p) (admittedRows env p) id) before k := by
  obtain ⟨t, rfl⟩ := hp
  obtain ⟨rest, hrest⟩ := admittedRows_append env p t
  have hcap : ((admittedRows env p).map EnrichmentRow.key).dedup.length ≤ CARD_ENRICHMENT_JOURNAL_MAX := by
    rw [hrest, List.map_append] at hkeys
    exact Nat.le_trans (dedup_le_append _ _) hkeys
  have hjournal : Greatest EnrichmentRow.order (replayEnrichment env p).journal.rows (admittedRows env p) := by
    rw [replayEnrichment_eq]
    exact greatest_journal hcap
  have hcompact (k : EnrichmentField) := lastSettled_recompact (k := k) (named_enrichmentBoard env p) hid hjournal
    (fun x hx y hy hfield horder => admittedRows_unique env hx hy hfield horder) before.concepts.ofNode
  unfold enrichedCard applyCardEnrichment
  dsimp only
  rw [foldl_applyRow_eq_iff]
  apply forall_congr'
  intro k
  rw [hcompact k]
  cases hk : k.numeric with
  | true =>
    rw [settled_iff before.concepts.ofNode hk]
    simp
  | false =>
    have hchecked : ∀ r ∈ bindingRows env (enrichmentBoard env p) (admittedRows env p) id,
        r.field.numeric = false → r.settle.isSome = true :=
      fun r hr => settle_admitted env (mem_bindingRows.mp hr).1
    rw [settled_of_checked before.concepts.ofNode hk hchecked]
    simp

end Main

/-! ## A rank that is lost -/

/-- An environment in which every value is kept as it stands. -/
def EnrichmentEnv.plain : EnrichmentEnv :=
  { LedgerEnv.plain with
    normalizeSteeringContext := fun v => v.arr?.map fun items => items.filterMap Json.obj?
    boundedRawConceptValues := fun items => (items.filterMap Json.str?, false, false)
    cardCrossRunProjection := id
    ideaProposalDigest := fun _ => none }

/-- A card is ranked twice, the second time in words. -/
def rankedRows : List Event :=
  [{ type := "card_added", seq := 0, data := [("id", .str "c")] },
    { type := CARD_ENRICHED, seq := 1, data := [("id", .str "c"), ("foresight_rank", .int 5)] },
    { type := CARD_ENRICHED, seq := 2, data := [("id", .str "c"), ("foresight_rank", .str "many")] }]

theorem ranked_keys : ((admittedRows EnrichmentEnv.plain rankedRows).map EnrichmentRow.key).dedup.length ≤
    CARD_ENRICHMENT_JOURNAL_MAX := by
  decide +kernel

theorem ranked_card : (enrichmentBoard EnrichmentEnv.plain rankedRows).cards.has "c" = true := by
  decide +kernel

theorem enriched_whole_ranked :
    enrichedCard EnrichmentEnv.plain rankedRows "c" {} =
        applyCardEnrichment EnrichmentEnv.plain (enrichmentBoard EnrichmentEnv.plain rankedRows)
          (admittedRows EnrichmentEnv.plain rankedRows) "c" {} ↔
      ∀ k : EnrichmentField, k.numeric = true →
        ¬ Displaced (bindingRows EnrichmentEnv.plain (enrichmentBoard EnrichmentEnv.plain rankedRows)
          (admittedRows EnrichmentEnv.plain rankedRows) "c") {} k :=
  enriched_whole_iff EnrichmentEnv.plain rankedRows ranked_keys rankedRows List.prefix_rfl "c" ranked_card {}

/-- The rank that a number gave is lost to the words that came after it. -/
theorem rank_lost :
    ((admittedRows EnrichmentEnv.plain rankedRows).map EnrichmentRow.key).dedup.length ≤
        CARD_ENRICHMENT_JOURNAL_MAX ∧
      (enrichmentBoard EnrichmentEnv.plain rankedRows).cards.has "c" = true ∧
      enrichedCard EnrichmentEnv.plain rankedRows "c" {} ≠
        applyCardEnrichment EnrichmentEnv.plain (enrichmentBoard EnrichmentEnv.plain rankedRows)
          (admittedRows EnrichmentEnv.plain rankedRows) "c" {} := by
  refine ⟨ranked_keys, ranked_card, ?_⟩
  have hcompacted : (enrichedCard EnrichmentEnv.plain rankedRows "c" {}).foresightRank = none := by
    decide +kernel
  have hwhole : (applyCardEnrichment EnrichmentEnv.plain (enrichmentBoard EnrichmentEnv.plain rankedRows)
      (admittedRows EnrichmentEnv.plain rankedRows) "c" {}).foresightRank = some 5 := by
    have hsorted : (admittedRows EnrichmentEnv.plain rankedRows).Pairwise
        fun x y => decide (x.order ≤ y.order) = true := by
      decide +kernel
    unfold applyCardEnrichment bindingRows
    rw [List.mergeSort_of_pairwise hsorted]
    decide +kernel
  intro heq
  rw [heq, hwhole] at hcompacted
  cases hcompacted

end LoopLab
