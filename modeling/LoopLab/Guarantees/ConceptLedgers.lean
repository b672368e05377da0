import LoopLab.Engine.ConceptWrites
import LoopLab.Guarantees.AliasChains
import LoopLab.Strip

/-!
# Governance ledgers stay readable

Where every stored key is left as it is by a second normalization, a row that a writer lets in is one its
readers take: the ledgers load, no chain of aliases comes back to itself, and the revisions count the rows.
-/

set_option autoImplicit false

namespace LoopLab.Engine
open Lib

variable {env : KeyEnv} {valid : String → Bool} {aliases : Aliases} {m m' : ConceptMemory} {src dst : String}

/-! ## Keys -/

theorem mem_collapseSpaces {c : Char} {cs : List Char} (h : c ∈ collapseSpaces cs) : c = ' ' ∨ c ∈ cs := by
  induction cs with
  | nil => cases h
  | cons d rest ih =>
    unfold collapseSpaces at h
    split at h
    · split at h
      · split at h
        · exact (ih h).imp id (List.mem_cons_of_mem _)
        · rcases List.mem_cons.mp h with rfl | h
          · exact .inl rfl
          · exact (ih h).imp id (List.mem_cons_of_mem _)
      · exact .inl (List.mem_singleton.mp h)
    · rcases List.mem_cons.mp h with rfl | h
      · exact .inr (List.mem_cons_self ..)
      · exact (ih h).imp id (List.mem_cons_of_mem _)

theorem normalizeKey_ne_tombstone (env : KeyEnv) (s : String) : normalizeKey env s ≠ CONCEPT_TOMBSTONE := by
  intro heq
  have hnull : Char.ofNat 0 ∈ (normalizeKey env s).toList := by
    rw [heq]
    decide
  unfold normalizeKey at hnull
  rw [String.toList_ofList] at hnull
  rcases mem_collapseSpaces hnull with h | h
  · revert h
    decide
  · have hcontrol := (List.mem_filter.mp h).2
    revert hcontrol
    decide

/-- A text whose key is left as it is by a second normalization. -/
def Settled (env : KeyEnv) (s : String) : Prop := normalizeKey env (normalizeKey env s) = normalizeKey env s

/-! ## What the strict readers check -/

section Rows
variable {Change : Type} {validate : PolicyRow Change → Option HealthReason} {rows rows' : List (PolicyRow Change)}
  {row : PolicyRow Change}

structure RowsSound (validate : PolicyRow Change → Option HealthReason) (rows : List (PolicyRow Change)) : Prop where
  valid : ∀ row ∈ rows, validate row = none
  actions : (rows.filterMap (·.actionId)).Nodup
  revisions : rows.map (·.revision) = List.range' 1 rows.length

theorem readPolicyRows_ok : readPolicyRows validate rows = .ok rows' ↔ rows' = rows ∧ RowsSound validate rows := by
  unfold readPolicyRows
  constructor
  · intro h
    split at h
    · cases h
    · next hvalid =>
      split at h
      · cases h
      · next hactions =>
        split at h
        · cases h
        · next hrevisions =>
          simp only [actionIdsDistinct, Bool.not_eq_true', decide_eq_false_iff_not, not_not] at hactions
          simp only [revisionsLocal, Bool.not_eq_true', decide_eq_false_iff_not, not_not] at hrevisions
          exact ⟨(Except.ok.inj h).symm, List.findSome?_eq_none_iff.mp hvalid, hactions, hrevisions⟩
  · rintro ⟨rfl, hvalid, hactions, hrevisions⟩
    rw [List.findSome?_eq_none_iff.mpr hvalid]
    simp [actionIdsDistinct, revisionsLocal, hactions, hrevisions]

theorem RowsSound.read (h : RowsSound validate rows) : readPolicyRows validate rows = .ok rows := readPolicyRows_ok.mpr ⟨rfl, h⟩

theorem RowsSound.nil : RowsSound validate ([] : List (PolicyRow Change)) := ⟨nofun, List.nodup_nil, rfl⟩

theorem RowsSound.snoc (h : RowsSound validate rows) (hvalid : validate row = none) (hrevision : row.revision = rows.length + 1)
    (hnew : ∀ id, row.actionId = some id → ∀ r ∈ rows, r.actionId ≠ some id) : RowsSound validate (rows ++ [row]) where
  valid := by
    intro r hr
    rcases List.mem_append.mp hr with hr | hr
    · exact h.valid r hr
    · obtain rfl := List.mem_singleton.mp hr
      exact hvalid
  actions := by
    rw [List.filterMap_append, List.nodup_append]
    refine ⟨h.actions, ?_, ?_⟩
    · cases hid : row.actionId with
      | none => simp [hid]
      | some id => simp [hid]
    · intro id hold id' hlast heq
      obtain ⟨r, hr, hid⟩ := List.mem_filterMap.mp hold
      obtain ⟨r', hr', hid'⟩ := List.mem_filterMap.mp hlast
      obtain rfl := List.mem_singleton.mp hr'
      exact hnew id (heq ▸ hid') r hr hid
  revisions := by
    rw [List.map_append, h.revisions, List.length_append, List.length_singleton, List.range'_concat]
    simp [hrevision, Nat.add_comm]

theorem RowsSound.current (h : RowsSound validate rows) : (rows.map (·.revision)).foldl max rows.length = rows.length := by
  rw [h.revisions]
  have hbound : ∀ r ∈ List.range' 1 rows.length, r ≤ rows.length := by
    intro r hr
    have := List.mem_range'_1.mp hr
    omega
  generalize List.range' 1 rows.length = revisions at hbound
  induction revisions with
  | nil => rfl
  | cons r rest ih =>
    rw [List.foldl_cons, Nat.max_eq_left (hbound r (List.mem_cons_self ..))]
    exact ih fun r' hr' => hbound r' (List.mem_cons_of_mem _ hr')

end Rows

/-! ## Appends -/

section Append
variable {Change : Type} {validate : PolicyRow Change → Option HealthReason}
  {rows rows' : List (PolicyRow Change)} {row : PolicyRow Change} {change : Change} {source by_ at_ : String}
  {actionId : Option String} {total : Nat} {opts : WriteOptions} {check : Except PolicyRefusal Unit}

/-- What a write makes of its ledger: an action that is in it gives its first row, any other is one row more. -/
inductive Receipted (rows : List (PolicyRow Change)) (total : Nat) (change : Change) (source : String)
    (actionId : Option String) : PolicyRow Change → List (PolicyRow Change) → Prop
  | first {row : PolicyRow Change} (id : String) (hid : actionId = some id)
    (hfind : rows.find? (fun r => decide (r.actionId = some id)) = some row)
    (hchange : row.change = change) (hsource : row.source = source) : Receipted rows total change source actionId row rows
  | appended {row : PolicyRow Change} (hnew : ∀ id, actionId = some id → ∀ r ∈ rows, r.actionId ≠ some id)
    (hchange : row.change = change) (hsource : row.source = source) (hid : row.actionId = actionId)
    (hrevision : row.revision = rows.length + 1) (hshared : row.governanceRevision = total + 1) :
    Receipted rows total change source actionId row (rows ++ [row])

theorem Receipted.of_snoc (h : Receipted rows total change source actionId row rows') (hrows : rows' = rows ++ [row]) :
    (∀ id, row.actionId = some id → ∀ r ∈ rows, r.actionId ≠ some id) ∧ row.change = change ∧ row.source = source ∧
      row.actionId = actionId ∧ row.revision = rows.length + 1 ∧ row.governanceRevision = total + 1 := by
  cases h with
  | first =>
    have := congrArg List.length hrows
    simp at this
  | appended hnew hchange hsource hid hrevision hshared =>
    exact ⟨fun id hrow => hnew id (hid.symm.trans hrow), hchange, hsource, hid, hrevision, hshared⟩

theorem Receipted.find {id : String} (h : Receipted rows total change source (some id) row rows') :
    rows'.find? (fun r => decide (r.actionId = some id)) = some row ∧ row.change = change ∧ row.source = source := by
  cases h with
  | first id' hid hfind hchange hsource =>
    cases hid
    exact ⟨hfind, hchange, hsource⟩
  | appended hnew hchange hsource hid =>
    refine ⟨?_, hchange, hsource⟩
    have hnone : rows.find? (fun r => decide (r.actionId = some id)) = none := by
      rw [List.find?_eq_none]
      intro r hr
      simpa using hnew id rfl r hr
    rw [List.find?_append, hnone]
    simp [hid]

variable [DecidableEq Change]

theorem healthy_ok {α : Type} {x : Except HealthReason α} {a : α} : healthy x = .ok a ↔ x = .ok a := mapError_ok

theorem appendGovernance_ok (hsound : RowsSound validate rows)
    (h : appendGovernance (readPolicyRows validate rows) (.ok total) change source by_ at_ actionId opts check = .ok (row, rows')) :
    Receipted rows total change source actionId row rows' ∧
      (rows' = rows ∨ check = .ok () ∧ rows' = rows ++ [row] ∧ row.by_ = by_ ∧ row.at_ = at_ ∧
        ∀ n, opts.expectedGovernanceRevision = some n → n = total) := by
  unfold appendGovernance at h
  rw [hsound.read] at h
  obtain ⟨read, hread, h⟩ := bind_ok.mp h
  obtain rfl := Except.ok.inj (healthy_ok.mp hread)
  obtain ⟨count, hcount, h⟩ := bind_ok.mp h
  obtain rfl := Except.ok.inj (healthy_ok.mp hcount)
  split at h
  · next existing hfind =>
    split at h
    · next hpayload =>
      obtain ⟨rfl, rfl⟩ := Prod.mk.inj (Except.ok.inj h)
      obtain ⟨id, hid, hfind⟩ := Option.bind_eq_some_iff.mp hfind
      exact ⟨.first id hid hfind hpayload.1 hpayload.2, .inl rfl⟩
    · cases h
  · next hnone =>
    obtain ⟨_, hshared, h⟩ := bind_ok.mp h
    obtain ⟨-, -, h⟩ := bind_ok.mp h
    obtain ⟨_, hcheck, h⟩ := bind_ok.mp h
    obtain ⟨rfl, rfl⟩ := Prod.mk.inj (Except.ok.inj h)
    refine ⟨.appended ?_ rfl rfl rfl ?_ rfl, .inr ⟨hcheck, rfl, rfl, rfl, ?_⟩⟩
    · rintro id rfl r hr heq
      have := List.find?_eq_none.mp hnone r hr
      simp [heq] at this
    · exact congrArg (· + 1) hsound.current
    · intro n hn
      have hequal := failIf_ok.mp hshared
      rw [hn] at hequal
      simpa using hequal

theorem appendGovernance_replay (hsound : RowsSound validate rows) {id : String}
    (hfind : rows.find? (fun r => decide (r.actionId = some id)) = some row) (hchange : row.change = change)
    (hsource : row.source = source) :
    appendGovernance (readPolicyRows validate rows) (.ok total) change source by_ at_ (some id) opts check = .ok (row, rows) := by
  unfold appendGovernance
  rw [hsound.read]
  refine bind_ok.mpr ⟨rows, healthy_ok.mpr rfl, bind_ok.mpr ⟨total, healthy_ok.mpr rfl, ?_⟩⟩
  rw [Option.bind_some, hfind]
  exact if_pos ⟨hchange, hsource⟩

end Append

/-! ## Payloads -/

theorem boundedKey_ok {value field out : String} {maximum : Nat} {required : Bool} :
    boundedKey env value field maximum required = .ok out ↔
      out = normalizeKey env value ∧ out.length ≤ maximum ∧ (required = true → out ≠ "") := by
  unfold boundedKey
  constructor
  · intro h
    obtain ⟨_, hrequired, h⟩ := bind_ok.mp h
    obtain ⟨_, hlength, h⟩ := bind_ok.mp h
    rw [failIf_ok] at hrequired hlength
    obtain rfl := Except.ok.inj h
    exact ⟨rfl, by omega, fun hreq hblank => hrequired ⟨hreq, hblank⟩⟩
  · rintro ⟨rfl, hlength, hrequired⟩
    refine bind_ok.mpr ⟨⟨⟩, failIf_ok.mpr fun h => hrequired h.1 h.2, bind_ok.mpr ⟨⟨⟩, failIf_ok.mpr ?_, rfl⟩⟩
    omega

theorem boundedText_ok {value field out : String} {maximum : Nat} (h : boundedText value field maximum = .ok out) :
    out = value ∧ value.length ≤ maximum := by
  obtain ⟨_, hlength, h⟩ := bind_ok.mp h
  obtain rfl := Except.ok.inj h
  exact ⟨rfl, Nat.le_of_not_gt (failIf_ok.mp hlength)⟩

structure ReceiptFits (by_ at_ : String) (actionId : Option String) : Prop where
  by_ : by_.length ≤ MAX_ACTOR
  at_ : at_.length ≤ MAX_AT
  id : ∀ id, actionId = some id → id.length ≤ MAX_ACTION_ID ∧ Py.strip id ≠ ""

theorem checkOptions_ok {opts : WriteOptions} {by_ at_ : String} {actionId : Option String}
    (h : checkOptions opts = .ok (by_, at_, actionId)) : ReceiptFits by_ at_ actionId := by
  obtain ⟨_, _, h⟩ := bind_ok.mp h
  obtain ⟨_, _, h⟩ := bind_ok.mp h
  obtain ⟨id, hid, h⟩ := bind_ok.mp h
  obtain ⟨b, hb, h⟩ := bind_ok.mp h
  obtain ⟨a, ha, h⟩ := bind_ok.mp h
  obtain ⟨rfl, hrest⟩ := Prod.mk.inj (Except.ok.inj h)
  obtain ⟨rfl, rfl⟩ := Prod.mk.inj hrest
  obtain ⟨rfl, hby⟩ := boundedText_ok hb
  obtain ⟨rfl, hat⟩ := boundedText_ok ha
  refine ⟨hby, hat, ?_⟩
  rintro i rfl
  obtain ⟨out, hout, hid⟩ := bind_ok.mp hid
  obtain ⟨rfl, hlength⟩ := boundedText_ok hout
  obtain ⟨_, _, hid⟩ := bind_ok.mp hid
  have hid := Except.ok.inj hid
  split at hid
  · cases hid
  · next hne =>
    obtain rfl := Option.some.inj hid
    rw [strip_idem]
    exact ⟨(strip_length_le _).trans hlength, hne⟩

/-- What a source key is before the lock. -/
structure SourceFits (env : KeyEnv) (source : String) : Prop where
  settled : normalizeKey env source = source
  nonempty : source ≠ ""
  length : source.length ≤ MAX_CONCEPT

theorem sourceFits {value field source : String} (hsettled : Settled env value)
    (h : boundedKey env value field MAX_CONCEPT true = .ok source) : SourceFits env source := by
  obtain ⟨rfl, hlength, hrequired⟩ := boundedKey_ok.mp h
  exact ⟨hsettled, hrequired rfl, hlength⟩

theorem validateConceptCommon_none {Change : Type} {row : PolicyRow Change} (hsource : SourceFits env row.source)
    (hfits : ReceiptFits row.by_ row.at_ row.actionId) (hrevision : 1 ≤ row.revision) (hshared : 1 ≤ row.governanceRevision) :
    validateConceptCommon env row = none := by
  unfold validateConceptCommon
  rw [hsource.settled, if_neg, if_neg, if_neg, if_neg]
  · simp only [Bool.or_eq_true, decide_eq_true_eq, not_or]
    omega
  · simp only [Option.any_eq_true, Bool.or_eq_true, decide_eq_true_eq, not_exists, not_and, not_or]
    intro id hid
    have := hfits.id id hid
    exact ⟨by omega, this.2⟩
  · have hby := hfits.by_
    have hat := hfits.at_
    simp only [Bool.or_eq_true, decide_eq_true_eq, not_or]
    omega
  · have hlength := hsource.length
    simp only [Bool.or_eq_true, decide_eq_true_eq, not_or]
    exact ⟨hsource.nonempty, by omega⟩

/-! ## Both ledgers -/

/-- The revisions that the two ledgers share. -/
def sharedRevisions (m : ConceptMemory) : List Nat := m.aliases.map (·.governanceRevision) ++ m.splits.map (·.governanceRevision)

structure PolicySound (env : KeyEnv) (m : ConceptMemory) (aliases : Aliases) : Prop where
  aliasRows : RowsSound (validateAliasRow env) m.aliases
  splitRows : RowsSound (validateSplitRow env) m.splits
  shared : (sharedRevisions m).Perm (List.range' 1 (m.aliases.length + m.splits.length))
  replayed : m.aliases.foldlM (replayAlias env) Table.empty = .ok aliases
  chains : AliasesSound env aliases

theorem PolicySound.load (h : PolicySound env m aliases) : loadConceptAliases env m.aliases = .ok aliases := by
  unfold loadConceptAliases readAliasRows
  rw [h.aliasRows.read]
  exact h.replayed

theorem PolicySound.loadSplits (h : PolicySound env m aliases) :
    loadConceptSplits env m.splits = .ok (m.splits.foldl (applySplit env) Table.empty) := by
  unfold loadConceptSplits readSplitRows
  rw [h.splitRows.read]
  rfl

theorem PolicySound.globalRevision (h : PolicySound env m aliases) :
    governanceGlobalRevision env m = .ok (m.aliases.length + m.splits.length) := by
  have hlength : (sharedRevisions m).length = m.aliases.length + m.splits.length := by
    rw [h.shared.length_eq, List.length_range']
  have hnodup : (sharedRevisions m).Nodup := h.shared.nodup_iff.mpr List.nodup_range'
  have hbound : ∀ r ∈ sharedRevisions m, r ≤ (sharedRevisions m).length := by
    intro r hr
    have := List.mem_range'_1.mp (h.shared.mem_iff.mp hr)
    omega
  have hall : ∀ r ∈ List.range' 1 (sharedRevisions m).length, r ∈ sharedRevisions m := by
    intro r hr
    rw [hlength] at hr
    exact h.shared.mem_iff.mpr hr
  unfold governanceGlobalRevision readAliasRows readSplitRows
  rw [h.aliasRows.read, h.splitRows.read]
  refine bind_ok.mpr ⟨_, rfl, bind_ok.mpr ⟨_, rfl, bind_ok.mpr ⟨⟨⟩, failIf_ok.mpr ?_, bind_ok.mpr ⟨⟨⟩, failIf_ok.mpr ?_, ?_⟩⟩⟩⟩
  · exact fun hnot => hnot ⟨hnodup, hbound⟩
  · exact fun hnot => hnot hall
  · exact congrArg Except.ok hlength

theorem PolicySound.of_empty (haliases : m.aliases = []) (hsplits : m.splits = []) : PolicySound env m Table.empty where
  aliasRows := haliases ▸ .nil
  splitRows := hsplits ▸ .nil
  shared := by simp [sharedRevisions, haliases, hsplits]
  replayed := by
    rw [haliases]
    rfl
  chains := .empty

theorem sharedRevisions_snoc {revisions others : List Nat} {n : Nat} (h : (revisions ++ others).Perm (List.range' 1 n)) :
    ((revisions ++ [n + 1]) ++ others).Perm (List.range' 1 (n + 1)) := by
  rw [List.append_assoc, List.range'_concat, Nat.one_mul, Nat.add_comm 1 n]
  refine (List.Perm.append_left revisions List.perm_append_comm).trans ?_
  rw [← List.append_assoc]
  exact h.append_right _

theorem PolicySound.snocAlias (h : PolicySound env m aliases) {row : AliasRow} {aliases' : Aliases}
    (hrows : RowsSound (validateAliasRow env) (m.aliases ++ [row]))
    (hshared : row.governanceRevision = m.aliases.length + m.splits.length + 1)
    (hreplay : replayAlias env aliases row = .ok aliases') (hchains : AliasesSound env aliases') :
    PolicySound env { m with aliases := m.aliases ++ [row] } aliases' where
  aliasRows := hrows
  splitRows := h.splitRows
  shared := by
    have hperm := sharedRevisions_snoc h.shared
    simp only [sharedRevisions, List.map_append, List.map_cons, List.map_nil, List.length_append, List.length_singleton, hshared]
    rwa [Nat.add_right_comm _ 1]
  replayed := by
    rw [List.foldlM_append, h.replayed]
    have hlast : replayAlias env aliases row >>= pure = .ok aliases' := bind_ok.mpr ⟨aliases', hreplay, rfl⟩
    exact hlast
  chains := hchains

theorem PolicySound.snocSplit (h : PolicySound env m aliases) {row : SplitRow}
    (hrows : RowsSound (validateSplitRow env) (m.splits ++ [row]))
    (hshared : row.governanceRevision = m.aliases.length + m.splits.length + 1) :
    PolicySound env { m with splits := m.splits ++ [row] } aliases where
  aliasRows := h.aliasRows
  splitRows := hrows
  shared := by
    simp only [sharedRevisions, List.map_append, List.map_cons, List.map_nil, List.length_append, List.length_singleton, hshared]
    rw [← List.append_assoc, ← Nat.add_assoc, List.range'_concat, Nat.one_mul, Nat.add_comm 1]
    exact h.shared.append_right _
  replayed := h.replayed
  chains := h.chains

/-! ## Aliases that are written -/

theorem replayAlias_ok {row : AliasRow} {aliases' : Aliases} (hsource : normalizeKey env row.source = row.source)
    (happly : applyAlias env aliases row = aliases')
    (hcheck : ∀ target, aliases'.get row.source = some target → target ≠ CONCEPT_TOMBSTONE →
      wouldCycle row.source target aliases' = false) :
    replayAlias env aliases row = .ok aliases' := by
  unfold replayAlias
  dsimp only
  rw [happly, hsource]
  split
  · next target hget =>
    by_cases htomb : target = CONCEPT_TOMBSTONE
    · simp [htomb]
    · rw [hcheck target hget htomb]
      simp
  · rfl

theorem validateAlias_ok (h : PolicySound env m aliases) {opts : WriteOptions}
    (hvalidate : validateAlias env valid m opts src dst = .ok ()) (hdst : dst ≠ "") : wouldCycle src dst aliases = false := by
  unfold validateAlias at hvalidate
  obtain ⟨read, hread, hvalidate⟩ := bind_ok.mp hvalidate
  have hsame : read = aliases := Except.ok.inj ((healthy_ok.mp hread).symm.trans h.load)
  obtain ⟨_, _, hvalidate⟩ := bind_ok.mp hvalidate
  obtain ⟨_, _, hvalidate⟩ := bind_ok.mp hvalidate
  have hcycle := failIf_ok.mp hvalidate
  rw [hsame] at hcycle
  simpa [hdst] using hcycle

structure AliasAppended (env : KeyEnv) (m : ConceptMemory) (row : AliasRow) : Prop where
  source : SourceFits env row.source
  fits : ReceiptFits row.by_ row.at_ row.actionId
  fresh : ∀ id, row.actionId = some id → ∀ r ∈ m.aliases, r.actionId ≠ some id
  revision : row.revision = m.aliases.length + 1
  shared : row.governanceRevision = m.aliases.length + m.splits.length + 1

theorem AliasAppended.common {row : AliasRow} (h : AliasAppended env m row) : validateConceptCommon env row = none :=
  validateConceptCommon_none h.source h.fits (by rw [h.revision]; omega) (by rw [h.shared]; omega)

theorem PolicySound.appendMark (h : PolicySound env m aliases) {row : AliasRow} (happended : AliasAppended env m row)
    (hchange : row.change = .purge ∨ row.change = .clear) :
    PolicySound env { m with aliases := m.aliases ++ [row] } (applyAlias env aliases row) := by
  have hvalid : validateAliasRow env row = none := by
    unfold validateAliasRow
    rw [happended.common]
    rcases hchange with hchange | hchange <;> rw [hchange]
  have hrows := h.aliasRows.snoc hvalid happended.revision happended.fresh
  refine h.snocAlias hrows happended.shared (replayAlias_ok happended.source.settled rfl ?_) ?_
  · intro target hget htomb
    unfold applyAlias at hget
    rw [happended.source.settled] at hget
    rcases hchange with hchange | hchange <;> rw [hchange] at hget
    · rw [Dict.get_set, if_pos rfl] at hget
      exact absurd (Option.some.inj hget).symm htomb
    · rw [Dict.get_erase, if_pos rfl] at hget
      cases hget
  · unfold applyAlias
    rcases hchange with hchange | hchange <;> rw [hchange]
    · exact h.chains.purge
    · exact h.chains.erase

theorem PolicySound.appendMerge (h : PolicySound env m aliases) {row : AliasRow} (happended : AliasAppended env m row)
    (hchange : row.change = .set dst) (hsettled : normalizeKey env dst = dst) (hne : dst ≠ "") (hlength : dst.length ≤ MAX_CONCEPT)
    (hself : row.source ≠ dst) (hcycle : wouldCycle row.source dst aliases = false) :
    PolicySound env { m with aliases := m.aliases ++ [row] } (aliases.set row.source dst) := by
  have htomb : dst ≠ CONCEPT_TOMBSTONE := hsettled ▸ normalizeKey_ne_tombstone env dst
  have hvalid : validateAliasRow env row = none := by
    unfold validateAliasRow
    rw [happended.common, hchange]
    dsimp only
    rw [hsettled, happended.source.settled, if_neg (by omega), if_neg]
    simp only [Bool.or_eq_true, decide_eq_true_eq, not_or]
    exact ⟨hne, Ne.symm hself⟩
  have happly : applyAlias env aliases row = aliases.set row.source dst := by
    unfold applyAlias
    rw [hchange, happended.source.settled]
    dsimp only
    rw [hsettled]
    simp [hne, hlength]
  have hrows := h.aliasRows.snoc hvalid happended.revision happended.fresh
  refine h.snocAlias hrows happended.shared (replayAlias_ok happended.source.settled happly ?_)
    (h.chains.set hcycle hsettled hne htomb)
  intro target hget _
  rw [Dict.get_set, if_pos rfl] at hget
  obtain rfl := Option.some.inj hget
  exact wouldCycle_set h.chains hcycle htomb

/-! ## Splits that are written -/

theorem mapM_ok {ε α β : Type} {f : α → Except ε β} {xs : List α} {ys : List β} (h : xs.mapM f = .ok ys) :
    List.Forall₂ (fun x y => f x = .ok y) xs ys := by
  induction xs generalizing ys with
  | nil =>
    obtain rfl := Except.ok.inj h
    exact .nil
  | cons x xs ih =>
    rw [List.mapM_cons] at h
    obtain ⟨y, hy, h⟩ := bind_ok.mp h
    obtain ⟨rest, hrest, h⟩ := bind_ok.mp h
    obtain rfl := Except.ok.inj h
    exact .cons hy (ih hrest)

theorem exists_of_forall₂ {α β : Type} {r : α → β → Prop} {xs : List α} {ys : List β} (h : List.Forall₂ r xs ys) {y : β}
    (hy : y ∈ ys) : ∃ x ∈ xs, r x y := by
  induction h with
  | nil => cases hy
  | cons hxy _ ih =>
    rcases List.mem_cons.mp hy with rfl | hy
    · exact ⟨_, List.mem_cons_self .., hxy⟩
    · obtain ⟨x, hx, hxy⟩ := ih hy
      exact ⟨x, List.mem_cons_of_mem _ hx, hxy⟩

structure RuleFits (env : KeyEnv) (source : String) (rule : SplitRule) : Prop where
  settled : normalizeKey env rule.target = rule.target
  nonempty : rule.target ≠ ""
  length : rule.target.length ≤ MAX_CONCEPT
  other : rule.target ≠ source
  terms : rule.whenAny ≠ []
  few : rule.whenAny.length ≤ MAX_SPLIT_TERMS
  term : ∀ t ∈ rule.whenAny, normalizeKey env t = t ∧ t ≠ "" ∧ t.length ≤ MAX_SPLIT_TERM

/-- The texts of a rule are settled. -/
def SplitRule.Settled (env : KeyEnv) (rule : SplitRule) : Prop :=
  Engine.Settled env rule.target ∧ ∀ t ∈ rule.whenAny, Engine.Settled env t

theorem prepareRule_ok {rule out : SplitRule} (hsettled : rule.Settled env) (h : prepareRule env src rule = .ok (some out)) :
    RuleFits env src out := by
  unfold prepareRule at h
  obtain ⟨target, htarget, h⟩ := bind_ok.mp h
  obtain ⟨_, hfew, h⟩ := bind_ok.mp h
  obtain ⟨terms, hterms, h⟩ := bind_ok.mp h
  obtain ⟨rfl, hlength, -⟩ := boundedKey_ok.mp htarget
  dsimp only at h
  split at h
  · cases Except.ok.inj h
  · next hlive =>
    obtain ⟨_, hother, h⟩ := bind_ok.mp h
    obtain rfl := Option.some.inj (Except.ok.inj h)
    obtain ⟨hne, hsome⟩ := not_or.mp hlive
    have hmem : ∀ t ∈ (terms.filter (· ≠ "")).dedup.insertionSort (· ≤ ·), t ∈ terms.filter (· ≠ "") := by
      intro t ht
      exact List.mem_dedup.mp ((List.mem_insertionSort _).mp ht)
    refine ⟨hsettled.1, hne, hlength, failIf_ok.mp hother, ?_, ?_, ?_⟩
    · intro hnil
      replace hnil : (terms.filter (· ≠ "")).dedup.insertionSort (· ≤ ·) = [] := hnil
      obtain ⟨t, ht⟩ := List.exists_mem_of_ne_nil _ hsome
      have : t ∈ (terms.filter (· ≠ "")).dedup.insertionSort (· ≤ ·) := (List.mem_insertionSort _).mpr (List.mem_dedup.mpr ht)
      rw [hnil] at this
      cases this
    · have hsub := ((List.dedup_sublist (terms.filter (· ≠ ""))).trans List.filter_sublist).length_le
      have hcount := (mapM_ok hterms).length_eq
      have := failIf_ok.mp hfew
      dsimp only
      rw [List.length_insertionSort]
      omega
    · intro t ht
      obtain ⟨hin, hblank⟩ := List.mem_filter.mp (hmem t ht)
      obtain ⟨x, hx, hkey⟩ := exists_of_forall₂ (mapM_ok hterms) hin
      obtain ⟨rfl, hbound, -⟩ := boundedKey_ok.mp hkey
      exact ⟨hsettled.2 x hx, by simpa using hblank, hbound⟩

theorem RuleFits.normalize {rule : SplitRule} (h : RuleFits env src rule) : normalizeRule env rule = rule := by
  have hterms : (rule.whenAny.map (normalizeKey env)).filter (· ≠ "") = rule.whenAny := by
    have hmap : rule.whenAny.map (normalizeKey env) = rule.whenAny := by
      rw [List.map_congr_left fun t ht => (h.term t ht).1, List.map_id']
    rw [hmap, List.filter_eq_self]
    intro t ht
    exact decide_eq_true (h.term t ht).2.1
  unfold normalizeRule
  rw [h.settled, hterms]

theorem RuleFits.ok {rule : SplitRule} (h : RuleFits env src rule) : splitRuleOk env src rule = true := by
  have hterms : rule.whenAny.isEmpty = false := by
    cases hnil : rule.whenAny with
    | nil => exact absurd hnil h.terms
    | cons => rfl
  have hall : rule.whenAny.all (fun term => normalizeKey env term ≠ "" && (normalizeKey env term).length ≤ MAX_SPLIT_TERM) = true := by
    rw [List.all_eq_true]
    intro t ht
    obtain ⟨hsettled, hne, hlength⟩ := h.term t ht
    simp [hsettled, hne, hlength]
  unfold splitRuleOk
  rw [h.settled, hall, hterms]
  simp [h.nonempty, h.length, h.other, h.few]

structure SplitFits (env : KeyEnv) (source : String) (rules : List SplitRule) (default : String) : Prop where
  rule : ∀ rule ∈ rules, RuleFits env source rule
  few : rules.length ≤ MAX_SPLIT_RULES
  settled : normalizeKey env default = default
  length : default.length ≤ MAX_CONCEPT
  some : rules = [] → default ≠ "" ∧ default ≠ source

theorem prepareConceptSplit_ok {value dflt default : String} {rules kept : List SplitRule} (hsource : Settled env value)
    (hrules : ∀ rule ∈ rules, rule.Settled env) (hdefault : Settled env default)
    (h : prepareConceptSplit env value rules default = .ok (src, kept, dflt)) :
    SourceFits env src ∧ SplitFits env src kept dflt ∧ src = normalizeKey env value := by
  unfold prepareConceptSplit at h
  obtain ⟨source, hkey, h⟩ := bind_ok.mp h
  obtain ⟨_, hfew, h⟩ := bind_ok.mp h
  obtain ⟨prepared, hprepared, h⟩ := bind_ok.mp h
  obtain ⟨fallback, hfallback, h⟩ := bind_ok.mp h
  obtain ⟨_, hsome, h⟩ := bind_ok.mp h
  obtain ⟨rfl, hrest⟩ := Prod.mk.inj (Except.ok.inj h)
  obtain ⟨rfl, rfl⟩ := Prod.mk.inj hrest
  obtain ⟨rfl, hlength, -⟩ := boundedKey_ok.mp hfallback
  refine ⟨sourceFits hsource hkey, ⟨?_, ?_, hdefault, hlength, ?_⟩, (boundedKey_ok.mp hkey).1⟩
  · intro rule hrule
    obtain ⟨o, ho, rfl⟩ := List.mem_filterMap.mp hrule
    obtain ⟨x, hx, hprep⟩ := exists_of_forall₂ (mapM_ok hprepared) ho
    exact prepareRule_ok (hrules x hx) hprep
  · have hcount := (mapM_ok hprepared).length_eq
    have hsub := List.length_filterMap_le id prepared
    have := failIf_ok.mp hfew
    omega
  · intro hnil
    exact not_or.mp fun hbad => failIf_ok.mp hsome ⟨hnil, hbad⟩

theorem validateSplitRow_none {row : SplitRow} {rules : List SplitRule} {default : String} (hcommon : validateConceptCommon env row = none)
    (hsource : normalizeKey env row.source = row.source) (hchange : row.change = .set rules default)
    (hfits : SplitFits env row.source rules default) (hnodup : (splitTargets rules default).Nodup) :
    validateSplitRow env row = none := by
  have hnormal : rules.map (normalizeRule env) = rules := by
    rw [List.map_congr_left fun r hr => (hfits.rule r hr).normalize, List.map_id']
  have hall : rules.all (splitRuleOk env row.source) = true := List.all_eq_true.mpr fun r hr => (hfits.rule r hr).ok
  unfold validateSplitRow
  rw [hcommon, hchange]
  dsimp only
  rw [hsource, hfits.settled, hnormal, if_neg, if_neg, if_neg (not_not.mpr hnodup)]
  · have hlength := hfits.length
    have hsome := hfits.some
    simp only [Bool.or_eq_true, Bool.and_eq_true, decide_eq_true_eq, List.isEmpty_iff, not_or, not_and]
    exact ⟨by omega, hsome⟩
  · have hfew := hfits.few
    simp only [hall, Bool.not_true, Bool.or_false, decide_eq_true_eq]
    omega

structure SplitAppended (env : KeyEnv) (m : ConceptMemory) (row : SplitRow) : Prop where
  source : SourceFits env row.source
  fits : ReceiptFits row.by_ row.at_ row.actionId
  fresh : ∀ id, row.actionId = some id → ∀ r ∈ m.splits, r.actionId ≠ some id
  revision : row.revision = m.splits.length + 1
  shared : row.governanceRevision = m.aliases.length + m.splits.length + 1

theorem SplitAppended.common {row : SplitRow} (h : SplitAppended env m row) : validateConceptCommon env row = none :=
  validateConceptCommon_none h.source h.fits (by rw [h.revision]; omega) (by rw [h.shared]; omega)

theorem PolicySound.appendSplit (h : PolicySound env m aliases) {row : SplitRow} (happended : SplitAppended env m row)
    (hvalid : validateSplitRow env row = none) : PolicySound env { m with splits := m.splits ++ [row] } aliases :=
  h.snocSplit (h.splitRows.snoc hvalid happended.revision happended.fresh) happended.shared

theorem validateTargets_nodup {opts : WriteOptions} {rules : List SplitRule} {dflt : String}
    (h : validateTargets env valid m opts src rules dflt = .ok ()) : (splitTargets rules dflt).Nodup := by
  unfold validateTargets at h
  obtain ⟨_, _, h⟩ := bind_ok.mp h
  obtain ⟨_, _, h⟩ := bind_ok.mp h
  obtain ⟨_, _, h⟩ := bind_ok.mp h
  obtain ⟨_, _, h⟩ := bind_ok.mp h
  obtain ⟨_, _, h⟩ := bind_ok.mp h
  obtain ⟨_, hnodup, h⟩ := bind_ok.mp h
  exact not_not.mp (failIf_ok.mp hnodup)

/-! ## Calls -/

def ConceptCall.opts : ConceptCall → WriteOptions
  | .recordAlias opts .. | .clearAlias opts _ | .recordSplit opts .. | .clearSplit opts _ => opts

/-- Every text that a call names a concept or a term by is settled. -/
def ConceptCall.Settled (env : KeyEnv) : ConceptCall → Prop
  | .recordAlias _ src dst => Engine.Settled env src ∧ Engine.Settled env dst
  | .clearAlias _ src | .clearSplit _ src => Engine.Settled env src
  | .recordSplit _ src rules dflt => Engine.Settled env src ∧ (∀ rule ∈ rules, rule.Settled env) ∧ Engine.Settled env dflt

/-- What an accepted call makes of the memory. -/
inductive CallReceipt (m : ConceptMemory) (actionId : Option String) : PolicyReceipt → ConceptMemory → Prop
  | ofAlias {row : AliasRow} {rows' : List AliasRow} (change : AliasChange) (source : String)
    (h : Receipted m.aliases (m.aliases.length + m.splits.length) change source actionId row rows') :
    CallReceipt m actionId (.ofAlias row) { m with aliases := rows' }
  | ofSplit {row : SplitRow} {rows' : List SplitRow} (change : SplitChange) (source : String)
    (h : Receipted m.splits (m.aliases.length + m.splits.length) change source actionId row rows') :
    CallReceipt m actionId (.ofSplit row) { m with splits := rows' }

section Accepted
variable {opts : WriteOptions} {fromConcept toConcept : String} {rules : List SplitRule} {default : String}
  {aliasRow : AliasRow} {splitRow : SplitRow}

theorem recordConceptAlias_ok (h : PolicySound env m aliases)
    (hok : recordConceptAlias env valid m opts fromConcept toConcept = .ok (aliasRow, m')) :
    ∃ src dst by_ at_ actionId rows', prepareConceptAlias env fromConcept toConcept = .ok (src, dst) ∧
      checkOptions opts = .ok (by_, at_, actionId) ∧ m' = { m with aliases := rows' } ∧
      Receipted m.aliases (m.aliases.length + m.splits.length) (if dst = "" then .purge else .set dst) src actionId
        aliasRow rows' ∧
      (rows' = m.aliases ∨ validateAlias env valid m opts src dst = .ok () ∧ rows' = m.aliases ++ [aliasRow] ∧
        aliasRow.by_ = by_ ∧ aliasRow.at_ = at_ ∧
        ∀ n, opts.expectedGovernanceRevision = some n → n = (m.aliases.length + m.splits.length : Nat)) := by
  obtain ⟨⟨src, dst⟩, hprepare, hok⟩ := bind_ok.mp hok
  obtain ⟨⟨by_, at_, actionId⟩, hoptions, hok⟩ := bind_ok.mp hok
  obtain ⟨⟨row, rows'⟩, happend, hok⟩ := bind_ok.mp hok
  obtain ⟨rfl, rfl⟩ := Prod.mk.inj (Except.ok.inj hok)
  rw [h.globalRevision] at happend
  obtain ⟨hreceipt, hcases⟩ := appendGovernance_ok h.aliasRows happend
  exact ⟨src, dst, by_, at_, actionId, rows', hprepare, hoptions, rfl, hreceipt, hcases⟩

theorem clearConceptAlias_ok (h : PolicySound env m aliases) (hok : clearConceptAlias env m opts fromConcept = .ok (aliasRow, m')) :
    ∃ src by_ at_ actionId rows', prepareConceptSource env fromConcept = .ok src ∧
      checkOptions opts = .ok (by_, at_, actionId) ∧ m' = { m with aliases := rows' } ∧
      Receipted m.aliases (m.aliases.length + m.splits.length) .clear src actionId aliasRow rows' ∧
      (rows' = m.aliases ∨ rows' = m.aliases ++ [aliasRow] ∧ aliasRow.by_ = by_ ∧ aliasRow.at_ = at_) := by
  obtain ⟨src, hprepare, hok⟩ := bind_ok.mp hok
  obtain ⟨⟨by_, at_, actionId⟩, hoptions, hok⟩ := bind_ok.mp hok
  obtain ⟨⟨row, rows'⟩, happend, hok⟩ := bind_ok.mp hok
  obtain ⟨rfl, rfl⟩ := Prod.mk.inj (Except.ok.inj hok)
  rw [h.globalRevision] at happend
  obtain ⟨hreceipt, hcases⟩ := appendGovernance_ok h.aliasRows happend
  exact ⟨src, by_, at_, actionId, rows', hprepare, hoptions, rfl, hreceipt,
    hcases.imp_right fun ⟨_, hrows, hby, hat, _⟩ => ⟨hrows, hby, hat⟩⟩

theorem recordConceptSplit_ok (h : PolicySound env m aliases)
    (hok : recordConceptSplit env valid m opts fromConcept rules default = .ok (splitRow, m')) :
    ∃ src kept dflt by_ at_ actionId rows', prepareConceptSplit env fromConcept rules default = .ok (src, kept, dflt) ∧
      checkOptions opts = .ok (by_, at_, actionId) ∧ m' = { m with splits := rows' } ∧
      Receipted m.splits (m.aliases.length + m.splits.length) (.set kept dflt) src actionId splitRow rows' ∧
      (rows' = m.splits ∨ validateTargets env valid m opts src kept dflt = .ok () ∧ rows' = m.splits ++ [splitRow] ∧
        splitRow.by_ = by_ ∧ splitRow.at_ = at_) := by
  obtain ⟨⟨src, kept, dflt⟩, hprepare, hok⟩ := bind_ok.mp hok
  obtain ⟨⟨by_, at_, actionId⟩, hoptions, hok⟩ := bind_ok.mp hok
  obtain ⟨⟨row, rows'⟩, happend, hok⟩ := bind_ok.mp hok
  obtain ⟨rfl, rfl⟩ := Prod.mk.inj (Except.ok.inj hok)
  rw [h.globalRevision] at happend
  obtain ⟨hreceipt, hcases⟩ := appendGovernance_ok h.splitRows happend
  exact ⟨src, kept, dflt, by_, at_, actionId, rows', hprepare, hoptions, rfl, hreceipt,
    hcases.imp_right fun ⟨hvalidate, hrows, hby, hat, _⟩ => ⟨hvalidate, hrows, hby, hat⟩⟩

theorem clearConceptSplit_ok (h : PolicySound env m aliases) (hok : clearConceptSplit env m opts fromConcept = .ok (splitRow, m')) :
    ∃ src by_ at_ actionId rows', prepareConceptSource env fromConcept = .ok src ∧
      checkOptions opts = .ok (by_, at_, actionId) ∧ m' = { m with splits := rows' } ∧
      Receipted m.splits (m.aliases.length + m.splits.length) .clear src actionId splitRow rows' ∧
      (rows' = m.splits ∨ rows' = m.splits ++ [splitRow] ∧ splitRow.by_ = by_ ∧ splitRow.at_ = at_) := by
  obtain ⟨src, hprepare, hok⟩ := bind_ok.mp hok
  obtain ⟨⟨by_, at_, actionId⟩, hoptions, hok⟩ := bind_ok.mp hok
  obtain ⟨⟨row, rows'⟩, happend, hok⟩ := bind_ok.mp hok
  obtain ⟨rfl, rfl⟩ := Prod.mk.inj (Except.ok.inj hok)
  rw [h.globalRevision] at happend
  obtain ⟨hreceipt, hcases⟩ := appendGovernance_ok h.splitRows happend
  exact ⟨src, by_, at_, actionId, rows', hprepare, hoptions, rfl, hreceipt,
    hcases.imp_right fun ⟨_, hrows, hby, hat, _⟩ => ⟨hrows, hby, hat⟩⟩

end Accepted

section Steps
variable {call : ConceptCall} {receipt : PolicyReceipt} {actionId : Option String} {by_ at_ : String}

theorem aliasAppended {row : AliasRow} {rows' : List AliasRow} {change : AliasChange} {opts : WriteOptions} (hsource : SourceFits env src)
    (hoptions : checkOptions opts = .ok (by_, at_, actionId))
    (hreceipt : Receipted m.aliases (m.aliases.length + m.splits.length) change src actionId row rows')
    (hrows : rows' = m.aliases ++ [row]) (hby : row.by_ = by_) (hat : row.at_ = at_) :
    AliasAppended env m row ∧ row.change = change ∧ row.source = src := by
  obtain ⟨hfresh, hchange, hsrc, hid, hrevision, hshared⟩ := hreceipt.of_snoc hrows
  refine ⟨⟨hsrc ▸ hsource, ?_, hfresh, hrevision, hshared⟩, hchange, hsrc⟩
  rw [hby, hat, hid]
  exact checkOptions_ok hoptions

theorem splitAppended {row : SplitRow} {rows' : List SplitRow} {change : SplitChange} {opts : WriteOptions} (hsource : SourceFits env src)
    (hoptions : checkOptions opts = .ok (by_, at_, actionId))
    (hreceipt : Receipted m.splits (m.aliases.length + m.splits.length) change src actionId row rows')
    (hrows : rows' = m.splits ++ [row]) (hby : row.by_ = by_) (hat : row.at_ = at_) :
    SplitAppended env m row ∧ row.change = change ∧ row.source = src := by
  obtain ⟨hfresh, hchange, hsrc, hid, hrevision, hshared⟩ := hreceipt.of_snoc hrows
  refine ⟨⟨hsrc ▸ hsource, ?_, hfresh, hrevision, hshared⟩, hchange, hsrc⟩
  rw [hby, hat, hid]
  exact checkOptions_ok hoptions

theorem prepareConceptAlias_ok {a b : String} (ha : Settled env a) (hb : Settled env b)
    (h : prepareConceptAlias env a b = .ok (src, dst)) :
    SourceFits env src ∧ normalizeKey env dst = dst ∧ dst.length ≤ MAX_CONCEPT ∧ (dst ≠ "" → src ≠ dst) ∧
      src = normalizeKey env a ∧ dst = normalizeKey env b := by
  obtain ⟨s, hs, h⟩ := bind_ok.mp h
  obtain ⟨d, hd, h⟩ := bind_ok.mp h
  obtain ⟨_, hself, h⟩ := bind_ok.mp h
  obtain ⟨rfl, rfl⟩ := Prod.mk.inj (Except.ok.inj h)
  obtain ⟨hkey, hlength, -⟩ := boundedKey_ok.mp hd
  exact ⟨sourceFits ha hs, hkey ▸ hb, hlength, fun hne heq => failIf_ok.mp hself ⟨hne, heq⟩, (boundedKey_ok.mp hs).1, hkey⟩

inductive PolicyChange (env : KeyEnv) (valid : String → Bool) (m : ConceptMemory) (aliases : Aliases) :
    ConceptCall → ConceptMemory → Aliases → Prop
  | merge {opts : WriteOptions} {a b : String} {row : AliasRow} (hne : normalizeKey env b ≠ "")
    (hlength : (normalizeKey env b).length ≤ MAX_CONCEPT)
    (hrow : row.change = .set (normalizeKey env b) ∧ row.source = normalizeKey env a)
    (hvalidate : validateAlias env valid m opts (normalizeKey env a) (normalizeKey env b) = .ok ())
    (hshared : ∀ n, opts.expectedGovernanceRevision = some n → n = (m.aliases.length + m.splits.length : Nat)) :
    PolicyChange env valid m aliases (.recordAlias opts a b) { m with aliases := m.aliases ++ [row] }
      (aliases.set (normalizeKey env a) (normalizeKey env b))
  | purge {opts : WriteOptions} {a b : String} {row : AliasRow} (hblank : normalizeKey env b = "")
    (hrow : row.change = .purge ∧ row.source = normalizeKey env a) :
    PolicyChange env valid m aliases (.recordAlias opts a b) { m with aliases := m.aliases ++ [row] }
      (aliases.set (normalizeKey env a) CONCEPT_TOMBSTONE)
  | clearAlias {opts : WriteOptions} {a : String} {row : AliasRow}
    (hrow : row.change = .clear ∧ row.source = normalizeKey env a) :
    PolicyChange env valid m aliases (.clearAlias opts a) { m with aliases := m.aliases ++ [row] }
      (Table.erase aliases (normalizeKey env a))
  | split {opts : WriteOptions} {a default dflt : String} {rules kept : List SplitRule} {row : SplitRow}
    (hrow : row.change = .set kept dflt ∧ row.source = normalizeKey env a) (hsource : SourceFits env (normalizeKey env a))
    (hfits : SplitFits env (normalizeKey env a) kept dflt)
    (hvalidate : validateTargets env valid m opts (normalizeKey env a) kept dflt = .ok ()) :
    PolicyChange env valid m aliases (.recordSplit opts a rules default) { m with splits := m.splits ++ [row] } aliases
  | clearSplit {opts : WriteOptions} {a : String} {row : SplitRow} (hsource : SourceFits env (normalizeKey env a))
    (hrow : row.change = .clear ∧ row.source = normalizeKey env a) :
    PolicyChange env valid m aliases (.clearSplit opts a) { m with splits := m.splits ++ [row] } aliases

theorem PolicySound.perform (h : PolicySound env m aliases) (hsettled : call.Settled env)
    (hok : call.perform env valid m = .ok (receipt, m')) :
    m' = m ∨ ∃ aliases', PolicySound env m' aliases' ∧ PolicyChange env valid m aliases call m' aliases' := by
  cases call with
  | recordAlias opts a b =>
    obtain ⟨⟨row, _⟩, hcall, hpair⟩ := map_ok.mp hok
    obtain ⟨-, rfl⟩ := Prod.mk.inj hpair
    obtain ⟨src, dst, by_, at_, actionId, rows', hprepare, hoptions, rfl, hreceipt, hrows⟩ := recordConceptAlias_ok h hcall
    obtain ⟨hsource, hdst, hlength, hself, rfl, rfl⟩ := prepareConceptAlias_ok hsettled.1 hsettled.2 hprepare
    rcases hrows with rfl | ⟨hvalidate, hrows, hby, hat, hshared⟩
    · exact .inl rfl
    · obtain ⟨happended, hchange, hsrc⟩ := aliasAppended hsource hoptions hreceipt hrows hby hat
      subst hrows
      refine .inr ?_
      split at hchange
      · next hblank =>
        have hsound := h.appendMark happended (.inl hchange)
        unfold applyAlias at hsound
        rw [hchange, hsrc, hsource.settled] at hsound
        exact ⟨_, hsound, .purge hblank ⟨hchange, hsrc⟩⟩
      · next hne =>
        have hcycle := validateAlias_ok h hvalidate hne
        have hsound := h.appendMerge happended hchange hdst hne hlength (hsrc ▸ hself hne) (hsrc ▸ hcycle)
        rw [hsrc] at hsound
        exact ⟨_, hsound, .merge hne hlength ⟨hchange, hsrc⟩ hvalidate hshared⟩
  | clearAlias opts a =>
    obtain ⟨⟨row, _⟩, hcall, hpair⟩ := map_ok.mp hok
    obtain ⟨-, rfl⟩ := Prod.mk.inj hpair
    obtain ⟨src, by_, at_, actionId, rows', hprepare, hoptions, rfl, hreceipt, hrows⟩ := clearConceptAlias_ok h hcall
    obtain ⟨rfl, -⟩ := boundedKey_ok.mp hprepare
    rcases hrows with rfl | ⟨hrows, hby, hat⟩
    · exact .inl rfl
    · obtain ⟨happended, hchange, hsrc⟩ := aliasAppended (sourceFits hsettled hprepare) hoptions hreceipt hrows hby hat
      subst hrows
      have hsound := h.appendMark happended (.inr hchange)
      unfold applyAlias at hsound
      rw [hchange, hsrc, (sourceFits hsettled hprepare).settled] at hsound
      exact .inr ⟨_, hsound, .clearAlias ⟨hchange, hsrc⟩⟩
  | recordSplit opts a rules dflt =>
    obtain ⟨⟨row, _⟩, hcall, hpair⟩ := map_ok.mp hok
    obtain ⟨-, rfl⟩ := Prod.mk.inj hpair
    obtain ⟨src, kept, dflt, by_, at_, actionId, rows', hprepare, hoptions, rfl, hreceipt, hrows⟩ := recordConceptSplit_ok h hcall
    obtain ⟨hsource, hfits, rfl⟩ := prepareConceptSplit_ok hsettled.1 hsettled.2.1 hsettled.2.2 hprepare
    rcases hrows with rfl | ⟨hvalidate, hrows, hby, hat⟩
    · exact .inl rfl
    · obtain ⟨happended, hchange, hsrc⟩ := splitAppended hsource hoptions hreceipt hrows hby hat
      subst hrows
      have hnodup := validateTargets_nodup hvalidate
      refine .inr ⟨aliases, h.appendSplit happended ?_, .split ⟨hchange, hsrc⟩ hsource hfits hvalidate⟩
      exact validateSplitRow_none happended.common happended.source.settled hchange (hsrc ▸ hfits) hnodup
  | clearSplit opts a =>
    obtain ⟨⟨row, _⟩, hcall, hpair⟩ := map_ok.mp hok
    obtain ⟨-, rfl⟩ := Prod.mk.inj hpair
    obtain ⟨src, by_, at_, actionId, rows', hprepare, hoptions, rfl, hreceipt, hrows⟩ := clearConceptSplit_ok h hcall
    have hsource := sourceFits hsettled hprepare
    obtain ⟨rfl, -⟩ := boundedKey_ok.mp hprepare
    rcases hrows with rfl | ⟨hrows, hby, hat⟩
    · exact .inl rfl
    · obtain ⟨happended, hchange, hsrc⟩ := splitAppended hsource hoptions hreceipt hrows hby hat
      subst hrows
      refine .inr ⟨aliases, h.appendSplit happended ?_, .clearSplit hsource ⟨hchange, hsrc⟩⟩
      unfold validateSplitRow
      rw [happended.common, hchange]

theorem PolicySound.performed (h : PolicySound env m aliases) (hsettled : call.Settled env)
    (hok : call.perform env valid m = .ok (receipt, m')) : ∃ aliases', PolicySound env m' aliases' := by
  rcases h.perform hsettled hok with rfl | ⟨aliases', hsound, -⟩
  · exact ⟨aliases, h⟩
  · exact ⟨aliases', hsound⟩

theorem PolicySound.callReceipt (h : PolicySound env m aliases) (hok : call.perform env valid m = .ok (receipt, m')) :
    ∃ by_ at_ actionId, checkOptions call.opts = .ok (by_, at_, actionId) ∧ CallReceipt m actionId receipt m' := by
  cases call with
  | recordAlias opts a b =>
    obtain ⟨⟨row, _⟩, hcall, hpair⟩ := map_ok.mp hok
    obtain ⟨rfl, rfl⟩ := Prod.mk.inj hpair
    obtain ⟨src, dst, by_, at_, actionId, rows', -, hoptions, rfl, hreceipt, -⟩ := recordConceptAlias_ok h hcall
    exact ⟨by_, at_, actionId, hoptions, .ofAlias _ _ hreceipt⟩
  | clearAlias opts a =>
    obtain ⟨⟨row, _⟩, hcall, hpair⟩ := map_ok.mp hok
    obtain ⟨rfl, rfl⟩ := Prod.mk.inj hpair
    obtain ⟨src, by_, at_, actionId, rows', -, hoptions, rfl, hreceipt, -⟩ := clearConceptAlias_ok h hcall
    exact ⟨by_, at_, actionId, hoptions, .ofAlias _ _ hreceipt⟩
  | recordSplit opts a rules dflt =>
    obtain ⟨⟨row, _⟩, hcall, hpair⟩ := map_ok.mp hok
    obtain ⟨rfl, rfl⟩ := Prod.mk.inj hpair
    obtain ⟨src, kept, dflt, by_, at_, actionId, rows', -, hoptions, rfl, hreceipt, -⟩ := recordConceptSplit_ok h hcall
    exact ⟨by_, at_, actionId, hoptions, .ofSplit _ _ hreceipt⟩
  | clearSplit opts a =>
    obtain ⟨⟨row, _⟩, hcall, hpair⟩ := map_ok.mp hok
    obtain ⟨rfl, rfl⟩ := Prod.mk.inj hpair
    obtain ⟨src, by_, at_, actionId, rows', -, hoptions, rfl, hreceipt, -⟩ := clearConceptSplit_ok h hcall
    exact ⟨by_, at_, actionId, hoptions, .ofSplit _ _ hreceipt⟩

structure Extends (m m' : ConceptMemory) : Prop where
  aliases : m.aliases <+: m'.aliases
  splits : m.splits <+: m'.splits

theorem Extends.refl : Extends m m := ⟨List.prefix_refl _, List.prefix_refl _⟩

theorem Extends.trans {m₁ m₂ m₃ : ConceptMemory} (h : Extends m₁ m₂) (h' : Extends m₂ m₃) : Extends m₁ m₃ :=
  ⟨h.aliases.trans h'.aliases, h.splits.trans h'.splits⟩

theorem Receipted.grown {Change : Type} {rows rows' : List (PolicyRow Change)} {total : Nat} {change : Change}
    {row : PolicyRow Change} (h : Receipted rows total change src actionId row rows') : rows <+: rows' := by
  cases h with
  | first => exact List.prefix_refl _
  | appended => exact List.prefix_append ..

theorem CallReceipt.extends (h : CallReceipt m actionId receipt m') : Extends m m' := by
  cases h with
  | ofAlias _ _ h => exact ⟨h.grown, List.prefix_refl _⟩
  | ofSplit _ _ h => exact ⟨List.prefix_refl _, h.grown⟩

theorem find_grown {α : Type} {p : α → Bool} {xs ys : List α} {x : α} (h : xs <+: ys) (hfind : xs.find? p = some x) :
    ys.find? p = some x := by
  obtain ⟨rest, rfl⟩ := h
  rw [List.find?_append, hfind]
  rfl

theorem PolicySound.again {later : ConceptMemory} {aliases' : Aliases} {id : String} (h : PolicySound env m aliases)
    (hok : call.perform env valid m = .ok (receipt, m')) (hid : checkOptions call.opts = .ok (by_, at_, some id))
    (hlater : PolicySound env later aliases') (hextends : Extends m' later) :
    call.perform env valid later = .ok (receipt, later) := by
  cases call with
  | recordAlias opts a b =>
    obtain ⟨⟨row, _⟩, hcall, hpair⟩ := map_ok.mp hok
    obtain ⟨rfl, rfl⟩ := Prod.mk.inj hpair
    obtain ⟨src, dst, _, _, _, rows', hprepare, hoptions, rfl, hreceipt, -⟩ := recordConceptAlias_ok h hcall
    cases hoptions.symm.trans hid
    obtain ⟨hfind, hchange, hsource⟩ := hreceipt.find
    refine map_ok.mpr ⟨(row, later), bind_ok.mpr ⟨_, hprepare, bind_ok.mpr ⟨_, hoptions,
      bind_ok.mpr ⟨(row, later.aliases), ?_, rfl⟩⟩⟩, rfl⟩
    rw [hlater.globalRevision]
    exact appendGovernance_replay hlater.aliasRows (find_grown hextends.aliases hfind) hchange hsource
  | clearAlias opts a =>
    obtain ⟨⟨row, _⟩, hcall, hpair⟩ := map_ok.mp hok
    obtain ⟨rfl, rfl⟩ := Prod.mk.inj hpair
    obtain ⟨src, _, _, _, rows', hprepare, hoptions, rfl, hreceipt, -⟩ := clearConceptAlias_ok h hcall
    cases hoptions.symm.trans hid
    obtain ⟨hfind, hchange, hsource⟩ := hreceipt.find
    refine map_ok.mpr ⟨(row, later), bind_ok.mpr ⟨_, hprepare, bind_ok.mpr ⟨_, hoptions,
      bind_ok.mpr ⟨(row, later.aliases), ?_, rfl⟩⟩⟩, rfl⟩
    rw [hlater.globalRevision]
    exact appendGovernance_replay hlater.aliasRows (find_grown hextends.aliases hfind) hchange hsource
  | recordSplit opts a rules dflt =>
    obtain ⟨⟨row, _⟩, hcall, hpair⟩ := map_ok.mp hok
    obtain ⟨rfl, rfl⟩ := Prod.mk.inj hpair
    obtain ⟨src, kept, dflt, _, _, _, rows', hprepare, hoptions, rfl, hreceipt, -⟩ := recordConceptSplit_ok h hcall
    cases hoptions.symm.trans hid
    obtain ⟨hfind, hchange, hsource⟩ := hreceipt.find
    refine map_ok.mpr ⟨(row, later), bind_ok.mpr ⟨_, hprepare, bind_ok.mpr ⟨_, hoptions,
      bind_ok.mpr ⟨(row, later.splits), ?_, rfl⟩⟩⟩, rfl⟩
    rw [hlater.globalRevision]
    exact appendGovernance_replay hlater.splitRows (find_grown hextends.splits hfind) hchange hsource
  | clearSplit opts a =>
    obtain ⟨⟨row, _⟩, hcall, hpair⟩ := map_ok.mp hok
    obtain ⟨rfl, rfl⟩ := Prod.mk.inj hpair
    obtain ⟨src, _, _, _, rows', hprepare, hoptions, rfl, hreceipt, -⟩ := clearConceptSplit_ok h hcall
    cases hoptions.symm.trans hid
    obtain ⟨hfind, hchange, hsource⟩ := hreceipt.find
    refine map_ok.mpr ⟨(row, later), bind_ok.mpr ⟨_, hprepare, bind_ok.mpr ⟨_, hoptions,
      bind_ok.mpr ⟨(row, later.splits), ?_, rfl⟩⟩⟩, rfl⟩
    rw [hlater.globalRevision]
    exact appendGovernance_replay hlater.splitRows (find_grown hextends.splits hfind) hchange hsource

/-! ## Runs -/

/-- Every text of a call is settled. -/
def ConceptStep.Settled (env : KeyEnv) : ConceptStep → Prop
  | .call c => c.Settled env
  | .capsules _ => True

theorem PolicySound.capsules (h : PolicySound env m aliases) (stored : Option (List (List String))) :
    PolicySound env { m with capsules := stored } aliases := ⟨h.aliasRows, h.splitRows, h.shared, h.replayed, h.chains⟩

theorem PolicySound.after (valid : String → Bool) {step : ConceptStep} (h : PolicySound env m aliases) (hsettled : step.Settled env) :
    (∃ aliases', PolicySound env (m.after env valid step) aliases') ∧ Extends m (m.after env valid step) := by
  cases step with
  | capsules stored => exact ⟨⟨aliases, h.capsules stored⟩, List.prefix_refl _, List.prefix_refl _⟩
  | call c =>
    change (∃ aliases', PolicySound env ((c.perform env valid m).toOption.elim m Prod.snd) aliases') ∧
      Extends m ((c.perform env valid m).toOption.elim m Prod.snd)
    cases hok : c.perform env valid m with
    | error => exact ⟨⟨aliases, h⟩, .refl⟩
    | ok result =>
      obtain ⟨receipt, m'⟩ := result
      obtain ⟨_, _, _, -, hreceipt⟩ := h.callReceipt hok
      exact ⟨h.performed hsettled hok, hreceipt.extends⟩

theorem PolicySound.run (valid : String → Bool) {steps : List ConceptStep} (h : PolicySound env m aliases) (hsettled : ∀ step ∈ steps, step.Settled env) :
    (∃ aliases', PolicySound env (m.run env valid steps) aliases') ∧ Extends m (m.run env valid steps) := by
  induction steps generalizing m aliases with
  | nil => exact ⟨⟨aliases, h⟩, .refl⟩
  | cons step rest ih =>
    obtain ⟨⟨aliases', hstep⟩, hextends⟩ := h.after valid (hsettled step (List.mem_cons_self ..))
    obtain ⟨hrest, hrestExtends⟩ := ih hstep fun s hs => hsettled s (List.mem_cons_of_mem _ hs)
    exact ⟨hrest, hextends.trans hrestExtends⟩

/-- The policy can be read: both ledgers load, chains of aliases end at a live or a purged concept, and the
revisions and the action ids are in order. -/
structure PolicyReadable (env : KeyEnv) (m : ConceptMemory) : Prop where
  aliases : ∃ aliases, loadConceptAliases env m.aliases = .ok aliases ∧ (∀ x, ¬LeadsOn (edge aliases) x x) ∧
    ∀ slug, ∃ r, resolveLoop env aliases (aliases.rows.length + 1) [] (normalizeKey env slug) = some r ∧
      ResolvesTo aliases (normalizeKey env slug) r
  splits : ∃ splits, loadConceptSplits env m.splits = .ok splits
  revision : governanceGlobalRevision env m = .ok (m.aliases.length + m.splits.length)
  dense : (sharedRevisions m).Perm (List.range' 1 (m.aliases.length + m.splits.length))
  revisions : m.aliases.map (·.revision) = List.range' 1 m.aliases.length ∧
    m.splits.map (·.revision) = List.range' 1 m.splits.length
  actions : (m.aliases.filterMap (·.actionId)).Nodup ∧ (m.splits.filterMap (·.actionId)).Nodup

theorem PolicySound.readable (h : PolicySound env m aliases) : PolicyReadable env m where
  aliases := ⟨aliases, h.load, fun x => (h.chains.ends x).not_cycle, fun slug => resolveLoop_sound h.chains _⟩
  splits := ⟨_, h.loadSplits⟩
  revision := h.globalRevision
  dense := h.shared
  revisions := ⟨h.aliasRows.revisions, h.splitRows.revisions⟩
  actions := ⟨h.aliasRows.actions, h.splitRows.actions⟩

end Steps

end LoopLab.Engine

namespace LoopLab.Engine
open Lib

/-- Whatever settled calls are made from empty ledgers, in whatever order, and whatever becomes of the store of
capsules in between: the policy can be read, an accepted call adds one row or gives its action's first row back,
and so does every retry of it. -/
theorem policy_stays_readable (env : KeyEnv) (valid : String → Bool) (m : ConceptMemory) (haliases : m.aliases = [])
    (hsplits : m.splits = []) (steps : List ConceptStep) (hsettled : ∀ step ∈ steps, step.Settled env) :
    PolicyReadable env (m.run env valid steps) ∧
      ∀ (call : ConceptCall) (receipt : PolicyReceipt) (m' : ConceptMemory), call.perform env valid (m.run env valid steps) = .ok (receipt, m') →
        ∃ by_ at_ actionId, checkOptions call.opts = .ok (by_, at_, actionId) ∧
          CallReceipt (m.run env valid steps) actionId receipt m' ∧
          (call.Settled env → actionId ≠ none → ∀ more : List ConceptStep, (∀ step ∈ more, step.Settled env) →
            call.perform env valid (m'.run env valid more) = .ok (receipt, m'.run env valid more)) := by
  have hempty : PolicySound env m Table.empty := .of_empty haliases hsplits
  obtain ⟨⟨aliases, hsound⟩, -⟩ := hempty.run valid hsettled
  refine ⟨hsound.readable, fun call receipt m' hok => ?_⟩
  obtain ⟨by_, at_, actionId, hoptions, hreceipt⟩ := hsound.callReceipt hok
  refine ⟨by_, at_, actionId, hoptions, hreceipt, fun hcall hid more hmore => ?_⟩
  obtain ⟨id, rfl⟩ := Option.ne_none_iff_exists'.mp hid
  obtain ⟨aliases', hafter⟩ := hsound.performed hcall hok
  obtain ⟨⟨aliases'', hlater⟩, hextends⟩ := hafter.run valid hmore
  exact hsound.again hok hoptions hlater hextends

/-- Texts of one case, without compatibility forms. -/
def plainKeys : KeyEnv := ⟨id, List.map Char.toLower, Char.isAlphanum⟩

/-- A merge of `a` into a text that is stripped before its null character is taken out. -/
def nullMerge : ConceptCall := .recordAlias {} "a" "\x00 a"

/-- Any call of this run is settled, so after it the policy can be read. -/
theorem policy_stays_readable_merge :
    PolicyReadable plainKeys (ConceptMemory.run plainKeys (fun _ => true) {} [.call (.recordAlias {} "A" "b")]) := by
  refine (policy_stays_readable plainKeys (fun _ => true) {} rfl rfl [.call (.recordAlias {} "A" "b")] ?_).1
  intro step hstep
  obtain rfl := List.mem_singleton.mp hstep
  exact (by decide +kernel : normalizeKey plainKeys (normalizeKey plainKeys "A") = normalizeKey plainKeys "A" ∧
    normalizeKey plainKeys (normalizeKey plainKeys "b") = normalizeKey plainKeys "b")

/-- The merge is accepted, and its ledger cannot be read from then on. -/
theorem null_merge_closes_ledger :
    (nullMerge.perform plainKeys (fun _ => true) {}).isOk = true ∧
      ¬PolicyReadable plainKeys (ConceptMemory.run plainKeys (fun _ => true) {} [.call nullMerge]) := by
  constructor
  · decide +kernel
  · intro hreadable
    obtain ⟨aliases, hload, -⟩ := hreadable.aliases
    have hfail : (loadConceptAliases plainKeys
        (ConceptMemory.run plainKeys (fun _ => true) {} [.call nullMerge]).aliases).isOk = false := by decide +kernel
    rw [hload] at hfail
    cases hfail

end LoopLab.Engine
