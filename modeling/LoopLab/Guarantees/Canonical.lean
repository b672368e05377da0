import LoopLab.Guarantees.ConceptLedgers

/-!
# Canonical concepts are final

One split hop is taken, between two chains of aliases.
-/

set_option autoImplicit false

namespace LoopLab.Engine
open Lib

variable {env : KeyEnv} {valid : String → Bool} {aliases : Aliases} {splits : Splits} {m m' : ConceptMemory}
  {src dst slug source target s t z : String} {siblings : List String}

/-! ## What a slug resolves to -/

theorem ResolvesTo.iff_some {x : String} {r : Option String} (h : ResolvesTo aliases x r) :
    r = some z ↔ EndsAt (edge aliases) x z ∧ aliases.get z = none ∧ z ≠ "" := by
  constructor
  · rintro rfl
    cases h with
    | live _ hend hz hne => exact ⟨hend, hz, hne⟩
  · rintro ⟨hend, hz, hne⟩
    exact h.unique (.live z hend hz hne)

theorem resolveSlug_some (h : AliasesSound env aliases) :
    resolveSlug env slug aliases = some z ↔ EndsAt (edge aliases) (normalizeKey env slug) z ∧ aliases.get z = none ∧ z ≠ "" :=
  (resolveSlug_spec h slug).iff_some

/-- A key is left as it is by normalization. -/
def Stable (env : KeyEnv) (x : String) : Prop := normalizeKey env x = x

theorem AliasesSound.stable_end (h : AliasesSound env aliases) {x : String} (hx : Stable env x)
    (hend : EndsAt (edge aliases) x z) : Stable env z := by
  induction hend with
  | stop => exact hx
  | @step x y z hxy _ ih =>
    obtain ⟨hget, htomb⟩ := edge_eq_some.mp hxy
    rcases h.settled x y hget with heq | ⟨hy, -⟩
    · exact absurd heq htomb
    · exact ih hy

theorem resolveSlug_live (h : AliasesSound env aliases) (hz : Stable env z) (hlive : aliases.get z = none) (hne : z ≠ "") :
    resolveSlug env z aliases = some z := by
  rw [resolveSlug_some h, hz]
  exact ⟨.stop (edge_eq_none.mpr (.inl hlive)), hlive, hne⟩

theorem get_of_isEmpty {α : Type} {d : Dict String α} (h : d.rows.isEmpty = true) (x : String) : d.get x = none := by
  by_contra hsome
  have hmem := Dict.mem_keys.mpr hsome
  rw [List.isEmpty_iff.mp h] at hmem
  cases hmem

theorem resolveSlug_isEmpty (h : aliases.rows.isEmpty = true) (slug : String) :
    resolveSlug env slug aliases = if normalizeKey env slug = "" then none else some (normalizeKey env slug) := by
  unfold resolveSlug
  rw [List.isEmpty_iff.mp h, List.length_nil, Nat.zero_add]
  unfold resolveLoop
  rw [get_of_isEmpty h]
  rfl

theorem aliasedSource_eq (h : AliasesSound env aliases) (slug : String) :
    aliasedSource env slug aliases = resolveSlug env slug aliases := by
  unfold aliasedSource
  split
  · next hempty => rw [resolveSlug_isEmpty hempty]
  · cases hresolve : resolveSlug env slug aliases with
    | none => rfl
    | some z =>
      have hne := ((resolveSlug_some h).mp hresolve).2.2
      simp [hne]

theorem resolveSplit_of_none (hs : Stable env source) (hnone : splits.get source = none) (context : List String) :
    resolveSplit env source context splits = source := by
  unfold resolveSplit
  dsimp only
  rw [hs, hnone]

/-- The context that a source is split in. -/
def splitContext (env : KeyEnv) (siblings : List String) (aliases : Aliases) (source : String) : List String :=
  ctxTokens env (siblingSources env siblings aliases source)

theorem canonicalizeConcept_eq (h : AliasesSound env aliases) (hslug : Settled env slug) :
    canonicalizeConcept env slug siblings aliases splits = (resolveSlug env slug aliases).bind fun source =>
      resolveSlug env (resolveSplit env source (splitContext env siblings aliases source) splits) aliases := by
  unfold canonicalizeConcept
  rw [aliasedSource_eq h]
  cases hresolve : resolveSlug env slug aliases with
  | none => rfl
  | some source =>
    have hstable : Stable env source := h.stable_end hslug ((resolveSlug_some h).mp hresolve).1
    have htarget : (if splits.rows.isEmpty = true then source else
        resolveSplit env source (splitContext env siblings aliases source) splits) =
        resolveSplit env source (splitContext env siblings aliases source) splits := by
      split
      · next hempty => rw [resolveSplit_of_none hstable (get_of_isEmpty hempty source)]
      · rfl
    rw [Option.bind_some, ← htarget]
    unfold splitContext
    dsimp only
    split
    · next hempty => rw [resolveSlug_isEmpty hempty]
    · rfl

/-! ## Splits -/

/-- The concepts that a split in force gives besides its source. -/
def splitOthers (spec : SplitSpec) (source : String) : List String := (splitTargets spec.rules spec.default).filter (· ≠ source)

theorem resolveSplit_cases (hs : Stable env source) {spec : SplitSpec} (hspec : splits.get source = some spec)
    (context : List String) :
    resolveSplit env source context splits = source ∨ resolveSplit env source context splits ∈ splitOthers spec source := by
  by_cases hsource : resolveSplit env source context splits = source
  · exact .inl hsource
  · refine .inr (List.mem_filter.mpr ⟨?_, decide_eq_true hsource⟩)
    revert hsource
    unfold resolveSplit
    dsimp only
    rw [hs, hspec]
    dsimp only
    split
    · next rule hrule =>
      exact fun _ => List.mem_append_left _ (List.mem_map.mpr ⟨rule, List.mem_of_find?_eq_some hrule, rfl⟩)
    · split
      · exact fun hne => absurd rfl hne
      · next hdefault =>
        intro _
        refine List.mem_append_right _ ?_
        rw [if_neg hdefault]
        exact List.mem_singleton_self _

def SplitsSettled (env : KeyEnv) (splits : Splits) : Prop :=
  ∀ s spec, splits.get s = some spec → ∀ t ∈ splitTargets spec.rules spec.default, Stable env t ∧ t ≠ ""

/-- A concept that a split of a live concept gives. -/
structure LiveChild (aliases : Aliases) (splits : Splits) (s t : String) : Prop where
  live : aliases.get s = none
  child : ∃ spec, splits.get s = some spec ∧ t ∈ splitOthers spec s

def Unchained (aliases : Aliases) (splits : Splits) : Prop :=
  ∀ s t z, LiveChild aliases splits s t → EndsAt (edge aliases) t z → aliases.get z = none → splits.get z = none

/-- A concept that the siblings do not move. -/
structure FinalConcept (env : KeyEnv) (aliases : Aliases) (splits : Splits) (siblings : List String) (z : String) : Prop where
  live : aliases.get z = none
  untagged : resolveSplit env z (splitContext env siblings aliases z) splits = z
  again : canonicalizeConcept env z siblings aliases splits = some z

theorem finalConcept (h : AliasesSound env aliases) (hz : Stable env z) (hlive : aliases.get z = none) (hne : z ≠ "")
    (huntagged : resolveSplit env z (splitContext env siblings aliases z) splits = z) :
    FinalConcept env aliases splits siblings z := by
  refine ⟨hlive, huntagged, ?_⟩
  have hsettled : Settled env z := by
    unfold Settled
    rw [hz, hz]
  rw [canonicalizeConcept_eq h hsettled, resolveSlug_live h hz hlive hne, Option.bind_some, huntagged]
  exact resolveSlug_live h hz hlive hne

theorem canonicalizeConcept_final (h : AliasesSound env aliases) (hsplits : SplitsSettled env splits)
    (hunchained : Unchained aliases splits) (hslug : Settled env slug)
    (hcanonical : canonicalizeConcept env slug siblings aliases splits = some z) :
    FinalConcept env aliases splits siblings z := by
  rw [canonicalizeConcept_eq h hslug] at hcanonical
  obtain ⟨source, hsource, htarget⟩ := Option.bind_eq_some_iff.mp hcanonical
  obtain ⟨hend, hlive, hne⟩ := (resolveSlug_some h).mp hsource
  have hstable : Stable env source := h.stable_end hslug hend
  cases hspec : splits.get source with
  | none =>
    have hsame := resolveSplit_of_none hstable hspec (splitContext env siblings aliases source)
    rw [hsame, resolveSlug_live h hstable hlive hne] at htarget
    obtain rfl := Option.some.inj htarget
    exact finalConcept h hstable hlive hne hsame
  | some spec =>
    rcases resolveSplit_cases hstable hspec (splitContext env siblings aliases source) with hsame | hother
    · rw [hsame, resolveSlug_live h hstable hlive hne] at htarget
      obtain rfl := Option.some.inj htarget
      exact finalConcept h hstable hlive hne hsame
    · obtain ⟨hstableTarget, -⟩ := hsplits source spec hspec _ (List.mem_filter.mp hother).1
      obtain ⟨hendTarget, hliveTarget, hneTarget⟩ := (resolveSlug_some h).mp htarget
      rw [hstableTarget] at hendTarget
      have hstableEnd := h.stable_end hstableTarget hendTarget
      have hnone := hunchained source _ z ⟨hlive, spec, hspec, hother⟩ hendTarget hliveTarget
      exact finalConcept h hstableEnd hliveTarget hneTarget (resolveSplit_of_none hstableEnd hnone _)

/-! ## The table for clients -/

/-- What a client finds for a slug, with itself where the table has nothing. -/
def CanonicalPolicy.lookup (policy : CanonicalPolicy) (key : String) : Option String := (policy.canonical.get key).getD (some key)

/-- A policy that leaves nothing out. -/
structure CanonicalPolicy.Untruncated (policy : CanonicalPolicy) : Prop where
  canonical : policy.canonicalOmitted = 0
  splitSources : policy.splitSourcesOmitted = 0

theorem get_foldl_set {α : Type} (f : String → α) (keys : List String) (d : Dict String α) (k : String) :
    Dict.get (keys.foldl (fun d key => d.set key (f key)) d) k = if k ∈ keys then some (f k) else d.get k := by
  induction keys generalizing d with
  | nil => simp
  | cons key rest ih =>
    rw [List.foldl_cons, ih, Dict.get_set]
    by_cases hrest : k ∈ rest
    · rw [if_pos hrest, if_pos (List.mem_cons_of_mem _ hrest)]
    · rw [if_neg hrest]
      by_cases hkey : k = key
      · rw [if_pos hkey, if_pos (hkey ▸ List.mem_cons_self ..), hkey]
      · rw [if_neg hkey, if_neg]
        rw [List.mem_cons]
        exact fun h => h.elim hkey hrest

theorem take_of_omitted {α : Type} {xs : List α} {n : Nat} (h : xs.length - (xs.take n).length = 0) : xs.take n = xs := by
  rw [List.length_take] at h
  exact List.take_of_length_le (by omega)

theorem policy_canonical_get (h : (conceptCanonicalizationPolicy env aliases splits).Untruncated) (k : String) :
    (conceptCanonicalizationPolicy env aliases splits).canonical.get k =
      if aliases.get k ≠ none ∧ contextDependent env aliases splits k = false then some (resolveSlug env k aliases) else none := by
  have htake := take_of_omitted h.canonical
  unfold conceptCanonicalizationPolicy
  dsimp only
  rw [htake, get_foldl_set]
  simp only [List.mem_insertionSort, List.mem_filter, Bool.not_eq_true', Dict.mem_keys, Dict.get_empty]

theorem policy_split_sources (h : (conceptCanonicalizationPolicy env aliases splits).Untruncated) (k : String) :
    k ∈ (conceptCanonicalizationPolicy env aliases splits).splitSources ↔
      splits.get k ≠ none ∨ aliases.get k ≠ none ∧ contextDependent env aliases splits k = true := by
  have htake := List.take_of_length_le (Nat.sub_eq_zero_iff_le.mp h.splitSources)
  unfold conceptCanonicalizationPolicy
  dsimp only
  rw [htake]
  simp only [List.mem_insertionSort, List.mem_dedup, List.mem_append, List.mem_filter, Dict.mem_keys]

theorem lookup_eq_canonicalize (h : AliasesSound env aliases) (hpolicy : (conceptCanonicalizationPolicy env aliases splits).Untruncated)
    (hslug : Settled env slug) (hne : normalizeKey env slug ≠ "")
    (hsource : normalizeKey env slug ∉ (conceptCanonicalizationPolicy env aliases splits).splitSources) :
    (conceptCanonicalizationPolicy env aliases splits).lookup (normalizeKey env slug) =
      canonicalizeConcept env slug siblings aliases splits := by
  rw [policy_split_sources hpolicy] at hsource
  obtain ⟨hnotSplit, hfree⟩ := not_or.mp hsource
  have hkey : resolveSlug env (normalizeKey env slug) aliases = resolveSlug env slug aliases := by
    unfold resolveSlug
    rw [hslug]
  unfold CanonicalPolicy.lookup
  rw [policy_canonical_get hpolicy, canonicalizeConcept_eq h hslug, ← hkey]
  by_cases hget : aliases.get (normalizeKey env slug) = none
  · rw [if_neg fun hboth => hboth.1 hget, Option.getD_none, resolveSlug_live h hslug hget hne, Option.bind_some,
      resolveSplit_of_none hslug (not_not.mp hnotSplit), resolveSlug_live h hslug hget hne]
  · have hdependent : contextDependent env aliases splits (normalizeKey env slug) = false := by
      rw [← Bool.not_eq_true]
      exact fun hdep => hfree ⟨hget, hdep⟩
    rw [if_pos ⟨hget, hdependent⟩, Option.getD_some]
    cases hresolve : resolveSlug env (normalizeKey env slug) aliases with
    | none => rfl
    | some z =>
      obtain ⟨hend, hlive, hnez⟩ := (resolveSlug_some h).mp hresolve
      rw [hslug] at hend
      have hstable := h.stable_end hslug hend
      have hnone : splits.get z = none := by
        unfold contextDependent at hdependent
        rw [hresolve] at hdependent
        simpa using hdependent
      rw [Option.bind_some, resolveSplit_of_none hstable hnone, resolveSlug_live h hstable hlive hnez]

/-! ## Writes -/

/-- What a write must not do to the splits in force: let a child of one resolve to a concept that is split. -/
def WriteKeeps (env : KeyEnv) (aliases : Aliases) (splits : Splits) : ConceptCall → Prop
  | .recordAlias _ a b =>
    normalizeKey env b ≠ "" → ∀ s t z, LiveChild aliases splits s t → s ≠ normalizeKey env a →
      Leads (edge aliases) t (normalizeKey env a) → EndsAt (edge aliases) (normalizeKey env b) z →
      aliases.get z = none → splits.get z = none
  | .clearAlias _ a =>
    (∀ s t, LiveChild aliases splits s t → Leads (edge aliases) t (normalizeKey env a) → splits.get (normalizeKey env a) = none) ∧
      ∀ spec, aliases.get (normalizeKey env a) ≠ none → splits.get (normalizeKey env a) = some spec →
        ∀ t ∈ splitOthers spec (normalizeKey env a), ¬Leads (edge aliases) t (normalizeKey env a) ∧
          ∀ z, EndsAt (edge aliases) t z → aliases.get z = none → splits.get z = none
  | .recordSplit _ a _ _ =>
    ∀ s t, LiveChild aliases splits s t → s ≠ normalizeKey env a → ¬EndsAt (edge aliases) t (normalizeKey env a)
  | .clearSplit _ _ => True

theorem edge_live (h : aliases.get z = none) : edge aliases z = none := edge_eq_none.mpr (.inl h)

theorem Unchained.merge (h : Unchained aliases splits) (hends : ∀ x, Ends (edge aliases) x) (hcycle : wouldCycle src dst aliases = false)
    (htomb : dst ≠ CONCEPT_TOMBSTONE)
    (hkeeps : ∀ s t z, LiveChild aliases splits s t → s ≠ src → Leads (edge aliases) t src → EndsAt (edge aliases) dst z →
      aliases.get z = none → splits.get z = none) : Unchained (aliases.set src dst) splits := by
  intro s t z hchild hend hlive
  have hsplit (x : String) (hx : (aliases.set src dst).get x = none) : x ≠ src ∧ aliases.get x = none := by
    rw [Dict.get_set] at hx
    split at hx
    · cases hx
    · next hne => exact ⟨hne, hx⟩
  obtain ⟨hs, hsLive⟩ := hsplit s hchild.live
  obtain ⟨-, hzLive⟩ := hsplit z hlive
  have hbefore : LiveChild aliases splits s t := ⟨hsLive, hchild.child⟩
  rw [edge_set, if_neg htomb] at hend
  by_cases hleads : Leads (edge aliases) t src
  · have hdst : ¬Leads (edge aliases) dst src := by
      rw [← wouldCycle_iff (hends dst), hcycle]
      exact Bool.false_ne_true
    have hsource := hend.rest (leads_update.mpr hleads)
    have hrest := hsource.rest (.single (Function.update_self ..))
    exact hkeeps s t z hbefore hs hleads (hrest.of_update hdst) hzLive
  · exact h s t z hbefore (hend.of_update hleads) hzLive

theorem Unchained.purge (h : Unchained aliases splits) : Unchained (aliases.set src CONCEPT_TOMBSTONE) splits := by
  intro s t z hchild hend hlive
  have hsplit (x : String) (hx : (aliases.set src CONCEPT_TOMBSTONE).get x = none) : x ≠ src ∧ aliases.get x = none := by
    rw [Dict.get_set] at hx
    split at hx
    · cases hx
    · next hne => exact ⟨hne, hx⟩
  obtain ⟨-, hsLive⟩ := hsplit s hchild.live
  obtain ⟨hz, hzLive⟩ := hsplit z hlive
  rw [edge_set, if_pos rfl] at hend
  by_cases hleads : Leads (edge aliases) t src
  · have hsource := hend.rest (leads_update.mpr hleads)
    exact absurd (hsource.eq_of_stop (Function.update_self ..)) hz
  · exact h s t z ⟨hsLive, hchild.child⟩ (hend.of_update hleads) hzLive

theorem Unchained.clear (h : Unchained aliases splits)
    (hkeeps : (∀ s t, LiveChild aliases splits s t → Leads (edge aliases) t src → splits.get src = none) ∧
      ∀ spec, aliases.get src ≠ none → splits.get src = some spec → ∀ t ∈ splitOthers spec src,
        ¬Leads (edge aliases) t src ∧ ∀ z, EndsAt (edge aliases) t z → aliases.get z = none → splits.get z = none) :
    Unchained (Table.erase aliases src) splits := by
  intro s t z hchild hend hlive
  have hsLive := hchild.live
  rw [Dict.get_erase] at hsLive hlive
  rw [edge_erase] at hend
  obtain ⟨spec, hspec, ht⟩ := hchild.child
  by_cases hleads : Leads (edge aliases) t src
  · have hz : z = src := (hend.rest (leads_update.mpr hleads)).eq_of_stop (Function.update_self ..)
    rw [hz]
    by_cases hs : s = src
    · by_cases hsource : aliases.get src = none
      · exact hkeeps.1 s t ⟨hs ▸ hsource, hchild.child⟩ hleads
      · exact absurd hleads (hkeeps.2 spec hsource (hs ▸ hspec) t (hs ▸ ht)).1
    · rw [if_neg hs] at hsLive
      exact hkeeps.1 s t ⟨hsLive, hchild.child⟩ hleads
  · have hbefore := hend.of_update hleads
    have hz : z ≠ src := by
      rintro rfl
      exact hleads hbefore.leads
    rw [if_neg hz] at hlive
    by_cases hs : s = src
    · by_cases hsource : aliases.get src = none
      · exact h s t z ⟨hs ▸ hsource, hchild.child⟩ hbefore hlive
      · exact (hkeeps.2 spec hsource (hs ▸ hspec) t (hs ▸ ht)).2 z hbefore hlive
    · rw [if_neg hs] at hsLive
      exact h s t z ⟨hsLive, hchild.child⟩ hbefore hlive

theorem Unchained.split (h : Unchained aliases splits) {spec : SplitSpec}
    (htargets : ∀ t ∈ splitOthers spec src, aliases.get t = none ∧ splits.get t = none)
    (hkeeps : ∀ s t, LiveChild aliases splits s t → s ≠ src → ¬EndsAt (edge aliases) t src) :
    Unchained aliases (splits.set src spec) := by
  intro s t z hchild hend hlive
  obtain ⟨spec', hspec', ht⟩ := hchild.child
  rw [Dict.get_set] at hspec' ⊢
  split at hspec'
  · next hs =>
    obtain rfl := Option.some.inj hspec'
    rw [hs] at ht
    obtain ⟨hlive, hnone⟩ := htargets t ht
    rw [hend.eq_of_stop (edge_live hlive), if_neg (of_decide_eq_true (List.mem_filter.mp ht).2)]
    exact hnone
  · next hs =>
    have hbefore : LiveChild aliases splits s t := ⟨hchild.live, spec', hspec', ht⟩
    have hz : z ≠ src := by
      rintro rfl
      exact hkeeps s t hbefore hs hend
    rw [if_neg hz]
    exact h s t z hbefore hend hlive

theorem Unchained.eraseSplit (h : Unchained aliases splits) : Unchained aliases (Table.erase splits src) := by
  intro s t z hchild hend hlive
  obtain ⟨spec, hspec, ht⟩ := hchild.child
  rw [Dict.get_erase] at hspec ⊢
  split at hspec
  · cases hspec
  · have hnone := h s t z ⟨hchild.live, spec, hspec, ht⟩ hend hlive
    split
    · rfl
    · exact hnone

/-! ## Runs -/

structure PolicyFinal (env : KeyEnv) (m : ConceptMemory) (aliases : Aliases) (splits : Splits) : Prop where
  sound : PolicySound env m aliases
  replayed : m.splits.foldl (applySplit env) Table.empty = splits
  settled : SplitsSettled env splits
  unchained : Unchained aliases splits

theorem PolicyFinal.loadSplits (h : PolicyFinal env m aliases splits) : loadConceptSplits env m.splits = .ok splits := by
  rw [h.sound.loadSplits, h.replayed]

theorem forM_ok {ε α : Type} {f : α → Except ε Unit} {xs : List α} (h : xs.forM f = .ok ()) {x : α} (hx : x ∈ xs) :
    f x = .ok () := by
  induction xs with
  | nil => cases hx
  | cons y ys ih =>
    obtain ⟨_, hy, h⟩ := bind_ok.mp h
    rcases List.mem_cons.mp hx with rfl | hx
    · exact hy
    · exact ih h hx

theorem validateTargets_others (h : PolicyFinal env m aliases splits) {opts : WriteOptions} {rules : List SplitRule} {dflt : String}
    (hvalidate : validateTargets env valid m opts src rules dflt = .ok ()) {t : String} (ht : t ∈ splitOthers ⟨rules, dflt⟩ src) :
    aliases.get t = none ∧ splits.get t = none := by
  obtain ⟨hmem, hne⟩ := List.mem_filter.mp ht
  unfold validateTargets at hvalidate
  obtain ⟨a, ha, hvalidate⟩ := bind_ok.mp hvalidate
  obtain ⟨b, hb, hvalidate⟩ := bind_ok.mp hvalidate
  obtain rfl : a = aliases := Except.ok.inj ((healthy_ok.mp ha).symm.trans h.sound.load)
  obtain rfl : b = splits := Except.ok.inj ((healthy_ok.mp hb).symm.trans h.loadSplits)
  obtain ⟨_, _, hvalidate⟩ := bind_ok.mp hvalidate
  obtain ⟨_, _, hvalidate⟩ := bind_ok.mp hvalidate
  obtain ⟨_, _, hvalidate⟩ := bind_ok.mp hvalidate
  obtain ⟨_, _, hvalidate⟩ := bind_ok.mp hvalidate
  obtain ⟨_, _, hvalidate⟩ := bind_ok.mp hvalidate
  have htarget := forM_ok hvalidate hmem
  obtain ⟨_, hsplit, htarget⟩ := bind_ok.mp htarget
  obtain ⟨_, _, htarget⟩ := bind_ok.mp htarget
  obtain ⟨_, _, htarget⟩ := bind_ok.mp htarget
  have hlive := (not_or.mp (failIf_ok.mp htarget)).1
  have hunsplit := fun hsome => failIf_ok.mp hsplit ⟨hsome, of_decide_eq_true hne⟩
  constructor
  · simpa using hlive
  · simpa using hunsplit

theorem applySplit_set {row : SplitRow} {rules : List SplitRule} {dflt : String} (hrow : row.change = .set rules dflt)
    (hsource : row.source = src) (hsrc : normalizeKey env src = src) (hfits : SplitFits env src rules dflt) :
    applySplit env splits row = splits.set src ⟨rules, dflt⟩ := by
  have hnormal : rules.map (normalizeRule env) = rules := by
    rw [List.map_congr_left fun r hr => (hfits.rule r hr).normalize, List.map_id']
  unfold applySplit
  rw [hrow, hsource, hsrc]
  dsimp only
  rw [hnormal, hfits.settled, if_pos]
  have hsome := hfits.some
  cases rules with
  | nil => simpa using hsome rfl
  | cons => rfl

theorem SplitsSettled.set {rules : List SplitRule} {dflt : String} (h : SplitsSettled env splits)
    (hfits : SplitFits env src rules dflt) : SplitsSettled env (splits.set src ⟨rules, dflt⟩) := by
  intro s spec hspec t ht
  rw [Dict.get_set] at hspec
  split at hspec
  · obtain rfl := Option.some.inj hspec
    rcases List.mem_append.mp ht with ht | ht
    · obtain ⟨rule, hrule, rfl⟩ := List.mem_map.mp ht
      exact ⟨(hfits.rule rule hrule).settled, (hfits.rule rule hrule).nonempty⟩
    · split at ht
      · cases ht
      · next hne =>
        obtain rfl := List.mem_singleton.mp ht
        exact ⟨hfits.settled, hne⟩
  · exact h s spec hspec t ht

theorem SplitsSettled.erase (h : SplitsSettled env splits) : SplitsSettled env (Table.erase splits src) := by
  intro s spec hspec t ht
  rw [Dict.get_erase] at hspec
  split at hspec
  · cases hspec
  · exact h s spec hspec t ht

theorem PolicyFinal.change {call : ConceptCall} {aliases' : Aliases} (h : PolicyFinal env m aliases splits)
    (hsound : PolicySound env m' aliases') (hchange : PolicyChange env valid m aliases call m' aliases')
    (hkeeps : WriteKeeps env aliases splits call) : ∃ splits', PolicyFinal env m' aliases' splits' := by
  cases hchange with
  | @merge opts a b row hne hlength hrow hvalidate hshared =>
    have hcycle := validateAlias_ok h.sound hvalidate hne
    exact ⟨splits, hsound, h.replayed, h.settled,
      h.unchained.merge h.sound.chains.ends hcycle (normalizeKey_ne_tombstone env b) (hkeeps hne)⟩
  | purge => exact ⟨splits, hsound, h.replayed, h.settled, h.unchained.purge⟩
  | clearAlias => exact ⟨splits, hsound, h.replayed, h.settled, h.unchained.clear hkeeps⟩
  | @split opts a default dflt rules kept row hrow hsource hfits hvalidate =>
    refine ⟨splits.set (normalizeKey env a) ⟨kept, dflt⟩, hsound, ?_, h.settled.set hfits,
      h.unchained.split (fun t ht => validateTargets_others h hvalidate ht) hkeeps⟩
    rw [List.foldl_append, h.replayed]
    exact applySplit_set hrow.1 hrow.2 hsource.settled hfits
  | @clearSplit opts a row hsource hrow =>
    refine ⟨Table.erase splits (normalizeKey env a), hsound, ?_, h.settled.erase, h.unchained.eraseSplit⟩
    rw [List.foldl_append, h.replayed, List.foldl_cons, List.foldl_nil]
    unfold applySplit
    rw [hrow.1, hrow.2, hsource.settled]

/-- Where a step appends, its write joins no child of a split to a split. -/
def StepKeeps (env : KeyEnv) (valid : String → Bool) (m : ConceptMemory) : ConceptStep → Prop
  | .capsules _ => True
  | .call call => ∀ receipt m' aliases splits, call.perform env valid m = .ok (receipt, m') → m' ≠ m →
      loadConceptAliases env m.aliases = .ok aliases → loadConceptSplits env m.splits = .ok splits →
      WriteKeeps env aliases splits call

/-- Every step of a run names settled concepts and keeps splits apart. -/
def RunKeeps (env : KeyEnv) (valid : String → Bool) : ConceptMemory → List ConceptStep → Prop
  | _, [] => True
  | m, step :: rest => step.Settled env ∧ StepKeeps env valid m step ∧ RunKeeps env valid (m.after env valid step) rest

theorem PolicyFinal.after {step : ConceptStep} (h : PolicyFinal env m aliases splits) (hsettled : step.Settled env)
    (hkeeps : StepKeeps env valid m step) : ∃ aliases' splits', PolicyFinal env (m.after env valid step) aliases' splits' := by
  cases step with
  | capsules stored => exact ⟨aliases, splits, h.sound.capsules stored, h.replayed, h.settled, h.unchained⟩
  | call c =>
    change ∃ aliases' splits', PolicyFinal env ((c.perform env valid m).toOption.elim m Prod.snd) aliases' splits'
    cases hok : c.perform env valid m with
    | error => exact ⟨aliases, splits, h⟩
    | ok result =>
      obtain ⟨receipt, m'⟩ := result
      change ∃ aliases' splits', PolicyFinal env m' aliases' splits'
      rcases h.sound.perform hsettled hok with rfl | ⟨aliases', hsound, hchange⟩
      · exact ⟨aliases, splits, h⟩
      · by_cases hsame : m' = m
        · exact hsame ▸ ⟨aliases, splits, h⟩
        · exact ⟨aliases', h.change hsound hchange (hkeeps receipt m' aliases splits hok hsame h.sound.load h.loadSplits)⟩

theorem PolicyFinal.run {steps : List ConceptStep} (h : PolicyFinal env m aliases splits) (hkeeps : RunKeeps env valid m steps) :
    ∃ aliases' splits', PolicyFinal env (m.run env valid steps) aliases' splits' := by
  induction steps generalizing m aliases splits with
  | nil => exact ⟨aliases, splits, h⟩
  | cons step rest ih =>
    obtain ⟨hsettled, hstep, hrest⟩ := hkeeps
    obtain ⟨aliases', splits', hafter⟩ := h.after hsettled hstep
    exact ih hafter hrest

theorem PolicyFinal.of_empty (haliases : m.aliases = []) (hsplits : m.splits = []) : PolicyFinal env m Table.empty Table.empty where
  sound := .of_empty haliases hsplits
  replayed := by
    rw [hsplits]
    rfl
  settled _ _ h := nomatch h
  unchained := by
    intro s t z hchild
    obtain ⟨spec, hspec, -⟩ := hchild.child
    cases hspec

/-- In every policy that such writes reach, the canonical concept of a settled slug is final under its siblings,
and the table for clients gives it where it names the slug's key as independent of them. -/
theorem canonical_concepts_final (env : KeyEnv) (valid : String → Bool) (m : ConceptMemory) (haliases : m.aliases = [])
    (hsplits : m.splits = []) (steps : List ConceptStep) (hkeeps : RunKeeps env valid m steps) :
    ∃ aliases splits, loadConceptAliases env (m.run env valid steps).aliases = .ok aliases ∧
      loadConceptSplits env (m.run env valid steps).splits = .ok splits ∧
      ∀ slug siblings, Settled env slug →
        (∀ z, canonicalizeConcept env slug siblings aliases splits = some z → FinalConcept env aliases splits siblings z) ∧
        ((conceptCanonicalizationPolicy env aliases splits).Untruncated → normalizeKey env slug ≠ "" →
          normalizeKey env slug ∉ (conceptCanonicalizationPolicy env aliases splits).splitSources →
          (conceptCanonicalizationPolicy env aliases splits).lookup (normalizeKey env slug) =
            canonicalizeConcept env slug siblings aliases splits) := by
  obtain ⟨aliases, splits, h⟩ := (PolicyFinal.of_empty haliases hsplits).run hkeeps
  refine ⟨aliases, splits, h.sound.load, h.loadSplits, fun slug siblings hslug => ⟨fun z hz => ?_, fun hpolicy hne hsource => ?_⟩⟩
  · exact canonicalizeConcept_final h.sound.chains h.settled h.unchained hslug hz
  · exact lookup_eq_canonicalize h.sound.chains hpolicy hslug hne hsource

/-- One split, whose write joins nothing. -/
def oneSplit : List ConceptStep := [.call (.recordSplit {} "a" [⟨"b", ["x"]⟩] "")]

theorem canonical_concepts_final_split :
    ∃ aliases splits, loadConceptSplits plainKeys (ConceptMemory.run plainKeys (fun _ => true) {} oneSplit).splits = .ok splits ∧
      ∀ z, canonicalizeConcept plainKeys "a" ["x"] aliases splits = some z → FinalConcept plainKeys aliases splits ["x"] z := by
  have hkeeps : RunKeeps plainKeys (fun _ => true) {} oneSplit := by
    refine ⟨⟨(by decide +kernel : normalizeKey plainKeys (normalizeKey plainKeys "a") = normalizeKey plainKeys "a"), ?_, rfl⟩, ?_, trivial⟩
    · intro rule hrule
      obtain rfl := List.mem_singleton.mp hrule
      refine ⟨(by decide +kernel : normalizeKey plainKeys (normalizeKey plainKeys "b") = normalizeKey plainKeys "b"), ?_⟩
      intro t ht
      obtain rfl := List.mem_singleton.mp ht
      exact (by decide +kernel : normalizeKey plainKeys (normalizeKey plainKeys "x") = normalizeKey plainKeys "x")
    · intro receipt m' aliases splits _ _ _ hsplits s t hchild
      obtain rfl : Table.empty = splits := Except.ok.inj hsplits
      obtain ⟨spec, hspec, -⟩ := hchild.child
      cases hspec
  obtain ⟨aliases, splits, -, hload, hfinal⟩ := canonical_concepts_final plainKeys (fun _ => true) {} rfl rfl oneSplit hkeeps
  exact ⟨aliases, splits, hload, (hfinal "a" ["x"] (by decide +kernel : normalizeKey plainKeys (normalizeKey plainKeys "a") =
    normalizeKey plainKeys "a")).1⟩

/-- Two splits, and a merge of the child of one into the source of the other. -/
def chainedSplits : List ConceptStep :=
  [.call (.recordSplit {} "a" [⟨"b", ["x"]⟩] ""), .call (.recordSplit {} "d" [⟨"e", ["y"]⟩] ""), .call (.recordAlias {} "b" "d")]

/-- All three are accepted, and then what a concept comes to is split again under the same siblings. -/
theorem merged_child_is_split_again :
    ∃ aliases splits, loadConceptAliases plainKeys (ConceptMemory.run plainKeys (fun _ => true) {} chainedSplits).aliases = .ok aliases ∧
      loadConceptSplits plainKeys (ConceptMemory.run plainKeys (fun _ => true) {} chainedSplits).splits = .ok splits ∧
      canonicalizeConcept plainKeys "a" ["x", "y"] aliases splits = some "d" ∧
      canonicalizeConcept plainKeys "d" ["x", "y"] aliases splits = some "e" := by
  have heval : ((loadConceptAliases plainKeys (ConceptMemory.run plainKeys (fun _ => true) {} chainedSplits).aliases).toOption.any
      fun aliases =>
        (loadConceptSplits plainKeys (ConceptMemory.run plainKeys (fun _ => true) {} chainedSplits).splits).toOption.any
          fun splits => decide (canonicalizeConcept plainKeys "a" ["x", "y"] aliases splits = some "d" ∧
            canonicalizeConcept plainKeys "d" ["x", "y"] aliases splits = some "e")) = true := by decide +kernel
  cases haliases : loadConceptAliases plainKeys (ConceptMemory.run plainKeys (fun _ => true) {} chainedSplits).aliases with
  | error e =>
    rw [haliases] at heval
    cases heval
  | ok aliases =>
    cases hsplits : loadConceptSplits plainKeys (ConceptMemory.run plainKeys (fun _ => true) {} chainedSplits).splits with
    | error e =>
      rw [haliases, hsplits] at heval
      cases heval
    | ok splits =>
      rw [haliases, hsplits] at heval
      obtain ⟨hfirst, hsecond⟩ := of_decide_eq_true heval
      exact ⟨aliases, splits, rfl, rfl, hfirst, hsecond⟩

end LoopLab.Engine
