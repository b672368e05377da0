import LoopLab.Engine.ConceptPolicy
import LoopLab.Lib.Parents

/-!
# Chains of aliases

What the two walks over the map of aliases find, where every chain ends: whether a concept comes to another,
and what it comes to at last.
-/

set_option autoImplicit false

namespace LoopLab.Engine
open Lib

variable {env : KeyEnv} {aliases : Aliases} {src dst : String}

/-- The concept a slug is merged into. -/
def edge (aliases : Aliases) (x : String) : Option String :=
  (aliases.get x).bind fun v => if v = CONCEPT_TOMBSTONE then none else some v

theorem edge_eq_some {x y : String} : edge aliases x = some y ↔ aliases.get x = some y ∧ y ≠ CONCEPT_TOMBSTONE := by
  unfold edge
  cases aliases.get x with
  | none => simp
  | some v =>
    rw [Option.bind_some]
    split
    · next htomb => simp only [htomb, reduceCtorEq, Option.some.injEq, ne_eq, false_iff, not_and, not_not]; exact Eq.symm
    · next hne =>
      rw [Option.some.injEq]
      exact ⟨fun h => ⟨h, h ▸ hne⟩, And.left⟩

theorem edge_eq_none {x : String} : edge aliases x = none ↔ aliases.get x = none ∨ aliases.get x = some CONCEPT_TOMBSTONE := by
  unfold edge
  cases aliases.get x with
  | none => simp
  | some v =>
    rw [Option.bind_some]
    split
    · next htomb => simp [htomb]
    · next hne => simp [hne]

theorem edge_set (k v : String) :
    edge (aliases.set k v) = Function.update (edge aliases) k (if v = CONCEPT_TOMBSTONE then none else some v) := by
  funext x
  by_cases hx : x = k
  · rw [hx, Function.update_self]
    unfold edge
    rw [Dict.get_set, if_pos rfl, Option.bind_some]
  · rw [Function.update_of_ne hx]
    unfold edge
    rw [Dict.get_set, if_neg hx]

theorem edge_erase (k : String) : edge (Table.erase aliases k) = Function.update (edge aliases) k none := by
  funext x
  by_cases hx : x = k
  · rw [hx, Function.update_self]
    unfold edge
    rw [Dict.get_erase, if_pos rfl]
    rfl
  · rw [Function.update_of_ne hx]
    unfold edge
    rw [Dict.get_erase, if_neg hx]

theorem mem_keys_of_edge {x y : String} (h : edge aliases x = some y) : x ∈ aliases.rows.map Prod.fst := by
  rw [Dict.mem_keys, (edge_eq_some.mp h).1]
  exact Option.some_ne_none y

theorem visited_length {visited : List String} (hnodup : visited.Nodup) (hkeys : visited ⊆ aliases.rows.map Prod.fst) :
    visited.length ≤ aliases.rows.length := by
  have hle := (hnodup.subperm hkeys).length_le
  rwa [List.length_map] at hle

theorem wouldCycleLoop_iff {fuel : Nat} {visited : List String} {cur : String} (hends : Ends (edge aliases) cur)
    (hnodup : visited.Nodup) (hkeys : visited ⊆ aliases.rows.map Prod.fst)
    (hleads : ∀ z ∈ visited, LeadsOn (edge aliases) z cur) (hfuel : visited.length + fuel = aliases.rows.length + 1) :
    wouldCycleLoop aliases src fuel (visited ++ [src]) cur = true ↔ Leads (edge aliases) cur src := by
  induction fuel generalizing visited cur with
  | zero =>
    have hlength := visited_length hnodup hkeys
    omega
  | succ fuel ih =>
    have hstop : edge aliases cur = none → (cur = src ↔ Leads (edge aliases) cur src) := by
      intro hnone
      constructor
      · rintro rfl
        exact .refl
      · intro hpath
        rcases Relation.ReflTransGen.cases_head hpath with heq | ⟨y, hy, -⟩
        · exact heq
        · rw [hnone] at hy
          cases hy
    unfold wouldCycleLoop
    cases hget : aliases.get cur with
    | none =>
      dsimp only
      rw [decide_eq_true_eq]
      exact hstop (edge_eq_none.mpr (.inl hget))
    | some nxt =>
      dsimp only
      split
      · next hin =>
        rcases List.mem_append.mp hin with hold | hlast
        · exact absurd (hleads cur hold) hends.not_cycle
        · obtain rfl := List.mem_singleton.mp hlast
          simp [Relation.ReflTransGen.refl]
      · next hout =>
        have hne : cur ≠ src := fun heq => hout (List.mem_append_right _ (heq ▸ List.mem_singleton_self _))
        split
        · next htomb =>
          rw [htomb] at hget
          have hpath := hstop (edge_eq_none.mpr (.inr hget))
          simp only [Bool.false_eq_true, false_iff]
          exact fun hleads => hne (hpath.mpr hleads)
        · next htomb =>
          have hedge : edge aliases cur = some nxt := edge_eq_some.mpr ⟨hget, htomb⟩
          have hnext : Ends (edge aliases) nxt := hends.of_leads (.single hedge)
          rw [← List.cons_append, ih hnext]
          · constructor
            · exact fun hpath => .head hedge hpath
            · intro hpath
              rcases Relation.ReflTransGen.cases_head hpath with heq | ⟨y, hy, hrest⟩
              · exact absurd heq hne
              · obtain rfl := Option.some.inj (hedge.symm.trans hy)
                exact hrest
          · exact List.nodup_cons.mpr ⟨fun hin => hout (List.mem_append_left _ hin), hnodup⟩
          · intro z hz
            rcases List.mem_cons.mp hz with rfl | hz
            · exact mem_keys_of_edge hedge
            · exact hkeys hz
          · intro z hz
            rcases List.mem_cons.mp hz with rfl | hz
            · exact .single hedge
            · exact (hleads z hz).tail hedge
          · rw [List.length_cons]
            omega

theorem wouldCycle_iff (hends : Ends (edge aliases) dst) :
    wouldCycle src dst aliases = true ↔ Leads (edge aliases) dst src := by
  have hloop : wouldCycleLoop aliases src (aliases.rows.length + 1) ([] ++ [src]) dst = true ↔ Leads (edge aliases) dst src :=
    wouldCycleLoop_iff hends List.nodup_nil (List.nil_subset _) nofun (by simp)
  exact hloop

structure AliasesSound (env : KeyEnv) (aliases : Aliases) : Prop where
  ends : ∀ x, Ends (edge aliases) x
  settled : ∀ k v, aliases.get k = some v → v = CONCEPT_TOMBSTONE ∨ normalizeKey env v = v ∧ v ≠ ""

theorem AliasesSound.empty : AliasesSound env Table.empty where
  ends _ := .stop rfl
  settled _ _ h := nomatch h

theorem AliasesSound.set (h : AliasesSound env aliases) (hcycle : wouldCycle src dst aliases = false)
    (hsettled : normalizeKey env dst = dst) (hne : dst ≠ "") (htomb : dst ≠ CONCEPT_TOMBSTONE) :
    AliasesSound env (aliases.set src dst) where
  ends := by
    rw [edge_set, if_neg htomb]
    refine Ends.update h.ends fun hleads => ?_
    rw [(wouldCycle_iff (h.ends dst)).mpr hleads] at hcycle
    cases hcycle
  settled k v hget := by
    rw [Dict.get_set] at hget
    split at hget
    · obtain rfl := Option.some.inj hget
      exact .inr ⟨hsettled, hne⟩
    · exact h.settled k v hget

theorem wouldCycle_set (h : AliasesSound env aliases) (hcycle : wouldCycle src dst aliases = false)
    (htomb : dst ≠ CONCEPT_TOMBSTONE) : wouldCycle src dst (aliases.set src dst) = false := by
  have hleads : ¬Leads (edge aliases) dst src := by
    rw [← wouldCycle_iff (h.ends dst), hcycle]
    exact Bool.false_ne_true
  have hedge : edge (aliases.set src dst) = Function.update (edge aliases) src (some dst) := by
    rw [edge_set, if_neg htomb]
  have hends : Ends (edge (aliases.set src dst)) dst := hedge ▸ Ends.update h.ends hleads dst
  rw [← Bool.not_eq_true, wouldCycle_iff hends, hedge, leads_update]
  exact hleads

theorem AliasesSound.purge (h : AliasesSound env aliases) : AliasesSound env (aliases.set src CONCEPT_TOMBSTONE) where
  ends := by
    rw [edge_set, if_pos rfl]
    exact Ends.cut h.ends src
  settled k v hget := by
    rw [Dict.get_set] at hget
    split at hget
    · exact .inl (Option.some.inj hget).symm
    · exact h.settled k v hget

theorem AliasesSound.erase (h : AliasesSound env aliases) : AliasesSound env (Table.erase aliases src) where
  ends := by
    rw [edge_erase]
    exact Ends.cut h.ends src
  settled k v hget := by
    rw [Dict.get_erase] at hget
    split at hget
    · cases hget
    · exact h.settled k v hget

/-- What the chain of a slug comes to: a concept that is not aliased, or one that is purged. -/
inductive ResolvesTo (aliases : Aliases) (x : String) : Option String → Prop
  | live (z : String) (h : EndsAt (edge aliases) x z) (hz : aliases.get z = none) (hne : z ≠ "") :
    ResolvesTo aliases x (some z)
  | blank (h : EndsAt (edge aliases) x "") (hz : aliases.get "" = none) : ResolvesTo aliases x none
  | purged (z : String) (h : EndsAt (edge aliases) x z) (hz : aliases.get z = some CONCEPT_TOMBSTONE) :
    ResolvesTo aliases x none

theorem ResolvesTo.step {x y : String} {r : Option String} (hxy : edge aliases x = some y) (h : ResolvesTo aliases y r) :
    ResolvesTo aliases x r := by
  cases h with
  | live z hend hz hne => exact .live z (.step hxy hend) hz hne
  | blank hend hz => exact .blank (.step hxy hend) hz
  | purged z hend hz => exact .purged z (.step hxy hend) hz

theorem ResolvesTo.unique {x : String} {r r' : Option String} (h : ResolvesTo aliases x r) (h' : ResolvesTo aliases x r') :
    r = r' := by
  cases h with
  | live z hend hz hne =>
    cases h' with
    | live z' hend' => rw [hend.unique hend']
    | blank hend' => exact absurd (hend.unique hend') hne
    | purged z' hend' hz' =>
      rw [hend.unique hend', hz'] at hz
      cases hz
  | blank hend hz =>
    cases h' with
    | live z' hend' hz' hne' => exact absurd (hend'.unique hend) hne'
    | blank => rfl
    | purged => rfl
  | purged z hend hz =>
    cases h' with
    | live z' hend' hz' =>
      rw [hend'.unique hend, hz] at hz'
      cases hz'
    | blank => rfl
    | purged => rfl

theorem resolveLoop_spec (h : AliasesSound env aliases) {fuel : Nat} {order : List String} {cur : String}
    (hnodup : order.Nodup) (hkeys : order ⊆ aliases.rows.map Prod.fst) (hleads : ∀ z ∈ order, LeadsOn (edge aliases) z cur)
    (hfuel : order.length + fuel = aliases.rows.length + 1) :
    ∃ r, resolveLoop env aliases fuel order cur = some r ∧ ResolvesTo aliases cur r := by
  induction fuel generalizing order cur with
  | zero =>
    have hlength := visited_length hnodup hkeys
    omega
  | succ fuel ih =>
    unfold resolveLoop
    cases hget : aliases.get cur with
    | none =>
      refine ⟨_, rfl, ?_⟩
      have hend : EndsAt (edge aliases) cur cur := .stop (edge_eq_none.mpr (.inl hget))
      split
      · next hblank =>
        rw [hblank] at hend hget ⊢
        exact .blank hend hget
      · next hne => exact .live cur hend hget hne
    | some nxt =>
      dsimp only
      split
      · next hin => exact absurd (hleads cur hin) (h.ends cur).not_cycle
      · next hout =>
        split
        · next htomb =>
          rw [htomb] at hget
          exact ⟨none, rfl, .purged cur (.stop (edge_eq_none.mpr (.inr hget))) hget⟩
        · next htomb =>
          have hedge : edge aliases cur = some nxt := edge_eq_some.mpr ⟨hget, htomb⟩
          have hsettled : normalizeKey env nxt = nxt := by
            rcases h.settled cur nxt hget with heq | ⟨hnorm, -⟩
            · exact absurd heq htomb
            · exact hnorm
          rw [hsettled]
          have hnodup' : (order ++ [cur]).Nodup := by
            refine List.nodup_append.mpr ⟨hnodup, List.nodup_singleton _, fun a ha b hb heq => hout ?_⟩
            obtain rfl := List.mem_singleton.mp hb
            exact heq ▸ ha
          have hkeys' : order ++ [cur] ⊆ aliases.rows.map Prod.fst := by
            intro z hz
            rcases List.mem_append.mp hz with hz | hz
            · exact hkeys hz
            · obtain rfl := List.mem_singleton.mp hz
              exact mem_keys_of_edge hedge
          have hleads' : ∀ z ∈ order ++ [cur], LeadsOn (edge aliases) z nxt := by
            intro z hz
            rcases List.mem_append.mp hz with hz | hz
            · exact (hleads z hz).tail hedge
            · obtain rfl := List.mem_singleton.mp hz
              exact .single hedge
          obtain ⟨r, hloop, hr⟩ := ih hnodup' hkeys' hleads' (by
            rw [List.length_append, List.length_singleton]
            omega)
          exact ⟨r, hloop, hr.step hedge⟩

theorem resolveLoop_sound (h : AliasesSound env aliases) (x : String) :
    ∃ r, resolveLoop env aliases (aliases.rows.length + 1) [] x = some r ∧ ResolvesTo aliases x r :=
  resolveLoop_spec h List.nodup_nil (List.nil_subset _) nofun (by simp)

theorem resolveSlug_spec (h : AliasesSound env aliases) (slug : String) :
    ResolvesTo aliases (normalizeKey env slug) (resolveSlug env slug aliases) := by
  obtain ⟨r, hloop, hr⟩ := resolveLoop_sound h (normalizeKey env slug)
  unfold resolveSlug
  rw [hloop]
  exact hr

end LoopLab.Engine
