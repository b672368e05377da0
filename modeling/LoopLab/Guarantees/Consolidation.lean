import LoopLab.Search.HybridMerge
import Mathlib.Data.List.GetD
import Mathlib.Algebra.GroupWithZero.Nat

/-!
# Consolidation loses and doubles nothing

The clusters cut the indices into pieces of the neighbour graph; the repaired plan cuts each cluster into groups
that the model named; the groups of all clusters are a partition again.
-/

set_option autoImplicit false

namespace LoopLab.HybridMerge
open Lib

section Clusters
variable {S V : Type} [LT S] [DecidableLT S] [DecidableEq S] [Zero S] {retrieval : Retrieval S V}
variable {texts : List String} {k i j : Nat}

theorem ascending_perm (is : List Nat) : (ascending is).Perm is := List.mergeSort_perm _ _

theorem ascending_lt {is : List Nat} (h : is.Nodup) : (ascending is).Pairwise (· < ·) := by
  have hle : (ascending is).Pairwise fun a b => decide (a ≤ b) = true := by
    apply List.pairwise_mergeSort
    · intro a b c hab hbc
      exact decide_eq_true ((of_decide_eq_true hab).trans (of_decide_eq_true hbc))
    · intro a b
      simpa using Nat.le_total a b
  have hne : (ascending is).Pairwise (· ≠ ·) := (ascending_perm is).nodup_iff.mpr h
  exact hle.imp₂ (fun a b hab hne => lt_of_le_of_ne (of_decide_eq_true hab) hne) hne

theorem near_spec : (near retrieval texts k i).length ≤ k ∧ ∀ j ∈ near retrieval texts k i,
    j ≠ i ∧ j < texts.length ∧ 2 ≤ (places (rankings retrieval texts (texts.getD i "")) j).length := by
  constructor
  · unfold near candidates
    rw [List.length_map]
    exact List.length_take_le _ _
  · intro j hj
    obtain ⟨⟨j', score⟩, hmem, rfl⟩ := List.mem_map.mp hj
    have hfused := (List.mergeSort_perm _ _).mem_iff.mp (List.mem_of_mem_take hmem)
    obtain ⟨x, hx, hsome⟩ := List.mem_filterMap.mp hfused
    split at hsome
    · cases hsome
    · rename_i hkept
      dsimp only at hsome
      split at hsome
      · obtain ⟨rfl, -⟩ := Prod.mk.inj (Option.some.inj hsome)
        push Not at hkept
        refine ⟨fun heq => hkept.1 (congrArg some heq), List.mem_range.mp hx, hkept.2⟩
      · cases hsome

/-- One text is among the other's top neighbours. -/
def Linked (retrieval : Retrieval S V) (texts : List String) (k i j : Nat) : Prop :=
  (i < texts.length ∧ j ∈ near retrieval texts k i) ∨ (j < texts.length ∧ i ∈ near retrieval texts k j)

theorem Linked.symm (h : Linked retrieval texts k i j) : Linked retrieval texts k j i := Or.symm h

instance : Std.Symm (Linked retrieval texts k) := ⟨fun _ _ => Linked.symm⟩

theorem Linked.lt (h : Linked retrieval texts k i j) : j < texts.length := by
  rcases h with ⟨-, h⟩ | ⟨h, -⟩
  · exact (near_spec.2 j h).2.1
  · exact h

theorem next_singles {n c d : Nat} : ¬Next (singles n) c d := by
  unfold Next singles Dict.get
  rw [Table.get_image, Table.get_ofKeys]
  split <;> simp

theorem next_adjacency : Next (adjacency retrieval texts k) i j ↔ Linked retrieval texts k i j := by
  have hmem (a b : Nat) : (a, b) ∈ (List.range texts.length).flatMap
      (fun i => (near retrieval texts k i).map fun j => (i, j)) ↔ a < texts.length ∧ b ∈ near retrieval texts k a := by
    simp only [List.mem_flatMap, List.mem_map, Prod.mk.injEq, List.mem_range]
    constructor
    · rintro ⟨c, hc, d, hd, rfl, rfl⟩
      exact ⟨hc, hd⟩
    · rintro ⟨ha, hb⟩
      exact ⟨a, ha, b, hb, rfl, rfl⟩
  unfold adjacency Linked
  rw [next_foldl_link, hmem, hmem]
  constructor
  · rintro (h | h)
    · exact absurd h next_singles
    · exact h
  · exact Or.inr

structure Cluster (retrieval : Retrieval S V) (texts : List String) (k : Nat) (cl : List Nat) : Prop where
  ascends : cl.Pairwise (· < ·)
  filled : cl ≠ []
  connected : ∀ a ∈ cl, ∀ b ∈ cl, Relation.ReflTransGen (Linked retrieval texts k) a b

theorem clusters_spec (hn : ¬texts.length ≤ 1) :
    (clusterNearDuplicates retrieval texts k).flatten.Perm (List.range texts.length) ∧
      ∀ cl ∈ clusterNearDuplicates retrieval texts k, Cluster retrieval texts k cl := by
  have hswept := swept_sweep (adjacency retrieval texts k) (List.range texts.length) []
  have hnext : Next (adjacency retrieval texts k) = Linked retrieval texts k :=
    funext fun a => funext fun b => propext next_adjacency
  have hclusters : clusterNearDuplicates retrieval texts k =
      (sweep (adjacency retrieval texts k) (List.range texts.length) []).map ascending := if_neg hn
  rw [hclusters]
  have hperm : ((sweep (adjacency retrieval texts k) (List.range texts.length) []).map ascending).flatten.Perm
      (sweep (adjacency retrieval texts k) (List.range texts.length) []).flatten := by
    rw [← List.flatMap_def, ← List.flatMap_id']
    exact List.Perm.flatMap_left _ fun cl _ => ascending_perm cl
  constructor
  · refine hperm.trans ((List.perm_ext_iff_of_nodup hswept.nodup List.nodup_range).mpr fun x => ⟨fun hx => ?_, fun hx => ?_⟩)
    · obtain ⟨piece, hpiece, hx⟩ := List.mem_flatten.mp hx
      obtain ⟨a, ha, -, hreach⟩ := hswept.rooted piece hpiece
      rcases Relation.ReflTransGen.cases_tail (hreach x hx) with rfl | ⟨c, -, hedge⟩
      · exact ha
      · rw [hnext] at hedge
        exact List.mem_range.mpr hedge.lt
    · exact (hswept.taken x hx).resolve_left List.not_mem_nil
  · intro cl hcl
    obtain ⟨piece, hpiece, rfl⟩ := List.mem_map.mp hcl
    obtain ⟨a, -, hmem, hreach⟩ := hswept.rooted piece hpiece
    have hnodup : piece.Nodup := (List.nodup_flatten.mp hswept.nodup).1 piece hpiece
    rw [hnext] at hreach
    refine ⟨ascending_lt hnodup, ?_, ?_⟩
    · exact List.ne_nil_of_mem ((ascending_perm piece).mem_iff.mpr hmem)
    · intro x hx y hy
      have hback := Relation.ReflTransGen.symmetric.symm a x (hreach x ((ascending_perm piece).mem_iff.mp hx))
      exact hback.trans (hreach y ((ascending_perm piece).mem_iff.mp hy))

end Clusters

/-! ## The plan of the model -/

section Plan
variable {items : List String} {plan : List MergeGroup} {groups : List Group}

/-- The members of all groups. -/
def allMembers (groups : List Group) : List Nat := groups.flatMap (·.members)

/-- Groups over some indices: none lost or doubled, each ascending and not empty, a single one with its own text. -/
structure Groups (items : List String) (is : List Nat) (groups : List Group) : Prop where
  covers : (allMembers groups).Perm is
  ascends : ∀ g ∈ groups, g.members.Pairwise (· < ·)
  filled : ∀ g ∈ groups, g.members ≠ []
  own : ∀ g ∈ groups, ∀ i, g.members = [i] → g.merged = items.getD i ""

theorem allMembers_append (gs hs : List Group) : allMembers (gs ++ hs) = allMembers gs ++ allMembers hs :=
  List.flatMap_append

theorem allMembers_single (is : List Nat) : allMembers (is.map (singleton items)) = is := by
  induction is with
  | nil => rfl
  | cons i is ih =>
    show i :: allMembers (is.map (singleton items)) = _
    rw [ih]

theorem Groups.append {is js : List Nat} {more : List Group} (h : Groups items is groups) (h' : Groups items js more) :
    Groups items (is ++ js) (groups ++ more) := by
  refine ⟨?_, ?_, ?_, ?_⟩
  · rw [allMembers_append]
    exact h.covers.append h'.covers
  · intro g hg
    exact (List.mem_append.mp hg).elim (h.ascends g) (h'.ascends g)
  · intro g hg
    exact (List.mem_append.mp hg).elim (h.filled g) (h'.filled g)
  · intro g hg
    exact (List.mem_append.mp hg).elim (h.own g) (h'.own g)

theorem groups_single (is : List Nat) : Groups items is (is.map (singleton items)) := by
  refine ⟨by rw [allMembers_single], ?_, ?_, ?_⟩
  · intro g hg
    obtain ⟨i, -, rfl⟩ := List.mem_map.mp hg
    exact List.pairwise_singleton _ _
  · intro g hg
    obtain ⟨i, -, rfl⟩ := List.mem_map.mp hg
    exact List.cons_ne_nil _ _
  · intro g hg i hi
    obtain ⟨j, -, rfl⟩ := List.mem_map.mp hg
    obtain rfl := (List.cons.inj hi).1
    rfl

theorem Groups.perm {is js : List Nat} {more : List Group} (h : Groups items is groups) (hperm : more.Perm groups)
    (his : is.Perm js) : Groups items js more :=
  ⟨((List.Perm.flatMap_right _ hperm).trans h.covers).trans his, fun g hg => h.ascends g (hperm.mem_iff.mp hg),
    fun g hg => h.filled g (hperm.mem_iff.mp hg), fun g hg => h.own g (hperm.mem_iff.mp hg)⟩

theorem byFirst_ordered {is : List Nat} (h : Groups items is groups) (his : is.Nodup) :
    (byFirst groups).Pairwise fun g h => g.members.headD 0 < h.members.headD 0 := by
  have hsorted : (byFirst groups).Pairwise fun g h => decide (g.members.headD 0 ≤ h.members.headD 0) = true := by
    apply List.pairwise_mergeSort
    · intro a b c hab hbc
      exact decide_eq_true ((of_decide_eq_true hab).trans (of_decide_eq_true hbc))
    · intro a b
      simpa using Nat.le_total _ _
  have hgroups : Groups items is (byFirst groups) := h.perm (List.mergeSort_perm _ _) (.refl is)
  have hnodup : (allMembers (byFirst groups)).Nodup := hgroups.covers.nodup_iff.mpr his
  have hfilled := hgroups.filled
  have hapart := (List.nodup_flatMap.mp hnodup).2
  refine (List.Pairwise.and_mem.mp (hsorted.and hapart)).imp ?_
  rintro g h ⟨hg, hh, hle, hdisjoint⟩
  apply lt_of_le_of_ne (of_decide_eq_true hle)
  intro heq
  obtain ⟨i, is, hgi⟩ := List.exists_cons_of_ne_nil (hfilled g hg)
  obtain ⟨j, js, hhj⟩ := List.exists_cons_of_ne_nil (hfilled h hh)
  rw [hgi, hhj] at heq
  have hij : i = j := heq
  apply hdisjoint (a := i)
  · show i ∈ g.members
    rw [hgi]
    exact List.mem_cons_self
  · show i ∈ h.members
    rw [hhj, hij]
    exact List.mem_cons_self

structure Repaired (items : List String) (plan : List MergeGroup) (st : List Nat × List Group) : Prop where
  groups : Groups items st.1 st.2
  nodup : st.1.Nodup
  bounded : ∀ i ∈ st.1, i < items.length
  named : ∀ g ∈ st.2, ∃ p ∈ plan, ∀ i ∈ g.members, (i : Int) ∈ p.members
  large : ∀ g ∈ st.2, 2 ≤ g.members.length

theorem Repaired.repair {st : List Nat × List Group} (h : Repaired items plan st) {p : MergeGroup} (hp : p ∈ plan) :
    Repaired items plan (repair items st p) := by
  have hvalid (m : Nat) (hm : m ∈ p.members.filterMap fun (i : Int) =>
      if 0 ≤ i ∧ i < items.length ∧ i.toNat ∉ st.1 then some i.toNat else none) :
      m < items.length ∧ m ∉ st.1 ∧ (m : Int) ∈ p.members := by
    obtain ⟨i, hi, hsome⟩ := List.mem_filterMap.mp hm
    split at hsome
    · rename_i hok
      obtain rfl := Option.some.inj hsome
      rw [Int.toNat_of_nonneg hok.1]
      exact ⟨by omega, hok.2.2, hi⟩
    · cases hsome
  unfold HybridMerge.repair
  dsimp only
  generalize (p.members.filterMap fun (i : Int) =>
      if 0 ≤ i ∧ i < items.length ∧ i.toNat ∉ st.1 then some i.toNat else none) = valid at hvalid
  have hperm := ascending_perm valid.eraseDups
  have hnodup : (ascending valid.eraseDups).Nodup := hperm.nodup_iff.mpr (nodup_eraseDups valid)
  have hmem (m : Nat) (hm : m ∈ ascending valid.eraseDups) := hvalid m (List.mem_eraseDups.mp (hperm.mem_iff.mp hm))
  split
  · exact h
  · rename_i hlarge
    have hgroup : Groups items (ascending valid.eraseDups) [⟨ascending valid.eraseDups,
        if Py.strip p.merged = "" then items.getD ((ascending valid.eraseDups).headD 0) "" else Py.strip p.merged⟩] := by
      refine ⟨?_, ?_, ?_, ?_⟩
      · show (ascending valid.eraseDups ++ []).Perm _
        rw [List.append_nil]
      · intro g hg
        rw [List.mem_singleton.mp hg]
        exact ascending_lt (nodup_eraseDups valid)
      · intro g hg hnil
        rw [List.mem_singleton.mp hg] at hnil
        dsimp only at hnil
        rw [hnil] at hlarge
        exact hlarge (by decide)
      · intro g hg i hi
        rw [List.mem_singleton.mp hg] at hi
        dsimp only at hi
        rw [hi] at hlarge
        exact absurd (Nat.lt_succ_self 1) hlarge
    refine ⟨h.groups.append hgroup, ?_, ?_, ?_, ?_⟩
    · apply List.nodup_append.mpr
      refine ⟨h.nodup, hnodup, ?_⟩
      rintro i hi j hj rfl
      exact (hmem i hj).2.1 hi
    · intro i hi
      rcases List.mem_append.mp hi with hi | hi
      · exact h.bounded i hi
      · exact (hmem i hi).1
    · intro g hg
      rcases List.mem_append.mp hg with hg | hg
      · exact h.named g hg
      · rw [List.mem_singleton.mp hg]
        exact ⟨p, hp, fun i hi => (hmem i hi).2.2⟩
    · intro g hg
      rcases List.mem_append.mp hg with hg | hg
      · exact h.large g hg
      · rw [List.mem_singleton.mp hg]
        exact Nat.not_lt.mp hlarge

theorem repaired_foldl (ps : List MergeGroup) (hps : ∀ p ∈ ps, p ∈ plan) {st : List Nat × List Group}
    (h : Repaired items plan st) : Repaired items plan (ps.foldl (repair items) st) := by
  induction ps generalizing st with
  | nil => exact h
  | cons p ps ih =>
    exact ih (fun q hq => hps q (List.mem_cons_of_mem p hq)) (h.repair (hps p List.mem_cons_self))

theorem rebuild_spec (items : List String) (plan : List MergeGroup) :
    Groups items (List.range items.length) (rebuild items plan) ∧
      ∀ g ∈ rebuild items plan, 2 ≤ g.members.length → ∃ p ∈ plan, ∀ i ∈ g.members, (i : Int) ∈ p.members := by
  have hrepaired : Repaired items plan (plan.foldl (repair items) ([], [])) := by
    apply repaired_foldl plan fun p hp => hp
    exact ⟨⟨.refl _, by simp, by simp, by simp⟩, .nil, by simp, by simp, by simp⟩
  unfold rebuild
  generalize plan.foldl (repair items) ([], []) = st at hrepaired
  obtain ⟨claimed, out⟩ := st
  dsimp only
  have hsingle := @groups_single items ((List.range items.length).filter (· ∉ claimed))
  have hall := hrepaired.groups.append hsingle
  have hrange : (claimed ++ (List.range items.length).filter (· ∉ claimed)).Perm (List.range items.length) := by
    apply (List.perm_ext_iff_of_nodup ?_ List.nodup_range).mpr
    · intro i
      simp only [List.mem_append, List.mem_filter, List.mem_range, decide_not, Bool.not_eq_true',
        decide_eq_false_iff_not]
      constructor
      · rintro (hi | hi)
        · exact hrepaired.bounded i hi
        · exact hi.1
      · intro hi
        by_cases hmem : i ∈ claimed
        · exact Or.inl hmem
        · exact Or.inr ⟨hi, hmem⟩
    · apply List.nodup_append.mpr
      refine ⟨hrepaired.nodup, List.nodup_range.filter _, ?_⟩
      rintro i hi j hj rfl
      have hnot := (List.mem_filter.mp hj).2
      exact of_decide_eq_true hnot hi
  refine ⟨hall.perm (List.mergeSort_perm _ _) hrange, ?_⟩
  intro g hg hlarge
  rcases List.mem_append.mp ((List.mergeSort_perm _ _).mem_iff.mp hg) with hg | hg
  · exact hrepaired.named g hg
  · obtain ⟨i, -, rfl⟩ := List.mem_map.mp hg
    exact absurd hlarge (by show ¬2 ≤ 1; decide)

end Plan

/-! ## The groups of a cluster -/

section Adjudication
variable {σ : Type} {o : Options} {client : Client σ} {memo : Memo σ} {texts items : List String} {groups : List Group}
variable {s s' : σ}

/-- In one answer to the request about some items the model put the members into one group. -/
def NamedTogether (o : Options) (client : Client σ) (items : List String) (members : List Nat) : Prop :=
  ∃ s request plan p, mergeRequest o items = some request ∧ (client.ask s request).1 = .plan plan ∧ p ∈ plan ∧
    ∀ j ∈ members, (j : Int) ∈ p.members

structure Judged (o : Options) (client : Client σ) (items : List String) (groups : List Group) : Prop where
  partition : Groups items (List.range items.length) groups
  named : ∀ g ∈ groups, 2 ≤ g.members.length → NamedTogether o client items g.members

theorem judged_singletons (items : List String) : Judged o client items (singletons items) := by
  refine ⟨groups_single _, ?_⟩
  intro g hg hlarge
  obtain ⟨i, -, rfl⟩ := List.mem_map.mp hg
  exact absurd hlarge (by show ¬2 ≤ 1; decide)

theorem agentMerge_judged {answered : Bool} (h : agentMerge o client s items = some ((groups, answered), s')) :
    Judged o client items groups := by
  unfold agentMerge at h
  split at h
  · simp only [Option.some.injEq, Prod.mk.injEq] at h
    obtain ⟨⟨rfl, -⟩, -⟩ := h
    exact judged_singletons items
  · split at h
    · simp only [Option.some.injEq, Prod.mk.injEq] at h
      obtain ⟨⟨rfl, -⟩, -⟩ := h
      exact judged_singletons items
    · rename_i request hrequest
      split at h
      · cases h
      · simp only [Option.some.injEq, Prod.mk.injEq] at h
        obtain ⟨⟨rfl, -⟩, -⟩ := h
        exact judged_singletons items
      · rename_i plan s₁ hask
        simp only [Option.some.injEq, Prod.mk.injEq] at h
        obtain ⟨⟨rfl, -⟩, -⟩ := h
        obtain ⟨hgroups, hnamed⟩ := rebuild_spec items plan
        refine ⟨hgroups, fun g hg hlarge => ?_⟩
        obtain ⟨p, hp, hmembers⟩ := hnamed g hg hlarge
        exact ⟨s, request, plan, p, hrequest, by rw [hask], hp, hmembers⟩

theorem memoizedAgentMerge_judged (h : memoizedAgentMerge o memo client s items = some (groups, s')) :
    Judged o client items groups := by
  unfold memoizedAgentMerge at h
  dsimp only at h
  split at h
  · obtain ⟨rfl, -⟩ := Prod.mk.inj (Option.some.inj h)
    exact judged_singletons items
  · obtain ⟨⟨⟨groups', answered⟩, s₁⟩, hmerge, heq⟩ := Option.map_eq_some_iff.mp h
    have hgroups : groups' = groups := by
      revert heq
      dsimp only
      split
      · exact fun heq => (Prod.mk.inj heq).1
      · exact fun heq => (Prod.mk.inj heq).1
    rw [← hgroups]
    exact agentMerge_judged hmerge

theorem map_getD_range (cl : List Nat) : (List.range cl.length).map (fun j => cl.getD j 0) = cl := by
  apply List.ext_getElem
  · simp
  · intro j hj hj'
    rw [List.getElem_map, List.getElem_range, List.getD_eq_getElem _ _ hj']

theorem Groups.relabel {cl : List Nat} (hcl : cl.Pairwise (· < ·))
    (h : Groups (cl.map fun i => texts.getD i "") (List.range cl.length) groups) :
    Groups texts cl (groups.map fun g => { g with members := g.members.map fun j => cl.getD j 0 }) := by
  have hlt {g : Group} (hg : g ∈ groups) {j : Nat} (hj : j ∈ g.members) : j < cl.length := by
    apply List.mem_range.mp
    apply h.covers.mem_iff.mp
    exact List.mem_flatMap.mpr ⟨g, hg, hj⟩
  refine ⟨?_, ?_, ?_, ?_⟩
  · have hmap : allMembers (groups.map fun g => { g with members := g.members.map fun j => cl.getD j 0 }) =
        (allMembers groups).map fun j => cl.getD j 0 := by
      unfold allMembers
      rw [List.flatMap_map, List.map_flatMap]
    have hperm := h.covers.map fun j => cl.getD j 0
    rw [map_getD_range] at hperm
    rw [hmap]
    exact hperm
  · intro g' hg'
    obtain ⟨g, hg, rfl⟩ := List.mem_map.mp hg'
    apply List.pairwise_map.mpr
    apply (h.ascends g hg).imp_of_mem
    intro a b ha hb hab
    rw [List.getD_eq_getElem _ _ (hlt hg ha), List.getD_eq_getElem _ _ (hlt hg hb)]
    exact List.pairwise_iff_getElem.mp hcl a b _ _ hab
  · intro g' hg' hnil
    obtain ⟨g, hg, rfl⟩ := List.mem_map.mp hg'
    exact h.filled g hg (List.map_eq_nil_iff.mp hnil)
  · intro g' hg' i hi
    obtain ⟨g, hg, rfl⟩ := List.mem_map.mp hg'
    obtain ⟨j, hj, rfl⟩ := List.map_eq_singleton_iff.mp hi
    have hjlt : j < cl.length := hlt hg (by rw [hj]; exact List.mem_cons_self)
    show g.merged = _
    rw [h.own g hg j hj, List.getD_eq_getElem _ _ (by rw [List.length_map]; exact hjlt), List.getElem_map,
      List.getD_eq_getElem _ _ hjlt]

/-- The members were named together where their cluster was shown. -/
def NamedIn (o : Options) (client : Client σ) (texts : List String) (cls : List (List Nat)) (members : List Nat) : Prop :=
  ∃ cl ∈ cls, ∃ js, members = js.map (fun j => cl.getD j 0) ∧ (∀ j ∈ js, j < cl.length) ∧
    NamedTogether o client (cl.map fun i => texts.getD i "") js

theorem adjudicate_spec {memo : Option (Memo σ)} {cl : List Nat} (hcl : cl.Pairwise (· < ·)) (hne : cl ≠ [])
    (h : adjudicate o memo client texts s cl = some (groups, s')) :
    Groups texts cl groups ∧ ∀ g ∈ groups, 2 ≤ g.members.length → NamedIn o client texts [cl] g.members := by
  unfold adjudicate at h
  split at h
  · rename_i hshort
    obtain ⟨rfl, -⟩ := Prod.mk.inj (Option.some.inj h)
    obtain ⟨i, rest, rfl⟩ := List.exists_cons_of_ne_nil hne
    have hrest : rest = [] := by
      rw [List.length_cons] at hshort
      exact List.length_eq_zero_iff.mp (by omega)
    subst hrest
    exact ⟨groups_single [i], fun g hg hlarge => by
      rw [List.mem_singleton.mp hg] at hlarge
      exact absurd hlarge (by show ¬2 ≤ 1; decide)⟩
  · obtain ⟨⟨groups', s₁⟩, hmerged, heq⟩ := Option.map_eq_some_iff.mp h
    obtain ⟨rfl, -⟩ := Prod.mk.inj heq
    have hjudged : Judged o client (cl.map fun i => texts.getD i "") groups' := by
      cases memo with
      | none =>
        obtain ⟨⟨⟨groups'', answered⟩, s₂⟩, hmerge, heq'⟩ := Option.map_eq_some_iff.mp hmerged
        obtain ⟨rfl, -⟩ := Prod.mk.inj heq'
        exact agentMerge_judged hmerge
      | some memo => exact memoizedAgentMerge_judged hmerged
    have hgroups := hjudged.partition
    rw [List.length_map] at hgroups
    refine ⟨hgroups.relabel hcl, fun g hg hlarge => ?_⟩
    obtain ⟨g', hg', rfl⟩ := List.mem_map.mp hg
    refine ⟨cl, List.mem_cons_self, g'.members, rfl, fun j hj => ?_, hjudged.named g' hg' ?_⟩
    · apply List.mem_range.mp
      apply hgroups.covers.mem_iff.mp
      exact List.mem_flatMap.mpr ⟨g', hg', hj⟩
    · rwa [List.length_map] at hlarge

theorem adjudicateAll_spec {memo : Option (Memo σ)} {cls : List (List Nat)}
    (hcls : ∀ cl ∈ cls, cl.Pairwise (· < ·) ∧ cl ≠ [])
    (h : adjudicateAll o memo client texts s cls = some (groups, s')) :
    Groups texts cls.flatten groups ∧ ∀ g ∈ groups, 2 ≤ g.members.length → NamedIn o client texts cls g.members := by
  induction cls generalizing s s' groups with
  | nil =>
    obtain ⟨rfl, -⟩ := Prod.mk.inj (Option.some.inj h)
    exact ⟨⟨.refl _, by simp, by simp, by simp⟩, by simp⟩
  | cons cl rest ih =>
    obtain ⟨⟨first, s₁⟩, hfirst, hrest⟩ := Option.bind_eq_some_iff.mp h
    obtain ⟨⟨more, s₂⟩, hmore, heq⟩ := Option.map_eq_some_iff.mp hrest
    obtain ⟨rfl, -⟩ := Prod.mk.inj heq
    obtain ⟨hcl, hne⟩ := hcls cl List.mem_cons_self
    obtain ⟨hgroups, hnamed⟩ := adjudicate_spec hcl hne hfirst
    obtain ⟨hgroups', hnamed'⟩ := ih (fun cl hcl => hcls cl (List.mem_cons_of_mem _ hcl)) hmore
    refine ⟨hgroups.append hgroups', fun g hg hlarge => ?_⟩
    rcases List.mem_append.mp hg with hg | hg
    · obtain ⟨cl', hcl', js, hjs⟩ := hnamed g hg hlarge
      rw [List.mem_singleton.mp hcl'] at hjs
      exact ⟨cl, List.mem_cons_self, js, hjs⟩
    · obtain ⟨cl', hcl', js, hjs⟩ := hnamed' g hg hlarge
      exact ⟨cl', List.mem_cons_of_mem cl hcl', js, hjs⟩

theorem adjudicateAll_isSome {memo : Option (Memo σ)} (hask : ∀ s request, (client.ask s request).1 ≠ .budgetExceeded)
    (cls : List (List Nat)) (s : σ) : (adjudicateAll o memo client texts s cls).isSome = true := by
  have hmerge (s : σ) (items : List String) : (agentMerge o client s items).isSome = true := by
    unfold agentMerge
    split
    · rfl
    · split
      · rfl
      · rename_i request _
        split
        · rename_i s₁ hanswer
          exact absurd (congrArg Prod.fst hanswer) (hask s request)
        · rfl
        · rfl
  have hcluster (s : σ) (cl : List Nat) : (adjudicate o memo client texts s cl).isSome = true := by
    unfold adjudicate
    split
    · rfl
    · rw [Option.isSome_map]
      cases memo with
      | none => rw [Option.isSome_map, hmerge]
      | some memo =>
        show (memoizedAgentMerge o memo client s _).isSome = true
        unfold memoizedAgentMerge
        dsimp only
        split
        · rfl
        · rw [Option.isSome_map, hmerge]
  induction cls generalizing s with
  | nil => rfl
  | cons cl rest ih =>
    obtain ⟨⟨first, s₁⟩, hfirst⟩ := Option.isSome_iff_exists.mp (hcluster s cl)
    unfold adjudicateAll
    rw [hfirst, Option.bind_some, Option.isSome_map, ih]

variable {S V : Type} [LT S] [DecidableLT S] [DecidableEq S] [Zero S]

/-- Consolidation partitions the indices into ascending groups in the order of their first members; a larger group
is connected and was named together by the model, a single one keeps its text. It ends with groups unless a call
hits the ceiling of the budget, and without a client every text is its own. -/
theorem consolidate_partitions (o : Options) (retrieval : Retrieval S V) (texts : List String)
    (client : Option (Client σ)) (memo : Option (Memo σ)) (k : Nat) (s : σ) :
    ((∀ c ∈ client, ∀ s request, (c.ask s request).1 ≠ .budgetExceeded) →
      (consolidate o retrieval texts client memo k s).isSome = true) ∧
    (client = none → consolidate o retrieval texts client memo k s = some (singletons texts, s)) ∧
    (∀ groups s', consolidate o retrieval texts client memo k s = some (groups, s') →
      Groups texts (List.range texts.length) groups ∧
      groups.Pairwise (fun g h => g.members.headD 0 < h.members.headD 0) ∧
      ∀ g ∈ groups, 2 ≤ g.members.length →
        (∀ a ∈ g.members, ∀ b ∈ g.members, Relation.ReflTransGen (Linked retrieval texts k) a b) ∧
        ∃ c ∈ client, NamedIn o c texts (clusterNearDuplicates retrieval texts k) g.members) ∧
    ∀ i, (near retrieval texts k i).length ≤ k ∧ ∀ j ∈ near retrieval texts k i,
      j ≠ i ∧ j < texts.length ∧ 2 ≤ (places (rankings retrieval texts (texts.getD i "")) j).length := by
  have hsingle : (singletons texts).Pairwise (fun g h => g.members.headD 0 < h.members.headD 0) := by
    apply List.pairwise_map.mpr
    exact List.pairwise_lt_range
  have hsmall (g : Group) (hg : g ∈ singletons texts) : ¬2 ≤ g.members.length := by
    obtain ⟨i, -, rfl⟩ := List.mem_map.mp hg
    show ¬2 ≤ 1
    decide
  refine ⟨?_, ?_, ?_, fun i => near_spec⟩
  · intro hask
    cases client with
    | none => rfl
    | some client =>
      unfold consolidate
      dsimp only
      split
      · rfl
      · rw [Option.isSome_map]
        exact adjudicateAll_isSome (hask client rfl) _ s
  · rintro rfl
    rfl
  · intro groups s' h
    unfold consolidate at h
    cases client with
    | none =>
      obtain ⟨rfl, -⟩ := Prod.mk.inj (Option.some.inj h)
      exact ⟨groups_single _, hsingle, fun g hg hlarge => absurd hlarge (hsmall g hg)⟩
    | some client =>
      dsimp only at h
      split at h
      · obtain ⟨rfl, -⟩ := Prod.mk.inj (Option.some.inj h)
        exact ⟨groups_single _, hsingle, fun g hg hlarge => absurd hlarge (hsmall g hg)⟩
      · rename_i hn
        obtain ⟨⟨out, s₁⟩, hout, heq⟩ := Option.map_eq_some_iff.mp h
        obtain ⟨rfl, -⟩ := Prod.mk.inj heq
        obtain ⟨hperm, hclusters⟩ := @clusters_spec S V _ _ _ _ retrieval texts k hn
        obtain ⟨hgroups, hnamed⟩ := adjudicateAll_spec (fun cl hcl => ⟨(hclusters cl hcl).ascends, (hclusters cl hcl).filled⟩) hout
        have hrange : Groups texts (List.range texts.length) out := hgroups.perm (.refl out) hperm
        refine ⟨hrange.perm (List.mergeSort_perm _ _) (.refl _), byFirst_ordered hrange List.nodup_range, ?_⟩
        intro g hg hlarge
        have hin := hnamed g ((List.mergeSort_perm _ _).mem_iff.mp hg) hlarge
        refine ⟨?_, client, rfl, hin⟩
        obtain ⟨cl, hcl, js, hmembers, hlt, -⟩ := hin
        have hmem (a : Nat) (ha : a ∈ g.members) : a ∈ cl := by
          rw [hmembers] at ha
          obtain ⟨j, hj, rfl⟩ := List.mem_map.mp ha
          rw [List.getD_eq_getElem _ _ (hlt j hj)]
          exact List.getElem_mem _
        exact fun a ha b hb => (hclusters cl hcl).connected a (hmem a ha) b (hmem b hb)

end Adjudication

/-! ## Two equal texts -/

/-- Every signal is one for equal texts and zero for others. -/
def exactRetrieval : Retrieval Nat String where
  tokens text := [text]
  embed text := text
  cosine a b := if a = b then 1 else 0
  bm25 docs query := docs.map fun doc => if doc = query then 1 else 0
  quotient a b := a / b
  fuse ranks := ranks.length

def twins : List String := ["use dropout", "use dropout"]

theorem twins_rankings : rankings exactRetrieval twins "use dropout" = [[0, 1], [0, 1], [0, 1]] := by
  have hsort : ([(0, 1), (1, 1)] : List (Nat × Nat)).mergeSort before = [(0, 1), (1, 1)] :=
    List.mergeSort_of_pairwise (by decide)
  have hrank : rank ([1, 1] : List Nat) = [0, 1] := congrArg (List.map Prod.fst) hsort
  show [rank [1, 1], rank [1, 1], rank [1, 1]] = _
  rw [hrank]

theorem twins_near : near exactRetrieval twins 6 0 = [1] ∧ near exactRetrieval twins 6 1 = [0] := by
  constructor
  · unfold near candidates
    rw [show twins.getD 0 "" = "use dropout" from rfl, twins_rankings]
    show ((([(1, 3)] : List (Nat × Nat)).mergeSort before).take 6).map Prod.fst = [1]
    rw [List.mergeSort_singleton]
    rfl
  · unfold near candidates
    rw [show twins.getD 1 "" = "use dropout" from rfl, twins_rankings]
    show ((([(0, 3)] : List (Nat × Nat)).mergeSort before).take 6).map Prod.fst = [0]
    rw [List.mergeSort_singleton]
    rfl

theorem twins_clusters : clusterNearDuplicates exactRetrieval twins 6 = [[0, 1]] := by
  have hadjacency : adjacency exactRetrieval twins 6 = [(0, 1), (1, 0)].foldl link (singles 2) := by
    show ([0, 1].flatMap fun i => (near exactRetrieval twins 6 i).map fun j => (i, j)).foldl link (singles 2) = _
    simp only [List.flatMap_cons, List.flatMap_nil, twins_near.1, twins_near.2]
    rfl
  have hnext : ∀ i < 2, (([(0, 1), (1, 0)].foldl link (singles 2)).get i).getD [] = [1 - i] := by decide +kernel
  have hsweep : sweep ([(0, 1), (1, 0)].foldl link (singles 2)) [0, 1] [] = [[0, 1]] := by
    generalize [(0, 1), (1, 0)].foldl link (singles 2) = graph at hnext
    have hzero := hnext 0 (by decide)
    have hone := hnext 1 (by decide)
    simp [sweep, explore, hzero, hone]
  show (sweep (adjacency exactRetrieval twins 6) [0, 1] []).map ascending = _
  rw [hadjacency, hsweep]
  show [ascending [0, 1]] = _
  rw [show ascending [0, 1] = [0, 1] from List.mergeSort_of_pairwise (by decide)]

/-- Lessons without a goal under the built-in prompt. -/
def plainOptions : Options := ⟨"lessons", "", fun kind detail => some (kind ++ detail)⟩

/-- A call that hits the ceiling of the budget leaves no groups. -/
theorem ceiling_leaves_no_groups :
    ¬∀ (σ : Type) (o : Options) (retrieval : Retrieval Nat String) (texts : List String) (client : Option (Client σ))
      (memo : Option (Memo σ)) (k : Nat) (s : σ), (consolidate o retrieval texts client memo k s).isSome = true := by
  intro h
  have hsome := h Unit plainOptions exactRetrieval twins (some ⟨fun _ _ => (.budgetExceeded, ())⟩) none 6 ()
  have hnone : consolidate plainOptions exactRetrieval twins
      (some (⟨fun _ _ => (.budgetExceeded, ())⟩ : Client Unit)) none 6 () = none := by
    show (adjudicateAll plainOptions none _ twins () (clusterNearDuplicates exactRetrieval twins 6)).map _ = none
    rw [twins_clusters]
    rfl
  rw [hnone] at hsome
  cases hsome

/-- A model that merges the two. -/
def merging : Client Unit := ⟨fun _ _ => (.plan [⟨[0, 1, 7], "dropout"⟩], ())⟩

theorem twins_consolidated :
    ∃ groups, consolidate plainOptions exactRetrieval twins (some merging) none 6 () = some (groups, ()) ∧
      Groups twins (List.range 2) groups := by
  obtain ⟨hsome, -, hspec, -⟩ :=
    consolidate_partitions plainOptions exactRetrieval twins (some merging) none 6 ()
  have hasked : ∀ c ∈ some merging, ∀ s request, (c.ask s request).1 ≠ .budgetExceeded := by
    rintro c hc s request hanswer
    obtain rfl := Option.some.inj hc
    cases hanswer
  obtain ⟨⟨groups, s⟩, hgroups⟩ := Option.isSome_iff_exists.mp (hsome hasked)
  exact ⟨groups, hgroups, (hspec groups s hgroups).1⟩

end LoopLab.HybridMerge
