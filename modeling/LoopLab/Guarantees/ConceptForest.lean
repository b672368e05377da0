import LoopLab.Concepts.Forest
import LoopLab.Guarantees.ConceptMap

/-!
# Every concept tree is a forest

A parent is only given to a point that its chain does not come back to, so every chain ends, and the visits of both
passes give each node the length of its chain.
-/

set_option autoImplicit false

namespace LoopLab.Concepts
open Lib Serve

/-- Nodes under roots: the children are those with that parent, and the depth is the way to the one root above. -/
structure Forest (roots : List String) (nodes : Table TreeNode.id) : Prop where
  acyclic : ∀ cid, ¬LeadsOn (parentIn nodes) cid cid
  inside : ∀ cid parent, parentIn nodes cid = some parent → nodes.has parent = true
  children : ∀ node ∈ nodes.rows, node.children.Nodup ∧ ∀ c, c ∈ node.children ↔ parentIn nodes c = some node.id
  tops : roots.Nodup ∧ ∀ cid, cid ∈ roots ↔ ∃ node ∈ nodes.rows, node.id = cid ∧ node.parent = none
  reached : ∀ node ∈ nodes.rows, ∃ root ∈ roots, anc (parentIn nodes) node.depth node.id = some root ∧
    ∀ other ∈ roots, Leads (parentIn nodes) node.id other → other = root

section Forests
variable {nodes : Table TreeNode.id} {roots : List String} {node : TreeNode} {cid parent : String}

theorem parentIn_of_mem (h : node ∈ nodes.rows) : parentIn nodes node.id = node.parent := by
  unfold parentIn
  rw [Table.get_of_mem h]
  rfl

theorem mem_of_parentIn (h : parentIn nodes cid = some parent) : ∃ node ∈ nodes.rows, node.id = cid ∧ node.parent = some parent := by
  obtain ⟨node, hget, hparent⟩ := Option.bind_eq_some_iff.mp h
  exact ⟨node, Table.mem_of_get hget, Table.key_of_get hget, hparent⟩

theorem forest_of_levels (hends : ∀ cid, Ends (parentIn nodes) cid)
    (hinside : ∀ cid parent, parentIn nodes cid = some parent → nodes.has parent = true)
    (hchildren : ∀ node ∈ nodes.rows, node.children.Nodup ∧ ∀ c, c ∈ node.children ↔ parentIn nodes c = some node.id)
    (hroots : roots.Nodup ∧ ∀ cid, cid ∈ roots ↔ ∃ node ∈ nodes.rows, node.id = cid ∧ node.parent = none)
    (hlevel : ∀ node ∈ nodes.rows, Level (parentIn nodes) node.id node.depth) : Forest roots nodes := by
  refine ⟨fun cid => (hends cid).not_cycle, hinside, hchildren, hroots, ?_⟩
  intro node hnode
  obtain ⟨root, hanc, hnone⟩ := hlevel node hnode
  have hleads {n : Nat} {x y : String} (h : anc (parentIn nodes) n x = some y) : Leads (parentIn nodes) x y := by
    induction n generalizing x with
    | zero =>
      cases h
      exact .refl
    | succ n ih =>
      cases hx : parentIn nodes x with
      | none =>
        rw [anc_succ_none hx] at h
        cases h
      | some z =>
        rw [anc_succ_of hx] at h
        exact .head hx (ih h)
  have hin : ∃ top ∈ nodes.rows, top.id = root := by
    rcases Relation.ReflTransGen.cases_tail (hleads hanc) with heq | ⟨below, -, hstep⟩
    · exact ⟨node, hnode, heq.symm⟩
    · obtain ⟨top, htop⟩ := Option.isSome_iff_exists.mp (hinside below root hstep)
      exact ⟨top, Table.mem_of_get htop, Table.key_of_get htop⟩
  obtain ⟨top, htop, rfl⟩ := hin
  refine ⟨top.id, (hroots.2 _).mpr ⟨top, htop, rfl, ?_⟩, hanc, ?_⟩
  · rw [← parentIn_of_mem htop, hnone]
  · intro other hother hway
    obtain ⟨last, hlast, rfl, hend⟩ := (hroots.2 other).mp hother
    have hstop : parentIn nodes last.id = none := by rw [parentIn_of_mem hlast, hend]
    exact (EndsAt.of_leads hway (.stop hstop)).unique (EndsAt.of_leads (hleads hanc) (.stop hnone))

theorem parentIn_of_rows {ids : List String} {f : String → TreeNode} (hrows : nodes.rows = ids.map f)
    (hid : ∀ cid, (f cid).id = cid) : parentIn nodes cid = if cid ∈ ids then (f cid).parent else none := by
  split
  · rename_i hin
    have hmem : f cid ∈ nodes.rows := hrows ▸ List.mem_map_of_mem hin
    rw [← parentIn_of_mem hmem, hid]
  · rename_i hout
    have hnone : nodes.get cid = none := by
      apply Table.get_eq_none.mpr
      intro node hnode heq
      rw [hrows] at hnode
      obtain ⟨c, hc, rfl⟩ := List.mem_map.mp hnode
      rw [hid] at heq
      exact hout (heq ▸ hc)
    unfold parentIn
    rw [hnone]
    rfl

theorem has_of_rows {ids : List String} {f : String → TreeNode} (hrows : nodes.rows = ids.map f)
    (hid : ∀ cid, (f cid).id = cid) (h : cid ∈ ids) : nodes.has cid = true := by
  have hmem : f cid ∈ nodes.rows := hrows ▸ List.mem_map_of_mem h
  unfold Table.has
  rw [← hid cid, Table.get_of_mem hmem]
  rfl

end Forests

/-! ## The greedy parents of a lens -/

section Greedy
variable {parentOf : Dict String String} {cands : List Candidate} {allIds seen : List String} {child cid x p : String}

theorem get_set_eq_update (parentOf : Dict String String) (cid p : String) :
    (parentOf.set cid p).get = Function.update parentOf.get cid (some p) := by
  funext x
  rw [Dict.get_set, Function.update_apply]

theorem wouldCycle_iff (hends : Ends parentOf.get x) (hseen : ∀ y ∈ seen, LeadsOn parentOf.get y x) :
    wouldCycle parentOf child seen x = true ↔ Leads parentOf.get x child := by
  induction hends generalizing seen with
  | @stop x hnone =>
    unfold wouldCycle
    rw [dif_neg fun hin => (Ends.stop hnone).not_cycle (hseen x hin)]
    split
    · rename_i heq
      exact iff_of_true rfl (heq ▸ .refl)
    · rename_i hne
      split
      · apply iff_of_false Bool.false_ne_true
        intro hleads
        rcases Relation.ReflTransGen.cases_head hleads with heq | ⟨y, hstep, -⟩
        · exact hne heq
        · rw [hnone] at hstep
          cases hstep
      · rename_i y hget
        rw [hnone] at hget
        cases hget
  | @step x y hxy hy ih =>
    unfold wouldCycle
    rw [dif_neg fun hin => (Ends.step hxy hy).not_cycle (hseen x hin)]
    split
    · rename_i heq
      exact iff_of_true rfl (heq ▸ .refl)
    · rename_i hne
      split
      · rename_i hget
        rw [hxy] at hget
        cases hget
      · rename_i z hget
        obtain rfl := Option.some.inj (hxy.symm.trans hget)
        rw [ih]
        · constructor
          · exact fun h => .head hxy h
          · intro h
            rcases Relation.ReflTransGen.cases_head h with heq | ⟨w, hstep, hrest⟩
            · exact absurd heq hne
            · obtain rfl := Option.some.inj (hxy.symm.trans hstep)
              exact hrest
        · intro w hw
          rcases List.mem_cons.mp hw with rfl | hw
          · exact .single hxy
          · exact (hseen w hw).tail hxy

structure Assigned (cands : List Candidate) (allIds : List String) (parentOf : Dict String String) : Prop where
  ends : ∀ x, Ends parentOf.get x
  given : ∀ x p, parentOf.get x = some p → x ∈ allIds ∧ p ∈ allIds ∧ ∃ c ∈ cands, c.child = x ∧ c.parent = p

theorem assignParent_keeps (h : Assigned cands allIds parentOf) (hcid : cid ∈ allIds) :
    Assigned cands allIds (assignParent cands allIds parentOf cid) := by
  unfold assignParent
  split
  · rename_i c hfind
    have hmem := List.mem_mergeSort.mp (List.mem_of_find?_eq_some hfind)
    obtain ⟨hcand, hchild⟩ := List.mem_filter.mp hmem
    have hok := List.find?_some hfind
    rw [Bool.and_eq_true, decide_eq_true_eq, Bool.not_eq_true'] at hok
    obtain ⟨hparent, hcycle⟩ := hok
    have hnot : ¬Leads parentOf.get c.parent cid := by
      intro hleads
      rw [(wouldCycle_iff (h.ends c.parent) (by simp)).mpr hleads] at hcycle
      cases hcycle
    constructor
    · rw [get_set_eq_update]
      exact Ends.update h.ends hnot
    · intro x p hget
      rw [Dict.get_set] at hget
      split at hget
      · rename_i heq
        rw [heq]
        exact ⟨hcid, Option.some.inj hget ▸ hparent, c, hcand, of_decide_eq_true hchild, Option.some.inj hget⟩
      · exact h.given x p hget
  · exact h

theorem assigned_foldl {rest : List String} (h : Assigned cands allIds parentOf) (hrest : ∀ cid ∈ rest, cid ∈ allIds) :
    Assigned cands allIds (rest.foldl (assignParent cands allIds) parentOf) := by
  induction rest generalizing parentOf with
  | nil => exact h
  | cons cid rest ih =>
    rw [List.foldl_cons]
    exact ih (assignParent_keeps h (hrest cid List.mem_cons_self)) fun c hc => hrest c (List.mem_cons_of_mem cid hc)

theorem assigned_empty : Assigned cands allIds Table.empty where
  ends x := .stop (Dict.get_empty x)
  given := by
    intro x p h
    rw [Dict.get_empty] at h
    cases h

theorem assigned_lensParents (tagged : List String) (cands : List Candidate) :
    Assigned cands (lensIds tagged cands) (lensParents tagged cands) :=
  assigned_foldl assigned_empty fun _ h => h

end Greedy

/-! ## The depths of a lens -/

section Depths
variable {up : String → Option String} {ids : List String} {fuel : Nat}

theorem depthLoop_spec (hids : ids.Nodup) {queue : List (String × Nat)} {depth : Dict String Nat}
    (h : Visiting up ids queue depth.rows) (hfuel : ids.length ≤ depth.rows.length + fuel) :
    ∃ depth', depthLoop (childrenIn up ids) fuel queue depth = some depth' ∧ Visiting up ids [] depth'.rows := by
  induction fuel generalizing queue depth with
  | zero =>
    cases queue with
    | nil => exact ⟨depth, rfl, h⟩
    | cons p queue =>
      have hle := h.length_le
      rw [List.length_cons] at hle
      omega
  | succ fuel ih =>
    cases queue with
    | nil => exact ⟨depth, rfl, h⟩
    | cons p queue =>
      obtain ⟨cid, d⟩ := p
      have hnew : depth.get cid = none := by
        by_contra hget
        have hnodup := h.once
        rw [List.cons_append, List.map_cons, List.map_append] at hnodup
        exact (List.nodup_cons.mp hnodup).1 (List.mem_append_right _ (Dict.mem_keys.mpr hget))
      have hrows : (depth.set cid d).rows = depth.rows ++ [(cid, d)] :=
        Table.rows_put_of_none (Option.map_eq_none_iff.mp hnew)
      unfold depthLoop
      rw [if_neg (by simp [hnew])]
      apply ih
      · rw [hrows]
        exact h.visit hids
      · rw [hrows, List.length_append, List.length_singleton]
        omega

theorem depths_of_visit {done : Dict String Nat} (h : Visiting up ids [] done.rows)
    (hup : ∀ x ∈ ids, ∀ y, up x = some y → y ∈ ids) (hends : ∀ x, Ends up x) {cid : String} (hcid : cid ∈ ids) :
    Level up cid ((done.get cid).getD 0) := by
  have hdone := h.complete hup hcid (hends cid)
  obtain ⟨d, hd⟩ := Option.ne_none_iff_exists'.mp (Dict.mem_keys.mp hdone)
  rw [hd]
  exact h.level (cid, d) (Dict.mem_rows.mpr hd)

end Depths

/-! ## Lens trees -/

/-- The edge is one of the lens, between the child and the parent. -/
def Proposes (letters : Letters) (lens : Lens) (e : ConceptEdge) (child parent : String) : Prop :=
  (∀ names, lensRels lens = some names → e.rel ∈ names) ∧
    ((normalizeConceptId letters (.str e.src) = some child ∧ normalizeConceptId letters (.str e.dst) = some parent) ∨
      e.rel ∈ SYMMETRIC_RELS ∧ normalizeConceptId letters (.str e.src) = some parent ∧
        normalizeConceptId letters (.str e.dst) = some child)

/-- The tree of a lens: a forest of given edges that shows no order of theirs. -/
structure LensSound (letters : Letters) (conceptIds : List Json) (edges : List ConceptEdge) (lens : Lens)
    (touch : Dict String Int) (tree : LensTree) : Prop where
  forest : Forest tree.roots (Table.image tree.nodes TreeNode.id LensNode.toTreeNode fun _ => rfl)
  given : ∀ node ∈ tree.nodes.rows, ∀ parent, node.parent = some parent →
    ∃ e ∈ edges, Proposes letters lens e node.id parent
  unordered : ∀ edges', edges.Perm edges' → projectLens letters conceptIds edges' lens touch = some tree

section LensTrees
variable {letters : Letters} {conceptIds : List Json} {edges : List ConceptEdge} {lens : Lens} {touch : Dict String Int}
variable {tagged : List String} {cands cands' : List Candidate}

theorem proposes_of_candidate {e : ConceptEdge} {c : Candidate}
    (h : edgeCandidate letters (lensRels lens) touch e = some c) : Proposes letters lens e c.child c.parent := by
  unfold edgeCandidate at h
  split at h
  · cases h
  · rename_i hrels
    split at h
    · rename_i src dst hsrc hdst
      split at h
      · cases h
      · have hin : ∀ names, lensRels lens = some names → e.rel ∈ names := by
          intro names hnames
          rw [hnames] at hrels
          simpa using hrels
        refine ⟨hin, ?_⟩
        rw [← Option.some.inj h]
        dsimp only
        by_cases hsymmetric : e.rel ∈ SYMMETRIC_RELS
        · rw [if_pos hsymmetric]
          by_cases hhub : hub touch src dst = src
          · rw [if_pos hhub, hhub]
            exact Or.inr ⟨hsymmetric, hsrc, hdst⟩
          · have hother : hub touch src dst = dst := by
              unfold hub at hhub ⊢
              grind
            rw [if_neg hhub, hother]
            exact Or.inl ⟨hsrc, hdst⟩
        · rename_i hne
          rw [if_neg hsymmetric, if_neg (Ne.symm hne)]
          exact Or.inl ⟨hsrc, hdst⟩
    · cases h

theorem candidatesOf_perm (h : cands.Perm cands') : candidatesOf cands = candidatesOf cands' := by
  funext cid
  unfold candidatesOf
  have hperm := h.filter (·.child = cid)
  have htrans (a b c : Candidate) (hab : candidateLe a b = true) (hbc : candidateLe b c = true) :
      candidateLe a c = true := by
    simp only [candidateLe, Bool.or_eq_true, Bool.and_eq_true, decide_eq_true_eq] at *
    grind
  have htotal (a b : Candidate) : (candidateLe a b || candidateLe b a) = true := by
    simp only [candidateLe, Bool.or_eq_true, Bool.and_eq_true, decide_eq_true_eq]
    grind
  apply List.Perm.eq_of_pairwise ?_ (List.pairwise_mergeSort htrans htotal _) (List.pairwise_mergeSort htrans htotal _)
  · exact ((List.mergeSort_perm _ _).trans hperm).trans (List.mergeSort_perm _ _).symm
  · intro a b ha hb hab hba
    have hchild := (List.mem_filter.mp (List.mem_mergeSort.mp ha)).2
    have hchild' := (List.mem_filter.mp (List.mem_mergeSort.mp hb)).2
    simp only [candidateLe, Bool.or_eq_true, Bool.and_eq_true, decide_eq_true_eq] at hab hba hchild hchild'
    obtain ⟨child, confidence, parent⟩ := a
    obtain ⟨child', confidence', parent'⟩ := b
    grind

theorem lensTree_perm (h : cands.Perm cands') (label : String) : lensTree label tagged cands = lensTree label tagged cands' := by
  have hids : lensIds tagged cands = lensIds tagged cands' := by
    apply linearBool_string.set_congr
    intro cid
    simp only [List.mem_append, List.mem_flatMap, h.mem_iff]
  have hassign : assignParent cands = assignParent cands' := by
    funext allIds parentOf cid
    unfold assignParent
    rw [candidatesOf_perm h]
  have hparents : lensParents tagged cands = lensParents tagged cands' := by
    unfold lensParents
    rw [hids, hassign]
  have hnode : lensNode tagged cands = lensNode tagged cands' := by
    funext depth cid
    unfold lensNode
    rw [hparents, hids, candidatesOf_perm h]
  unfold lensTree
  simp only [hids, hparents, hnode]

theorem lensTree_spec (label : String) : ∃ tree, lensTree label tagged cands = some tree ∧
    Forest tree.roots (Table.image tree.nodes TreeNode.id LensNode.toTreeNode fun _ => rfl) ∧
    ∀ node ∈ tree.nodes.rows, ∀ parent, node.parent = some parent → ∃ c ∈ cands, c.child = node.id ∧ c.parent = parent := by
  obtain ⟨hends, hgiven⟩ := assigned_lensParents tagged cands
  have hids := nodup_lensIds tagged cands
  have hinside : ∀ x ∈ lensIds tagged cands, ∀ y, (lensParents tagged cands).get x = some y → y ∈ lensIds tagged cands :=
    fun x _ y h => (hgiven x y h).2.1
  obtain ⟨depth, hloop, hvisit⟩ := @depthLoop_spec _ _ _ hids
    _ Table.empty (Visiting.start hids) (Nat.le_add_left _ _)
  refine ⟨_, congrArg (Option.map _) hloop, ?_, ?_⟩
  · have hrows : (Table.image (Table.image (Table.ofKeys (lensIds tagged cands) hids) (fun node : LensNode => node.id)
        (lensNode tagged cands depth) fun _ => rfl) TreeNode.id LensNode.toTreeNode fun _ => rfl).rows =
          (lensIds tagged cands).map fun cid => (lensNode tagged cands depth cid).toTreeNode := List.map_map
    generalize Table.image (Table.image (Table.ofKeys (lensIds tagged cands) hids) (fun node : LensNode => node.id)
        (lensNode tagged cands depth) fun _ => rfl) TreeNode.id LensNode.toTreeNode (fun _ => rfl) = nodes at hrows
    have hparent : parentIn nodes = (lensParents tagged cands).get := by
      funext cid
      rw [parentIn_of_rows hrows fun _ => rfl]
      split
      · rfl
      · rename_i hout
        symm
        by_contra hsome
        obtain ⟨p, hp⟩ := Option.ne_none_iff_exists'.mp hsome
        exact hout (hgiven cid p hp).1
    have hmem {node : TreeNode} (h : node ∈ nodes.rows) : ∃ cid ∈ lensIds tagged cands,
        node = (lensNode tagged cands depth cid).toTreeNode := by
      rw [hrows] at h
      obtain ⟨cid, hcid, heq⟩ := List.mem_map.mp h
      exact ⟨cid, hcid, heq.symm⟩
    apply forest_of_levels
    · rw [hparent]
      exact hends
    · intro cid parent h
      rw [hparent] at h
      exact has_of_rows hrows (fun _ => rfl) (hgiven cid parent h).2.1
    · intro node hnode
      obtain ⟨cid, -, rfl⟩ := hmem hnode
      refine ⟨hids.filter _, ?_⟩
      intro c
      rw [hparent]
      change c ∈ childrenIn _ _ cid ↔ _
      rw [mem_childrenIn]
      constructor
      · exact fun h => h.2
      · exact fun h => ⟨(hgiven c cid h).1, h⟩
    · refine ⟨hids.filter _, ?_⟩
      intro cid
      rw [List.mem_filter, decide_eq_true_eq, hrows]
      constructor
      · rintro ⟨hcid, hnone⟩
        exact ⟨_, List.mem_map_of_mem hcid, rfl, hnone⟩
      · rintro ⟨node, hnode, rfl, hnone⟩
        obtain ⟨c, hc, rfl⟩ := List.mem_map.mp hnode
        exact ⟨hc, hnone⟩
    · intro node hnode
      obtain ⟨cid, hcid, rfl⟩ := hmem hnode
      rw [hparent]
      exact depths_of_visit hvisit hinside hends hcid
  · intro node hnode parent hparent
    obtain ⟨cid, -, rfl⟩ := List.mem_map.mp hnode
    exact (hgiven cid parent hparent).2.2

theorem projectLens_sound : ∃ tree, projectLens letters conceptIds edges lens touch = some tree ∧
    LensSound letters conceptIds edges lens touch tree := by
  obtain ⟨tree, htree, hforest, hgiven⟩ := lensTree_spec
    lens.label
  refine ⟨tree, htree, hforest, ?_, ?_⟩
  · intro node hnode parent hparent
    obtain ⟨c, hc, hchild, hup⟩ := hgiven node hnode parent hparent
    obtain ⟨e, he, hcand⟩ := List.mem_filterMap.mp hc
    refine ⟨e, he, ?_⟩
    rw [← hchild, ← hup]
    exact proposes_of_candidate hcand
  · intro edges' hperm
    rw [← htree]
    exact (lensTree_perm (hperm.filterMap _) lens.label).symm

end LensTrees

/-! ## A tree under authored pairs -/

structure Standing (nodes : Table TreeNode.id) : Prop where
  ends : ∀ cid, Ends (parentIn nodes) cid
  inside : ∀ cid parent, parentIn nodes cid = some parent → nodes.has parent = true
  children : ∀ node ∈ nodes.rows, node.children.Nodup ∧ ∀ c, c ∈ node.children ↔ parentIn nodes c = some node.id

section Walk
variable {up : String → Option String} {src x : String} {keys seen : List String} {fuel : Nat}

theorem comesTo_spec (hkeys : ∀ x y, up x = some y → x ∈ keys) (hends : Ends up x) (htrail : Trail up seen x)
    (hfuel : keys.length < seen.length + fuel) :
    ∃ cycle, comesTo up src fuel (some x) = some cycle ∧ (cycle = true ↔ Leads up x src) := by
  induction hends generalizing seen fuel with
  | @stop x hnone =>
    have hle := (htrail.distinct.subperm fun y hy => htrail.mem_keys hkeys hy).length_le
    obtain ⟨fuel, rfl⟩ := Nat.exists_eq_succ_of_ne_zero (by omega : fuel ≠ 0)
    unfold comesTo
    by_cases heq : x = src
    · exact ⟨true, if_pos heq, iff_of_true rfl (heq ▸ .refl)⟩
    · refine ⟨false, ?_, iff_of_false Bool.false_ne_true ?_⟩
      · rw [if_neg heq, hnone]
        cases fuel <;> rfl
      · intro hleads
        rcases Relation.ReflTransGen.cases_head hleads with h | ⟨y, hstep, -⟩
        · exact heq h
        · rw [hnone] at hstep
          cases hstep
  | @step x y hxy hy ih =>
    have hle := (htrail.distinct.subperm fun y hy => htrail.mem_keys hkeys hy).length_le
    have hout : x ∉ seen := fun hin => (Ends.step hxy hy).not_onCycle (htrail.leads hin)
    obtain ⟨fuel, rfl⟩ := Nat.exists_eq_succ_of_ne_zero (by omega : fuel ≠ 0)
    unfold comesTo
    by_cases heq : x = src
    · exact ⟨true, if_pos heq, iff_of_true rfl (heq ▸ .refl)⟩
    · rw [if_neg heq, hxy]
      obtain ⟨cycle, hcycle, hiff⟩ := @ih _ fuel (htrail.extend hout hxy) (by
        rw [List.length_cons]
        omega)
      refine ⟨cycle, hcycle, hiff.trans ?_⟩
      constructor
      · exact fun h => .head hxy h
      · intro h
        rcases Relation.ReflTransGen.cases_head h with h | ⟨z, hstep, hrest⟩
        · exact absurd h heq
        · obtain rfl := Option.some.inj (hxy.symm.trans hstep)
          exact hrest

end Walk

section Adopting
variable {nodes : Table TreeNode.id} {child : TreeNode} {src dst : String} {moved : Bool}

def declaredNode (nodes : Table TreeNode.id) (dst : String) : TreeNode :=
  (nodes.get dst).getD { id := dst, parent := none, depth := 0, children := [], tagged := false }

theorem id_declaredNode : (declaredNode nodes dst).id = dst := by
  unfold declaredNode
  cases h : nodes.get dst with
  | none => rfl
  | some node => exact Table.key_of_get h

theorem parent_declaredNode : (declaredNode nodes dst).parent = parentIn nodes dst := by
  unfold declaredNode parentIn
  cases nodes.get dst <;> rfl

theorem get_nestUnder (hchild : nodes.get src = some child) (x : String) : (nestUnder nodes child dst).get x =
    if x = src then some { child with parent := some dst }
    else if x = dst then
      some { declaredNode nodes dst with children := sortedSet ((declaredNode nodes dst).children ++ [src]) }
    else nodes.get x := by
  obtain rfl := Table.key_of_get hchild
  have hid : (declaredNode nodes dst).id = dst := id_declaredNode
  unfold nestUnder
  change Table.get (Table.put (Table.put nodes { declaredNode nodes dst with
    children := sortedSet ((declaredNode nodes dst).children ++ [child.id]) }) _) x = _
  rw [Table.get_put, Table.get_put, hid]

theorem parentIn_nestUnder (hchild : nodes.get src = some child) (dst : String) :
    parentIn (nestUnder nodes child dst) = Function.update (parentIn nodes) src (some dst) := by
  funext x
  rw [Function.update_apply]
  unfold parentIn
  rw [get_nestUnder hchild]
  split
  · rfl
  · split
    · rename_i heq
      rw [heq]
      exact parent_declaredNode
    · rfl

theorem has_nestUnder (hchild : nodes.get src = some child) (x : String) :
    (nestUnder nodes child dst).has x = true ↔ nodes.has x = true ∨ x = dst := by
  unfold Table.has
  rw [get_nestUnder hchild]
  by_cases hsrc : x = src
  · rw [if_pos hsrc, hsrc, hchild]
    simp
  · rw [if_neg hsrc]
    by_cases hdst : x = dst
    · rw [if_pos hdst]
      simp [hdst]
    · rw [if_neg hdst]
      simp [hdst]

def Taken (nodes : Table TreeNode.id) (src dst : String) : Prop :=
  nodes.has src = true ∧ parentIn nodes src = none ∧ ¬Leads (parentIn nodes) dst src

theorem standing_nestUnder (h : Standing nodes) (hchild : nodes.get src = some child) (htaken : Taken nodes src dst) :
    Standing (nestUnder nodes child dst) := by
  obtain ⟨-, hroot, hnot⟩ := htaken
  have hne : src ≠ dst := by
    rintro rfl
    exact hnot .refl
  have hparent := parentIn_nestUnder hchild dst
  have hkey := Table.key_of_get hchild
  have hupdate {c p : String} (hp : p ≠ dst) : Function.update (parentIn nodes) src (some dst) c = some p ↔
      parentIn nodes c = some p := by
    rw [Function.update_apply]
    split
    · rename_i heq
      rw [heq, hroot]
      simp [hp.symm]
    · exact Iff.rfl
  refine ⟨?_, ?_, ?_⟩
  · rw [hparent]
    exact Ends.update h.ends hnot
  · intro cid parent hup
    rw [hparent, Function.update_apply] at hup
    apply (has_nestUnder hchild parent).mpr
    split at hup
    · exact Or.inr (Option.some.inj hup).symm
    · exact Or.inl (h.inside cid parent hup)
  · intro node hnode
    rw [hparent]
    have hget := Table.get_of_mem hnode
    rw [get_nestUnder hchild] at hget
    split at hget
    · obtain ⟨hnodup, hiff⟩ := h.children child (Table.mem_of_get hchild)
      rw [← Option.some.inj hget]
      refine ⟨hnodup, fun c => (hiff c).trans ?_⟩
      have hid : child.id ≠ dst := fun heq => hne (hkey.symm.trans heq)
      exact (hupdate hid).symm
    · split at hget
      · rw [← Option.some.inj hget]
        refine ⟨nodup_sortedSet _ _, fun c => ?_⟩
        have hmem : c ∈ sortedSet ((declaredNode nodes dst).children ++ [src]) ↔ c ∈ (declaredNode nodes dst).children ∨ c = src := by
          unfold sortedSet
          rw [mem_sortedSet, List.mem_append, List.mem_singleton]
        have hold : c ∈ (declaredNode nodes dst).children ↔ parentIn nodes c = some dst := by
          unfold declaredNode
          cases hdst : nodes.get dst with
          | none =>
            apply iff_of_false List.not_mem_nil
            intro hup
            have hhas := h.inside c dst hup
            unfold Table.has at hhas
            rw [hdst] at hhas
            cases hhas
          | some node' =>
            have hiff := (h.children node' (Table.mem_of_get hdst)).2 c
            rw [Table.key_of_get hdst] at hiff
            exact hiff
        change c ∈ sortedSet ((declaredNode nodes dst).children ++ [src]) ↔ _ = some (declaredNode nodes dst).id
        rw [hmem, hold, id_declaredNode, Function.update_apply]
        split
        · rename_i heq
          simp [heq]
        · rename_i hother
          simp [hother]
      · rename_i hdst
        obtain ⟨hnodup, hiff⟩ := h.children node (Table.mem_of_get hget)
        exact ⟨hnodup, fun c => (hiff c).trans (hupdate hdst).symm⟩

theorem adoptPair_spec (h : Standing nodes) :
    (∃ child, nodes.get src = some child ∧ Taken nodes src dst ∧
      adoptPair (nodes, moved) (src, dst) = some (nestUnder nodes child dst, true)) ∨
    (¬Taken nodes src dst ∧ adoptPair (nodes, moved) (src, dst) = some (nodes, moved)) := by
  unfold adoptPair
  dsimp only
  cases hsrc : nodes.get src with
  | none =>
    refine Or.inr ⟨?_, rfl⟩
    rintro ⟨hhas, -⟩
    unfold Table.has at hhas
    rw [hsrc] at hhas
    cases hhas
  | some child =>
    dsimp only
    have hparent : parentIn nodes src = child.parent := by
      unfold parentIn
      rw [hsrc]
      rfl
    split
    · rename_i hskip
      refine Or.inr ⟨?_, rfl⟩
      rintro ⟨-, hroot, hnot⟩
      rcases hskip with hsome | rfl
      · exact hsome (hparent.symm.trans hroot)
      · exact hnot .refl
    · rename_i hgo
      rw [not_or, not_not] at hgo
      have hkeys (x y : String) (hxy : parentIn nodes x = some y) : x ∈ nodes.rows.map TreeNode.id := by
        obtain ⟨node, hnode, hid, -⟩ := mem_of_parentIn hxy
        exact List.mem_map.mpr ⟨node, hnode, hid⟩
      obtain ⟨cycle, hcycle, hiff⟩ := @comesTo_spec _ src _ _ _ (nodes.rows.length + 2) hkeys (h.ends dst) (Trail.nil dst)
        (by
          rw [List.length_map, List.length_nil]
          omega)
      rw [hcycle]
      cases cycle with
      | true =>
        refine Or.inr ⟨?_, rfl⟩
        rintro ⟨-, -, hnot⟩
        exact hnot (hiff.mp rfl)
      | false =>
        refine Or.inl ⟨child, rfl, ⟨?_, hparent.trans hgo.1, ?_⟩, rfl⟩
        · unfold Table.has
          rw [hsrc]
          rfl
        · exact fun hleads => Bool.false_ne_true (hiff.mpr hleads)

end Adopting

/-! ## All pairs in order -/

open Classical in
/-- The pairs taken of a list: each source is known, has no parent yet, and its target does not stand under it. -/
noncomputable def adopted (known : String → Prop) (up : String → Option String) :
    List (String × String) → List (String × String)
  | [] => []
  | (src, dst) :: pairs =>
    if known src ∧ up src = none ∧ ¬Leads up dst src then
      (src, dst) :: adopted (fun x => known x ∨ x = dst) (Function.update up src (some dst)) pairs
    else adopted known up pairs

structure After (nodes : Table TreeNode.id) (taken : List (String × String)) (nodes' : Table TreeNode.id) : Prop where
  has : ∀ x, nodes'.has x = true ↔ nodes.has x = true ∨ x ∈ taken.map Prod.snd
  moved : ∀ e ∈ taken, parentIn nodes e.1 = none ∧ parentIn nodes' e.1 = some e.2
  kept : ∀ x, x ∉ taken.map Prod.fst → parentIn nodes' x = parentIn nodes x
  source : ∀ e ∈ taken, nodes.has e.1 = true ∨ e.1 ∈ taken.map Prod.snd

section Pairs
variable {nodes : Table TreeNode.id} {moved : Bool} {pairs : List (String × String)}

theorem After.refl (nodes : Table TreeNode.id) : After nodes [] nodes := by
  refine ⟨?_, ?_, fun _ _ => rfl, ?_⟩
  · simp
  · simp
  · simp

theorem After.cons {child : TreeNode} {src dst : String} {taken : List (String × String)} {nodes' : Table TreeNode.id}
    (hchild : nodes.get src = some child) (htaken : Taken nodes src dst)
    (h : After (nestUnder nodes child dst) taken nodes') : After nodes ((src, dst) :: taken) nodes' := by
  obtain ⟨hknown, hroot, -⟩ := htaken
  have hparent := parentIn_nestUnder hchild dst
  have hsrc : parentIn (nestUnder nodes child dst) src = some dst := by
    rw [hparent, Function.update_self]
  have hlater : src ∉ taken.map Prod.fst := by
    intro hin
    obtain ⟨e, he, heq⟩ := List.mem_map.mp hin
    have hnone := (h.moved e he).1
    rw [heq, hsrc] at hnone
    cases hnone
  refine ⟨?_, ?_, ?_, ?_⟩
  · intro x
    rw [h.has, has_nestUnder hchild, List.map_cons, List.mem_cons, or_assoc]
  · intro e he
    rcases List.mem_cons.mp he with rfl | he
    · exact ⟨hroot, (h.kept src hlater).trans hsrc⟩
    · obtain ⟨hnone, hsome⟩ := h.moved e he
      have hother : e.1 ≠ src := fun heq => hlater (heq ▸ List.mem_map_of_mem he)
      rw [hparent, Function.update_of_ne hother] at hnone
      exact ⟨hnone, hsome⟩
  · intro x hx
    rw [List.map_cons, List.mem_cons, not_or] at hx
    rw [h.kept x hx.2, hparent, Function.update_of_ne hx.1]
  · intro e he
    rw [List.map_cons, List.mem_cons]
    rcases List.mem_cons.mp he with rfl | he
    · exact Or.inl hknown
    · rcases h.source e he with hhas | hin
      · rcases (has_nestUnder hchild e.1).mp hhas with hhas | heq
        · exact Or.inl hhas
        · exact Or.inr (Or.inl heq)
      · exact Or.inr (Or.inr hin)

theorem adoptPairs_spec (h : Standing nodes) (moved : Bool) (pairs : List (String × String)) :
    ∃ nodes', pairs.foldlM adoptPair (nodes, moved) =
        some (nodes', moved || !(adopted (fun x => nodes.has x = true) (parentIn nodes) pairs).isEmpty) ∧
      Standing nodes' ∧ After nodes (adopted (fun x => nodes.has x = true) (parentIn nodes) pairs) nodes' ∧
      (adopted (fun x => nodes.has x = true) (parentIn nodes) pairs = [] → nodes' = nodes) := by
  induction pairs generalizing nodes moved with
  | nil =>
    refine ⟨nodes, ?_, h, After.refl nodes, fun _ => rfl⟩
    simp [adopted]
  | cons pair pairs ih =>
    obtain ⟨src, dst⟩ := pair
    rw [List.foldlM_cons]
    rcases adoptPair_spec h with ⟨child, hchild, htaken, hstep⟩ | ⟨hskip, hstep⟩
    · have hknown : (fun x => (nestUnder nodes child dst).has x = true) = fun x => nodes.has x = true ∨ x = dst := by
        funext x
        exact propext (has_nestUnder hchild x)
      obtain ⟨nodes', hrun, hstand, hafter, -⟩ := ih (standing_nestUnder h hchild htaken) true
      rw [hknown, parentIn_nestUnder hchild] at hrun hafter
      have hadopted : adopted (fun x => nodes.has x = true) (parentIn nodes) ((src, dst) :: pairs) =
          (src, dst) :: adopted (fun x => nodes.has x = true ∨ x = dst)
            (Function.update (parentIn nodes) src (some dst)) pairs := if_pos htaken
      rw [hadopted, hstep]
      refine ⟨nodes', ?_, hstand, hafter.cons hchild htaken, fun hnil => absurd hnil (List.cons_ne_nil _ _)⟩
      rw [Option.bind_eq_bind, Option.bind_some, hrun]
      simp
    · have hadopted : adopted (fun x => nodes.has x = true) (parentIn nodes) ((src, dst) :: pairs) =
          adopted (fun x => nodes.has x = true) (parentIn nodes) pairs := if_neg hskip
      rw [hadopted, hstep]
      exact ih h moved

end Pairs

/-! ## The depths under authored pairs -/

section Sinking
variable {nodes nodes' : Table TreeNode.id} {ids : List String} {fuel : Nat}

def SameTree (nodes nodes' : Table TreeNode.id) : Prop :=
  ∀ x, (nodes'.get x).map (fun node => { node with depth := 0 }) = (nodes.get x).map fun node => { node with depth := 0 }

theorem SameTree.parentIn (h : SameTree nodes nodes') : parentIn nodes' = parentIn nodes := by
  funext x
  have hx := congrArg (Option.map TreeNode.parent) (h x)
  rw [Option.map_map, Option.map_map] at hx
  unfold Concepts.parentIn
  cases hn : nodes.get x with
  | none =>
    rw [hn] at hx
    rw [Option.map_eq_none_iff.mp hx]
  | some node =>
    rw [hn] at hx
    obtain ⟨node', hnode', heq⟩ := Option.map_eq_some_iff.mp hx
    rw [hnode']
    exact heq

theorem SameTree.has (h : SameTree nodes nodes') (x : String) : nodes'.has x = nodes.has x := by
  have hx := congrArg Option.isSome (h x)
  rwa [Option.isSome_map, Option.isSome_map] at hx

theorem SameTree.node (h : SameTree nodes nodes') {node : TreeNode} (hnode : node ∈ nodes'.rows) :
    ∃ old ∈ nodes.rows, old.id = node.id ∧ old.parent = node.parent ∧ old.children = node.children := by
  have hx := h node.id
  rw [Table.get_of_mem hnode] at hx
  obtain ⟨old, hold, heq⟩ := Option.map_eq_some_iff.mp hx.symm
  rw [TreeNode.mk.injEq] at heq
  exact ⟨old, Table.mem_of_get hold, heq.1, heq.2.1, heq.2.2.2.1⟩

theorem SameTree.standing (h : SameTree nodes nodes') (hstand : Standing nodes) : Standing nodes' := by
  refine ⟨?_, ?_, ?_⟩
  · rw [h.parentIn]
    exact hstand.ends
  · intro cid parent hup
    rw [h.parentIn] at hup
    rw [h.has]
    exact hstand.inside cid parent hup
  · intro node hnode
    obtain ⟨old, hold, hid, -, hchildren⟩ := h.node hnode
    rw [h.parentIn, ← hid, ← hchildren]
    exact hstand.children old hold

theorem SameTree.put (h : SameTree nodes nodes') {cid : String} {node : TreeNode} (hget : nodes'.get cid = some node) (d : Nat) :
    SameTree nodes (nodes'.put { node with depth := d }) := by
  intro x
  rw [← h x, Table.get_put]
  split
  · rename_i heq
    have hkey : node.id = cid := Table.key_of_get hget
    have hx : x = cid := heq.trans hkey
    rw [hx, hget]
    rfl
  · rfl

theorem levels_of_done (hstand : Standing nodes) {done : List (String × Nat)} (hsame : SameTree nodes nodes')
    (h : Visiting (parentIn nodes) (nodes.rows.map TreeNode.id) [] done)
    (hdone : ∀ p ∈ done, ∀ node, nodes'.get p.1 = some node → node.depth = p.2) :
    ∀ node ∈ nodes'.rows, Level (parentIn nodes) node.id node.depth := by
  intro node hnode
  obtain ⟨old, hold, hid, -⟩ := hsame.node hnode
  have hinside : ∀ x ∈ nodes.rows.map TreeNode.id, ∀ y, parentIn nodes x = some y → y ∈ nodes.rows.map TreeNode.id := by
    intro x _ y hup
    obtain ⟨top, htop⟩ := Option.isSome_iff_exists.mp (hstand.inside x y hup)
    exact List.mem_map.mpr ⟨top, Table.mem_of_get htop, Table.key_of_get htop⟩
  have hdone' := h.complete hinside (List.mem_map_of_mem hold) (hstand.ends _)
  obtain ⟨p, hp, heq⟩ := List.mem_map.mp hdone'
  have hlevel := h.level p hp
  have hget : nodes'.get p.1 = some node := by
    rw [heq, hid]
    exact Table.get_of_mem hnode
  rw [← hdone p hp node hget, heq, hid] at hlevel
  exact hlevel

theorem sinkDepths_spec (hstand : Standing nodes) {frontier done : List (String × Nat)} (hsame : SameTree nodes nodes')
    (h : Visiting (parentIn nodes) (nodes.rows.map TreeNode.id) frontier done)
    (hdone : ∀ p ∈ done, ∀ node, nodes'.get p.1 = some node → node.depth = p.2)
    (hfuel : nodes.rows.length ≤ done.length + fuel) :
    ∃ result, sinkDepths fuel frontier nodes' = some result ∧ SameTree nodes result ∧
      ∀ node ∈ result.rows, Level (parentIn nodes) node.id node.depth := by
  induction fuel generalizing frontier done nodes' with
  | zero =>
    cases frontier with
    | nil =>
      refine ⟨nodes', rfl, hsame, ?_⟩
      exact levels_of_done hstand hsame h hdone
    | cons p frontier =>
      have hle := h.length_le
      rw [List.length_cons, List.length_map] at hle
      omega
  | succ fuel ih =>
    cases frontier with
    | nil =>
      refine ⟨nodes', rfl, hsame, ?_⟩
      exact levels_of_done hstand hsame h hdone
    | cons p frontier =>
      obtain ⟨cid, d⟩ := p
      have hin := h.inside cid List.mem_cons_self
      obtain ⟨old, hold, rfl⟩ := List.mem_map.mp hin
      have hhas : nodes'.has old.id = true := by
        rw [hsame.has]
        unfold Table.has
        rw [Table.get_of_mem hold]
        rfl
      obtain ⟨node, hget⟩ := Option.isSome_iff_exists.mp hhas
      have hkey : node.id = old.id := Table.key_of_get hget
      unfold sinkDepths
      rw [hget]
      have hchildren : node.children.Perm (childrenIn (parentIn nodes) (nodes.rows.map TreeNode.id) old.id) := by
        obtain ⟨hnodup, hiff⟩ := (hsame.standing hstand).children node (Table.mem_of_get hget)
        apply (List.perm_ext_iff_of_nodup hnodup (nodes.nodup.filter _)).mpr
        intro c
        rw [hiff, hsame.parentIn, hkey]
        change _ ↔ c ∈ childrenIn _ _ _
        rw [mem_childrenIn]
        constructor
        · intro hup
          obtain ⟨below, hbelow, hid, -⟩ := mem_of_parentIn hup
          exact ⟨List.mem_map.mpr ⟨below, hbelow, hid⟩, hup⟩
        · exact fun hc => hc.2
      have hnew := h.once
      rw [List.cons_append, List.map_cons, List.map_append] at hnew
      apply ih (hsame.put hget d)
      · apply (h.visit nodes.nodup).perm
        refine List.perm_append_comm.trans (List.Perm.append_right _ ?_)
        exact (hchildren.symm.map _).trans (List.reverse_perm _).symm
      · intro p hp node' hnode'
        rw [Table.get_put] at hnode'
        rcases List.mem_append.mp hp with hp | hp
        · have hother : p.1 ≠ old.id := by
            intro heq
            apply (List.nodup_cons.mp hnew).1
            rw [← heq]
            exact List.mem_append_right _ (List.mem_map.mpr ⟨p, hp, rfl⟩)
          rw [if_neg fun heq => hother (heq.trans hkey)] at hnode'
          exact hdone p hp node' hnode'
        · rw [List.mem_singleton.mp hp] at hnode' ⊢
          rw [if_pos hkey.symm] at hnode'
          rw [← Option.some.inj hnode']
      · rw [List.length_append, List.length_singleton]
        omega

end Sinking

/-! ## The hierarchy of paths -/

section Paths
variable (letters : Letters) (conceptIds : List Json) (name : String)

/-- The ids of the hierarchy: the tagged ones and their ancestors. -/
def pathIds : List String := hierarchyIds (normalizeIds letters conceptIds)

/-- The path parents among the ids. -/
def pathParents (cid : String) : Option String := if cid ∈ pathIds letters conceptIds then pathParent cid else none

variable {letters conceptIds name} {cid parent : String}

theorem parentIn_hierarchy : parentIn (projectHierarchy letters conceptIds name).nodes = pathParents letters conceptIds := by
  funext cid
  exact parentIn_of_rows (rows_projectHierarchy letters conceptIds name) fun _ => rfl

theorem has_hierarchy : (projectHierarchy letters conceptIds name).nodes.has cid = true ↔ cid ∈ pathIds letters conceptIds := by
  constructor
  · intro h
    obtain ⟨node, hnode⟩ := Option.isSome_iff_exists.mp h
    have hmem := Table.mem_of_get hnode
    rw [rows_projectHierarchy] at hmem
    obtain ⟨c, hc, rfl⟩ := List.mem_map.mp hmem
    exact Table.key_of_get hnode ▸ hc
  · exact has_of_rows (rows_projectHierarchy letters conceptIds name) fun _ => rfl

theorem pathParents_eq_some (h : pathParents letters conceptIds cid = some parent) :
    pathParent cid = some parent ∧ parent ∈ pathIds letters conceptIds := by
  unfold pathParents at h
  split at h
  · rename_i hcid
    refine ⟨h, ?_⟩
    unfold pathIds hierarchyIds sortedSet at hcid ⊢
    rw [mem_sortedSet, List.mem_flatMap] at hcid ⊢
    obtain ⟨tagged, htagged, hbegins⟩ := hcid
    exact ⟨tagged, htagged, pathParent_mem_prefixes hbegins h⟩
  · cases h

theorem level_of_path (cid : String) : Ends (pathParents letters conceptIds) cid ∧
    (cid ∈ pathIds letters conceptIds → Level (pathParents letters conceptIds) cid ((segments cid).length - 1)) := by
  induction hn : (segments cid).length generalizing cid with
  | zero => exact absurd (List.length_eq_zero_iff.mp hn) (segments_ne_nil cid)
  | succ n ih =>
    cases hup : pathParents letters conceptIds cid with
    | none =>
      refine ⟨.stop hup, ?_⟩
      intro hcid
      have hzero : n + 1 - 1 = 0 := by
        unfold pathParents at hup
        rw [if_pos hcid] at hup
        unfold pathParent at hup
        split at hup
        · cases hup
        · omega
      rw [hzero]
      exact .of_none hup
    | some parent =>
      obtain ⟨hparent, hin⟩ := pathParents_eq_some hup
      obtain ⟨hlen, hsegments⟩ := segments_of_pathParent hparent
      have hshort : (segments parent).length = n := by
        rw [hsegments, List.length_dropLast, hn]
        rfl
      obtain ⟨hends, hlevel⟩ := ih parent hshort
      refine ⟨.step hup hends, ?_⟩
      intro _
      have hpred : n + 1 - 1 = n - 1 + 1 := by omega
      rw [hpred]
      exact (hlevel hin).below hup

theorem standing_hierarchy : Standing (projectHierarchy letters conceptIds name).nodes := by
  refine ⟨?_, ?_, ?_⟩
  · rw [parentIn_hierarchy]
    exact fun cid => (level_of_path cid).1
  · intro cid parent hup
    rw [parentIn_hierarchy] at hup
    exact has_hierarchy.mpr (pathParents_eq_some hup).2
  · intro node hnode
    rw [rows_projectHierarchy] at hnode
    obtain ⟨cid, -, rfl⟩ := List.mem_map.mp hnode
    refine ⟨(nodup_hierarchyIds _).filter _, ?_⟩
    intro c
    rw [parentIn_hierarchy]
    unfold hierarchyNode pathParents
    rw [List.mem_filter, decide_eq_true_eq]
    constructor
    · rintro ⟨hc, hup⟩
      exact (if_pos hc).trans hup
    · intro hup
      split at hup
      · rename_i hc
        exact ⟨hc, hup⟩
      · cases hup

theorem forest_hierarchy :
    Forest (projectHierarchy letters conceptIds name).roots (projectHierarchy letters conceptIds name).nodes := by
  obtain ⟨hends, hinside, hchildren⟩ := standing_hierarchy
  apply forest_of_levels hends hinside hchildren
  · rw [roots_projectHierarchy, rows_projectHierarchy]
    refine ⟨(nodup_hierarchyIds _).filter _, ?_⟩
    intro cid
    rw [List.mem_filter, decide_eq_true_eq]
    constructor
    · rintro ⟨hcid, hnone⟩
      exact ⟨_, List.mem_map_of_mem hcid, rfl, hnone⟩
    · rintro ⟨node, hnode, rfl, hnone⟩
      obtain ⟨c, hc, rfl⟩ := List.mem_map.mp hnode
      exact ⟨hc, hnone⟩
  · intro node hnode
    rw [rows_projectHierarchy] at hnode
    obtain ⟨cid, hcid, rfl⟩ := List.mem_map.mp hnode
    rw [parentIn_hierarchy]
    exact (level_of_path cid).2 hcid

end Paths

/-! ## The hierarchy under authored pairs -/

section Authored
variable {tree : Tree} {edges : List ConceptEdge}

noncomputable abbrev takenPairs (tree : Tree) (edges : List ConceptEdge) : List (String × String) :=
  adopted (fun x => tree.nodes.has x = true) (parentIn tree.nodes) (authoredPairs edges)

theorem get_sortedNodes (nodes : Table TreeNode.id) (x : String) : (sortedNodes nodes).get x = nodes.get x :=
  Table.get_perm (List.mergeSort_perm _ _) x

theorem applyAuthoredParents_spec (hstand : Standing tree.nodes) (hforest : Forest tree.roots tree.nodes) :
    ∃ result, applyAuthoredParents tree edges = some result ∧ Forest result.roots result.nodes ∧
      After tree.nodes (takenPairs tree edges) result.nodes := by
  obtain ⟨nodes, hrun, hstand', hafter, hsame⟩ := adoptPairs_spec hstand false (authoredPairs edges)
  unfold applyAuthoredParents
  rw [hrun, Option.bind_some, Bool.false_or, Bool.not_not]
  by_cases hnil : takenPairs tree edges = []
  · refine ⟨tree, ?_, hforest, ?_⟩
    · rw [if_pos (List.isEmpty_iff.mpr hnil)]
    · rw [hnil]
      exact After.refl _
  · rw [if_neg fun h => hnil (List.isEmpty_iff.mp h)]
    dsimp only
    generalize hroots : ((nodes.rows.filter fun node => node.parent = none).map TreeNode.id).mergeSort (fun a b => a ≤ b) = roots
    have htops : roots.Perm ((nodes.rows.map TreeNode.id).filter fun x => parentIn nodes x = none) := by
      rw [← hroots, List.filter_map]
      refine (List.mergeSort_perm _ _).trans (List.Perm.of_eq ?_)
      congr 1
      apply List.filter_congr
      intro node hnode
      rw [Function.comp_apply, parentIn_of_mem hnode]
    have hstart : Visiting (parentIn nodes) (nodes.rows.map TreeNode.id) (roots.map fun cid => (cid, 0)).reverse [] :=
      (Visiting.start nodes.nodup).perm ((htops.symm.map _).trans (List.reverse_perm _).symm)
    obtain ⟨result, hsink, hsunk, hlevel⟩ := sinkDepths_spec hstand' (fun _ => rfl) hstart
      (by simp) (Nat.le_add_left _ _)
    have hsorted : SameTree nodes (sortedNodes result) := by
      intro x
      rw [get_sortedNodes]
      exact hsunk x
    obtain ⟨hends, hinside, hchildren⟩ := hsorted.standing hstand'
    refine ⟨_, congrArg (Option.map _) hsink, ?_, ?_⟩
    · apply forest_of_levels hends hinside hchildren
      · refine ⟨htops.nodup_iff.mpr (nodes.nodup.filter _), ?_⟩
        intro cid
        rw [htops.mem_iff, List.mem_filter, decide_eq_true_eq]
        constructor
        · rintro ⟨hcid, hnone⟩
          obtain ⟨node, hnode, rfl⟩ := List.mem_map.mp hcid
          have hhas : (sortedNodes result).has node.id = true := by
            rw [hsorted.has]
            unfold Table.has
            rw [Table.get_of_mem hnode]
            rfl
          obtain ⟨top, htop⟩ := Option.isSome_iff_exists.mp hhas
          refine ⟨top, Table.mem_of_get htop, Table.key_of_get htop, ?_⟩
          rw [← parentIn_of_mem (Table.mem_of_get htop), hsorted.parentIn, Table.key_of_get htop, hnone]
        · rintro ⟨node, hnode, rfl, hnone⟩
          obtain ⟨old, hold, hid, -⟩ := hsorted.node hnode
          refine ⟨List.mem_map.mpr ⟨old, hold, hid⟩, ?_⟩
          rw [← hsorted.parentIn, parentIn_of_mem hnode, hnone]
      · intro node hnode
        rw [hsorted.parentIn]
        exact hlevel node (List.mem_mergeSort.mp hnode)
    · refine ⟨?_, ?_, ?_, hafter.source⟩
      · intro x
        rw [hsorted.has]
        exact hafter.has x
      · rw [hsorted.parentIn]
        exact hafter.moved
      · rw [hsorted.parentIn]
        exact hafter.kept

end Authored

/-- Authored pairs leave a forest in which paths keep their parents, and move no path. -/
structure AuthoredSound (tree result : Tree) : Prop where
  forest : Forest result.roots result.nodes
  paths : ∀ node ∈ result.nodes.rows, ∀ parent, pathParent node.id = some parent → result.nodes.has parent = true →
    node.parent = some parent
  moved : ∀ cid, parentIn result.nodes cid ≠ parentIn tree.nodes cid → pathParent cid = none

/-- Both kinds of trees are as they should be. -/
structure TreesSound (letters : Letters) (conceptIds : List Json) (lensEdges : List ConceptEdge) (lens : Lens)
    (touch : Dict String Int) (name : String) (edges : List ConceptEdge) : Prop where
  lens : ∃ tree, projectLens letters conceptIds lensEdges lens touch = some tree ∧
    LensSound letters conceptIds lensEdges lens touch tree
  authored : ∃ result, applyAuthoredParents (projectHierarchy letters conceptIds name) edges = some result ∧
    AuthoredSound (projectHierarchy letters conceptIds name) result

/-- No declared parent that is put in has its own path parent in the tree, or is moved. -/
def DeclaredInPlace (letters : Letters) (conceptIds : List Json) (edges : List ConceptEdge) : Prop :=
  ∀ e ∈ adopted (· ∈ pathIds letters conceptIds) (pathParents letters conceptIds) (authoredPairs edges),
    e.2 ∉ pathIds letters conceptIds → ∀ parent, pathParent e.2 = some parent →
      parent ∉ pathIds letters conceptIds ∧
        ∀ f ∈ adopted (· ∈ pathIds letters conceptIds) (pathParents letters conceptIds) (authoredPairs edges),
          f.2 ≠ parent ∧ f.1 ≠ e.2

section Declared
variable {letters : Letters} {conceptIds : List Json} {name : String} {edges : List ConceptEdge} {result : Tree}

theorem takenPairs_hierarchy : takenPairs (projectHierarchy letters conceptIds name) edges =
    adopted (· ∈ pathIds letters conceptIds) (pathParents letters conceptIds) (authoredPairs edges) := by
  unfold takenPairs
  rw [parentIn_hierarchy]
  congr 1
  funext x
  exact propext has_hierarchy

theorem declaredInPlace_of_sound
    (hrun : applyAuthoredParents (projectHierarchy letters conceptIds name) edges = some result)
    (h : AuthoredSound (projectHierarchy letters conceptIds name) result) : DeclaredInPlace letters conceptIds edges := by
  obtain ⟨result', hrun', -, hafter⟩ := applyAuthoredParents_spec
    (standing_hierarchy) forest_hierarchy
  obtain rfl := Option.some.inj (hrun.symm.trans hrun')
  rw [takenPairs_hierarchy] at hafter
  obtain ⟨hhas, hmoved, -, -⟩ := hafter
  rw [parentIn_hierarchy] at hmoved
  intro e he hout parent hparent
  have hin : result.nodes.has e.2 = true := (hhas e.2).mpr (Or.inr (List.mem_map_of_mem he))
  obtain ⟨node, hget⟩ := Option.isSome_iff_exists.mp hin
  have hid : node.id = e.2 := Table.key_of_get hget
  have hsame : parentIn result.nodes e.2 = none := by
    by_contra hne
    have hold : parentIn (projectHierarchy letters conceptIds name).nodes e.2 = none := by
      rw [parentIn_hierarchy]
      exact if_neg hout
    have hnone := h.moved e.2 (by rwa [hold])
    rw [hparent] at hnone
    cases hnone
  have hfar : ¬result.nodes.has parent = true := by
    intro hup
    have hkept := h.paths node (Table.mem_of_get hget) parent (hid ▸ hparent) hup
    rw [← parentIn_of_mem (Table.mem_of_get hget), hid, hsame] at hkept
    cases hkept
  rw [hhas, not_or] at hfar
  refine ⟨fun hup => hfar.1 (has_hierarchy.mpr hup), ?_⟩
  intro f hf
  constructor
  · exact fun heq => hfar.2 (heq ▸ List.mem_map_of_mem hf)
  · intro heq
    have hsome := (hmoved f hf).2
    rw [heq, hsame] at hsome
    cases hsome

theorem sound_of_declaredInPlace (h : DeclaredInPlace letters conceptIds edges) :
    ∃ result, applyAuthoredParents (projectHierarchy letters conceptIds name) edges = some result ∧
      AuthoredSound (projectHierarchy letters conceptIds name) result := by
  obtain ⟨result, hrun, hforest, hafter⟩ := applyAuthoredParents_spec
    (standing_hierarchy) forest_hierarchy
  rw [takenPairs_hierarchy] at hafter
  obtain ⟨hhas, hmoved, hkept, hsource⟩ := hafter
  rw [parentIn_hierarchy] at hmoved hkept
  refine ⟨result, hrun, hforest, ?_, ?_⟩
  · intro node hnode parent hparent hup
    have hin : result.nodes.has node.id = true := by
      unfold Table.has
      rw [Table.get_of_mem hnode]
      rfl
    by_cases hpath : node.id ∈ pathIds letters conceptIds
    · have hstill : node.id ∉ (adopted (· ∈ pathIds letters conceptIds) (pathParents letters conceptIds)
          (authoredPairs edges)).map Prod.fst := by
        intro hmem
        obtain ⟨e, he, heq⟩ := List.mem_map.mp hmem
        have hnone := (hmoved e he).1
        rw [heq] at hnone
        unfold pathParents at hnone
        rw [if_pos hpath, hparent] at hnone
        cases hnone
      rw [← parentIn_of_mem hnode, hkept _ hstill]
      exact (if_pos hpath).trans hparent
    · rcases (hhas node.id).mp hin with hold | hnew
      · exact absurd (has_hierarchy.mp hold) hpath
      · obtain ⟨e, he, heq⟩ := List.mem_map.mp hnew
        rw [← heq] at hpath hparent
        obtain ⟨hfar, hothers⟩ := h e he hpath parent hparent
        rcases (hhas parent).mp hup with hold | hnew
        · exact absurd (has_hierarchy.mp hold) hfar
        · obtain ⟨f, hf, hf'⟩ := List.mem_map.mp hnew
          exact absurd hf' (hothers f hf).1
  · intro cid hne
    rw [parentIn_hierarchy] at hne
    have hmem : cid ∈ (adopted (· ∈ pathIds letters conceptIds) (pathParents letters conceptIds)
        (authoredPairs edges)).map Prod.fst := by
      by_contra hout
      exact hne (hkept cid hout)
    obtain ⟨e, he, rfl⟩ := List.mem_map.mp hmem
    by_cases hpath : e.1 ∈ pathIds letters conceptIds
    · have hnone := (hmoved e he).1
      unfold pathParents at hnone
      rwa [if_pos hpath] at hnone
    · rcases hsource e he with hold | hnew
      · exact absurd (has_hierarchy.mp hold) hpath
      · obtain ⟨f, hf, heq⟩ := List.mem_map.mp hnew
        cases hparent : pathParent e.1 with
        | none => rfl
        | some parent =>
          rw [← heq] at hpath hparent
          exact absurd heq.symm ((h f hf hpath parent hparent).2 e he).2

variable (letters conceptIds name edges) in
/-- Every lens tree is a forest of its edges, and the authored hierarchy keeps the paths exactly when no declared parent
that is put in has its own path parent in the tree or is moved. -/
theorem trees_sound_iff (lensEdges : List ConceptEdge) (lens : Lens) (touch : Dict String Int) :
    TreesSound letters conceptIds lensEdges lens touch name edges ↔ DeclaredInPlace letters conceptIds edges := by
  constructor
  · intro h
    obtain ⟨result, hrun, hsound⟩ := h.authored
    exact declaredInPlace_of_sound hrun hsound
  · intro h
    exact ⟨projectLens_sound, sound_of_declaredInPlace h⟩

/-- Declared under `a/b`, the concept `x` brings it in beside `a`, not under it. -/
theorem declared_path_stands_as_root : ¬∀ (letters : Letters) (conceptIds : List Json) (lensEdges : List ConceptEdge)
    (lens : Lens) (touch : Dict String Int) (name : String) (edges : List ConceptEdge),
      TreesSound letters conceptIds lensEdges lens touch name edges := by
  intro h
  obtain ⟨result, hrun, hsound⟩ := (h asciiLetters.toLetters [.str "a", .str "x"] [] (.named "is_a") Table.empty "is_a"
    [authoredEdge "x" "is_a" "a/b"]).authored
  have hplace := declaredInPlace_of_sound hrun hsound
  have hpairs : authoredPairs [authoredEdge "x" "is_a" "a/b"] = [("x", "a/b")] := by
    have hone : [("x", "a/b")].eraseDups = [("x", "a/b")] := by decide +kernel
    unfold authoredPairs
    simp only [authoredEdge, AUTHORED_EDGE_PROVENANCE, decide_true, Bool.and_self, List.filter_cons_of_pos,
      List.filter_nil, List.map_cons, List.map_nil]
    rw [hone, List.mergeSort_singleton]
  have hnormal : normalizeIds asciiLetters.toLetters [.str "a", .str "x"] = ["a", "x"] := by decide +kernel
  have hflat : ["a", "x"].flatMap prefixes = ["a", "x"] := by decide +kernel
  have hmem (cid : String) : cid ∈ pathIds asciiLetters.toLetters [.str "a", .str "x"] ↔ cid = "a" ∨ cid = "x" := by
    unfold pathIds hierarchyIds sortedSet
    rw [hnormal, hflat, mem_sortedSet]
    simp
  have hout : "a/b" ∉ pathIds asciiLetters.toLetters [.str "a", .str "x"] := by
    rw [hmem]
    decide
  have hroot : pathParents asciiLetters.toLetters [.str "a", .str "x"] "x" = none := by
    unfold pathParents
    rw [if_pos ((hmem "x").mpr (Or.inr rfl))]
    decide +kernel
  have hnot : ¬Leads (pathParents asciiLetters.toLetters [.str "a", .str "x"]) "a/b" "x" := by
    intro hleads
    rcases Relation.ReflTransGen.cases_head hleads with heq | ⟨y, hstep, -⟩
    · exact absurd heq (by decide)
    · have hnone : pathParents asciiLetters.toLetters [.str "a", .str "x"] "a/b" = none := if_neg hout
      rw [hnone] at hstep
      cases hstep
  have htaken : ("x", "a/b") ∈ adopted (· ∈ pathIds asciiLetters.toLetters [.str "a", .str "x"])
      (pathParents asciiLetters.toLetters [.str "a", .str "x"]) (authoredPairs [authoredEdge "x" "is_a" "a/b"]) := by
    rw [hpairs]
    unfold adopted
    rw [if_pos ⟨(hmem "x").mpr (Or.inr rfl), hroot, hnot⟩]
    exact List.mem_cons_self
  have hparent : pathParent "a/b" = some "a" := by decide +kernel
  exact (hplace _ htaken hout "a" hparent).1 ((hmem "a").mpr (Or.inl rfl))

end Declared

end LoopLab.Concepts
