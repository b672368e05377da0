import LoopLab.Concepts.Graph

/-!
# The depth of a concept

The memo only holds depths of concepts off all cycles.
-/

set_option autoImplicit false

namespace LoopLab.Concepts.ConceptGraph
open Lib

variable {g : ConceptGraph} {path : List String} {cid : String} {memo : Dict String Nat}

def MemoOk (g : ConceptGraph) (memo : Dict String Nat) : Prop :=
  ∀ cid depth, memo.get cid = some depth → OffCycles (parentsOf g) cid ∧ Longest (parentsOf g) [] cid depth

/-- Every concept of the path leads up to the concept the walk is at. -/
def LeadsTo (g : ConceptGraph) (path : List String) (cid : String) : Prop :=
  ∀ q ∈ path, Relation.TransGen (fun x y => y ∈ parentsOf g x) q cid

theorem LeadsTo.next {p : String} (h : LeadsTo g path cid) (hp : p ∈ parentsOf g cid) : LeadsTo g (cid :: path) p := by
  intro q hq
  rcases List.mem_cons.mp hq with rfl | hq
  · exact .single hp
  · exact (h q hq).tail hp

theorem clear_nil (next : String → List String) (cid : String) : Clear next [] cid := fun _ _ => List.not_mem_nil

structure Visit.Ok (g : ConceptGraph) (path : List String) (cid : String) (v : Visit) : Prop where
  memo : MemoOk g v.memo
  depth : Longest (parentsOf g) path cid v.depth
  clean : v.clean = true → OffCycles (parentsOf g) cid ∧ Clear (parentsOf g) path cid

structure Visit.Over (g : ConceptGraph) (path : List String) (cid : String) (done : List String) (v : Visit) : Prop where
  memo : MemoOk g v.memo
  depth : LongestOver (parentsOf g) path cid done v.depth
  clean : v.clean = true → ∀ p ∈ done, OffCycles (parentsOf g) p ∧ Clear (parentsOf g) (cid :: path) p

theorem Visit.Ok.known {depth : Nat} (hmemo : MemoOk g memo) (hleads : LeadsTo g path cid)
    (hget : memo.get cid = some depth) : Visit.Ok g path cid ⟨depth, true, memo⟩ := by
  obtain ⟨hoff, hlongest⟩ := hmemo cid depth hget
  have hclear := hoff.clear hleads
  exact ⟨hmemo, hlongest.transfer (clear_nil _ cid) hclear, fun _ => ⟨hoff, hclear⟩⟩

theorem Visit.Over.done {v : Visit} (h : cid ∉ path) (hv : Visit.Over g path cid (parentsOf g cid) v) :
    Visit.Ok g path cid (if v.clean then { v with memo := v.memo.set cid v.depth } else v) := by
  have hclean (hc : v.clean = true) := offCycles_of_next h (hv.clean hc)
  split
  · rename_i hc
    refine ⟨?_, hv.depth.finish, fun _ => hclean hc⟩
    intro c depth hget
    rw [Dict.get_set] at hget
    split at hget
    · rename_i heq
      subst heq
      obtain rfl := Option.some.inj hget
      exact ⟨(hclean hc).1, hv.depth.finish.transfer (hclean hc).2 (clear_nil _ _)⟩
    · exact hv.memo c depth hget
  · exact ⟨hv.memo, hv.depth.finish, fun hc => hclean hc⟩

mutual
theorem depthFrom_ok (path : List String) (cid : String) (h : cid ∉ path) (memo : Dict String Nat)
    (hmemo : MemoOk g memo) (hleads : LeadsTo g path cid) : Visit.Ok g path cid (depthFrom g path cid h memo) := by
  rw [depthFrom]
  cases hget : memo.get cid with
  | some depth => exact .known hmemo hleads hget
  | none =>
    have hstart : Visit.Over g path cid [] ⟨0, true, memo⟩ := ⟨hmemo, .start, fun _ p hp => by cases hp⟩
    exact (depthOver_ok path cid h (parentsOf g cid) (fun _ hp => hp) _ [] hstart hleads).done h
termination_by (unpassed g path, 1, 0)
theorem depthOver_ok (path : List String) (cid : String) (h : cid ∉ path) (ps : List String)
    (hps : ∀ p ∈ ps, p ∈ parentsOf g cid) (v : Visit) (done : List String) (hv : Visit.Over g path cid done v)
    (hleads : LeadsTo g path cid) : Visit.Over g path cid (done ++ ps) (depthOver g path cid h ps hps v) := by
  match ps, hps with
  | [], _ =>
    rw [depthOver, List.append_nil]
    exact hv
  | p :: ps, hps =>
    have hparent := hps p List.mem_cons_self
    rw [depthOver, List.append_cons]
    split
    · -- a parent on the path, or the concept itself
      rename_i hp
      apply depthOver_ok path cid h ps _ _ (done ++ [p]) ?_ hleads
      exact ⟨hv.memo, hv.depth.skip (List.mem_cons.mpr hp), fun hc => by cases hc⟩
    · rename_i hp
      have hnew : p ∉ cid :: path := by rwa [List.mem_cons]
      have hw := depthFrom_ok (cid :: path) p hnew v.memo hv.memo (hleads.next hparent)
      apply depthOver_ok path cid h ps _ _ (done ++ [p]) ?_ hleads
      refine ⟨hw.memo, hv.depth.step hparent hnew hw.depth, fun hc q hq => ?_⟩
      rw [Bool.and_eq_true] at hc
      rcases List.mem_append.mp hq with hq | hq
      · exact hv.clean hc.1 q hq
      · rw [List.mem_singleton.mp hq]
        exact hw.clean hc.2
termination_by (unpassed g path, 0, ps.length)
decreasing_by
  · exact Prod.Lex.left _ _ (unpassed_lt hparent h)
  · exact Prod.Lex.right _ (Prod.Lex.right _ (Nat.lt_succ_self _))
  · exact Prod.Lex.right _ (Prod.Lex.right _ (Nat.lt_succ_self _))
end

theorem bareDepth_longest (path : List String) (cid : String) (h : cid ∉ path) :
    Longest (parentsOf g) path cid (bareDepth g path cid h) := by
  have hrun (ps : List { p // p ∈ parentsOf g cid }) (done : List String) (n : Nat)
      (hn : LongestOver (parentsOf g) path cid done n) :
      LongestOver (parentsOf g) path cid (done ++ ps.map Subtype.val) (ps.foldl (fun depth p =>
        if hp : p.1 = cid ∨ p.1 ∈ path then depth
        else max depth (1 + bareDepth g (cid :: path) p.1 (by rwa [List.mem_cons]))) n) := by
    induction ps generalizing done n with
    | nil => simpa using hn
    | cons p ps ih =>
      rw [List.foldl_cons, List.map_cons, List.append_cons]
      apply ih
      split
      · rename_i hp
        exact hn.skip (List.mem_cons.mpr hp)
      · rename_i hp
        have hnew : p.1 ∉ cid :: path := by rwa [List.mem_cons]
        exact hn.step p.2 hnew (bareDepth_longest (cid :: path) p.1 hnew)
  have hall := hrun (parentsOf g cid).attach [] 0 .start
  rw [List.nil_append, List.attach_map_subtype_val] at hall
  rw [bareDepth]
  exact hall.finish
termination_by unpassed g path
decreasing_by exact unpassed_lt p.2 h

/-- The memoised depth is that of the bare walk, the length of the longest path of parents that visits no
concept twice; and what the memo holds is what the bare walk finds on every path that leads there. -/
theorem depthOf_eq_bareDepth (g : ConceptGraph) (cid : String) :
    depthOf g cid = bareDepth g [] cid List.not_mem_nil ∧
    (∃ l, IsPath (parentsOf g) cid l ∧ (cid :: l).Nodup ∧ l.length = depthOf g cid) ∧
    (∀ l, IsPath (parentsOf g) cid l → (cid :: l).Nodup → l.length ≤ depthOf g cid) ∧
    ∀ c depth, (depthFrom g [] cid List.not_mem_nil Table.empty).memo.get c = some depth →
      ∀ path, LeadsTo g path c → ∀ h : c ∉ path, bareDepth g path c h = depth := by
  have hok : Visit.Ok g [] cid (depthFrom g [] cid List.not_mem_nil Table.empty) := by
    apply depthFrom_ok
    · intro c depth hget
      cases hget
    · intro q hq
      cases hq
  have hsimple (l : List String) : IsSimple (parentsOf g) [] cid l ↔ IsPath (parentsOf g) cid l ∧ (cid :: l).Nodup := by
    rw [isSimple_iff List.not_mem_nil]
    simp
  refine ⟨hok.depth.unique (bareDepth_longest [] cid List.not_mem_nil), ?_, ?_, ?_⟩
  · obtain ⟨l, hl, hlen⟩ := hok.depth.found
    obtain ⟨hpath, hnodup⟩ := (hsimple l).mp hl
    exact ⟨l, hpath, hnodup, hlen⟩
  · intro l hpath hnodup
    exact hok.depth.most l ((hsimple l).mpr ⟨hpath, hnodup⟩)
  · intro c depth hget path hleads h
    obtain ⟨hoff, hlongest⟩ := hok.memo c depth hget
    exact (bareDepth_longest path c h).unique (hlongest.transfer (clear_nil _ c) (hoff.clear hleads))

end LoopLab.Concepts.ConceptGraph
