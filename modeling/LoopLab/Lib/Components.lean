import LoopLab.Lib.Search

/-!
# The pieces of a finite graph

A sweep over the nodes explores from each that was not seen.
-/

set_option autoImplicit false

namespace LoopLab.Lib

universe u
variable {α : Type u} [DecidableEq α]

/-! ## Adding edges -/

section Edges
variable {graph : Dict α (List α)} {a b c d : α}

/-- `graph[a].add(b)` -/
def addNext (graph : Dict α (List α)) (a b : α) : Dict α (List α) :=
  if b ∈ (graph.get a).getD [] then graph else graph.set a ((graph.get a).getD [] ++ [b])

def link (graph : Dict α (List α)) (e : α × α) : Dict α (List α) := addNext (addNext graph e.1 e.2) e.2 e.1

theorem next_addNext : Next (addNext graph a b) c d ↔ Next graph c d ∨ c = a ∧ d = b := by
  unfold addNext
  split
  · rename_i hmem
    constructor
    · exact Or.inl
    · rintro (h | ⟨rfl, rfl⟩)
      · exact h
      · exact hmem
  · unfold Next
    rw [Dict.get_set]
    by_cases hc : c = a
    · subst hc
      simp
    · simp [hc]

theorem next_link {e : α × α} : Next (link graph e) c d ↔ Next graph c d ∨ (c, d) = e ∨ (d, c) = e := by
  unfold link
  rw [next_addNext, next_addNext, or_assoc]
  simp only [Prod.ext_iff, and_comm]

theorem next_foldl_link (es : List (α × α)) :
    Next (es.foldl link graph) c d ↔ Next graph c d ∨ (c, d) ∈ es ∨ (d, c) ∈ es := by
  induction es generalizing graph with
  | nil => simp
  | cons e es ih =>
    rw [List.foldl_cons, ih, next_link]
    simp only [List.mem_cons]
    tauto

end Edges

/-! ## The sweep -/

/-- What the stack leads to that was not seen: all seen after it, and what was found. -/
def explore (graph : Dict α (List α)) : List α → List α → List α → List α × List α
  | [], seen, found => (seen, found)
  | a :: stack, seen, found =>
    if a ∈ seen then explore graph stack seen found
    else explore graph (((graph.get a).getD []).filter (· ∉ a :: seen) ++ stack) (a :: seen) (found ++ [a])
termination_by stack seen => ((graph.rows.map Prod.fst).countP (· ∉ seen), stack.length)
decreasing_by
  · exact Prod.Lex.right _ (Nat.lt_succ_self _)
  · rename_i hseen
    cases hget : graph.get a with
    | none =>
      apply Prod.Lex.right'
      · apply List.countP_mono_left
        exact fun x _ hx => decide_eq_true (fresh_of_cons (of_decide_eq_true hx))
      · simp
    | some next =>
      apply Prod.Lex.left
      apply countP_fresh_lt ?_ hseen
      apply Dict.mem_keys.mpr
      rw [hget]
      exact Option.some_ne_none _

def sweep (graph : Dict α (List α)) : List α → List α → List (List α)
  | [], _ => []
  | a :: nodes, seen =>
    if a ∈ seen then sweep graph nodes seen
    else (explore graph [a] seen []).2 :: sweep graph nodes (explore graph [a] seen []).1

section Sweep
variable {graph : Dict α (List α)} {stack seen found : List α}

structure Finds (graph : Dict α (List α)) (stack seen found new : List α) : Prop where
  eq : explore graph stack seen found = (new.reverse ++ seen, found ++ new)
  nodup : new.Nodup
  fresh : ∀ x ∈ new, x ∉ seen
  reached : ∀ x ∈ new, ∃ a ∈ stack, Relation.ReflTransGen (Next graph) a x
  taken : ∀ a ∈ stack, a ∈ new ∨ a ∈ seen

theorem explore_finds (graph : Dict α (List α)) (stack seen found : List α) :
    ∃ new, Finds graph stack seen found new := by
  induction stack, seen, found using explore.induct graph with
  | case1 seen found =>
    refine ⟨[], ?_, .nil, by simp, by simp, by simp⟩
    simp [explore]
  | case2 a stack seen found hseen ih =>
    obtain ⟨new, hnew⟩ := ih
    refine ⟨new, ?_, hnew.nodup, hnew.fresh, ?_, ?_⟩
    · rw [explore, if_pos hseen]
      exact hnew.eq
    · intro x hx
      obtain ⟨b, hb, hpath⟩ := hnew.reached x hx
      exact ⟨b, List.mem_cons_of_mem a hb, hpath⟩
    · intro b hb
      rcases List.mem_cons.mp hb with rfl | hb
      · exact Or.inr hseen
      · exact hnew.taken b hb
  | case3 a stack seen found hseen ih =>
    obtain ⟨new, hnew⟩ := ih
    refine ⟨a :: new, ?_, ?_, ?_, ?_, ?_⟩
    · rw [explore, if_neg hseen, hnew.eq]
      simp
    · apply List.nodup_cons.mpr
      exact ⟨fun hmem => hnew.fresh a hmem List.mem_cons_self, hnew.nodup⟩
    · intro x hx
      rcases List.mem_cons.mp hx with rfl | hx
      · exact hseen
      · exact fresh_of_cons (hnew.fresh x hx)
    · intro x hx
      rcases List.mem_cons.mp hx with rfl | hx
      · exact ⟨x, List.mem_cons_self, .refl⟩
      · obtain ⟨b, hb, hpath⟩ := hnew.reached x hx
        rcases List.mem_append.mp hb with hb | hb
        · exact ⟨a, List.mem_cons_self, .head (List.mem_filter.mp hb).1 hpath⟩
        · exact ⟨b, List.mem_cons_of_mem a hb, hpath⟩
    · intro b hb
      rcases List.mem_cons.mp hb with rfl | hb
      · exact Or.inl List.mem_cons_self
      · rcases hnew.taken b (List.mem_append_right _ hb) with hmem | hmem
        · exact Or.inl (List.mem_cons_of_mem a hmem)
        · rcases List.mem_cons.mp hmem with rfl | hmem
          · exact Or.inl List.mem_cons_self
          · exact Or.inr hmem

structure Swept (graph : Dict α (List α)) (nodes seen : List α) (pieces : List (List α)) : Prop where
  nodup : pieces.flatten.Nodup
  fresh : ∀ x ∈ pieces.flatten, x ∉ seen
  rooted : ∀ piece ∈ pieces, ∃ a ∈ nodes, a ∈ piece ∧ ∀ x ∈ piece, Relation.ReflTransGen (Next graph) a x
  taken : ∀ a ∈ nodes, a ∈ seen ∨ a ∈ pieces.flatten

theorem swept_sweep (graph : Dict α (List α)) (nodes seen : List α) :
    Swept graph nodes seen (sweep graph nodes seen) := by
  induction nodes generalizing seen with
  | nil => exact ⟨by simp [sweep], by simp [sweep], by simp [sweep], by simp⟩
  | cons a nodes ih =>
    unfold sweep
    split
    · rename_i hseen
      have hrest := ih seen
      refine ⟨hrest.nodup, hrest.fresh, ?_, ?_⟩
      · intro piece hpiece
        obtain ⟨b, hb, hroot⟩ := hrest.rooted piece hpiece
        exact ⟨b, List.mem_cons_of_mem a hb, hroot⟩
      · intro b hb
        rcases List.mem_cons.mp hb with rfl | hb
        · exact Or.inl hseen
        · exact hrest.taken b hb
    · rename_i hseen
      obtain ⟨new, hnew⟩ := explore_finds graph [a] seen []
      rw [hnew.eq, List.nil_append]
      have hrest := ih (new.reverse ++ seen)
      have ha : a ∈ new := (hnew.taken a List.mem_cons_self).resolve_right hseen
      refine ⟨?_, ?_, ?_, ?_⟩
      · rw [List.flatten_cons]
        apply List.nodup_append.mpr
        refine ⟨hnew.nodup, hrest.nodup, ?_⟩
        rintro x hx y hy rfl
        exact hrest.fresh x hy (List.mem_append_left _ (List.mem_reverse.mpr hx))
      · intro x hx
        rw [List.flatten_cons] at hx
        rcases List.mem_append.mp hx with hx | hx
        · exact hnew.fresh x hx
        · exact fun hmem => hrest.fresh x hx (List.mem_append_right _ hmem)
      · intro piece hpiece
        rcases List.mem_cons.mp hpiece with rfl | hpiece
        · refine ⟨a, List.mem_cons_self, ha, fun x hx => ?_⟩
          obtain ⟨b, hb, hpath⟩ := hnew.reached x hx
          rw [List.mem_singleton.mp hb] at hpath
          exact hpath
        · obtain ⟨b, hb, hroot⟩ := hrest.rooted piece hpiece
          exact ⟨b, List.mem_cons_of_mem a hb, hroot⟩
      · intro b hb
        rw [List.flatten_cons]
        rcases List.mem_cons.mp hb with rfl | hb
        · exact Or.inr (List.mem_append_left _ ha)
        · rcases hrest.taken b hb with hmem | hmem
          · rcases List.mem_append.mp hmem with hmem | hmem
            · exact Or.inr (List.mem_append_left _ (List.mem_reverse.mp hmem))
            · exact Or.inl hmem
          · exact Or.inr (List.mem_append_right _ hmem)

end Sweep

end LoopLab.Lib
