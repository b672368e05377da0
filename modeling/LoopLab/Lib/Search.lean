import LoopLab.Lib.Custody
import LoopLab.Lib.Front
import Mathlib.Logic.Relation

/-!
# Search in a finite graph

A depth-first search from a stack finds the goal exactly when one of the stack reaches it.
-/

set_option autoImplicit false

namespace LoopLab.Lib

universe u
variable {α : Type u}

def CycleFree (edge : α → α → Prop) : Prop := ∀ a, ¬ Relation.TransGen edge a a

section CycleFree
variable {edge added all : α → α → Prop} {a b : α}

theorem CycleFree.mono (h : CycleFree all) (hsub : ∀ a b, edge a b → all a b) : CycleFree edge :=
  fun a hcycle => h a (Relation.TransGen.mono hsub _ _ hcycle)

theorem path_cases (h : Relation.TransGen (fun a b => edge a b ∨ added a b) a b) :
    Relation.TransGen edge a b ∨ ∃ s d, added s d ∧
      Relation.ReflTransGen (fun a b => edge a b ∨ added a b) a s ∧
      Relation.ReflTransGen (fun a b => edge a b ∨ added a b) d b := by
  induction h with
  | single hedge =>
    rcases hedge with hold | hnew
    · exact .inl (.single hold)
    · exact .inr ⟨_, _, hnew, .refl, .refl⟩
  | tail hpath hedge ih =>
    rcases ih with hold | ⟨s, d, hnew, hfront, hback⟩
    · rcases hedge with hold' | hnew
      · exact .inl (hold.tail hold')
      · exact .inr ⟨_, _, hnew, hpath.to_reflTransGen, .refl⟩
    · exact .inr ⟨s, d, hnew, hfront, hback.tail hedge⟩

theorem cycleFree_union_iff (h : CycleFree edge) :
    CycleFree (fun a b => edge a b ∨ added a b) ↔
      ∀ s d, added s d → ¬ Relation.ReflTransGen (fun a b => edge a b ∨ added a b) d s := by
  constructor
  · intro hfree s d hnew hback
    exact hfree s (.head' (.inr hnew) hback)
  · intro hnone a hcycle
    rcases path_cases hcycle with hold | ⟨s, d, hnew, hfront, hback⟩
    · exact h a hold
    · exact hnone s d hnew (hback.trans hfront)

end CycleFree

variable [DecidableEq α]

def Next (graph : Dict α (List α)) (a b : α) : Prop := b ∈ (graph.get a).getD []

omit [DecidableEq α] in
theorem fresh_of_cons {a x : α} {visited : List α} (h : x ∉ a :: visited) : x ∉ visited :=
  fun hmem => h (List.mem_cons_of_mem a hmem)

theorem countP_fresh_lt {keys visited : List α} {a : α} (ha : a ∈ keys) (hnew : a ∉ visited) :
    keys.countP (· ∉ a :: visited) < keys.countP (· ∉ visited) := by
  rw [List.countP_eq_length_filter, List.countP_eq_length_filter]
  apply filter_length_lt ?_ ha
  · exact decide_eq_true hnew
  · exact decide_eq_false (not_not_intro List.mem_cons_self)
  · exact fun x _ hx => decide_eq_true (fresh_of_cons (of_decide_eq_true hx))

/-- Whether the search from the stack finds the goal; the last of the successors is looked at first. -/
def reaches (graph : Dict α (List α)) (goal : α) : List α → List α → Bool
  | [], _ => false
  | a :: rest, visited =>
    if a = goal then true
    else if a ∈ visited then reaches graph goal rest visited
    else reaches graph goal (((graph.get a).getD []).reverse ++ rest) (a :: visited)
termination_by stack visited => ((graph.rows.map Prod.fst).countP (· ∉ visited), stack.length)
decreasing_by
  · exact Prod.Lex.right _ (Nat.lt_succ_self _)
  · rename_i hvisited
    cases hget : graph.get a with
    | none =>
      -- what has no successors is no key, and the stack shrinks by it
      apply Prod.Lex.right'
      · apply List.countP_mono_left
        exact fun x _ hx => decide_eq_true (fresh_of_cons (of_decide_eq_true hx))
      · simp
    | some next =>
      apply Prod.Lex.left
      apply countP_fresh_lt ?_ hvisited
      apply Dict.mem_keys.mpr
      rw [hget]
      exact Option.some_ne_none _

section Search
variable {graph : Dict α (List α)} {goal a : α} {stack visited : List α}

structure Explored (graph : Dict α (List α)) (goal : α) (stack visited : List α) : Prop where
  fresh : goal ∉ visited
  closed : ∀ a ∈ visited, ∀ b, Next graph a b → b ∈ visited ∨ b ∈ stack

theorem Explored.leaves (h : Explored graph goal stack visited) (ha : a ∈ visited)
    (hpath : Relation.ReflTransGen (Next graph) a goal) :
    ∃ b ∈ stack, b ∉ visited ∧ Relation.ReflTransGen (Next graph) b goal := by
  induction hpath using Relation.ReflTransGen.head_induction_on with
  | refl => exact absurd ha h.fresh
  | @head a b hedge hrest ih =>
    by_cases hb : b ∈ visited
    · exact ih hb
    · rcases h.closed a ha b hedge with hmem | hmem
      · exact absurd hmem hb
      · exact ⟨b, hmem, hb, hrest⟩

theorem reaches_iff (h : Explored graph goal stack visited) :
    reaches graph goal stack visited = true ↔ ∃ a ∈ stack, Relation.ReflTransGen (Next graph) a goal := by
  induction stack, visited using reaches.induct graph goal with
  | case1 visited =>
    unfold reaches
    simp
  | case2 rest visited =>
    unfold reaches
    rw [if_pos rfl]
    exact iff_of_true rfl ⟨goal, List.mem_cons_self, .refl⟩
  | case3 a rest visited hne hvisited ih =>
    have hrest : Explored graph goal rest visited := by
      refine ⟨h.fresh, fun b hb c hedge => ?_⟩
      rcases h.closed b hb c hedge with hmem | hmem
      · exact .inl hmem
      · rcases List.mem_cons.mp hmem with rfl | hmem
        · exact .inl hvisited
        · exact .inr hmem
    unfold reaches
    rw [if_neg hne, if_pos hvisited, ih hrest]
    constructor
    · rintro ⟨b, hb, hpath⟩
      exact ⟨b, List.mem_cons_of_mem a hb, hpath⟩
    · rintro ⟨b, hb, hpath⟩
      rcases List.mem_cons.mp hb with rfl | hb
      · obtain ⟨c, hc, -, hpath'⟩ := hrest.leaves hvisited hpath
        exact ⟨c, hc, hpath'⟩
      · exact ⟨b, hb, hpath⟩
  | case4 a rest visited hne hvisited ih =>
    have hnext : Explored graph goal (((graph.get a).getD []).reverse ++ rest) (a :: visited) := by
      constructor
      · intro hmem
        rcases List.mem_cons.mp hmem with rfl | hmem
        · exact hne rfl
        · exact h.fresh hmem
      · intro b hb c hedge
        rcases List.mem_cons.mp hb with rfl | hb
        · exact .inr (List.mem_append_left _ (List.mem_reverse.mpr hedge))
        · rcases h.closed b hb c hedge with hmem | hmem
          · exact .inl (List.mem_cons_of_mem a hmem)
          · rcases List.mem_cons.mp hmem with rfl | hmem
            · exact .inl List.mem_cons_self
            · exact .inr (List.mem_append_right _ hmem)
    unfold reaches
    rw [if_neg hne, if_neg hvisited, ih hnext]
    constructor
    · rintro ⟨b, hb, hpath⟩
      rcases List.mem_append.mp hb with hb | hb
      · exact ⟨a, List.mem_cons_self, .head (List.mem_reverse.mp hb) hpath⟩
      · exact ⟨b, List.mem_cons_of_mem a hb, hpath⟩
    · rintro ⟨b, hb, hpath⟩
      rcases List.mem_cons.mp hb with rfl | hb
      · rcases Relation.ReflTransGen.cases_head hpath with rfl | ⟨c, hedge, hrest⟩
        · exact absurd rfl hne
        · exact ⟨c, List.mem_append_left _ (List.mem_reverse.mpr hedge), hrest⟩
      · exact ⟨b, List.mem_append_right _ hb, hpath⟩

theorem reaches_single_iff : reaches graph goal [a] [] = true ↔ Relation.ReflTransGen (Next graph) a goal := by
  have hstart : Explored graph goal [a] [] := ⟨List.not_mem_nil, fun b hb => absurd hb List.not_mem_nil⟩
  rw [reaches_iff hstart]
  simp

end Search

/-! ## What a stack leads to -/

def successors (graph : Dict α (List α)) : List α := graph.rows.flatMap Prod.snd

/-- The successors of a node that were not seen, each once. -/
def freshNext (graph : Dict α (List α)) (seen : List α) (a : α) : List α :=
  ((graph.get a).getD []).eraseDups.filter (· ∉ seen)

theorem mem_freshNext {graph : Dict α (List α)} {seen : List α} {a b : α} :
    b ∈ freshNext graph seen a ↔ Next graph a b ∧ b ∉ seen := by
  unfold freshNext Next
  rw [List.mem_filter, List.mem_eraseDups, decide_eq_true_eq]

theorem mem_successors {graph : Dict α (List α)} {a b : α} (h : Next graph a b) : b ∈ successors graph := by
  unfold Next Dict.get at h
  cases hget : Table.get graph a with
  | none =>
    rw [hget] at h
    cases h
  | some row =>
    rw [hget] at h
    exact List.mem_flatMap.mpr ⟨row, List.mem_of_find?_eq_some hget, h⟩

/-- The stack is followed to its end; what is seen for the first time is put on it. -/
def gather (graph : Dict α (List α)) : List α → List α → List α
  | [], seen => seen
  | a :: stack, seen =>
    gather graph ((freshNext graph seen a).reverse ++ stack) (seen ++ freshNext graph seen a)
termination_by stack seen => ((successors graph).countP (· ∉ seen), stack.length)
decreasing_by
  cases hnew : freshNext graph seen a with
  | nil =>
    rw [List.append_nil]
    exact Prod.Lex.right _ (Nat.lt_succ_self _)
  | cons b rest =>
    have hb : b ∈ freshNext graph seen a := hnew ▸ List.mem_cons_self
    obtain ⟨hnext, hout⟩ := mem_freshNext.mp hb
    apply Prod.Lex.left
    rw [List.countP_eq_length_filter, List.countP_eq_length_filter]
    apply filter_length_lt ?_ (mem_successors hnext)
    · exact decide_eq_true hout
    · exact decide_eq_false (not_not_intro (List.mem_append_right seen List.mem_cons_self))
    · intro x _ hx
      exact decide_eq_true fun hmem => of_decide_eq_true hx (List.mem_append_left _ hmem)

section Gather
variable {graph : Dict α (List α)} {stack seen : List α} {a b : α}

structure Gathers (graph : Dict α (List α)) (stack seen found : List α) : Prop where
  kept : ∀ x ∈ seen, x ∈ found
  reached : ∀ x ∈ found, x ∈ seen ∨ ∃ a ∈ stack, Relation.TransGen (Next graph) a x
  pushed : ∀ a ∈ stack, ∀ b, Next graph a b → b ∈ found
  closed : (∀ a ∈ seen, a ∈ stack ∨ ∀ b, Next graph a b → b ∈ seen) → ∀ a ∈ found, ∀ b, Next graph a b → b ∈ found

theorem gather_gathers (graph : Dict α (List α)) (stack seen : List α) :
    Gathers graph stack seen (gather graph stack seen) := by
  induction stack, seen using gather.induct graph with
  | case1 seen =>
    rw [gather]
    refine ⟨fun _ hx => hx, fun _ hx => Or.inl hx, fun _ ha => absurd ha List.not_mem_nil, ?_⟩
    intro hclosed a ha b hedge
    rcases hclosed a ha with hmem | hall
    · exact absurd hmem List.not_mem_nil
    · exact hall b hedge
  | case2 a stack seen ih =>
    rw [gather]
    have hnext (b : α) (hedge : Next graph a b) : b ∈ seen ++ freshNext graph seen a := by
      by_cases hb : b ∈ seen
      · exact List.mem_append_left _ hb
      · exact List.mem_append_right _ (mem_freshNext.mpr ⟨hedge, hb⟩)
    refine ⟨fun x hx => ih.kept x (List.mem_append_left _ hx), ?_, ?_, ?_⟩
    · intro x hx
      rcases ih.reached x hx with hmem | ⟨c, hc, hpath⟩
      · rcases List.mem_append.mp hmem with hmem | hmem
        · exact Or.inl hmem
        · exact Or.inr ⟨a, List.mem_cons_self, .single (mem_freshNext.mp hmem).1⟩
      · rcases List.mem_append.mp hc with hc | hc
        · have hedge := (mem_freshNext.mp (List.mem_reverse.mp hc)).1
          exact Or.inr ⟨a, List.mem_cons_self, .head hedge hpath⟩
        · exact Or.inr ⟨c, List.mem_cons_of_mem a hc, hpath⟩
    · intro c hc b hedge
      rcases List.mem_cons.mp hc with rfl | hc
      · exact ih.kept b (hnext b hedge)
      · exact ih.pushed c (List.mem_append_right _ hc) b hedge
    · intro hclosed
      apply ih.closed
      intro c hc
      rcases List.mem_append.mp hc with hc | hc
      · rcases hclosed c hc with hmem | hall
        · rcases List.mem_cons.mp hmem with rfl | hmem
          · exact Or.inr hnext
          · exact Or.inl (List.mem_append_right _ hmem)
        · exact Or.inr fun b hedge => List.mem_append_left _ (hall b hedge)
      · exact Or.inl (List.mem_append_left _ (List.mem_reverse.mpr hc))

theorem mem_gather_single : b ∈ gather graph [a] [] ↔ Relation.TransGen (Next graph) a b := by
  obtain ⟨-, hreached, hpushed, hclosed⟩ := gather_gathers graph [a] []
  constructor
  · intro hb
    rcases hreached b hb with hmem | ⟨c, hc, hpath⟩
    · exact absurd hmem List.not_mem_nil
    · obtain rfl := List.mem_singleton.mp hc
      exact hpath
  · intro hpath
    induction hpath with
    | single hedge => exact hpushed a (List.mem_singleton_self a) _ hedge
    | tail _ hedge ih => exact hclosed (fun x hx => absurd hx List.not_mem_nil) _ ih _ hedge

end Gather

end LoopLab.Lib
