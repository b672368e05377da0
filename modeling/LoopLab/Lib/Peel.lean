import LoopLab.Lib.Table
import LoopLab.Lib.Parents

/-!
# Peeling the leaves of a finite map of parents

Points without a child are removed until none is left. What stays is what is on a cycle, whatever
the order of the removals.
-/

set_option autoImplicit false

namespace LoopLab.Lib

universe u
variable {α : Type u}

inductive Peelable (up : α → Option α) : List α → Prop
  | nil : Peelable up []
  | cons {x : α} {removed : List α} (hx : x ∉ removed) (hchild : ∀ y, up y = some x → y ∈ removed)
      (h : Peelable up removed) : Peelable up (x :: removed)

theorem Peelable.off_cycles {up : α → Option α} {removed : List α} (h : Peelable up removed) :
    ∀ x ∈ removed, ¬ OnCycle up x := by
  induction h with
  | nil =>
    intro x hx
    cases hx
  | cons _ hchild _ ih =>
    intro z hz hcycle
    rcases List.mem_cons.mp hz with rfl | hz
    · obtain ⟨y, hy, hon⟩ := hcycle.child
      exact ih y (hchild y hy) hon
    · exact ih z hz hcycle

theorem Peelable.nodup {up : α → Option α} {removed : List α} (h : Peelable up removed) :
    removed.Nodup := by
  induction h with
  | nil => exact .nil
  | cons hx _ _ ih => exact List.nodup_cons.mpr ⟨hx, ih⟩

theorem Peelable.children {up : α → Option α} {removed : List α} (h : Peelable up removed)
    {x y : α} (hx : x ∈ removed) (hy : up y = some x) : y ∈ removed := by
  induction h with
  | nil => cases hx
  | cons _ hchild _ ih =>
    rcases List.mem_cons.mp hx with rfl | hx
    · exact List.mem_cons_of_mem _ (hchild y hy)
    · exact List.mem_cons_of_mem _ (ih hx)

variable [DecidableEq α]

def childCounts (edges : Dict α α) : Dict α Nat :=
  edges.rows.foldl (fun counts e => counts.set e.2 ((counts.get e.2).getD 0 + 1)) Table.empty

def countOf (counts : Dict α Nat) (x : α) : Nat := (counts.get x).getD 0

/-- Remove the points of the stack, and those the removals leave without a child. -/
def peelLoop (edges : Dict α α) : Nat → List α → Dict α Nat → Dict α Nat
  | 0, _, counts => counts
  | _ + 1, [], counts => counts
  | fuel + 1, x :: peel, counts =>
    match edges.get x with
    | none => peelLoop edges fuel peel counts
    | some target =>
      let left := (counts.get target).getD 1 - 1
      peelLoop edges fuel (if left = 0 && Table.has edges target then target :: peel else peel)
        (counts.set target left)

def peeledCycles (edges : Dict α α) : List α :=
  let keys := edges.rows.map Prod.fst
  let counts := childCounts edges
  let leaves := (keys.filter fun x => countOf counts x = 0).reverse
  let rest := peelLoop edges keys.length leaves counts
  keys.filter fun x => 0 < countOf rest x

/-! ## Counts -/

def openChildren (edges : Dict α α) (removed : List α) (x : α) : Nat :=
  edges.rows.countP fun e => e.2 = x && !removed.contains e.1

theorem countOf_set (counts : Dict α Nat) (x y : α) (n : Nat) :
    countOf (counts.set x n) y = if y = x then n else countOf counts y := by
  unfold countOf
  rw [Dict.get_set]
  split <;> rfl

theorem countOf_childCounts (edges : Dict α α) (x : α) :
    countOf (childCounts edges) x = openChildren edges [] x := by
  have key (rows : List (α × α)) (counts : Dict α Nat) :
      countOf (rows.foldl (fun c e => c.set e.2 ((c.get e.2).getD 0 + 1)) counts) x =
        countOf counts x + rows.countP fun e => e.2 = x := by
    induction rows generalizing counts with
    | nil => rfl
    | cons e rows ih =>
      rw [List.foldl_cons, ih, countOf_set, List.countP_cons]
      by_cases hx : x = e.2
      · subst hx
        simp only [if_true, decide_true, countOf]
        omega
      · have hne : e.2 ≠ x := fun h => hx h.symm
        simp only [if_neg hx, hne, decide_false, Bool.false_eq_true, if_false]
        omega
  unfold childCounts openChildren
  rw [key]
  simp [countOf]

theorem openChildren_pos {edges : Dict α α} {removed : List α} {x : α} :
    0 < openChildren edges removed x ↔ ∃ y, edges.get y = some x ∧ y ∉ removed := by
  unfold openChildren
  rw [List.countP_pos_iff]
  constructor
  · rintro ⟨e, he, hp⟩
    simp only [Bool.and_eq_true, decide_eq_true_eq, Bool.not_eq_true', List.contains_eq_mem,
      decide_eq_false_iff_not] at hp
    refine ⟨e.1, ?_, hp.2⟩
    unfold Dict.get
    rw [Table.get_of_mem he, ← hp.1]
    rfl
  · rintro ⟨y, hy, hout⟩
    obtain ⟨e, he, rfl⟩ := Option.map_eq_some_iff.mp hy
    have hkey := Table.key_of_get he
    refine ⟨e, Table.mem_of_get he, ?_⟩
    rw [hkey]
    simp [hout]

theorem openChildren_remove {edges : Dict α α} {removed : List α} {x target : α}
    (hx : edges.get x = some target) (hout : x ∉ removed) (y : α) :
    openChildren edges removed y =
      openChildren edges (x :: removed) y + if y = target then 1 else 0 := by
  obtain ⟨e, he, rfl⟩ := Option.map_eq_some_iff.mp hx
  have hkey : e.1 = x := Table.key_of_get he
  have hmem := Table.mem_of_get he
  have hnodup := edges.nodup
  unfold openChildren
  generalize edges.rows = rows at hmem hnodup
  induction rows with
  | nil => cases hmem
  | cons r rows ih =>
    obtain ⟨hr, hrest⟩ := List.nodup_cons.mp hnodup
    rw [List.countP_cons, List.countP_cons]
    rcases List.mem_cons.mp hmem with rfl | hmem
    · have hothers : rows.countP (fun e' => e'.2 = y && !removed.contains e'.1) =
          rows.countP fun e' => e'.2 = y && !(x :: removed).contains e'.1 := by
        apply List.countP_congr
        intro e' he'
        have hne : e'.1 ≠ x := by
          intro heq
          apply hr
          rw [hkey, ← heq]
          exact List.mem_map_of_mem he'
        simp [hne]
      rw [hothers, hkey]
      by_cases hy : y = e.2
      · simp [hy, hout]
      · have hne : e.2 ≠ y := fun h => hy h.symm
        simp [hy, hne]
    · have hne : r.1 ≠ x := by
        intro heq
        apply hr
        rw [heq, ← hkey]
        exact List.mem_map_of_mem hmem
      rw [ih hmem hrest]
      simp only [List.contains_cons, Bool.not_or]
      have hbeq : (r.1 == x) = false := by simpa using hne
      rw [hbeq]
      simp only [Bool.not_false, Bool.true_and]
      omega

/-! ## The loop -/

structure Peeling (edges : Dict α α) (removed peel : List α) (counts : Dict α Nat) : Prop where
  order : Peelable edges.get removed
  keys : ∀ x ∈ removed, Table.has edges x = true
  count : ∀ x, countOf counts x = openChildren edges removed x
  stack : ∀ x, x ∈ peel ↔ Table.has edges x = true ∧ x ∉ removed ∧ countOf counts x = 0
  distinct : peel.Nodup

theorem has_of_get {edges : Dict α α} {x y : α} (h : edges.get x = some y) :
    Table.has edges x = true := by
  obtain ⟨e, he, -⟩ := Option.map_eq_some_iff.mp h
  unfold Table.has
  rw [he]
  rfl

theorem get_of_has {edges : Dict α α} {x : α} (h : Table.has edges x = true) :
    ∃ y, edges.get x = some y := by
  unfold Table.has at h
  obtain ⟨e, he⟩ := Option.isSome_iff_exists.mp h
  exact ⟨e.2, by unfold Dict.get; rw [he]; rfl⟩

theorem hasKey_iff {edges : Dict α α} {x : α} :
    x ∈ edges.rows.map Prod.fst ↔ Table.has edges x = true := by
  constructor
  · intro hx
    obtain ⟨e, he, rfl⟩ := List.mem_map.mp hx
    unfold Table.has
    rw [Table.get_of_mem he]
    rfl
  · intro hx
    obtain ⟨e, he⟩ := Option.isSome_iff_exists.mp hx
    rw [← Table.key_of_get he]
    exact List.mem_map_of_mem (Table.mem_of_get he)

theorem Peeling.step {edges : Dict α α} {removed peel : List α} {counts : Dict α Nat} {x target : α}
    (h : Peeling edges removed (x :: peel) counts) (hx : edges.get x = some target) :
    Peeling edges (x :: removed)
      (if (counts.get target).getD 1 - 1 = 0 && Table.has edges target then target :: peel else peel)
      (counts.set target ((counts.get target).getD 1 - 1)) := by
  obtain ⟨hhas, hout, hzero⟩ := (h.stack x).mp List.mem_cons_self
  have hchild (y : α) (hy : edges.get y = some x) : y ∈ removed := by
    by_contra hnot
    have := openChildren_pos.mpr ⟨y, hy, hnot⟩
    rw [← h.count x] at this
    omega
  -- the target still has the removed point for a child
  have hpos : 0 < countOf counts target := by
    rw [h.count target]
    exact openChildren_pos.mpr ⟨x, hx, hout⟩
  have hget : (counts.get target).getD 1 = countOf counts target := by
    unfold countOf at hpos ⊢
    cases hc : counts.get target with
    | none =>
      rw [hc] at hpos
      exact absurd hpos (Nat.lt_irrefl 0)
    | some n => rfl
  have hleft : countOf counts target - 1 = openChildren edges (x :: removed) target := by
    have := openChildren_remove hx hout target
    rw [← h.count target, if_pos rfl] at this
    omega
  have hcount (y : α) : countOf (counts.set target (countOf counts target - 1)) y =
      openChildren edges (x :: removed) y := by
    rw [countOf_set]
    split
    · rename_i hy
      rw [hy, hleft]
    · rename_i hy
      have := openChildren_remove hx hout y
      rw [if_neg hy] at this
      rw [h.count y]
      exact this
  have htarget : target ∉ removed := by
    intro hin
    exact hout (h.order.children hin hx)
  have hne : target ≠ x := by
    rintro rfl
    omega
  have hfresh : target ∉ peel := by
    intro hin
    have := ((h.stack target).mp (List.mem_cons_of_mem _ hin)).2.2
    omega
  have hnodup := List.nodup_cons.mp h.distinct
  have hrest (y : α) (hy : y ≠ target) : y ∈ peel ↔ Table.has edges y = true ∧ y ∉ x :: removed ∧
      countOf (counts.set target (countOf counts target - 1)) y = 0 := by
    rw [countOf_set, if_neg hy, List.mem_cons, not_or]
    constructor
    · intro hin
      obtain ⟨h1, h2, h3⟩ := (h.stack y).mp (List.mem_cons_of_mem _ hin)
      refine ⟨h1, ⟨?_, h2⟩, h3⟩
      rintro rfl
      exact hnodup.1 hin
    · rintro ⟨h1, ⟨hyx, h2⟩, h3⟩
      exact ((List.mem_cons.mp ((h.stack y).mpr ⟨h1, h2, h3⟩)).resolve_left hyx)
  rw [hget]
  refine ⟨.cons hout hchild h.order, ?_, hcount, ?_, ?_⟩
  · intro y hy
    rcases List.mem_cons.mp hy with rfl | hy
    · exact hhas
    · exact h.keys y hy
  · intro y
    by_cases hy : y = target
    · subst hy
      rw [countOf_set, if_pos rfl, List.mem_cons, not_or]
      by_cases hcond : countOf counts y - 1 = 0 ∧ Table.has edges y = true
      · rw [if_pos (by simpa using hcond)]
        exact ⟨fun _ => ⟨hcond.2, ⟨hne, htarget⟩, hcond.1⟩, fun _ => List.mem_cons_self⟩
      · rw [if_neg (by simpa using hcond)]
        exact ⟨fun hin => absurd hin hfresh, fun hall => absurd ⟨hall.2.2, hall.1⟩ hcond⟩
    · split
      · rw [List.mem_cons, or_iff_right hy]
        exact hrest y hy
      · exact hrest y hy
  · split
    · exact List.nodup_cons.mpr ⟨hfresh, hnodup.2⟩
    · exact hnodup.2

theorem Peeling.run {edges : Dict α α} {fuel : Nat} {removed peel : List α} {counts : Dict α Nat}
    (h : Peeling edges removed peel counts) (hfuel : edges.rows.length ≤ removed.length + fuel) :
    ∃ all, Peeling edges all [] (peelLoop edges fuel peel counts) := by
  induction fuel generalizing removed peel counts with
  | zero =>
    cases peel with
    | nil => exact ⟨removed, h⟩
    | cons x peel =>
      -- the point on the stack is one key too many
      obtain ⟨hhas, hout, -⟩ := (h.stack x).mp List.mem_cons_self
      have hsub : (x :: removed) ⊆ edges.rows.map Prod.fst := by
        intro y hy
        have hkey : Table.has edges y = true := by
          rcases List.mem_cons.mp hy with rfl | hy
          · exact hhas
          · exact h.keys y hy
        exact hasKey_iff.mpr hkey
      have hlen := (List.nodup_cons.mpr ⟨hout, h.order.nodup⟩).subperm hsub |>.length_le
      rw [List.length_map, List.length_cons] at hlen
      omega
  | succ fuel ih =>
    cases peel with
    | nil => exact ⟨removed, h⟩
    | cons x peel =>
      obtain ⟨target, hx⟩ := get_of_has ((h.stack x).mp List.mem_cons_self).1
      unfold peelLoop
      rw [hx]
      apply ih (h.step hx)
      rw [List.length_cons]
      omega

theorem mem_peeledCycles {edges : Dict α α} {x : α} :
    x ∈ peeledCycles edges ↔ OnCycle edges.get x := by
  have hstart : Peeling edges [] ((edges.rows.map Prod.fst).filter fun y =>
      countOf (childCounts edges) y = 0).reverse (childCounts edges) := by
    refine ⟨.nil, ?_, countOf_childCounts edges, ?_, ?_⟩
    · intro y hy
      cases hy
    · intro y
      rw [List.mem_reverse, List.mem_filter, hasKey_iff]
      simp
    · exact List.nodup_reverse.mpr (edges.nodup.filter _)
  have henough : edges.rows.length ≤
      ([] : List α).length + (edges.rows.map Prod.fst).length := by simp
  obtain ⟨all, h⟩ := hstart.run henough
  unfold peeledCycles
  dsimp only
  generalize peelLoop edges (edges.rows.map Prod.fst).length _ (childCounts edges) = rest at h ⊢
  have hleft (y : α) (hy : Table.has edges y = true) (hout : y ∉ all) : 0 < countOf rest y := by
    by_contra hzero
    have hstack := (h.stack y).mpr ⟨hy, hout, by omega⟩
    cases hstack
  have hkept (y : α) (hy : 0 < countOf rest y) : y ∉ all := by
    rw [h.count y] at hy
    obtain ⟨z, hz, hout⟩ := openChildren_pos.mp hy
    exact fun hin => hout (h.order.children hin hz)
  rw [List.mem_filter, decide_eq_true_eq, hasKey_iff]
  constructor
  · rintro ⟨hkey, hpos⟩
    have hmem (y : α) : y ∈ (edges.rows.map Prod.fst).filter (fun y => !all.contains y) ↔
        Table.has edges y = true ∧ y ∉ all := by
      rw [List.mem_filter, hasKey_iff]
      simp
    apply onCycle_of_children (s := (edges.rows.map Prod.fst).filter fun y => !all.contains y)
    · intro y hy
      obtain ⟨hy, hout⟩ := (hmem y).mp hy
      have hcount := hleft y hy hout
      rw [h.count y] at hcount
      obtain ⟨z, hz, hzout⟩ := openChildren_pos.mp hcount
      exact ⟨z, (hmem z).mpr ⟨has_of_get hz, hzout⟩, hz⟩
    · exact (hmem x).mpr ⟨hkey, hkept x hpos⟩
  · intro hcycle
    obtain ⟨y, hy, -⟩ := hcycle.parent
    refine ⟨has_of_get hy, hleft x (has_of_get hy) ?_⟩
    intro hin
    exact h.order.off_cycles x hin hcycle

end LoopLab.Lib
