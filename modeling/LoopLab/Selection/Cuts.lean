import LoopLab.Fold.Selection

/-!
# What was cut from a leader

A node names at most one parent, so the cuts below a leader are a tree and the walk meets each of them once, at its
own depth.
-/

set_option autoImplicit false

namespace LoopLab
open Lib

variable {fl : Floats} {env : Env} {st : RunState} {pool : List Node} {ruler : Ruler}
  {leader : Node} {anchor : Rat}

/-- A chain of receipts down from the leader, none of which leads back to it, each still true. -/
inductive CutBelow (st : RunState) (leader : Node) : Nat → Node → Prop
  | leader : CutBelow st leader 0 leader
  | cut {depth : Nat} {parent child : Node} (above : CutBelow st leader depth parent)
      (mem : child ∈ st.nodes.rows) (away : child.id ≠ leader.id)
      (link : stillCutOf parent child = true) : CutBelow st leader (depth + 1) child

theorem parent_of_stillCutOf {parent child : Node} (h : stillCutOf parent child = true) :
    ∃ receipt, child.simplified = some receipt ∧ receipt.parentId = parent.id := by
  unfold stillCutOf at h
  split at h
  · rename_i receipt _ hreceipt _
    simp only [Bool.and_eq_true, decide_eq_true_eq] at h
    exact ⟨receipt, hreceipt, h.1.1.1⟩
  · cases h

theorem parent_unique {parent parent' child : Node} (h : stillCutOf parent child = true)
    (h' : stillCutOf parent' child = true) : parent.id = parent'.id := by
  obtain ⟨receipt, hreceipt, hid⟩ := parent_of_stillCutOf h
  obtain ⟨receipt', hreceipt', hid'⟩ := parent_of_stillCutOf h'
  rw [hreceipt] at hreceipt'
  cases hreceipt'
  rw [← hid, hid']

theorem row_of_id {n m : Node} (hn : n ∈ st.nodes.rows) (hm : m ∈ st.nodes.rows)
    (h : n.id = m.id) : n = m :=
  List.inj_on_of_nodup_map st.nodes.nodup hn hm h

namespace CutBelow
variable {n m : Node} {d d' : Nat}

theorem eq_leader_or_row (h : CutBelow st leader d n) :
    (d = 0 ∧ n = leader) ∨ (0 < d ∧ n ∈ st.nodes.rows ∧ n.id ≠ leader.id) := by
  cases h with
  | leader => exact .inl ⟨rfl, rfl⟩
  | cut _ hmem haway _ => exact .inr ⟨Nat.succ_pos _, hmem, haway⟩

theorem unique (h : CutBelow st leader d n) (h' : CutBelow st leader d' m) (hid : n.id = m.id) :
    n = m ∧ d = d' := by
  induction h generalizing d' m with
  | leader =>
    rcases h'.eq_leader_or_row with ⟨rfl, rfl⟩ | ⟨_, _, haway⟩
    · exact ⟨rfl, rfl⟩
    · exact absurd hid.symm haway
  | @cut depth parent child _ hmem haway hlink ih =>
    cases h' with
    | leader => exact absurd hid haway
    | @cut depth' parent' child' habove' hmem' haway' hlink' =>
      have heq := row_of_id hmem hmem' hid
      subst heq
      obtain ⟨-, hdepth⟩ := ih habove' (parent_unique hlink hlink')
      exact ⟨rfl, by rw [hdepth]⟩

end CutBelow

/-! ## One child -/

section Step
variable (fl env st ruler pool leader anchor)

def Eligible (seen : List Int) (d : Nat) (v : Rat) (n : Node) : Prop :=
  n.id ∈ seen ∧ CutBelow st leader (d + 1) n ∧
    simplerValue fl env st ruler pool leader anchor n = some v

def cutKey (d : Nat) (v : Rat) (n : Node) : List Rat := [(d : Rat) + 1, st.fitness.vsign * v, -n.id]

def Chosen (w : Walk) : Prop :=
  match w.key with
  | none => w.chosen = leader ∧ ∀ d v n, ¬ Eligible fl env st pool ruler leader anchor w.seen d v n
  | some key => ∃ d v n, Eligible fl env st pool ruler leader anchor w.seen d v n ∧
      key = cutKey st d v n ∧ pool.find? (fun m => m.id = n.id) = some w.chosen ∧
      ∀ d' v' n', Eligible fl env st pool ruler leader anchor w.seen d' v' n' → ¬ key < cutKey st d' v' n'

/-- What a walk keeps: it looks below cuts only, and behind the seen ones lie seen ones, but for
those still to be looked below and the one in hand. -/
structure Walked (busy : Option Node) (w : Walk) : Prop where
  below : ∀ e ∈ w.frontier, CutBelow st leader e.2 e.1
  start : leader.id ∈ w.seen
  closed : ∀ d n, CutBelow st leader d n → n.id ∈ w.seen → (n, d) ∈ w.frontier ∨ busy = some n ∨
    ∀ child ∈ st.nodes.rows, stillCutOf n child = true → child.id ∈ w.seen
  chosen : Chosen fl env st pool ruler leader anchor w

def unseen (w : Walk) : Nat := st.nodes.rows.countP fun n => !w.seen.contains n.id

end Step

theorem find_of_simplerValue {n : Node} {v : Rat}
    (h : simplerValue fl env st ruler pool leader anchor n = some v) :
    ∃ m, pool.find? (fun m => m.id = n.id) = some m := by
  unfold simplerValue at h
  obtain ⟨m, hm, -⟩ := Option.bind_eq_some_iff.mp h
  exact ⟨m, hm⟩

def passed (parent : Node) (w : Walk) (child : Node) : Bool :=
  w.seen.contains child.id || !stillCutOf parent child

theorem walkChild_passed {parent child : Node} {depth : Nat} {w : Walk}
    (h : passed parent w child = true) :
    walkChild fl env st ruler pool leader anchor parent depth w child = w := by
  unfold walkChild
  exact if_pos h

theorem fresh_of_not_passed {parent child : Node} {w : Walk} (h : passed parent w child = false) :
    child.id ∉ w.seen ∧ stillCutOf parent child = true := by
  unfold passed at h
  rw [Bool.or_eq_false_iff, Bool.not_eq_false'] at h
  refine ⟨?_, h.2⟩
  intro hmem
  rw [List.contains_iff_mem.mpr hmem] at h
  cases h.1

variable (fl env st pool ruler leader anchor) in
theorem trail_walkChild {parent child : Node} (depth : Nat) {w : Walk}
    (h : passed parent w child = false) :
    (walkChild fl env st ruler pool leader anchor parent depth w child).seen = child.id :: w.seen ∧
      (walkChild fl env st ruler pool leader anchor parent depth w child).frontier =
        (child, depth + 1) :: w.frontier := by
  unfold passed at h
  unfold walkChild
  rw [h, if_neg Bool.false_ne_true]
  dsimp only
  split
  · exact ⟨rfl, rfl⟩
  · split <;> exact ⟨rfl, rfl⟩

theorem eligible_cons {seen : List Int} {d depth : Nat} {v : Rat} {n child : Node}
    (hchild : CutBelow st leader (depth + 1) child)
    (h : Eligible fl env st pool ruler leader anchor (child.id :: seen) d v n) :
    Eligible fl env st pool ruler leader anchor seen d v n ∨
      (n = child ∧ d = depth ∧ simplerValue fl env st ruler pool leader anchor child = some v) := by
  obtain ⟨hseen, hbelow, hvalue⟩ := h
  rcases List.mem_cons.mp hseen with hid | hseen
  · obtain ⟨rfl, hdepth⟩ := hbelow.unique hchild hid
    exact .inr ⟨rfl, Nat.succ_inj.mp hdepth, hvalue⟩
  · exact .inl ⟨hseen, hbelow, hvalue⟩

theorem Eligible.mono {seen : List Int} {d : Nat} {v : Rat} {n : Node} (id : Int)
    (h : Eligible fl env st pool ruler leader anchor seen d v n) :
    Eligible fl env st pool ruler leader anchor (id :: seen) d v n :=
  ⟨List.mem_cons_of_mem id h.1, h.2⟩

theorem Chosen.keep {w w' : Walk} {child : Node} {depth : Nat}
    (hw : Chosen fl env st pool ruler leader anchor w) (hchild : CutBelow st leader (depth + 1) child)
    (hseen : w'.seen = child.id :: w.seen) (hchosen : w'.chosen = w.chosen) (hkey : w'.key = w.key)
    (hno : ∀ v, simplerValue fl env st ruler pool leader anchor child = some v →
      ∃ key, w.key = some key ∧ ¬ key < cutKey st depth v child) :
    Chosen fl env st pool ruler leader anchor w' := by
  unfold Chosen at hw ⊢
  rw [hkey, hseen, hchosen]
  cases hk : w.key with
  | none =>
    rw [hk] at hw
    refine ⟨hw.1, ?_⟩
    intro d v n hel
    rcases eligible_cons hchild hel with hel | ⟨rfl, rfl, hvalue⟩
    · exact hw.2 d v n hel
    · obtain ⟨key, hkey, -⟩ := hno v hvalue
      rw [hk] at hkey
      cases hkey
  | some key =>
    rw [hk] at hw
    obtain ⟨d, v, n, hel, hkeyeq, hfind, hmax⟩ := hw
    refine ⟨d, v, n, hel.mono child.id, hkeyeq, hfind, ?_⟩
    intro d' v' n' hel'
    rcases eligible_cons hchild hel' with hel' | ⟨rfl, rfl, hvalue⟩
    · exact hmax d' v' n' hel'
    · obtain ⟨key', hkey', hle⟩ := hno v' hvalue
      rw [hk] at hkey'
      cases hkey'
      exact hle

theorem Chosen.take {w w' : Walk} {child m : Node} {depth : Nat} {v : Rat}
    (hw : Chosen fl env st pool ruler leader anchor w) (hchild : CutBelow st leader (depth + 1) child)
    (hseen : w'.seen = child.id :: w.seen)
    (hvalue : simplerValue fl env st ruler pool leader anchor child = some v)
    (hfind : pool.find? (fun m => m.id = child.id) = some m) (hchosen : w'.chosen = m)
    (hkey : w'.key = some (cutKey st depth v child))
    (hbetter : ∀ key, w.key = some key → key < cutKey st depth v child) :
    Chosen fl env st pool ruler leader anchor w' := by
  unfold Chosen
  rw [hkey, hseen, hchosen]
  refine ⟨depth, v, child, ⟨List.mem_cons_self, hchild, hvalue⟩, rfl, hfind, ?_⟩
  intro d' v' n' hel'
  rcases eligible_cons hchild hel' with hel' | ⟨rfl, rfl, hvalue'⟩
  · unfold Chosen at hw
    cases hk : w.key with
    | none =>
      rw [hk] at hw
      exact absurd hel' (hw.2 d' v' n')
    | some key =>
      rw [hk] at hw
      obtain ⟨_, _, _, _, _, _, hmax⟩ := hw
      intro hlt
      exact hmax d' v' n' hel' (lt_trans (hbetter key hk) hlt)
  · rw [hvalue] at hvalue'
    cases hvalue'
    exact lt_irrefl _

theorem chosen_walkChild_fresh {w : Walk} {parent child : Node} {depth : Nat}
    (hw : Chosen fl env st pool ruler leader anchor w) (hchild : CutBelow st leader (depth + 1) child)
    (h : passed parent w child = false) :
    Chosen fl env st pool ruler leader anchor
      (walkChild fl env st ruler pool leader anchor parent depth w child) := by
  unfold passed at h
  unfold walkChild
  rw [h, if_neg Bool.false_ne_true]
  dsimp only
  cases hvalue : simplerValue fl env st ruler pool leader anchor child with
  | none =>
    dsimp only
    refine hw.keep hchild ?_ ?_ ?_ ?_
    · rfl
    · rfl
    · rfl
    · intro v hv
      rw [hvalue] at hv
      cases hv
  | some v =>
    dsimp only
    obtain ⟨m, hm⟩ := find_of_simplerValue hvalue
    split
    · rename_i hbetter
      refine hw.take hchild ?_ hvalue hm ?_ ?_ ?_
      · rfl
      · dsimp only
        rw [hm]
        rfl
      · rfl
      · intro key hkey
        rw [hkey, Option.all_some, Py.tupleLt_iff] at hbetter
        exact hbetter
    · rename_i hnot
      refine hw.keep hchild ?_ ?_ ?_ ?_
      · rfl
      · rfl
      · rfl
      · intro v' hv'
        rw [hvalue] at hv'
        cases hv'
        cases hkey : w.key with
        | none =>
          rw [hkey] at hnot
          exact absurd rfl hnot
        | some key =>
          rw [hkey, Option.all_some, Py.tupleLt_iff] at hnot
          exact ⟨key, rfl, hnot⟩

theorem Walked.child {w : Walk} {parent child : Node} {depth : Nat}
    (hw : Walked fl env st pool ruler leader anchor (some parent) w)
    (hparent : CutBelow st leader depth parent) (hmem : child ∈ st.nodes.rows) :
    Walked fl env st pool ruler leader anchor (some parent)
      (walkChild fl env st ruler pool leader anchor parent depth w child) := by
  cases h : passed parent w child with
  | true =>
    rw [walkChild_passed h]
    exact hw
  | false =>
    obtain ⟨hfresh, hlink⟩ := fresh_of_not_passed h
    have haway : child.id ≠ leader.id := fun hid => hfresh (hid ▸ hw.start)
    have hchild : CutBelow st leader (depth + 1) child := .cut hparent hmem haway hlink
    obtain ⟨hseen, hfrontier⟩ := trail_walkChild fl env st pool ruler leader anchor depth h
    constructor
    · intro e he
      rw [hfrontier] at he
      rcases List.mem_cons.mp he with rfl | he
      · exact hchild
      · exact hw.below e he
    · rw [hseen]
      exact List.mem_cons_of_mem _ hw.start
    · intro d n hn hid
      rw [hseen] at hid
      rw [hseen, hfrontier]
      rcases List.mem_cons.mp hid with hid | hid
      · obtain ⟨rfl, rfl⟩ := hn.unique hchild hid
        exact .inl List.mem_cons_self
      · rcases hw.closed d n hn hid with hin | hbusy | hall
        · exact .inl (List.mem_cons_of_mem _ hin)
        · exact .inr (.inl hbusy)
        · exact .inr (.inr fun c hc hcut => List.mem_cons_of_mem _ (hall c hc hcut))
    · exact chosen_walkChild_fresh hw.chosen hchild h

theorem countP_seen {rows : List Node} {seen : List Int} {child : Node}
    (hnodup : (rows.map Node.id).Nodup) (hmem : child ∈ rows) (hfresh : child.id ∉ seen) :
    rows.countP (fun n => !(child.id :: seen).contains n.id) + 1 =
      rows.countP fun n => !seen.contains n.id := by
  induction rows with
  | nil => cases hmem
  | cons n rows ih =>
    obtain ⟨hn, hnodup⟩ := List.nodup_cons.mp hnodup
    rw [List.countP_cons, List.countP_cons]
    rcases List.mem_cons.mp hmem with rfl | hmem
    · have hrest : rows.countP (fun n => !(child.id :: seen).contains n.id) =
          rows.countP fun n => !seen.contains n.id := by
        apply List.countP_congr
        intro m hm
        have hne : m.id ≠ child.id := fun h => hn (h ▸ List.mem_map_of_mem hm)
        simp [hne]
      rw [hrest]
      simp [hfresh]
    · have hne : n.id ≠ child.id := fun h => hn (h ▸ List.mem_map_of_mem hmem)
      have hsame : (!(child.id :: seen).contains n.id) = !seen.contains n.id := by simp [hne]
      rw [hsame, ← ih hnodup hmem]
      omega

theorem work_walkChild {w : Walk} {parent child : Node} {depth : Nat} (hmem : child ∈ st.nodes.rows) :
    (walkChild fl env st ruler pool leader anchor parent depth w child).frontier.length
        + unseen st (walkChild fl env st ruler pool leader anchor parent depth w child) =
      w.frontier.length + unseen st w := by
  cases h : passed parent w child with
  | true => rw [walkChild_passed h]
  | false =>
    obtain ⟨hfresh, -⟩ := fresh_of_not_passed h
    obtain ⟨hseen, hfrontier⟩ := trail_walkChild fl env st pool ruler leader anchor depth h
    unfold unseen
    rw [hseen, hfrontier, List.length_cons, ← countP_seen st.nodes.nodup hmem hfresh]
    omega

/-! ## All children of a node, and the walk -/

variable (fl env st ruler pool leader anchor) in
def walkChildren (parent : Node) (depth : Nat) (w : Walk) (children : List Node) : Walk :=
  children.foldl (walkChild fl env st ruler pool leader anchor parent depth) w

theorem Walked.children {w : Walk} {parent : Node} {depth : Nat} (children : List Node)
    (hw : Walked fl env st pool ruler leader anchor (some parent) w)
    (hparent : CutBelow st leader depth parent) (hmem : ∀ c ∈ children, c ∈ st.nodes.rows) :
    Walked fl env st pool ruler leader anchor (some parent)
      (walkChildren fl env st pool ruler leader anchor parent depth w children) := by
  induction children generalizing w with
  | nil => exact hw
  | cons child children ih =>
    apply ih
    · exact hw.child hparent (hmem child List.mem_cons_self)
    · intro c hc
      exact hmem c (List.mem_cons_of_mem child hc)

theorem work_walkChildren {w : Walk} {parent : Node} {depth : Nat} (children : List Node)
    (hmem : ∀ c ∈ children, c ∈ st.nodes.rows) :
    (walkChildren fl env st pool ruler leader anchor parent depth w children).frontier.length
        + unseen st (walkChildren fl env st pool ruler leader anchor parent depth w children) =
      w.frontier.length + unseen st w := by
  induction children generalizing w with
  | nil => rfl
  | cons child children ih =>
    have hrest := fun c hc => hmem c (List.mem_cons_of_mem child hc)
    exact (ih hrest).trans (work_walkChild (hmem child List.mem_cons_self))

theorem seen_walkChild {w : Walk} {parent child : Node} {depth : Nat} {id : Int} (h : id ∈ w.seen) :
    id ∈ (walkChild fl env st ruler pool leader anchor parent depth w child).seen := by
  cases hp : passed parent w child with
  | true =>
    rw [walkChild_passed hp]
    exact h
  | false =>
    rw [(trail_walkChild fl env st pool ruler leader anchor depth hp).1]
    exact List.mem_cons_of_mem _ h

theorem seen_walkChildren {w : Walk} {parent : Node} {depth : Nat} {id : Int} (children : List Node)
    (h : id ∈ w.seen) :
    id ∈ (walkChildren fl env st pool ruler leader anchor parent depth w children).seen := by
  induction children generalizing w with
  | nil => exact h
  | cons child children ih => exact ih (seen_walkChild h)

theorem cuts_seen {w : Walk} {parent : Node} {depth : Nat} (children : List Node) :
    ∀ c ∈ children, stillCutOf parent c = true →
      c.id ∈ (walkChildren fl env st pool ruler leader anchor parent depth w children).seen := by
  induction children generalizing w with
  | nil =>
    intro c hc
    cases hc
  | cons child children ih =>
    intro c hc hcut
    rcases List.mem_cons.mp hc with rfl | hc
    · apply seen_walkChildren children
      cases hp : passed parent w c with
      | true =>
        rw [walkChild_passed hp]
        unfold passed at hp
        rw [hcut, Bool.not_true, Bool.or_false] at hp
        exact List.contains_iff_mem.mp hp
      | false =>
        rw [(trail_walkChild fl env st pool ruler leader anchor depth hp).1]
        exact List.mem_cons_self
    · exact ih c hc hcut

theorem mem_cutChildren {parent child : Node} (hmem : child ∈ st.nodes.rows)
    (h : stillCutOf parent child = true) : child ∈ cutChildren st parent := by
  obtain ⟨receipt, hreceipt, hid⟩ := parent_of_stillCutOf h
  unfold cutChildren
  apply List.mem_filter.mpr
  refine ⟨hmem, ?_⟩
  rw [hreceipt, Option.any_some]
  exact decide_eq_true hid

theorem Walked.round {w : Walk} {parent : Node} {depth : Nat} {rest : List (Node × Nat)}
    (hw : Walked fl env st pool ruler leader anchor none w) (hfrontier : w.frontier = (parent, depth) :: rest) :
    Walked fl env st pool ruler leader anchor none
      (walkChildren fl env st pool ruler leader anchor parent depth { w with frontier := rest }
        (cutChildren st parent)) := by
  have hparent : CutBelow st leader depth parent := by
    apply hw.below (parent, depth)
    rw [hfrontier]
    exact List.mem_cons_self
  have hstart : Walked fl env st pool ruler leader anchor (some parent) { w with frontier := rest } := by
    constructor
    · intro e he
      apply hw.below e
      rw [hfrontier]
      exact List.mem_cons_of_mem _ he
    · exact hw.start
    · intro d n hn hid
      rcases hw.closed d n hn hid with hin | hbusy | hall
      · rw [hfrontier] at hin
        rcases List.mem_cons.mp hin with heq | hin
        · cases heq
          exact .inr (.inl rfl)
        · exact .inl hin
      · cases hbusy
      · exact .inr (.inr hall)
    · exact hw.chosen
  have hall := hstart.children (cutChildren st parent) hparent fun c hc => (List.mem_filter.mp hc).1
  constructor
  · exact hall.below
  · exact hall.start
  · intro d n hn hid
    rcases hall.closed d n hn hid with hin | hbusy | hdone
    · exact .inl hin
    · cases hbusy
      refine .inr (.inr ?_)
      intro child hmem hcut
      exact cuts_seen _ child (mem_cutChildren hmem hcut) hcut
    · exact .inr (.inr hdone)
  · exact hall.chosen

theorem Walked.walk {w : Walk} (fuel : Nat) (hw : Walked fl env st pool ruler leader anchor none w)
    (hfuel : w.frontier.length + unseen st w ≤ fuel) :
    Walked fl env st pool ruler leader anchor none
        (walkCuts fl env st ruler pool leader anchor fuel w) ∧
      (walkCuts fl env st ruler pool leader anchor fuel w).frontier = [] := by
  induction fuel generalizing w with
  | zero =>
    refine ⟨hw, ?_⟩
    apply List.eq_nil_of_length_eq_zero
    change w.frontier.length = 0
    omega
  | succ fuel ih =>
    unfold walkCuts
    cases hfrontier : w.frontier with
    | nil => exact ⟨hw, hfrontier⟩
    | cons e rest =>
      obtain ⟨parent, depth⟩ := e
      dsimp only
      apply ih (hw.round hfrontier)
      rw [hfrontier, List.length_cons] at hfuel
      rw [work_walkChildren (cutChildren st parent) fun c hc => (List.mem_filter.mp hc).1]
      change rest.length + unseen st w ≤ fuel
      omega

end LoopLab
