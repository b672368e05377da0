import Mathlib.Data.List.Perm.Basic
import Mathlib.Tactic.Common
import Mathlib.Data.List.Induction
import Mathlib.Order.MinMax

/-!
# The best of a list

The members that none dominates, the running maximum, and the first of the best.
-/

set_option autoImplicit false

/-!
## The front of a list

The members that no member dominates.
-/

namespace LoopLab.Lib

universe u
variable {α : Type u} {dominates : α → α → Bool} {l l' : List α} {n : α}

def front (dominates : α → α → Bool) (l : List α) : List α := l.filter fun n => !l.any (dominates · n)

structure StrictOn (dominates : α → α → Bool) (l : List α) : Prop where
  irrefl : ∀ a ∈ l, dominates a a = false
  trans : ∀ a ∈ l, ∀ b ∈ l, ∀ c ∈ l, dominates a b = true → dominates b c = true → dominates a c = true

theorem mem_front : n ∈ front dominates l ↔ n ∈ l ∧ ∀ o ∈ l, dominates o n = false := by
  unfold front
  simp [List.mem_filter]

theorem front_subset (h : n ∈ front dominates l) : n ∈ l := (mem_front.mp h).1

theorem filter_length_lt {p q : α → Bool} (h : ∀ a ∈ l, p a = true → q a = true) (hn : n ∈ l)
    (hq : q n = true) (hp : p n = false) : (l.filter p).length < (l.filter q).length := by
  induction l with
  | nil => cases hn
  | cons a l ih =>
    obtain ⟨ha, hl⟩ := List.forall_mem_cons.mp h
    have hle : (l.filter p).length ≤ (l.filter q).length := by
      rw [← List.countP_eq_length_filter, ← List.countP_eq_length_filter]
      exact List.countP_mono_left hl
    rcases List.mem_cons.mp hn with rfl | hn
    · rw [List.filter_cons_of_neg (by simpa using hp), List.filter_cons_of_pos hq, List.length_cons]
      omega
    · have hlt := ih hl hn
      by_cases hpa : p a = true
      · rw [List.filter_cons_of_pos hpa, List.filter_cons_of_pos (ha hpa), List.length_cons, List.length_cons]
        omega
      · rw [List.filter_cons_of_neg hpa, List.filter_cons]
        split
        · rw [List.length_cons]
          omega
        · exact hlt

theorem front_covers (h : StrictOn dominates l) (hn : n ∈ l) :
    n ∈ front dominates l ∨ ∃ m ∈ front dominates l, dominates m n = true := by
  -- by induction on how many members dominate it: one that does is dominated by fewer
  induction hk : (l.filter (dominates · n)).length using Nat.strongRecOn generalizing n with
  | ind k ih =>
    by_cases hfront : ∀ o ∈ l, dominates o n = false
    · exact .inl (mem_front.mpr ⟨hn, hfront⟩)
    · simp only [not_forall, Bool.not_eq_false] at hfront
      obtain ⟨o, ho, hdom⟩ := hfront
      have hfewer : (l.filter (dominates · o)).length < k := by
        rw [← hk]
        exact filter_length_lt (fun a ha hao => h.trans a ha o ho n hn hao hdom) ho hdom (h.irrefl o ho)
      rcases ih _ hfewer ho rfl with hmem | ⟨m, hm, hmo⟩
      · exact .inr ⟨o, hmem, hdom⟩
      · exact .inr ⟨m, hm, h.trans m (front_subset hm) o ho n hn hmo hdom⟩

theorem front_ne_nil (h : StrictOn dominates l) (hl : l ≠ []) : front dominates l ≠ [] := by
  obtain ⟨n, hn⟩ := List.exists_mem_of_ne_nil l hl
  rcases front_covers h hn with hmem | ⟨m, hm, -⟩
  · exact List.ne_nil_of_mem hmem
  · exact List.ne_nil_of_mem hm

theorem front_perm (h : l.Perm l') : (front dominates l).Perm (front dominates l') := by
  have hsame : (fun n => !l.any (dominates · n)) = fun n => !l'.any (dominates · n) := by
    funext n
    rw [h.any_eq]
  unfold front
  rw [hsame]
  exact h.filter _

end LoopLab.Lib

/-!
## Running maxima and first failures

The running maximum of a list stays within a bound exactly as far as no entry has exceeded it.
-/

namespace LoopLab.Lib

universe u
variable {α : Type u} [LinearOrder α] {a b : α} {xs : List α} {k : Nat}

/-- The maxima of the entries so far, and of `b`. -/
def running (b : α) : List α → List α
  | [] => []
  | x :: xs => max b x :: running (max b x) xs

@[simp] theorem length_running : (running b xs).length = xs.length := by
  induction xs generalizing b with
  | nil => rfl
  | cons x xs ih => rw [running, List.length_cons, ih, List.length_cons]

theorem running_le_iff {q : α} (hq : (running b xs)[k]? = some q) :
    q ≤ a ↔ b ≤ a ∧ ∀ j x, j ≤ k → xs[j]? = some x → x ≤ a := by
  induction xs generalizing b k with
  | nil => cases hq
  | cons x xs ih =>
    cases k with
    | zero =>
      obtain rfl := Option.some.inj hq
      rw [max_le_iff]
      constructor
      · rintro ⟨hb, hx⟩
        refine ⟨hb, fun j y hj hy => ?_⟩
        obtain rfl := Nat.le_zero.mp hj
        obtain rfl := Option.some.inj hy
        exact hx
      · rintro ⟨hb, hall⟩
        exact ⟨hb, hall 0 x (Nat.le_refl 0) rfl⟩
    | succ k =>
      rw [ih hq, max_le_iff, and_assoc]
      refine and_congr_right fun _ => ?_
      constructor
      · rintro ⟨hx, hall⟩ j y hj hy
        cases j with
        | zero =>
          obtain rfl := Option.some.inj hy
          exact hx
        | succ j => exact hall j y (Nat.succ_le_succ_iff.mp hj) hy
      · intro hall
        exact ⟨hall 0 x (Nat.zero_le _) rfl, fun j y hj hy => hall (j + 1) y (Nat.succ_le_succ hj) hy⟩

/-! ## The leader of a list -/

section Leader
universe v
variable {β : Type v} {beats : β → β → Bool} {y z : β} {ys zs : List β} {lead : Option β}

structure StrictWeak (beats : β → β → Bool) : Prop where
  irrefl : ∀ y, beats y y = false
  trans : ∀ {x y z}, beats x y = true → beats y z = true → beats x z = true
  cotrans : ∀ {x z} y, beats x z = true → beats x y = true ∨ beats y z = true

def leader (beats : β → β → Bool) (lead : Option β) (ys : List β) : Option β :=
  ys.foldl (fun lead y => if lead.all (beats y) then some y else lead) lead

theorem leader_concat : leader beats lead (ys ++ [y]) =
    if (leader beats lead ys).all (beats y) then some y else leader beats lead ys := by
  unfold leader
  rw [List.foldl_append]
  rfl

theorem leader_eq_none : leader beats none ys = none ↔ ys = [] := by
  constructor
  · intro h
    rcases List.eq_nil_or_concat ys with rfl | ⟨zs, y, rfl⟩
    · rfl
    · rw [List.concat_eq_append, leader_concat] at h
      split at h
      · cases h
      · rename_i hstands
        rw [h] at hstands
        exact absurd rfl hstands
  · rintro rfl
    rfl

def IsLeader (beats : β → β → Bool) (y : β) (ys : List β) : Prop :=
  ∃ before after, ys = before ++ y :: after ∧ (∀ x ∈ before, beats y x = true) ∧ ∀ x ∈ after, beats x y = false

theorem IsLeader.mem (h : IsLeader beats y ys) : y ∈ ys := by
  obtain ⟨before, after, rfl, -, -⟩ := h
  simp

theorem IsLeader.not_beaten (hbeats : StrictWeak beats) (h : IsLeader beats y ys) (hz : z ∈ ys) : beats z y = false := by
  obtain ⟨before, after, rfl, hbefore, hafter⟩ := h
  rcases List.mem_append.mp hz with hz | hz
  · rw [← Bool.not_eq_true]
    intro hbeat
    have hself := hbeats.trans hbeat (hbefore z hz)
    rw [hbeats.irrefl] at hself
    cases hself
  · rcases List.mem_cons.mp hz with rfl | hz
    · exact hbeats.irrefl z
    · exact hafter z hz

theorem leader_spec (hbeats : StrictWeak beats) (h : leader beats none ys = some y) : IsLeader beats y ys := by
  induction ys using List.reverseRecOn generalizing y with
  | nil => cases h
  | append_singleton ys z ih =>
    rw [leader_concat] at h
    split at h
    · rename_i hall
      obtain rfl := Option.some.inj h
      refine ⟨ys, [], rfl, ?_, by simp⟩
      intro x hx
      cases hlead : leader beats none ys with
      | none =>
        rw [leader_eq_none.mp hlead] at hx
        cases hx
      | some w =>
        have hw : beats z w = true := by simpa [hlead] using hall
        obtain ⟨before, after, rfl, hbefore, hafter⟩ := ih hlead
        rcases List.mem_append.mp hx with hx | hx
        · exact hbeats.trans hw (hbefore x hx)
        · rcases List.mem_cons.mp hx with rfl | hx
          · exact hw
          · rcases hbeats.cotrans x hw with hzx | hxw
            · exact hzx
            · rw [hafter x hx] at hxw
              cases hxw
    · rename_i hall
      obtain ⟨before, after, rfl, hbefore, hafter⟩ := ih h
      refine ⟨before, after ++ [z], by simp, hbefore, ?_⟩
      intro x hx
      rcases List.mem_append.mp hx with hx | hx
      · exact hafter x hx
      · rw [List.mem_singleton.mp hx]
        rw [h] at hall
        simpa using hall

theorem IsLeader.unique (hy : IsLeader beats y ys) (hz : IsLeader beats z ys) : y = z := by
  obtain ⟨before, after, rfl, hbefore, hafter⟩ := hy
  obtain ⟨before', after', heq, hbefore', hafter'⟩ := hz
  rcases List.append_eq_append_iff.mp heq with ⟨mid, rfl, hrest⟩ | ⟨mid, rfl, hrest⟩
  · cases mid with
    | nil => exact (List.cons.inj hrest).1
    | cons x mid =>
      obtain ⟨rfl, rfl⟩ := List.cons.inj hrest
      have hzy := hbefore' y (by simp)
      rw [hafter z (by simp)] at hzy
      cases hzy
  · cases mid with
    | nil => exact (List.cons.inj hrest).1.symm
    | cons x mid =>
      obtain ⟨rfl, rfl⟩ := List.cons.inj hrest
      have hyz := hbefore z (by simp)
      rw [hafter' y (by simp)] at hyz
      cases hyz

theorem leader_iff (hbeats : StrictWeak beats) : leader beats none ys = some y ↔ IsLeader beats y ys := by
  constructor
  · exact leader_spec hbeats
  · intro h
    cases hlead : leader beats none ys with
    | none =>
      rw [leader_eq_none.mp hlead] at h
      cases h.mem
    | some z => rw [(leader_spec hbeats hlead).unique h]

theorem leader_perm (hbeats : StrictWeak beats)
    (hone : ∀ x y, beats x y = false → beats y x = false → x = y) (h : ys.Perm zs) :
    leader beats none ys = leader beats none zs := by
  cases hy : leader beats none ys with
  | none =>
    rw [leader_eq_none] at hy
    subst hy
    rw [← h.nil_eq]
    rfl
  | some y =>
    cases hz : leader beats none zs with
    | none =>
      rw [leader_eq_none] at hz
      subst hz
      rw [h.eq_nil] at hy
      cases hy
    | some z =>
      have hyl := leader_spec hbeats hy
      have hzl := leader_spec hbeats hz
      rw [hone y z (hzl.not_beaten hbeats (h.mem_iff.mp hyl.mem)) (hyl.not_beaten hbeats (h.mem_iff.mpr hzl.mem))]

end Leader

end LoopLab.Lib
