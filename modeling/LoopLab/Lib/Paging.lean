import Mathlib.Data.List.Basic
import Mathlib.Data.List.Range

/-!
# Paging backward

A list is read in pages of bounded size, the newest rows first.
-/

set_option autoImplicit false

namespace LoopLab.Lib

/-- The pages before `e`, each with its start and its end. -/
inductive Walk (cap : Nat) (next : Nat → Option Nat) : Nat → List (Nat × Nat) → Prop
  | last {e : Nat} (h : e ≤ cap) : Walk cap next e [(0, e)]
  | older {e e' : Nat} {ps : List (Nat × Nat)} (h : cap < e) (hnext : next (e - cap) = some e')
    (rest : Walk cap next e' ps) : Walk cap next e ((e - cap, e) :: ps)

def positions (ps : List (Nat × Nat)) : List Nat := ps.reverse.flatMap fun p => List.range' p.1 (p.2 - p.1)

def shown {α : Type} (xs : List α) (ps : List (Nat × Nat)) : List α :=
  ps.reverse.flatMap fun p => (xs.take p.2).drop p.1

section Shown
variable {α : Type} (xs : List α)

theorem take_drop_places (n : Nat) : ∀ s, (xs.drop s).take n = (List.range' s n).filterMap (xs[·]?) := by
  induction n with
  | zero => simp
  | succ n ih =>
    intro s
    rw [List.range'_succ, List.filterMap_cons]
    rcases Nat.lt_or_ge s xs.length with hlt | hge
    · rw [List.getElem?_eq_getElem hlt, List.drop_eq_getElem_cons hlt, List.take_succ_cons, ih]
    · have hrest := ih (s + 1)
      rw [List.drop_eq_nil_of_le (by omega), List.take_nil] at hrest
      rw [List.getElem?_eq_none hge, ← hrest, List.drop_eq_nil_of_le hge, List.take_nil]

theorem shown_places (ps : List (Nat × Nat)) : shown xs ps = (positions ps).filterMap (xs[·]?) := by
  unfold shown positions
  rw [List.filterMap_flatMap]
  apply List.flatMap_congr
  intro p _
  rw [List.drop_take, take_drop_places]

theorem shown_all {ps : List (Nat × Nat)} (h : positions ps = List.range xs.length) : shown xs ps = xs := by
  have hall := take_drop_places xs xs.length 0
  rw [List.drop_zero, List.take_length] at hall
  rw [shown_places, h, List.range_eq_range', ← hall]

end Shown

namespace Walk
variable {cap : Nat} {next : Nat → Option Nat} {e : Nat} {ps : List (Nat × Nat)}

theorem positions_cons (p : Nat × Nat) (ps : List (Nat × Nat)) :
    positions (p :: ps) = positions ps ++ List.range' p.1 (p.2 - p.1) := by
  simp [positions]

theorem range_split {s e : Nat} (h : s ≤ e) : List.range e = List.range s ++ List.range' s (e - s) := by
  rw [List.range_eq_range', List.range_eq_range']
  have := @List.range'_append_1 0 s (e - s)
  rw [Nat.zero_add] at this
  rw [this, Nat.add_sub_cancel' h]

theorem getLast (hcap : 0 < cap) (h : Walk cap next e ps) (he : 0 < e) : (positions ps).getLast? = some (e - 1) := by
  have hnewest (s : Nat) (hs : s < e) (ps : List (Nat × Nat)) : (positions ((s, e) :: ps)).getLast? = some (e - 1) := by
    rw [positions_cons]
    have hlast : (List.range' s (e - s)).getLast? = some (e - 1) := by
      rw [List.getLast?_range', if_neg (by omega)]
      congr 1
      omega
    rw [List.getLast?_append, hlast]
    rfl
  cases h with
  | last h => exact hnewest 0 he []
  | older h hnext rest => exact hnewest (e - cap) (by omega) _

theorem ends {m : Nat} (h : Walk cap next e ps) (he : e ≤ m) (hnext : ∀ s e', next s = some e' → e' ≤ m) :
    ∀ p ∈ ps, p.1 ≤ p.2 ∧ p.2 ≤ m := by
  induction h with
  | last h =>
    intro p hp
    obtain rfl := List.mem_singleton.mp hp
    exact ⟨Nat.zero_le _, he⟩
  | older h hstep rest ih =>
    intro p hp
    rcases List.mem_cons.mp hp with rfl | hp
    · exact ⟨Nat.sub_le _ _, he⟩
    · exact ih (hnext _ _ hstep) p hp

theorem resolved (hcap : 0 < cap) (h : Walk cap next e ps) (hall : positions ps = List.range e) :
    ∀ k, 0 < k → k * cap < e → next (e - k * cap) = some (e - k * cap) := by
  induction h with
  | last h =>
    intro k hk hlt
    have : cap ≤ k * cap := Nat.le_mul_of_pos_left cap hk
    omega
  | @older e e' ps h hnext rest ih =>
    rw [positions_cons, range_split (Nat.sub_le e cap)] at hall
    have hrest : positions ps = List.range (e - cap) := List.append_cancel_right hall
    have hend : e' = e - cap := by
      rcases Nat.eq_zero_or_pos e' with hzero | hpos
      · subst hzero
        have hempty : positions ps = [] := by
          cases rest with
          | last h => rfl
          | older h _ _ => omega
        rw [hempty] at hrest
        have := congrArg List.length hrest
        rw [List.length_range, List.length_nil] at this
        omega
      · have hlast := rest.getLast hcap hpos
        rw [hrest, List.getLast?_range, if_neg (by omega), Option.some.injEq] at hlast
        omega
    subst hend
    intro k hk hlt
    rcases Nat.lt_or_ge 1 k with hmore | hone
    · have hstep := ih hrest (k - 1) (by omega) (by rw [Nat.sub_one_mul]; omega)
      have hsame : e - cap - (k - 1) * cap = e - k * cap := by
        rw [Nat.sub_one_mul]
        have : cap ≤ k * cap := Nat.le_mul_of_pos_left cap hk
        omega
      rwa [hsame] at hstep
    · have : k = 1 := by omega
      subst this
      rw [Nat.one_mul]
      exact hnext

theorem exists_of_resolved (hcap : 0 < cap) (e : Nat)
    (h : ∀ k, 0 < k → k * cap < e → next (e - k * cap) = some (e - k * cap)) :
    ∃ ps, Walk cap next e ps ∧ positions ps = List.range e := by
  induction e using Nat.strong_induction_on with
  | _ e ih =>
    rcases Nat.lt_or_ge cap e with hlt | hle
    · have hnext : next (e - cap) = some (e - cap) := by
        have := h 1 (by omega) (by omega)
        rwa [Nat.one_mul] at this
      obtain ⟨ps, hwalk, hall⟩ := ih (e - cap) (by omega) (by
        intro k hk hlt
        have hstep := h (k + 1) (by omega) (by rw [Nat.add_one_mul]; omega)
        have hsame : e - (k + 1) * cap = e - cap - k * cap := by
          rw [Nat.add_one_mul]
          omega
        rwa [hsame] at hstep)
      refine ⟨_, .older hlt hnext hwalk, ?_⟩
      rw [positions_cons, hall, ← range_split (Nat.sub_le e cap)]
    · refine ⟨_, .last hle, ?_⟩
      rw [positions_cons, List.range_eq_range']
      rfl

end Walk

end LoopLab.Lib
