import Mathlib.Data.List.Basic
import Mathlib.Data.List.Range
import Mathlib.Data.List.Nodup
import Mathlib.Data.List.Perm.Basic

/-!
# Taking turns

A pointer goes round `n` places; the next turn is the first place after it, in circular order, that is ready.
-/

set_option autoImplicit false

namespace LoopLab.Lib.Rotation

variable {n : Nat}

/-- The places in the order they are asked after `p`, which comes last. -/
def order (n p : Nat) : List Nat := (List.range' 1 n).map fun offset => (p + offset) % n

def pick (n p : Nat) (ready : Nat → Bool) : Option Nat := (order n p).find? ready

/-- How far a place is after `p`: from `1` up to `n`, which is `p` itself. -/
def distance (n p a : Nat) : Nat := (a + n - p - 1) % n + 1

variable {p a c : Nat}

theorem distance_le (hn : 0 < n) : distance n p a ≤ n := Nat.mod_lt _ hn

theorem distance_self (hp : p < n) : distance n p p = n := by
  unfold distance
  have h : p + n - p - 1 = n - 1 := by omega
  rw [h, Nat.mod_eq_of_lt (by omega)]
  omega

theorem add_distance (hp : p < n) (ha : a < n) : (p + distance n p a) % n = a := by
  unfold distance
  rcases Nat.lt_or_ge p a with hlt | hge
  · have h : a + n - p - 1 = n + (a - p - 1) := by omega
    have hlow : a - p - 1 < n := by omega
    rw [h, Nat.add_mod_left, Nat.mod_eq_of_lt hlow]
    have h : p + (a - p - 1 + 1) = a := by omega
    rw [h, Nat.mod_eq_of_lt ha]
  · rw [Nat.mod_eq_of_lt (a := a + n - p - 1) (by omega)]
    have h : p + (a + n - p - 1 + 1) = n + a := by omega
    rw [h, Nat.add_mod_left, Nat.mod_eq_of_lt ha]

theorem distance_add {d : Nat} (hp : p < n) (hpos : 0 < d) (hd : d ≤ n) : distance n p ((p + d) % n) = d := by
  unfold distance
  rcases Nat.lt_or_ge (p + d) n with hlt | hge
  · rw [Nat.mod_eq_of_lt hlt]
    have h : p + d + n - p - 1 = n + (d - 1) := by omega
    rw [h, Nat.add_mod_left, Nat.mod_eq_of_lt (by omega)]
    omega
  · have hmod : (p + d) % n = p + d - n := by
      rw [Nat.mod_eq_sub_mod hge, Nat.mod_eq_of_lt (by omega)]
    rw [hmod]
    have h : p + d - n + n - p - 1 = d - 1 := by omega
    rw [h, Nat.mod_eq_of_lt (by omega)]
    omega

theorem distance_split (hp : p < n) (hc : c < n) (ha : a < n) (h : distance n p c < distance n p a) :
    distance n p a = distance n p c + distance n c a := by
  have hle : distance n p a ≤ n := distance_le (by omega)
  have hstep : (c + (distance n p a - distance n p c)) % n = a := by
    have hsum : p + distance n p c + (distance n p a - distance n p c) = p + distance n p a := by omega
    have hway := Nat.mod_add_mod (p + distance n p c) n (distance n p a - distance n p c)
    rw [add_distance hp hc, hsum, add_distance hp ha] at hway
    exact hway
  have hrest := distance_add hc (d := distance n p a - distance n p c) (by omega) (by omega)
  rw [hstep] at hrest
  omega

variable {ready : Nat → Bool}

theorem pick_some (hp : p < n) (h : pick n p ready = some c) :
    ready c = true ∧ c < n ∧ ∀ a < n, ready a = true → distance n p c ≤ distance n p a := by
  obtain ⟨hready, before, after, hsplit, hbefore⟩ := List.find?_eq_some_iff_append.mp h
  have hmem : c ∈ order n p := by
    rw [hsplit]
    exact List.mem_append_right _ List.mem_cons_self
  obtain ⟨offset, -, hoffset⟩ := List.mem_map.mp hmem
  have hc : c < n := by
    rw [← hoffset]
    exact Nat.mod_lt _ (by omega)
  refine ⟨hready, hc, fun a ha hra => ?_⟩
  -- the place at distance `d` stands at index `d - 1`
  have hplace (b : Nat) (hb : b < n) : (order n p)[distance n p b - 1]? = some b := by
    have hd : 1 ≤ distance n p b := Nat.le_add_left 1 _
    have hle : distance n p b ≤ n := distance_le (by omega)
    unfold order
    rw [List.getElem?_map, List.getElem?_range' (by omega), Option.map_some]
    have hsum : p + (1 + (distance n p b - 1)) = p + distance n p b := by omega
    rw [Nat.one_mul, hsum, add_distance hp hb]
  have hindex : distance n p c - 1 = before.length := by
    have hlt : before.length < n := by
      have hlen := congrArg List.length hsplit
      unfold order at hlen
      rw [List.length_map, List.length_range', List.length_append, List.length_cons] at hlen
      omega
    have hat : (order n p)[before.length]? = some c := by
      rw [hsplit, List.getElem?_append_right (le_refl _), Nat.sub_self]
      rfl
    unfold order at hat
    rw [List.getElem?_map, List.getElem?_range' hlt, Option.map_some, Nat.one_mul] at hat
    have hc' := Option.some.inj hat
    rw [← hc', distance_add hp (by omega) (by omega)]
    omega
  by_contra hnear
  have hlt : distance n p a - 1 < before.length := by
    have hd : 1 ≤ distance n p a := Nat.le_add_left 1 _
    omega
  have hat := hplace a ha
  rw [hsplit, List.getElem?_append_left hlt] at hat
  have hnot := hbefore a (List.mem_of_getElem? hat)
  rw [hra] at hnot
  cases hnot

theorem pick_mono {ready' : Nat → Bool} (h : pick n p ready' = some c) (hless : ∀ i, ready i = true → ready' i = true)
    (hc : ready c = true) : pick n p ready = some c := by
  obtain ⟨-, before, after, hsplit, hbefore⟩ := List.find?_eq_some_iff_append.mp h
  refine List.find?_eq_some_iff_append.mpr ⟨hc, before, after, hsplit, fun i hi => ?_⟩
  have hnot := hbefore i hi
  rw [Bool.not_eq_true'] at hnot ⊢
  by_contra hready
  rw [hless i ((Bool.not_eq_false _).mp hready)] at hnot
  cases hnot

/-- Turns taken one after the other, the pointer moving to each place picked, while `a` is ready at each of
them and is not picked. -/
inductive Passes (n a : Nat) : Nat → List Nat → Prop
  | nil (p : Nat) : Passes n a p []
  | cons {p c : Nat} {rest : List Nat} (ready : Nat → Bool) (ha : ready a = true) (h : pick n p ready = some c)
    (hne : c ≠ a) (more : Passes n a c rest) : Passes n a p (c :: rest)

theorem Passes.nodup {places : List Nat} (ha : a < n) (hp : p < n) (h : Passes n a p places) :
    places.Nodup ∧ ∀ c ∈ places, c < n ∧ distance n p c < distance n p a := by
  induction h with
  | nil p => exact ⟨.nil, fun c hc => absurd hc List.not_mem_nil⟩
  | @cons p c rest ready hready hpick hne more ih =>
    obtain ⟨-, hc, hnearest⟩ := pick_some hp hpick
    obtain ⟨hnodup, hrest⟩ := ih hc
    have hle := hnearest a ha hready
    have hlt : distance n p c < distance n p a := by
      rcases Nat.lt_or_eq_of_le hle with hlt | heq
      · exact hlt
      · have hsame := add_distance hp hc
        rw [heq, add_distance hp ha] at hsame
        exact absurd hsame.symm hne
    have hsplit := distance_split hp hc ha hlt
    have hbound : distance n p a ≤ n := distance_le (by omega)
    constructor
    · refine List.nodup_cons.mpr ⟨fun hmem => ?_, hnodup⟩
      -- a place is a whole round away from itself
      have hround := (hrest c hmem).2
      rw [distance_self hc] at hround
      have : distance n c a ≤ n := distance_le (by omega)
      omega
    · intro b hb
      rcases List.mem_cons.mp hb with rfl | hb
      · exact ⟨hc, hlt⟩
      · obtain ⟨hbn, hnear⟩ := hrest b hb
        refine ⟨hbn, ?_⟩
        have hgo : (p + (distance n p c + distance n c b)) % n = b := by
          rw [← Nat.add_assoc, ← Nat.mod_add_mod, add_distance hp hc, add_distance hc hbn]
        have hpos : 0 < distance n c b := Nat.succ_pos _
        have hway := distance_add hp (d := distance n p c + distance n c b) (by omega) (by omega)
        rw [hgo] at hway
        omega

end LoopLab.Lib.Rotation

/-!
## Waiting on a condition

The threads that wait on one condition: those asleep, and those that were notified and will look again.
-/

namespace LoopLab.Lib

universe u

structure Waiters (τ : Type u) where
  asleep : List τ := []
  woken : List τ := []

namespace Waiters
variable {τ : Type u}

def all (w : Waiters τ) : List τ := w.asleep ++ w.woken

def notifyAll (w : Waiters τ) : Waiters τ := { woken := w.woken ++ w.asleep }

def sleep (w : Waiters τ) (t : τ) : Waiters τ := { w with asleep := t :: w.asleep }

def leave [BEq τ] (w : Waiters τ) (t : τ) : Waiters τ :=
  { asleep := w.asleep.erase t
    woken := w.woken.erase t }

theorem all_notifyAll (w : Waiters τ) : w.notifyAll.all.Perm w.all := by
  show (w.woken ++ w.asleep).Perm (w.asleep ++ w.woken)
  exact List.perm_append_comm

theorem all_sleep (w : Waiters τ) (t : τ) : (w.sleep t).all = t :: w.all := rfl

theorem mem_leave [DecidableEq τ] {w : Waiters τ} (h : w.all.Nodup) {t x : τ} :
    x ∈ (w.leave t).all ↔ x ≠ t ∧ x ∈ w.all := by
  obtain ⟨hasleep, hwoken, -⟩ := List.nodup_append.mp h
  unfold leave all
  rw [List.mem_append, List.mem_append, hasleep.mem_erase_iff, hwoken.mem_erase_iff]
  tauto

theorem nodup_leave [DecidableEq τ] {w : Waiters τ} (h : w.all.Nodup) (t : τ) : (w.leave t).all.Nodup :=
  h.sublist (List.Sublist.append List.erase_sublist List.erase_sublist)

def Heard (ready : τ → Prop) (w : Waiters τ) : Prop := ∀ t ∈ w.asleep, ¬ ready t

variable {ready ready' : τ → Prop} {w : Waiters τ}

theorem heard_notifyAll : w.notifyAll.Heard ready := fun _ h => absurd h List.not_mem_nil

theorem Heard.sleep (h : w.Heard ready) {t : τ} (ht : ¬ ready t) : (w.sleep t).Heard ready := by
  intro x hx
  rcases List.mem_cons.mp hx with rfl | hx
  · exact ht
  · exact h x hx

theorem Heard.leave [DecidableEq τ] (h : w.Heard ready) (t : τ) : (w.leave t).Heard ready :=
  fun x hx => h x (List.mem_of_mem_erase hx)

theorem Heard.mono (h : w.Heard ready) (hready : ∀ t ∈ w.asleep, ready' t → ready t) : w.Heard ready' :=
  fun t ht hr => h t ht (hready t ht hr)

end Waiters

end LoopLab.Lib
