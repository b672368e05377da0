import Mathlib.Algebra.BigOperators.Group.List.Basic
import Mathlib.Data.List.Infix
import Mathlib.Algebra.GroupWithZero.Nat

/-!
# Things handed over

A channel hands over all that waits at once. What it took in is what it handed over, what waits, and what was given
up as it closed.
-/

set_option autoImplicit false

namespace LoopLab.Lib

universe u
variable {α ι : Type u}

structure Channel (α : Type u) where
  taken : List α := []
  handed : List α := []
  waiting : List α := []
  gone : List α := []

namespace Channel

def push (c : Channel α) (a : α) : Channel α := { c with taken := c.taken ++ [a], waiting := c.waiting ++ [a] }

def drain (c : Channel α) : Channel α := { c with handed := c.handed ++ c.waiting, waiting := [] }

def close (c : Channel α) : Channel α := { c with waiting := [], gone := c.gone ++ c.waiting }

def InOrder (c : Channel α) : Prop := c.taken = c.handed ++ c.waiting ++ c.gone

variable {c : Channel α}

theorem InOrder.push (h : c.InOrder) (hopen : c.gone = []) (a : α) : (c.push a).InOrder := by
  unfold InOrder at h ⊢
  unfold Channel.push
  rw [h, hopen]
  simp

theorem InOrder.drain (h : c.InOrder) : c.drain.InOrder := by
  unfold InOrder at h ⊢
  unfold Channel.drain
  rw [h]
  simp

theorem InOrder.close (h : c.InOrder) (hopen : c.gone = []) : c.close.InOrder := by
  unfold InOrder at h ⊢
  unfold Channel.close
  rw [h, hopen]
  simp

theorem InOrder.handed_prefix (h : c.InOrder) : c.handed <+: c.taken := by
  rw [h, List.append_assoc]
  exact List.prefix_append ..

end Channel

structure Report (ι : Type u) where
  total : ι → Nat := fun _ => 0
  pending : ι → Nat := fun _ => 0
  told : List (ι → Nat) := []

namespace Report

def toldOf (t : Report ι) (i : ι) : Nat := (t.told.map (· i)).sum

def Balanced (t : Report ι) : Prop := ∀ i, t.total i = t.toldOf i + t.pending i

variable {t : Report ι} {delta more : ι → Nat}

theorem Balanced.tell (h : t.Balanced) (hdelta : ∀ i, delta i ≤ t.pending i) :
    Balanced { t with pending := fun i => t.pending i - delta i, told := t.told ++ [delta] } := by
  intro i
  have hi := h i
  have hle := hdelta i
  unfold toldOf at hi ⊢
  simp only [List.map_append, List.sum_append, List.map_cons, List.map_nil, List.sum_cons, List.sum_nil]
  omega

end Report

end LoopLab.Lib
