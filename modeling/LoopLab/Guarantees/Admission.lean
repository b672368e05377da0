import LoopLab.Llm.Broker
import Mathlib.Algebra.BigOperators.Group.List.Basic
import Mathlib.Algebra.GroupWithZero.Nat
import Mathlib.Algebra.Ring.Int.Defs

/-!
# Admission is safe, fair and awake

Each locked section keeps the counts with the permits that are out, the tickets in their order and with the threads
that wait, and no thread that could be admitted asleep.
-/

set_option autoImplicit false

namespace LoopLab.Llm
open Lib

/-! ## Lanes -/

theorem laneAt_laneIndex (lane : Lane) : laneAt (laneIndex lane) = lane := by
  cases lane <;> rfl

theorem laneIndex_lt (lane : Lane) : laneIndex lane < LLM_LANES.length := by
  cases lane <;> decide

theorem laneIndex_laneAt : ∀ i < LLM_LANES.length, laneIndex (laneAt i) = i := by decide

namespace Broker
variable {b : Broker} {lane : Lane}

theorem nextEligibleLane_eq (h : b.nextEligibleLane = some lane) :
    b.atTotal = false ∧
      Rotation.pick LLM_LANES.length b.lastLaneIndex (fun i => b.waitsWithCapacity (laneAt i)) = some (laneIndex lane) := by
  unfold nextEligibleLane at h
  split at h
  · cases h
  · next htotal =>
    obtain ⟨i, hi, rfl⟩ := Option.map_eq_some_iff.mp h
    refine ⟨(Bool.not_eq_true _).mp htotal, ?_⟩
    rw [hi]
    have hmem := List.mem_of_find?_eq_some hi
    obtain ⟨offset, -, rfl⟩ := List.mem_map.mp hmem
    rw [laneIndex_laneAt _ (Nat.mod_lt _ (by decide))]

theorem nextEligibleLane_of_pick (htotal : b.atTotal = false)
    (h : Rotation.pick LLM_LANES.length b.lastLaneIndex (fun i => b.waitsWithCapacity (laneAt i)) = some (laneIndex lane)) :
    b.nextEligibleLane = some lane := by
  unfold nextEligibleLane
  rw [htotal, if_neg Bool.false_ne_true, h, Option.map_some, laneAt_laneIndex]

theorem waits_of_next (h : b.nextEligibleLane = some lane) : b.waitsWithCapacity lane = true := by
  have hpicked := List.find?_some (nextEligibleLane_eq h).2
  rwa [laneAt_laneIndex] at hpicked

theorem ready_laneQueue {t : Ticket} (h : b.ready t) : ∃ rest, b.queues t.lane = t :: rest := by
  obtain ⟨-, hhead⟩ := h
  cases hqueue : b.queues t.lane with
  | nil =>
    rw [hqueue] at hhead
    cases hhead
  | cons head rest =>
    rw [hqueue] at hhead
    exact ⟨rest, by rw [Option.some.inj hhead]⟩

theorem ready_enqueue (new : Lane) {t : Ticket} (hne : t ≠ (b.enqueue new).2) (h : (b.enqueue new).1.ready t) : b.ready t := by
  obtain ⟨hnext, hhead⟩ := h
  obtain ⟨htotal, hpick⟩ := nextEligibleLane_eq hnext
  have hold : (b.queues t.lane).head? = some t := by
    change (Function.update b.queues new (b.queues new ++ [(b.enqueue new).2]) t.lane).head? = some t at hhead
    by_cases hlane : t.lane = new
    · subst hlane
      rw [Function.update_self] at hhead
      cases hqueue : b.queues t.lane with
      | nil =>
        rw [hqueue] at hhead
        exact absurd (Option.some.inj hhead).symm hne
      | cons head rest =>
        rw [hqueue] at hhead
        exact hhead
    · rwa [Function.update_of_ne hlane] at hhead
  refine ⟨nextEligibleLane_of_pick htotal (Rotation.pick_mono hpick ?_ ?_), hold⟩
  · intro i hi
    unfold waitsWithCapacity at hi ⊢
    rw [Bool.and_eq_true] at hi ⊢
    refine ⟨?_, hi.2⟩
    change (!(Function.update b.queues new (b.queues new ++ [(b.enqueue new).2]) (laneAt i)).isEmpty) = true
    by_cases hlane : laneAt i = new
    · rw [hlane, Function.update_self]
      simp
    · rw [Function.update_of_ne hlane]
      exact hi.1
  · have hwaits := waits_of_next hnext
    rw [laneAt_laneIndex]
    unfold waitsWithCapacity at hwaits ⊢
    rw [Bool.and_eq_true] at hwaits ⊢
    refine ⟨?_, hwaits.2⟩
    cases hqueue : b.queues t.lane with
    | nil =>
      rw [hqueue] at hold
      cases hold
    | cons head rest => rfl

theorem admitHead_within (h : b.nextEligibleLane = some lane) :
    (∀ total, (b.admitHead lane).total = some total → (b.admitHead lane).borrowed ≤ total) ∧
      ∀ limit, (b.admitHead lane).laneLimits lane = some limit → (b.admitHead lane).borrowedByLane lane ≤ limit := by
  have hwaits := waits_of_next h
  unfold waitsWithCapacity hasCapacity at hwaits
  rw [Bool.and_eq_true, Bool.and_eq_true, Bool.not_eq_true'] at hwaits
  obtain ⟨-, htotal, hlane⟩ := hwaits
  constructor
  · intro total heq
    have heq : b.total = some total := heq
    unfold atTotal at htotal
    rw [heq] at htotal
    rw [Bool.not_eq_true'] at htotal
    have hfree := of_decide_eq_false htotal
    show b.borrowed + 1 ≤ total
    omega
  · intro limit heq
    have heq : b.laneLimits lane = some limit := heq
    rw [heq] at hlane
    have hfree := of_decide_eq_true hlane
    show Function.update b.borrowedByLane lane (b.borrowedByLane lane + 1) lane ≤ limit
    rw [Function.update_self]
    omega

end Broker

/-! ## What every section keeps -/

structure Requests.Counted (s : Requests) : Prop where
  pointer : s.broker.lastLaneIndex < LLM_LANES.length
  own : ∀ lane, ∀ t ∈ s.broker.queues lane, t.lane = lane ∧ t.seq < s.broker.nextSeq
  sorted : ∀ lane, (s.broker.queues lane).Pairwise (·.seq < ·.seq)
  total : s.broker.borrowed = s.live.length
  lanes : ∀ lane, s.broker.borrowedByLane lane = s.live.countP (·.lane = lane)
  older : ∀ g ∈ s.granted, g.seq < s.broker.nextSeq ∧ ∀ t ∈ s.broker.queues g.lane, g.seq < t.seq
  order : ∀ lane, (s.granted.filter (·.lane = lane)).Pairwise (·.seq < ·.seq)

structure Requests.Sound (s : Requests) : Prop extends s.Counted where
  threads : s.waiters.all.Nodup
  waiting : ∀ t, t ∈ s.waiters.all ↔ t ∈ s.broker.queues t.lane
  heard : s.waiters.Heard s.broker.ready

structure Requests.Running (s : Requests) (t : Ticket) : Prop extends s.Counted where
  threads : s.waiters.all.Nodup
  mine : t ∈ s.broker.queues t.lane
  waiting : ∀ x, x ∈ s.waiters.all ↔ x ∈ s.broker.queues x.lane ∧ x ≠ t
  heard : ¬ s.broker.ready t → s.waiters.Heard s.broker.ready

namespace Requests
variable {s : Requests}

theorem nodup_queue (h : s.Counted) (lane : Lane) : (s.broker.queues lane).Nodup :=
  (h.sorted lane).imp fun hlt heq => by
    rw [heq] at hlt
    omega

theorem Running.admit {t : Ticket} (h : s.Running t) (hready : s.broker.ready t) :
    Sound
      { broker := s.broker.admitHead t.lane
        waiters := s.waiters.notifyAll
        live := t :: s.live
        granted := s.granted ++ [t] } := by
  obtain ⟨rest, hqueue⟩ := Broker.ready_laneQueue hready
  have hqueues (lane : Lane) : (s.broker.admitHead t.lane).queues lane = if lane = t.lane then rest else s.broker.queues lane := by
    show Function.update s.broker.queues t.lane (s.broker.queues t.lane).tail lane = _
    rw [Function.update_apply, hqueue]
    rfl
  have hsub (lane : Lane) : ((s.broker.admitHead t.lane).queues lane).Sublist (s.broker.queues lane) := by
    rw [hqueues]
    split
    · next hlane =>
      subst hlane
      rw [hqueue]
      exact List.sublist_cons_self _ _
    · exact List.Sublist.refl _
  have hlt : ∀ x ∈ rest, t.seq < x.seq := by
    have hsorted := h.sorted t.lane
    rw [hqueue] at hsorted
    exact (List.pairwise_cons.mp hsorted).1
  have hlater : ∀ x ∈ (s.broker.admitHead t.lane).queues t.lane, t.seq < x.seq := by
    intro x hx
    rw [hqueues, if_pos rfl] at hx
    exact hlt x hx
  constructor
  · constructor
    · exact laneIndex_lt t.lane
    · exact fun lane x hx => h.own lane x ((hsub lane).subset hx)
    · exact fun lane => (h.sorted lane).sublist (hsub lane)
    · show s.broker.borrowed + 1 = ((t :: s.live).length : Int)
      rw [h.total, List.length_cons]
      omega
    · intro lane
      show Function.update s.broker.borrowedByLane t.lane (s.broker.borrowedByLane t.lane + 1) lane = _
      rw [Function.update_apply, List.countP_cons, h.lanes]
      by_cases hlane : lane = t.lane
      · subst hlane
        simp
      · have hlane' : ¬ t.lane = lane := fun heq => hlane heq.symm
        simp [hlane, hlane', h.lanes]
    · intro g hg
      rcases List.mem_append.mp hg with hg | hg
      · exact ⟨(h.older g hg).1, fun x hx => (h.older g hg).2 x ((hsub g.lane).subset hx)⟩
      · obtain rfl := List.mem_singleton.mp hg
        exact ⟨(h.own _ _ h.mine).2, hlater⟩
    · intro lane
      rw [List.filter_append, List.pairwise_append]
      refine ⟨h.order lane, List.Pairwise.sublist List.filter_sublist (List.pairwise_singleton _ _), ?_⟩
      intro g hg x hx
      obtain ⟨hx, hlane⟩ := List.mem_filter.mp hx
      obtain rfl := List.mem_singleton.mp hx
      obtain ⟨hg, hlane'⟩ := List.mem_filter.mp hg
      have hsame : g.lane = x.lane := (of_decide_eq_true hlane').trans (of_decide_eq_true hlane).symm
      exact (h.older g hg).2 x (hsame ▸ h.mine)
  · exact s.waiters.all_notifyAll.nodup_iff.mpr h.threads
  · intro x
    rw [s.waiters.all_notifyAll.mem_iff, h.waiting, hqueues]
    split
    · next hlane =>
      rw [hlane, hqueue, List.mem_cons]
      have hfresh : x ∈ rest → x ≠ t := by
        rintro hx rfl
        exact absurd (hlt x hx) (Nat.lt_irrefl _)
      tauto
    · next hlane =>
      have hne : x ≠ t := by
        rintro rfl
        exact hlane rfl
      tauto
  · exact Waiters.heard_notifyAll

theorem Running.attempt {t : Ticket} (h : s.Running t) : (s.attempt t).Sound := by
  unfold Requests.attempt
  split
  · next hready => exact h.admit hready
  · next hready =>
    have hnotmem : t ∉ s.waiters.all := fun hmem => ((h.waiting t).mp hmem).2 rfl
    refine ⟨⟨h.pointer, h.own, h.sorted, h.total, h.lanes, h.older, h.order⟩, ?_, ?_, ?_⟩
    · exact List.nodup_cons.mpr ⟨hnotmem, h.threads⟩
    · intro x
      rw [Waiters.all_sleep, List.mem_cons, h.waiting]
      constructor
      · rintro (rfl | ⟨hx, -⟩)
        · exact h.mine
        · exact hx
      · intro hx
        by_cases heq : x = t
        · exact .inl heq
        · exact .inr ⟨hx, heq⟩
    · exact (h.heard hready).sleep hready

theorem Sound.enter (h : s.Sound) (lane : Lane) :
    Running { s with broker := (s.broker.enqueue lane).1 } (s.broker.enqueue lane).2 := by
  have hqueues (l : Lane) : (s.broker.enqueue lane).1.queues l =
      if l = lane then s.broker.queues lane ++ [⟨s.broker.nextSeq, lane⟩] else s.broker.queues l := by
    show Function.update s.broker.queues lane _ l = _
    rw [Function.update_apply]
  have hmem (x : Ticket) (l : Lane) : x ∈ (s.broker.enqueue lane).1.queues l ↔
      x ∈ s.broker.queues l ∨ x = ⟨s.broker.nextSeq, lane⟩ ∧ l = lane := by
    rw [hqueues]
    split
    · next hl =>
      subst hl
      rw [List.mem_append, List.mem_singleton]
      tauto
    · next hl => tauto
  have hfresh : ∀ l, ∀ x ∈ s.broker.queues l, x ≠ ⟨s.broker.nextSeq, lane⟩ := by
    rintro l x hx rfl
    exact absurd (h.own l _ hx).2 (Nat.lt_irrefl _)
  constructor
  · constructor
    · exact h.pointer
    · intro l x hx
      show x.lane = l ∧ x.seq < s.broker.nextSeq + 1
      rcases (hmem x l).mp hx with hx | ⟨rfl, rfl⟩
      · have := h.own l x hx
        exact ⟨this.1, by omega⟩
      · exact ⟨rfl, Nat.lt_succ_self _⟩
    · intro l
      show ((s.broker.enqueue lane).1.queues l).Pairwise _
      rw [hqueues]
      split
      · rw [List.pairwise_append]
        refine ⟨h.sorted lane, List.pairwise_singleton _ _, fun x hx y hy => ?_⟩
        obtain rfl := List.mem_singleton.mp hy
        exact (h.own lane x hx).2
      · exact h.sorted l
    · exact h.total
    · exact h.lanes
    · intro g hg
      obtain ⟨hlt, holder⟩ := h.older g hg
      refine ⟨Nat.lt_succ_of_lt hlt, fun x hx => ?_⟩
      rcases (hmem x g.lane).mp hx with hx | ⟨rfl, -⟩
      · exact holder x hx
      · exact hlt
    · exact h.order
  · exact h.threads
  · exact (hmem _ _).mpr (.inr ⟨rfl, rfl⟩)
  · intro x
    show x ∈ s.waiters.all ↔ x ∈ (s.broker.enqueue lane).1.queues x.lane ∧ x ≠ ⟨s.broker.nextSeq, lane⟩
    rw [h.waiting, hmem]
    constructor
    · exact fun hx => ⟨.inl hx, hfresh _ x hx⟩
    · rintro ⟨hx | ⟨rfl, -⟩, hne⟩
      · exact hx
      · exact absurd rfl hne
  · intro hquiet
    refine h.heard.mono fun x hx hready => Broker.ready_enqueue lane ?_ hready
    rintro rfl
    exact hquiet hready

theorem Sound.wake (h : s.Sound) {t : Ticket} (ht : t ∈ s.waiters.woken) :
    Running { s with waiters := s.waiters.leave t } t := by
  have hall : t ∈ s.waiters.all := List.mem_append_right _ ht
  refine ⟨⟨h.pointer, h.own, h.sorted, h.total, h.lanes, h.older, h.order⟩, ?_, (h.waiting t).mp hall, ?_, ?_⟩
  · exact Waiters.nodup_leave h.threads t
  · intro x
    rw [Waiters.mem_leave h.threads, h.waiting]
    exact and_comm
  · exact fun _ => h.heard.leave t

theorem Sound.cancel (h : s.Sound) {t : Ticket} (ht : t ∈ s.waiters.all) :
    Sound
      { s with
        broker := s.broker.removeTicket t
        waiters := (s.waiters.leave t).notifyAll } := by
  have hqueues (l : Lane) : (s.broker.removeTicket t).queues l =
      if l = t.lane then (s.broker.queues t.lane).erase t else s.broker.queues l := by
    show Function.update s.broker.queues t.lane _ l = _
    rw [Function.update_apply]
  have hsub (l : Lane) : ((s.broker.removeTicket t).queues l).Sublist (s.broker.queues l) := by
    rw [hqueues]
    split
    · next hl => exact hl ▸ List.erase_sublist
    · exact List.Sublist.refl _
  constructor
  · exact ⟨h.pointer, fun l x hx => h.own l x ((hsub l).subset hx), fun l => (h.sorted l).sublist (hsub l), h.total, h.lanes,
      fun g hg => ⟨(h.older g hg).1, fun x hx => (h.older g hg).2 x ((hsub g.lane).subset hx)⟩, h.order⟩
  · exact (Waiters.all_notifyAll _).nodup_iff.mpr (Waiters.nodup_leave h.threads t)
  · intro x
    rw [(Waiters.all_notifyAll _).mem_iff, Waiters.mem_leave h.threads, h.waiting, hqueues]
    split
    · next hl =>
      rw [(nodup_queue h.toCounted t.lane).mem_erase_iff, hl]
    · next hl =>
      have hne : x ≠ t := by
        rintro rfl
        exact hl rfl
      tauto
  · exact Waiters.heard_notifyAll

theorem Sound.release (h : s.Sound) {t : Ticket} (ht : t ∈ s.live) :
    Sound
      { s with
        broker := s.broker.giveBack t.lane
        live := s.live.erase t
        waiters := s.waiters.notifyAll } := by
  constructor
  · refine ⟨h.pointer, h.own, h.sorted, ?_, ?_, h.older, h.order⟩
    · show s.broker.borrowed - 1 = ((s.live.erase t).length : Int)
      have hpos := List.length_pos_of_mem ht
      rw [h.total, List.length_erase_of_mem ht]
      omega
    · intro lane
      show Function.update s.broker.borrowedByLane t.lane (s.broker.borrowedByLane t.lane - 1) lane = _
      have hcount := (List.perm_cons_erase ht).countP_eq (·.lane = lane)
      rw [List.countP_cons] at hcount
      rw [Function.update_apply, h.lanes, h.lanes]
      by_cases hlane : lane = t.lane
      · subst hlane
        rw [if_pos (decide_eq_true rfl)] at hcount
        rw [if_pos rfl, hcount]
        show (((s.live.erase t).countP (·.lane = t.lane) + 1 : Nat) : Int) - 1 = (s.live.erase t).countP (·.lane = t.lane)
        omega
      · rw [if_neg (by simpa using fun heq : t.lane = lane => hlane heq.symm)] at hcount
        rw [if_neg hlane, hcount]
        rfl
  · exact s.waiters.all_notifyAll.nodup_iff.mpr h.threads
  · exact fun x => (s.waiters.all_notifyAll.mem_iff).trans (h.waiting x)
  · exact Waiters.heard_notifyAll

theorem step_enter {lane : String} {s' : Requests} (h : s.step (.enter lane) = some s') :
    ∃ l, s' = attempt { s with broker := (s.broker.enqueue l).1 } (s.broker.enqueue l).2 :=
  ⟨normalizeLlmLane lane, (Option.some.inj h).symm⟩

theorem step_wake {t : Ticket} {s' : Requests} (h : s.step (.wake t) = some s') :
    t ∈ s.waiters.woken ∧ s' = { s with waiters := s.waiters.leave t }.attempt t := by
  by_cases ht : t ∈ s.waiters.woken
  · exact ⟨ht, (Option.some.inj ((if_pos ht).symm.trans h)).symm⟩
  · cases (if_neg ht).symm.trans h

theorem step_cancel {t : Ticket} {s' : Requests} (h : s.step (.cancel t) = some s') :
    t ∈ s.waiters.all ∧ s' = { s with
      broker := s.broker.removeTicket t
      waiters := (s.waiters.leave t).notifyAll } := by
  by_cases ht : t ∈ s.waiters.all
  · exact ⟨ht, (Option.some.inj ((if_pos ht).symm.trans h)).symm⟩
  · cases (if_neg ht).symm.trans h

theorem step_release {t : Ticket} {s' : Requests} (h : s.step (.release t) = some s') :
    t ∈ s.live ∧ s' = { s with
      broker := s.broker.giveBack t.lane
      live := s.live.erase t
      waiters := s.waiters.notifyAll } := by
  by_cases ht : t ∈ s.live
  · exact ⟨ht, (Option.some.inj ((if_pos ht).symm.trans h)).symm⟩
  · cases (if_neg ht).symm.trans h

theorem step_reconfigure {total laneLimits : Json} {s' : Requests} (h : s.step (.reconfigure total laneLimits) = some s') :
    s' = s ∨ ∃ total laneLimits, s' = { s with
      broker := { s.broker with total, laneLimits }
      waiters := s.waiters.notifyAll } := by
  unfold Requests.step at h
  dsimp only at h
  cases hb : s.broker.reconfigure total laneLimits with
  | none =>
    rw [hb] at h
    exact .inl (Option.some.inj h).symm
  | some broker =>
    rw [hb] at h
    obtain rfl := Option.some.inj h
    refine .inr ?_
    unfold Broker.reconfigure at hb
    obtain ⟨total, -, hb⟩ := Option.bind_eq_some_iff.mp hb
    split at hb
    · obtain rfl := Option.some.inj hb
      exact ⟨total, s.broker.laneLimits, rfl⟩
    · obtain ⟨limits, -, hb⟩ := Option.bind_eq_some_iff.mp hb
      obtain rfl := Option.some.inj hb
      exact ⟨total, limits, rfl⟩

theorem Sound.step (h : s.Sound) {a : Action} {s' : Requests} (hstep : s.step a = some s') : s'.Sound := by
  cases a with
  | enter lane =>
    obtain ⟨l, rfl⟩ := step_enter hstep
    exact (h.enter l).attempt
  | wake t =>
    obtain ⟨ht, rfl⟩ := step_wake hstep
    exact (h.wake ht).attempt
  | cancel t =>
    obtain ⟨ht, rfl⟩ := step_cancel hstep
    exact h.cancel ht
  | release t =>
    obtain ⟨ht, rfl⟩ := step_release hstep
    exact h.release ht
  | reconfigure total laneLimits =>
    rcases step_reconfigure hstep with rfl | ⟨total, laneLimits, rfl⟩
    · exact h
    · exact ⟨⟨h.pointer, h.own, h.sorted, h.total, h.lanes, h.older, h.order⟩, s.waiters.all_notifyAll.nodup_iff.mpr h.threads,
        fun x => (s.waiters.all_notifyAll.mem_iff).trans (h.waiting x), Waiters.heard_notifyAll⟩

structure Extends (x s : Requests) : Prop where
  granted : x.granted = s.granted
  pointer : x.broker.lastLaneIndex = s.broker.lastLaneIndex
  waits : ∀ lane, s.broker.waitsWithCapacity lane = true → x.broker.waitsWithCapacity lane = true

inductive Admits (s s' : Requests) : Prop
  | quiet (hgranted : s'.granted = s.granted) (hpointer : s'.broker.lastLaneIndex = s.broker.lastLaneIndex)
  | admits {x : Requests} {t : Ticket} (hbefore : x.Extends s) (hready : x.broker.ready t)
    (hgranted : s'.granted = s.granted ++ [t]) (hbroker : s'.broker = x.broker.admitHead t.lane)

theorem Extends.attempt {x : Requests} (h : x.Extends s) (t : Ticket) : Admits s (x.attempt t) := by
  unfold Requests.attempt
  split
  · next hready => exact .admits h hready (by rw [h.granted]) rfl
  · exact .quiet h.granted h.pointer

theorem extends_enqueue (l : Lane) : Extends { s with broker := (s.broker.enqueue l).1 } s := by
  refine ⟨rfl, rfl, fun lane hlane => ?_⟩
  unfold Broker.waitsWithCapacity at hlane ⊢
  rw [Bool.and_eq_true] at hlane ⊢
  refine ⟨?_, hlane.2⟩
  show (!(Function.update s.broker.queues l _ lane).isEmpty) = true
  rw [Function.update_apply]
  split
  · simp
  · exact hlane.1

theorem step_admits {a : Action} {s' : Requests} (hstep : s.step a = some s') : Admits s s' := by
  cases a with
  | enter lane =>
    obtain ⟨l, rfl⟩ := step_enter hstep
    exact (extends_enqueue l).attempt _
  | wake t =>
    obtain ⟨-, rfl⟩ := step_wake hstep
    have hextends : Extends { s with waiters := s.waiters.leave t } s := ⟨rfl, rfl, fun _ hl => hl⟩
    exact hextends.attempt t
  | cancel t =>
    obtain ⟨-, rfl⟩ := step_cancel hstep
    exact .quiet rfl rfl
  | release t =>
    obtain ⟨-, rfl⟩ := step_release hstep
    exact .quiet rfl rfl
  | reconfigure total laneLimits =>
    rcases step_reconfigure hstep with rfl | ⟨total, laneLimits, rfl⟩
    · exact .quiet rfl rfl
    · exact .quiet rfl rfl

/-- The states that locked sections lead to. -/
inductive Reaches : Requests → Requests → Prop
  | refl (s : Requests) : Reaches s s
  | step {s s' s'' : Requests} {a : Action} (h : s.step a = some s') (rest : Reaches s' s'') : Reaches s s''

theorem Sound.reaches {s' : Requests} (h : s.Sound) (hreach : Reaches s s') : s'.Sound := by
  induction hreach with
  | refl s => exact h
  | step hstep _ ih => exact ih (h.step hstep)

theorem sound_new {total laneLimits : Json} {b : Broker} (h : Broker.new total laneLimits = some b) :
    Sound { broker := b } := by
  unfold Broker.new at h
  obtain ⟨total, -, h⟩ := Option.bind_eq_some_iff.mp h
  obtain ⟨limits, -, h⟩ := Option.bind_eq_some_iff.mp h
  obtain rfl := Option.some.inj h
  constructor
  · exact ⟨Nat.lt_succ_self 4, fun _ _ h => absurd h List.not_mem_nil, fun _ => .nil, rfl, fun _ => rfl,
      fun _ h => absurd h List.not_mem_nil, fun _ => .nil⟩
  · exact List.nodup_nil
  · exact fun t => iff_of_false List.not_mem_nil List.not_mem_nil
  · exact fun _ h => absurd h List.not_mem_nil

/-- The lanes admitted on the way, while `lane` has a ticket and capacity at each admission and is not
admitted itself. -/
inductive Passing (lane : Lane) : Requests → List Lane → Requests → Prop
  | refl (s : Requests) : Passing lane s [] s
  | quiet {s s' s'' : Requests} {a : Action} {passed : List Lane} (h : s.step a = some s') (hgranted : s'.granted = s.granted)
    (rest : Passing lane s' passed s'') : Passing lane s passed s''
  | admits {s s' s'' : Requests} {a : Action} {passed : List Lane} {t : Ticket} (h : s.step a = some s')
    (heligible : s.broker.waitsWithCapacity lane = true) (hgranted : s'.granted = s.granted ++ [t]) (hother : t.lane ≠ lane)
    (rest : Passing lane s' passed s'') : Passing lane s (t.lane :: passed) s''

theorem Passing.turns {lane : Lane} {passed : List Lane} {s' : Requests} (h : Passing lane s passed s') :
    Rotation.Passes LLM_LANES.length (laneIndex lane) s.broker.lastLaneIndex (passed.map laneIndex) := by
  induction h with
  | refl s => exact .nil _
  | quiet hstep hgranted _ ih =>
    cases step_admits hstep with
    | quiet _ hpointer => rwa [hpointer] at ih
    | admits _ _ hmore _ =>
      rw [hgranted] at hmore
      exact absurd hmore (by simp)
  | @admits s s' s'' a passed t hstep heligible hgranted hother _ ih =>
    cases step_admits hstep with
    | quiet hsame _ =>
      rw [hgranted] at hsame
      exact absurd hsame (by simp)
    | @admits x u hbefore hready hmore hbroker =>
      have htu : t = u := by
        rw [hgranted] at hmore
        exact (List.cons.inj (List.append_cancel_left hmore)).1
      subst htu
      have hpick := (Broker.nextEligibleLane_eq hready.1).2
      rw [hbefore.pointer] at hpick
      have hpointer : s'.broker.lastLaneIndex = laneIndex t.lane := by
        rw [hbroker]
        rfl
      rw [hpointer] at ih
      rw [List.map_cons]
      refine .cons _ ?_ hpick ?_ ih
      · rw [laneAt_laneIndex]
        exact hbefore.waits lane heligible
      · intro heq
        apply hother
        rw [← laneAt_laneIndex t.lane, heq, laneAt_laneIndex]

theorem Passing.nodup {lane : Lane} {passed : List Lane} {s' : Requests} (hs : s.Sound) (h : Passing lane s passed s') :
    passed.Nodup :=
  (h.turns.nodup (laneIndex_lt lane) hs.pointer).1.of_map laneIndex

theorem sum_lanes (live : List Ticket) : (LLM_LANES.map fun lane => live.countP (·.lane = lane)).sum = live.length := by
  induction live with
  | nil => rfl
  | cons t live ih =>
    have hlane (lane : Lane) : (t :: live).countP (·.lane = lane) = live.countP (·.lane = lane) + if t.lane = lane then 1 else 0 := by
      rw [List.countP_cons]
      simp
    have hone : (LLM_LANES.map fun lane => if t.lane = lane then 1 else 0).sum = 1 := by
      cases t.lane <;> rfl
    rw [List.map_congr_left fun lane _ => hlane lane, List.sum_map_add, ih, hone, List.length_cons]

end Requests

open Requests

end LoopLab.Llm
