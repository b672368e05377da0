import LoopLab.Engine.EvalSeconds
import Mathlib.Algebra.BigOperators.Group.List.Lemmas

/-!
# Every evaluator second is charged once

A lifecycle is a list of attempts, each cut off wherever its process died, with rows of other lifecycles in
between.
-/

set_option autoImplicit false

namespace LoopLab.Engine.EvalSeconds
open Lib

/-- A row that ends an attempt after its evaluator or its canary failed. -/
inductive Carrier where
  | repaired
  | depsInstalled
  | decideRepair
  deriving DecidableEq, Repr

def Carrier.mark : Carrier → Rat → Mark
  | repaired, s => .repaired false s
  | depsInstalled, s => .depsInstalled s
  | decideRepair, s => .withheld .decideRepair s

/-- One pass of the attempt loop, as far as it came. `rounds` are the canary runs it finished. -/
inductive Attempt where
  /-- Withheld at `admit` or `before_launch`. -/
  | held
  /-- The process died in its canary (`hanging`) or before its claim. -/
  | interrupted (rounds : List Rat) (hanging : Bool)
  | heldAfterCanary (first : Rat) (more : List Rat) (clock : Rat)
  | failedCanary (first : Rat) (more : List Rat) (clock : Rat) (row : Carrier)
  | claimed (rounds : List Rat)
  | settled (rounds : List Rat) (seconds : Rat) (salvages : Nat) (row : Option Carrier)
  deriving Repr

/-- The rows of the canary: each round is started, then finished; every later one is a retry. -/
def roundMarks (retry : Bool) : List Rat → List Mark
  | [] => []
  | s :: rest => .canaryStarted retry :: .canaryFinished s :: roundMarks true rest

namespace Attempt

def marks : Attempt → List Mark
  | held => [.withheld .early 0]
  | interrupted rounds hanging =>
    roundMarks false rounds ++ if hanging then [.canaryStarted !rounds.isEmpty] else []
  | heldAfterCanary first more clock =>
    roundMarks false (first :: more) ++ [.withheld .afterCanary clock]
  | failedCanary first more clock row => roundMarks false (first :: more) ++ [row.mark clock]
  | claimed rounds => roundMarks false rounds ++ [.claimed rounds.isEmpty]
  | settled rounds seconds salvages row =>
    roundMarks false rounds ++ [.claimed rounds.isEmpty, .settled seconds] ++
      List.replicate salvages (.repaired true 0) ++ row.toList.map (·.mark seconds)

/-- The evaluator seconds of the attempt: a settle's clock includes its canary's. -/
def seconds : Attempt → Rat
  | held => 0
  | interrupted rounds _ => rounds.sum
  | heldAfterCanary _ _ clock => clock
  | failedCanary _ _ clock _ => clock
  | claimed rounds => rounds.sum
  | settled _ seconds _ _ => seconds

/-- The settle of the attempt and, without one, its canaries. -/
def settleOrCanaries : Attempt → Rat
  | held => 0
  | interrupted rounds _ => rounds.sum
  | heldAfterCanary first more _ => first + more.sum
  | failedCanary first more _ _ => first + more.sum
  | claimed rounds => rounds.sum
  | settled _ seconds _ _ => seconds

/-- The step no row has carried when the attempt is over. -/
def leaves (window : Window) : Attempt → Window
  | held => window
  | interrupted [] false => window
  | interrupted [] true => .shut
  | interrupted rounds@(_ :: _) _ => .canary rounds.sum
  | heldAfterCanary _ _ _ => .shut
  | failedCanary _ _ _ _ => .shut
  | claimed [] => if window.isCanary then .shut else window
  | claimed rounds@(_ :: _) => .canary rounds.sum
  | settled _ seconds _ none => .settle seconds
  | settled _ _ _ (some _) => .shut

/-- What the attempt adds to `total_eval` of the process that ran it to its outcome. -/
def clock : Attempt → Option Rat
  | failedCanary _ _ clock _ => some clock
  | settled _ seconds _ _ => some seconds
  | _ => none

end Attempt

theorem terminal_not_mem_rounds (retry : Bool) (rounds : List Rat) :
    Mark.terminal ∉ roundMarks retry rounds := by
  induction rounds generalizing retry with
  | nil => simp [roundMarks]
  | cons s rest ih => simp [roundMarks, ih]

theorem Attempt.terminal_not_mem (a : Attempt) : Mark.terminal ∉ a.marks := by
  have hrow : ∀ (row : Carrier) (s : Rat), Mark.terminal ≠ row.mark s := by
    intro row s
    cases row <;> simp [Carrier.mark]
  cases a with
  | settled rounds seconds salvages row =>
    cases row <;> simp [Attempt.marks, terminal_not_mem_rounds, hrow]
  | interrupted rounds hanging => cases hanging <;> simp [Attempt.marks, terminal_not_mem_rounds]
  | _ => simp [Attempt.marks, terminal_not_mem_rounds, hrow]

def balance (acc : Rat × Window) : Rat := acc.1 + acc.2.seconds

theorem scan_rounds (acc : Rat × Window) (first : Rat) (more : List Rat) :
    (roundMarks false (first :: more)).foldl Mark.scan acc =
      (balance acc, .canary (first + more.sum)) := by
  have hmore : ∀ (spent held : Rat), (roundMarks true more).foldl Mark.scan (spent, .canary held) =
      (spent, .canary (held + more.sum)) := by
    induction more with
    | nil => simp [roundMarks]
    | cons s rest ih =>
      intro spent held
      simp only [roundMarks, List.foldl_cons, Mark.scan, if_true, ih, List.sum_cons, add_assoc]
  simp [roundMarks, Mark.scan, hmore, balance]

theorem carried_rounds (retry : Bool) (rounds : List Rat) :
    ((roundMarks retry rounds).map Mark.carried).sum = 0 := by
  induction rounds generalizing retry with
  | nil => rfl
  | cons s rest ih => simp [roundMarks, Mark.carried, ih]

theorem scan_salvages (acc : Rat × Window) (salvages : Nat) :
    (List.replicate salvages (Mark.repaired true 0)).foldl Mark.scan acc = acc := by
  induction salvages with
  | zero => rfl
  | succ n ih => simp [List.replicate_succ, Mark.scan, ih]

@[simp] theorem carried_mark (row : Carrier) (s : Rat) : (row.mark s).carried = s := by
  cases row <;> rfl

@[simp] theorem scan_mark (acc : Rat × Window) (row : Carrier) (s : Rat) :
    Mark.scan acc (row.mark s) = (acc.1, .shut) := by
  cases row <;> rfl

theorem scan_attempt (acc : Rat × Window) (a : Attempt) :
    (a.marks.foldl Mark.scan acc).2 = a.leaves acc.2 ∧
      balance (a.marks.foldl Mark.scan acc) + (a.marks.map Mark.carried).sum =
        balance acc + a.seconds := by
  cases a with
  | held => simp [Attempt.marks, Attempt.leaves, Attempt.seconds, Mark.scan, Mark.carried]
  | interrupted rounds hanging =>
    cases rounds with
    | nil =>
      cases hanging <;>
        simp [Attempt.marks, Attempt.leaves, Attempt.seconds, roundMarks, Mark.scan, Mark.carried,
          balance, Window.seconds]
    | cons first more =>
      have hscan := scan_rounds acc first more
      have hcarried := carried_rounds false (first :: more)
      cases hanging <;>
        simp [Attempt.marks, Attempt.leaves, Attempt.seconds, List.foldl_append, hscan, hcarried,
          Mark.scan, Mark.carried, balance, Window.seconds]
  | heldAfterCanary first more clock =>
    have hscan := scan_rounds acc first more
    have hcarried := carried_rounds false (first :: more)
    simp [Attempt.marks, Attempt.leaves, Attempt.seconds, List.foldl_append, hscan, hcarried,
      Mark.scan, Mark.carried, balance, Window.seconds, Window.isCanary]
  | failedCanary first more clock row =>
    have hscan := scan_rounds acc first more
    have hcarried := carried_rounds false (first :: more)
    simp [Attempt.marks, Attempt.leaves, Attempt.seconds, List.foldl_append, hscan, hcarried,
      balance, Window.seconds]
  | claimed rounds =>
    cases rounds with
    | nil =>
      -- an open canary is an earlier process's, and the claim says so
      obtain ⟨spent, window⟩ := acc
      cases window <;>
        simp [Attempt.marks, Attempt.leaves, Attempt.seconds, roundMarks, Mark.scan, Mark.carried,
          balance, Window.seconds, Window.isCanary]
    | cons first more =>
      have hscan := scan_rounds acc first more
      have hcarried := carried_rounds false (first :: more)
      simp [Attempt.marks, Attempt.leaves, Attempt.seconds, List.foldl_append, hscan, hcarried,
        Mark.scan, Mark.carried, balance, Window.seconds]
  | settled rounds seconds salvages row =>
    have hsettled : (roundMarks false rounds ++ [Mark.claimed rounds.isEmpty, .settled seconds]).foldl
        Mark.scan acc = (balance acc, .settle seconds) := by
      cases rounds with
      | nil =>
        obtain ⟨spent, window⟩ := acc
        cases window <;> simp [roundMarks, Mark.scan, balance, Window.seconds]
      | cons first more =>
        simp [List.foldl_append, scan_rounds acc first more, Mark.scan]
    have hscan : (Attempt.settled rounds seconds salvages row).marks.foldl Mark.scan acc =
        (row.toList.map (·.mark seconds)).foldl Mark.scan (balance acc, .settle seconds) := by
      rw [Attempt.marks, List.foldl_append, List.foldl_append, hsettled, scan_salvages]
    have hcarried : ((Attempt.settled rounds seconds salvages row).marks.map Mark.carried).sum =
        ((row.toList.map (·.mark seconds)).map Mark.carried).sum := by
      simp [Attempt.marks, carried_rounds, Mark.carried]
    rw [hscan, hcarried]
    cases row <;> simp [Attempt.leaves, Attempt.seconds, balance, Window.seconds]

theorem scan_attempts (acc : Rat × Window) (attempts : List Attempt) :
    ((attempts.flatMap Attempt.marks).foldl Mark.scan acc).2 = attempts.foldl Attempt.leaves acc.2 ∧
      balance ((attempts.flatMap Attempt.marks).foldl Mark.scan acc) +
          ((attempts.flatMap Attempt.marks).map Mark.carried).sum =
        balance acc + (attempts.map Attempt.seconds).sum := by
  induction attempts generalizing acc with
  | nil => simp
  | cons a rest ih =>
    obtain ⟨hleaves, hbalance⟩ := scan_attempt acc a
    obtain ⟨hrest, hsum⟩ := ih (a.marks.foldl Mark.scan acc)
    simp only [List.flatMap_cons, List.foldl_append, List.map_append, List.sum_append,
      List.foldl_cons, List.map_cons, List.sum_cons]
    constructor
    · rw [hrest, hleaves]
    · linarith

/-! ## The lifecycles no attempt will close -/

def Mark.spends : Mark → Bool
  | canaryStarted _ => false
  | claimed _ => false
  | terminal => false
  | _ => true

theorem owed_eq_zero {marks : List Mark} (h : ∀ m ∈ marks, m.spends = false) : owed marks = 0 := by
  have hscan : marks.foldl Mark.scan (0, .shut) = (0, .shut) ∧ (marks.map Mark.carried).sum = 0 := by
    induction marks with
    | nil => exact ⟨rfl, rfl⟩
    | cons m rest ih =>
      obtain ⟨hrest, hsum⟩ := ih fun x hx => h x (List.mem_cons_of_mem _ hx)
      have hm := h m List.mem_cons_self
      cases m <;> simp_all [Mark.spends, Mark.scan, Mark.carried, Window.seconds]
  simp [owed, hscan.1, hscan.2, Window.seconds]

/-- The steps of a lifecycle, as a log holds them: each row names the lifecycle by its stamp. -/
structure Kept (log : List Event) (nodeId : Int) (generation : Nat) (marks : List Mark) : Prop where
  rows : log.filterMap (markOf nodeId generation) = marks
  stamped : ∀ e ∈ log, markOf nodeId generation e ≠ none →
    coerceNodeId e.data "generation" = some (generation : Int)

section Abandoned
variable {log : List Event} {nodeId : Int} {generation : Nat}

theorem belongs_of_spends {e : Event} {m : Mark} (hm : markOf nodeId generation e = some m)
    (hspends : m.spends = true) :
    durableRowBelongs e.data nodeId generation = true ∧
      e.type ∈ ["node_repaired", "deps_installed", "eval_attempt_withheld",
        "eval_invocation_settled", "eval_canary_finished"] := by
  unfold markOf at hm
  split_ifs at hm <;> simp_all [Mark.spends]
  all_goals (subst hm; simp at hspends)

theorem spentLifecycle_of_spends {e : Event} {m : Mark} (hm : markOf nodeId generation e = some m)
    (hspends : m.spends = true)
    (hstamp : coerceNodeId e.data "generation" = some (generation : Int)) :
    spentLifecycle e = some (nodeId, generation) := by
  obtain ⟨hours, htype⟩ := belongs_of_spends hm hspends
  have hnode : coerceNodeId e.data = some nodeId := by
    simp only [durableRowBelongs, Bool.and_eq_true, beq_iff_eq] at hours
    exact hours.1
  simp [spentLifecycle, htype, hnode, hstamp]

theorem hasTerminal_iff :
    hasTerminal log nodeId generation = true ↔
      .terminal ∈ log.filterMap (markOf nodeId generation) := by
  have hrow : ∀ e : Event, (isTerminal e.type && terminalBinds e nodeId generation) = true ↔
      markOf nodeId generation e = some .terminal := by
    intro e
    unfold markOf
    split_ifs <;> simp_all
  simp only [hasTerminal, List.any_eq_true, List.mem_filterMap, hrow]

theorem mem_spent {marks : List Mark} (h : Kept log nodeId generation marks)
    (howed : 0 < round3 (owed marks)) : (nodeId, generation) ∈ log.filterMap spentLifecycle := by
  by_contra hnone
  have hidle : ∀ m ∈ marks, m.spends = false := by
    intro m hm
    rw [← h.rows, List.mem_filterMap] at hm
    obtain ⟨e, he, hmark⟩ := hm
    have hstamp := h.stamped e he (by simp [hmark])
    apply eq_false_of_ne_true
    intro hspends
    exact hnone (List.mem_filterMap.mpr ⟨e, he, spentLifecycle_of_spends hmark hspends hstamp⟩)
  rw [owed_eq_zero hidle] at howed
  exact absurd howed (by decide +kernel)

theorem filter_key {α β : Type} [DecidableEq α] {keys : List α} (hnodup : keys.Nodup)
    (ask : α → Option β) (key : β → α) (hkey : ∀ k c, ask k = some c → key c = k) (k : α) :
    (keys.filterMap ask).filter (fun c => decide (key c = k)) =
      if k ∈ keys then (ask k).toList else [] := by
  induction keys with
  | nil => rfl
  | cons j rest ih =>
    obtain ⟨hfresh, hrest⟩ := List.nodup_cons.mp hnodup
    by_cases hj : j = k
    · subst hj
      have hothers := ih hrest
      rw [if_neg hfresh] at hothers
      cases hask : ask j with
      | none => simp [hask, hothers]
      | some c => simp [hask, hkey j c hask, hothers]
    · have hmem : (k ∈ j :: rest) = (k ∈ rest) := by simp [Ne.symm hj]
      cases hask : ask j with
      | none => simp [hask, ih hrest, Ne.symm hj]
      | some c => simp [hask, hkey j c hask, hj, ih hrest, Ne.symm hj]

theorem charges_of (state : RunState) {marks : List Mark} (h : Kept log nodeId generation marks) :
    (abandonedLifecycleCharges log state).filter
        (fun c => decide ((c.1, c.2.1) = (nodeId, generation))) =
      if abandoned state nodeId generation ∧ .terminal ∉ marks ∧ 0 < round3 (owed marks) then
        [(nodeId, generation, round3 (owed marks))] else [] := by
  have hprior : durablePriorSeconds log nodeId generation = round3 (owed marks) := by
    rw [durablePriorSeconds, priorSeconds_eq_owed, h.rows]
  have hterminal : hasTerminal log nodeId generation = true ↔ .terminal ∈ marks := by
    rw [hasTerminal_iff, h.rows]
  have hnodup : ((log.filterMap spentLifecycle).dedup.mergeSort lifecycleLe).Nodup :=
    (List.mergeSort_perm _ _).nodup_iff.mpr (List.nodup_dedup _)
  have hkey : ∀ k c, chargeOf log state k = some c → (c.1, c.2.1) = k := by
    rintro ⟨n, g⟩ c hc
    simp only [chargeOf] at hc
    split_ifs at hc
    cases hc
    rfl
  have hcharges := filter_key hnodup (chargeOf log state) (fun c => (c.1, c.2.1)) hkey
    (nodeId, generation)
  have hmem : (nodeId, generation) ∈ (log.filterMap spentLifecycle).dedup.mergeSort lifecycleLe ↔
      (nodeId, generation) ∈ log.filterMap spentLifecycle := by
    rw [(List.mergeSort_perm _ _).mem_iff, List.mem_dedup]
  simp only [hmem] at hcharges
  refine hcharges.trans ?_
  have hone : chargeOf log state (nodeId, generation) =
      if abandoned state nodeId generation ∧ .terminal ∉ marks ∧ 0 < round3 (owed marks) then
        some (nodeId, generation, round3 (owed marks)) else none := by
    simp only [chargeOf, hprior]
    by_cases hleft : abandoned state nodeId generation = true <;>
      by_cases hclosed : Mark.terminal ∈ marks <;> simp [hleft, hterminal, hclosed]
  rw [hone]
  by_cases hspent : 0 < round3 (owed marks)
  · rw [if_pos (mem_spent h hspent)]
    split_ifs <;> rfl
  · simp [hspent]

end Abandoned

/-- `a.total_eval`, over the attempts the loop took to their outcome. -/
def totalEval (own : List Attempt) : Rat := own.foldl (fun total a => total + a.clock.getD 0) 0

theorem totalEval_eq {own : List Attempt} (h : ∀ a ∈ own, a.clock.isSome) :
    totalEval own = (own.map Attempt.seconds).sum := by
  have hfold : ∀ total : Rat, own.foldl (fun total a => total + a.clock.getD 0) total =
      total + (own.map Attempt.seconds).sum := by
    induction own with
    | nil => simp
    | cons a rest ih =>
      intro total
      have hclock : a.clock.getD 0 = a.seconds := by
        have hsome := h a List.mem_cons_self
        cases a <;> simp_all [Attempt.clock, Attempt.seconds]
      rw [List.foldl_cons, ih fun b hb => h b (List.mem_cons_of_mem _ hb), hclock, List.map_cons,
        List.sum_cons, add_assoc]
  rw [totalEval, hfold, zero_add]

theorem owed_attempts (attempts : List Attempt) :
    owed (attempts.flatMap Attempt.marks) = (attempts.map Attempt.seconds).sum := by
  obtain ⟨-, hsum⟩ := scan_attempts (0, .shut) attempts
  have hzero : balance (0, .shut) = 0 := by simp [balance, Window.seconds]
  rw [hzero, zero_add] at hsum
  unfold owed
  rw [← hsum, add_comm]
  rfl

theorem owed_closed (attempts : List Attempt) :
    owed (attempts.flatMap Attempt.marks ++ [.terminal]) =
      (attempts.map Attempt.seconds).sum - (attempts.foldl Attempt.leaves .shut).seconds := by
  obtain ⟨hleaves, hsum⟩ := scan_attempts (0, .shut) attempts
  have hzero : balance (0, .shut) = 0 := by simp [balance, Window.seconds]
  rw [hzero, zero_add] at hsum
  rw [← hsum, ← hleaves]
  simp only [owed, List.foldl_append, List.foldl_cons, List.foldl_nil, Mark.scan, List.map_append,
    List.sum_append, List.map_cons, List.map_nil, List.sum_cons, List.sum_nil, Mark.carried, balance,
    Window.seconds]
  ring

/-- Until its terminal a lifecycle owes the seconds of each of its attempts once. A terminal written
by the process that took it up then charges each of them once more and no more, and one that no
process closes is charged once when a reset or a delete abandons it. After the terminal the log owes
what the rows before it carry, and nothing is charged again. -/
theorem attempts_charged_once (nodeId : Int) (generation : Nat) (log : List Event)
    (attempts : List Attempt) :
    (Kept log nodeId generation (attempts.flatMap Attempt.marks) →
      priorSeconds log nodeId generation = (attempts.map Attempt.seconds).sum ∧
      (∀ (own : List Attempt) (extra : Rat), (∀ a ∈ own, a.clock.isSome) →
        chargedSeconds (priorSeconds log nodeId generation) (totalEval own) extra =
          ((attempts ++ own).map Attempt.seconds).sum + extra) ∧
      ∀ state : RunState, (abandonedLifecycleCharges log state).filter
          (fun c => decide ((c.1, c.2.1) = (nodeId, generation))) =
        if abandoned state nodeId generation ∧ 0 < round3 (attempts.map Attempt.seconds).sum then
          [(nodeId, generation, round3 (attempts.map Attempt.seconds).sum)] else []) ∧
    (Kept log nodeId generation (attempts.flatMap Attempt.marks ++ [.terminal]) →
      priorSeconds log nodeId generation =
        (attempts.map Attempt.seconds).sum - (attempts.foldl Attempt.leaves .shut).seconds ∧
      ∀ state : RunState, (abandonedLifecycleCharges log state).filter
        (fun c => decide ((c.1, c.2.1) = (nodeId, generation))) = []) := by
  constructor
  · intro h
    have hprior : priorSeconds log nodeId generation = (attempts.map Attempt.seconds).sum := by
      rw [priorSeconds_eq_owed, h.rows, owed_attempts]
    have hopen : Mark.terminal ∉ attempts.flatMap Attempt.marks := by
      intro hmem
      obtain ⟨a, -, ha⟩ := List.mem_flatMap.mp hmem
      exact a.terminal_not_mem ha
    refine ⟨hprior, ?_, ?_⟩
    · intro own extra hown
      rw [chargedSeconds, hprior, totalEval_eq hown, List.map_append, List.sum_append]
    · intro state
      rw [charges_of state h, owed_attempts]
      simp [hopen]
  · intro h
    constructor
    · rw [priorSeconds_eq_owed, h.rows, owed_closed]
    · intro state
      rw [charges_of state h]
      simp

/-- A process dies after its canary passed; the next one skips the canary and is withheld after its
evaluation failed. -/
def resumedLog : List Event :=
  [canaryStartedRow 3 0 0 "digest" .null 0, canaryFinishedRow 3 0 0 "digest" true 2 "canary" [],
    claimRow 3 0 0 "first" false false, settleRow 3 0 0 "first" "failed" 5 none,
    withheldRow 3 0 0 "decide_repair" "paused" 5]

theorem attempts_charged_once_resumed :
    Kept resumedLog 3 0 ([.interrupted [2] false, .settled [] 5 0 (some .decideRepair)].flatMap
      Attempt.marks) ∧ priorSeconds resumedLog 3 0 = 7 := by
  have hkept : Kept resumedLog 3 0
      ([.interrupted [2] false, .settled [] 5 0 (some .decideRepair)].flatMap Attempt.marks) := by
    constructor
    · decide +kernel
    · decide +kernel
  refine ⟨hkept, ?_⟩
  rw [((attempts_charged_once 3 0 resumedLog _).1 hkept).1]
  decide +kernel

/-- A canary of two seconds in an attempt of two and a half, withheld by a pause. -/
def withheldLog : List Event :=
  [canaryStartedRow 3 0 0 "digest" .null 0, canaryFinishedRow 3 0 0 "digest" true 2 "canary" [],
    withheldRow 3 0 0 "after_canary" "paused" (5 / 2)]

theorem withheld_canary_owes_clock :
    ¬ ∀ attempts : List Attempt, Kept withheldLog 3 0 (attempts.flatMap Attempt.marks) →
      priorSeconds withheldLog 3 0 = (attempts.map Attempt.settleOrCanaries).sum := by
  intro hclaim
  have hkept : Kept withheldLog 3 0 ([.heldAfterCanary 2 [] (5 / 2)].flatMap Attempt.marks) := by
    constructor
    · decide +kernel
    · decide +kernel
  have hsum := hclaim [.heldAfterCanary 2 [] (5 / 2)] hkept
  exact absurd hsum (by decide +kernel)

end LoopLab.Engine.EvalSeconds
