import LoopLab.Fold.Log

/-!
# The build queue closes every position once

A log's closes are read off from outside: the positions open before a row and closed after it, with the outcome the
row states.
-/

set_option autoImplicit false

namespace LoopLab
open Lib

/-- The outcome a done row states. -/
def statedOutcome (d : Obj) : String :=
  ((d.get "skipped").str?.filter (["producer_failed", "stale"].contains ·)).getD "committed"

/-- The positions of the queue that the row closes. -/
def newlyClosed (env : Env) (s : LogState) (e : Event) : List Nat :=
  (List.range s.builds.requests.length).filter fun p =>
    !decide (s.builds.window.IsClosed p) && decide ((logStep env s e).builds.window.IsClosed p)

/-- The closes of the rows from a state on, with the outcomes they state. -/
def closesFrom (env : Env) (s : LogState) : List Event → List (Nat × String)
  | [] => []
  | e :: log =>
    (newlyClosed env s e).map (·, statedOutcome e.data) ++ closesFrom env (logStep env s e) log

/-- The closes of a log. -/
def closes (env : Env) (log : List Event) : List (Nat × String) := closesFrom env {} log

theorem closesFrom_append (env : Env) (s : LogState) (log tail : List Event) :
    closesFrom env s (log ++ tail) =
      closesFrom env s log ++ closesFrom env (log.foldl (logStep env) s) tail := by
  induction log generalizing s with
  | nil => rfl
  | cons e log ih =>
    simp only [List.cons_append, closesFrom, List.foldl_cons, List.append_assoc]
    rw [ih]

theorem closes_snoc (env : Env) (log : List Event) (e : Event) :
    closes env (log ++ [e]) =
      closes env log ++ (newlyClosed env (replayLog env log) e).map (·, statedOutcome e.data) := by
  unfold closes
  rw [closesFrom_append]
  simp [closesFrom, replayLog]

/-! ## One row -/

theorem buildEnd_outcome {st : RunState} {request : BuildRequest} {d : Obj} {ending : BuildEnd}
    (h : buildEnd st request d = some ending) : ending.outcome = statedOutcome d := by
  unfold buildEnd at h
  unfold statedOutcome
  split at h
  · rename_i word hword
    cases h
    rw [hword]
    rfl
  · rename_i hword
    obtain ⟨n, -, rfl⟩ := Option.map_eq_some_iff.mp h
    rw [hword]
    rfl

theorem open_of_named {w : Window String} {d : Obj} {p : Nat} (hb : ∀ q ∈ w.ahead, w.done < q)
    (h : namedPosition w d = some p) : ¬ w.IsClosed p := by
  unfold namedPosition at h
  split at h
  · cases h
    rintro (hlt | hin)
    · omega
    · have := hb _ hin
      omega
  · rename_i i _
    split at h
    · cases h
    · rename_i hguard
      cases h
      simp only [Bool.or_eq_true, decide_eq_true_eq, List.any_eq_true, not_or, not_exists,
        not_and] at hguard
      obtain ⟨hge, hahead⟩ := hguard
      rintro (hlt | hin)
      · omega
      · have := hahead _ hin
        omega
  · cases h

theorem closedRequest_spec {env : Env} {b : Builds} {d : Obj} {p : Nat} {request : BuildRequest}
    (h : closedRequest env b d = some (p, request)) :
    namedPosition b.window d = some p ∧ b.requests[p]? = some request ∧
      sameRequest env request d = true := by
  unfold closedRequest at h
  simp only [Option.bind_eq_bind, Option.bind_eq_some_iff] at h
  obtain ⟨q, hq, r, hr, h⟩ := h
  split at h
  · rename_i hsame
    cases h
    exact ⟨hq, hr, hsame⟩
  · cases h

theorem cardBuildDone_cases (env : Env) (st : RunState) (b : Builds) (e : Event) :
    onCardBuildDone env st b e = b ∨
      ∃ p request, closedRequest env b e.data = some (p, request) ∧
        (onCardBuildDone env st b e).requests = b.requests ∧
        (onCardBuildDone env st b e).window = b.window.close p (statedOutcome e.data) := by
  unfold onCardBuildDone
  cases hreq : closedRequest env b e.data with
  | none => exact .inl rfl
  | some pr =>
    obtain ⟨p, request⟩ := pr
    cases hend : buildEnd st request e.data with
    | none =>
      left
      simp only [hend]
    | some ending =>
      right
      refine ⟨p, request, rfl, ?_⟩
      rw [← buildEnd_outcome hend]
      simp only [hend]
      cases ending with
      | skipped word =>
        dsimp only
        split <;> exact ⟨rfl, rfl⟩
      | committed n => exact ⟨rfl, rfl⟩

theorem requests_cardBuildRequested (env : Env) (st : RunState) (b : Builds) (e : Event) :
    (onCardBuildRequested env st b e).window = b.window ∧
      b.requests <+: (onCardBuildRequested env st b e).requests := by
  unfold onCardBuildRequested
  split
  · split
    · exact ⟨rfl, List.prefix_refl _⟩
    · exact ⟨rfl, List.prefix_append _ _⟩
  · exact ⟨rfl, List.prefix_refl _⟩

theorem cardBuildAttempted_keeps (env : Env) (b : Builds) (e : Event) :
    (onCardBuildAttempted env b e).window = b.window ∧
      (onCardBuildAttempted env b e).requests = b.requests := by
  unfold onCardBuildAttempted
  split
  · split <;> exact ⟨rfl, rfl⟩
  · exact ⟨rfl, rfl⟩

theorem logStep_builds (env : Env) (s : LogState) (e : Event) :
    ((logStep env s e).builds.window = s.builds.window ∧
        s.builds.requests <+: (logStep env s e).builds.requests) ∨
      (e.row = some .cardBuildDone ∧ ∃ p request, closedRequest env s.builds e.data = some (p, request) ∧
        (logStep env s e).builds.requests = s.builds.requests ∧
        (logStep env s e).builds.window = s.builds.window.close p (statedOutcome e.data)) := by
  cases hrow : e.row with
  | none =>
    rw [logStep_other hrow]
    exact .inl ⟨rfl, List.prefix_refl _⟩
  | some t =>
    rw [logStep_row hrow]
    cases t with
    | cardBuildRequested => exact .inl (requests_cardBuildRequested env s.run.st s.builds e)
    | cardBuildAttempted =>
      obtain ⟨hw, hr⟩ := cardBuildAttempted_keeps env s.builds e
      exact .inl ⟨hw, hr ▸ List.prefix_refl _⟩
    | cardBuildDone =>
      rcases cardBuildDone_cases env s.run.st s.builds e with heq | h
      · left
        simp only [handleQueue, heq]
        exact ⟨trivial, List.prefix_refl _⟩
      · exact .inr ⟨rfl, h⟩
    | _ => exact .inl ⟨rfl, List.prefix_refl _⟩

/-! ## Every log -/

structure QueueHolds (b : Builds) (done : List (Nat × String)) : Prop where
  window : b.window.Holds done
  within : ∀ p, b.window.IsClosed p → p < b.requests.length

theorem closed_by_done {env : Env} {s : LogState} {e : Event} {done : List (Nat × String)} {p : Nat}
    {request : BuildRequest} (h : QueueHolds s.builds done)
    (hreq : closedRequest env s.builds e.data = some (p, request)) :
    p < s.builds.requests.length ∧ ¬ s.builds.window.IsClosed p ∧
      ∀ q, (s.builds.window.close p (statedOutcome e.data)).IsClosed q ↔
        s.builds.window.IsClosed q ∨ q = p := by
  obtain ⟨hnamed, hget, -⟩ := closedRequest_spec hreq
  have hopen := open_of_named h.window.beyond hnamed
  refine ⟨(List.getElem?_eq_some_iff.mp hget).1, hopen, ?_⟩
  intro q
  rw [(h.window.close (statedOutcome e.data) hopen).closed q, h.window.closed q]
  simp

theorem newlyClosed_done {env : Env} {s : LogState} {e : Event} {done : List (Nat × String)} {p : Nat}
    {request : BuildRequest} (h : QueueHolds s.builds done)
    (hreq : closedRequest env s.builds e.data = some (p, request))
    (hw : (logStep env s e).builds.window = s.builds.window.close p (statedOutcome e.data)) :
    newlyClosed env s e = [p] := by
  obtain ⟨hlen, hopen, hclosed⟩ := closed_by_done (e := e) h hreq
  have hp : (List.range s.builds.requests.length).filter (· == p) = [p] := by
    rw [List.filter_beq, List.count_eq_one_of_mem List.nodup_range (List.mem_range.mpr hlen)]
    rfl
  have hpoint (q : Nat) : (!decide (s.builds.window.IsClosed q) &&
      decide ((s.builds.window.close p (statedOutcome e.data)).IsClosed q)) = (q == p) := by
    have hdec : decide ((s.builds.window.close p (statedOutcome e.data)).IsClosed q) =
        decide (s.builds.window.IsClosed q ∨ q = p) := decide_eq_decide.mpr (hclosed q)
    rw [hdec]
    by_cases hq : q = p
    · subst hq
      simp [hopen]
    · by_cases hc : s.builds.window.IsClosed q
      · simp [hq, hc]
      · simp [hq, hc]
  unfold newlyClosed
  rw [hw, ← hp]
  exact List.filter_congr fun q _ => hpoint q

theorem newlyClosed_nothing {env : Env} {s : LogState} {e : Event}
    (hw : (logStep env s e).builds.window = s.builds.window) : newlyClosed env s e = [] := by
  unfold newlyClosed
  rw [hw]
  apply List.filter_eq_nil_iff.mpr
  intro q _
  by_cases hc : s.builds.window.IsClosed q <;> simp [hc]

theorem QueueHolds.step {env : Env} {s : LogState} {done : List (Nat × String)}
    (h : QueueHolds s.builds done) (e : Event) :
    QueueHolds (logStep env s e).builds
      (done ++ (newlyClosed env s e).map (·, statedOutcome e.data)) := by
  rcases logStep_builds env s e with ⟨hw, hr⟩ | ⟨-, p, request, hreq, hr, hw⟩
  · rw [newlyClosed_nothing hw, List.map_nil, List.append_nil]
    constructor
    · rw [hw]
      exact h.window
    · intro q hq
      rw [hw] at hq
      exact Nat.lt_of_lt_of_le (h.within q hq) hr.length_le
  · rw [newlyClosed_done h hreq hw]
    obtain ⟨hlen, hopen, hclosed⟩ := closed_by_done (e := e) h hreq
    constructor
    · rw [hw]
      exact h.window.close (statedOutcome e.data) hopen
    · intro q hq
      rw [hw, hclosed q] at hq
      rw [hr]
      rcases hq with hq | rfl
      · exact h.within q hq
      · exact hlen

theorem queueHolds_replayLog (env : Env) (log : List Event) :
    QueueHolds (replayLog env log).builds (closes env log) := by
  induction log using List.reverseRecOn with
  | nil =>
    constructor
    · exact Window.Holds.empty
    · intro p hp
      rcases hp with hp | hp
      · exact absurd hp (Nat.not_lt_zero p)
      · cases hp
  | append_singleton log e ih =>
    rw [replayLog_snoc, closes_snoc]
    exact ih.step e

/-- The row names the position, or names none and the position is the head. -/
def Names (d : Obj) (head p : Nat) : Prop :=
  d.get "index" = .int p ∨ (d.get "index" = .null ∧ p = head)

/-- The row carries the card and the generation of the request. -/
def Repeats (env : Env) (d : Obj) (request : BuildRequest) : Prop :=
  cardReplayId env (d.get "card_id") = some request.cardId ∧
    d.get "generation" = .int request.generation

theorem names_of_position {w : Window String} {d : Obj} {p : Nat}
    (h : namedPosition w d = some p) : Names d w.done p := by
  unfold namedPosition at h
  split at h
  · rename_i hnull
    cases h
    exact .inr ⟨hnull, rfl⟩
  · rename_i i hint
    split at h
    · cases h
    · rename_i hguard
      cases h
      simp only [Bool.or_eq_true, decide_eq_true_eq, not_or] at hguard
      left
      rw [hint, Int.toNat_of_nonneg (by omega)]
  · cases h

theorem repeats_of_same {env : Env} {request : BuildRequest} {d : Obj}
    (h : sameRequest env request d = true) : Repeats env d request := by
  simp only [sameRequest, Bool.and_eq_true, decide_eq_true_eq] at h
  refine ⟨h.1, ?_⟩
  cases hg : d.get "generation" with
  | int i =>
    rw [hg] at h
    exact congrArg Json.int (Option.some.inj h.2)
  | _ =>
    rw [hg] at h
    cases h.2

/-- After every log the positions closed ahead are distinct and between the head and the end of the
queue, there are as many outcomes as closed positions, and the outcomes are those of the closes of
the log in the order of the positions, none of which was closed twice. Another row closes at most
one more position, and only a done row that names it and repeats the identity of its request; and
what is closed stays closed. -/
theorem build_queue_exact (env : Env) (log : List Event) :
    let b := (replayLog env log).builds
    (b.window.ahead.Nodup ∧ ∀ p ∈ b.window.ahead, b.window.done < p ∧ p < b.requests.length) ∧
      b.window.done + b.window.ahead.length = b.window.outcomes.length ∧
      ((closes env log).map Prod.fst).Nodup ∧
      (∀ p, b.window.IsClosed p ↔ p ∈ (closes env log).map Prod.fst) ∧
      b.window.outcomes = (Window.ranked (closes env log)).map Prod.snd ∧
      ∀ e, let b' := (replayLog env (log ++ [e])).builds
        (∀ p, b.window.IsClosed p → b'.window.IsClosed p) ∧
        ∀ p, b'.window.IsClosed p → ¬ b.window.IsClosed p →
          e.type = "card_build_done" ∧ Names e.data b.window.done p ∧
          (∃ request, b.requests[p]? = some request ∧ Repeats env e.data request) ∧
          ∀ q, b'.window.IsClosed q ↔ b.window.IsClosed q ∨ q = p := by
  have h := queueHolds_replayLog env log
  refine ⟨⟨h.window.distinct, ?_⟩, h.window.length_outcomes, h.window.once, h.window.closed,
    h.window.outcomes, ?_⟩
  · intro p hp
    exact ⟨h.window.beyond p hp, h.within p (.inr hp)⟩
  · intro e
    rw [replayLog_snoc]
    rcases logStep_builds env (replayLog env log) e with ⟨hw, -⟩ | ⟨hrow, p, request, hreq, -, hw⟩
    · dsimp only
      rw [hw]
      exact ⟨fun p hp => hp, fun p hp hopen => absurd hp hopen⟩
    · obtain ⟨hnamed, hget, hsame⟩ := closedRequest_spec hreq
      obtain ⟨-, -, hclosed⟩ := closed_by_done (e := e) h hreq
      dsimp only
      rw [hw]
      constructor
      · intro q hq
        exact (hclosed q).mpr (.inl hq)
      · intro q hq hopen
        have hqp : q = p := ((hclosed q).mp hq).resolve_left hopen
        rw [hqp]
        exact ⟨(RowType.name_of_ofName hrow).symm, names_of_position hnamed,
          ⟨request, hget, repeats_of_same hsame⟩, hclosed⟩

end LoopLab
