import LoopLab.Engine.Finalize
import LoopLab.Trace.Projection

/-!
# A finalize steward pays once

The decision lock gives the key to one attempt at a time, its claim file is made once, and the ledger takes one
terminal row.
-/

set_option autoImplicit false

namespace LoopLab.Engine
open Lib Redact

variable {env : CurationEnv} {a : Attempt} {m m' : Memory} {p p' : Phase} {attempts : Nat → Attempt}
variable {s s' : Stewards} {i j : Nat} {plan : StewardPlan} {k : StewardKind × String}

/-! ## What a step may do -/

/-- No fast path decides, there is input and there is a client. -/
def Pays (env : CurationEnv) (a : Attempt) : Prop :=
  ∃ plan, a.plan? env = some plan ∧ decidedBy plan.fastPaths = .ok none ∧ plan.hasInput = true ∧ a.client ≠ none

inductive Writes (env : CurationEnv) (a : Attempt) (plan : StewardPlan) : Phase → CurationRow → Prop
  | settling (row : CurationRow) : Writes env a plan (.settling row) row
  | answering (row : CurationRow) : Writes env a plan (.answering row) row
  | recovering (claim : Claim) : Writes env a plan (.recovering claim) (a.recoveredRow env claim)
  | failing (f : Failure) :
    Writes env a plan (.failing f) (a.planRow env plan a.client .error a.emptyProposals (some f.errorType))

inductive Turn (env : CurationEnv) (a : Attempt) (plan : StewardPlan) (m : Memory) : Phase → Memory → Phase → Prop
  | start : Turn env a plan m .start m (.resolving false .curated)
  | curated (again : Bool)
    (h : alreadyCurated env a.kind (m.ledgers a.kind) plan.curationKey = some false) :
    Turn env a plan m (.resolving again .curated) m (.resolving again .legacyRow)
  | legacyRow (again : Bool) : Turn env a plan m (.resolving again .legacyRow) m (.resolving again .legacyClaim)
  | legacyClaim (again : Bool) : Turn env a plan m (.resolving again .legacyClaim) m (.resolving again .claim)
  | free (h : m.files (a.kind, plan.curationKey) = none) : Turn env a plan m (.resolving false .claim) m .deciding
  | freeAgain (h : m.files (a.kind, plan.curationKey) = none) : Turn env a plan m (.resolving true .claim) m .creating
  | claimed (again : Bool) (claim : Claim) (hfile : m.files (a.kind, plan.curationKey) = some (.record claim))
    (hclaim : claimOk env a.text a.kind plan.curationKey claim = true) :
    Turn env a plan m (.resolving again .claim) m (.recovering claim)
  | settle (outcome : Outcome) (proposals : Proposals) (h : ¬Pays env a)
    (hrow : (outcome, proposals) = (.empty, a.emptyProposals) ∨ (outcome, proposals) = (.unavailable, a.emptyProposals) ∨
      decidedBy plan.fastPaths = .ok (some (outcome, proposals))) :
    Turn env a plan m .deciding m (.settling (a.planRow env plan none outcome proposals))
  | pay (h : Pays env a) : Turn env a plan m .deciding m (.resolving true .curated)
  | create (hids : idOk a.source.runId = true ∧ idOk a.source.taskId = true)
    (h : m.files (a.kind, plan.curationKey) = none) :
    Turn env a plan m .creating (setFile a m plan.curationKey .unreadable) .writing
  | write : Turn env a plan m .writing (setFile a m plan.curationKey (.record (a.claimOf env plan))) .asking
  | writeFails (whole : Bool) :
    Turn env a plan m .writing
      (if whole then setFile a m plan.curationKey (.record (a.claimOf env plan)) else m) (.diagnosing "OSError")
  | answer (outcome : Outcome) (proposals : Proposals) (h : plan.propose = .ok (outcome, proposals)) :
    Turn env a plan m .asking m (.answering (a.planRow env plan a.client outcome proposals))
  | fail (f : Failure) (h : plan.propose = .error f) : Turn env a plan m .asking m (.failing f)
  | retry (row : CurationRow) (h : readCurationRows env a.kind (m.ledgers a.kind) = none) :
    Turn env a plan m (.answering row) m (.failing ⟨"GovernanceLedgerUnavailable", false⟩)
  | append {p : Phase} (row : CurationRow) (r : Result) (hwrites : Writes env a plan p row)
    (hread : readCurationRows env a.kind (m.ledgers a.kind) = some (m.ledgers a.kind))
    (hmay : mayFollow (finalizeRows (m.ledgers a.kind)) row = true) :
    Turn env a plan m p
      { m with ledgers := Function.update m.ledgers a.kind (m.ledgers a.kind ++ [.finalize row]) } (.done r)
  | refuse {p : Phase} (row : CurationRow) (r : Result) (hwrites : Writes env a plan p row)
    (hmay : mayFollow (finalizeRows (m.ledgers a.kind)) row = false) : Turn env a plan m p m (.done r)
  | resolved (again : Bool) (h : alreadyCurated env a.kind (m.ledgers a.kind) plan.curationKey = some true) :
    Turn env a plan m (.resolving again .curated) m (.done .alreadyResolved)
  | suppressed (again : Bool) (check : Check) (hcheck : check ≠ .curated)
    (h : legacyCurationTerminal env a.kind (m.ledgers a.kind) a.source = some true ∨
      a.source.runId ≠ "" ∧ (m.files (a.kind, a.source.runId)).isSome = true) :
    Turn env a plan m (.resolving again check) m (.done .alreadyResolved)
  | unreadable {p : Phase} (h : readCurationRows env a.kind (m.ledgers a.kind) = none) :
    Turn env a plan m p m unreadableLedger
  | refused (again : Bool) (file : ClaimFile) (hfile : m.files (a.kind, plan.curationKey) = some file)
    (h : readCurationClaim env a.text a.kind plan.curationKey file = none) :
    Turn env a plan m (.resolving again .claim) m (.diagnosing "ValueError")
  | raise (f : Failure) (h : decidedBy plan.fastPaths = .error f) : Turn env a plan m .deciding m (raised f)
  | badId : Turn env a plan m .creating m (.diagnosing "ValueError")
  | exists_ : Turn env a plan m .creating m (.diagnosing "FileExistsError")
  | die {p : Phase} : Turn env a plan m p m .dead

theorem readCurationRows_eq {kind : StewardKind} {rows read : List LedgerRow}
    (h : readCurationRows env kind rows = some read) : read = rows := by
  unfold readCurationRows at h
  split at h
  · exact (Option.some.inj h).symm
  · cases h

theorem appendCurationOnce_cases (kind : StewardKind) (rows : List LedgerRow) (row : CurationRow) :
    (readCurationRows env kind rows = none ∧ appendCurationOnce env kind rows row = none) ∨
      (readCurationRows env kind rows = some rows ∧
        ((mayFollow (finalizeRows rows) row = true ∧
            appendCurationOnce env kind rows row = some (true, rows ++ [.finalize row])) ∨
          (mayFollow (finalizeRows rows) row = false ∧ appendCurationOnce env kind rows row = some (false, rows)))) := by
  unfold appendCurationOnce
  cases hread : readCurationRows env kind rows with
  | none => exact .inl ⟨rfl, rfl⟩
  | some read =>
    obtain rfl := readCurationRows_eq hread
    cases hmay : mayFollow (finalizeRows read) row with
    | true => exact .inr ⟨rfl, .inl ⟨rfl, by simp [hmay]⟩⟩
    | false => exact .inr ⟨rfl, .inr ⟨rfl, by simp [hmay]⟩⟩

theorem update_self (m : Memory) (kind : StewardKind) :
    { m with ledgers := Function.update m.ledgers kind (m.ledgers kind) } = m := by
  rw [Function.update_eq_self]

theorem turn_appending {row : CurationRow} {unreadable : Phase} {next : Bool → Result} (hwrites : Writes env a plan p row)
    (hunreadable : readCurationRows env a.kind (m.ledgers a.kind) = none → Turn env a plan m p m unreadable)
    (h : appending env a m row unreadable (fun b => .done (next b)) = (m', p')) : Turn env a plan m p m' p' := by
  unfold appending at h
  rcases appendCurationOnce_cases a.kind (m.ledgers a.kind) row with
    ⟨hread, hnone⟩ | ⟨hread, ⟨hmay, hsome⟩ | ⟨hmay, hsome⟩⟩
  · rw [hnone] at h
    obtain ⟨rfl, rfl⟩ := Prod.mk.inj h
    exact hunreadable hread
  · rw [hsome] at h
    obtain ⟨rfl, rfl⟩ := Prod.mk.inj h
    exact .append row (next true) hwrites hread hmay
  · rw [hsome] at h
    obtain ⟨rfl, rfl⟩ := Prod.mk.inj h
    rw [update_self]
    exact .refuse row (next false) hwrites hmay

theorem raised_locked (f : Failure) : (raised f).locked = false := by
  unfold raised
  split <;> rfl

theorem raised_eq {f : Failure} {e : String} (h : raised f = .diagnosing e) : f.errorType = e := by
  unfold raised at h
  split at h
  · cases h
  · cases h
    rfl

theorem turn_resolvedBy {test : Option Bool} {next : Phase} (hnone : test = none → Turn env a plan m p m unreadableLedger)
    (htrue : test = some true → Turn env a plan m p m (.done .alreadyResolved))
    (hnext : test = some false → Turn env a plan m p m next) (h : resolvedBy test next = p') : Turn env a plan m p m p' := by
  subst h
  unfold resolvedBy
  split
  · exact hnone rfl
  · exact htrue rfl
  · exact hnext rfl

theorem turn_resolving {again : Bool} {check : Check} (h : resolving env a m plan again check = p') :
    Turn env a plan m (.resolving again check) m p' := by
  cases check with
  | curated =>
    refine turn_resolvedBy ?_ (.resolved again) (.curated again) h
    intro hnone
    exact .unreadable (Option.map_eq_none_iff.mp hnone)
  | legacyRow =>
    refine turn_resolvedBy ?_ (fun htrue => .suppressed again .legacyRow nofun (.inl htrue)) (fun _ => .legacyRow again) h
    intro hnone
    unfold legacyCurationTerminal at hnone
    split at hnone
    · cases hnone
    · exact .unreadable (Option.map_eq_none_iff.mp hnone)
  | legacyClaim =>
    subst h
    unfold resolving
    dsimp only
    split
    · next hclaim =>
      rw [Bool.and_eq_true, decide_eq_true_eq] at hclaim
      exact .suppressed again .legacyClaim nofun (.inr hclaim)
    · exact .legacyClaim again
  | claim =>
    subst h
    unfold resolving
    dsimp only
    split
    · next hfile =>
      cases again with
      | false => exact .free hfile
      | true => exact .freeAgain hfile
    · next file hfile =>
      split
      · next hrefused => exact .refused again file hfile hrefused
      · next claim hclaim =>
        cases file with
        | unreadable => cases hclaim
        | record found =>
          unfold readCurationClaim at hclaim
          dsimp only at hclaim
          split at hclaim
          · next hok =>
            obtain rfl := Option.some.inj hclaim
            exact .claimed again found hfile hok
          · cases hclaim

theorem turn_deciding (hplan : a.plan? env = some plan) (h : deciding env a plan = p') : Turn env a plan m .deciding m p' := by
  have hpays : ∀ plan', a.plan? env = some plan' → plan' = plan := fun plan' h' => Option.some.inj (h'.symm.trans hplan)
  subst h
  unfold deciding
  split
  · next f hdecided => exact .raise f hdecided
  · next outcome proposals hdecided =>
    refine .settle outcome proposals ?_ (.inr (.inr hdecided))
    rintro ⟨plan', hplan', hnone, -⟩
    rw [hpays plan' hplan', hdecided] at hnone
    cases hnone
  · next hdecided =>
    split
    · next hinput =>
      refine .settle .empty _ ?_ (.inl rfl)
      rintro ⟨plan', hplan', -, hsome, -⟩
      rw [hpays plan' hplan'] at hsome
      rw [hsome] at hinput
      cases hinput
    · next hinput =>
      split
      · next hclient =>
        refine .settle .unavailable _ ?_ (.inr (.inl rfl))
        rintro ⟨-, -, -, -, hsome⟩
        exact hsome hclient
      · next hclient => exact .pay ⟨plan, hplan, hdecided, by simpa using hinput, hclient⟩

theorem enabled_of_plan (hplan : a.plan? env = some plan) : a.enabled = true := by
  unfold Attempt.plan? at hplan
  split at hplan
  · split at hplan
    · next henabled => exact henabled
    · cases hplan
  · cases hplan

theorem turn_of_next (hplan : a.plan? env = some plan) (hp : ∀ e, p ≠ .diagnosing e) (h : next env a m p = some (m', p')) :
    Turn env a plan m p m' p' := by
  unfold next at h
  rw [hplan] at h
  cases p with
  | start =>
    dsimp only at h
    split at h
    · next hdisabled =>
      have henabled := enabled_of_plan hplan
      rw [henabled] at hdisabled
      cases hdisabled
    · obtain ⟨rfl, rfl⟩ := Prod.mk.inj (Option.some.inj h)
      exact .start
  | resolving again check =>
    dsimp only at h
    obtain ⟨rfl, hphase⟩ := Prod.mk.inj (Option.some.inj h)
    exact turn_resolving hphase
  | recovering claim =>
    dsimp only at h
    exact turn_appending (.recovering claim) .unreadable (Option.some.inj h)
  | deciding =>
    dsimp only at h
    obtain ⟨rfl, hphase⟩ := Prod.mk.inj (Option.some.inj h)
    exact turn_deciding hplan hphase
  | settling row =>
    dsimp only at h
    exact turn_appending (.settling row) .unreadable (Option.some.inj h)
  | creating =>
    dsimp only at h
    have h := Option.some.inj h
    unfold creating at h
    split at h
    · obtain ⟨rfl, rfl⟩ := Prod.mk.inj h
      exact .badId
    · next hids =>
      split at h
      · obtain ⟨rfl, rfl⟩ := Prod.mk.inj h
        exact .exists_
      · next hfile =>
        obtain ⟨rfl, rfl⟩ := Prod.mk.inj h
        exact .create (by simpa using hids) (by simpa using hfile)
  | writing =>
    dsimp only at h
    obtain ⟨rfl, rfl⟩ := Prod.mk.inj (Option.some.inj h)
    exact .write
  | asking =>
    dsimp only at h
    split at h
    · next outcome proposals hanswer =>
      obtain ⟨rfl, rfl⟩ := Prod.mk.inj (Option.some.inj h)
      exact .answer outcome proposals hanswer
    · next f hanswer =>
      obtain ⟨rfl, rfl⟩ := Prod.mk.inj (Option.some.inj h)
      exact .fail f hanswer
  | answering row =>
    dsimp only at h
    exact turn_appending (.answering row) (.retry row) (Option.some.inj h)
  | failing f =>
    dsimp only at h
    exact turn_appending (.failing f) .unreadable (Option.some.inj h)
  | diagnosing e => exact absurd rfl (hp e)
  | done result => cases h
  | dead => cases h

inductive LockGoes (k : StewardKind × String) (i : Nat) (lock : StewardKind × String → Option Nat) :
    Bool → Bool → (StewardKind × String → Option Nat) → Prop
  | taken (h : lock k = none) : LockGoes k i lock false true (Function.update lock k (some i))
  | left : LockGoes k i lock true false (Function.update lock k none)
  | kept (b : Bool) : LockGoes k i lock b b lock

namespace LockGoes
variable {lock lock' : StewardKind × String → Option Nat} {b : Bool}

theorem same (h : LockGoes k i lock b b lock') : lock' = lock := by
  cases h
  rfl

theorem taken_eq (h : LockGoes k i lock false true lock') : lock k = none ∧ lock' = Function.update lock k (some i) := by
  cases h with
  | taken hfree => exact ⟨hfree, rfl⟩

end LockGoes

structure Goes (env : CurationEnv) (a : Attempt) (plan : StewardPlan) (s s' : Stewards) (i : Nat) (p' : Phase) : Prop where
  planned : a.plan? env = some plan
  phase : s'.phase = Function.update s.phase i p'
  turn : Turn env a plan s.memory (s.phase i) s'.memory p'
  lock : LockGoes (a.kind, plan.curationKey) i s.lock (s.phase i).locked p'.locked s'.lock
  asked : s'.asked = s.asked ∨ s.phase i = .asking ∧ s'.asked = (a.kind, plan.curationKey) :: s.asked

structure Passes (env : CurationEnv) (a : Attempt) (s s' : Stewards) (i : Nat) (p' : Phase) : Prop where
  phase : s'.phase = Function.update s.phase i p'
  free : p'.locked = false
  named : ∀ e, p' = .diagnosing e → ∃ f, a.planned env = .error f ∧ f.errorType = e
  before : (∃ e, s.phase i = .diagnosing e) ∨ a.plan? env = none
  lock : s'.lock = s.lock
  asked : s'.asked = s.asked
  memory : s'.memory = s.memory ∨
    ∃ e, s.phase i = .diagnosing e ∧ readCurationRows env a.kind (s.memory.ledgers a.kind) = some (s.memory.ledgers a.kind) ∧
      mayFollow (finalizeRows (s.memory.ledgers a.kind)) (a.diagnosticRow env e) = true ∧
      s'.memory =
        { s.memory with
          ledgers :=
            Function.update s.memory.ledgers a.kind
              (s.memory.ledgers a.kind ++ [.finalize (a.diagnosticRow env e)]) }

theorem move_eq (h : s.move i (some k) m p' = some s') :
    s'.memory = m ∧ s'.phase = Function.update s.phase i p' ∧ s'.asked = s.asked ∧
      LockGoes k i s.lock (s.phase i).locked p'.locked s'.lock := by
  unfold Stewards.move at h
  dsimp only at h
  cases hold : (s.phase i).locked <;> cases hnew : p'.locked <;> rw [hold, hnew] at h <;> dsimp only at h
  · obtain rfl := Option.some.inj h
    exact ⟨rfl, rfl, rfl, .kept false⟩
  · split at h
    · next hfree =>
      obtain rfl := Option.some.inj h
      exact ⟨rfl, rfl, rfl, .taken hfree⟩
    · cases h
  · obtain rfl := Option.some.inj h
    exact ⟨rfl, rfl, rfl, .left⟩
  · obtain rfl := Option.some.inj h
    exact ⟨rfl, rfl, rfl, .kept true⟩

theorem move_none (h : s.move i none m p' = some s') :
    s'.memory = m ∧ s'.phase = Function.update s.phase i p' ∧ s'.asked = s.asked ∧ s'.lock = s.lock := by
  unfold Stewards.move at h
  dsimp only at h
  obtain rfl := Option.some.inj h
  exact ⟨rfl, rfl, rfl, rfl⟩

theorem move_free {key : Option (StewardKind × String)} (hold : (s.phase i).locked = false) (hnew : p'.locked = false)
    (h : s.move i key m p' = some s') :
    s'.memory = m ∧ s'.phase = Function.update s.phase i p' ∧ s'.asked = s.asked ∧ s'.lock = s.lock := by
  cases key with
  | none => exact move_none h
  | some k =>
    obtain ⟨hm, hp, ha, hlock⟩ := move_eq h
    rw [hold, hnew] at hlock
    exact ⟨hm, hp, ha, hlock.same⟩

theorem ask_eq (s : Stewards) (key : Option (StewardKind × String)) (p : Phase) :
    (s.ask key p).memory = s.memory ∧ (s.ask key p).phase = s.phase ∧ (s.ask key p).lock = s.lock ∧
      ((s.ask key p).asked = s.asked ∨ p = .asking ∧ ∃ k, key = some k ∧ (s.ask key p).asked = k :: s.asked) := by
  unfold Stewards.ask
  split
  · exact ⟨rfl, rfl, rfl, .inr ⟨rfl, _, rfl, rfl⟩⟩
  · exact ⟨rfl, rfl, rfl, .inl rfl⟩

theorem key_of_plan (h : a.plan? env = some plan) : a.key? env = some (a.kind, plan.curationKey) := by
  unfold Attempt.key?
  rw [h]
  rfl

theorem key_none (h : a.plan? env = none) : a.key? env = none := by
  unfold Attempt.key?
  rw [h]
  rfl

theorem next_diagnosing {e : String} (h : next env a m (.diagnosing e) = some (m', p')) :
    p' = .done .error ∧ (m' = m ∨
      (readCurationRows env a.kind (m.ledgers a.kind) = some (m.ledgers a.kind) ∧
        mayFollow (finalizeRows (m.ledgers a.kind)) (a.diagnosticRow env e) = true ∧
        m' = { m with ledgers :=
          Function.update m.ledgers a.kind (m.ledgers a.kind ++ [.finalize (a.diagnosticRow env e)]) })) := by
  have h : appending env a m (a.diagnosticRow env e) (.done .error) (fun _ => .done .error) = (m', p') :=
    Option.some.inj h
  unfold appending at h
  rcases appendCurationOnce_cases a.kind (m.ledgers a.kind) (a.diagnosticRow env e) with
    ⟨-, hnone⟩ | ⟨hread, ⟨hmay, hsome⟩ | ⟨-, hsome⟩⟩
  · rw [hnone] at h
    obtain ⟨rfl, rfl⟩ := Prod.mk.inj h
    exact ⟨rfl, .inl rfl⟩
  · rw [hsome] at h
    obtain ⟨rfl, rfl⟩ := Prod.mk.inj h
    exact ⟨rfl, .inr ⟨hread, hmay, rfl⟩⟩
  · rw [hsome] at h
    obtain ⟨rfl, rfl⟩ := Prod.mk.inj h
    exact ⟨rfl, .inl (update_self m a.kind)⟩

theorem next_unplanned (hplan : a.plan? env = none) (hp : ∀ e, p ≠ .diagnosing e) (h : next env a m p = some (m', p')) :
    m' = m ∧ p'.locked = false ∧ ∀ e, p' = .diagnosing e → ∃ f, a.planned env = .error f ∧ f.errorType = e := by
  unfold next at h
  rw [hplan] at h
  cases p with
  | start =>
    dsimp only at h
    split at h
    · obtain ⟨rfl, rfl⟩ := Prod.mk.inj (Option.some.inj h)
      exact ⟨rfl, rfl, nofun⟩
    · split at h
      · next heq => cases heq
      · obtain ⟨rfl, rfl⟩ := Prod.mk.inj (Option.some.inj h)
        exact ⟨rfl, rfl, nofun⟩
      · next f _ hf =>
        obtain ⟨rfl, rfl⟩ := Prod.mk.inj (Option.some.inj h)
        exact ⟨rfl, raised_locked f, fun e he => ⟨f, hf, raised_eq he⟩⟩
      · cases h
  | diagnosing e => exact absurd rfl (hp e)
  | _ => cases h

theorem goes_of_move (hplan : a.plan? env = some plan) (hturn : Turn env a plan s.memory (s.phase i) m p')
    (h : s.move i (a.key? env) m p' = some s') : Goes env a plan s s' i p' := by
  rw [key_of_plan hplan] at h
  obtain ⟨hm, hphase, hasked, hlock⟩ := move_eq h
  exact ⟨hplan, hphase, hm ▸ hturn, hlock, .inl hasked⟩

/-- Who takes the step. -/
def StewardAction.attempt : StewardAction → Nat
  | .advance i | .die i | .claimFails i _ => i

theorem stewardStep_cases {action : StewardAction} (h : stewardStep env attempts s action = some s') :
    ∃ i p', i = action.attempt ∧
      ((∃ plan, Goes env (attempts i) plan s s' i p') ∨ Passes env (attempts i) s s' i p') := by
  cases action with
  | advance i =>
    obtain ⟨⟨m', p'⟩, hnext, h⟩ := Option.bind_eq_some_iff.mp h
    obtain ⟨hmemory, hphase, hlock, hasked⟩ := ask_eq s ((attempts i).key? env) (s.phase i)
    refine ⟨i, p', rfl, ?_⟩
    dsimp only at h
    by_cases hdiag : ∃ e, s.phase i = .diagnosing e
    · obtain ⟨e, he⟩ := hdiag
      rw [he] at hnext
      obtain ⟨rfl, hwrite⟩ := next_diagnosing hnext
      have hold : ((s.ask ((attempts i).key? env) (s.phase i)).phase i).locked = false := by
        rw [hphase, he]
        rfl
      obtain ⟨hm, hp, ha, hl⟩ := move_free hold rfl h
      have hsame : (s.ask ((attempts i).key? env) (s.phase i)).asked = s.asked := by
        rcases hasked with hsame | ⟨hasking, -⟩
        · exact hsame
        · rw [he] at hasking
          cases hasking
      refine .inr ⟨?_, rfl, nofun, .inl ⟨e, he⟩, hl.trans hlock, ha.trans hsame, ?_⟩
      · rw [hp, hphase]
      · rw [hm]
        rcases hwrite with rfl | ⟨hread, hmay, rfl⟩
        · exact .inl rfl
        · exact .inr ⟨e, he, hread, hmay, rfl⟩
    · have hdiag : ∀ e, s.phase i ≠ .diagnosing e := fun e he => hdiag ⟨e, he⟩
      cases hplan : (attempts i).plan? env with
      | none =>
        obtain ⟨rfl, hfree, hnamed⟩ := next_unplanned hplan hdiag hnext
        rw [key_none hplan] at h hasked hphase hlock
        obtain ⟨hm, hp, ha, hl⟩ := move_none h
        have hsame : (s.ask none (s.phase i)).asked = s.asked := by
          rcases hasked with hsame | ⟨-, k, hk, -⟩
          · exact hsame
          · cases hk
        exact .inr ⟨by rw [hp, hphase], hfree, hnamed, .inr hplan, hl.trans hlock, ha.trans hsame, .inl hm⟩
      | some plan =>
        have hturn := turn_of_next hplan hdiag hnext
        rw [key_of_plan hplan] at h hasked hphase hlock
        obtain ⟨hm, hp, ha, hl⟩ := move_eq h
        rw [hphase] at hp hl
        rw [hlock] at hl
        refine .inl ⟨plan, hplan, hp, hm ▸ hturn, hl, ?_⟩
        rcases hasked with hsame | ⟨hasking, k, hk, hasked⟩
        · exact .inl (ha.trans hsame)
        · obtain rfl := Option.some.inj hk
          exact .inr ⟨hasking, ha.trans hasked⟩
  | die i =>
    refine ⟨i, .dead, rfl, ?_⟩
    have h : s.move i ((attempts i).key? env) s.memory .dead = some s' := by
      unfold stewardStep at h
      dsimp only at h
      split at h
      · cases h
      · cases h
      · exact h
    cases hplan : (attempts i).plan? env with
    | none =>
      rw [key_none hplan] at h
      obtain ⟨hm, hp, ha, hl⟩ := move_none h
      exact .inr ⟨hp, rfl, nofun, .inr hplan, hl, ha, .inl hm⟩
    | some plan => exact .inl ⟨plan, goes_of_move hplan .die h⟩
  | claimFails i whole =>
    unfold stewardStep at h
    dsimp only at h
    split at h
    · next plan hwriting hplan =>
      refine ⟨i, _, rfl, .inl ⟨plan, goes_of_move hplan ?_ h⟩⟩
      rw [hwriting]
      exact .writeFails whole
    · cases h

/-! ## Keys -/

theorem name_ne_diagnostic (name u v : String) : name ++ ":v2:" ++ u ≠ name ++ ":diagnostic:v2:" ++ v := by
  intro h
  have hchars := congrArg String.toList h
  simp only [String.toList_append, List.append_assoc, List.append_cancel_left_eq] at hchars
  have hsecond := congrArg (fun cs => cs[1]?) hchars
  simp at hsecond

theorem key_ne_diagnostic (hplan : a.plan? env = some plan) (source : RunSource) :
    plan.curationKey ≠ diagnosticCurationKey env a.kind source := by
  unfold Attempt.plan? Attempt.planned at hplan
  unfold Attempt.kind diagnosticCurationKey
  cases hinput : a.input with
  | concept snapshot answer =>
    rw [hinput] at hplan
    cases snapshot with
    | error f => cases hplan
    | ok read =>
      simp only [bind, Except.bind, pure, Except.pure] at hplan
      split at hplan
      · obtain rfl := Option.some.inj hplan
        exact name_ne_diagnostic "concept" _ _
      · cases hplan
  | claim snapshot answer =>
    rw [hinput] at hplan
    cases snapshot with
    | error f => cases hplan
    | ok read =>
      simp only [bind, Except.bind, pure, Except.pure] at hplan
      split at hplan
      · obtain rfl := Option.some.inj hplan
        exact name_ne_diagnostic "claim" _ _
      · cases hplan
  | facets governed goalIsEmpty digest answer =>
    rw [hinput] at hplan
    dsimp only at hplan
    by_cases htask : a.source.taskId = ""
    · rw [if_pos htask] at hplan
      cases hplan
    · rw [if_neg htask] at hplan
      dsimp only at hplan
      split at hplan
      · obtain rfl := Option.some.inj hplan
        exact name_ne_diagnostic "facets" _ _
      · cases hplan

/-! ## What every step keeps -/

/-- A terminal row of the key stands in its ledger. -/
def Closed (m : Memory) (k : StewardKind × String) : Prop :=
  ∃ row ∈ finalizeRows (m.ledgers k.1), row.curationKey = k.2 ∧ row.outcome ≠ .unavailable

def Stands (env : CurationEnv) (a : Attempt) (plan : StewardPlan) (m : Memory) (asked : List (StewardKind × String)) :
    Phase → Prop
  | .resolving again check =>
    (again = true → Pays env a) ∧ (again = true ∨ check ≠ .curated → ¬Closed m (a.kind, plan.curationKey))
  | .recovering claim =>
    ¬Closed m (a.kind, plan.curationKey) ∧ m.files (a.kind, plan.curationKey) = some (.record claim) ∧
      claimOk env a.text a.kind plan.curationKey claim = true
  | .deciding => ¬Closed m (a.kind, plan.curationKey)
  | .settling row => ¬Closed m (a.kind, plan.curationKey) ∧ row.curationKey = plan.curationKey
  | .creating => ¬Closed m (a.kind, plan.curationKey) ∧ Pays env a
  | .writing =>
    ¬Closed m (a.kind, plan.curationKey) ∧ Pays env a ∧ m.files (a.kind, plan.curationKey) ≠ none ∧
      asked.count (a.kind, plan.curationKey) = 0
  | .asking =>
    ¬Closed m (a.kind, plan.curationKey) ∧ Pays env a ∧
      m.files (a.kind, plan.curationKey) = some (.record (a.claimOf env plan)) ∧
      asked.count (a.kind, plan.curationKey) = 0
  | .answering row =>
    ¬Closed m (a.kind, plan.curationKey) ∧ Pays env a ∧
      m.files (a.kind, plan.curationKey) = some (.record (a.claimOf env plan)) ∧ row.curationKey = plan.curationKey
  | .failing _ =>
    ¬Closed m (a.kind, plan.curationKey) ∧ Pays env a ∧
      m.files (a.kind, plan.curationKey) = some (.record (a.claimOf env plan))
  | _ => True

structure StewardsSound (env : CurationEnv) (attempts : Nat → Attempt) (initial : Memory) (s : Stewards) : Prop where
  lock : ∀ i, (s.phase i).locked = true → ∃ plan, (attempts i).plan? env = some plan ∧
    s.lock ((attempts i).kind, plan.curationKey) = some i ∧
    Stands env (attempts i) plan s.memory s.asked (s.phase i)
  rows : ∀ kind, Guarded mayFollow (finalizeRows (s.memory.ledgers kind))
  asked : ∀ k, s.asked.count k ≤ 1
  unasked : ∀ k, s.memory.files k = none → s.asked.count k = 0
  files : ∀ k, s.memory.files k ≠ none →
    initial.files k ≠ none ∨ ∃ i, (attempts i).key? env = some k ∧ Pays env (attempts i)
  records : ∀ k claim, s.memory.files k = some (.record claim) → ∃ i plan, (attempts i).plan? env = some plan ∧
    k = ((attempts i).kind, plan.curationKey) ∧ claim = (attempts i).claimOf env plan

theorem Stands.frame {asked asked' : List (StewardKind × String)}
    (h : Stands env a plan m asked p) (hfile : m'.files (a.kind, plan.curationKey) = m.files (a.kind, plan.curationKey))
    (hasked : asked'.count (a.kind, plan.curationKey) = asked.count (a.kind, plan.curationKey))
    (hclosed : ¬Closed m (a.kind, plan.curationKey) → ¬Closed m' (a.kind, plan.curationKey)) :
    Stands env a plan m' asked' p := by
  cases p with
  | resolving again check => exact ⟨h.1, fun hpast => hclosed (h.2 hpast)⟩
  | recovering claim => exact ⟨hclosed h.1, hfile.trans h.2.1, h.2.2⟩
  | deciding => exact hclosed h
  | settling row => exact ⟨hclosed h.1, h.2⟩
  | creating => exact ⟨hclosed h.1, h.2⟩
  | writing => exact ⟨hclosed h.1, h.2.1, hfile ▸ h.2.2.1, hasked.trans h.2.2.2⟩
  | asking => exact ⟨hclosed h.1, h.2.1, hfile.trans h.2.2.1, hasked.trans h.2.2.2⟩
  | answering row => exact ⟨hclosed h.1, h.2.1, hfile.trans h.2.2.1, h.2.2.2⟩
  | failing f => exact ⟨hclosed h.1, h.2.1, hfile.trans h.2.2⟩
  | start | diagnosing | done | dead => trivial

theorem finalizeRows_snoc (rows : List LedgerRow) (row : CurationRow) :
    finalizeRows (rows ++ [.finalize row]) = finalizeRows rows ++ [row] := by
  simp [finalizeRows, List.filterMap_append]

theorem closed_append {kind : StewardKind} {row : CurationRow} (hk : k ≠ (kind, row.curationKey))
    (h : Closed { m with ledgers := Function.update m.ledgers kind (m.ledgers kind ++ [.finalize row]) } k) :
    Closed m k := by
  obtain ⟨found, hfound, hkey, hterminal⟩ := h
  dsimp only at hfound
  by_cases hkind : k.1 = kind
  · rw [hkind, Function.update_self, finalizeRows_snoc] at hfound
    rcases List.mem_append.mp hfound with hold | hnew
    · exact ⟨found, hkind ▸ hold, hkey, hterminal⟩
    · obtain rfl := List.mem_singleton.mp hnew
      exact absurd (Prod.ext hkind hkey.symm) hk
  · rw [Function.update_of_ne hkind] at hfound
    exact ⟨found, hfound, hkey, hterminal⟩

theorem Writes.locked {row : CurationRow} (h : Writes env a plan p row) : p.locked = true := by
  cases h <;> rfl

theorem Writes.key {row : CurationRow} {asked : List (StewardKind × String)} (h : Writes env a plan p row)
    (hstands : Stands env a plan m asked p) : row.curationKey = plan.curationKey := by
  cases h with
  | settling row => exact hstands.2
  | answering row => exact hstands.2.2.2
  | recovering claim =>
    have hok := hstands.2.2
    unfold claimOk at hok
    simp only [Bool.and_eq_true, decide_eq_true_eq] at hok
    exact hok.1.1.1.1.1.1.1.1.1.1.1.1.1.1.1.2
  | failing f => rfl

theorem Turn.memory_eq (h : Turn env a plan m p m' p') (hp : p.locked = false) : m' = m := by
  cases h with
  | create | write | writeFails => cases hp
  | append row r hwrites => exact absurd hwrites.locked (by rw [hp]; decide)
  | _ => rfl

theorem Turn.files_other (h : Turn env a plan m p m' p') (hk : k ≠ (a.kind, plan.curationKey)) :
    m'.files k = m.files k := by
  cases h with
  | create | write => exact Function.update_of_ne hk ..
  | writeFails whole =>
    cases whole with
    | false => rfl
    | true => exact Function.update_of_ne hk ..
  | _ => rfl

theorem Turn.closed_other {asked : List (StewardKind × String)} (h : Turn env a plan m p m' p')
    (hstands : Stands env a plan m asked p) (hk : k ≠ (a.kind, plan.curationKey)) (hclosed : Closed m' k) :
    Closed m k := by
  cases h with
  | append row r hwrites => exact closed_append (by rw [hwrites.key hstands]; exact hk) hclosed
  | create | write => exact hclosed
  | writeFails whole => cases whole <;> exact hclosed
  | _ => exact hclosed

theorem not_closed_of_curated {kind : StewardKind} {key : String}
    (h : alreadyCurated env kind (m.ledgers kind) key = some false) : ¬Closed m (kind, key) := by
  rintro ⟨row, hrow, hkey, hterminal⟩
  obtain ⟨rows, hread, hnone⟩ := Option.map_eq_some_iff.mp h
  obtain rfl := readCurationRows_eq hread
  have hany := (List.any_eq_false.mp hnone) row hrow
  simp [hkey, hterminal] at hany

theorem stands_unlocked {asked : List (StewardKind × String)} (h : p.locked = false) : Stands env a plan m asked p := by
  cases p with
  | start | diagnosing | done | dead => trivial
  | _ => cases h

theorem Turn.records {claim : Claim} (h : Turn env a plan m p m' p') (hfile : m'.files k = some (.record claim)) :
    m.files k = some (.record claim) ∨ k = (a.kind, plan.curationKey) ∧ claim = a.claimOf env plan := by
  by_cases hk : k = (a.kind, plan.curationKey)
  · cases h with
    | create =>
      unfold setFile at hfile
      dsimp only at hfile
      rw [hk, Function.update_self] at hfile
      cases hfile
    | write =>
      unfold setFile at hfile
      dsimp only at hfile
      rw [hk, Function.update_self] at hfile
      cases hfile
      exact .inr ⟨hk, rfl⟩
    | writeFails whole =>
      cases whole with
      | false => exact .inl hfile
      | true =>
        rw [if_pos rfl] at hfile
        unfold setFile at hfile
        dsimp only at hfile
        rw [hk, Function.update_self] at hfile
        cases hfile
        exact .inr ⟨hk, rfl⟩
    | _ => exact .inl hfile
  · rw [h.files_other hk] at hfile
    exact .inl hfile

theorem Turn.stands {asked asked' : List (StewardKind × String)} (h : Turn env a plan m p m' p')
    (hstands : Stands env a plan m asked p)
    (hasked : asked' = asked ∨ p = .asking ∧ asked' = (a.kind, plan.curationKey) :: asked)
    (hunasked : m.files (a.kind, plan.curationKey) = none → asked.count (a.kind, plan.curationKey) = 0) :
    Stands env a plan m' asked' p' := by
  have hsame : p ≠ .asking → asked' = asked := by
    intro hp
    rcases hasked with hsame | ⟨hasking, -⟩
    · exact hsame
    · exact absurd hasking hp
  cases h with
  | start => exact ⟨nofun, fun hpast => by simp at hpast⟩
  | curated again hcurated => exact ⟨hstands.1, fun _ => not_closed_of_curated hcurated⟩
  | legacyRow again => exact ⟨hstands.1, fun _ => hstands.2 (.inr (nofun))⟩
  | legacyClaim again => exact ⟨hstands.1, fun _ => hstands.2 (.inr (nofun))⟩
  | free hfile => exact hstands.2 (.inr (nofun))
  | freeAgain hfile => exact ⟨hstands.2 (.inl rfl), hstands.1 rfl⟩
  | claimed again claim hfile hclaim => exact ⟨hstands.2 (.inr (nofun)), hfile, hclaim⟩
  | settle outcome proposals hpays => exact ⟨hstands, rfl⟩
  | pay hpays => exact ⟨fun _ => hpays, fun _ => hstands⟩
  | create hids hfile =>
    refine ⟨hstands.1, hstands.2, ?_, ?_⟩
    · unfold setFile
      dsimp only
      rw [Function.update_self]
      exact nofun
    · rw [hsame nofun]
      exact hunasked hfile
  | write =>
    refine ⟨hstands.1, hstands.2.1, Function.update_self .., ?_⟩
    rw [hsame nofun]
    exact hstands.2.2.2
  | writeFails whole => trivial
  | answer outcome proposals hanswer => exact ⟨hstands.1, hstands.2.1, hstands.2.2.1, rfl⟩
  | fail f hanswer => exact ⟨hstands.1, hstands.2.1, hstands.2.2.1⟩
  | retry row hread => exact ⟨hstands.1, hstands.2.1, hstands.2.2.1⟩
  | raise f hdecided => exact stands_unlocked (raised_locked f)
  | append | refuse | resolved | suppressed | unreadable | refused | badId | exists_ | die => trivial

theorem Turn.rows (h : Turn env a plan m p m' p') (hrows : ∀ kind, Guarded mayFollow (finalizeRows (m.ledgers kind)))
    (kind : StewardKind) : Guarded mayFollow (finalizeRows (m'.ledgers kind)) := by
  cases h with
  | append row r hwrites hread hmay =>
    dsimp only
    by_cases hkind : kind = a.kind
    · subst hkind
      rw [Function.update_self, finalizeRows_snoc]
      exact Guarded.snoc_iff.mpr ⟨hrows a.kind, hmay⟩
    · rw [Function.update_of_ne hkind]
      exact hrows kind
  | create | write => exact hrows kind
  | writeFails whole => cases whole <;> exact hrows kind
  | _ => exact hrows kind

theorem setFile_ne_none {name : String} {file : ClaimFile} (h : (setFile a m name file).files k = none) :
    m.files k = none ∧ k ≠ (a.kind, name) := by
  unfold setFile at h
  dsimp only at h
  by_cases hk : k = (a.kind, name)
  · rw [hk, Function.update_self] at h
    cases h
  · rw [Function.update_of_ne hk] at h
    exact ⟨h, hk⟩

theorem Turn.files_kept (h : Turn env a plan m p m' p') (hfile : m'.files k = none) : m.files k = none := by
  cases h with
  | create | write => exact (setFile_ne_none hfile).1
  | writeFails whole =>
    cases whole with
    | false => exact hfile
    | true => exact (setFile_ne_none hfile).1
  | _ => exact hfile

theorem Turn.files_made {asked : List (StewardKind × String)} (h : Turn env a plan m p m' p')
    (hstands : Stands env a plan m asked p) (hfile : m'.files k ≠ none) :
    m.files k ≠ none ∨ k = (a.kind, plan.curationKey) ∧ Pays env a := by
  by_cases hk : k = (a.kind, plan.curationKey)
  · cases h with
    | create => exact .inr ⟨hk, hstands.2⟩
    | write => exact .inr ⟨hk, hstands.2.1⟩
    | writeFails whole => exact .inr ⟨hk, hstands.2.1⟩
    | _ => exact .inl hfile
  · rw [h.files_other hk] at hfile
    exact .inl hfile

namespace StewardsSound
variable {initial : Memory}

theorem stands (h : StewardsSound env attempts initial s) (hplan : (attempts i).plan? env = some plan) :
    Stands env (attempts i) plan s.memory s.asked (s.phase i) := by
  cases hlocked : (s.phase i).locked with
  | false => exact stands_unlocked hlocked
  | true =>
    obtain ⟨plan', hplan', -, hstands⟩ := h.lock i hlocked
    obtain rfl := Option.some.inj (hplan'.symm.trans hplan)
    exact hstands

theorem holds (h : StewardsSound env attempts initial s) (hplan : (attempts i).plan? env = some plan)
    (hlocked : (s.phase i).locked = true) : s.lock ((attempts i).kind, plan.curationKey) = some i := by
  obtain ⟨plan', hplan', hlock, -⟩ := h.lock i hlocked
  obtain rfl := Option.some.inj (hplan'.symm.trans hplan)
  exact hlock

theorem other (h : StewardsSound env attempts initial s) (hgo : Goes env (attempts i) plan s s' i p') {plan' : StewardPlan}
    (hlock : s.lock ((attempts j).kind, plan'.curationKey) = some j) (hij : j ≠ i)
    (hstands : Stands env (attempts j) plan' s.memory s.asked (s.phase j)) :
    s'.lock ((attempts j).kind, plan'.curationKey) = some j ∧
      Stands env (attempts j) plan' s'.memory s'.asked (s.phase j) := by
  have hmine := h.stands hgo.planned
  by_cases hk : ((attempts j).kind, plan'.curationKey) = ((attempts i).kind, plan.curationKey)
  · have hfree : (s.phase i).locked = false := by
      by_contra hheld
      rw [Bool.not_eq_false] at hheld
      have hi := h.holds hgo.planned hheld
      rw [← hk, hlock] at hi
      exact hij (Option.some.inj hi)
    have hgoes := hgo.lock
    have hmemory := hgo.turn.memory_eq hfree
    have hasked : s'.asked = s.asked := by
      rcases hgo.asked with hsame | ⟨hasking, -⟩
      · exact hsame
      · rw [hasking] at hfree
        cases hfree
    rw [hfree] at hgoes
    cases hnew : p'.locked with
    | true =>
      rw [hnew] at hgoes
      have hnone := hgoes.taken_eq.1
      rw [← hk, hlock] at hnone
      cases hnone
    | false =>
      rw [hnew] at hgoes
      rw [hgoes.same, hmemory, hasked]
      exact ⟨hlock, hstands⟩
  · constructor
    · have hgoes := hgo.lock
      generalize (s.phase i).locked = b at hgoes
      generalize p'.locked = b' at hgoes
      generalize s'.lock = lock' at hgoes
      cases hgoes with
      | taken => rw [Function.update_of_ne hk, hlock]
      | left => rw [Function.update_of_ne hk, hlock]
      | kept => exact hlock
    · refine hstands.frame (hgo.turn.files_other hk) ?_ fun hopen hclosed => hopen (hgo.turn.closed_other hmine hk hclosed)
      rcases hgo.asked with hsame | ⟨-, hasked⟩
      · rw [hsame]
      · rw [hasked, List.count_cons_of_ne (Ne.symm hk)]

theorem goes (h : StewardsSound env attempts initial s) (hgo : Goes env (attempts i) plan s s' i p') :
    StewardsSound env attempts initial s' := by
  have hmine := h.stands hgo.planned
  refine ⟨?_, hgo.turn.rows h.rows, ?_, ?_, ?_, ?_⟩
  · intro j hj
    rw [hgo.phase] at hj ⊢
    by_cases hij : j = i
    · subst hij
      rw [Function.update_self] at hj ⊢
      refine ⟨plan, hgo.planned, ?_, hgo.turn.stands hmine hgo.asked (h.unasked _)⟩
      have hgoes := hgo.lock
      rw [hj] at hgoes
      cases hheld : (s.phase j).locked with
      | false =>
        rw [hheld] at hgoes
        rw [hgoes.taken_eq.2, Function.update_self]
      | true =>
        rw [hheld] at hgoes
        rw [hgoes.same]
        exact h.holds hgo.planned hheld
    · rw [Function.update_of_ne hij] at hj ⊢
      obtain ⟨plan', hplan', hlock, hstands⟩ := h.lock j hj
      exact ⟨plan', hplan', h.other hgo hlock hij hstands⟩
  · intro k
    rcases hgo.asked with hsame | ⟨hasking, hasked⟩
    · rw [hsame]
      exact h.asked k
    · rw [hasking] at hmine
      have hnone := hmine.2.2.2
      by_cases hk : k = ((attempts i).kind, plan.curationKey)
      · rw [hasked, hk, List.count_cons_self, hnone]
      · rw [hasked, List.count_cons_of_ne (Ne.symm hk)]
        exact h.asked k
  · intro k hfile
    have hbefore := hgo.turn.files_kept hfile
    rcases hgo.asked with hsame | ⟨hasking, hasked⟩
    · rw [hsame]
      exact h.unasked k hbefore
    · rw [hasking] at hmine
      have hk : k ≠ ((attempts i).kind, plan.curationKey) := by
        rintro rfl
        rw [hmine.2.2.1] at hbefore
        cases hbefore
      rw [hasked, List.count_cons_of_ne (Ne.symm hk)]
      exact h.unasked k hbefore
  · intro k hfile
    rcases hgo.turn.files_made hmine hfile with hold | ⟨hk, hpays⟩
    · exact h.files k hold
    · exact .inr ⟨i, hk ▸ key_of_plan hgo.planned, hpays⟩
  · intro k claim hfile
    rcases hgo.turn.records hfile with hold | ⟨hk, hclaim⟩
    · exact h.records k claim hold
    · exact ⟨i, plan, hgo.planned, hk, hclaim⟩

theorem passes (h : StewardsSound env attempts initial s) (hpass : Passes env (attempts i) s s' i p') :
    StewardsSound env attempts initial s' := by
  have hfiles : s'.memory.files = s.memory.files := by
    rcases hpass.memory with hsame | ⟨e, -, -, -, hmemory⟩
    · rw [hsame]
    · rw [hmemory]
  refine ⟨?_, ?_, ?_, ?_, ?_, ?_⟩
  · intro j hj
    rw [hpass.phase] at hj ⊢
    have hij : j ≠ i := by
      rintro rfl
      rw [Function.update_self, hpass.free] at hj
      cases hj
    rw [Function.update_of_ne hij] at hj ⊢
    obtain ⟨plan, hplan, hlock, hstands⟩ := h.lock j hj
    refine ⟨plan, hplan, hpass.lock ▸ hlock, hstands.frame (by rw [hfiles]) (by rw [hpass.asked]) ?_⟩
    intro hopen hclosed
    rcases hpass.memory with hsame | ⟨e, -, -, -, hmemory⟩
    · exact hopen (hsame ▸ hclosed)
    · rw [hmemory] at hclosed
      refine hopen (closed_append ?_ hclosed)
      intro hk
      obtain ⟨hkind, hkey⟩ := Prod.mk.inj hk
      refine key_ne_diagnostic hplan (attempts i).source ?_
      rw [hkind]
      exact hkey
  · intro kind
    rcases hpass.memory with hsame | ⟨e, -, hread, hmay, hmemory⟩
    · rw [hsame]
      exact h.rows kind
    · rw [hmemory]
      dsimp only
      by_cases hkind : kind = (attempts i).kind
      · subst hkind
        rw [Function.update_self, finalizeRows_snoc]
        exact Guarded.snoc_iff.mpr ⟨h.rows _, hmay⟩
      · rw [Function.update_of_ne hkind]
        exact h.rows kind
  · rw [hpass.asked]
    exact h.asked
  · rw [hpass.asked, hfiles]
    exact h.unasked
  · rw [hfiles]
    exact h.files
  · rw [hfiles]
    exact h.records

end StewardsSound

/-- The directory before any of the attempts: every ledger can be read, and no claim of theirs is there. -/
structure Memory.Fresh (env : CurationEnv) (m : Memory) : Prop where
  read : ∀ kind, (readCurationRows env kind (m.ledgers kind)).isSome = true
  files : ∀ k claim, m.files k ≠ some (.record claim)

theorem guarded_of_read {kind : StewardKind} {rows : List LedgerRow} (h : (readCurationRows env kind rows).isSome = true) :
    Guarded mayFollow (finalizeRows rows) := by
  unfold readCurationRows at h
  split at h
  · next hok =>
    rw [Bool.and_eq_true] at hok
    exact (Guarded.check_iff .nil).mp hok.2
  · cases h

theorem stewardsSound_start {initial : Memory} (h : initial.Fresh env) :
    StewardsSound env attempts initial { memory := initial } where
  lock := by
    intro i hi
    cases hi
  rows kind := guarded_of_read (h.read kind)
  asked k := Nat.zero_le 1
  unasked k _ := rfl
  files k hk := .inl hk
  records k claim hk := absurd hk (h.files k claim)

theorem StewardsSound.step {initial : Memory} {action : StewardAction} (h : StewardsSound env attempts initial s)
    (hstep : stewardStep env attempts s action = some s') : StewardsSound env attempts initial s' := by
  obtain ⟨i, p', -, ⟨plan, hgo⟩ | hpass⟩ := stewardStep_cases hstep
  · exact h.goes hgo
  · exact h.passes hpass

theorem stewardRun_invariant {P : Stewards → Prop} (hstep : ∀ s action s', P s → stewardStep env attempts s action = some s' → P s')
    (actions : List StewardAction) (hs : P s) (hrun : stewardRun env attempts s actions = some s') : P s' := by
  induction actions generalizing s with
  | nil =>
    obtain rfl := Option.some.inj hrun
    exact hs
  | cons action actions ih =>
    obtain ⟨next, hnext, hrest⟩ := Option.bind_eq_some_iff.mp hrun
    exact ih (hstep s action next hs hnext) hrest

theorem stewardsSound_run {initial : Memory} {actions : List StewardAction} (h : initial.Fresh env)
    (hrun : stewardRun env attempts { memory := initial } actions = some s) : StewardsSound env attempts initial s :=
  stewardRun_invariant (fun _ _ _ hs hstep => hs.step hstep) actions (stewardsSound_start h) hrun

/-! ## Records that their readers take -/

/-- Every attempt's ids and model are ones that the readers of claims and rows take, whatever the process that
reads them masks; the names of its exceptions fit, and tasks of one digest are one. -/
structure Recordable (env : CurationEnv) (attempts : Nat → Attempt) : Prop where
  ids : ∀ i, idOk (attempts i).source.runId = true ∧ idOk (attempts i).source.taskId = true
  printable : ∀ i client, client = none ∨ client = (attempts i).client →
    printable ((attempts i).recordedModel client) = true
  stable : ∀ i j, recorded (attempts j).text 200 ((attempts i).recordedModel (attempts i).client) =
    (attempts i).recordedModel (attempts i).client
  schemas : ∀ j kind, ∀ schema ∈ FINALIZE_INPUT_SCHEMAS kind, recorded (attempts j).text 200 schema = schema
  parser : ∀ j, recorded (attempts j).text 100 FINALIZE_STEWARD_PARSER = FINALIZE_STEWARD_PARSER
  failures : ∀ i f, (attempts i).planned env = .error f ∨
    (∃ plan, (attempts i).plan? env = some plan ∧ (decidedBy plan.fastPaths = .error f ∨ plan.propose = .error f)) →
      validRequiredText 200 f.errorType = true
  tasks : ∀ i j, (env.task (attempts i).source.taskId).text = (env.task (attempts j).source.taskId).text →
    (attempts i).source.taskId = (attempts j).source.taskId

structure PlanFits (env : CurationEnv) (a : Attempt) (plan : StewardPlan) : Prop where
  key : plan.curationKey = curationKeyOf env a.kind plan.inputDigest.text a.source.taskId
  schema : plan.inputSchema ∈ FINALIZE_INPUT_SCHEMAS a.kind
  task : a.kind = .facets → a.source.taskId ≠ ""
  propose : ∀ outcome proposals, plan.propose = .ok (outcome, proposals) →
    (outcome = .empty ∨ outcome = .proposed) ∧ proposals.fits a.kind a.source.taskId = true
  fast : ∀ outcome proposals, decidedBy plan.fastPaths = .ok (some (outcome, proposals)) →
    (outcome = .empty ∨ outcome = .alreadyGoverned ∧ a.kind = .facets) ∧ proposals.fits a.kind a.source.taskId = true

theorem planFits (hplan : a.plan? env = some plan) : PlanFits env a plan := by
  unfold Attempt.plan? Attempt.planned at hplan
  cases hinput : a.input with
  | concept snapshot answer =>
    have hkind : a.kind = .concept := by unfold Attempt.kind; rw [hinput]; rfl
    rw [hinput] at hplan
    cases snapshot with
    | error f => cases hplan
    | ok read =>
      simp only [bind, Except.bind, pure, Except.pure] at hplan
      split at hplan
      · obtain rfl := Option.some.inj hplan
        refine ⟨by rw [hkind]; rfl, by rw [hkind]; exact .tail _ (.tail _ (.head _)), by rw [hkind]; exact nofun, ?_, nofun⟩
        intro outcome proposals hanswer
        cases answer with
        | error f => cases hanswer
        | ok found =>
          obtain ⟨rfl, rfl⟩ := Prod.mk.inj (Except.ok.inj hanswer)
          rw [hkind]
          refine ⟨?_, rfl⟩
          split
          · exact .inl rfl
          · exact .inr rfl
      · cases hplan
  | claim snapshot answer =>
    have hkind : a.kind = .claim := by unfold Attempt.kind; rw [hinput]; rfl
    rw [hinput] at hplan
    cases snapshot with
    | error f => cases hplan
    | ok read =>
      simp only [bind, Except.bind, pure, Except.pure] at hplan
      split at hplan
      · obtain rfl := Option.some.inj hplan
        refine ⟨by rw [hkind]; rfl, by rw [hkind]; exact .tail _ (.tail _ (.head _)), by rw [hkind]; exact nofun, ?_, nofun⟩
        intro outcome proposals hanswer
        cases answer with
        | error f => cases hanswer
        | ok found =>
          obtain ⟨rfl, rfl⟩ := Prod.mk.inj (Except.ok.inj hanswer)
          rw [hkind]
          refine ⟨?_, rfl⟩
          split
          · exact .inl rfl
          · exact .inr rfl
      · cases hplan
  | facets governed goalIsEmpty digest answer =>
    have hkind : a.kind = .facets := by unfold Attempt.kind; rw [hinput]; rfl
    rw [hinput] at hplan
    dsimp only at hplan
    by_cases htask : a.source.taskId = ""
    · rw [if_pos htask] at hplan
      cases hplan
    · rw [if_neg htask] at hplan
      dsimp only at hplan
      split at hplan
      · obtain rfl := Option.some.inj hplan
        refine ⟨by rw [hkind]; rfl, by rw [hkind]; exact .tail _ (.head _), fun _ => htask, ?_, ?_⟩
        · intro outcome proposals hanswer
          cases answer with
          | error f => cases hanswer
          | ok found =>
            obtain ⟨rfl, rfl⟩ := Prod.mk.inj (Except.ok.inj hanswer)
            rw [hkind]
            refine ⟨?_, by simp [Proposals.fits]⟩
            split
            · exact .inl rfl
            · exact .inr rfl
        · intro outcome proposals hdecided
          rw [hkind]
          cases governed with
          | error f => cases hdecided
          | ok current =>
            cases current with
            | some facets =>
              obtain ⟨rfl, rfl⟩ := Prod.mk.inj (Option.some.inj (Except.ok.inj hdecided))
              exact ⟨.inr ⟨rfl, rfl⟩, by simp [Proposals.fits]⟩
            | none =>
              cases goalIsEmpty with
              | false => cases hdecided
              | true =>
                obtain ⟨rfl, rfl⟩ := Prod.mk.inj (Option.some.inj (Except.ok.inj hdecided))
                exact ⟨.inl rfl, by simp [Proposals.fits]⟩
      · cases hplan

theorem length_append_text (s : String) (d : HexDigest) : (s ++ d.text).length = s.length + 64 := by
  have hvalid := d.valid
  unfold validDigestRef at hvalid
  rw [Bool.and_eq_true, decide_eq_true_eq] at hvalid
  rw [String.length_append, ← String.length_toList (s := d.text), hvalid.1]

theorem printable_hex (d : HexDigest) : printable d.text = true := by
  have hvalid := d.valid
  unfold validDigestRef at hvalid
  rw [Bool.and_eq_true] at hvalid
  unfold printable
  rw [List.all_eq_true]
  intro c hc
  have hdigit := (List.all_eq_true.mp hvalid.2) c hc
  unfold Py.hexDigit at hdigit
  simp only [Bool.or_eq_true, Bool.and_eq_true, decide_eq_true_eq] at hdigit ⊢
  have hzero : '0'.toNat ≤ c.toNat := by
    rcases hdigit with h | h
    · exact h.1
    · exact (by decide : '0'.toNat ≤ 'a'.toNat).trans h.1
  exact (by decide : 32 ≤ '0'.toNat).trans hzero

theorem printable_append (s t : String) : printable (s ++ t) = (printable s && printable t) := by
  unfold printable
  rw [String.toList_append, List.all_append]

theorem required_append {maximum : Nat} {s : String} (d : HexDigest) (hs : printable s = true)
    (hlength : s.length + 64 ≤ maximum) : validRequiredText maximum (s ++ d.text) = true := by
  have hne : s ++ d.text ≠ "" := by
    intro h
    have hlen := length_append_text s d
    rw [h] at hlen
    simp at hlen
  unfold validRequiredText
  rw [printable_append, hs, printable_hex, length_append_text]
  simp [hne, hlength]

theorem recorded_length (text : TextEnv) (maximum : Nat) (s : String) : (recorded text maximum s).length ≤ maximum := by
  unfold recorded redactPersistedText
  rw [String.length_ofList]
  exact Redact.length_bounded ..

theorem recordedModel_required (client : Option String) (h : printable (a.recordedModel client) = true) :
    validRequiredText 200 (a.recordedModel client) = true := by
  have hfallback : ∀ model : String, model.length ≤ 200 →
      (if model = "" then "unknown" else model).length ≤ 200 ∧ (if model = "" then "unknown" else model) ≠ "" := by
    intro model hlength
    split
    · decide
    · next hne => exact ⟨hlength, hne⟩
  obtain ⟨hlength, hne⟩ := hfallback (recorded a.text 200 (if client.getD "" = "" then "unknown" else client.getD ""))
    (recorded_length ..)
  rw [← Attempt.recordedModel] at hlength hne
  unfold validRequiredText
  simp [hne, hlength, h]

theorem schema_required {kind : StewardKind} : ∀ schema ∈ FINALIZE_INPUT_SCHEMAS kind, validRequiredText 200 schema = true := by
  cases kind <;> decide +kernel

theorem curationKeyOf_length (kind : StewardKind) (d : HexDigest) (taskId : String) :
    validRequiredText 100 (curationKeyOf env kind d.text taskId) = true := by
  cases kind with
  | concept => exact required_append d (by decide) (by decide)
  | claim => exact required_append d (by decide) (by decide)
  | facets => exact required_append (env.task taskId) (by decide) (by decide)

structure RowFits (env : CurationEnv) (kind : StewardKind) (row : CurationRow) : Prop where
  ids : idOk row.source.runId = true ∧ idOk row.source.taskId = true
  source : row.sourceKey = curationSourceKey env row.source
  schema : validRequiredText 200 row.provenance.inputSchema = true
  model : validRequiredText 200 row.provenance.model = true
  parser : row.provenance.parser = FINALIZE_STEWARD_PARSER
  governed : row.outcome = .alreadyGoverned → kind = .facets
  notes : (row.outcome = .error ∧ row.errorType.any (validRequiredText 200) = true ∧ row.ambiguity = none) ∨
    (row.outcome = .priorAttemptIncompleteNotReplayed ∧ row.ambiguity = some "provider_outcome_unknown" ∧
      row.errorType = none) ∨
    (row.outcome ≠ .error ∧ row.outcome ≠ .priorAttemptIncompleteNotReplayed ∧ row.errorType = none ∧
      row.ambiguity = none)
  length : row.curationKey.length ≤ 240
  key : if row.curationKey = diagnosticCurationKey env kind row.source then
      row.provenance.inputDigest = "" ∧ row.provenance.inputSchema = FINALIZE_DIAGNOSTIC_SCHEMAS kind ∧
        row.outcome = .error
    else
      validDigestRef row.provenance.inputDigest = true ∧ row.provenance.inputSchema ∈ FINALIZE_INPUT_SCHEMAS kind ∧
        row.curationKey = curationKeyOf env kind row.provenance.inputDigest row.source.taskId ∧
        (kind = .facets → row.source.taskId ≠ "")
  proposals : row.proposals.fits kind row.source.taskId = true

theorem RowFits.valid {kind : StewardKind} {row : CurationRow} (h : RowFits env kind row) :
    validateV2CurationRow env kind row = true := by
  have hnotes : row.notesOk = true := by
    unfold CurationRow.notesOk
    rcases h.notes with ⟨ho, he, ha⟩ | ⟨ho, ha, he⟩ | ⟨hne, hnp, he, ha⟩
    · rw [ho, ha]
      simpa using he
    · rw [ho, ha, he]
      rfl
    · cases ho : row.outcome with
      | error => exact absurd ho hne
      | priorAttemptIncompleteNotReplayed => exact absurd ho hnp
      | _ => simp [he, ha]
  have hkey := h.key
  unfold validateV2CurationRow
  rw [hnotes, h.ids.1, h.ids.2, h.schema, h.model, h.proposals]
  simp only [Bool.true_and, Bool.and_true, Bool.and_eq_true, decide_eq_true_eq]
  refine ⟨⟨⟨⟨h.source, h.parser⟩, h.governed⟩, h.length⟩, ?_⟩
  split
  · next hdiag =>
    rw [if_pos hdiag] at hkey
    simp [hkey]
  · next hdiag =>
    rw [if_neg hdiag] at hkey
    simp only [Bool.and_eq_true, decide_eq_true_eq]
    exact ⟨⟨⟨hkey.1, List.contains_iff_mem.mpr hkey.2.1⟩, hkey.2.2.1⟩, hkey.2.2.2⟩

theorem emptyProposals_fits (a : Attempt) : a.emptyProposals.fits a.kind a.source.taskId = true := by
  unfold Attempt.emptyProposals
  cases hkind : a.kind <;> simp [Proposals.fits]

theorem length_of_required {maximum : Nat} {t : String} (h : validRequiredText maximum t = true) : t.length ≤ maximum := by
  unfold validRequiredText at h
  simp only [Bool.and_eq_true, decide_eq_true_eq] at h
  exact h.1.2

namespace Recordable

theorem plan_parts (h : Recordable env attempts) (hplan : (attempts i).plan? env = some plan) {client : Option String}
    (hclient : client = none ∨ client = (attempts i).client) :
    validRequiredText 200 plan.inputSchema = true ∧ validRequiredText 200 ((attempts i).recordedModel client) = true ∧
      plan.curationKey.length ≤ 240 ∧
      plan.curationKey ≠ diagnosticCurationKey env (attempts i).kind (attempts i).source := by
  have hfits := planFits hplan
  have hlength := length_of_required
    (@curationKeyOf_length env (attempts i).kind plan.inputDigest (attempts i).source.taskId)
  rw [← hfits.key] at hlength
  exact ⟨schema_required plan.inputSchema hfits.schema, recordedModel_required client (h.printable i client hclient),
    by omega, key_ne_diagnostic hplan _⟩

theorem planRow_valid (h : Recordable env attempts) (hplan : (attempts i).plan? env = some plan) {client : Option String}
    (hclient : client = none ∨ client = (attempts i).client) {outcome : Outcome} {proposals : Proposals}
    (houtcome : outcome ≠ .error ∧ outcome ≠ .priorAttemptIncompleteNotReplayed ∧
      (outcome = .alreadyGoverned → (attempts i).kind = .facets))
    (hproposals : proposals.fits (attempts i).kind (attempts i).source.taskId = true) :
    validateV2CurationRow env (attempts i).kind ((attempts i).planRow env plan client outcome proposals) = true := by
  have hfits := planFits hplan
  obtain ⟨hschema, hmodel, hlength, hkey⟩ := h.plan_parts hplan hclient
  apply RowFits.valid
  constructor
  · exact h.ids i
  · rfl
  · exact hschema
  · exact hmodel
  · rfl
  · exact houtcome.2.2
  · exact .inr (.inr ⟨houtcome.1, houtcome.2.1, rfl, rfl⟩)
  · exact hlength
  · exact (if_neg hkey).mpr ⟨plan.inputDigest.valid, hfits.schema, hfits.key, hfits.task⟩
  · exact hproposals

theorem errorRow_valid (h : Recordable env attempts) (hplan : (attempts i).plan? env = some plan) {errorType : String}
    (herror : validRequiredText 200 errorType = true) :
    validateV2CurationRow env (attempts i).kind
      ((attempts i).planRow env plan (attempts i).client .error (attempts i).emptyProposals (some errorType)) = true := by
  have hfits := planFits hplan
  obtain ⟨hschema, hmodel, hlength, hkey⟩ := h.plan_parts hplan (.inr rfl)
  apply RowFits.valid
  constructor
  · exact h.ids i
  · rfl
  · exact hschema
  · exact hmodel
  · rfl
  · exact nofun
  · exact .inl ⟨rfl, herror, rfl⟩
  · exact hlength
  · exact (if_neg hkey).mpr ⟨plan.inputDigest.valid, hfits.schema, hfits.key, hfits.task⟩
  · exact emptyProposals_fits _

theorem diagnosticRow_valid (h : Recordable env attempts) (i : Nat) {errorType : String}
    (herror : validRequiredText 200 errorType = true) :
    validateV2CurationRow env (attempts i).kind ((attempts i).diagnosticRow env errorType) = true := by
  have hschema : ∀ kind, validRequiredText 200 (FINALIZE_DIAGNOSTIC_SCHEMAS kind) = true := by
    intro kind
    cases kind <;> decide +kernel
  have hmodel := recordedModel_required none (h.printable i none (.inl rfl))
  have hlength : (diagnosticCurationKey env (attempts i).kind (attempts i).source).length ≤ 240 := by
    unfold diagnosticCurationKey
    rw [length_append_text]
    cases (attempts i).kind <;> decide +kernel
  apply RowFits.valid
  constructor
  · exact h.ids i
  · rfl
  · exact hschema (attempts i).kind
  · exact hmodel
  · rfl
  · exact nofun
  · exact .inl ⟨rfl, herror, rfl⟩
  · exact hlength
  · exact (if_pos rfl).mpr ⟨rfl, rfl, rfl⟩
  · exact emptyProposals_fits _

theorem recoveredRow_valid (h : Recordable env attempts) (hplan : (attempts i).plan? env = some plan)
    (hkind : (attempts j).kind = (attempts i).kind)
    (htask : (attempts j).kind = .facets → (attempts j).source.taskId = (attempts i).source.taskId) :
    validateV2CurationRow env (attempts j).kind
      ((attempts j).recoveredRow env ((attempts i).claimOf env plan)) = true := by
  have hfits := planFits hplan
  obtain ⟨hschema, hmodel, hlength, hkey⟩ := h.plan_parts hplan (.inr rfl)
  have hproposals : (attempts j).emptyProposals.fits (attempts i).kind (attempts i).source.taskId = true := by
    rw [← hkind]
    by_cases hfacets : (attempts j).kind = .facets
    · rw [← htask hfacets]
      exact emptyProposals_fits (attempts j)
    · unfold Attempt.emptyProposals
      cases hj : (attempts j).kind with
      | concept => rfl
      | claim => rfl
      | facets => exact absurd hj hfacets
  rw [hkind]
  apply RowFits.valid
  constructor
  · exact h.ids i
  · rfl
  · exact hschema
  · exact hmodel
  · rfl
  · exact nofun
  · exact .inr (.inl ⟨rfl, rfl, rfl⟩)
  · exact hlength
  · exact (if_neg hkey).mpr ⟨plan.inputDigest.valid, hfits.schema, hfits.key, hfits.task⟩
  · exact hproposals

end Recordable

def Phase.Recorded (env : CurationEnv) (a : Attempt) : Phase → Prop
  | .settling row => validateV2CurationRow env a.kind row = true
  | .answering row => validateV2CurationRow env a.kind row = true
  | .failing f => validRequiredText 200 f.errorType = true
  | .diagnosing e => validRequiredText 200 e = true
  | _ => True

structure Readable (env : CurationEnv) (attempts : Nat → Attempt) (s : Stewards) : Prop where
  read : ∀ kind, readCurationRows env kind (s.memory.ledgers kind) = some (s.memory.ledgers kind)
  phases : ∀ i, (s.phase i).Recorded env (attempts i)

theorem read_append {kind : StewardKind} {rows : List LedgerRow} {row : CurationRow}
    (hread : readCurationRows env kind rows = some rows) (hvalid : validateV2CurationRow env kind row = true)
    (hmay : mayFollow (finalizeRows rows) row = true) :
    readCurationRows env kind (rows ++ [.finalize row]) = some (rows ++ [.finalize row]) := by
  unfold readCurationRows at hread ⊢
  split at hread
  · next hok =>
    rw [Bool.and_eq_true] at hok
    have hguarded := (Guarded.check_iff .nil).mp hok.2
    have hchecked : Guarded.check mayFollow [] (finalizeRows rows ++ [row]) = true :=
      (Guarded.check_iff .nil).mpr (Guarded.snoc_iff.mpr ⟨hguarded, hmay⟩)
    have hrow : validateCurationRow env kind (.finalize row) = true := hvalid
    rw [if_pos]
    rw [finalizeRows_snoc, hchecked, List.all_append, hok.1]
    simp [hrow]
  · cases hread

theorem read_update {row : CurationRow} {kind : StewardKind}
    (hread : ∀ kind, readCurationRows env kind (m.ledgers kind) = some (m.ledgers kind))
    (hvalid : validateV2CurationRow env kind row = true) (hmay : mayFollow (finalizeRows (m.ledgers kind)) row = true)
    (kind' : StewardKind) :
    let ledgers := Function.update m.ledgers kind (m.ledgers kind ++ [.finalize row])
    readCurationRows env kind' (ledgers kind') = some (ledgers kind') := by
  dsimp only
  by_cases hkind : kind' = kind
  · subst hkind
    rw [Function.update_self]
    exact read_append (hread kind') hvalid hmay
  · rw [Function.update_of_ne hkind]
    exact hread kind'

theorem facets_key_inj {t u : String} (h : facetsCurationKey env t = facetsCurationKey env u) :
    (env.task t).text = (env.task u).text := by
  unfold facetsCurationKey at h
  have hchars := congrArg String.toList h
  rw [String.toList_append, String.toList_append, List.append_cancel_left_eq] at hchars
  exact String.toList_injective hchars

theorem Recordable.writes_valid {initial : Memory} (h : Recordable env attempts) (hsound : StewardsSound env attempts initial s)
    (hreadable : Readable env attempts s) (hplan : (attempts i).plan? env = some plan) {row : CurationRow}
    (hwrites : Writes env (attempts i) plan (s.phase i) row) :
    validateV2CurationRow env (attempts i).kind row = true := by
  have hrecorded := hreadable.phases i
  have hstands := hsound.stands hplan
  generalize s.phase i = p at hwrites hrecorded hstands
  cases hwrites with
  | settling row => exact hrecorded
  | answering row => exact hrecorded
  | failing f => exact h.errorRow_valid hplan hrecorded
  | recovering claim =>
    obtain ⟨j, plan', hplan', hk, rfl⟩ := hsound.records _ claim hstands.2.1
    obtain ⟨hkind, hkey⟩ := Prod.mk.inj hk
    refine h.recoveredRow_valid hplan' hkind ?_
    intro hfacets
    rw [(planFits hplan).key, (planFits hplan').key, ← hkind, hfacets] at hkey
    exact h.tasks i j (facets_key_inj hkey)

theorem Recordable.turn_recorded (h : Recordable env attempts) (hplan : (attempts i).plan? env = some plan)
    (hturn : Turn env (attempts i) plan m p m' p') : p'.Recorded env (attempts i) := by
  have hnames : ∀ e ∈ ["ValueError", "FileExistsError", "OSError", "GovernanceLedgerUnavailable"],
      validRequiredText 200 e = true := by decide
  have hfits := planFits hplan
  cases hturn with
  | settle outcome proposals hpays hrow =>
    have hparts : (outcome ≠ .error ∧ outcome ≠ .priorAttemptIncompleteNotReplayed ∧
        (outcome = .alreadyGoverned → (attempts i).kind = .facets)) ∧
        proposals.fits (attempts i).kind (attempts i).source.taskId = true := by
      rcases hrow with hempty | hunavailable | hdecided
      · obtain ⟨rfl, rfl⟩ := Prod.mk.inj hempty
        exact ⟨⟨nofun, nofun, nofun⟩, emptyProposals_fits _⟩
      · obtain ⟨rfl, rfl⟩ := Prod.mk.inj hunavailable
        exact ⟨⟨nofun, nofun, nofun⟩, emptyProposals_fits _⟩
      · obtain ⟨rfl | ⟨rfl, hfacets⟩, hproposals⟩ := hfits.fast _ _ hdecided
        · exact ⟨⟨nofun, nofun, nofun⟩, hproposals⟩
        · exact ⟨⟨nofun, nofun, fun _ => hfacets⟩, hproposals⟩
    exact h.planRow_valid hplan (.inl rfl) hparts.1 hparts.2
  | answer outcome proposals hanswer =>
    obtain ⟨rfl | rfl, hproposals⟩ := hfits.propose _ _ hanswer
    · exact h.planRow_valid hplan (.inr rfl) ⟨nofun, nofun, nofun⟩ hproposals
    · exact h.planRow_valid hplan (.inr rfl) ⟨nofun, nofun, nofun⟩ hproposals
  | fail f hanswer => exact h.failures i f (.inr ⟨plan, hplan, .inr hanswer⟩)
  | raise f hdecided =>
    have hname := h.failures i f (.inr ⟨plan, hplan, .inl hdecided⟩)
    unfold raised
    split
    · trivial
    · exact hname
  | retry | unreadable | refused | badId | exists_ | writeFails => exact hnames _ (by simp)
  | freeAgain | free | start | curated | legacyRow | legacyClaim | claimed | pay | create | write | append | refuse |
    resolved | suppressed | die => trivial

namespace Readable
variable {initial : Memory}

theorem step (h : Readable env attempts s) (hrec : Recordable env attempts) (hsound : StewardsSound env attempts initial s)
    {action : StewardAction} (hstep : stewardStep env attempts s action = some s') : Readable env attempts s' := by
  obtain ⟨i, p', -, ⟨plan, hgo⟩ | hpass⟩ := stewardStep_cases hstep
  · constructor
    · have hvalid := fun {row} => @Recordable.writes_valid _ _ _ _ _ _ hrec hsound h hgo.planned row
      have hturn := hgo.turn
      generalize s'.memory = m' at hturn ⊢
      generalize s.phase i = p at hturn hvalid
      cases hturn with
      | append row r hwrites hread hmay => exact read_update h.read (hvalid hwrites) hmay
      | writeFails whole => cases whole <;> exact h.read
      | _ => exact h.read
    · intro j
      rw [hgo.phase]
      by_cases hij : j = i
      · subst hij
        rw [Function.update_self]
        exact hrec.turn_recorded hgo.planned hgo.turn
      · rw [Function.update_of_ne hij]
        exact h.phases j
  · constructor
    · rcases hpass.memory with hsame | ⟨e, he, -, hmay, hmemory⟩
      · rw [hsame]
        exact h.read
      · have hname := h.phases i
        rw [he] at hname
        rw [hmemory]
        exact read_update h.read (hrec.diagnosticRow_valid i hname) hmay
    · intro j
      rw [hpass.phase]
      by_cases hij : j = i
      · subst hij
        rw [Function.update_self]
        have hfree := hpass.free
        have hnamed := hpass.named
        cases p' with
        | start | done | dead => trivial
        | diagnosing e =>
          obtain ⟨f, hf, rfl⟩ := hnamed e rfl
          exact hrec.failures j f (.inl hf)
        | _ => cases hfree
      · rw [Function.update_of_ne hij]
        exact h.phases j

end Readable

theorem readable_run {initial : Memory} {actions : List StewardAction} (hrec : Recordable env attempts)
    (h : initial.Fresh env) (hrun : stewardRun env attempts { memory := initial } actions = some s) :
    Readable env attempts s := by
  have hread : ∀ kind, readCurationRows env kind (initial.ledgers kind) = some (initial.ledgers kind) := by
    intro kind
    obtain ⟨rows, hrows⟩ := Option.isSome_iff_exists.mp (h.read kind)
    rw [hrows, readCurationRows_eq hrows]
  refine (stewardRun_invariant (P := fun s => StewardsSound env attempts initial s ∧ Readable env attempts s) ?_ actions
    ⟨stewardsSound_start h, hread, fun _ => trivial⟩ hrun).2
  intro s action s' ⟨hsound, hreadable⟩ hstep
  exact ⟨hsound.step hstep, hreadable.step hrec hsound hstep⟩

/-! ## What is left of a lost attempt -/

theorem Recordable.claim_ok (h : Recordable env attempts) (hplan : (attempts i).plan? env = some plan)
    {plan' : StewardPlan} (hkind : (attempts j).kind = (attempts i).kind) (hkey : plan'.curationKey = plan.curationKey) :
    claimOk env (attempts j).text (attempts j).kind plan'.curationKey ((attempts i).claimOf env plan) = true := by
  have hfits := planFits hplan
  obtain ⟨hschema, hmodel, -, -⟩ := h.plan_parts hplan (.inr rfl)
  have hkeyText : validRequiredText 100 plan.curationKey = true := by
    rw [hfits.key]
    exact curationKeyOf_length (attempts i).kind plan.inputDigest (attempts i).source.taskId
  have hsource : validRequiredText 80 (curationSourceKey env (attempts i).source) = true :=
    required_append (env.source (attempts i).source) (by decide) (by decide)
  have hdigest : validRequiredText 64 plan.inputDigest.text = true := by
    have hempty := @required_append 64 "" plan.inputDigest (by decide) (by decide)
    rwa [String.empty_append] at hempty
  have hparser : validRequiredText 100 FINALIZE_STEWARD_PARSER = true := by decide
  have htask : ((attempts i).kind = .facets → (attempts i).source.taskId ≠ "") := hfits.task
  unfold claimOk
  rw [hkind, hkey]
  simp only [Bool.and_eq_true, decide_eq_true_eq]
  exact ⟨⟨⟨⟨⟨⟨⟨⟨⟨⟨⟨⟨⟨⟨⟨⟨rfl, rfl⟩, (h.ids i).1⟩, (h.ids i).2⟩, hsource⟩, hkeyText⟩, hdigest⟩, hschema⟩, hmodel⟩,
    hparser⟩, plan.inputDigest.valid⟩, h.schemas j _ _ hfits.schema⟩, h.stable i j⟩, h.parser j⟩, hfits.key.symm⟩, htask⟩, rfl⟩

/-- The attempt's run has a terminal row or a claim of the first version. -/
def FirstVersion (a : Attempt) (m : Memory) : Prop :=
  a.source.runId ≠ "" ∧
    ((∃ outcome, .legacy a.source.runId a.source.taskId outcome ∈ m.ledgers a.kind ∧ outcome ≠ .unavailable) ∨
      (m.files (a.kind, a.source.runId)).isSome = true)

theorem firstVersion_of_legacy (h : legacyCurationTerminal env a.kind (m.ledgers a.kind) a.source = some true) :
    FirstVersion a m := by
  unfold legacyCurationTerminal at h
  split at h
  · cases h
  · next hid =>
    obtain ⟨rows, hread, hany⟩ := Option.map_eq_some_iff.mp h
    obtain rfl := readCurationRows_eq hread
    obtain ⟨row, hrow, hlegacy⟩ := List.any_eq_true.mp hany
    cases row with
    | finalize | invocation => cases hlegacy
    | legacy runId taskId outcome =>
      simp only [Bool.and_eq_true, decide_eq_true_eq] at hlegacy
      obtain ⟨⟨rfl, rfl⟩, hterminal⟩ := hlegacy
      exact ⟨hid, .inl ⟨outcome, hrow, hterminal⟩⟩

theorem closed_of_curated {kind : StewardKind} {key : String}
    (h : alreadyCurated env kind (m.ledgers kind) key = some true) : Closed m (kind, key) := by
  obtain ⟨rows, hread, hany⟩ := Option.map_eq_some_iff.mp h
  obtain rfl := readCurationRows_eq hread
  obtain ⟨row, hrow, hterminal⟩ := List.any_eq_true.mp hany
  simp only [Bool.and_eq_true, decide_eq_true_eq] at hterminal
  exact ⟨row, hrow, hterminal⟩

def Memory.Grown (m m' : Memory) : Prop :=
  (∀ kind, ∃ tail, m'.ledgers kind = m.ledgers kind ++ tail) ∧ ∀ k, m'.files k = none → m.files k = none

theorem grown_append (m : Memory) (kind : StewardKind) (row : LedgerRow) :
    m.Grown { m with ledgers := Function.update m.ledgers kind (m.ledgers kind ++ [row]) } := by
  refine ⟨?_, fun _ hk => hk⟩
  intro kind'
  dsimp only
  by_cases hkind : kind' = kind
  · subst hkind
    exact ⟨[row], Function.update_self ..⟩
  · exact ⟨[], by rw [Function.update_of_ne hkind, List.append_nil]⟩

theorem Memory.Grown.refl (m : Memory) : m.Grown m := ⟨fun _ => ⟨[], (List.append_nil _).symm⟩, fun _ hk => hk⟩

theorem Turn.grown (h : Turn env a plan m p m' p') : m.Grown m' := by
  refine ⟨?_, fun k => h.files_kept⟩
  cases h with
  | append row => exact (grown_append m a.kind (.finalize row)).1
  | create | write => exact (Memory.Grown.refl m).1
  | writeFails whole => cases whole <;> exact (Memory.Grown.refl m).1
  | _ => exact (Memory.Grown.refl m).1

theorem Passes.grown (h : Passes env a s s' i p') : s.memory.Grown s'.memory := by
  rcases h.memory with hsame | ⟨e, -, -, -, hmemory⟩
  · rw [hsame]
    exact .refl _
  · rw [hmemory]
    exact grown_append ..

theorem Memory.Grown.closed (h : m.Grown m') (hclosed : Closed m k) : Closed m' k := by
  obtain ⟨row, hrow, hkey⟩ := hclosed
  obtain ⟨tail, htail⟩ := h.1 k.1
  refine ⟨row, ?_, hkey⟩
  rw [htail]
  unfold finalizeRows at hrow ⊢
  rw [List.filterMap_append]
  exact List.mem_append_left _ hrow

theorem Memory.Grown.firstVersion (h : m.Grown m') (hfirst : FirstVersion a m) : FirstVersion a m' := by
  obtain ⟨hid, ⟨outcome, hrow, hterminal⟩ | hfile⟩ := hfirst
  · obtain ⟨tail, htail⟩ := h.1 a.kind
    exact ⟨hid, .inl ⟨outcome, htail ▸ List.mem_append_left _ hrow, hterminal⟩⟩
  · refine ⟨hid, .inr ?_⟩
    cases hnew : m'.files (a.kind, a.source.runId) with
    | some file => rfl
    | none =>
      rw [h.2 _ hnew] at hfile
      cases hfile

theorem Turn.rows_new {kind : StewardKind} {row : CurationRow} (h : Turn env a plan m p m' p')
    (hrow : row ∈ finalizeRows (m'.ledgers kind)) :
    row ∈ finalizeRows (m.ledgers kind) ∨ kind = a.kind ∧ Writes env a plan p row := by
  cases h with
  | append written r hwrites =>
    dsimp only at hrow
    by_cases hkind : kind = a.kind
    · subst hkind
      rw [Function.update_self, finalizeRows_snoc] at hrow
      rcases List.mem_append.mp hrow with hold | hnew
      · exact .inl hold
      · obtain rfl := List.mem_singleton.mp hnew
        exact .inr ⟨rfl, hwrites⟩
    · rw [Function.update_of_ne hkind] at hrow
      exact .inl hrow
  | writeFails whole => cases whole <;> exact .inl hrow
  | _ => exact .inl hrow

def Phase.quiet : Phase → Bool
  | .start | .resolving false _ | .recovering _ | .diagnosing _ | .done _ | .dead => true
  | _ => false

/-- The row has the identity of the claim. -/
def CurationRow.IsOf (row : CurationRow) (claim : Claim) : Prop :=
  row.source = claim.source ∧ row.sourceKey = claim.sourceKey ∧ row.provenance = claim.provenance

/-- After the attempt of a claim is lost: its file stands, the provider is not asked again, and an attempt `b` on
the key ends only with the key closed. -/
structure Lost (env : CurationEnv) (attempts : Nat → Attempt) (k : StewardKind × String) (claim : Claim) (n b : Nat)
    (s : Stewards) : Prop where
  keyed : (attempts b).key? env = some k
  file : s.memory.files k = some (.record claim)
  asked : s.asked.count k = n
  quiet : ∀ j, (attempts j).key? env = some k → (s.phase j).quiet = true
  identity : ∀ row ∈ finalizeRows (s.memory.ledgers k.1), row.curationKey = k.2 → row.outcome ≠ .unavailable →
    row.IsOf claim
  later : ∀ r, s.phase b = .done r → Closed s.memory k ∨ FirstVersion (attempts b) s.memory
  sound : ∀ e, s.phase b ≠ .diagnosing e

namespace Lost
variable {initial : Memory} {claim : Claim} {lost : StewardPlan} {n b : Nat} {asked : List (StewardKind × String)}

theorem turn (h : Turn env a plan m p m' p') (hstands : Stands env a plan m asked p)
    (hfile : m.files (a.kind, plan.curationKey) = some (.record claim))
    (hclaim : claimOk env a.text a.kind plan.curationKey claim = true)
    (hread : readCurationRows env a.kind (m.ledgers a.kind) = some (m.ledgers a.kind)) (hquiet : p.quiet = true) :
    p'.quiet = true ∧ m'.files = m.files ∧
      (∀ r, p' = .done r → Closed m' (a.kind, plan.curationKey) ∨ FirstVersion a m') ∧ (∀ e, p' ≠ .diagnosing e) ∧
      ∀ row, Writes env a plan p row → row = a.recoveredRow env claim := by
  have hwrites : ∀ row, Writes env a plan p row → row = a.recoveredRow env claim := by
    intro row hrow
    cases hrow with
    | settling | answering | failing => cases hquiet
    | recovering found =>
      have hfound := hstands.2.1.symm.trans hfile
      rw [Option.some.injEq, ClaimFile.record.injEq] at hfound
      rw [hfound]
  have hclosedBy : ∀ row ∈ finalizeRows (m'.ledgers a.kind), row.curationKey = plan.curationKey →
      row.outcome ≠ .unavailable → Closed m' (a.kind, plan.curationKey) := fun row hrow hkey hterminal => ⟨row, hrow, hkey, hterminal⟩
  cases h with
  | start => exact ⟨rfl, rfl, nofun, nofun, hwrites⟩
  | curated again | legacyRow again | legacyClaim again =>
    cases again with
    | true => cases hquiet
    | false => exact ⟨rfl, rfl, nofun, nofun, hwrites⟩
  | free hnone =>
    rw [hfile] at hnone
    cases hnone
  | claimed again found => exact ⟨rfl, rfl, nofun, nofun, hwrites⟩
  | append row r hrow =>
    have hkey := hrow.key hstands
    obtain rfl := hwrites row hrow
    refine ⟨rfl, rfl, fun _ _ => .inl ?_, nofun, hwrites⟩
    refine ⟨a.recoveredRow env claim, ?_, hkey, nofun⟩
    dsimp only
    rw [Function.update_self, finalizeRows_snoc]
    exact List.mem_append_right _ (List.mem_singleton_self _)
  | refuse row r hrow hmay =>
    have hkey := hrow.key hstands
    obtain rfl := hwrites row hrow
    refine ⟨rfl, rfl, fun _ _ => .inl ?_, nofun, hwrites⟩
    unfold mayFollow at hmay
    rw [Bool.not_eq_false', List.any_eq_true] at hmay
    obtain ⟨prior, hprior, hsame⟩ := hmay
    rw [Bool.and_eq_true, decide_eq_true_eq, Bool.or_eq_true, decide_eq_true_eq] at hsame
    rcases hsame.2 with hterminal | hunavailable
    · exact hclosedBy prior hprior (hsame.1.trans hkey) hterminal
    · rw [Bool.and_eq_true, decide_eq_true_eq] at hunavailable
      cases hunavailable.1
  | resolved again hcurated => exact ⟨rfl, rfl, fun _ _ => .inl (closed_of_curated hcurated), nofun, hwrites⟩
  | suppressed again check hcheck hfirst =>
    refine ⟨rfl, rfl, fun _ _ => .inr ?_, nofun, hwrites⟩
    rcases hfirst with hrow | ⟨hid, hfound⟩
    · exact firstVersion_of_legacy hrow
    · exact ⟨hid, .inr hfound⟩
  | unreadable hnone =>
    rw [hread] at hnone
    cases hnone
  | refused again file hfound hrefused =>
    obtain rfl := Option.some.inj (hfile.symm.trans hfound)
    unfold readCurationClaim at hrefused
    dsimp only at hrefused
    rw [if_pos hclaim] at hrefused
    cases hrefused
  | die => exact ⟨rfl, rfl, nofun, nofun, hwrites⟩
  | _ => cases hquiet

theorem goes (h : Lost env attempts ((attempts j).kind, lost.curationKey) ((attempts j).claimOf env lost) n b s)
    (hlost : (attempts j).plan? env = some lost) (hrec : Recordable env attempts)
    (hsound : StewardsSound env attempts initial s) (hreadable : Readable env attempts s)
    (hgo : Goes env (attempts i) plan s s' i p') :
    Lost env attempts ((attempts j).kind, lost.curationKey) ((attempts j).claimOf env lost) n b s' := by
  have hstands := hsound.stands hgo.planned
  have hkey := key_of_plan hgo.planned
  by_cases hk : ((attempts j).kind, lost.curationKey) = ((attempts i).kind, plan.curationKey)
  · rw [← hk] at hkey
    have hquiet := h.quiet i hkey
    have hclaim : claimOk env (attempts i).text (attempts i).kind plan.curationKey ((attempts j).claimOf env lost) = true :=
      hrec.claim_ok hlost (Prod.mk.inj hk).1.symm (Prod.mk.inj hk).2.symm
    obtain ⟨hquiet', hfiles, hdone, hnever, hrow⟩ :=
      turn hgo.turn hstands (hk ▸ h.file) hclaim (hreadable.read _) hquiet
    rw [← hk] at hdone
    constructor
    · exact h.keyed
    · rw [hfiles]
      exact h.file
    · rcases hgo.asked with hsame | ⟨hasking, -⟩
      · rw [hsame]
        exact h.asked
      · rw [hasking] at hquiet
        cases hquiet
    · intro l hl
      rw [hgo.phase]
      by_cases hil : l = i
      · rw [hil, Function.update_self]
        exact hquiet'
      · rw [Function.update_of_ne hil]
        exact h.quiet l hl
    · intro row hmem hrowKey hterminal
      rcases hgo.turn.rows_new hmem with hold | ⟨-, hwrites⟩
      · exact h.identity row hold hrowKey hterminal
      · rw [hrow row hwrites]
        exact ⟨rfl, rfl, rfl⟩
    · intro r hr
      rw [hgo.phase] at hr
      by_cases hib : b = i
      · rw [hib, Function.update_self] at hr
        rw [hib]
        exact hdone r hr
      · rw [Function.update_of_ne hib] at hr
        exact (h.later r hr).imp hgo.turn.grown.closed hgo.turn.grown.firstVersion
    · intro e he
      rw [hgo.phase] at he
      by_cases hib : b = i
      · rw [hib, Function.update_self] at he
        exact hnever e he
      · rw [Function.update_of_ne hib] at he
        exact h.sound e he
  · have hother : ∀ l, (attempts l).key? env = some ((attempts j).kind, lost.curationKey) → l ≠ i := by
      rintro l hl rfl
      exact hk (Option.some.inj (hl.symm.trans hkey))
    have hb := hother b h.keyed
    constructor
    · exact h.keyed
    · rw [hgo.turn.files_other hk]
      exact h.file
    · rcases hgo.asked with hsame | ⟨-, hasked⟩
      · rw [hsame]
        exact h.asked
      · rw [hasked, List.count_cons_of_ne (Ne.symm hk)]
        exact h.asked
    · intro l hl
      rw [hgo.phase, Function.update_of_ne (hother l hl)]
      exact h.quiet l hl
    · intro row hmem hrowKey hterminal
      rcases hgo.turn.rows_new hmem with hold | ⟨hkind, hwrites⟩
      · exact h.identity row hold hrowKey hterminal
      · exact absurd (Prod.ext hkind (hrowKey.symm.trans (hwrites.key hstands))) hk
    · intro r hr
      rw [hgo.phase, Function.update_of_ne hb] at hr
      exact (h.later r hr).imp hgo.turn.grown.closed hgo.turn.grown.firstVersion
    · intro e he
      rw [hgo.phase, Function.update_of_ne hb] at he
      exact h.sound e he

theorem passes (h : Lost env attempts ((attempts j).kind, lost.curationKey) claim n b s)
    (hlost : (attempts j).plan? env = some lost) (hpass : Passes env (attempts i) s s' i p') :
    Lost env attempts ((attempts j).kind, lost.curationKey) claim n b s' := by
  have hb : b ≠ i := by
    rintro rfl
    rcases hpass.before with ⟨e, he⟩ | hnone
    · exact h.sound e he
    · have hkeyed := h.keyed
      rw [key_none hnone] at hkeyed
      cases hkeyed
  have hfree : p'.quiet = true := by
    have hfree := hpass.free
    cases p' with
    | start | diagnosing | done | dead => rfl
    | _ => cases hfree
  constructor
  · exact h.keyed
  · rcases hpass.memory with hsame | ⟨e, -, -, -, hmemory⟩
    · rw [hsame]
      exact h.file
    · rw [hmemory]
      exact h.file
  · rw [hpass.asked]
    exact h.asked
  · intro l hl
    rw [hpass.phase]
    by_cases hil : l = i
    · rw [hil, Function.update_self]
      exact hfree
    · rw [Function.update_of_ne hil]
      exact h.quiet l hl
  · intro row hmem hkey hterminal
    rcases hpass.memory with hsame | ⟨e, -, -, -, hmemory⟩
    · rw [hsame] at hmem
      exact h.identity row hmem hkey hterminal
    · rw [hmemory] at hmem
      dsimp only at hmem
      by_cases hkind : (attempts j).kind = (attempts i).kind
      · rw [hkind, Function.update_self, finalizeRows_snoc] at hmem
        rcases List.mem_append.mp hmem with hold | hnew
        · exact h.identity row (hkind ▸ hold) hkey hterminal
        · obtain rfl := List.mem_singleton.mp hnew
          refine absurd hkey.symm ?_
          have hdiagnostic := key_ne_diagnostic hlost (attempts i).source
          rw [hkind] at hdiagnostic
          exact hdiagnostic
      · rw [Function.update_of_ne hkind] at hmem
        exact h.identity row hmem hkey hterminal
  · intro r hr
    rw [hpass.phase, Function.update_of_ne hb] at hr
    exact (h.later r hr).imp hpass.grown.closed hpass.grown.firstVersion
  · intro e he
    rw [hpass.phase, Function.update_of_ne hb] at he
    exact h.sound e he

theorem start (hsound : StewardsSound env attempts initial s) (hlost : (attempts j).plan? env = some lost)
    (hpaid : s.phase j = .asking ∨ (∃ row, s.phase j = .answering row) ∨ ∃ f, s.phase j = .failing f)
    (hstep : stewardStep env attempts s (.die j) = some s')
    (hb : (attempts b).key? env = some ((attempts j).kind, lost.curationKey)) (hstart : s'.phase b = .start) :
    Lost env attempts ((attempts j).kind, lost.curationKey) ((attempts j).claimOf env lost)
      (s'.asked.count ((attempts j).kind, lost.curationKey)) b s' := by
  have hstands := hsound.stands hlost
  have hlocked : (s.phase j).locked = true := by
    rcases hpaid with h | ⟨row, h⟩ | ⟨f, h⟩ <;> rw [h] <;> rfl
  have hknown : ¬Closed s.memory ((attempts j).kind, lost.curationKey) ∧
      s.memory.files ((attempts j).kind, lost.curationKey) = some (.record ((attempts j).claimOf env lost)) := by
    rcases hpaid with h | ⟨row, h⟩ | ⟨f, h⟩ <;> rw [h] at hstands
    · exact ⟨hstands.1, hstands.2.2.1⟩
    · exact ⟨hstands.1, hstands.2.2.1⟩
    · exact ⟨hstands.1, hstands.2.2⟩
  have hmoved : s'.memory = s.memory ∧ s'.phase = Function.update s.phase j .dead := by
    have hstep : s.move j ((attempts j).key? env) s.memory .dead = some s' := by
      unfold stewardStep at hstep
      dsimp only at hstep
      rcases hpaid with h | ⟨row, h⟩ | ⟨f, h⟩ <;> rw [h] at hstep <;> exact hstep
    rw [key_of_plan hlost] at hstep
    exact ⟨(move_eq hstep).1, (move_eq hstep).2.1⟩
  constructor
  · exact hb
  · rw [hmoved.1]
    exact hknown.2
  · rfl
  · intro l hl
    rw [hmoved.2]
    by_cases hlj : l = j
    · rw [hlj, Function.update_self]
      rfl
    · rw [Function.update_of_ne hlj]
      cases hheld : (s.phase l).locked with
      | true =>
        obtain ⟨plan, hplan, hlock, -⟩ := hsound.lock l hheld
        have hk := Option.some.inj ((key_of_plan hplan).symm.trans hl)
        rw [hk, hsound.holds hlost hlocked] at hlock
        exact absurd (Option.some.inj hlock).symm hlj
      | false =>
        cases hphase : s.phase l with
        | start | diagnosing | done | dead => rfl
        | _ =>
          rw [hphase] at hheld
          cases hheld
  · intro row hrow hkey hterminal
    rw [hmoved.1] at hrow
    exact absurd ⟨row, hrow, hkey, hterminal⟩ hknown.1
  · intro r hr
    rw [hstart] at hr
    cases hr
  · intro e he
    rw [hstart] at he
    cases he

end Lost

theorem lost_run {initial : Memory} {lost : StewardPlan} {n b : Nat} {actions : List StewardAction}
    (hrec : Recordable env attempts) (hlost : (attempts j).plan? env = some lost)
    (hsound : StewardsSound env attempts initial s) (hreadable : Readable env attempts s)
    (h : Lost env attempts ((attempts j).kind, lost.curationKey) ((attempts j).claimOf env lost) n b s)
    (hrun : stewardRun env attempts s actions = some s') :
    Lost env attempts ((attempts j).kind, lost.curationKey) ((attempts j).claimOf env lost) n b s' := by
  refine (stewardRun_invariant (P := fun s => StewardsSound env attempts initial s ∧ Readable env attempts s ∧
    Lost env attempts ((attempts j).kind, lost.curationKey) ((attempts j).claimOf env lost) n b s) ?_ actions
    ⟨hsound, hreadable, h⟩ hrun).2.2
  intro s action s' ⟨hsound, hreadable, h⟩ hstep
  refine ⟨hsound.step hstep, hreadable.step hrec hsound hstep, ?_⟩
  obtain ⟨i, p', -, ⟨plan, hgo⟩ | hpass⟩ := stewardStep_cases hstep
  · exact h.goes hlost hrec hsound hreadable hgo
  · exact h.passes hlost hpass

theorem files_kept_of_not_pays {initial : Memory} {action : StewardAction} (hsound : StewardsSound env attempts initial s)
    (hpays : ¬Pays env (attempts action.attempt)) (hstep : stewardStep env attempts s action = some s') :
    s'.memory.files = s.memory.files := by
  obtain ⟨i, p', rfl, ⟨plan, hgo⟩ | hpass⟩ := stewardStep_cases hstep
  · have hstands := hsound.stands hgo.planned
    have hturn := hgo.turn
    generalize s'.memory = m' at hturn ⊢
    generalize s.phase action.attempt = p at hturn hstands
    cases hturn with
    | create => exact absurd hstands.2 hpays
    | write | writeFails => exact absurd hstands.2.1 hpays
    | _ => rfl
  · rcases hpass.memory with hsame | ⟨e, -, -, -, hmemory⟩
    · rw [hsame]
    · rw [hmemory]

/-! ## The promise -/

/-- In every run the provider is asked at most once for a key, nothing stands after the one terminal row of a
key, and an attempt that does not pay leaves no claim. Where the records are ones that their readers take, an
attempt that comes after the loss of a paid one ends with the key closed under the identity of the claim, and
the provider is not asked again, but where the first version of the ledger has settled the attempt's run. -/
theorem stewards_pay_once {initial : Memory} {actions : List StewardAction} (hfresh : initial.Fresh env)
    (hrun : stewardRun env attempts { memory := initial } actions = some s) :
    (∀ k, s.asked.count k ≤ 1) ∧
      (∀ kind, (finalizeRows (s.memory.ledgers kind)).Pairwise fun row later =>
        row.curationKey = later.curationKey → row.outcome = .unavailable) ∧
      (∀ action s', ¬Pays env (attempts action.attempt) → stewardStep env attempts s action = some s' →
        s'.memory.files = s.memory.files) ∧
      (Recordable env attempts → ∀ j lost s₁ later b s₂ r, (attempts j).plan? env = some lost →
        (s.phase j = .asking ∨ (∃ row, s.phase j = .answering row) ∨ ∃ f, s.phase j = .failing f) →
        stewardStep env attempts s (.die j) = some s₁ → stewardRun env attempts s₁ later = some s₂ →
        (attempts b).key? env = some ((attempts j).kind, lost.curationKey) → s₁.phase b = .start →
        s₂.phase b = .done r → ¬FirstVersion (attempts b) s₂.memory →
        s₂.asked.count ((attempts j).kind, lost.curationKey) = s₁.asked.count ((attempts j).kind, lost.curationKey) ∧
          ∃ row ∈ finalizeRows (s₂.memory.ledgers (attempts j).kind), row.curationKey = lost.curationKey ∧
            row.outcome ≠ .unavailable ∧ row.IsOf ((attempts j).claimOf env lost)) := by
  have hsound := stewardsSound_run hfresh hrun
  refine ⟨hsound.asked, ?_, fun action s' => files_kept_of_not_pays hsound, ?_⟩
  · intro kind
    refine (hsound.rows kind).pairwise ?_
    intro before row hmay prior hprior hkey
    unfold mayFollow at hmay
    rw [Bool.not_eq_true', List.any_eq_false] at hmay
    have hnone := hmay prior hprior
    simp only [hkey, decide_true, Bool.true_and, Bool.or_eq_true, decide_eq_true_eq] at hnone
    by_contra hterminal
    exact hnone (.inl hterminal)
  · intro hrec j lost s₁ later b s₂ r hlost hpaid hdie hlater hkeyed hstart hdone hfirst
    have hreadable := readable_run hrec hfresh hrun
    have h₁ := Lost.start hsound hlost hpaid hdie hkeyed hstart
    have h₂ := lost_run hrec hlost (hsound.step hdie) (hreadable.step hrec hsound hdie) h₁ hlater
    refine ⟨h₂.asked, ?_⟩
    rcases h₂.later r hdone with ⟨row, hrow, hkey, hterminal⟩ | hsettled
    · exact ⟨row, hrow, hkey, hterminal, h₂.identity row hrow hkey hterminal⟩
    · exact absurd hsettled hfirst

/-! ## A lost attempt -/

/-- Redaction of texts without secrets, where the only text ever cut is the one of 201 letters. -/
def modelText : TextEnv where
  nfkc := id
  control := fun ch => ch.toNat < 32 || ch.toNat = 127
  word := fun ch => isAlnum ch || Redact.among ['_'] ch
  lower := fun cs => cs.map Py.lowerChar
  sha256 := fun _ => "91c7bc42a3b0d4b9d7da55555744653dce2cc5aeacd44a046889306964a558ff".toList
  entropic := fun _ => false
  secrets := []
  render := fun _ => ""

def twoRuns : CurationEnv where
  source source :=
    if source.runId = "run-a" then
      ⟨"a3f98b5cfa09cf2c11b9436c8dc9469a5a4eb916ff453811c7c659d9e419585b", by decide +kernel⟩
    else ⟨"2f26bbd95812386f2b7022fda9016081c65cc55583a0737e2e2f36b56a113a32", by decide +kernel⟩
  task _ := ⟨"9dae953a3d21c6cdc03352d55ce56a84a1d6a13cf0103c12070656fba0c424f0", by decide +kernel⟩

/-- The digest of the portfolio both runs find. -/
def portfolio : HexDigest := ⟨"16a0eeb0791b6c92451fd284dd9f599e0a7dbe7f6ebea6e2d2d06c7f74aec112", by decide +kernel⟩

/-- The first attempt is of one run and every other one of another, all on one portfolio. -/
def conceptAttempt (model : String) (i : Nat) : Attempt where
  source := { runId := if i = 0 then "run-a" else "run-b", taskId := "task", finishSeq := some 1 }
  input := .concept (.ok (portfolio, true)) (.ok ([], [], []))
  client := some model
  text := modelText

def emptyMemory : Memory where
  ledgers _ := []
  files _ := none

/-- The first attempt asks its provider. -/
def paidFirst : List StewardAction := List.replicate 13 (.advance 0)

/-- A later attempt comes to the claim. -/
def toClaim : List StewardAction := List.replicate 4 (.advance 1)

/-- A later attempt goes on to its end. -/
def recovery : List StewardAction := toClaim ++ [.advance 1, .advance 1]

theorem emptyMemory_fresh (env : CurationEnv) : emptyMemory.Fresh env where
  read _ := rfl
  files _ _ := nofun

theorem recordedModel_plain (i : Nat) (client : Option String) (h : client = none ∨ client = some "qwen3:8b") :
    (conceptAttempt "qwen3:8b" i).recordedModel client = client.getD "unknown" := by
  have hplain : ∀ model ∈ ["unknown", "qwen3:8b"], recorded modelText 200 model = model := by decide +kernel
  unfold Attempt.recordedModel
  have htext : (conceptAttempt "qwen3:8b" i).text = modelText := rfl
  rw [htext]
  rcases h with rfl | rfl
  · have hclient : (if (none : Option String).getD "" = "" then "unknown" else (none : Option String).getD "") = "unknown" := by
      decide
    rw [hclient, hplain "unknown" (.head _)]
    rfl
  · have hclient : (if (some "qwen3:8b").getD "" = "" then "unknown" else (some "qwen3:8b").getD "") = "qwen3:8b" := by
      decide
    rw [hclient, hplain "qwen3:8b" (.tail _ (.head _))]
    rfl

theorem recordable_plain : Recordable twoRuns (conceptAttempt "qwen3:8b") where
  ids i := by
    by_cases hi : i = 0
    · subst hi
      decide +kernel
    · unfold conceptAttempt
      rw [if_neg hi]
      decide +kernel
  printable i client hclient := by
    rw [recordedModel_plain i client hclient]
    have hplain : ∀ model ∈ ["unknown", "qwen3:8b"], Engine.printable model = true := by decide +kernel
    rcases hclient with rfl | rfl
    · exact hplain "unknown" (.head _)
    · exact hplain "qwen3:8b" (.tail _ (.head _))
  stable i j := by
    have hclient : (conceptAttempt "qwen3:8b" i).client = some "qwen3:8b" := rfl
    have hplain : recorded modelText 200 "qwen3:8b" = "qwen3:8b" := by decide +kernel
    rw [hclient, recordedModel_plain i _ (.inr rfl)]
    exact hplain
  schemas j kind := by
    have h : ∀ kind, ∀ schema ∈ FINALIZE_INPUT_SCHEMAS kind, recorded modelText 200 schema = schema := by
      intro kind
      cases kind <;> decide +kernel
    exact h kind
  parser j := by
    have h : recorded modelText 100 FINALIZE_STEWARD_PARSER = FINALIZE_STEWARD_PARSER := by decide +kernel
    exact h
  failures i f hf := by
    rcases hf with hf | ⟨plan, hplan, hf⟩
    · cases hf
    · obtain rfl := Option.some.inj hplan
      rcases hf with hf | hf <;> cases hf
  tasks i j _ := rfl
/-- The first attempt asks its provider and dies; the second finds its claim, goes where `read` says and then on to
the result, and the key is closed or not. -/
def lostWalk (model : String) (read : Claim → Phase) (result : Result) (closed : Bool) : Bool :=
  let attempts := conceptAttempt model
  (stewardRun twoRuns attempts { memory := emptyMemory } paidFirst).any fun s =>
    (match s.phase 0 with | .answering _ => true | _ => false) &&
      (stewardStep twoRuns attempts s (.die 0)).any fun s₁ =>
        (match s₁.phase 1 with | .start => true | _ => false) &&
          (stewardRun twoRuns attempts s₁ toClaim).any fun s₂ =>
            (match s₂.phase 1 with | .resolving false .claim => true | _ => false) &&
              (match s₂.memory.files (.concept, portfolioCurationKey .concept portfolio.text) with
              | some (.record claim) =>
                (s₂.move 1 ((attempts 1).key? twoRuns) s₂.memory (read claim)).any fun s₃ =>
                  (stewardStep twoRuns attempts s₃ (.advance 1)).any fun s₄ =>
                    (match s₄.phase 1 with | .done found => found = result | _ => false) &&
                      (s₄.memory.files (.concept, "run-b")).isNone &&
                      (s₄.memory.ledgers .concept).all (fun | .legacy _ _ _ => false | _ => true) &&
                      (finalizeRows (s₄.memory.ledgers .concept)).any (fun row =>
                        row.curationKey = portfolioCurationKey .concept portfolio.text && row.outcome ≠ .unavailable) =
                          closed
              | _ => false)

/-- Where the second attempt goes after the claim it read. -/
def afterClaim (claim : Option Claim) : Phase :=
  match claim with
  | none => .diagnosing "ValueError"
  | some claim => .recovering claim

theorem step_claim {env : CurationEnv} {attempts : Nat → Attempt} {s : Stewards} {i : Nat} {plan : StewardPlan}
    {claim : Claim} {again : Bool} (hphase : s.phase i = .resolving again .claim)
    (hplan : (attempts i).plan? env = some plan)
    (hfile : s.memory.files ((attempts i).kind, plan.curationKey) = some (.record claim)) :
    stewardStep env attempts s (.advance i) = s.move i ((attempts i).key? env) s.memory
      (afterClaim (readCurationClaim env (attempts i).text (attempts i).kind plan.curationKey (.record claim))) := by
  have hresolving : resolving env (attempts i) s.memory plan again .claim =
      afterClaim (readCurationClaim env (attempts i).text (attempts i).kind plan.curationKey (.record claim)) := by
    unfold resolving
    dsimp only
    rw [hfile]
    rfl
  unfold stewardStep next
  dsimp only
  rw [hphase, hplan, ← hresolving]
  rfl

theorem lostWalk_spec {model : String} {read : Claim → Phase} {result : Result} {closed : Bool}
    (hread : ∀ j plan, (conceptAttempt model j).plan? twoRuns = some plan →
      plan.curationKey = portfolioCurationKey .concept portfolio.text →
      afterClaim (readCurationClaim twoRuns modelText .concept (portfolioCurationKey .concept portfolio.text)
        (.record ((conceptAttempt model j).claimOf twoRuns plan))) = read ((conceptAttempt model j).claimOf twoRuns plan))
    (h : lostWalk model read result closed = true) :
    ∃ s s₁ s₂, stewardRun twoRuns (conceptAttempt model) { memory := emptyMemory } paidFirst = some s ∧
      (∃ row, s.phase 0 = .answering row) ∧ stewardStep twoRuns (conceptAttempt model) s (.die 0) = some s₁ ∧
      s₁.phase 1 = .start ∧ stewardRun twoRuns (conceptAttempt model) s₁ recovery = some s₂ ∧
      s₂.phase 1 = .done result ∧ ¬FirstVersion (conceptAttempt model 1) s₂.memory ∧
      (Closed s₂.memory (.concept, portfolioCurationKey .concept portfolio.text) ↔ closed = true) := by
  unfold lostWalk at h
  obtain ⟨s, hs, h⟩ := (Option.any_eq_true _ _).mp h
  rw [Bool.and_eq_true] at h
  obtain ⟨hpaid, h⟩ := h
  obtain ⟨s₁, hs₁, h⟩ := (Option.any_eq_true _ _).mp h
  rw [Bool.and_eq_true] at h
  obtain ⟨hstart, h⟩ := h
  obtain ⟨s₂, hs₂, h⟩ := (Option.any_eq_true _ _).mp h
  rw [Bool.and_eq_true] at h
  obtain ⟨hphase, h⟩ := h
  split at hphase
  case h_2 => cases hphase
  case h_1 hresolving =>
  split at h
  case h_2 => cases h
  case h_1 claim hclaim =>
  obtain ⟨s₃, hs₃, h⟩ := (Option.any_eq_true _ _).mp h
  obtain ⟨s₄, hs₄, h⟩ := (Option.any_eq_true _ _).mp h
  simp only [Bool.and_eq_true, decide_eq_true_eq] at h
  obtain ⟨⟨⟨hdone, hfile⟩, hrows⟩, hclosed⟩ := h
  have hsound := stewardRun_invariant (fun _ _ _ hs hstep => hs.step hstep) _
    ((stewardsSound_run (emptyMemory_fresh twoRuns) hs).step hs₁) hs₂
  obtain ⟨j, plan, hplan, hkey, rfl⟩ := hsound.records _ claim hclaim
  have hnext : stewardStep twoRuns (conceptAttempt model) s₂ (.advance 1) = some s₃ := by
    obtain ⟨later, hlater, hkeyed⟩ : ∃ later, (conceptAttempt model 1).plan? twoRuns = some later ∧
        later.curationKey = portfolioCurationKey .concept portfolio.text := ⟨_, rfl, rfl⟩
    rw [← hkeyed] at hclaim
    rw [step_claim hresolving hlater hclaim, hkeyed]
    exact (congrArg _ (hread j plan hplan (Prod.mk.inj hkey).2.symm)).trans hs₃
  have hrecovery : stewardRun twoRuns (conceptAttempt model) s₁ recovery = some s₄ := by
    unfold stewardRun at hs₂ ⊢
    unfold recovery
    rw [List.foldlM_append, hs₂]
    change (stewardStep _ _ s₂ (.advance 1)).bind _ = _
    rw [hnext]
    change (stewardStep _ _ s₃ (.advance 1)).bind _ = _
    rw [hs₄]
    rfl
  refine ⟨s, s₁, s₄, hs, ?_, hs₁, ?_, hrecovery, ?_, ?_, ?_⟩
  · split at hpaid
    · next row hrow => exact ⟨row, hrow⟩
    · cases hpaid
  · split at hstart
    · next hphase => exact hphase
    · cases hstart
  · split at hdone
    · next found hphase =>
      rw [decide_eq_true_eq] at hdone
      rw [hphase, hdone]
    · cases hdone
  · rintro ⟨-, ⟨outcome, hrow, -⟩ | hsome⟩
    · cases (List.all_eq_true.mp hrows) _ hrow
    · rw [Option.isNone_iff_eq_none] at hfile
      have hsome : (s₄.memory.files (.concept, "run-b")).isSome = true := hsome
      rw [hfile] at hsome
      cases hsome
  · rw [← hclosed]
    unfold Closed
    simp [List.any_eq_true]

theorem plain_walk : lostWalk "qwen3:8b" .recovering .alreadyResolved true = true := by decide +kernel

theorem plain_read {j : Nat} {plan : StewardPlan} (hplan : (conceptAttempt "qwen3:8b" j).plan? twoRuns = some plan)
    (hkey : plan.curationKey = portfolioCurationKey .concept portfolio.text) :
    afterClaim (readCurationClaim twoRuns modelText .concept (portfolioCurationKey .concept portfolio.text)
      (.record ((conceptAttempt "qwen3:8b" j).claimOf twoRuns plan))) =
        .recovering ((conceptAttempt "qwen3:8b" j).claimOf twoRuns plan) := by
  have hkind : (conceptAttempt "qwen3:8b" j).kind = (conceptAttempt "qwen3:8b" j).kind := rfl
  have hok := recordable_plain.claim_ok hplan hkind (Eq.refl plan.curationKey)
  change claimOk twoRuns modelText .concept plan.curationKey _ = true at hok
  unfold readCurationClaim
  dsimp only
  rw [← hkey, if_pos hok]
  rfl

theorem stewards_pay_once_plain :
    ∃ s s₁ s₂, stewardRun twoRuns (conceptAttempt "qwen3:8b") { memory := emptyMemory } paidFirst = some s ∧
      stewardStep twoRuns (conceptAttempt "qwen3:8b") s (.die 0) = some s₁ ∧
      stewardRun twoRuns (conceptAttempt "qwen3:8b") s₁ recovery = some s₂ ∧
      s₂.asked.count (.concept, portfolioCurationKey .concept portfolio.text) =
        s₁.asked.count (.concept, portfolioCurationKey .concept portfolio.text) ∧
      Closed s₂.memory (.concept, portfolioCurationKey .concept portfolio.text) := by
  obtain ⟨s, s₁, s₂, hs, hpaid, hdie, hstart, hlater, hdone, hfirst, -⟩ :=
    lostWalk_spec (fun _ _ => plain_read) plain_walk
  obtain ⟨hasked, row, hrow, hkey, hterminal, -⟩ :=
    (stewards_pay_once (emptyMemory_fresh twoRuns) hs).2.2.2 recordable_plain 0 _ s₁ recovery 1 s₂ .alreadyResolved rfl
      (.inr (.inl hpaid)) hdie hlater rfl hstart hdone hfirst
  exact ⟨s, s₁, s₂, hs, hdie, hlater, hasked, row, hrow, hkey, hterminal⟩

/-- A name of 201 letters. -/
def overlong : String := String.ofList (List.replicate 201 'm')

theorem overlong_refused (i : Nat) (curationKey : String) (plan : StewardPlan) :
    readCurationClaim twoRuns modelText .concept curationKey
      (.record ((conceptAttempt overlong i).claimOf twoRuns plan)) = none := by
  have hcut : (Redact.boundedRedactedText modelText (Redact.cleaned modelText true (List.replicate 201 'm')) 200).all
      (32 ≤ ·.toNat) = false := by
    have hclean : Redact.cleaned modelText true (List.replicate 201 'm') = List.replicate 201 'm' := by decide +kernel
    rw [hclean]
    decide +kernel
  have hmodel : printable ((conceptAttempt overlong i).recordedModel
      (some overlong)) = false := by
    have hsome : ¬(overlong = "") := by
      intro h
      have := congrArg String.toList h
      unfold overlong at this
      rw [String.toList_ofList] at this
      cases this
    have hrecorded : recorded modelText 200 overlong =
        String.ofList (Redact.boundedRedactedText modelText (Redact.cleaned modelText true (List.replicate 201 'm')) 200) := by
      unfold recorded Redact.redactPersistedText Redact.persistedInput overlong
      rw [String.toList_ofList]
    unfold Attempt.recordedModel
    dsimp only [Option.getD_some]
    rw [if_neg hsome]
    change printable (if recorded modelText 200 _ = "" then "unknown" else recorded modelText 200 _) = false
    rw [hrecorded, if_neg]
    · unfold printable
      rw [String.toList_ofList]
      exact hcut
    · intro h
      have := congrArg String.toList h
      rw [String.toList_ofList] at this
      rw [this] at hcut
      cases hcut
  have hrequired : validRequiredText 200 ((conceptAttempt overlong i).claimOf twoRuns
      plan).provenance.model = false := by
    unfold validRequiredText
    exact Bool.and_eq_false_iff.mpr (.inr hmodel)
  unfold readCurationClaim
  dsimp only
  rw [if_neg]
  unfold claimOk
  rw [hrequired]
  simp only [Bool.and_false, Bool.false_and, Bool.false_eq_true, not_false_eq_true]

theorem overlong_walk : lostWalk overlong (fun _ => .diagnosing "ValueError") .error false = true := by decide +kernel

/-- A name of 201 letters is cut before a note on a line of its own, and no reader takes the claim it is in. -/
theorem overlong_model_never_closed :
    ∃ s s₁ s₂, stewardRun twoRuns (conceptAttempt (String.ofList (List.replicate 201 'm'))) { memory := emptyMemory }
        paidFirst = some s ∧
      (∃ row, s.phase 0 = .answering row) ∧
      stewardStep twoRuns (conceptAttempt (String.ofList (List.replicate 201 'm'))) s (.die 0) = some s₁ ∧
      s₁.phase 1 = .start ∧
      stewardRun twoRuns (conceptAttempt (String.ofList (List.replicate 201 'm'))) s₁ recovery = some s₂ ∧
      s₂.phase 1 = .done .error ∧
      ¬FirstVersion (conceptAttempt (String.ofList (List.replicate 201 'm')) 1) s₂.memory ∧
      ¬Closed s₂.memory (.concept, portfolioCurationKey .concept portfolio.text) := by
  have hlong : String.ofList (List.replicate 201 'm') = overlong := rfl
  rw [hlong]
  obtain ⟨s, s₁, s₂, hs, hpaid, hdie, hstart, hlater, hdone, hfirst, hclosed⟩ :=
    lostWalk_spec (fun j plan _ _ => congrArg afterClaim (overlong_refused j _ plan)) overlong_walk
  refine ⟨s, s₁, s₂, hs, hpaid, hdie, hstart, hlater, hdone, hfirst, ?_⟩
  intro h
  cases hclosed.mp h

end LoopLab.Engine
