import LoopLab.Serve.PaidLedger

/-!
# Paid once

The pass over a log keeps one account for each identity, fed by the rows of that identity alone.
-/

set_option autoImplicit false

namespace LoopLab.Serve
open Lib

section Accounts
variable (spec : PaidLedgerSpec) (generation identity : String)

/-- A row as a row of the identity's account. -/
def receiptOf (event : Event) : Option (Receipt (Option String) Event) :=
  (ledgerKey spec generation event).bind fun key =>
    if key.1 = identity then
      if event.type = spec.claimType then some (.claim key.2)
      else if spec.terminalTypes.contains event.type then some (.terminal key.2 event)
      else none
    else none

/-- The rows of the identity that are well formed and of the generation. -/
def receipts (events : List Event) : List (Receipt (Option String) Event) :=
  events.filterMap (receiptOf spec generation identity)

def accountRule (spec : PaidLedgerSpec) (a : Account (Option String) Event) (r : Receipt (Option String) Event) :
    Account (Option String) Event :=
  if spec.failsClosed then a.closed r else a.first r

def LedgerPass.account (v : LedgerPass) (identity : String) : Account (Option String) Event :=
  { claim := v.claims.get identity
    terminal := v.terminals.get identity
    conflict := v.conflicts.contains identity }

variable {spec generation identity}

theorem account_conflicts (v : LedgerPass) (owner : String) :
    LedgerPass.account { v with conflicts := v.conflicts.insert owner } identity =
      if identity = owner then { v.account identity with conflict := true } else v.account identity := by
  have hcontains : (v.conflicts.insert owner).contains identity = (identity == owner || v.conflicts.contains identity) := by
    rw [Bool.eq_iff_iff]
    simp
  unfold LedgerPass.account
  dsimp only
  rw [hcontains]
  split
  · next h => rw [h, beq_self_eq_true, Bool.true_or]
  · next h => rw [beq_false_of_ne h, Bool.false_or]

theorem account_claims (v : LedgerPass) (owner : String) (digest : Option String) :
    LedgerPass.account { v with claims := v.claims.set owner digest } identity =
      if identity = owner then { v.account identity with claim := some digest } else v.account identity := by
  unfold LedgerPass.account
  dsimp only
  rw [Dict.get_set]
  split <;> rfl

theorem account_terminals (v : LedgerPass) (owner : String) (event : Event) :
    LedgerPass.account { v with terminals := v.terminals.set owner event } identity =
      if identity = owner then { v.account identity with terminal := some event } else v.account identity := by
  unfold LedgerPass.account
  dsimp only
  rw [Dict.get_set]
  split <;> rfl

theorem account_foreign (v : LedgerPass) {event : Event} {owner : String} {digest : Option String}
    (hkey : ledgerKey spec generation event = some (owner, digest)) (hne : identity ≠ owner) :
    (foldLedgerRow spec generation v event).account identity = v.account identity := by
  unfold foldLedgerRow
  rw [hkey]
  dsimp only
  split
  · split
    · rw [account_conflicts, if_neg hne]
    · split
      · rfl
      · rw [account_claims, if_neg hne]
  · split
    · split
      · split
        · rfl
        · rw [account_terminals, if_neg hne]
      · split
        · rfl
        · split
          · rw [account_conflicts, if_neg hne]
          · rw [account_terminals, if_neg hne]
    · rfl

theorem account_claimed (v : LedgerPass) {event : Event} {digest : Option String}
    (hkey : ledgerKey spec generation event = some (identity, digest)) (htype : event.type = spec.claimType) :
    (foldLedgerRow spec generation v event).account identity = accountRule spec (v.account identity) (.claim digest) := by
  unfold foldLedgerRow accountRule
  rw [hkey]
  dsimp only
  rw [if_pos htype]
  cases hpolicy : spec.failsClosed with
  | true =>
    rw [Bool.and_true, if_pos rfl]
    show _ = if (v.claims.get identity).isSome || (v.terminals.get identity).isSome then _ else _
    cases hopen : (v.claims.get identity).isSome || (v.terminals.get identity).isSome with
    | true =>
      rw [if_pos rfl, if_pos rfl, account_conflicts, if_pos rfl]
    | false =>
      rw [if_neg Bool.false_ne_true, if_neg Bool.false_ne_true, if_neg, account_claims, if_pos rfl]
      rw [(Bool.or_eq_false_iff.mp hopen).1]
      exact Bool.false_ne_true
  | false =>
    rw [Bool.and_false, if_neg Bool.false_ne_true, if_neg Bool.false_ne_true]
    unfold Account.first
    dsimp only
    cases hclaim : v.claims.get identity with
    | some claimed =>
      rw [Option.isSome_some, if_pos rfl]
      unfold LedgerPass.account
      rw [hclaim]
      rfl
    | none =>
      rw [Option.isSome_none, if_neg Bool.false_ne_true, account_claims, if_pos rfl]
      unfold LedgerPass.account
      rw [hclaim]
      rfl

theorem account_closed (v : LedgerPass) {event : Event} {digest : Option String}
    (hkey : ledgerKey spec generation event = some (identity, digest)) (hclaim : event.type ≠ spec.claimType)
    (htype : spec.terminalTypes.contains event.type = true) :
    (foldLedgerRow spec generation v event).account identity = accountRule spec (v.account identity) (.terminal digest event) := by
  unfold foldLedgerRow accountRule
  rw [hkey]
  dsimp only
  rw [if_neg hclaim, if_pos htype]
  cases hpolicy : spec.failsClosed with
  | true =>
    rw [Bool.not_true, if_neg Bool.false_ne_true, if_pos rfl]
    unfold Account.closed
    dsimp only
    have hsame : (v.account identity).claim = v.claims.get identity := rfl
    rw [hsame]
    cases hclaimed : v.claims.get identity with
    | none => rfl
    | some claimed =>
      dsimp only
      have hsame : (v.account identity).terminal = v.terminals.get identity := rfl
      rw [hsame]
      split
      · rw [account_conflicts, if_pos rfl]
        unfold LedgerPass.account
        rw [hclaimed]
      · rw [account_terminals, if_pos rfl]
        unfold LedgerPass.account
        rw [hclaimed]
  | false =>
    rw [Bool.not_false, if_pos rfl, if_neg Bool.false_ne_true]
    unfold Account.first
    dsimp only
    cases hterminal : v.terminals.get identity with
    | some terminal =>
      rw [Option.isSome_some, if_pos rfl]
      unfold LedgerPass.account
      rw [hterminal]
      rfl
    | none =>
      rw [Option.isSome_none, if_neg Bool.false_ne_true, account_terminals, if_pos rfl]
      unfold LedgerPass.account
      rw [hterminal]
      rfl

theorem account_foldLedgerRow (v : LedgerPass) (event : Event) :
    (foldLedgerRow spec generation v event).account identity =
      (receiptOf spec generation identity event).elim (v.account identity) (accountRule spec (v.account identity)) := by
  unfold receiptOf
  cases hkey : ledgerKey spec generation event with
  | none =>
    unfold foldLedgerRow
    rw [hkey]
    rfl
  | some key =>
    obtain ⟨owner, digest⟩ := key
    rw [Option.bind_some]
    dsimp only
    by_cases howner : owner = identity
    · subst howner
      rw [if_pos rfl]
      by_cases hclaim : event.type = spec.claimType
      · rw [if_pos hclaim]
        exact account_claimed v hkey hclaim
      · rw [if_neg hclaim]
        by_cases htype : spec.terminalTypes.contains event.type = true
        · rw [if_pos htype]
          exact account_closed v hkey hclaim htype
        · rw [if_neg htype]
          unfold foldLedgerRow
          rw [hkey]
          dsimp only
          rw [if_neg hclaim, if_neg htype]
          rfl
    · rw [if_neg howner]
      exact account_foreign v hkey fun h => howner h.symm

theorem account_ledgerPass (events : List Event) :
    (ledgerPass spec generation events).account identity =
      (receipts spec generation identity events).foldl (accountRule spec) {} := by
  have hrun (events : List Event) : ∀ v : LedgerPass, (events.foldl (foldLedgerRow spec generation) v).account identity =
      (receipts spec generation identity events).foldl (accountRule spec) (v.account identity) := by
    induction events with
    | nil => exact fun _ => rfl
    | cons event events ih =>
      intro v
      rw [List.foldl_cons, ih, account_foldLedgerRow]
      unfold receipts
      rw [List.filterMap_cons]
      cases receiptOf spec generation identity event <;> rfl
  exact hrun events {}

theorem foldPaidLedger_account (events : List Event) :
    (foldPaidLedger spec generation events).conflicts.contains identity =
        ((receipts spec generation identity events).foldl (accountRule spec) {}).conflict ∧
      (foldPaidLedger spec generation events).terminals.get identity =
        ((receipts spec generation identity events).foldl (accountRule spec) {}).reported ∧
      (foldPaidLedger spec generation events).claims.get identity =
        ((receipts spec generation identity events).foldl (accountRule spec) {}).claim := by
  rw [← account_ledgerPass]
  refine ⟨rfl, ?_, rfl⟩
  have herase (conflicts : List String) : ∀ terminals : Dict String Event,
      Dict.get (conflicts.foldl Table.erase terminals) identity =
        if conflicts.contains identity then none else terminals.get identity := by
    induction conflicts with
    | nil => exact fun _ => rfl
    | cons i conflicts ih =>
      intro terminals
      rw [List.foldl_cons, ih, List.contains_cons]
      unfold Dict.get
      rw [Table.get_erase]
      by_cases hi : identity = i
      · subst hi
        simp
      · simp [hi]
  exact herase _ _

theorem mem_unresolved {events : List Event} :
    (foldPaidLedger spec generation events).unresolved.contains identity = true ↔
      ((foldPaidLedger spec generation events).claims.get identity).isSome = true ∧
        (foldPaidLedger spec generation events).terminals.get identity = none := by
  show ((_ : List String).filter _).contains identity = true ↔ _
  rw [List.contains_iff_mem, List.mem_filter, Option.isNone_iff_eq_none]
  refine and_congr ?_ Iff.rfl
  show identity ∈ (ledgerPass spec generation events).claims.rows.map Prod.fst ↔
    (Dict.get (ledgerPass spec generation events).claims identity).isSome = true
  unfold Dict.get
  rw [Option.isSome_map]
  constructor
  · intro h
    obtain ⟨r, hr, rfl⟩ := List.mem_map.mp h
    rw [Table.get_of_mem hr]
    rfl
  · intro h
    obtain ⟨r, hr⟩ := Option.isSome_iff_exists.mp h
    exact List.mem_map.mpr ⟨r, Table.mem_of_get hr, Table.key_of_get hr⟩

end Accounts

/-! ## What the policies promise -/

section Policies
variable {spec : PaidLedgerSpec} (generation identity : String) (events : List Event)

/-- What failing closed promises of an identity: it is conflicted just where a rule is broken, and reports
just the terminal that pays its one claim. -/
def FailsClosed (spec : PaidLedgerSpec) : Prop :=
  ((foldPaidLedger spec generation events).conflicts.contains identity = true ↔
      Faulty (receipts spec generation identity events)) ∧
    ∀ e, (foldPaidLedger spec generation events).terminals.get identity = some e ↔
      PaidBy (receipts spec generation identity events) e

/-- No terminal of the identity comes before its first claim, or the first claim is followed by more than one
terminal that matches it. -/
def ClaimedFirst (spec : PaidLedgerSpec) : Prop :=
  early (receipts spec generation identity events) = [] ∨
    Contradicted (late (receipts spec generation identity events))

theorem accountRule_closed (h : spec.failsClosed = true) : accountRule spec = Account.closed := by
  funext a r
  exact if_pos h

theorem accountRule_first (h : spec.failsClosed = false) : accountRule spec = Account.first := by
  funext a r
  unfold accountRule
  rw [h]
  exact if_neg Bool.false_ne_true

theorem failsClosed_iff (h : spec.failsClosed = true) :
    FailsClosed generation identity events spec ↔ ClaimedFirst generation identity events spec := by
  obtain ⟨hconflicts, hterminals, -⟩ := foldPaidLedger_account events
  unfold FailsClosed ClaimedFirst
  rw [hconflicts, hterminals, accountRule_closed h]
  exact closed_rule

theorem conflict_stays (h : spec.failsClosed = true) (more : List Event)
    (hconflict : (foldPaidLedger spec generation events).conflicts.contains identity = true) :
    (foldPaidLedger spec generation (events ++ more)).conflicts.contains identity = true := by
  rw [(foldPaidLedger_account events).1, accountRule_closed h] at hconflict
  rw [(foldPaidLedger_account (events ++ more)).1, accountRule_closed h]
  unfold receipts at hconflict ⊢
  rw [List.filterMap_append, List.foldl_append]
  exact Account.foldl_closed_conflict hconflict _

theorem first_terminal (h : spec.failsClosed = false) :
    (foldPaidLedger spec generation events).terminals.get identity =
      (receipts spec generation identity events).findSome? Receipt.event? := by
  rw [(foldPaidLedger_account events).2.1, accountRule_first h]
  unfold Account.reported
  rw [Account.foldl_first_conflict, if_neg Bool.false_ne_true, Account.foldl_first]
  rfl

theorem first_terminal_stays (h : spec.failsClosed = false) (more : List Event) {e : Event}
    (hterminal : (foldPaidLedger spec generation events).terminals.get identity = some e) :
    (foldPaidLedger spec generation (events ++ more)).terminals.get identity = some e := by
  rw [first_terminal _ _ _ h] at hterminal ⊢
  unfold receipts at hterminal ⊢
  rw [List.filterMap_append, List.findSome?_append, hterminal]
  rfl

end Policies

/-! ## Runs of calls -/

section Runs
variable {spec : PaidLedgerSpec} {runGeneration : List Event → String}

/-- Terminals are no claims, and an identity that fails closed is bound to its request. -/
def PaidLedgerSpec.Bound (spec : PaidLedgerSpec) : Prop :=
  spec.claimType ∉ spec.terminalTypes ∧ (spec.failsClosed = true → spec.digestField.isSome = true)

def standing (spec : PaidLedgerSpec) (generation identity : String) (log : List Event) : Option Event :=
  (ledgerPass spec generation log).terminals.get identity

theorem standing_append {generation identity : String} {log : List Event} {e : Event}
    (h : standing spec generation identity log = some e) (more : List Event) :
    standing spec generation identity (log ++ more) = some e := by
  have haccount (events : List Event) : standing spec generation identity events =
      ((receipts spec generation identity events).foldl (accountRule spec) {}).terminal :=
    congrArg Account.terminal (account_ledgerPass events)
  have hrun (rows : List (Receipt (Option String) Event)) : ∀ a : Account (Option String) Event, a.terminal = some e →
      (rows.foldl (accountRule spec) a).terminal = some e := by
    induction rows with
    | nil => exact fun _ h => h
    | cons r rows ih =>
      intro a ha
      apply ih
      unfold accountRule
      split
      · exact Account.closed_terminal ha r
      · exact Account.first_terminal ha r
  rw [haccount] at h ⊢
  unfold receipts at h ⊢
  rw [List.filterMap_append, List.foldl_append]
  exact hrun _ _ h

theorem claim_row {generation identity : String} {log : List Event} {digest : Option String}
    (h : (ledgerPass spec generation log).claims.get identity = some digest) :
    ∃ event ∈ log, ledgerKey spec generation event = some (identity, digest) := by
  have hrun (rows : List (Receipt (Option String) Event)) : ∀ a : Account (Option String) Event,
      (rows.foldl (accountRule spec) a).claim = some digest → a.claim = some digest ∨ .claim digest ∈ rows := by
    induction rows with
    | nil => exact fun _ h => .inl h
    | cons r rows ih =>
      intro a ha
      rcases ih _ ha with hstep | hmem
      · unfold accountRule at hstep
        have hclaim : a.claim = some digest ∨ r = .claim digest := by
          split at hstep
          · exact Account.closed_claim hstep
          · exact Account.first_claim hstep
        rcases hclaim with hold | rfl
        · exact .inl hold
        · exact .inr List.mem_cons_self
      · exact .inr (List.mem_cons_of_mem _ hmem)
  have haccount := congrArg Account.claim (@account_ledgerPass spec generation identity log)
  rcases hrun _ _ (haccount.symm.trans h) with hnone | hmem
  · cases hnone
  · obtain ⟨event, hevent, hreceipt⟩ := List.mem_filterMap.mp hmem
    obtain ⟨⟨owner, d⟩, hkey, hrow⟩ := Option.bind_eq_some_iff.mp hreceipt
    dsimp only at hrow
    split at hrow
    · next howner =>
      subst howner
      split at hrow
      · cases hrow
        exact ⟨event, hevent, hkey⟩
      · split at hrow <;> cases hrow
    · cases hrow

theorem ledgerKey_some {generation identity : String} {event : Event} {digest : Option String}
    (h : ledgerKey spec generation event = some (identity, digest)) :
    event.data.get spec.identityField = .str identity ∧ event.data.get "generation" = .str generation ∧
      (spec.digestField = none → digest = none) ∧
        ∀ field, spec.digestField = some field → ∃ d, digest = some d ∧ event.data.get field = .str d := by
  have hstr {v : Json} {s : String} (hv : v.str? = some s) : v = .str s := Json.str?_eq_some.mp hv
  unfold ledgerKey at h
  obtain ⟨owner, howner, h⟩ := Option.bind_eq_some_iff.mp h
  split at h
  · cases h
  · next hvalid =>
    have hgeneration : event.data.get "generation" = .str generation := by
      rw [Bool.or_eq_true, not_or] at hvalid
      have heq := hvalid.2
      rw [Bool.not_eq_true', Bool.not_eq_false] at heq
      exact hstr (eq_of_beq heq)
    split at h
    · next hfield =>
      obtain ⟨rfl, rfl⟩ := Prod.mk.inj (Option.some.inj h)
      exact ⟨hstr howner, hgeneration, fun _ => rfl, fun field hf => nomatch hfield.symm.trans hf⟩
    · next field hfield =>
      obtain ⟨d, hd, h⟩ := Option.bind_eq_some_iff.mp h
      split at h
      · obtain ⟨rfl, rfl⟩ := Prod.mk.inj (Option.some.inj h)
        refine ⟨hstr howner, hgeneration, fun hnone => (nomatch hfield.symm.trans hnone), fun f hf => ⟨d, rfl, ?_⟩⟩
        obtain rfl := Option.some.inj (hfield.symm.trans hf)
        exact hstr hd
      · cases h

theorem ledgerKey_row {call : TerminalCall} (hplain : call.Plain spec) {claim : Event} {digest : Option String}
    (hclaim : ledgerKey spec call.generation claim = some (call.identity, digest))
    (hdigest : spec.digestField.isSome = true → digest = call.requestDigest) :
    ledgerKey spec call.generation (call.row spec) = some (call.identity, digest) := by
  obtain ⟨hidentity, hgeneration, -, hfield⟩ := ledgerKey_some hclaim
  have hempty : ∀ j ∈ ([] : List String), Obj.get [] j = claim.data.get j := fun _ h => nomatch h
  have hbase := agrees_set (agrees_set hempty hidentity) hgeneration
  have hown : (call.row spec).data.get spec.identityField = claim.data.get spec.identityField ∧
      (call.row spec).data.get "generation" = claim.data.get "generation" ∧
        ∀ field, spec.digestField = some field → (call.row spec).data.get field = claim.data.get field := by
    show (ledgerEventData _ _ _ _ _).get _ = _ ∧ (ledgerEventData _ _ _ _ _).get _ = _ ∧
      ∀ field, _ → (ledgerEventData _ _ _ _ _).get _ = _
    unfold ledgerEventData
    dsimp only
    rw [get_extra _ fun kv hkv => (hplain kv hkv).1, get_extra _ fun kv hkv => (hplain kv hkv).2.1]
    cases hf : spec.digestField with
    | none => exact ⟨hbase _ (by simp), hbase _ (by simp), fun field h => nomatch h⟩
    | some field =>
      obtain ⟨d, rfl, hd⟩ := hfield field hf
      have hrequest : claim.data.get field = (call.requestDigest.map Json.str).getD .null := by
        rw [← hdigest (by rw [hf]; rfl)]
        exact hd
      have hall := agrees_set hbase hrequest
      refine ⟨hall _ (by simp), hall _ (by simp), fun field' hf' => ?_⟩
      obtain rfl := Option.some.inj hf'
      rw [get_extra _ fun kv hkv h => (hplain kv hkv).2.2 (by rw [hf, h])]
      exact hall _ (by simp)
  rw [← hclaim]
  unfold ledgerKey
  rw [hown.1, hown.2.1]
  cases hf : spec.digestField with
  | none => rfl
  | some field =>
    dsimp only
    rw [hown.2.2 field hf]

theorem answer_none {call : TerminalCall} {log : List Event} (h : call.answer spec runGeneration log = none) :
    spec.terminalTypes.contains call.eventType = true ∧
      (spec.digestField.isSome = true →
        (foldPaidLedger spec call.generation log).conflicts.contains call.identity = false ∧
          ((foldPaidLedger spec call.generation log).claims.get call.identity).getD none = call.requestDigest) ∧
      (foldPaidLedger spec call.generation log).terminals.get call.identity = none ∧
      ((foldPaidLedger spec call.generation log).claims.get call.identity).isSome = true := by
  unfold TerminalCall.answer at h
  split at h
  · cases h
  · next htypes =>
    split at h
    · cases h
    · dsimp only at h
      split at h
      · cases h
      · next hguard =>
        split at h
        · cases h
        · next hnone =>
          split at h
          · next hopen =>
            have htype : spec.terminalTypes.contains call.eventType = true := by
              rw [Bool.not_eq_true', Bool.not_eq_false, Bool.and_eq_true] at htypes
              exact htypes.1
            refine ⟨htype, fun hdigest => ?_, hnone, (mem_unresolved.mp hopen).1⟩
            rw [hdigest, Bool.true_and, Bool.or_eq_true, not_or, Bool.not_eq_true] at hguard
            exact ⟨hguard.1, by_contra fun hne => hguard.2 (decide_eq_true hne)⟩
          · cases h

theorem answer_some {call : TerminalCall} {log : List Event} {e : Event}
    (h : call.answer spec runGeneration log = some (some e)) :
    (foldPaidLedger spec call.generation log).terminals.get call.identity = some e := by
  unfold TerminalCall.answer at h
  split at h
  · cases h
  · split at h
    · cases h
    · dsimp only at h
      split at h
      · cases h
      · split at h
        · next terminal hterminal =>
          rw [hterminal, Option.some.inj h]
        · split at h <;> cases h

theorem standing_of_reported {generation identity : String} {log : List Event} {e : Event}
    (h : (foldPaidLedger spec generation log).terminals.get identity = some e) :
    standing spec generation identity log = some e := by
  rw [(foldPaidLedger_account log).2.1, ← account_ledgerPass] at h
  unfold Account.reported at h
  split at h
  · cases h
  · exact h

theorem standing_none {generation identity : String} {log : List Event} (hbound : spec.Bound)
    (hclear : spec.digestField.isSome = true → (foldPaidLedger spec generation log).conflicts.contains identity = false)
    (h : (foldPaidLedger spec generation log).terminals.get identity = none) :
    standing spec generation identity log = none := by
  obtain ⟨hconflicts, hterminals, -⟩ := foldPaidLedger_account log
  have hconflict : ((receipts spec generation identity log).foldl (accountRule spec) {}).conflict = false := by
    cases hpolicy : spec.failsClosed with
    | true => exact hconflicts.symm.trans (hclear (hbound.2 hpolicy))
    | false =>
      rw [accountRule_first hpolicy]
      exact Account.foldl_first_conflict _ _
  rw [hterminals] at h
  unfold Account.reported at h
  rw [hconflict, if_neg Bool.false_ne_true, ← account_ledgerPass] at h
  exact h

theorem standing_row {call : TerminalCall} {log : List Event} (hbound : spec.Bound) (hplain : call.Plain spec)
    (h : call.answer spec runGeneration log = none) :
    standing spec call.generation call.identity log = none ∧
      standing spec call.generation call.identity (log ++ [call.row spec]) = some (call.row spec) := by
  obtain ⟨htype, hguard, hnone, hclaimed⟩ := answer_none h
  have hopen := standing_none hbound (fun hdigest => (hguard hdigest).1) hnone
  refine ⟨hopen, ?_⟩
  obtain ⟨digest, hdigest⟩ := Option.isSome_iff_exists.mp hclaimed
  obtain ⟨claim, -, hkey⟩ := claim_row hdigest
  have hsame (hfield : spec.digestField.isSome = true) : digest = call.requestDigest := by
    have heq := (hguard hfield).2
    rw [hdigest] at heq
    exact heq
  have hclaim : (call.row spec).type ≠ spec.claimType := by
    intro heq
    apply hbound.1
    rw [← heq]
    exact List.contains_iff_mem.mp htype
  have hstep := account_closed (ledgerPass spec call.generation log) (ledgerKey_row hplain hkey hsame) hclaim htype
  have hpass : ledgerPass spec call.generation (log ++ [call.row spec]) =
      foldLedgerRow spec call.generation (ledgerPass spec call.generation log) (call.row spec) := by
    unfold ledgerPass
    rw [List.foldl_append]
    rfl
  show ((ledgerPass spec call.generation (log ++ [call.row spec])).account call.identity).terminal = _
  rw [hpass, hstep]
  have haccount : (ledgerPass spec call.generation log).account call.identity =
      { claim := some digest
        terminal := none
        conflict := (ledgerPass spec call.generation log).conflicts.contains call.identity } := by
    unfold LedgerPass.account
    rw [show (ledgerPass spec call.generation log).claims.get call.identity = some digest from hdigest,
      show (ledgerPass spec call.generation log).terminals.get call.identity = none from hopen]
  rw [haccount]
  unfold accountRule
  split
  · simp [Account.closed]
  · rfl

theorem recordTerminal_spec {call : TerminalCall} {log : List Event} (hbound : spec.Bound) (hplain : call.Plain spec)
    (outcome : CallOutcome) :
    ((recordTerminal spec runGeneration log call outcome).1 = log ∨
      (recordTerminal spec runGeneration log call outcome).1 = log ++ [call.row spec] ∧
        standing spec call.generation call.identity log = none ∧
          standing spec call.generation call.identity (log ++ [call.row spec]) = some (call.row spec)) ∧
      ∀ e, (recordTerminal spec runGeneration log call outcome).2 = some e →
        standing spec call.generation call.identity (recordTerminal spec runGeneration log call outcome).1 = some e := by
  unfold recordTerminal
  split
  · exact ⟨.inl rfl, fun e h => nomatch h⟩
  · split
    · next terminal hanswer =>
      refine ⟨.inl rfl, fun e h => ?_⟩
      subst h
      exact standing_of_reported (answer_some hanswer)
    · next hanswer =>
      obtain ⟨hnone, hrow⟩ := standing_row hbound hplain hanswer
      cases outcome with
      | stored =>
        refine ⟨.inr ⟨rfl, hnone, hrow⟩, fun e h => ?_⟩
        rw [← Option.some.inj h]
        exact hrow
      | unconfirmed => exact ⟨.inr ⟨rfl, hnone, hrow⟩, fun e h => nomatch h⟩
      | failed => exact ⟨.inl rfl, fun e h => nomatch h⟩
      | refused => exact ⟨.inl rfl, fun e h => nomatch h⟩

/-- Every call for one identity that returned or appended a terminal has the same one, and it was appended
at most once. -/
def LedgerTrace.PaidOnce (t : LedgerTrace) : Prop :=
  (∀ generation identity,
      t.appended.countP (fun c => c.1.generation = generation && c.1.identity = identity) ≤ 1) ∧
    ∀ c ∈ t.returned ++ t.appended, ∀ c' ∈ t.returned ++ t.appended,
      c.1.generation = c'.1.generation → c.1.identity = c'.1.identity → c.2 = c'.2

structure LedgerTrace.Stands (spec : PaidLedgerSpec) (t : LedgerTrace) : Prop where
  stands : ∀ c ∈ t.returned ++ t.appended, standing spec c.1.generation c.1.identity t.log = some c.2
  once : ∀ generation identity,
    t.appended.countP (fun c => c.1.generation = generation && c.1.identity = identity) ≤ 1

theorem LedgerTrace.Stands.paidOnce {t : LedgerTrace} (h : t.Stands spec) : t.PaidOnce := by
  refine ⟨h.once, fun c hc c' hc' hgeneration hidentity => ?_⟩
  have hstands := h.stands c hc
  rw [hgeneration, hidentity, h.stands c' hc'] at hstands
  exact (Option.some.inj hstands).symm

theorem LedgerTrace.Stands.step {t : LedgerTrace} (hbound : spec.Bound) (h : t.Stands spec) {s : LedgerStep}
    (hplain : s.Plain spec) : (t.step spec runGeneration s).Stands spec := by
  cases s with
  | row event => exact ⟨fun c hc => standing_append (h.stands c hc) _, h.once⟩
  | record call outcome =>
    obtain ⟨hlog, hreturned⟩ := recordTerminal_spec hbound hplain outcome
    unfold LedgerTrace.step
    dsimp only
    generalize recordTerminal spec runGeneration t.log call outcome = r at hlog hreturned ⊢
    obtain ⟨log, answer⟩ := r
    dsimp only at hlog hreturned ⊢
    have hanswer : ∀ c ∈ answer.toList.map (call, ·), standing spec c.1.generation c.1.identity log = some c.2 := by
      intro c hc
      obtain ⟨e, he, rfl⟩ := List.mem_map.mp hc
      exact hreturned e (Option.mem_toList.mp he)
    rcases hlog with rfl | ⟨rfl, hnone, hrow⟩
    · rw [List.drop_length, List.map_nil, List.append_nil]
      constructor
      · intro c hc
        rcases List.mem_append.mp hc with hc | hc
        · rcases List.mem_append.mp hc with hc | hc
          · exact h.stands c (List.mem_append_left _ hc)
          · exact hanswer c hc
        · exact h.stands c (List.mem_append_right _ hc)
      · exact h.once
    · rw [List.drop_left, List.map_singleton]
      constructor
      · intro c hc
        rcases List.mem_append.mp hc with hc | hc
        · rcases List.mem_append.mp hc with hc | hc
          · exact standing_append (h.stands c (List.mem_append_left _ hc)) _
          · exact hanswer c hc
        · rcases List.mem_append.mp hc with hc | hc
          · exact standing_append (h.stands c (List.mem_append_right _ hc)) _
          · obtain rfl := List.mem_singleton.mp hc
            exact hrow
      · intro generation identity
        rw [List.countP_append, List.countP_singleton]
        by_cases hcall : (call.generation = generation && call.identity = identity) = true
        · -- nothing stood before, so no call had appended for this identity
          have hfresh : t.appended.countP (fun c => c.1.generation = generation && c.1.identity = identity) = 0 := by
            rw [List.countP_eq_zero]
            intro c hc hsame
            rw [Bool.and_eq_true, decide_eq_true_iff, decide_eq_true_iff] at hcall hsame
            have hstands := h.stands c (List.mem_append_right _ hc)
            rw [hsame.1, hsame.2, ← hcall.1, ← hcall.2, hnone] at hstands
            cases hstands
          rw [hfresh]
          split <;> omega
        · rw [if_neg hcall]
          exact h.once generation identity

theorem paidOnce_run (hbound : spec.Bound) (log : List Event) {steps : List LedgerStep} (hplain : ∀ s ∈ steps, s.Plain spec) :
    (steps.foldl (LedgerTrace.step spec runGeneration) { log }).PaidOnce := by
  have hrun (steps : List LedgerStep) (hplain : ∀ s ∈ steps, s.Plain spec) : ∀ t : LedgerTrace, t.Stands spec →
      (steps.foldl (LedgerTrace.step spec runGeneration) t).Stands spec := by
    induction steps with
    | nil => exact fun _ h => h
    | cons s steps ih =>
      intro t ht
      exact ih (fun s hs => hplain s (List.mem_cons_of_mem _ hs)) _ (ht.step hbound (hplain s List.mem_cons_self))
  exact (hrun steps hplain { log } ⟨fun c hc => (nomatch hc), fun _ _ => Nat.zero_le 1⟩).paidOnce

end Runs

/-- The ledger fails closed as it promises just where the claim comes first or is contradicted afterwards; a
conflict stays, the first terminal stays, and calls close an identity by one terminal. -/
theorem paid_ledger_rules (spec : PaidLedgerSpec) (generation : String) (events : List Event) (identity : String) :
    (spec.failsClosed = true →
      (FailsClosed generation identity events spec ↔ ClaimedFirst generation identity events spec) ∧
        ∀ more, (foldPaidLedger spec generation events).conflicts.contains identity = true →
          (foldPaidLedger spec generation (events ++ more)).conflicts.contains identity = true) ∧
    (spec.failsClosed = false →
      (foldPaidLedger spec generation events).terminals.get identity =
          (receipts spec generation identity events).findSome? Receipt.event? ∧
        ∀ more e, (foldPaidLedger spec generation events).terminals.get identity = some e →
          (foldPaidLedger spec generation (events ++ more)).terminals.get identity = some e) ∧
    (spec.Bound → ∀ (runGeneration : List Event → String) (steps : List LedgerStep), (∀ s ∈ steps, s.Plain spec) →
      (steps.foldl (LedgerTrace.step spec runGeneration) { log := events }).PaidOnce) := by
  refine ⟨fun h => ⟨failsClosed_iff generation identity events h, ?_⟩, fun h => ⟨first_terminal generation identity events h, ?_⟩, ?_⟩
  · exact fun more => conflict_stays generation identity events h more
  · exact fun more e => first_terminal_stays generation identity events h more
  · exact fun hbound runGeneration steps => paidOnce_run hbound events

def requestA : String := "aaaaaaaaaaaaaaaaaaaaaaaaaaaaaaaaaaaaaaaaaaaaaaaaaaaaaaaaaaaaaaaa"

/-- A row of the concept lens for that request. -/
def lensRow (type : String) : Event :=
  { type
    data := [("lens_request_id", .str requestA), ("generation", .str "g"), ("request_digest", .str requestA)] }

def lensCall : TerminalCall :=
  { generation := "g"
    identity := requestA
    eventType := "concept_lens_completed"
    requestDigest := some requestA }

theorem paid_ledger_rules_lens :
    FailsClosed "g" requestA [lensRow "concept_lens_started", lensRow "concept_lens_completed"] CONCEPT_LENS_LEDGER ∧
      (foldPaidLedger REPORT_REFRESH_LEDGER "g" []).terminals.get requestA = none ∧
        ([LedgerStep.record lensCall .stored, .record lensCall .stored].foldl
          (LedgerTrace.step CONCEPT_LENS_LEDGER fun _ => "g") { log := [lensRow "concept_lens_started"] }).PaidOnce := by
  have hpaid := paid_ledger_rules CONCEPT_LENS_LEDGER "g" [lensRow "concept_lens_started", lensRow "concept_lens_completed"] requestA
  have hreport := paid_ledger_rules REPORT_REFRESH_LEDGER "g" [] requestA
  have hrun := paid_ledger_rules CONCEPT_LENS_LEDGER "g" [lensRow "concept_lens_started"] requestA
  refine ⟨(hpaid.1 (by decide)).1.mpr (.inl ?_), (hreport.2.1 (by decide)).1, hrun.2.2 ?_ (fun _ => "g") _ ?_⟩
  · have hkey : ledgerKey CONCEPT_LENS_LEDGER "g" (lensRow "concept_lens_started") = some (requestA, some requestA) := by
      decide +kernel
    have hreceipt : receiptOf CONCEPT_LENS_LEDGER "g" requestA (lensRow "concept_lens_started") = some (.claim (some requestA)) := by
      unfold receiptOf
      rw [hkey]
      rfl
    unfold receipts
    rw [List.filterMap_cons, hreceipt]
    rfl
  · exact ⟨by decide, fun _ => rfl⟩
  · intro s hs
    rcases List.mem_pair.mp hs with rfl | rfl
    · exact fun kv hkv => nomatch hkv
    · exact fun kv hkv => nomatch hkv

/-- A terminal without a claim is passed over, not marked as a conflict. -/
theorem unclaimed_terminal_passed_over :
    ¬ FailsClosed "g" requestA [lensRow "concept_lens_completed"] CONCEPT_LENS_LEDGER := by
  rintro ⟨hconflict, -⟩
  have hclear : (foldPaidLedger CONCEPT_LENS_LEDGER "g" [lensRow "concept_lens_completed"]).conflicts.contains requestA = false := by
    decide +kernel
  have hkey : ledgerKey CONCEPT_LENS_LEDGER "g" (lensRow "concept_lens_completed") = some (requestA, some requestA) := by
    decide +kernel
  have hreceipts : receipts CONCEPT_LENS_LEDGER "g" requestA [lensRow "concept_lens_completed"] =
      [.terminal (some requestA) (lensRow "concept_lens_completed")] := by
    unfold receipts receiptOf
    rw [List.filterMap_cons, hkey]
    rfl
  rw [hconflict.mpr] at hclear
  · cases hclear
  · rw [hreceipts]
    exact .inr (.inl ⟨[], _, _, [], rfl, fun _ h => nomatch h⟩)

end LoopLab.Serve
