import LoopLab.Lib.Receipts
import LoopLab.Ledger.Enrichment

/-!
# The ledger of paid operations

A paid operation is claimed in the run's log before the provider is asked, and closed by one terminal row.
-/

set_option autoImplicit false

namespace LoopLab

namespace Serve
open Lib

def SERVE_PAID_LEDGER_DIAGNOSTIC_EVENTS : List String :=
  ["report_refresh_started", "report_refresh_failed", "concept_lens_started", "concept_lens_completed",
    "concept_lens_failed"]

def SERVE_PAID_LEDGER_FOLDED_EVENTS : List String := ["report_generated"]

def SERVE_PAID_LEDGER_EVENTS : List String :=
  SERVE_PAID_LEDGER_DIAGNOSTIC_EVENTS ++ SERVE_PAID_LEDGER_FOLDED_EVENTS

/-- `_APPENDABLE_EVENTS` -/
def APPENDABLE_EVENTS : List String := SERVE_PAID_LEDGER_DIAGNOSTIC_EVENTS

inductive ConflictPolicy where
  | firstTerminalWins | failClosed
  deriving DecidableEq, Repr

/-- One paid operation. Its event types are on the list, as its constructor checks. -/
structure PaidLedgerSpec where
  claimType : String
  terminalTypes : List String
  identityField : String
  conflictPolicy : ConflictPolicy
  digestField : Option String := none
  listed : ∀ t ∈ claimType :: terminalTypes, t ∈ SERVE_PAID_LEDGER_EVENTS

/-- `_REPORT_REFRESH_LEDGER` -/
def REPORT_REFRESH_LEDGER : PaidLedgerSpec where
  claimType := "report_refresh_started"
  terminalTypes := ["report_generated", "report_refresh_failed"]
  identityField := "refresh_id"
  conflictPolicy := .firstTerminalWins
  listed := by decide

def CONCEPT_LENS_LEDGER : PaidLedgerSpec where
  claimType := "concept_lens_started"
  terminalTypes := ["concept_lens_completed", "concept_lens_failed"]
  identityField := "lens_request_id"
  digestField := some "request_digest"
  conflictPolicy := .failClosed
  listed := by decide

namespace PaidLedgerSpec

def failsClosed (spec : PaidLedgerSpec) : Bool := spec.conflictPolicy = .failClosed

end PaidLedgerSpec

/-- What the pass over the rows holds: the terminals of conflicted identities are dropped at its end. -/
structure LedgerPass where
  claims : Dict String (Option String) := Table.empty
  terminals : Dict String Event := Table.empty
  conflicts : List String := []

structure PaidLedgerView where
  claims : Dict String (Option String)
  terminals : Dict String Event
  unresolved : List String
  conflicts : List String

section Fold
variable (spec : PaidLedgerSpec) (generation : String)

/-- The identity and the digest of a row that is well formed and of the generation. -/
def ledgerKey (event : Event) : Option (String × Option String) := do
  let identity ← (event.data.get spec.identityField).str?
  if !validDigestRef "" identity || !(event.data.get "generation").eqStr generation then none
  else
    match spec.digestField with
    | none => some (identity, none)
    | some field => do
      let digest ← (event.data.get field).str?
      if validDigestRef "" digest then some (identity, some digest) else none

def foldLedgerRow (v : LedgerPass) (event : Event) : LedgerPass :=
  match ledgerKey spec generation event with
  | none => v
  | some (identity, digest) =>
    if event.type = spec.claimType then
      if ((v.claims.get identity).isSome || (v.terminals.get identity).isSome) && spec.failsClosed then
        { v with conflicts := v.conflicts.insert identity }
      else if (v.claims.get identity).isSome then v
      else { v with claims := v.claims.set identity digest }
    else if spec.terminalTypes.contains event.type then
      if !spec.failsClosed then
        if (v.terminals.get identity).isSome then v
        else { v with terminals := v.terminals.set identity event }
      else
        match v.claims.get identity with
        | none => v
        | some claimed =>
          if (v.terminals.get identity).isSome || claimed ≠ digest then
            { v with conflicts := v.conflicts.insert identity }
          else { v with terminals := v.terminals.set identity event }
    else v

def ledgerPass (events : List Event) : LedgerPass := events.foldl (foldLedgerRow spec generation) {}

def foldPaidLedger (events : List Event) : PaidLedgerView :=
  let v := ledgerPass spec generation events
  let terminals : Dict String Event := v.conflicts.foldl Table.erase v.terminals
  { claims := v.claims
    terminals
    unresolved := (v.claims.rows.map Prod.fst).filter fun identity => (terminals.get identity).isNone
    conflicts := v.conflicts }

end Fold

def ledgerEventData (spec : PaidLedgerSpec) (identity generation : String) (requestDigest : Option String)
    (extra : Obj) : Obj :=
  let data := (Obj.set spec.identityField (.str identity) []).set "generation" (.str generation)
  let data := match spec.digestField with
    | none => data
    | some field => data.set field ((requestDigest.map Json.str).getD .null)
  extra.foldl (fun data kv => data.set kv.1 kv.2) data

theorem agrees_set {o o' : Obj} {keys : List String} {k : String} {v : Json} (h : ∀ j ∈ keys, o.get j = o'.get j)
    (hv : o'.get k = v) : ∀ j ∈ k :: keys, (o.set k v).get j = o'.get j := by
  intro j hj
  rw [Obj.get_set]
  split
  · next hk => rw [hk, hv]
  · next hk => exact h j ((List.mem_cons.mp hj).resolve_left hk)

theorem get_extra {k : String} (extra : Obj) (h : ∀ kv ∈ extra, kv.1 ≠ k) :
    ∀ data : Obj, (extra.foldl (fun data kv => data.set kv.1 kv.2) data).get k = data.get k := by
  induction extra with
  | nil => exact fun _ => rfl
  | cons kv extra ih =>
    intro data
    have hk : k ≠ kv.1 := fun hk => h kv List.mem_cons_self hk.symm
    rw [List.foldl_cons, ih fun kv hkv => h kv (List.mem_cons_of_mem _ hkv), Obj.get_set, if_neg hk]

/-- A call of `record_terminal`, with the stamp of the row it would write. -/
structure TerminalCall where
  generation : String
  identity : String
  eventType : String
  terminalFields : Obj := []
  requestDigest : Option String := none
  seq : Int := 0
  ts : Rat := 0

/-- How a call fares: refused before it reads the log, or at its append: the row is stored, it is visible
without a confirmed sync, or it is not there. -/
inductive CallOutcome where
  | refused | stored | unconfirmed | failed
  deriving DecidableEq, Repr

namespace TerminalCall

def row (call : TerminalCall) (spec : PaidLedgerSpec) : Event :=
  { seq := call.seq
    ts := call.ts
    type := call.eventType
    data := ledgerEventData spec call.identity call.generation call.requestDigest call.terminalFields }

/-- What the call answers without an append; nothing where its claim is unresolved. -/
def answer (call : TerminalCall) (spec : PaidLedgerSpec) (runGeneration : List Event → String)
    (log : List Event) : Option (Option Event) :=
  if !(spec.terminalTypes.contains call.eventType && APPENDABLE_EVENTS.contains call.eventType) then some none
  else if runGeneration log ≠ call.generation then some none
  else
    let view := foldPaidLedger spec call.generation log
    if spec.digestField.isSome &&
        (view.conflicts.contains call.identity || (view.claims.get call.identity).getD none ≠ call.requestDigest) then
      some none
    else
      match view.terminals.get call.identity with
      | some terminal => some (some terminal)
      | none => if view.unresolved.contains call.identity then none else some none

end TerminalCall

/-- `record_terminal` under the sequencer: the log after it, and the terminal it returns. -/
def recordTerminal (spec : PaidLedgerSpec) (runGeneration : List Event → String) (log : List Event)
    (call : TerminalCall) (outcome : CallOutcome) : List Event × Option Event :=
  if outcome = .refused then (log, none) else
  match call.answer spec runGeneration log with
  | some terminal => (log, terminal)
  | none =>
    match outcome with
    | .stored => (log ++ [call.row spec], some (call.row spec))
    | .unconfirmed => (log ++ [call.row spec], none)
    | _ => (log, none)

/-! ## Runs -/

inductive LedgerStep where
  | row (event : Event)
  | record (call : TerminalCall) (outcome : CallOutcome)

structure LedgerTrace where
  log : List Event
  returned : List (TerminalCall × Event) := []
  appended : List (TerminalCall × Event) := []

def LedgerTrace.step (spec : PaidLedgerSpec) (runGeneration : List Event → String) (t : LedgerTrace) :
    LedgerStep → LedgerTrace
  | .row event => { t with log := t.log ++ [event] }
  | .record call outcome =>
    let r := recordTerminal spec runGeneration t.log call outcome
    { log := r.1
      returned := t.returned ++ r.2.toList.map (call, ·)
      appended := t.appended ++ (r.1.drop t.log.length).map (call, ·) }

/-- The fields that a call adds leave the identity, the generation and the digest alone, as its callers see to. -/
def TerminalCall.Plain (spec : PaidLedgerSpec) (call : TerminalCall) : Prop :=
  ∀ kv ∈ call.terminalFields, kv.1 ≠ spec.identityField ∧ kv.1 ≠ "generation" ∧ spec.digestField ≠ some kv.1

def LedgerStep.Plain (spec : PaidLedgerSpec) : LedgerStep → Prop
  | .row _ => True
  | .record call _ => call.Plain spec

end Serve

end LoopLab
