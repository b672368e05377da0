import LoopLab.Log.Codec
import Mathlib.Algebra.GroupWithZero.Nat

/-!
# The asynchronous exporter

A bounded queue of prepared rows in front of the exporter of the file.
-/

set_option autoImplicit false

namespace LoopLab.Trace

/-- `_TRACE_EXPORT_DROP_REASONS` -/
inductive DropReason where
  | queueFull | queueBytes | serializationError | workerStart | shutdown | shutdownTimeout
  deriving DecidableEq, Repr

def DropReason.all : List DropReason :=
  [.queueFull, .queueBytes, .serializationError, .workerStart, .shutdown, .shutdownTimeout]

structure ExporterConfig where
  maxQueueSpans : Nat
  maxQueueBytes : Nat
  lossReceiptInterval : Nat
  spans_pos : 0 < maxQueueSpans
  bytes_pos : 0 < maxQueueBytes

structure PreparedRow where
  call : Nat
  line : Bytes

def bytesOf (rows : List PreparedRow) : Nat := (rows.map (·.line.length)).sum

structure Loss where
  drops : DropReason → Nat
  failures : Nat

inductive Delivery where
  | succeeded | failed | abandoned

/-- Where the worker is: about to take the condition, asleep in its idle period, in the delegate before or after
the check that it may commit, back from it, or back with a batch it has counted as abandoned. -/
inductive ExportWorker where
  | none
  | looping
  | idling
  | reporting (loss : Loss) (cleared : Bool)
  | reported (loss : Loss) (succeeded : Bool)
  | exporting (batch : List PreparedRow) (cleared : Bool)
  | returned (batch : List PreparedRow) (delivery : Delivery)
  | settling (batch : List PreparedRow)

def ExportWorker.alive : ExportWorker → Bool
  | .none => false
  | _ => true

structure AsyncExporter where
  queue : List PreparedRow := []
  bufferedBytes : Nat := 0
  worker : ExportWorker := .none
  active : Bool := false
  retireRequested : Bool := false
  abandonActive : Bool := false
  accepting : Bool := true
  shutdown : Bool := false
  acceptedSpans : Nat := 0
  exportedSpans : Nat := 0
  exportFailures : Nat := 0
  dropCounts : DropReason → Nat := fun _ => 0
  unreportedDrops : DropReason → Nat := fun _ => 0
  unreportedExportFailures : Nat := 0
  lossReceipts : Nat := 0
  lossReceiptFailures : Nat := 0
  receiptRequested : Bool := false
  nextReceiptAt : Nat := 0

namespace AsyncExporter
variable (cfg : ExporterConfig) (e : AsyncExporter)

/-- `_start_worker_locked`, where a thread is `started` if there is none -/
def startWorker (started : Bool) : AsyncExporter × Bool :=
  if e.worker.alive then (e, true) else if started then ({ e with worker := .looping }, true) else (e, false)

/-- `_record_drop_locked` -/
def recordDrop (now : Nat) (reason : DropReason) (count : Nat) (durable : Bool) : AsyncExporter :=
  if count = 0 then e
  else
    let e := { e with dropCounts := Function.update e.dropCounts reason (e.dropCounts reason + count) }
    if !durable then e
    else
      { e with
        unreportedDrops := Function.update e.unreportedDrops reason (e.unreportedDrops reason + count)
        nextReceiptAt := if e.nextReceiptAt = 0 then now else e.nextReceiptAt }

def pendingLoss : Bool := DropReason.all.any (e.unreportedDrops · ≠ 0) || e.unreportedExportFailures ≠ 0

/-- `_loss_snapshot_locked` -/
def lossSnapshot : Loss := ⟨e.unreportedDrops, e.unreportedExportFailures⟩

/-! ## Calls -/

/-- `export`, after the span is serialized; no line where that failed -/
def submit (call : Nat) (line : Option Bytes) (now : Nat) (started : Bool) : AsyncExporter × Bool :=
  if !e.accepting then (e.recordDrop now .shutdown 1 false, false)
  else
    match line with
    | none => (((e.recordDrop now .serializationError 1 true).startWorker started).1, false)
    | some line =>
      let e := { e with retireRequested := false }
      if e.queue.length ≥ cfg.maxQueueSpans then (((e.recordDrop now .queueFull 1 true).startWorker started).1, false)
      else if line.length + e.bufferedBytes > cfg.maxQueueBytes then
        (((e.recordDrop now .queueBytes 1 true).startWorker started).1, false)
      else
        let e : AsyncExporter :=
          { e with queue := e.queue ++ [⟨call, line⟩], bufferedBytes := e.bufferedBytes + line.length }
        match e.startWorker started with
        | (e, true) => ({ e with acceptedSpans := e.acceptedSpans + 1 }, true)
        | (e, false) =>
          ({ e with queue := e.queue.dropLast, bufferedBytes := e.bufferedBytes - line.length }.recordDrop now
            .workerStart 1 true, false)

/-- `_terminal_abandon_locked` -/
def terminalAbandon : AsyncExporter :=
  let e :=
    { e with queue := [], bufferedBytes := e.bufferedBytes - bytesOf e.queue }.recordDrop 0 .shutdownTimeout
      e.queue.length false
  { e with
    unreportedDrops := fun _ => 0
    unreportedExportFailures := 0
    receiptRequested := false
    abandonActive := true }

end AsyncExporter

inductive Barrier where
  | flush | shutdown
  deriving DecidableEq, Repr

/-- Where a call is, of `export` or of a barrier. -/
inductive ExportCall where
  | idle
  | serializing
  | waiting (barrier : Barrier) (baseline : Nat)
  | done (result : Bool)

namespace AsyncExporter
variable (cfg : ExporterConfig) (e : AsyncExporter)

/-- The first check of `export`. -/
def enter (now : Nat) : AsyncExporter × ExportCall :=
  if !e.accepting then (e.recordDrop now .shutdown 1 false, .done false) else (e, .serializing)

def await (barrier : Barrier) (baseline : Nat) (expired : Bool) : AsyncExporter × ExportCall :=
  if e.queue.isEmpty && !e.active && !e.pendingLoss && !e.worker.alive then
    (e, .done (e.lossReceiptFailures = baseline))
  else if e.pendingLoss && !e.worker.alive && e.lossReceiptFailures > baseline then (e, .done false)
  else if expired then (if barrier = .shutdown then e.terminalAbandon else e, .done false)
  else (e, .waiting barrier baseline)

/-- `force_flush` and `shutdown`, up to their first wait -/
def arrive (barrier : Barrier) (started expired : Bool) : AsyncExporter × ExportCall :=
  let baseline := e.lossReceiptFailures
  let e := if barrier = .shutdown then { e with accepting := false, shutdown := true } else e
  let e := { e with receiptRequested := e.receiptRequested || e.pendingLoss, retireRequested := true }
  if !e.queue.isEmpty || e.active || e.receiptRequested then
    match e.startWorker started with
    | (e, true) => e.await barrier baseline expired
    | (e, false) => (if barrier = .shutdown then e.terminalAbandon else e, .done false)
  else e.await barrier baseline expired

/-! ## The worker -/

inductive Delegate where
  | goesOn | raises
  deriving DecidableEq, Repr

/-- The inner loop of `_worker_loop`: a receipt is due, there are rows, it is time to retire or there is
nothing to do. The second part is what is handed over. -/
def awake (now : Nat) : AsyncExporter × List PreparedRow :=
  if e.abandonActive then
    ({ e with
        unreportedDrops := fun _ => 0
        unreportedExportFailures := 0
        receiptRequested := false
        worker := .none }, [])
  else if e.pendingLoss && (e.receiptRequested || now ≥ e.nextReceiptAt) then
    ({ e with worker := .reporting e.lossSnapshot false, receiptRequested := false, active := true }, [])
  else if !e.queue.isEmpty then ({ e with worker := .exporting e.queue false, queue := [], active := true }, e.queue)
  else if e.shutdown || e.retireRequested then ({ e with worker := .none }, [])
  else if e.pendingLoss then ({ e with worker := .looping }, [])
  else ({ e with worker := .idling }, [])

def settleReceipt (loss : Loss) (succeeded : Bool) (now : Nat) : AsyncExporter :=
  { e with
    active := false
    unreportedDrops := fun reason => e.unreportedDrops reason - loss.drops reason
    unreportedExportFailures := e.unreportedExportFailures - loss.failures
    lossReceipts := if succeeded then e.lossReceipts + 1 else e.lossReceipts
    lossReceiptFailures := if succeeded then e.lossReceiptFailures else e.lossReceiptFailures + 1
    nextReceiptAt := now + cfg.lossReceiptInterval
    worker := if !succeeded && e.queue.isEmpty then .none else .looping }

def settleBatch (batch : List PreparedRow) (delivery : Delivery) (now : Nat) : AsyncExporter :=
  let e := { e with bufferedBytes := e.bufferedBytes - bytesOf batch, active := false, worker := .looping }
  match delivery with
  | .succeeded => { e with exportedSpans := e.exportedSpans + batch.length }
  | .failed =>
    let e := { e with exportFailures := e.exportFailures + batch.length }
    if e.abandonActive then e
    else
      { e with
        unreportedExportFailures := e.unreportedExportFailures + batch.length
        nextReceiptAt := if e.nextReceiptAt = 0 then now else e.nextReceiptAt }
  | .abandoned => e

/-- One step of the worker, with the rows it hands over and the receipt it has tried to write. -/
def work (now : Nat) (delegate : Delegate) : Option (AsyncExporter × List PreparedRow × List (Loss × Bool)) :=
  match e.worker with
  | .none => none
  | .looping => some ((e.awake now).1, (e.awake now).2, [])
  | .idling =>
    if e.queue.isEmpty && !e.pendingLoss then some ({ e with worker := .none }, [], [])
    else some ((e.awake now).1, (e.awake now).2, [])
  | .reporting loss false =>
    if delegate = .raises || e.abandonActive then some ({ e with worker := .reported loss false }, [], [])
    else some ({ e with worker := .reporting loss true }, [], [])
  | .reporting loss true => some ({ e with worker := .reported loss (delegate = .goesOn) }, [], [])
  | .reported loss succeeded => some (e.settleReceipt cfg loss succeeded now, [], [(loss, succeeded)])
  | .exporting batch false =>
    if delegate = .raises then some ({ e with worker := .returned batch .failed }, [], [])
    else if e.abandonActive then some ({ e with worker := .returned batch .abandoned }, [], [])
    else some ({ e with worker := .exporting batch true }, [], [])
  | .exporting batch true =>
    some ({ e with worker := .returned batch (if delegate = .goesOn then .succeeded else .failed) }, [], [])
  | .returned batch .abandoned =>
    some ({ e.recordDrop now .shutdownTimeout batch.length false with worker := .settling batch }, [], [])
  | .returned batch delivery => some (e.settleBatch batch delivery now, [], [])
  | .settling batch => some (e.settleBatch batch .abandoned now, [], [])

end AsyncExporter

/-! ## Runs -/

/-- The exporter, where each call is, the rows whose calls gave true, the rows given to the delegate and the
receipts it was given, with whether each was written. -/
structure ExporterRun where
  exporter : AsyncExporter := {}
  calls : Nat → ExportCall := fun _ => .idle
  accepted : List PreparedRow := []
  handed : List PreparedRow := []
  receipts : List (Loss × Bool) := []

inductive ExporterAction where
  | enter (i now : Nat)
  | submit (i now : Nat) (started : Bool)
  | arrive (i : Nat) (barrier : Barrier) (started expired : Bool)
  | await (i : Nat) (expired : Bool)
  | work (now : Nat) (delegate : AsyncExporter.Delegate)

section Run
variable (cfg : ExporterConfig) (lines : Nat → Option Bytes)

namespace ExporterRun
variable (s : ExporterRun)

def goes (i : Nat) (next : AsyncExporter × ExportCall) : ExporterRun :=
  { s with exporter := next.1, calls := Function.update s.calls i next.2 }

def admits (i : Nat) (line : Option Bytes) (next : AsyncExporter × Bool) : ExporterRun :=
  { s.goes i (next.1, .done next.2) with
    accepted := s.accepted ++ (if next.2 then line.toList.map (⟨i, ·⟩) else []) }

end ExporterRun

def exporterStep (s : ExporterRun) : ExporterAction → Option ExporterRun
  | .enter i now =>
    match s.calls i with
    | .idle => some (s.goes i (s.exporter.enter now))
    | _ => none
  | .submit i now started =>
    match s.calls i with
    | .serializing => some (s.admits i (lines i) (s.exporter.submit cfg i (lines i) now started))
    | _ => none
  | .arrive i barrier started expired =>
    match s.calls i with
    | .idle => some (s.goes i (s.exporter.arrive barrier started expired))
    | _ => none
  | .await i expired =>
    match s.calls i with
    | .waiting barrier baseline => some (s.goes i (s.exporter.await barrier baseline expired))
    | _ => none
  | .work now delegate =>
    (s.exporter.work cfg now delegate).map fun (exporter, handed, receipts) =>
      { s with exporter, handed := s.handed ++ handed, receipts := s.receipts ++ receipts }

def exporterRun (s : ExporterRun) (actions : List ExporterAction) : Option ExporterRun :=
  actions.foldlM (exporterStep cfg lines) s

end Run

end LoopLab.Trace
