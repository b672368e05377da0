import LoopLab.Trace.Exporter
import LoopLab.Lib.Handover

/-!
# The exporter conserves rows

A row that was accepted waits, is in the worker's hands, or is counted as exported, failed or abandoned.
-/

set_option autoImplicit false

namespace LoopLab.Trace
open Lib

/-- The rows whose fate is open. -/
def ExportWorker.batch : ExportWorker → List PreparedRow
  | .exporting batch _ | .returned batch _ => batch
  | _ => []

/-- The rows whose bytes are still charged. -/
def ExportWorker.charged : ExportWorker → List PreparedRow
  | .exporting batch _ | .returned batch _ | .settling batch => batch
  | _ => []

def ExportWorker.telling : ExportWorker → Option Loss
  | .reporting loss _ | .reported loss _ => some loss
  | _ => Option.none

def Loss.of (loss : Loss) : Option DropReason → Nat
  | none => loss.failures
  | some reason => loss.drops reason

namespace AsyncExporter

def lost (e : AsyncExporter) : Option DropReason → Nat
  | none => e.exportFailures
  | some .shutdown => 0
  | some reason => e.dropCounts reason

def tally (e : AsyncExporter) (receipts : List (Loss × Bool)) : Report (Option DropReason) where
  total := e.lost
  pending := e.lossSnapshot.of
  told := receipts.map (·.1.of)

end AsyncExporter

variable {cfg : ExporterConfig} {lines : Nat → Option Bytes} {e : AsyncExporter} {accepted handed : List PreparedRow}
variable {receipts : List (Loss × Bool)} {s s' : ExporterRun}

structure Conserved (cfg : ExporterConfig) (e : AsyncExporter) (accepted handed : List PreparedRow) : Prop where
  order : ∃ gone, Channel.InOrder ⟨accepted, handed, e.queue, gone⟩ ∧ (gone ≠ [] → e.abandonActive = true)
  counted : e.acceptedSpans = accepted.length
  spans : accepted.length = e.queue.length + e.worker.batch.length + e.exportedSpans + e.exportFailures +
    e.dropCounts .shutdownTimeout
  bytes : e.bufferedBytes = bytesOf e.queue + bytesOf e.worker.charged
  cap : e.bufferedBytes ≤ cfg.maxQueueBytes
  closed : e.abandonActive = true → e.accepting = false ∧ e.queue = []

structure Told (e : AsyncExporter) (receipts : List (Loss × Bool)) : Prop where
  balanced : e.abandonActive = false → (e.tally receipts).Balanced
  inflight : e.abandonActive = false → ∀ loss, e.worker.telling = some loss → ∀ i, loss.of i ≤ e.lossSnapshot.of i
  abandoned : ∀ batch, e.worker = .returned batch .abandoned → e.abandonActive = true

theorem bytesOf_append (rows more : List PreparedRow) : bytesOf (rows ++ more) = bytesOf rows + bytesOf more := by
  unfold bytesOf
  rw [List.map_append, List.sum_append]

theorem recordDrop_process (now : Nat) (reason : DropReason) (count : Nat) :
    e.recordDrop now reason count false =
      { e with dropCounts := Function.update e.dropCounts reason (e.dropCounts reason + count) } := by
  unfold AsyncExporter.recordDrop
  split
  · next hzero => rw [hzero, Nat.add_zero, Function.update_eq_self]
  · rfl

theorem recordDrop_durable (now : Nat) (reason : DropReason) (count : Nat) :
    ∃ due, e.recordDrop now reason count true =
      { e with
        dropCounts := Function.update e.dropCounts reason (e.dropCounts reason + count)
        unreportedDrops := Function.update e.unreportedDrops reason (e.unreportedDrops reason + count)
        nextReceiptAt := due } := by
  unfold AsyncExporter.recordDrop
  split
  · next hzero =>
    rw [hzero, Nat.add_zero, Function.update_eq_self, Nat.add_zero, Function.update_eq_self]
    exact ⟨e.nextReceiptAt, rfl⟩
  · exact ⟨_, rfl⟩

namespace Conserved

theorem start (h : Conserved cfg e accepted handed) (started : Bool) :
    Conserved cfg (e.startWorker started).1 accepted handed := by
  unfold AsyncExporter.startWorker
  cases hworker : e.worker <;> cases started <;> simp only [ExportWorker.alive]
  case none.true =>
    have hspans := h.spans
    have hbytes := h.bytes
    rw [hworker] at hspans hbytes
    exact ⟨h.order, h.counted, hspans, hbytes, h.cap, h.closed⟩
  all_goals exact h

theorem drop (h : Conserved cfg e accepted handed) (now : Nat) {reason : DropReason} (hreason : reason ≠ .shutdownTimeout)
    (count : Nat) (durable : Bool) : Conserved cfg (e.recordDrop now reason count durable) accepted handed := by
  have hsame : Function.update e.dropCounts reason (e.dropCounts reason + count) .shutdownTimeout =
      e.dropCounts .shutdownTimeout := Function.update_of_ne (Ne.symm hreason) ..
  have hspans := h.spans
  rw [← hsame] at hspans
  cases durable with
  | false =>
    rw [recordDrop_process]
    exact ⟨h.order, h.counted, hspans, h.bytes, h.cap, h.closed⟩
  | true =>
    obtain ⟨due, hdrop⟩ := recordDrop_durable (e := e) now reason count
    rw [hdrop]
    exact ⟨h.order, h.counted, hspans, h.bytes, h.cap, h.closed⟩

theorem flags (h : Conserved cfg e accepted handed) (retire receipt : Bool) :
    Conserved cfg { e with retireRequested := retire, receiptRequested := receipt } accepted handed :=
  ⟨h.order, h.counted, h.spans, h.bytes, h.cap, h.closed⟩

theorem closing (h : Conserved cfg e accepted handed) :
    Conserved cfg { e with accepting := false, shutdown := true } accepted handed :=
  ⟨h.order, h.counted, h.spans, h.bytes, h.cap, fun habandoned => ⟨rfl, (h.closed habandoned).2⟩⟩

theorem take (h : Conserved cfg e accepted handed) (haccepting : e.accepting = true) (row : PreparedRow)
    (hbytes : row.line.length + e.bufferedBytes ≤ cfg.maxQueueBytes) :
    Conserved cfg
      { e with
        queue := e.queue ++ [row]
        bufferedBytes := e.bufferedBytes + row.line.length
        acceptedSpans := e.acceptedSpans + 1 } (accepted ++ [row]) handed := by
  have hopen : e.abandonActive = false := by
    by_contra habandoned
    rw [Bool.not_eq_false] at habandoned
    rw [(h.closed habandoned).1] at haccepting
    cases haccepting
  have hspans := h.spans
  have hcharged := h.bytes
  obtain ⟨gone, horder, hgone⟩ := h.order
  have hnone : gone = [] := by
    by_contra hne
    rw [hgone hne] at hopen
    cases hopen
  subst hnone
  constructor
  · exact ⟨[], horder.push rfl row, fun hne => absurd rfl hne⟩
  · have hcounted := h.counted
    dsimp only
    rw [List.length_append, hcounted, List.length_singleton]
  · dsimp only
    rw [List.length_append, List.length_append, List.length_singleton]
    omega
  · dsimp only
    rw [bytesOf_append]
    unfold bytesOf at hcharged ⊢
    rw [List.map_singleton, List.sum_singleton]
    omega
  · dsimp only
    omega
  · intro habandoned
    rw [hopen] at habandoned
    cases habandoned

end Conserved

/-- What a call of `export` does with its line: refuse it after shutdown, drop it, or take it in. -/
inductive Submitted (cfg : ExporterConfig) (e : AsyncExporter) (call : Nat) (line : Option Bytes) (now : Nat)
    (started : Bool) : AsyncExporter × Bool → Prop
  | closed (h : e.accepting = false) : Submitted cfg e call line now started (e.recordDrop now .shutdown 1 false, false)
  | dropped (retire : Bool) (reason : DropReason) (hreason : reason ≠ .shutdown ∧ reason ≠ .shutdownTimeout) :
    Submitted cfg e call line now started
      ((({ e with retireRequested := retire }.recordDrop now reason 1 true).startWorker started).1, false)
  | unstarted :
    Submitted cfg e call line now started ({ e with retireRequested := false }.recordDrop now .workerStart 1 true, false)
  | taken (row : PreparedRow) (worker : ExportWorker) (hrow : line = some row.line ∧ call = row.call)
    (haccepting : e.accepting = true) (hbytes : row.line.length + e.bufferedBytes ≤ cfg.maxQueueBytes)
    (hworker : worker = e.worker ∨ e.worker = .none ∧ worker = .looping) :
    Submitted cfg e call line now started
      ({ e with
          retireRequested := false
          queue := e.queue ++ [row]
          bufferedBytes := e.bufferedBytes + row.line.length
          acceptedSpans := e.acceptedSpans + 1
          worker }, true)

theorem startWorker_eq (started : Bool) :
    e.startWorker started = (e, true) ∨ e.startWorker started = (e, false) ∨
      e.worker = .none ∧ e.startWorker started = ({ e with worker := .looping }, true) := by
  unfold AsyncExporter.startWorker
  cases hworker : e.worker with
  | none =>
    cases started with
    | false => exact .inr (.inl rfl)
    | true => exact .inr (.inr ⟨rfl, rfl⟩)
  | _ => exact .inl rfl

theorem submitted (call : Nat) (line : Option Bytes) (now : Nat) (started : Bool) :
    Submitted cfg e call line now started (e.submit cfg call line now started) := by
  unfold AsyncExporter.submit
  split
  · next hclosed => exact .closed (by simpa using hclosed)
  · next haccepting =>
    rw [Bool.not_eq_true, Bool.not_eq_false'] at haccepting
    cases line with
    | none => exact Submitted.dropped (e := e) e.retireRequested .serializationError (by decide)
    | some text =>
      dsimp only
      split
      · exact Submitted.dropped (e := e) false .queueFull (by decide)
      · split
        · exact Submitted.dropped (e := e) false .queueBytes (by decide)
        · next hbytes =>
          have htaken := fun worker => @Submitted.taken cfg e _ _ now started ⟨call, text⟩ worker
            ⟨rfl, rfl⟩ haccepting (Nat.le_of_not_gt hbytes)
          split
          · next e' hstart =>
            rcases startWorker_eq started with hsame | hnone | ⟨hworker, hnew⟩
            · rw [hsame] at hstart
              obtain rfl := (Prod.mk.inj hstart).1
              exact htaken e.worker (.inl rfl)
            · rw [hnone] at hstart
              cases (Prod.mk.inj hstart).2
            · rw [hnew] at hstart
              obtain rfl := (Prod.mk.inj hstart).1
              exact htaken .looping (.inr ⟨hworker, rfl⟩)
          · next e' hstart =>
            rcases startWorker_eq started with hsame | hnone | ⟨hworker, hnew⟩
            · rw [hsame] at hstart
              cases (Prod.mk.inj hstart).2
            · rw [hnone] at hstart
              obtain rfl := (Prod.mk.inj hstart).1
              have hback := @Submitted.unstarted cfg e call (some text) now started
              dsimp only
              rw [List.dropLast_concat, Nat.add_sub_cancel]
              exact hback
            · rw [hnew] at hstart
              cases (Prod.mk.inj hstart).2

namespace Conserved

theorem submit (h : Conserved cfg e accepted handed) (call : Nat) (line : Option Bytes) (now : Nat) (started : Bool) :
    Conserved cfg (e.submit cfg call line now started).1
      (accepted ++ if (e.submit cfg call line now started).2 then line.toList.map (⟨call, ·⟩) else []) handed := by
  have hkept : accepted ++ (if false then line.toList.map (PreparedRow.mk call) else []) = accepted := List.append_nil _
  have hstep := @submitted cfg e call line now started
  generalize e.submit cfg call line now started = next at hstep ⊢
  cases hstep with
  | closed hclosed =>
    rw [hkept]
    exact h.drop now (by decide) 1 false
  | dropped retire reason hreason =>
    rw [hkept]
    exact ((h.flags retire e.receiptRequested).drop now hreason.2 1 true).start started
  | unstarted =>
    rw [hkept]
    exact (h.flags false e.receiptRequested).drop now (by decide) 1 true
  | taken row worker hrow haccepting hbytes hworker =>
    obtain ⟨rfl, rfl⟩ := hrow
    have htaken := h.take haccepting row hbytes
    have hrest : worker.batch = e.worker.batch ∧ worker.charged = e.worker.charged := by
      rcases hworker with rfl | ⟨hnone, rfl⟩
      · exact ⟨rfl, rfl⟩
      · rw [hnone]
        exact ⟨rfl, rfl⟩
    have hspans := htaken.spans
    have hcharged := htaken.bytes
    rw [← hrest.1] at hspans
    rw [← hrest.2] at hcharged
    exact ⟨htaken.order, htaken.counted, hspans, hcharged, htaken.cap, htaken.closed⟩

theorem abandon (h : Conserved cfg e accepted handed) (haccepting : e.accepting = false) :
    Conserved cfg e.terminalAbandon accepted handed := by
  obtain ⟨gone, horder, hgone⟩ := h.order
  have hspans := h.spans
  have hbytes := h.bytes
  have hcap := h.cap
  have hclose : ∃ gone, Channel.InOrder ⟨accepted, handed, [], gone⟩ := by
    by_cases hnone : gone = []
    · subst hnone
      exact ⟨_, horder.close rfl⟩
    · have hempty := (h.closed (hgone hnone)).2
      rw [hempty] at horder
      exact ⟨gone, horder⟩
  obtain ⟨left, hleft⟩ := hclose
  unfold AsyncExporter.terminalAbandon
  rw [recordDrop_process]
  dsimp only
  constructor
  · exact ⟨left, hleft, fun _ => rfl⟩
  · exact h.counted
  · dsimp only
    rw [Function.update_self, List.length_nil]
    omega
  · have hnil : bytesOf [] = 0 := rfl
    dsimp only
    omega
  · dsimp only
    omega
  · exact fun _ => ⟨haccepting, rfl⟩

theorem enter (h : Conserved cfg e accepted handed) (now : Nat) : Conserved cfg (e.enter now).1 accepted handed := by
  unfold AsyncExporter.enter
  split
  · exact h.drop now (by decide) 1 false
  · exact h

theorem await (h : Conserved cfg e accepted handed) {barrier : Barrier} (hbarrier : barrier = .shutdown → e.accepting = false)
    (baseline : Nat) (expired : Bool) : Conserved cfg (e.await barrier baseline expired).1 accepted handed := by
  unfold AsyncExporter.await
  split
  · exact h
  · split
    · exact h
    · split
      · dsimp only
        split
        · next hshutdown => exact h.abandon (hbarrier hshutdown)
        · exact h
      · exact h

theorem waitOrGive (h : Conserved cfg e accepted handed) {barrier : Barrier}
    (hbarrier : barrier = .shutdown → e.accepting = false) (baseline : Nat) (started expired : Bool) :
    Conserved cfg
      (match e.startWorker started with
        | (e, true) => e.await barrier baseline expired
        | (e, false) => (if barrier = Barrier.shutdown then e.terminalAbandon else e, .done false)).1 accepted handed := by
  have hstart := h.start started
  have hsame : (e.startWorker started).1.accepting = e.accepting := by
    rcases startWorker_eq (e := e) started with heq | heq | ⟨-, heq⟩ <;> rw [heq]
  rw [← hsame] at hbarrier
  generalize e.startWorker started = next at hstart hbarrier ⊢
  obtain ⟨e', up⟩ := next
  cases up with
  | true => exact hstart.await hbarrier baseline expired
  | false =>
    dsimp only
    split
    · next hshutdown => exact hstart.abandon (hbarrier hshutdown)
    · exact hstart

theorem arrive (h : Conserved cfg e accepted handed) (barrier : Barrier) (started expired : Bool) :
    Conserved cfg (e.arrive barrier started expired).1 accepted handed := by
  have hbarrier : Conserved cfg (if barrier = .shutdown then { e with accepting := false, shutdown := true } else e)
      accepted handed ∧ (barrier = .shutdown →
        (if barrier = .shutdown then { e with accepting := false, shutdown := true } else e).accepting = false) := by
    split
    · exact ⟨h.closing, fun _ => rfl⟩
    · next hflush => exact ⟨h, fun hshutdown => absurd hshutdown hflush⟩
  unfold AsyncExporter.arrive
  dsimp only
  generalize (if barrier = .shutdown then { e with accepting := false, shutdown := true } else e) = e' at hbarrier ⊢
  obtain ⟨h', haccepting⟩ := hbarrier
  have hflags := h'.flags true (e'.receiptRequested || e'.pendingLoss)
  split
  · exact hflags.waitOrGive haccepting _ started expired
  · exact hflags.await haccepting _ expired

theorem turn (h : Conserved cfg e accepted handed) (worker : ExportWorker) (hbatch : worker.batch = e.worker.batch)
    (hcharged : worker.charged = e.worker.charged) : Conserved cfg { e with worker } accepted handed := by
  have hspans := h.spans
  have hbytes := h.bytes
  rw [← hbatch] at hspans
  rw [← hcharged] at hbytes
  exact ⟨h.order, h.counted, hspans, hbytes, h.cap, h.closed⟩

theorem awake (h : Conserved cfg e accepted handed) (hbatch : e.worker.batch = []) (hcharged : e.worker.charged = [])
    (now : Nat) : Conserved cfg (e.awake now).1 accepted (handed ++ (e.awake now).2) := by
  have hspans := h.spans
  have hbytes := h.bytes
  rw [hbatch] at hspans
  rw [hcharged] at hbytes
  unfold AsyncExporter.awake
  repeat' split
  · rw [List.append_nil]
    exact ⟨h.order, h.counted, hspans, hbytes, h.cap, h.closed⟩
  · rw [List.append_nil]
    exact ⟨h.order, h.counted, hspans, hbytes, h.cap, h.closed⟩
  · obtain ⟨gone, horder, hgone⟩ := h.order
    constructor
    · exact ⟨gone, horder.drain, hgone⟩
    · exact h.counted
    · simpa [ExportWorker.batch] using hspans
    · simpa [ExportWorker.charged, bytesOf] using hbytes
    · exact h.cap
    · exact fun habandoned => ⟨(h.closed habandoned).1, rfl⟩
  · rw [List.append_nil]
    exact ⟨h.order, h.counted, hspans, hbytes, h.cap, h.closed⟩
  · rw [List.append_nil]
    exact ⟨h.order, h.counted, hspans, hbytes, h.cap, h.closed⟩
  · rw [List.append_nil]
    exact ⟨h.order, h.counted, hspans, hbytes, h.cap, h.closed⟩

theorem settleReceipt (h : Conserved cfg e accepted handed) (hbatch : e.worker.batch = []) (hcharged : e.worker.charged = [])
    (loss : Loss) (succeeded : Bool) (now : Nat) :
    Conserved cfg (e.settleReceipt cfg loss succeeded now) accepted handed := by
  have hspans := h.spans
  have hbytes := h.bytes
  have hfree : ∀ retires : Bool, (if retires then ExportWorker.none else .looping).batch = [] ∧
      (if retires then ExportWorker.none else .looping).charged = [] := by decide
  rw [hbatch] at hspans
  rw [hcharged] at hbytes
  rw [← (hfree (!succeeded && e.queue.isEmpty)).1] at hspans
  rw [← (hfree (!succeeded && e.queue.isEmpty)).2] at hbytes
  exact ⟨h.order, h.counted, hspans, hbytes, h.cap, h.closed⟩

theorem settleBatch (h : Conserved cfg e accepted handed) (batch : List PreparedRow) (delivery : Delivery) (now : Nat)
    (hbatch : e.worker.batch = match delivery with | .abandoned => [] | _ => batch) (hcharged : e.worker.charged = batch) :
    Conserved cfg (e.settleBatch batch delivery now) accepted handed := by
  have hspans := h.spans
  have hbytes := h.bytes
  have hcap := h.cap
  have hnil : bytesOf [] = 0 := rfl
  rw [hbatch] at hspans
  rw [hcharged] at hbytes
  have hleft : e.bufferedBytes - bytesOf batch = bytesOf e.queue + bytesOf [] := by omega
  have hunder : e.bufferedBytes - bytesOf batch ≤ cfg.maxQueueBytes := by omega
  unfold AsyncExporter.settleBatch
  cases delivery with
  | succeeded =>
    refine ⟨h.order, h.counted, ?_, hleft, hunder, h.closed⟩
    dsimp only [ExportWorker.batch] at hspans ⊢
    rw [List.length_nil]
    omega
  | failed =>
    dsimp only
    split
    all_goals
      refine ⟨h.order, h.counted, ?_, hleft, hunder, h.closed⟩
      dsimp only [ExportWorker.batch] at hspans ⊢
      rw [List.length_nil]
      omega
  | abandoned => exact ⟨h.order, h.counted, hspans, hleft, hunder, h.closed⟩

theorem work (h : Conserved cfg e accepted handed) {now : Nat} {delegate : AsyncExporter.Delegate}
    {next : AsyncExporter × List PreparedRow × List (Loss × Bool)} (hwork : e.work cfg now delegate = some next) :
    Conserved cfg next.1 accepted (handed ++ next.2.1) := by
  unfold AsyncExporter.work at hwork
  split at hwork
  · cases hwork
  · next hworker =>
    obtain rfl := Option.some.inj hwork
    exact h.awake (by rw [hworker]; rfl) (by rw [hworker]; rfl) now
  · next hworker =>
    split at hwork
    · obtain rfl := Option.some.inj hwork
      rw [List.append_nil]
      exact h.turn .none (by rw [hworker]; rfl) (by rw [hworker]; rfl)
    · obtain rfl := Option.some.inj hwork
      exact h.awake (by rw [hworker]; rfl) (by rw [hworker]; rfl) now
  · next loss hworker =>
    split at hwork
    all_goals
      obtain rfl := Option.some.inj hwork
      rw [List.append_nil]
      exact h.turn _ (by rw [hworker]; rfl) (by rw [hworker]; rfl)
  · next loss hworker =>
    obtain rfl := Option.some.inj hwork
    rw [List.append_nil]
    exact h.turn _ (by rw [hworker]; rfl) (by rw [hworker]; rfl)
  · next loss succeeded hworker =>
    obtain rfl := Option.some.inj hwork
    rw [List.append_nil]
    exact h.settleReceipt (by rw [hworker]; rfl) (by rw [hworker]; rfl) loss succeeded now
  · next batch hworker =>
    split at hwork
    · obtain rfl := Option.some.inj hwork
      rw [List.append_nil]
      exact h.turn _ (by rw [hworker]; rfl) (by rw [hworker]; rfl)
    · split at hwork
      all_goals
        obtain rfl := Option.some.inj hwork
        rw [List.append_nil]
        exact h.turn _ (by rw [hworker]; rfl) (by rw [hworker]; rfl)
  · next batch hworker =>
    obtain rfl := Option.some.inj hwork
    rw [List.append_nil]
    exact h.turn _ (by rw [hworker]; rfl) (by rw [hworker]; rfl)
  · next batch hworker =>
    obtain rfl := Option.some.inj hwork
    have hspans := h.spans
    have hbytes := h.bytes
    rw [hworker] at hspans hbytes
    rw [recordDrop_process, List.append_nil]
    refine ⟨h.order, h.counted, ?_, hbytes, h.cap, h.closed⟩
    dsimp only [ExportWorker.batch] at hspans ⊢
    rw [Function.update_self, List.length_nil]
    omega
  · next batch delivery hnot hworker =>
    obtain rfl := Option.some.inj hwork
    rw [List.append_nil]
    refine h.settleBatch batch delivery now ?_ (by rw [hworker]; rfl)
    rw [hworker]
    cases delivery with
    | abandoned => exact absurd rfl hnot
    | succeeded | failed => rfl
  · next batch hworker =>
    obtain rfl := Option.some.inj hwork
    rw [List.append_nil]
    exact h.settleBatch batch .abandoned now (by rw [hworker]; rfl) (by rw [hworker]; rfl)

end Conserved

/-! ## What was lost is told of -/

namespace Told

theorem same (h : Told e receipts) {e' : AsyncExporter} (hlost : e'.lost = e.lost)
    (hpending : e'.lossSnapshot = e.lossSnapshot) (habandon : e'.abandonActive = e.abandonActive)
    (htelling : ∀ loss, e'.worker.telling = some loss → e.worker.telling = some loss)
    (hreturned : ∀ batch, e'.worker = .returned batch .abandoned → e.abandonActive = true) : Told e' receipts := by
  refine ⟨?_, ?_, ?_⟩
  · intro hopen
    have hbalanced := h.balanced (habandon ▸ hopen)
    unfold AsyncExporter.tally at hbalanced ⊢
    rw [hlost, hpending]
    exact hbalanced
  · intro hopen loss hloss
    rw [hpending]
    exact h.inflight (habandon ▸ hopen) loss (htelling loss hloss)
  · intro batch hbatch
    rw [habandon]
    exact hreturned batch hbatch

theorem ended {e' : AsyncExporter} (habandoned : e'.abandonActive = true) : Told e' receipts := by
  refine ⟨?_, ?_, fun _ _ => habandoned⟩ <;>
  · intro hopen
    rw [habandoned] at hopen
    cases hopen

theorem start (h : Told e receipts) (started : Bool) : Told (e.startWorker started).1 receipts := by
  rcases startWorker_eq (e := e) started with heq | heq | ⟨-, heq⟩
  · rw [heq]
    exact h
  · rw [heq]
    exact h
  · rw [heq]
    exact h.same rfl rfl rfl nofun nofun

theorem refuse (h : Told e receipts) (now : Nat) : Told (e.recordDrop now .shutdown 1 false) receipts := by
  rw [recordDrop_process]
  refine h.same ?_ rfl rfl (fun _ hloss => hloss) h.abandoned
  funext i
  rcases i with - | reason
  · rfl
  · cases reason <;> rfl

theorem drop (h : Told e receipts) (now : Nat) {reason : DropReason} (hreason : reason ≠ .shutdown) (count : Nat) :
    Told (e.recordDrop now reason count true) receipts := by
  obtain ⟨due, hdrop⟩ := recordDrop_durable (e := e) now reason count
  rw [hdrop]
  refine ⟨?_, ?_, h.abandoned⟩
  · intro hopen i
    have hi := h.balanced hopen i
    unfold Report.toldOf AsyncExporter.tally at hi ⊢
    rcases i with - | other
    · exact hi
    · by_cases hother : other = reason
      · subst hother
        cases other with
        | shutdown => exact absurd rfl hreason
        | _ =>
          simp only [AsyncExporter.lost, AsyncExporter.lossSnapshot, Loss.of, Function.update_self] at hi ⊢
          omega
      · cases other <;>
          simpa only [AsyncExporter.lost, AsyncExporter.lossSnapshot, Loss.of, Function.update_of_ne hother] using hi
  · intro hopen loss hloss i
    have hi := h.inflight hopen loss hloss i
    rcases i with - | other
    · exact hi
    · by_cases hother : other = reason
      · subst hother
        simp only [AsyncExporter.lossSnapshot, Loss.of, Function.update_self] at hi ⊢
        omega
      · simpa only [AsyncExporter.lossSnapshot, Loss.of, Function.update_of_ne hother] using hi

theorem submit (h : Told e receipts) (call : Nat) (line : Option Bytes) (now : Nat) (started : Bool) :
    Told (e.submit cfg call line now started).1 receipts := by
  have hstep := @submitted cfg e call line now started
  generalize e.submit cfg call line now started = next at hstep ⊢
  have hflags : ∀ retire, Told { e with retireRequested := retire } receipts :=
    fun retire => h.same rfl rfl rfl (fun _ hloss => hloss) h.abandoned
  cases hstep with
  | closed hclosed => exact h.refuse now
  | dropped retire reason hreason => exact ((hflags retire).drop now hreason.1 1).start started
  | unstarted => exact (hflags false).drop now (by decide) 1
  | taken row worker hrow haccepting hbytes hworker =>
    rcases hworker with rfl | ⟨hnone, rfl⟩
    · exact h.same rfl rfl rfl (fun _ hloss => hloss) h.abandoned
    · exact h.same rfl rfl rfl nofun nofun

theorem enter (h : Told e receipts) (now : Nat) : Told (e.enter now).1 receipts := by
  unfold AsyncExporter.enter
  split
  · exact h.refuse now
  · exact h

theorem await (h : Told e receipts) (barrier : Barrier) (baseline : Nat) (expired : Bool) :
    Told (e.await barrier baseline expired).1 receipts := by
  unfold AsyncExporter.await
  split
  · exact h
  · split
    · exact h
    · split
      · dsimp only
        split
        · exact ended rfl
        · exact h
      · exact h

theorem arrive (h : Told e receipts) (barrier : Barrier) (started expired : Bool) :
    Told (e.arrive barrier started expired).1 receipts := by
  have hbarrier : Told (if barrier = .shutdown then { e with accepting := false, shutdown := true } else e) receipts := by
    split
    · exact h.same rfl rfl rfl (fun _ hloss => hloss) h.abandoned
    · exact h
  unfold AsyncExporter.arrive
  dsimp only
  generalize (if barrier = .shutdown then { e with accepting := false, shutdown := true } else e) = e' at hbarrier ⊢
  have hflags : Told { e' with receiptRequested := e'.receiptRequested || e'.pendingLoss, retireRequested := true } receipts :=
    hbarrier.same rfl rfl rfl (fun _ hloss => hloss) hbarrier.abandoned
  split
  · have hstart := hflags.start started
    generalize AsyncExporter.startWorker _ started = next at hstart ⊢
    obtain ⟨e'', up⟩ := next
    cases up with
    | true => exact hstart.await barrier _ expired
    | false =>
      dsimp only
      split
      · exact ended rfl
      · exact hstart
  · exact hflags.await barrier _ expired

theorem awake (h : Told e receipts) (now : Nat) : Told (e.awake now).1 receipts := by
  unfold AsyncExporter.awake
  repeat' split
  · next habandoned => exact ended habandoned
  · refine ⟨h.balanced, ?_, nofun⟩
    intro hopen loss hloss i
    obtain rfl := Option.some.inj hloss
    exact Nat.le_refl _
  · exact h.same rfl rfl rfl nofun nofun
  · exact h.same rfl rfl rfl nofun nofun
  · exact h.same rfl rfl rfl nofun nofun
  · exact h.same rfl rfl rfl nofun nofun

theorem settleReceipt (h : Told e receipts) {loss : Loss} (hloss : e.worker.telling = some loss) (succeeded : Bool)
    (now : Nat) : Told (e.settleReceipt cfg loss succeeded now) (receipts ++ [(loss, succeeded)]) := by
  have hfree : (if !succeeded && e.queue.isEmpty then ExportWorker.none else .looping).telling = Option.none ∧
      ∀ batch, (if !succeeded && e.queue.isEmpty then ExportWorker.none else .looping) ≠ .returned batch .abandoned := by
    split
    · exact ⟨rfl, nofun⟩
    · exact ⟨rfl, nofun⟩
  unfold AsyncExporter.settleReceipt
  refine ⟨?_, ?_, fun batch hbatch => absurd hbatch (hfree.2 batch)⟩
  · intro hopen
    have htold := (h.balanced hopen).tell (h.inflight hopen loss hloss)
    intro i
    have hi := htold i
    unfold Report.toldOf AsyncExporter.tally at hi ⊢
    rw [List.map_append]
    rcases i with - | reason
    · exact hi
    · exact hi
  · intro hopen found hfound
    rw [hfree.1] at hfound
    cases hfound

theorem settleBatch (h : Told e receipts) (batch : List PreparedRow) (delivery : Delivery) (now : Nat) :
    Told (e.settleBatch batch delivery now) receipts := by
  unfold AsyncExporter.settleBatch
  cases delivery with
  | succeeded => exact h.same rfl rfl rfl nofun nofun
  | abandoned => exact h.same rfl rfl rfl nofun nofun
  | failed =>
    dsimp only
    split
    · next habandoned => exact ended habandoned
    · refine ⟨?_, nofun, nofun⟩
      intro hopen i
      have hi := h.balanced hopen i
      unfold Report.toldOf AsyncExporter.tally at hi ⊢
      rcases i with - | reason
      · simp only [AsyncExporter.lost, AsyncExporter.lossSnapshot, Loss.of] at hi ⊢
        omega
      · cases reason <;> exact hi

theorem work (h : Told e receipts) {now : Nat} {delegate : AsyncExporter.Delegate}
    {next : AsyncExporter × List PreparedRow × List (Loss × Bool)} (hwork : e.work cfg now delegate = some next) :
    Told next.1 (receipts ++ next.2.2) := by
  unfold AsyncExporter.work at hwork
  split at hwork
  · cases hwork
  · obtain rfl := Option.some.inj hwork
    rw [List.append_nil]
    exact h.awake now
  · split at hwork
    · obtain rfl := Option.some.inj hwork
      rw [List.append_nil]
      exact h.same rfl rfl rfl nofun nofun
    · obtain rfl := Option.some.inj hwork
      rw [List.append_nil]
      exact h.awake now
  · next loss hworker =>
    split at hwork
    all_goals
      obtain rfl := Option.some.inj hwork
      rw [List.append_nil]
      exact h.same rfl rfl rfl (fun _ hloss => by rw [hworker]; exact hloss) nofun
  · next loss hworker =>
    obtain rfl := Option.some.inj hwork
    rw [List.append_nil]
    exact h.same rfl rfl rfl (fun _ hloss => by rw [hworker]; exact hloss) nofun
  · next loss succeeded hworker =>
    obtain rfl := Option.some.inj hwork
    exact h.settleReceipt (by rw [hworker]; rfl) succeeded now
  · next batch hworker =>
    split at hwork
    · obtain rfl := Option.some.inj hwork
      rw [List.append_nil]
      exact h.same rfl rfl rfl nofun nofun
    · split at hwork
      · next habandoned =>
        obtain rfl := Option.some.inj hwork
        exact ended habandoned
      · obtain rfl := Option.some.inj hwork
        rw [List.append_nil]
        exact h.same rfl rfl rfl nofun nofun
  · obtain rfl := Option.some.inj hwork
    rw [List.append_nil]
    refine h.same rfl rfl rfl nofun ?_
    intro found hfound
    dsimp only at hfound
    split at hfound <;> cases hfound
  · next batch hworker =>
    obtain rfl := Option.some.inj hwork
    refine ended ?_
    rw [recordDrop_process]
    exact h.abandoned batch hworker
  · next batch delivery hnot hworker =>
    obtain rfl := Option.some.inj hwork
    rw [List.append_nil]
    exact h.settleBatch batch delivery now
  · next batch hworker =>
    obtain rfl := Option.some.inj hwork
    rw [List.append_nil]
    exact h.settleBatch batch .abandoned now

end Told

/-! ## After shutdown -/

theorem startWorker_accepting (started : Bool) : (e.startWorker started).1.accepting = e.accepting := by
  rcases startWorker_eq (e := e) started with heq | heq | ⟨-, heq⟩ <;> rw [heq]

theorem recordDrop_accepting (now : Nat) (reason : DropReason) (count : Nat) (durable : Bool) :
    (e.recordDrop now reason count durable).accepting = e.accepting := by
  cases durable with
  | false => rw [recordDrop_process]
  | true =>
    obtain ⟨due, hdrop⟩ := recordDrop_durable (e := e) now reason count
    rw [hdrop]

theorem submit_accepting (call : Nat) (line : Option Bytes) (now : Nat) (started : Bool) :
    (e.submit cfg call line now started).1.accepting = e.accepting := by
  have hstep := @submitted cfg e call line now started
  generalize e.submit cfg call line now started = next at hstep ⊢
  cases hstep with
  | closed => exact recordDrop_accepting ..
  | dropped => exact (startWorker_accepting started).trans (recordDrop_accepting ..)
  | unstarted => exact recordDrop_accepting ..
  | taken => rfl

theorem terminalAbandon_accepting : e.terminalAbandon.accepting = e.accepting := by
  unfold AsyncExporter.terminalAbandon
  rw [recordDrop_process]

theorem enter_accepting (now : Nat) : (e.enter now).1.accepting = e.accepting := by
  unfold AsyncExporter.enter
  split
  · exact recordDrop_accepting ..
  · rfl

theorem await_spec (barrier : Barrier) (baseline : Nat) (expired : Bool) :
    (e.await barrier baseline expired).1.accepting = e.accepting ∧
      ((e.await barrier baseline expired).2 = .waiting barrier baseline ∨
        ∃ result, (e.await barrier baseline expired).2 = .done result) := by
  unfold AsyncExporter.await
  split
  · exact ⟨rfl, .inr ⟨_, rfl⟩⟩
  · split
    · exact ⟨rfl, .inr ⟨_, rfl⟩⟩
    · split
      · refine ⟨?_, .inr ⟨_, rfl⟩⟩
        dsimp only
        split
        · exact terminalAbandon_accepting
        · rfl
      · exact ⟨rfl, .inl rfl⟩

theorem arrive_spec (barrier : Barrier) (started expired : Bool) :
    (e.arrive barrier started expired).1.accepting = (e.accepting && barrier ≠ .shutdown) ∧
      ((∃ baseline, (e.arrive barrier started expired).2 = .waiting barrier baseline) ∨
        ∃ result, (e.arrive barrier started expired).2 = .done result) := by
  have hbarrier : (if barrier = .shutdown then { e with accepting := false, shutdown := true } else e).accepting =
      (e.accepting && barrier ≠ .shutdown) := by
    cases barrier <;> simp
  unfold AsyncExporter.arrive
  dsimp only
  rw [← hbarrier]
  generalize (if barrier = .shutdown then { e with accepting := false, shutdown := true } else e) = e'
  split
  · have hstart := startWorker_accepting
      (e := { e' with receiptRequested := e'.receiptRequested || e'.pendingLoss, retireRequested := true }) started
    generalize AsyncExporter.startWorker _ started = next at hstart ⊢
    obtain ⟨e'', up⟩ := next
    cases up with
    | true =>
      obtain ⟨haccepting, hcall⟩ := await_spec (e := e'') barrier e.lossReceiptFailures expired
      exact ⟨haccepting.trans hstart, hcall.imp_left fun heq => ⟨_, heq⟩⟩
    | false =>
      refine ⟨?_, .inr ⟨_, rfl⟩⟩
      dsimp only
      split
      · exact terminalAbandon_accepting.trans hstart
      · exact hstart
  · obtain ⟨haccepting, hcall⟩ := await_spec
      (e := { e' with receiptRequested := e'.receiptRequested || e'.pendingLoss, retireRequested := true })
      barrier e.lossReceiptFailures expired
    exact ⟨haccepting, hcall.imp_left fun heq => ⟨_, heq⟩⟩

theorem awake_accepting (now : Nat) : (e.awake now).1.accepting = e.accepting := by
  unfold AsyncExporter.awake
  repeat' split
  all_goals rfl

theorem settleBatch_accepting (batch : List PreparedRow) (delivery : Delivery) (now : Nat) :
    (e.settleBatch batch delivery now).accepting = e.accepting := by
  unfold AsyncExporter.settleBatch
  cases delivery with
  | succeeded | abandoned => rfl
  | failed =>
    dsimp only
    split <;> rfl

theorem work_accepting {now : Nat} {delegate : AsyncExporter.Delegate}
    {next : AsyncExporter × List PreparedRow × List (Loss × Bool)} (hwork : e.work cfg now delegate = some next) :
    next.1.accepting = e.accepting := by
  unfold AsyncExporter.work at hwork
  repeat' split at hwork
  all_goals first
    | cases hwork
    | obtain rfl := Option.some.inj hwork
  all_goals first
    | exact awake_accepting now
    | exact settleBatch_accepting ..
    | exact recordDrop_accepting ..
    | rfl

/-! ## Runs -/

structure ExporterSound (cfg : ExporterConfig) (lines : Nat → Option Bytes) (s : ExporterRun) : Prop where
  conserved : Conserved cfg s.exporter s.accepted s.handed
  told : Told s.exporter s.receipts
  closing : ∀ i baseline, s.calls i = .waiting .shutdown baseline → s.exporter.accepting = false
  calls : ∀ row ∈ s.accepted, s.calls row.call = .done true ∧ lines row.call = some row.line
  distinct : (s.accepted.map (·.call)).Nodup

namespace ExporterSound

theorem goes (h : ExporterSound cfg lines s) (i : Nat) (hopen : s.calls i ≠ .done true)
    {next : AsyncExporter × ExportCall} (hconserved : Conserved cfg next.1 s.accepted s.handed)
    (htold : Told next.1 s.receipts) (haccepting : s.exporter.accepting = false → next.1.accepting = false)
    (hclosing : ∀ baseline, next.2 = .waiting .shutdown baseline → next.1.accepting = false) :
    ExporterSound cfg lines (s.goes i next) := by
  refine ⟨hconserved, htold, ?_, ?_, h.distinct⟩
  · intro j baseline hj
    unfold ExporterRun.goes at hj ⊢
    dsimp only at hj ⊢
    by_cases hij : j = i
    · rw [hij, Function.update_self] at hj
      exact hclosing baseline hj
    · rw [Function.update_of_ne hij] at hj
      exact haccepting (h.closing j baseline hj)
  · intro row hrow
    obtain ⟨hdone, hline⟩ := h.calls row hrow
    refine ⟨?_, hline⟩
    unfold ExporterRun.goes
    dsimp only
    rw [Function.update_of_ne]
    · exact hdone
    · rintro rfl
      exact hopen hdone

theorem submit (h : ExporterSound cfg lines s) (i now : Nat) (started : Bool) (hcall : s.calls i = .serializing) :
    ExporterSound cfg lines (s.admits i (lines i) (s.exporter.submit cfg i (lines i) now started)) := by
  have hopen : s.calls i ≠ .done true := by
    rw [hcall]
    exact nofun
  have hconserved := h.conserved.submit i (lines i) now started
  have htold := @Told.submit cfg _ _ h.told i (lines i) now started
  have haccepting := @submit_accepting cfg s.exporter i (lines i) now started
  generalize s.exporter.submit cfg i (lines i) now started = next at hconserved htold haccepting ⊢
  refine ⟨hconserved, htold, ?_, ?_, ?_⟩
  · intro j baseline hj
    unfold ExporterRun.admits ExporterRun.goes at hj ⊢
    dsimp only at hj ⊢
    by_cases hij : j = i
    · rw [hij, Function.update_self] at hj
      cases hj
    · rw [Function.update_of_ne hij] at hj
      rw [haccepting]
      exact h.closing j baseline hj
  · intro row hrow
    unfold ExporterRun.admits ExporterRun.goes at hrow ⊢
    dsimp only at hrow ⊢
    rcases List.mem_append.mp hrow with hold | hnew
    · obtain ⟨hdone, hline⟩ := h.calls row hold
      refine ⟨?_, hline⟩
      rw [Function.update_of_ne]
      · exact hdone
      · rintro rfl
        exact hopen hdone
    · split at hnew
      · next htrue =>
        obtain ⟨text, htext, rfl⟩ := List.mem_map.mp hnew
        dsimp only
        rw [Function.update_self, htrue]
        exact ⟨rfl, Option.mem_toList.mp htext⟩
      · cases hnew
  · unfold ExporterRun.admits
    dsimp only
    split
    · rw [List.map_append, List.nodup_append]
      refine ⟨h.distinct, ?_, ?_⟩
      · cases lines i with
        | none => exact List.nodup_nil
        | some text => exact List.nodup_singleton _
      · intro call hcalls other hother
        obtain ⟨row, hrow, rfl⟩ := List.mem_map.mp hcalls
        obtain ⟨new, hnew, rfl⟩ := List.mem_map.mp hother
        obtain ⟨text, -, rfl⟩ := List.mem_map.mp hnew
        intro hsame
        refine hopen ?_
        rw [← (h.calls row hrow).1]
        exact congrArg s.calls hsame.symm
    · rw [List.append_nil]
      exact h.distinct

theorem step (h : ExporterSound cfg lines s) {action : ExporterAction} (hstep : exporterStep cfg lines s action = some s') :
    ExporterSound cfg lines s' := by
  cases action with
  | enter i now =>
    unfold exporterStep at hstep
    dsimp only at hstep
    split at hstep
    · next hcall =>
      obtain rfl := Option.some.inj hstep
      refine h.goes i (by rw [hcall]; exact nofun) (h.conserved.enter now) (h.told.enter now) ?_ ?_
      · intro hclosed
        rw [enter_accepting, hclosed]
      · intro baseline hwaiting
        unfold AsyncExporter.enter at hwaiting
        split at hwaiting <;> cases hwaiting
    · cases hstep
  | submit i now started =>
    unfold exporterStep at hstep
    dsimp only at hstep
    split at hstep
    · next hcall =>
      obtain rfl := Option.some.inj hstep
      exact h.submit i now started hcall
    · cases hstep
  | arrive i barrier started expired =>
    unfold exporterStep at hstep
    dsimp only at hstep
    split at hstep
    · next hcall =>
      obtain rfl := Option.some.inj hstep
      obtain ⟨haccepting, hnext⟩ := arrive_spec (e := s.exporter) barrier started expired
      refine h.goes i (by rw [hcall]; exact nofun) (h.conserved.arrive barrier started expired)
        (h.told.arrive barrier started expired) ?_ ?_
      · intro hclosed
        rw [haccepting, hclosed, Bool.false_and]
      · intro baseline hwaiting
        rw [hwaiting] at hnext
        rcases hnext with ⟨found, hfound⟩ | ⟨result, hresult⟩
        · cases hfound
          rw [haccepting]
          simp
        · cases hresult
    · cases hstep
  | await i expired =>
    unfold exporterStep at hstep
    dsimp only at hstep
    split at hstep
    · next barrier baseline hcall =>
      obtain rfl := Option.some.inj hstep
      obtain ⟨haccepting, hnext⟩ := await_spec (e := s.exporter) barrier baseline expired
      have hbarrier : barrier = .shutdown → s.exporter.accepting = false := by
        rintro rfl
        exact h.closing i baseline hcall
      refine h.goes i (by rw [hcall]; exact nofun) (h.conserved.await hbarrier baseline expired)
        (h.told.await barrier baseline expired) ?_ ?_
      · intro hclosed
        rw [haccepting, hclosed]
      · intro found hwaiting
        rw [hwaiting] at hnext
        rcases hnext with hfound | ⟨result, hresult⟩
        · cases hfound
          rw [haccepting]
          exact hbarrier rfl
        · cases hresult
    · cases hstep
  | work now delegate =>
    obtain ⟨next, hwork, rfl⟩ := Option.map_eq_some_iff.mp hstep
    refine ⟨h.conserved.work hwork, h.told.work hwork, ?_, h.calls, h.distinct⟩
    intro j baseline hj
    exact (work_accepting hwork).trans (h.closing j baseline hj)

end ExporterSound

theorem exporterSound_start : ExporterSound cfg lines {} where
  conserved := ⟨⟨[], rfl, fun hne => absurd rfl hne⟩, rfl, rfl, rfl, Nat.zero_le _, nofun⟩
  told := by
    refine ⟨?_, nofun, nofun⟩
    intro hopen i
    rcases i with - | reason
    · rfl
    · cases reason <;> rfl
  closing i baseline hi := by cases hi
  calls row hrow := by cases hrow
  distinct := List.nodup_nil

theorem exporterRun_cons {action : ExporterAction} {actions : List ExporterAction}
    (h : exporterRun cfg lines s (action :: actions) = some s') :
    ∃ next, exporterStep cfg lines s action = some next ∧ exporterRun cfg lines next actions = some s' :=
  Option.bind_eq_some_iff.mp h

theorem exporterSound_run {actions : List ExporterAction} (hs : ExporterSound cfg lines s)
    (hrun : exporterRun cfg lines s actions = some s') : ExporterSound cfg lines s' := by
  induction actions generalizing s with
  | nil =>
    obtain rfl := Option.some.inj hrun
    exact hs
  | cons action actions ih =>
    obtain ⟨next, hnext, hrest⟩ := exporterRun_cons hrun
    exact ih (hs.step hnext) hrest

theorem step_closed {action : ExporterAction} (hclosed : s.exporter.accepting = false)
    (hstep : exporterStep cfg lines s action = some s') : s'.accepted = s.accepted ∧ s'.exporter.accepting = false := by
  cases action with
  | work now delegate =>
    obtain ⟨next, hwork, rfl⟩ := Option.map_eq_some_iff.mp hstep
    exact ⟨rfl, (work_accepting hwork).trans hclosed⟩
  | submit i now started =>
    unfold exporterStep at hstep
    dsimp only at hstep
    split at hstep
    · obtain rfl := Option.some.inj hstep
      have hrefused : s.exporter.submit cfg i (lines i) now started = (s.exporter.recordDrop now .shutdown 1 false, false) := by
        unfold AsyncExporter.submit
        rw [hclosed]
        rfl
      rw [hrefused]
      exact ⟨List.append_nil _, (recordDrop_accepting ..).trans hclosed⟩
    · cases hstep
  | enter i now =>
    unfold exporterStep at hstep
    dsimp only at hstep
    split at hstep
    · obtain rfl := Option.some.inj hstep
      exact ⟨rfl, (enter_accepting now).trans hclosed⟩
    · cases hstep
  | arrive i barrier started expired =>
    unfold exporterStep at hstep
    dsimp only at hstep
    split at hstep
    · obtain rfl := Option.some.inj hstep
      refine ⟨rfl, (arrive_spec barrier started expired).1.trans ?_⟩
      rw [hclosed, Bool.false_and]
    · cases hstep
  | await i expired =>
    unfold exporterStep at hstep
    dsimp only at hstep
    split at hstep
    · next barrier baseline hcall =>
      obtain rfl := Option.some.inj hstep
      exact ⟨rfl, (await_spec barrier baseline expired).1.trans hclosed⟩
    · cases hstep

theorem run_closed {actions : List ExporterAction} (hclosed : s.exporter.accepting = false)
    (hrun : exporterRun cfg lines s actions = some s') : s'.accepted = s.accepted := by
  induction actions generalizing s with
  | nil =>
    obtain rfl := Option.some.inj hrun
    rfl
  | cons action actions ih =>
    obtain ⟨next, hnext, hrest⟩ := exporterRun_cons hrun
    obtain ⟨hsame, hstill⟩ := step_closed hclosed hnext
    exact (ih hstill hrest).trans hsame

/-! ## The promise -/

/-- In every run: an accepted row waits, is in the worker's hands, or is counted once as exported, failed or
abandoned; the delegate is given the rows in their order and none twice; the bytes are those of the rows that
wait and of the batch the worker has not settled, within the cap; no row is accepted after shutdown began; and
until the exporter is abandoned, what was lost was told of in a receipt that was tried, or is still to be told. -/
theorem exporter_conserves {actions : List ExporterAction} (hrun : exporterRun cfg lines {} actions = some s) :
    s.exporter.acceptedSpans = s.accepted.length ∧
      s.exporter.acceptedSpans = s.exporter.queue.length + s.exporter.worker.batch.length + s.exporter.exportedSpans +
        s.exporter.exportFailures + s.exporter.dropCounts .shutdownTimeout ∧
      (s.handed <+: s.accepted ∧ (s.accepted.map (·.call)).Nodup ∧
        ∀ row ∈ s.accepted, s.calls row.call = .done true ∧ lines row.call = some row.line) ∧
      (s.exporter.bufferedBytes = bytesOf s.exporter.queue + bytesOf s.exporter.worker.charged ∧
        s.exporter.bufferedBytes ≤ cfg.maxQueueBytes ∧
        ((∀ batch, s.exporter.worker ≠ .settling batch) → s.exporter.worker.charged = s.exporter.worker.batch)) ∧
      (∀ i started expired s₁ later s₂, exporterStep cfg lines s (.arrive i .shutdown started expired) = some s₁ →
        exporterRun cfg lines s₁ later = some s₂ → s₂.accepted = s.accepted) ∧
      (s.exporter.abandonActive = false →
        (∀ reason, reason ≠ .shutdown →
          s.exporter.dropCounts reason = (s.receipts.map (·.1.drops reason)).sum + s.exporter.unreportedDrops reason) ∧
        s.exporter.exportFailures = (s.receipts.map (·.1.failures)).sum + s.exporter.unreportedExportFailures) := by
  have hsound := exporterSound_run exporterSound_start hrun
  obtain ⟨gone, horder, -⟩ := hsound.conserved.order
  refine ⟨hsound.conserved.counted, ?_, ⟨horder.handed_prefix, hsound.distinct, hsound.calls⟩,
    ⟨hsound.conserved.bytes, hsound.conserved.cap, ?_⟩, ?_, ?_⟩
  · rw [hsound.conserved.counted, hsound.conserved.spans]
  · intro hsettled
    cases hworker : s.exporter.worker with
    | settling batch => exact absurd hworker (hsettled batch)
    | _ => rfl
  · intro i started expired s₁ later s₂ harrive hlater
    unfold exporterStep at harrive
    dsimp only at harrive
    split at harrive
    · obtain rfl := Option.some.inj harrive
      have hclosed : (s.exporter.arrive .shutdown started expired).1.accepting = false := by
        rw [(arrive_spec .shutdown started expired).1]
        simp
      exact run_closed (s := s.goes i (s.exporter.arrive .shutdown started expired)) hclosed hlater
    · cases harrive
  · intro hopen
    have hbalanced := hsound.told.balanced hopen
    constructor
    · intro reason hreason
      have hi := hbalanced (some reason)
      unfold Report.toldOf AsyncExporter.tally at hi
      rw [List.map_map] at hi
      cases reason with
      | shutdown => exact absurd rfl hreason
      | _ => exact hi
    · have hi := hbalanced none
      unfold Report.toldOf AsyncExporter.tally at hi
      rw [List.map_map] at hi
      exact hi

def smallExporter : ExporterConfig where
  maxQueueSpans := 1
  maxQueueBytes := 4
  lossReceiptInterval := 1
  spans_pos := by decide
  bytes_pos := by decide

/-- The first call has a short line, every other one a line beyond the cap. -/
def shortThenLong (i : Nat) : Option Bytes :=
  if i = 0 then some [123, 125, newline] else some [123, 34, 97, 34, 58, 49, 125, newline]

theorem exporter_conserves_one :
    ∃ s, exporterRun smallExporter shortThenLong {}
        [.enter 0 1, .submit 0 1 true, .work 1 .goesOn, .work 1 .goesOn, .work 1 .goesOn, .work 1 .goesOn] = some s ∧
      s.handed <+: s.accepted ∧ (s.accepted.map (·.call)).Nodup ∧ s.exporter.bufferedBytes ≤ 4 := by
  obtain ⟨s, hs⟩ := Option.isSome_iff_exists.mp
    (by decide : (exporterRun smallExporter shortThenLong {}
      [.enter 0 1, .submit 0 1 true, .work 1 .goesOn, .work 1 .goesOn, .work 1 .goesOn, .work 1 .goesOn]).isSome = true)
  obtain ⟨-, -, ⟨hbegins, hnodup, -⟩, ⟨-, hcap, -⟩, -⟩ := exporter_conserves hs
  exact ⟨s, hs, hbegins, hnodup, hcap⟩

/-- The one receipt of a dropped row fails and is not tried again; a call after shutdown is counted as dropped and
never told of; and a batch that lost the race to shutdown is counted as abandoned while its bytes are charged. -/
theorem loss_not_always_told :
    (∃ s, exporterRun smallExporter shortThenLong {}
        [.enter 1 1, .submit 1 1 true, .work 1 .goesOn, .work 1 .raises, .work 1 .goesOn] = some s ∧
      s.exporter.abandonActive = false ∧ s.exporter.dropCounts .queueBytes = 1 ∧
      s.receipts.map (·.2) = [false] ∧ s.exporter.unreportedDrops .queueBytes = 0) ∧
    (∃ s, exporterRun smallExporter shortThenLong {} [.arrive 1 .shutdown true false, .enter 0 1] = some s ∧
      s.exporter.abandonActive = false ∧ s.exporter.dropCounts .shutdown = 1 ∧ s.receipts.length = 0 ∧
      s.exporter.unreportedDrops .shutdown = 0) ∧
    ∃ s, exporterRun smallExporter shortThenLong {}
        [.enter 0 1, .submit 0 1 true, .work 1 .goesOn, .arrive 1 .shutdown true true, .work 1 .goesOn,
          .work 1 .goesOn] = some s ∧
      s.exporter.acceptedSpans = 1 ∧ s.exporter.dropCounts .shutdownTimeout = 1 ∧ s.exporter.queue = [] ∧
      s.exporter.bufferedBytes = 3 := by
  refine ⟨?_, ?_, ?_⟩
  · obtain ⟨s, hs, hp⟩ := (Option.any_eq_true _ _).mp
      (by decide : (exporterRun smallExporter shortThenLong {}
        [.enter 1 1, .submit 1 1 true, .work 1 .goesOn, .work 1 .raises, .work 1 .goesOn]).any (fun s =>
          !s.exporter.abandonActive && s.exporter.dropCounts .queueBytes = 1 && s.receipts.map (·.2) = [false] &&
            s.exporter.unreportedDrops .queueBytes = 0) = true)
    exact ⟨s, hs, by simpa [and_assoc] using hp⟩
  · obtain ⟨s, hs, hp⟩ := (Option.any_eq_true _ _).mp
      (by decide : (exporterRun smallExporter shortThenLong {} [.arrive 1 .shutdown true false, .enter 0 1]).any (fun s =>
        !s.exporter.abandonActive && s.exporter.dropCounts .shutdown = 1 && s.receipts.length = 0 &&
          s.exporter.unreportedDrops .shutdown = 0) = true)
    exact ⟨s, hs, by simpa [and_assoc] using hp⟩
  · obtain ⟨s, hs, hp⟩ := (Option.any_eq_true _ _).mp
      (by decide : (exporterRun smallExporter shortThenLong {}
        [.enter 0 1, .submit 0 1 true, .work 1 .goesOn, .arrive 1 .shutdown true true, .work 1 .goesOn,
          .work 1 .goesOn]).any (fun s =>
          s.exporter.acceptedSpans = 1 && s.exporter.dropCounts .shutdownTimeout = 1 && s.exporter.queue.isEmpty &&
            s.exporter.bufferedBytes = 3) = true)
    exact ⟨s, hs, by simpa [and_assoc] using hp⟩

end LoopLab.Trace
