import LoopLab.Log.Reader

/-!
# Appending to the log

An append runs under the log lock: it polls the file, refuses a divergent log, cuts off a torn tail, takes the next
sequence number from its own high-water mark and from the end of the file, and writes one line.
-/

set_option autoImplicit false

namespace LoopLab
open Lib

/-- What a call reads from its surroundings: whether a reset, deletion or relocation of the run bars
writing, the clock, the trace ids in force, and the stats the file gets where the call changes it. -/
structure Moment where
  fenced : Bool := false
  time : Nat → Rat := fun _ => 0
  currentIds : Option String × Option String := (none, none)
  healedAt : Int × Int := (0, 0)
  writtenAt : Int × Int := (0, 0)
  newEntry : Nat × Nat := (0, 0)

inductive Refusal where
  | fenced
  | corruption (detail : Divergence)
  | concurrency (expected actual : Int)
  /-- `int(obj["seq"])` raised on the last row. -/
  | seqUnreadable
  | reservedType
  | tooManyMembers
  | tooManyBytes
  | unserializable
  | io
  deriving DecidableEq, Repr

/-- Where the write of a payload failed: in `f.write`, after it in the flush or the sync of the file,
or in publishing the directory entry of a file just created. -/
inductive Stage where
  | write | sync | publish
  deriving DecidableEq, Repr

/-- What becomes of the write: it succeeds, its process dies after some bytes short of the newline,
or it raises after some bytes reached the file. -/
inductive Fate where
  | lands
  | dies (k : Nat)
  | fails (stage : Stage) (k : Nat)
  deriving DecidableEq, Repr

inductive Outcome where
  | returned (events : List Event)
  | raised (why : Refusal)
  | died
  | hung

structure Ended where
  store : EventStore
  disk : Disk
  outcome : Outcome

/-! ## The end of the file -/

def tailWindow : Nat := 65536

/-- The raw `seq` of a line that is a row with one. -/
def Codec.rowSeq (c : Codec) (raw : Bytes) : Option Json :=
  match c.loads raw with
  | some (.obj o) => o.lookup "seq"
  | _ => none

/-- The nonblank pieces between newlines in the last 64 KiB; the first may be the end of a line. -/
def tailLines (content : Bytes) : List Bytes :=
  (pieces newline (content.drop (content.length - tailWindow))).filter fun line =>
    !(stripBytes line).isEmpty

/-- The raw `seq` of the last row in sight. -/
def Codec.tailSeq (c : Codec) (content : Bytes) : Option Json :=
  (tailLines content).reverse.findSome? c.rowSeq

/-- What `_disk_last_seq` comes to before its fallback. -/
inductive Found where
  | seq (i : Int)
  | raises
  | unseen
  deriving DecidableEq, Repr

def Codec.diskLastSeq (c : Codec) (disk : Disk) : Found :=
  if disk.content = [] then .seq (-1)
  else
    match c.tailSeq disk.content with
    | none => .unseen
    | some v =>
      match v.toInt with
      | some i => .seq i
      | none => .raises

namespace EventStore

/-- `max(self._seq, self._disk_last_seq())`, with the fallback to a full read; nothing where `int`
raises. -/
def currentSeq (c : Codec) (disk : Disk) (s : EventStore) : EventStore × Option Int :=
  match c.diskLastSeq disk with
  | .seq i => (s, some (max s.seq i))
  | .raises => (s, none)
  | .unseen => (s.readAll c disk, some (max s.seq (lastSeq (s.readAll c disk).cache)))

end EventStore

/-- `f.truncate(newline_at + 1)`: everything behind the last newline goes. -/
def healTornTail (content : Bytes) : Bytes := content.rdropWhile (· ≠ newline)

def File.heal (m : Moment) (f : File) : File :=
  if healTornTail f.content = f.content then f
  else { f with
    content := healTornTail f.content
    mtimeNs := m.healedAt.1
    ctimeNs := m.healedAt.2 }

def Disk.heal (m : Moment) (disk : Disk) : Disk := disk.map (File.heal m)

/-- The file after some bytes were written at its end; opening it creates it. -/
def Disk.written (m : Moment) (disk : Disk) (bytes : Bytes) : Disk :=
  some {
    content := disk.content ++ bytes
    entry := (disk.map File.entry).getD m.newEntry
    mtimeNs := m.writtenAt.1
    ctimeNs := m.writtenAt.2 }

/-! ## A write whose end is not known -/

namespace EventStore

/-- `_uncertain_append_needs_reservation`, once the end of the file is known to hold `i`. -/
def needsReservation (disk : Disk) (seq i : Int) : Bool :=
  decide (i < seq) && decide (disk.content ≠ []) && decide (disk.content.getLast? ≠ some newline)

/-- Everything the store knew is dropped; the sequence number may be kept for the lost write. -/
def reserve (s : EventStore) (disk : Disk) (seq i : Int) : EventStore :=
  { seq := if needsReservation disk seq i then max s.seq seq else s.seq }

/-- `_mark_uncertain_append`. It holds the read lock, so the fallback of `_disk_last_seq`, which reads
the log under that lock, never returns. -/
def markUncertainAppend (c : Codec) (disk : Disk) (seq : Int) (s : EventStore) :
    Option EventStore :=
  match c.diskLastSeq disk with
  | .seq i => some (s.reserve disk seq i)
  | .raises => some s
  | .unseen => none

def wrote (s : EventStore) (last : Int) (st : Option Stat) : EventStore :=
  { s with seq := last, trustedGrowthStat := st }

def write (c : Codec) (m : Moment) (disk : Disk) (payload : Bytes) (last : Int)
    (events : List Event) (fate : Fate) (s : EventStore) : Ended :=
  match fate with
  | .lands =>
    let disk := disk.written m payload
    ⟨(s.wrote last disk.stat).readAll c disk, disk, .returned events⟩
  | .dies k => ⟨s, disk.written m (payload.dropLast.take k), .died⟩
  | .fails .write k => ⟨s, disk.written m (payload.take k), .raised .io⟩
  | .fails .sync k =>
    let disk := disk.written m (payload.take k)
    match s.markUncertainAppend c disk last with
    | some s => ⟨s, disk, .raised .io⟩
    | none => ⟨s, disk, .hung⟩
  | .fails .publish _ => ⟨s, disk.written m payload, .raised .io⟩

/-- A payload with its newline, the last logical sequence number in it and its events. -/
abbrev Built := Bytes × Int × List Event

def lockedAppend (c : Codec) (m : Moment) (build : Int → Except Refusal Built)
    (expectedLastSeq : Option Int) (fate : Fate) (disk : Disk) (s : EventStore) : Ended :=
  if m.fenced then ⟨s, disk, .raised .fenced⟩
  else
    let s := s.readAll c disk
    match s.divergence with
    | some d => ⟨s, disk, .raised (.corruption d)⟩
    | none =>
      let disk := disk.heal m
      match s.currentSeq c disk with
      | (s, none) => ⟨s, disk, .raised .seqUnreadable⟩
      | (s, some cur) =>
        match expectedLastSeq.filter (· ≠ cur) with
        | some expected => ⟨s, disk, .raised (.concurrency expected cur)⟩
        | none =>
          match build cur with
          | .error why => ⟨s, disk, .raised why⟩
          | .ok (payload, last, events) => s.write c m disk payload last events fate

end EventStore

/-! ## The payloads -/

/-- `current_ids()` unless the call names its own. -/
def Moment.ids (m : Moment) (trace : Option (Option String × Option String)) :
    Option String × Option String := trace.getD m.currentIds

/-- The events of a call, numbered on from `cur`. -/
def numbered (m : Moment) (ids : Option String × Option String) (cur : Int) :
    Nat → List (String × Obj) → List Event
  | _, [] => []
  | offset, (type, data) :: rest =>
    { seq := cur + 1 + offset, ts := m.time offset, type, data, traceId := ids.1, spanId := ids.2 } ::
      numbered m ids cur (offset + 1) rest

def batchEnvelope (ids : Option String × Option String) (events : List Event) : Event where
  seq := lastSeq events
  ts := (events.getLast?.map Event.ts).getD 0
  type := eventBatchType
  data := [("schema", .str eventBatchSchema), ("count", .int events.length),
    ("first_seq", .int ((events.head?.map Event.seq).getD 0)), ("last_seq", .int (lastSeq events)),
    ("events", .arr (events.map fun e => .obj e.dump))]
  traceId := ids.1
  spanId := ids.2

def physicalEnvelope (envelope : Event) : Obj := envelope.dump.set "type" eventBatchGuardType

namespace Codec
variable (c : Codec)

/-- `_build` of `append` -/
def buildOne (m : Moment) (ids : Option String × Option String) (type : String) (data : Obj)
    (cur : Int) : Except Refusal EventStore.Built :=
  let e : Event :=
    { seq := cur + 1, ts := m.time 0, type, data, traceId := ids.1, spanId := ids.2 }
  match c.dumps (.obj e.dump) with
  | none => .error .unserializable
  | some text => .ok (text ++ [newline], e.seq, [e])

/-- `_build` of `append_many` -/
def buildMany (m : Moment) (ids : Option String × Option String) (records : List (String × Obj))
    (cur : Int) : Except Refusal EventStore.Built :=
  let events := numbered m ids cur 0 records
  match c.dumps (.obj (physicalEnvelope (batchEnvelope ids events))) with
  | none => .error .unserializable
  | some text =>
    if maxEventBatchBytes < text.length + 1 then .error .tooManyBytes
    else .ok (text ++ [newline], lastSeq events, events)

end Codec

namespace EventStore
variable (c : Codec) (m : Moment)

/-- `append(type, data, ...)` -/
def append (type : String) (data : Obj) (trace : Option (Option String × Option String))
    (expectedLastSeq : Option Int) (fate : Fate) (disk : Disk) (s : EventStore) : Ended :=
  if type = eventBatchType then ⟨s, disk, .raised .reservedType⟩
  else s.lockedAppend c m (c.buildOne m (m.ids trace) type data) expectedLastSeq fate disk

/-- `append_many(records, ...)` -/
def appendMany (records : List (String × Obj)) (trace : Option (Option String × Option String))
    (expectedLastSeq : Option Int) (fate : Fate) (disk : Disk) (s : EventStore) : Ended :=
  if records = [] then ⟨s, disk, .returned []⟩
  else if maxEventBatchMembers < records.length then ⟨s, disk, .raised .tooManyMembers⟩
  else if records.any (·.1 = eventBatchType) then ⟨s, disk, .raised .reservedType⟩
  else s.lockedAppend c m (c.buildMany m (m.ids trace) records) expectedLastSeq fate disk

end EventStore

/-- A call on a store, with the trace ids and the last sequence number it names. -/
inductive Request where
  | append (type : String) (data : Obj)
  | appendMany (records : List (String × Obj))

structure Call where
  request : Request
  trace : Option (Option String × Option String) := none
  expectedLastSeq : Option Int := none

namespace Request

def records : Request → List (String × Obj)
  | append type data => [(type, data)]
  | appendMany records => records

end Request

/-- The build function a call hands to `_locked_append`. -/
def Call.build (c : Codec) (m : Moment) (call : Call) (cur : Int) :
    Except Refusal EventStore.Built :=
  match call.request with
  | .append type data => c.buildOne m (m.ids call.trace) type data cur
  | .appendMany records => c.buildMany m (m.ids call.trace) records cur

def EventStore.call (c : Codec) (m : Moment) (call : Call) (fate : Fate) (disk : Disk)
    (s : EventStore) : Ended :=
  match call.request with
  | .append type data => s.append c m type data call.trace call.expectedLastSeq fate disk
  | .appendMany records => s.appendMany c m records call.trace call.expectedLastSeq fate disk

end LoopLab
