import LoopLab.Log.Codec

/-!
# The readers of the log

The streaming reader, the divergence walk and the incremental reader of an `EventStore`.
-/

set_option autoImplicit false

namespace LoopLab
open Lib

/-- `file_identity`: device and inode, size, timestamps. -/
structure Stat where
  entry : Nat × Nat
  size : Nat
  mtimeNs : Int
  ctimeNs : Int
  deriving DecidableEq, Repr

structure File where
  content : Bytes
  entry : Nat × Nat
  mtimeNs : Int
  ctimeNs : Int
  deriving DecidableEq, Repr

abbrev Disk := Option File

def File.stat (f : File) : Stat := ⟨f.entry, f.content.length, f.mtimeNs, f.ctimeNs⟩

namespace Disk

def content (disk : Disk) : Bytes := (disk.map File.content).getD []

def stat (disk : Disk) : Option Stat := disk.map File.stat

def complete (disk : Disk) : List Bytes := (cut newline disk.content).1

end Disk

/-- What `log_divergence` reports. -/
structure Divergence where
  goodRecords : Nat
  corruptLine : Nat
  droppedLines : Nat
  deriving DecidableEq, Repr

/-- `events[-1].seq + 1 if events else 0` -/
def nextSeq (events : List Event) : Int :=
  match events.getLast? with
  | some e => e.seq + 1
  | none => 0

/-- `events[-1].seq if events else -1` -/
def lastSeq (events : List Event) : Int :=
  match events.getLast? with
  | some e => e.seq
  | none => -1

namespace Codec
variable (c : Codec)

/-- `iter_jsonl` on complete lines, each with its newline. -/
def iterLines : List Bytes → List Obj
  | [] => []
  | line :: rest =>
    match c.decodeJsonlLine (line ++ [newline]) with
    | none => []
    | some none => iterLines rest
    | some (some o) => o :: iterLines rest

def iterJsonl (disk : Disk) : List Obj := c.iterLines disk.complete

def iterEvents (expectedSeq : Int) : List Obj → List Obj
  | [] => []
  | o :: rest =>
    match c.decodeEventRecord o with
    | none => []
    | some events =>
      if eventSequenceContinues events expectedSeq then
        (if isEventBatchRecord o then events.map Event.dump else [o]) ++
          iterEvents (nextSeq events) rest
      else []

/-- `iter_event_jsonl(path)` -/
def iterEventJsonl (disk : Disk) : List Obj := c.iterEvents 0 (c.iterJsonl disk)

/-- The walk of `log_divergence` from line `i`, after `good` events. -/
def divergenceFrom (expectedSeq : Int) (good i : Nat) : List Bytes → Option Divergence
  | [] => none
  | line :: rest =>
    let s := stripBytes line
    if s.isEmpty then divergenceFrom expectedSeq good (i + 1) rest
    else
      let events := do
        let obj ← c.decodeJsonlLine s
        let events ← c.decodeEventRecord (← obj)
        guard (eventSequenceContinues events expectedSeq)
        pure events
      match events with
      | some events => divergenceFrom (nextSeq events) (good + events.length) (i + 1) rest
      | none =>
        some ⟨good, i + 1, (rest.filter fun later => !(stripBytes later).isEmpty).length⟩

/-- `log_divergence(path)` -/
def logDivergence (disk : Disk) : Option Divergence := c.divergenceFrom 0 0 0 disk.complete

/-- The loop of `read_all` over the parsed records: the events accepted and the offset it may
consume up to, which is `consumed` when no record breaks it off. -/
def acceptRecords (consumed : Nat) (expectedSeq : Int) (okBytes : Nat) :
    List (Obj × Nat) → List Event × Nat
  | [] => ([], consumed)
  | (o, stop) :: rest =>
    match c.decodeEventRecord o with
    | none => ([], okBytes)
    | some recordEvents =>
      if eventSequenceContinues recordEvents expectedSeq then
        let (evs, ok) := acceptRecords consumed (nextSeq recordEvents) stop rest
        (recordEvents ++ evs, ok)
      else ([], okBytes)

end Codec

/-- `_CACHE_ANCHOR_BYTES` -/
def cacheAnchorBytes : Nat := 64 * 1024

/-- `buf[-n:]` -/
def lastBytes (n : Nat) (buf : Bytes) : Bytes :=
  if n = 0 then buf else buf.drop (buf.length - n)

structure EventStore where
  cache : List Event := []
  cacheBytes : Nat := 0
  cacheMtimeNs : Option Int := none
  cacheCtimeNs : Option Int := none
  cacheIdentity : Option (Nat × Nat) := none
  cacheHasher : Bytes := []
  trustedGrowthStat : Option Stat := none
  prefixHead : Option Bytes := none
  prefixTail : Option Bytes := none
  fullVerifiedBytes : Nat := 0
  divergence : Option Divergence := none
  divergenceStat : Option Stat := none
  seq : Int := -1

namespace EventStore

/-! ## What a poll decides from the stat -/

def sizeOf (st : Option Stat) : Nat := (st.map Stat.size).getD 0

def verdictStands (s : EventStore) (st : Option Stat) : Bool :=
  s.divergence.isSome && st.isSome && st == s.divergenceStat

def replaced (s : EventStore) (st : Option Stat) : Bool :=
  s.cacheIdentity.isSome && st.map Stat.entry != s.cacheIdentity

def sameSizeRewrite (s : EventStore) (st : Option Stat) : Bool :=
  sizeOf st == s.cacheBytes && s.cacheMtimeNs.isSome &&
    (st.map Stat.mtimeNs != s.cacheMtimeNs || st.map Stat.ctimeNs != s.cacheCtimeNs)

def trustedGrowth (s : EventStore) (st : Option Stat) : Bool :=
  decide (s.cacheBytes < sizeOf st) && st.isSome && st == s.trustedGrowthStat

def externalGrowth (s : EventStore) (st : Option Stat) : Bool :=
  decide (s.cacheBytes < sizeOf st) && decide (0 < s.cacheBytes) && !s.trustedGrowth st &&
    !s.replaced st

/-! ## The proof that the consumed prefix still stands -/

def readPrefixWindows (content : Bytes) (consumed : Nat) : Option (Bytes × Bytes) :=
  if consumed = 0 then none
  else
    let window := min cacheAnchorBytes consumed
    let head := content.take window
    let tail := if window < consumed then (content.drop (consumed - window)).take window else head
    if head.length < window || tail.length < window then none else some (head, tail)

def windowsSeeded (s : EventStore) : Bool := s.prefixHead.isSome

def proofDue (s : EventStore) : Bool := decide (2 * s.fullVerifiedBytes ≤ s.cacheBytes)

/-- `observed is None or observed != (self._prefix_head, self._prefix_tail)` -/
def windowsDiffer (s : EventStore) (content : Bytes) : Bool :=
  match readPrefixWindows content s.cacheBytes with
  | none => true
  | some (head, tail) => some head != s.prefixHead || some tail != s.prefixTail

def hashDiffers (c : Codec) (s : EventStore) (content : Bytes) : Bool :=
  let read := content.take s.cacheBytes
  read.length != s.cacheBytes || c.sha256 read != c.sha256 s.cacheHasher

def seedWindows (s : EventStore) (read : Bytes) : EventStore :=
  let window := min cacheAnchorBytes s.cacheBytes
  { s with
    prefixHead := some (read.take window)
    prefixTail := some (read.drop (read.length - window))
    fullVerifiedBytes := s.cacheBytes }

/-- The windows decide, unless they are not seeded or the prefix has doubled since its last full
hash; then the hash does. -/
def checkPrefix (c : Codec) (s : EventStore) (content : Bytes) : Bool × EventStore :=
  if s.windowsSeeded && !s.proofDue then (s.windowsDiffer content, s)
  else if s.hashDiffers c content then (true, s)
  else (false, s.seedWindows (content.take s.cacheBytes))

/-! ## The updates of a poll -/

def forgetTrust (s : EventStore) : EventStore := { s with trustedGrowthStat := none }

def invalidate (s : EventStore) : EventStore :=
  { s with
    cache := []
    cacheBytes := 0
    cacheHasher := []
    divergence := none
    divergenceStat := none
    prefixHead := none
    prefixTail := none
    fullVerifiedBytes := 0 }

def extend (s : EventStore) (evs : List Event) (accepted : Bytes) : EventStore :=
  let window := min cacheAnchorBytes (s.cacheBytes + accepted.length)
  { s with
    cache := s.cache ++ evs
    cacheHasher := s.cacheHasher ++ accepted
    cacheBytes := s.cacheBytes + accepted.length
    prefixHead := s.prefixHead.map fun head => (head ++ accepted).take window
    prefixTail :=
      if s.prefixHead.isSome then s.prefixTail.map fun tail => lastBytes window (tail ++ accepted)
      else s.prefixTail }

def diverge (s : EventStore) (d : Divergence) (st : Option Stat) : EventStore :=
  { s with divergence := some d, divergenceStat := st }

/-- The bytes behind the consumed prefix are parsed. A complete line left over is a divergence. -/
def absorb (c : Codec) (disk : Disk) (s : EventStore) : EventStore :=
  let new := disk.content.drop s.cacheBytes
  let (objs, consumed) := c.parseJsonlRegion new
  let (evs, okBytes) := c.acceptRecords consumed (nextSeq s.cache) 0 objs
  let s := s.extend evs (new.take okBytes)
  let remainder := new.drop okBytes
  if newline ∈ remainder then
    s.diverge ((c.logDivergence disk).getD
      ⟨s.cache.length, s.cache.length + 1, remainder.count newline - 1⟩) disk.stat
  else s

def stamp (s : EventStore) (st : Option Stat) : EventStore :=
  { s with
    cacheMtimeNs := st.map Stat.mtimeNs
    cacheCtimeNs := st.map Stat.ctimeNs
    cacheIdentity := st.map Stat.entry }

def setSeq (s : EventStore) (seq : Int) : EventStore := { s with seq := seq }

def proved (c : Codec) (disk : Disk) (s : EventStore) : Bool × EventStore :=
  if s.externalGrowth disk.stat then s.checkPrefix c disk.content else (false, s)

def cacheInvalidated (c : Codec) (disk : Disk) (s : EventStore) : Bool :=
  decide (sizeOf disk.stat < s.cacheBytes) || s.replaced disk.stat || s.sameSizeRewrite disk.stat ||
    (s.proved c disk).1

def catchUp (c : Codec) (disk : Disk) (s : EventStore) : EventStore :=
  (if s.cacheBytes < sizeOf disk.stat then s.absorb c disk else s).stamp disk.stat

/-- `read_all()`; the events it returns are the resulting `cache`. -/
def readAll (c : Codec) (disk : Disk) (s : EventStore) : EventStore :=
  if s.verdictStands disk.stat then s
  else if s.cacheInvalidated c disk then
    let s := (s.proved c disk).2.forgetTrust.invalidate.catchUp c disk
    s.setSeq (lastSeq s.cache)
  else (s.proved c disk).2.forgetTrust.catchUp c disk

/-- `EventStore(path)` -/
def new (c : Codec) (disk : Disk) : EventStore :=
  let s := ({} : EventStore).readAll c disk
  let s := s.setSeq (lastSeq s.cache)
  if s.cacheBytes = 0 ∧ s.divergence = none ∧ 0 < sizeOf disk.stat then
    { s with divergence := c.logDivergence disk }
  else s

end EventStore

end LoopLab
