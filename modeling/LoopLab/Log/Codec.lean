import LoopLab.State
import LoopLab.Lib.Lines

/-!
# The bytes of a line and what they decode to

The log is a file of bytes; a line of it is JSON text. `Codec` stands for the two libraries behind that text, the
JSON parser and printer and the validation of the event envelope, and for the digest the store compares prefixes
with.
-/

set_option autoImplicit false

namespace LoopLab

abbrev Bytes := List UInt8

/-- `b"\n"` -/
def newline : UInt8 := 10

/-- The bytes `bytes.strip` drops at either end. -/
def isSpaceByte (b : UInt8) : Bool := b = 32 || (9 ≤ b && b ≤ 13)

/-- `line.strip()` -/
def stripBytes (line : Bytes) : Bytes := (line.dropWhile isSpaceByte).rdropWhile isSpaceByte

theorem stripBytes_newline (line : Bytes) : stripBytes (line ++ [newline]) = stripBytes line := by
  have hn : isSpaceByte newline = true := rfl
  rw [stripBytes, stripBytes, List.dropWhile_append]
  split
  · rename_i h
    have h' : line.dropWhile isSpaceByte = [] := List.isEmpty_iff.mp h
    rw [h', List.dropWhile_cons_of_pos hn]
    rfl
  · rw [List.rdropWhile_concat_pos _ _ _ hn]

namespace Event

def optStr : Option String → Json
  | none => .null
  | some s => .str s

/-- `event.model_dump(mode="json")` -/
def dump (e : Event) : Obj :=
  [("v", .int e.v), ("seq", .int e.seq), ("ts", .float e.ts), ("type", .str e.type),
    ("data", .obj e.data), ("trace_id", optStr e.traceId), ("span_id", optStr e.spanId)]

end Event

/-- `orjson`, the validation of `Event` and SHA-256. `dumps` gives nothing where it raises, `loads`
where the text is not JSON, `validate` where the fields do not make an event. -/
structure Codec where
  loads : Bytes → Option Json
  dumps : Json → Option Bytes
  /-- `Event.model_validate(obj, strict=...)` -/
  validate : Bool → Obj → Option Event
  sha256 : Bytes → Bytes
  loads_dumps : ∀ {j t}, dumps j = some t → loads t = some j
  dumps_self : ∀ {j t}, dumps j = some t → j.pyEq j = true
  dumps_newline : ∀ {j t}, dumps j = some t → newline ∉ t
  dumps_braces : ∀ {o t}, dumps (.obj o) = some t → t.head? = some 123 ∧ t.getLast? = some 125
  loads_take : ∀ {o t k}, dumps (.obj o) = some t → k < t.length → loads (t.take k) = none
  loads_drop : ∀ {r o} k, loads (stripBytes r) = some (.obj o) →
    loads (r.drop k) = none ∨ loads (r.drop k) = some (.obj o)
  validate_dump : ∀ strict (e : Event), validate strict e.dump = some e
  /-- A row without `seq` gets the field's default. -/
  validate_no_seq : ∀ {strict o e}, validate strict o = some e → o.lookup "seq" = none → e.seq = -1
  /-- Where `int` accepts the raw value, it is the validated one. -/
  validate_seq : ∀ {strict o e v i}, validate strict o = some e → o.lookup "seq" = some v →
    v.toInt = some i → e.seq = i

theorem Codec.dumps_ne_nil (c : Codec) {o : Obj} {t : Bytes} (h : c.dumps (.obj o) = some t) :
    t ≠ [] := by
  rintro rfl
  exact absurd (c.dumps_braces h).1 (by simp)

theorem Codec.dumps_strip (c : Codec) {o : Obj} {t : Bytes} (h : c.dumps (.obj o) = some t) :
    stripBytes t = t := by
  obtain ⟨hhead, hlast⟩ := c.dumps_braces h
  have hne := c.dumps_ne_nil h
  obtain ⟨b, bs, rfl⟩ := List.exists_cons_of_ne_nil hne
  have hb : b = 123 := by simpa using hhead
  rw [stripBytes, List.dropWhile_cons_of_neg (by rw [hb]; decide)]
  rw [List.rdropWhile_eq_self_iff]
  intro _
  rw [List.getLast?_eq_some_getLast hne, Option.some.injEq] at hlast
  rw [hlast]
  decide

end LoopLab

/-!
## Physical records

A line holds either one event or a batch envelope with many.
-/

namespace LoopLab
open Lib

def eventBatchType : String := "__looplab_event_batch_v1__"
def eventBatchSchema : String := "looplab.event-batch/v1"
def maxEventBatchMembers : Nat := 4096
def maxEventBatchBytes : Nat := 8 * 1024 * 1024

/-- The `type` an envelope carries on disk: a list, so that an older reader refuses the row. -/
def eventBatchGuardType : Json := .arr [.str eventBatchType]

def eventFields : List String := ["v", "seq", "ts", "type", "data", "trace_id", "span_id"]
def eventBatchDataFields : List String := ["schema", "count", "first_seq", "last_seq", "events"]
def supportedEventEnvelopeVersions : List Int := [1]

/-- `set(obj) == fields` -/
def Obj.hasExactly (o : Obj) (fields : List String) : Bool :=
  fields.all o.has && o.all (fields.contains ·.1)

def isEventBatchRecord (o : Obj) : Bool :=
  let marker := o.get "type"
  marker.eqStr eventBatchType || marker.pyEq eventBatchGuardType

/-- `all(event.seq == expected_seq + offset ...)` -/
def countsFrom : Int → List Event → Bool
  | _, [] => true
  | n, e :: es => e.seq == n && countsFrom (n + 1) es

def eventSequenceContinues (events : List Event) (expectedSeq : Int) : Bool :=
  !events.isEmpty && countsFrom expectedSeq events

namespace Codec
variable (c : Codec)

/-- One member of an envelope: canonical, of this version, not itself an envelope, in its place. -/
def decodeMember (seq : Int) (raw : Json) : Option Event := do
  let o ← raw.obj?
  guard (o.hasExactly eventFields)
  let event ← c.validate true o
  guard ((Json.obj event.dump).pyEq raw && event.v == 1 && event.type != eventBatchType &&
    event.seq == seq)
  pure event

def decodeMembers : Int → List Json → Option (List Event)
  | _, [] => some []
  | seq, raw :: rest => do
    let event ← c.decodeMember seq raw
    let events ← decodeMembers (seq + 1) rest
    pure (event :: events)

/-- `_decode_batch_envelope`; nothing stands for the `ValueError`s. -/
def decodeBatchEnvelope (o : Obj) : Option (List Event) := do
  guard (o.hasExactly eventFields && isEventBatchRecord o)
  let canonicalOuter := o.set "type" (.str eventBatchType)
  let outer ← c.validate true canonicalOuter
  guard ((Json.obj outer.dump).pyEq (.obj canonicalOuter))
  guard (outer.v == 1)
  let data := outer.data
  guard (data.hasExactly eventBatchDataFields && (data.get "schema").eqStr eventBatchSchema)
  let count ← (data.get "count").int?
  guard (1 ≤ count && count ≤ maxEventBatchMembers)
  let firstSeq ← (data.get "first_seq").int?
  let lastSeq ← (data.get "last_seq").int?
  guard (0 ≤ firstSeq && lastSeq == outer.seq && firstSeq == lastSeq - count + 1)
  let members ← (data.get "events").arr?
  guard (members.length == count)
  let text ← c.dumps (.obj o)
  guard (text.length + 1 ≤ maxEventBatchBytes)
  c.decodeMembers firstSeq members

/-- `decode_event_record(obj)` -/
def decodeEventRecord (o : Obj) : Option (List Event) :=
  if isEventBatchRecord o then c.decodeBatchEnvelope o
  else do
    let event ← c.validate false o
    guard (!(o.getD "v" (.int 1)).isBool && supportedEventEnvelopeVersions.contains event.v)
    pure [event]

/-- `decode_jsonl_line(raw)`: nothing where it raises, `some none` for a blank line. -/
def decodeJsonlLine (raw : Bytes) : Option (Option Obj) :=
  let line := stripBytes raw
  if line.isEmpty then some none
  else match c.loads line with
    | some (.obj o) => some (some o)
    | _ => none

/-- `scan_jsonl_region(buf)` on the complete lines of the buffer, the first at `pos`: each object
with the offsets of its line, and the offset after the last line passed. -/
def scanJsonlRegion (pos : Nat) : List Bytes → List (Obj × Nat × Nat) × Nat
  | [] => ([], pos)
  | line :: rest =>
    match c.decodeJsonlLine line with
    | none => ([], pos)
    | some none => scanJsonlRegion (pos + line.length + 1) rest
    | some (some o) =>
      let (records, consumed) := scanJsonlRegion (pos + line.length + 1) rest
      ((o, pos, pos + line.length) :: records, consumed)

/-- `_parse_jsonl_region(buf)` -/
def parseJsonlRegion (buf : Bytes) : List (Obj × Nat) × Nat :=
  let (records, consumed) := c.scanJsonlRegion 0 (cut newline buf).1
  (records.map fun r => (r.1, r.2.2 + 1), consumed)

end Codec

end LoopLab
