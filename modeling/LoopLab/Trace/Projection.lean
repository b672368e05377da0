import LoopLab.Trace.Redact

/-!
# The projection of a span

A row of the trace is whatever an exporter wrote. What is shown or indexed of it is this projection: the known
fields only, texts redacted and cut against one budget, numbers checked, with a receipt of what was left out.
-/

set_option autoImplicit false

namespace LoopLab.Trace
open Redact

def SPAN_TEXT_BUDGET : Nat := 8192
def INT32_MAX : Nat := 2 ^ 31 - 1
def MAX_TRACE_TOKENS : Int := 2 ^ 63 - 1
def MAX_TRACE_SECONDS : Rat := 10 ^ 15
def MAX_SPAN_ID_CHARS : Nat := 256
def MAX_NODE_ID_CHARS : Nat := 128
def EVENTS_CAP : Nat := 16
def EVENT_FIELDS_CAP : Nat := 8
def STRUCT_ITEMS_CAP : Nat := 32
def STRUCT_DEPTH_CAP : Nat := 3
def TOOL_CALLS_CAP : Nat := 16
def IO_CAP : Nat := 2000
def MSGS_CAP : Nat := 10
def TRACE_PROJECTION_SCHEMA : Int := 2

/-! ## The budget -/

inductive Omission where
  | fields | attributes | events | messages | toolCalls | items | chars
  deriving DecidableEq, Repr

namespace Omission

def name : Omission → String
  | fields => "omitted_fields"
  | attributes => "omitted_attributes"
  | events => "omitted_events"
  | messages => "omitted_messages"
  | toolCalls => "omitted_tool_calls"
  | items => "omitted_items"
  | chars => "omitted_chars"

def all : List Omission := [fields, attributes, events, messages, toolCalls, items, chars]

end Omission

def projectionCounter (v : Json) : Nat :=
  match v with
  | .int i => if 0 ≤ i && i ≤ INT32_MAX then i.toNat else 0
  | _ => 0

/-- `_ProjectionBudget`: the characters left, and what was left out so far. -/
structure Budget where
  remaining : Nat
  counts : Omission → Nat
  previousTruncated : Bool

namespace Budget

def start (previous : Json) : Budget :=
  let fields := previous.obj?.getD []
  { remaining := SPAN_TEXT_BUDGET
    counts := fun o => projectionCounter (fields.get o.name)
    previousTruncated := (fields.get "truncated").isTrue }

/-- `omit` -/
def leave (b : Budget) (o : Omission) (n : Nat) : Budget :=
  { b with counts := fun p => if p = o then min INT32_MAX (b.counts p + n) else b.counts p }

def spend (b : Budget) (n : Nat) : Budget := { b with remaining := b.remaining - n }

def metadata (b : Budget) : Obj :=
  let counted := Omission.all.filter fun o => b.counts o ≠ 0
  [("schema", .int TRACE_PROJECTION_SCHEMA),
    ("truncated", .bool (b.previousTruncated || !counted.isEmpty || b.remaining = 0))] ++
    counted.map fun o => (o.name, .int (b.counts o))

end Budget

section Env
variable (env : TextEnv)

def Budget.text (b : Budget) (value : Json) (cap : Nat) (singleLine : Bool) : String × Budget :=
  let allowed := min cap b.remaining
  let raw := redactPersistedText env value allowed singleLine
  let original := (persistedInput env value).length
  let b := if allowed < original then b.leave .chars (original - allowed) else b
  (raw, b.spend raw.length)

/-! ## Structured values -/

def structuredFields (child : Json → Budget → Json × Budget) : Obj → Obj → Budget → Obj × Budget
  | [], out, b => (out, b)
  | (rawKey, v) :: rest, out, b =>
    let (key, b) := b.text env (.str rawKey) 80 true
    if key = "" then structuredFields child rest out (b.leave .items 1)
    else
      let (value, b) := if isSecretKeyName env rawKey.toList then (.str "***", b) else child v b
      if b.remaining = 0 then (out.set key value, b)
      else structuredFields child rest (out.set key value) b

def structuredItems (child : Json → Budget → Json × Budget) : List Json → Budget → List Json × Budget
  | [], b => ([], b)
  | v :: rest, b =>
    if b.remaining = 0 then structuredItems child rest b
    else
      let (w, b) := child v b
      let (ws, b) := structuredItems child rest b
      (w :: ws, b)

/-- `_safe_structured`, with the depth that is left. -/
def safeStructured : Nat → Json → Budget → Json × Budget
  | _, .null, b => (.null, b)
  | _, .bool v, b => (.bool v, b)
  | _, .str s, b =>
    let (t, b) := b.text env (.str s) 2000 false
    (.str t, b)
  | _, .int i, b =>
    if -(2 ^ 63) ≤ i && i ≤ MAX_TRACE_TOKENS then (.int i, b)
    else
      let (t, b) := b.text env (.int i) 64 false
      (.str t, b)
  | _, .float q, b => (.float q, b)
  | 0, _, b => (.str "<depth-limited>", b.leave .items 1)
  | depth + 1, .obj fields, b =>
    let b := b.leave .items (fields.length - STRUCT_ITEMS_CAP)
    let (out, b) := structuredFields env (safeStructured depth) (fields.take STRUCT_ITEMS_CAP) [] b
    (.obj out, b)
  | depth + 1, .arr items, b =>
    let b := b.leave .items (items.length - STRUCT_ITEMS_CAP)
    let (out, b) := structuredItems (safeStructured depth) (items.take STRUCT_ITEMS_CAP) b
    (.arr out, b)

/-- `budget.text(...) or default` -/
def Budget.textOr (b : Budget) (value : Json) (cap : Nat) (default : String) : String × Budget :=
  let (t, b) := b.text env value cap true
  (if t = "" then default else t, b)

/-- The messages of a conversation, until the budget is spent; `kept` is how many were selected. -/
def projectedMessages (kept : Nat) : List Json → List Json → Budget → List Json × Budget
  | [], out, b => (out, b)
  | raw :: rest, out, b =>
    match raw.obj? with
    | none => projectedMessages kept rest out (b.leave .messages 1)
    | some fields =>
      let (role, b) := b.textOr env (fields.getD "role" (.str "user")) 32 "user"
      let (content, b) := b.text env (fields.getD "content" (.str "")) IO_CAP false
      let out := out ++ [.obj [("role", .str role), ("content", .str content)]]
      if b.remaining = 0 then (out, b.leave .messages (kept - out.length))
      else projectedMessages kept rest out b

def projectMessages (value : Json) (b : Budget) : Json × Budget :=
  match value with
  | .arr messages =>
    let total := messages.length
    let head := MSGS_CAP / 2
    let (kept, b) :=
      if MSGS_CAP < total then
        (messages.take head ++ messages.drop (total - (MSGS_CAP - head)), b.leave .messages (total - MSGS_CAP))
      else (messages, b)
    let (out, b) := projectedMessages env kept.length kept [] b
    (.arr out, b)
  | .null => (.arr [], b)
  | _ => (.arr [], b.leave .messages 1)

def projectedToolCalls : List Json → Budget → List Json × Budget
  | [], b => ([], b)
  | raw :: rest, b =>
    match raw.obj? with
    | none => projectedToolCalls rest (b.leave .toolCalls 1)
    | some fields =>
      let (name, b) := b.text env (fields.getD "name" (.str "")) 128 true
      let (arguments, b) := b.text env (fields.getD "arguments" (.str "")) 1000 false
      let (out, b) := projectedToolCalls rest b
      (.obj [("name", .str name), ("arguments", .str arguments)] :: out, b)

def projectToolCalls (value : Json) (b : Budget) : Json × Budget :=
  match value with
  | .arr calls =>
    let b := b.leave .toolCalls (calls.length - TOOL_CALLS_CAP)
    let (out, b) := projectedToolCalls env (calls.take TOOL_CALLS_CAP) b
    (.arr out, b)
  | .null => (.arr [], b)
  | _ => (.arr [], b.leave .toolCalls 1)

/-! ## Numbers and ids -/

def normalizedId (value : Json) : Option String :=
  match value with
  | .str s =>
    if s = "" || MAX_SPAN_ID_CHARS < s.length then none
    else if redactPersistedText env (.str s) MAX_SPAN_ID_CHARS true = s then some s else none
  | .int i => if 0 ≤ i && i ≤ MAX_TRACE_TOKENS then some (toString i) else none
  | _ => none

/-- `_finite_number`; no maximum where it is that of the floats. -/
def finiteNumber (value : Json) (nonnegative : Bool) (maximum : Option Rat) : Json :=
  let number : Option Rat := match value with
    | .bool _ => none
    | .str s => if 64 < (Py.strip s).length then none else value.toFloat
    | v => v.toFloat
  match number with
  | none => .float 0
  | some q =>
    if maximum.any (fun m => m < q || q < -m) || (nonnegative && q < 0) then .float 0 else
    match value with
    | .str _ => .float q
    | v => v

def safeTokenCount (value : Json) : Int :=
  let bounded (i : Int) : Int := if 0 ≤ i && i ≤ MAX_TRACE_TOKENS then i else 0
  match value with
  | .int i => bounded i
  | .float q => if q.den = 1 then bounded q.num else 0
  | .str s =>
    if 32 < (Py.strip s).length then 0 else
    match Py.parseFloat s with
    | some q => if q.den = 1 then bounded q.num else 0
    | none => 0
  | _ => 0

/-! ## Attributes -/

abbrev Handler := Json → Budget → Option Json × Budget

def leftOut (b : Budget) : Option Json × Budget := (none, b.leave .attributes 1)

def nodeIdHandler : Handler := fun v b =>
  match v with
  | .int i => if 0 ≤ i && i ≤ MAX_TRACE_TOKENS then (some (.int i), b) else leftOut b
  | .str s =>
    if s ≠ "" && s.length ≤ MAX_NODE_ID_CHARS then
      let (t, b) := b.text env (.str s) MAX_NODE_ID_CHARS true
      (some (.str t), b)
    else leftOut b
  | _ => leftOut b

def refHandler : Handler := fun v b =>
  match normalizedId env v with
  | some id => (some (.str id), b)
  | none => leftOut b

def textHandler (cap : Nat) (singleLine : Bool) : Handler := fun v b =>
  let (t, b) := b.text env v cap singleLine
  (some (.str t), b)

def boolHandler : Handler := fun v b => if v.isBool then (some v, b) else leftOut b

def intHandler : Handler := fun v b =>
  match v with
  | .int i => if -(2 ^ 63) ≤ i && i ≤ MAX_TRACE_TOKENS then (some (.int i), b) else leftOut b
  | _ => leftOut b

def floatHandler (nonnegative : Bool) : Handler := fun v b => (some (finiteNumber v nonnegative none), b)

def parentHandler : Handler := fun v b =>
  match v with
  | .int i => if 0 ≤ i && i ≤ MAX_TRACE_TOKENS then (some (.int i), b) else leftOut b
  | _ => leftOut b

def USAGE_FIELDS : List String := ["prompt", "completion", "total", "context", "cached"]

def usageHandler : Handler := fun v b =>
  match v with
  | .obj usage =>
    let safe := USAGE_FIELDS.filterMap fun k =>
      if Obj.has usage k then some (k, Json.int (safeTokenCount (Obj.get usage k))) else none
    (some (.obj safe), b.leave .items (usage.length - safe.length))
  | _ => (some (.obj []), b.leave .attributes 1)

def structuredHandler : Handler := fun v b =>
  let (w, b) := safeStructured env STRUCT_DEPTH_CAP v b
  (some w, b)

def inputHandler (kind : String) : Handler := fun v b =>
  if kind = "generation" then
    let (w, b) := projectMessages env v b
    (some w, b)
  else structuredHandler env v b

def toolCallsHandler : Handler := fun v b =>
  let (w, b) := projectToolCalls env v b
  (some w, b)

def outputHandler : Handler := fun v b =>
  match v with
  | .str _ => textHandler env IO_CAP false v b
  | .null => textHandler env IO_CAP false v b
  | _ => structuredHandler env v b

/-- `_ATTR_TEXT_FIELDS`, sorted. -/
def ATTR_TEXT_FIELDS : List String :=
  ["card_id", "error_reason", "handoff_from", "handoff_to", "level", "looplab.exporter.instance_id",
    "looplab.exporter.metric", "materialized", "model", "op", "operator", "package", "phase", "reason",
    "stage", "tool", "trigger"]

/-- `_ATTR_BOOL_FIELDS`, sorted. -/
def ATTR_BOOL_FIELDS : List String :=
  ["drift", "feasible", "input_partial", "ok", "proxy_skipped", "reused", "sandboxed", "timed_out"]

/-- `_ATTR_INT_FIELDS`, sorted. -/
def ATTR_INT_FIELDS : List String :=
  ["attempt", "blocks", "card_build_generation", "exit_code", "generation", "input_carry",
    "looplab.exporter.dropped.queue_bytes", "looplab.exporter.dropped.queue_full",
    "looplab.exporter.dropped.serialization_error", "looplab.exporter.dropped.shutdown",
    "looplab.exporter.dropped.shutdown_timeout", "looplab.exporter.dropped.worker_start",
    "looplab.exporter.dropped_spans", "looplab.exporter.export_failures", "looplab.exporter.pid",
    "looplab.exporter.queue_capacity_bytes", "looplab.exporter.queue_capacity_spans",
    "proposed_for_node", "repair_attempts", "seed", "violations"]

/-- `_ATTR_FLOAT_FIELDS`, sorted. -/
def ATTR_FLOAT_FIELDS : List String := ["eval_seconds", "metric", "proxy_score", "robust_metric"]

def handlers (kind : String) : List (String × Handler) :=
  [("node_id", nodeIdHandler env)] ++
    (["phase_span", "input_from", "build_trace"].map fun k => (k, refHandler env)) ++
    (ATTR_TEXT_FIELDS.map fun k =>
      (k, textHandler env (if ["reason", "error_reason", "materialized"].contains k then 512 else 160)
        (!(["reason", "error_reason"].contains k)))) ++
    (ATTR_BOOL_FIELDS.map fun k => (k, boolHandler)) ++
    (ATTR_INT_FIELDS.map fun k => (k, intHandler)) ++
    (ATTR_FLOAT_FIELDS.map fun k => (k, floatHandler false)) ++
    [("parent_id", parentHandler), ("usage", usageHandler), ("cost", floatHandler true),
      ("model_parameters", structuredHandler env), ("tool_calls", toolCallsHandler env),
      ("input", inputHandler env kind), ("output", outputHandler env), ("thinking", outputHandler env)]

def project : List (String × Handler) → Obj → Budget → Obj × Budget
  | [], _, b => ([], b)
  | (k, handle) :: rest, raw, b =>
    match raw.lookup k with
    | none => project rest raw b
    | some v =>
      let (kept, b) := handle v b
      let (out, b) := project rest raw b
      ((kept.map (k, ·)).toList ++ out, b)

/-- `_ATTRIBUTE_FIELDS` -/
def ATTRIBUTE_FIELDS : List String := (handlers env "").map Prod.fst

/-- `attributes["input_partial"] = True`; the flag stands among the flags, as the order of a dictionary
is not compared. -/
def markPartial (attributes : Obj) : Obj :=
  (ATTRIBUTE_FIELDS env).filterMap fun k =>
    if k = "input_partial" then some (k, .bool true) else (attributes.lookup k).map (k, ·)

/-! ## Events -/

def EVENT_FIELDS : List String :=
  ["error", "type", "message", "n", "count", "status", "stage", "step", "reason"]

def longField (key : String) : Bool := ["error", "message", "reason"].contains key

def eventField (key : String) (v : Json) (b : Budget) : Json × Budget :=
  if key = "n" || key = "count" then (.int (safeTokenCount v), b)
  else
    let (t, b) := b.text env v (if longField key then 500 else 160) (!longField key)
    (.str t, b)

def eventFields : Obj → Budget → Obj × Budget
  | [], b => ([], b)
  | (key, v) :: rest, b =>
    let (w, b) := eventField env key v b
    let (out, b) := eventFields rest b
    ((key, w) :: out, b)

def projectEvent (raw : Obj) (b : Budget) : Obj × Budget :=
  let (name, b) := b.textOr env (raw.getD "name" (.str "event")) 80 "event"
  let allowed := raw.filter fun kv => kv.1 ≠ "name" && EVENT_FIELDS.contains kv.1
  let b := b.leave .fields (raw.countP fun kv => kv.1 ≠ "name" && !EVENT_FIELDS.contains kv.1)
  let b := b.leave .fields (allowed.length - EVENT_FIELDS_CAP)
  let (fields, b) := eventFields env (allowed.take EVENT_FIELDS_CAP) b
  (("name", .str name) :: fields, b)

def projectedEvents : List Json → Budget → List Json × Budget
  | [], b => ([], b)
  | raw :: rest, b =>
    match raw.obj? with
    | none => projectedEvents rest (b.leave .events 1)
    | some fields =>
      let (event, b) := projectEvent env fields b
      let (out, b) := projectedEvents rest b
      (.obj event :: out, b)

def projectEvents (value : Json) (b : Budget) : List Json × Budget :=
  match value with
  | .arr events =>
    projectedEvents env (events.take EVENTS_CAP) (b.leave .events (events.length - EVENTS_CAP))
  | .null => ([], b)
  | _ => ([], b.leave .events 1)

/-! ## Spans -/

def SPAN_FIELDS : List String :=
  ["name", "kind", "trace_id", "span_id", "parent_id", "run_id", "status", "start", "end", "duration_s",
    "attributes", "events", "_projection"]

structure ProjectedSpan where
  name : String
  kind : String
  traceId : String
  spanId : String
  parentId : Option String
  runId : String
  status : String
  start : Json
  finish : Option Json
  duration : Option Json
  attributes : Obj
  events : List Json
  projection : Obj

def projectSpan (value : Obj) : Option ProjectedSpan := do
  let spanId ← normalizedId env (value.get "span_id")
  let traceId ← normalizedId env (value.get "trace_id")
  let b := Budget.start (value.get "_projection")
  let b := b.leave .fields (value.countP fun kv => !SPAN_FIELDS.contains kv.1)
  let parentId := normalizedId env (value.get "parent_id")
  let b := b.leave .fields (if !(value.get "parent_id").isNull && parentId.isNone then 1 else 0)
  let (name, b) := b.textOr env (value.getD "name" (.str "span")) 160 "span"
  let (kind, b) := b.textOr env (value.getD "kind" (.str "operation")) 32 "operation"
  let (runId, b) := b.text env (value.getD "run_id" (.str "")) 256 true
  let (status, b) := b.text env (value.getD "status" (.str "")) 32 true
  let start := finiteNumber (value.getD "start" (.float 0)) false (some MAX_TRACE_SECONDS)
  let finish := (value.lookup "end").map fun v => finiteNumber v false (some MAX_TRACE_SECONDS)
  let duration := (value.lookup "duration_s").map fun v => finiteNumber v true (some MAX_TRACE_SECONDS)
  let rawAttributes := (value.get "attributes").obj?.getD []
  let b := b.leave .attributes (rawAttributes.countP fun kv => !(ATTRIBUTE_FIELDS env).contains kv.1)
  let (attributes, b) := project (handlers env kind) rawAttributes b
  let attributes := if kind = "generation" && b.counts .messages ≠ 0 then markPartial env attributes else attributes
  let (events, b) := projectEvents env (value.get "events") b
  some
    { projection := b.metadata
      name, kind, traceId, spanId, parentId, runId, status
      start, finish, duration
      attributes, events }

end Env

end LoopLab.Trace
