import LoopLab.Json
import LoopLab.Lib.Table

/-!
# Normalisation of the measured fields of a terminal row

An evaluation reports its secondary metrics, their channels and directions, a resource curve and an activation
record as raw JSON.
-/

set_option autoImplicit false

namespace LoopLab
open Lib

/-- `s[:n]` -/
def Py.cut (n : Nat) (s : String) : String := String.ofList (s.toList.take n)

def Py.sortedSet (xs : List String) : List String := xs.eraseDups.mergeSort

def EXTRA_METRICS_MAX_ITEMS : Nat := 256
def EXTRA_METRIC_DECLARED : String := "declared"
def EXTRA_METRIC_CHANNELS : List String := [EXTRA_METRIC_DECLARED, "auto", "engine"]
def DIRECTIONS : List String := ["min", "max"]

/-- `v in words` -/
def Json.oneOf (v : Json) (words : List String) : Bool := words.any v.eqStr

def dictOf {α : Type} (entries : List (String × α)) : Dict String α :=
  entries.foldl (fun d kv => d.set kv.1 kv.2) Table.empty

def keysOf {α : Type} (d : Dict String α) : List String := d.rows.map Prod.fst

/-- The first keys up to the bound, those in `priority` before the others. -/
def keptKeys (keys : List String) (maxItems : Nat) (priority : List String) : List String :=
  keys.foldl (fun keep k => if maxItems ≤ keep.length then keep else keep.insert k)
    (keys.filter (priority.contains ·)).eraseDups

def keptEntries {α : Type} (entries : List (String × α)) (maxItems : Nat)
    (priority : List String) : Dict String α :=
  let keep := keptKeys (entries.map Prod.fst) maxItems (priority.map (Py.cut 200))
  dictOf (entries.filter fun kv => keep.contains kv.1)

def extraMetricEntries (value : Json) : List (String × Rat) :=
  (value.obj?.getD []).filterMap fun (k, raw) => raw.finiteMetric.map (Py.cut 200 k, ·)

def normalizeExtraMetrics (value : Json) (maxItems : Nat := EXTRA_METRICS_MAX_ITEMS) :
    Dict String Rat :=
  keptEntries (extraMetricEntries value) maxItems []

def channelEntries (value : Json) : List (String × String) :=
  (value.obj?.getD []).filterMap fun (k, raw) =>
    (raw.str?.filter (EXTRA_METRIC_CHANNELS.contains ·)).map (Py.cut 200 k, ·)

def normalizeExtraMetricChannels (entries : List (String × String))
    (priority : List String := []) : Dict String String :=
  keptEntries (entries.map fun kv => (Py.cut 200 kv.1, kv.2)) EXTRA_METRICS_MAX_ITEMS priority

def normalizeExtraMetricDirections (value : Json) : Dict String String :=
  (value.obj?.getD []).foldl
    (fun out (k, raw) =>
      match raw.str?.filter (DIRECTIONS.contains ·) with
      | some way =>
        if EXTRA_METRICS_MAX_ITEMS ≤ out.rows.length then out else out.set (Py.cut 200 k) way
      | none => out)
    Table.empty

/-- The nonnegative integer decimals of a marker, at most the bound of them. -/
def keptDecimals (fields : Obj) : Dict String Int :=
  fields.foldl
    (fun out (k, raw) =>
      match raw.int? with
      | some i =>
        if EXTRA_METRICS_MAX_ITEMS ≤ out.rows.length || i < 0 then out else out.set (Py.cut 200 k) i
      | none => out)
    Table.empty

def keptSources (fields : Obj) : Dict String String :=
  dictOf ((fields.take EXTRA_METRICS_MAX_ITEMS).filterMap fun (k, raw) =>
    (raw.str?.filter fun s => k ≠ "" && Py.strip s ≠ "").map fun s => (Py.cut 200 k, Py.cut 400 s))

def normalizeExtraMetricBackfill (value : Obj) : Obj :=
  if !(value.get "backfilled").truthy then [] else
  let at_ := match value.get "backfilled_at" with
    | .int i => [("backfilled_at", Json.float i)]
    | .float q => [("backfilled_at", Json.float q)]
    | _ => []
  let decimals := (keptDecimals ((value.get "precision_decimals").obj?.getD [])).rows
  let names := ((value.get "keys").arr?.getD []).filterMap fun v =>
    (v.str?.filter (· ≠ "")).map (Py.cut 200)
  let named := (Py.sortedSet names).take EXTRA_METRICS_MAX_ITEMS
  let sources := (keptSources ((value.get "sources").obj?.getD [])).rows
  [("backfilled", .bool true)] ++ at_
    ++ (if decimals.isEmpty then [] else
      [("precision_decimals", .obj (decimals.map fun kv => (kv.1, .int kv.2)))])
    ++ (if named.isEmpty then [] else [("keys", .arr (named.map .str))])
    ++ (if sources.isEmpty then [] else
      [("sources", .obj (sources.map fun kv => (kv.1, .str kv.2)))])

/-- The declared value of the objective key, unless its own direction contradicts the run's. -/
def objectiveValue (extraMetrics : Dict String Rat) (provenance : Dict String String)
    (key : String) (directions : Dict String String) (runDirection : String) : Option Rat :=
  if key = "" || provenance.get key ≠ some EXTRA_METRIC_DECLARED then none
  else match directions.get key with
    | some way =>
      if DIRECTIONS.contains way && DIRECTIONS.contains runDirection && way ≠ runDirection then none
      else extraMetrics.get key
    | none => extraMetrics.get key

/-- `row_objective`: the objective stamp of a row. -/
def rowObjective (stamp : Json) : Option String := stamp.str?.filter (· ≠ "")

/-- `plan_extra_metrics_import`: the metrics of `found` that are new and fit beside `live`. -/
def planExtraMetricsImport (live : Dict String Rat) (found : Json) : List (String × Rat) :=
  let every := normalizeExtraMetrics found (found.obj?.getD []).length
  let normal := every.rows.take EXTRA_METRICS_MAX_ITEMS
  let fresh := (normal.filter fun kv => !live.has kv.1).mergeSort fun a b => a.1 ≤ b.1
  fresh.take (EXTRA_METRICS_MAX_ITEMS - live.rows.length)

def extraMetricsAreImportsOnly (metrics : Dict String Rat) (record : Obj) : Bool :=
  if metrics.rows.isEmpty || !(record.get "backfilled").truthy then false
  else match record.get "keys", record.get "sources" with
    | .arr named, .obj sources =>
      metrics.rows.all fun kv =>
        named.any (·.eqStr kv.1) && ((Obj.get sources kv.1).str?.any (· ≠ ""))
    | _, _ => false

def ACTIVATION_TEXT_CAP : Nat := 200
def ACTIVATION_LIST_CAP : Nat := 8

def activationTexts (items : Json) : List String :=
  ((items.arr?.getD []).filterMap fun x => x.str?.map (Py.cut ACTIVATION_TEXT_CAP)).take
    ACTIVATION_LIST_CAP

def normalizeActivationRecord (value : Json) : Option Obj := do
  let d ← value.obj?
  if !(d.get "verdict").oneOf ["ok", "warn"] then none else
  let pick := fun (key : String) (words : List String) (other : String) =>
    if (d.get key).oneOf words then d.get key else Json.str other
  let kinds := (activationTexts (d.get "kinds")).filter (["log", "env", "file", "none"].contains ·)
  let causes := match d.get "causes" with
    | .obj rows =>
      let kept := dictOf (rows.filterMap fun (k, v) =>
        v.str?.map fun s => (Py.cut ACTIVATION_TEXT_CAP k, Py.cut 64 s))
      [("causes", Json.obj ((kept.rows.take ACTIVATION_LIST_CAP).map fun kv => (kv.1, .str kv.2)))]
    | _ => []
  some ([("verdict", d.get "verdict"), ("grade", pick "grade" ["strong", "medium", "weak"] "weak"),
      ("missing", .arr ((activationTexts (d.get "missing")).map .str)),
      ("kinds", .arr (kinds.map .str)), ("mode", pick "mode" ["strict", "graded"] "graded"),
      ("change_class", pick "change_class" ["config_only", "code"] "code")]
    ++ causes
    ++ (if (d.get "gate").oneOf ["audit", "gate"] then [("gate", d.get "gate")] else [])
    ++ (if (d.get "rechecked").isTrue then [("rechecked", .bool true)] else []))

def activationUnverified (activation : Option Obj) : Bool :=
  activation.any fun record => (record.get "verdict").eqStr "warn"

def extraMetricsOmitted (raw : Json) : Obj :=
  match raw.obj? with
  | none => []
  | some d =>
    match d.get "count" with
    | .int count =>
      if count ≤ 0 then [] else
      let names := (((d.get "names").arr?.getD []).take 32).filterMap fun v =>
        v.str?.map fun s => Json.str (Py.cut 200 s)
      [("count", .int (min count (2 ^ 31))), ("names", .arr names)]
    | _ => []

/-- The `i`-th of 32 evenly spread indices into a list of `n` coordinates, rounded to nearest. -/
def curveIndex (n i : Nat) : Nat := (2 * i * (n - 1) + 31) / 62

def normalizeResourceCurve (raw : Json) : Option (List (Rat × Rat)) := do
  let entries ← raw.arr?
  let point := fun (entry : Json) => do
    match entry with
    | .arr [r, v] => pure (← r.finiteMetric, ← v.finiteMetric)
    | _ => none
  let byResource : Dict Rat Rat :=
    (entries.filterMap point).foldl (fun d p => d.set p.1 p.2) Table.empty
  let coords := byResource.rows.mergeSort fun a b => a.1 ≤ b.1
  if coords.isEmpty then none
  else if coords.length ≤ 32 then some coords
  else some ((List.range 32).filterMap fun i => coords[curveIndex coords.length i]?)

def nonnegSeconds (v : Json) : Rat :=
  match v.toFloat with
  | some q => if 0 ≤ q then q else 0
  | none => 0

theorem nonnegSeconds_nonneg (v : Json) : 0 ≤ nonnegSeconds v := by
  unfold nonnegSeconds
  split
  · split
    · assumption
    · exact Rat.le_refl
  · exact Rat.le_refl

end LoopLab
