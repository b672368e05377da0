import LoopLab.Lib.Scanner
import LoopLab.Log.Codec
import LoopLab.Trace.Spans
import LoopLab.Trace.Projection
import Mathlib.Data.List.Sort

/-!
# The bands of a conversation

The spans of a node are grouped into bands, one for each sub-loop of each trace, and the map of its episodes lists
the bands a page at a time.
-/

set_option autoImplicit false

namespace LoopLab.Trace
open LoopLab.Lib Redact

def ProjectedSpan.span (p : ProjectedSpan) : Span :=
  { traceId := p.traceId
    spanId := p.spanId
    parentId := p.parentId
    name := p.name
    start := p.start.toFloat.getD 0
    nodeId := match p.attributes.get "node_id" with
      | .int i => some (.num i.toNat)
      | .str s => some (.name s)
      | _ => none
    generation := (p.attributes.get "generation").int?
    buildTrace := (p.attributes.get "build_trace").str?
    cardId := (p.attributes.get "card_id").str? }

def MAX_PARENT_HOPS : Nat := 1024

namespace ProjectedSpan
variable (p : ProjectedSpan)

def text (k : String) : String := ((p.attributes.get k).str?).getD ""

def begin : Rat := p.start.toFloat.getD 0

end ProjectedSpan

/-- `{s["span_id"]: s for s in ss}` -/
def lastById (spans : List ProjectedSpan) (id : String) : Option ProjectedSpan :=
  spans.reverse.find? (·.spanId = id)

/-- `_iter_parent_spans`, from the parent on, with the hops that are left. -/
def parentSpans (byId : String → Option ProjectedSpan) (stop : Option String) :
    Nat → List String → Option String → List ProjectedSpan
  | 0, _, _ => []
  | _ + 1, _, none => []
  | hops + 1, seen, some id =>
    if stop = some id || seen.contains id then []
    else
      match byId id with
      | none => []
      | some parent => parent :: parentSpans byId stop hops (id :: seen) parent.parentId

/-- What a band is named and timed by: an operation on record, or what stands in for it. -/
structure BandSpan where
  id : String
  name : Option String
  begin : Rat
  op : Option ProjectedSpan := none

def BandSpan.of (p : ProjectedSpan) : BandSpan := { id := p.spanId, name := some p.name, begin := p.begin, op := some p }

/-- `_stage_of` in one trace: the spans of the trace in order of time, and its root. -/
def stageOf (tid : String) (ss : List ProjectedSpan) (root : Option ProjectedSpan) (s : ProjectedSpan) : BandSpan :=
  let byId := lastById ss
  let phase := s.text "phase"
  let phaseSpan := s.text "phase_span"
  if phaseSpan ≠ "" then
    ((byId phaseSpan).map BandSpan.of).getD
      { id := phaseSpan, name := (s.attributes.get "phase").str?, begin := s.begin }
  else if s.kind = "operation" && s.text "stage" ≠ "" then .of s
  else
    let ops := (parentSpans byId (root.map (·.spanId)) MAX_PARENT_HOPS [s.spanId] s.parentId).filter
      (·.kind = "operation")
    match ops.find? fun op => phase ≠ "" && op.name = phase with
    | some op => .of op
    | none =>
      if phase ≠ "" then { id := "phase:" ++ phase, name := some phase, begin := s.begin }
      else
        match ops.getLast?.or root with
        | some op => .of op
        | none => { id := "trace:" ++ tid, name := (root.or ss.head?).map (·.name), begin := s.begin }

/-- Whether `_thread_turns` has a turn for the span. -/
def hasTurn (s : ProjectedSpan) : Bool :=
  s.name ≠ "stage_started" &&
    (s.kind = "generation" || s.kind = "tool" || (s.kind = "operation" && s.text "stage" ≠ ""))

structure Episode where
  band : String
  anchor : Option String
  traceId : String
  label : Option String
  start : Rat
  seconds : Option Json
  status : Option String
  spans : Nat
  ordinal : Json
  reason : Json
  generations : Nat
  tools : Nat

/-- The least of the values, `default` where there is none. -/
def leastOr (default : Rat) : List Rat → Rat
  | [] => default
  | q :: qs => qs.foldl min q

def firstTurnStart (band : BandSpan) (spans : List ProjectedSpan) : Rat :=
  leastOr band.begin ((spans.filter (·.kind ≠ "operation")).map (·.begin))

/-- The row of a band, where it is one: a group of structure only is no episode. -/
def episodeOf (tid : String) (ss : List ProjectedSpan) (band : BandSpan) (spans : List ProjectedSpan) :
    Option Episode :=
  let grp := spans.insertionSort fun a b => a.begin ≤ b.begin
  if grp.any hasTurn || grp.any (·.name = "stage_started") then
    some
      { band := band.id
        anchor := if (lastById ss band.id).isSome then some band.id else grp.getLast?.map (·.spanId)
        traceId := tid
        label := band.name
        start := firstTurnStart band spans
        seconds := band.op.bind (·.duration)
        status := band.op.map (·.status)
        spans := grp.length
        ordinal := (band.op.map (·.attributes.get "attempt")).getD .null
        reason := (band.op.map (·.attributes.get "reason")).getD .null
        generations := grp.countP (·.kind = "generation")
        tools := grp.countP (·.kind = "tool") }
  else none

def traceBands (keep : ProjectedSpan → Option NodeRef → Bool) (claimed : Dict String Claim) (tid : String)
    (spans : List ProjectedSpan) : List Episode :=
  let ss := spans.insertionSort fun a b => a.begin ≤ b.begin
  let root := ss.find? (·.parentId.isNone)
  let traceNid := (rootSpanNodeId (traceRootSpan (ss.map (·.span)))).or (claimedTraceNodeId claimed tid none)
  let mine := (ss.filter (keep · traceNid)).filter fun s => !root.any (·.spanId = s.spanId)
  let placed := mine.map fun s => (stageOf tid ss root s, s)
  let groups := (placed.map (·.1.id)).eraseDups.filterMap fun id =>
    (placed.find? (·.1.id = id)).map fun first => (first.1, (placed.filter (·.1.id = id)).map Prod.snd)
  (groups.insertionSort fun g h => firstTurnStart g.1 g.2 ≤ firstTurnStart h.1 h.2).filterMap fun g =>
    episodeOf tid ss g.1 g.2

/-- `_conversation_bands`, the bands alone. -/
def conversationBands (keep : ProjectedSpan → Option NodeRef → Bool) (spans : List ProjectedSpan) : List Episode :=
  let claimed := claimedBuildTraces (spans.map (·.span))
  let stages := (spans.map (·.traceId)).eraseDups.flatMap fun tid =>
    traceBands keep claimed tid (spans.filter (·.traceId = tid))
  stages.insertionSort fun a b => a.start ≤ b.start

section Names
variable {ss : List ProjectedSpan}

theorem lastById_eq {id : String} {p : ProjectedSpan} (h : lastById ss id = some p) : p ∈ ss ∧ p.spanId = id := by
  have hmem := List.mem_of_find?_eq_some h
  have hid := List.find?_some h
  exact ⟨List.mem_reverse.mp hmem, of_decide_eq_true hid⟩

theorem mem_parentSpans {stop : Option String} (hops : Nat) :
    ∀ {seen : List String} {next : Option String} {p : ProjectedSpan}, p ∈ parentSpans (lastById ss) stop hops seen next → p ∈ ss := by
  induction hops with
  | zero =>
    intro seen next p h
    exact absurd h List.not_mem_nil
  | succ hops ih =>
    intro seen next p h
    cases next with
    | none => exact absurd h List.not_mem_nil
    | some id =>
      unfold parentSpans at h
      split at h
      · exact absurd h List.not_mem_nil
      · split at h
        · exact absurd h List.not_mem_nil
        · next parent hparent =>
          rcases List.mem_cons.mp h with rfl | h
          · exact (lastById_eq hparent).1
          · exact ih h

theorem stageOf_named (hss : ∀ p ∈ ss, p.spanId ≠ "") {root : Option ProjectedSpan} (hroot : ∀ r, root = some r → r ∈ ss)
    (tid : String) {s : ProjectedSpan} (hs : s ∈ ss) : (stageOf tid ss root s).id ≠ "" := by
  unfold stageOf
  dsimp only
  split
  · next hphase =>
    cases hop : lastById ss (s.text "phase_span") with
    | none => exact hphase
    | some op => exact hss op (lastById_eq hop).1
  · split
    · exact hss s hs
    · split
      · next op hop =>
        have hmem := List.mem_of_find?_eq_some hop
        exact hss op (mem_parentSpans _ (List.mem_filter.mp hmem).1)
      · split
        · simp
        · split
          · next op hop =>
            rcases Option.or_eq_some_iff.mp hop with hop | ⟨-, hop⟩
            · have hmem := List.mem_of_getLast? hop
              exact hss op (mem_parentSpans _ (List.mem_filter.mp hmem).1)
            · exact hss op (hroot op hop)
          · simp

theorem episodeOf_band {tid : String} {band : BandSpan} {spans : List ProjectedSpan} {stage : Episode}
    (h : episodeOf tid ss band spans = some stage) : stage.band = band.id := by
  unfold episodeOf at h
  dsimp only at h
  split at h
  · obtain rfl := Option.some.inj h
    rfl
  · cases h

end Names

theorem conversationBands_named (keep : ProjectedSpan → Option NodeRef → Bool) {spans : List ProjectedSpan}
    (h : ∀ p ∈ spans, p.spanId ≠ "") : ∀ stage ∈ conversationBands keep spans, stage.band ≠ "" := by
  intro stage hstage
  rw [conversationBands, List.mem_insertionSort, List.mem_flatMap] at hstage
  obtain ⟨tid, -, hstage⟩ := hstage
  obtain ⟨⟨band, group⟩, hgroup, hepisode⟩ := List.mem_filterMap.mp hstage
  rw [episodeOf_band hepisode]
  rw [List.mem_insertionSort] at hgroup
  obtain ⟨id, -, hfirst⟩ := List.mem_filterMap.mp hgroup
  obtain ⟨first, hfound, heq⟩ := Option.map_eq_some_iff.mp hfirst
  obtain ⟨rfl, -⟩ := Prod.mk.inj heq
  obtain ⟨s, hs, rfl⟩ := List.mem_map.mp (List.mem_of_find?_eq_some hfound)
  have hsorted : ∀ p ∈ (spans.filter (·.traceId = tid)).insertionSort fun a b => a.begin ≤ b.begin, p.spanId ≠ "" := by
    intro p hp
    rw [List.mem_insertionSort] at hp
    exact h p (List.mem_filter.mp hp).1
  have hmine := (List.mem_filter.mp (List.mem_filter.mp hs).1).1
  exact stageOf_named hsorted (fun r hr => List.mem_of_find?_eq_some hr) tid hmine

/-! ## Pages of the map -/

section Env
variable (env : TextEnv)

def settleTraceAnchor (cursor : Option String) : Option String := do
  let raw ← cursor
  let stripped := Py.strip raw
  if stripped = "" then none else normalizedId env (.str stripped)

def unusable (cursor : Option String) : Bool :=
  cursor.any (Py.strip · ≠ "") && (settleTraceAnchor env cursor).isNone

def cursorMatches (stage : Episode) (cursor : String) : Bool :=
  cursor ≠ "" && (cursor = stage.band || stage.anchor = some cursor)

/-- `stage.get("band") or stage.get("anchor")` -/
def cursorOf (stage : Episode) : Option String := if stage.band ≠ "" then some stage.band else stage.anchor

structure EpisodePage where
  episodes : List Episode
  snapshot : Option String
  nextBefore : Option String
  olderEpisodes : Nat
  newerEpisodes : Nat
  totalEpisodes : Nat

/-- The first of the bands that answers to a cursor; nothing where none does. -/
def firstAnswer (stages : List Episode) (cursor : String) : Option Nat :=
  stages.findIdx? (cursorMatches · cursor)

/-- The bands up to the snapshot, with the snapshot; nothing where it is unknown. -/
def snapshotStages (stages : List Episode) (snapshot : Option String) : Option (List Episode × Option String) :=
  if unusable env snapshot then none else
  match settleTraceAnchor env snapshot with
  | some cursor => (firstAnswer stages cursor).map fun i => (stages.take (i + 1), some cursor)
  | none => some (stages, stages.getLast?.bind cursorOf)

/-- Where the page before a cursor ends; nothing where the cursor is unknown. -/
def pageEnd (stages : List Episode) (before : Option String) : Option Nat :=
  if unusable env before then none else
  match settleTraceAnchor env before with
  | some cursor => firstAnswer stages cursor
  | none => some stages.length

/-- `node_episodes` over the bands of the node; nothing stands for a cursor that is unknown. -/
def episodesPage (stages : List Episode) (cap : Nat) (before snapshot : Option String) : Option EpisodePage := do
  let (stages, snapshot) ← snapshotStages env stages snapshot
  let e ← pageEnd env stages before
  let start := e - cap
  let visible := (stages.take e).drop start
  pure
    { episodes := visible
      snapshot
      nextBefore := if 0 < start then (visible.head?.bind cursorOf).filter (· ≠ "") else none
      olderEpisodes := start
      newerEpisodes := stages.length - e
      totalEpisodes := stages.length }

def nodeBands (rows : List Obj) (nodeId : String) : List Episode :=
  conversationBands (fun s traceNid => (effectiveNodeId s.span traceNid).any (·.str = nodeId))
    (rows.filterMap (projectSpan env))

def nodeEpisodes (rows : List Obj) (nodeId : String) (cap : Nat) (before snapshot : Option String) : Option EpisodePage :=
  episodesPage env (nodeBands env rows nodeId) cap before snapshot

variable {env}

theorem normalizedId_nonempty {value : Json} {id : String} (h : normalizedId env value = some id) : id ≠ "" := by
  unfold normalizedId at h
  split at h
  · next s =>
    split at h
    · cases h
    · next hlong =>
      split at h
      · obtain rfl := Option.some.inj h
        intro hempty
        simp [hempty] at hlong
      · cases h
  · next i =>
    split at h
    · next hrange =>
      obtain rfl := Option.some.inj h
      obtain ⟨n, rfl⟩ := Int.eq_ofNat_of_zero_le (of_decide_eq_true (Bool.and_eq_true_iff.mp hrange).1)
      exact Nat.repr_ne_empty
    · cases h
  · cases h

theorem spanId_nonempty {row : Obj} {p : ProjectedSpan} (h : projectSpan env row = some p) : p.spanId ≠ "" := by
  unfold projectSpan at h
  obtain ⟨spanId, hspan, h⟩ := Option.bind_eq_some_iff.mp h
  obtain ⟨traceId, -, h⟩ := Option.bind_eq_some_iff.mp h
  obtain rfl := Option.some.inj h
  exact normalizedId_nonempty hspan

theorem nodeBands_named (rows : List Obj) (nodeId : String) : ∀ stage ∈ nodeBands env rows nodeId, stage.band ≠ "" := by
  apply conversationBands_named
  intro p hp
  obtain ⟨row, -, hrow⟩ := List.mem_filterMap.mp hp
  exact spanId_nonempty hrow

end Env

end LoopLab.Trace
