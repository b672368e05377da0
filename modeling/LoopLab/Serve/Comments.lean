import LoopLab.Fold.Dispatch

/-!
# Comments of a run

The current revision of each comment is folded from the log, with one audit row for every row that the fold
applies.
-/

set_option autoImplicit false

namespace LoopLab.Serve
open Lib

def COMMENT_TEXT_MAX_BYTES : Nat := 8 * 1024

def COMMENT_MAX_PER_RUN : Nat := 500

def COMMENT_MAX_PER_NODE_GENERATION : Nat := 100

def COMMENT_MAX_VERSION : Int := 50

/-- `COMMENT_ID_RE.fullmatch` -/
def commentIdOk (s : String) : Bool :=
  "cmt_".toList.isPrefixOf s.toList && (s.toList.drop 4).length = 32 && (s.toList.drop 4).all Py.hexDigit

def ACTOR_LABELS : List (String × String) :=
  [("deployment_owner", "Deployment owner"), ("local_operator", "Local operator"),
    ("harness_agent", "External agent"), ("legacy_unknown", "Legacy note (unattributed)")]

def MODERN_ACTOR_KINDS : List String := ["deployment_owner", "local_operator", "harness_agent"]

structure CommentState where
  commentId : String
  nodeId : Int
  nodeGeneration : Option Int
  text : String
  actorKind : String
  version : Int := 1
  resolved : Bool := false
  createdAt : Rat
  updatedAt : Rat
  createdSeq : Int
  updatedSeq : Int
  legacy : Bool := false
  editable : Bool := true

structure HistoryRow where
  version : Int
  action : String
  text : String
  resolved : Bool
  actorKind : String
  actorLabel : String
  updatedAt : Rat
  eventSeq : Int

inductive CommentEvent where
  | created | edited | resolutionChanged
  deriving DecidableEq, Repr

namespace CommentEvent

def name : CommentEvent → String
  | created => "comment_created"
  | edited => "comment_edited"
  | resolutionChanged => "comment_resolution_changed"

end CommentEvent

def EV_ANNOTATION : String := "annotation"

/-- `normalize_comment_text`; the error of a text that is refused. -/
def normalizeCommentText (value : Json) : Except String String :=
  match value with
  | .str s =>
    let text := Py.strip s
    if text = "" then .error "text must be non-empty"
    else if COMMENT_TEXT_MAX_BYTES < text.utf8ByteSize then
      .error s!"text must be at most {COMMENT_TEXT_MAX_BYTES} UTF-8 bytes"
    else .ok text
  | _ => .error "text must be a string"

/-- `_integer` -/
def integerFrom (minimum : Int) (value : Json) : Option Int := value.int?.filter (minimum ≤ ·)

def timestamp (ts : Rat) : Rat := if 0 ≤ ts then ts else 0

/-- `_actor` of a modern row -/
def modernActor (value : Json) : Option String := value.str?.filter MODERN_ACTOR_KINDS.contains

def historyRow (comment : CommentState) (event : Event) (action actor : String) : HistoryRow where
  version := comment.version
  action := action
  text := comment.text
  resolved := comment.resolved
  actorKind := actor
  actorLabel := (ACTOR_LABELS.lookup actor).getD ""
  updatedAt := timestamp event.ts
  eventSeq := event.seq

def modernCount (comments : Dict String CommentState) : Nat := comments.rows.countP (!·.2.legacy)

def perSubject (comments : Dict String CommentState) (nodeId nodeGeneration : Int) : Nat :=
  comments.rows.countP fun r => !r.2.legacy && r.2.nodeId = nodeId && r.2.nodeGeneration = some nodeGeneration

section Apply
variable (comments : Dict String CommentState) (event : Event)

def applyAnnotation (seq : Int) : Option (CommentState × HistoryRow) := do
  let nodeId ← integerFrom 0 (event.data.get "node_id")
  let text ← (normalizeCommentText (event.data.get "text")).toOption
  let commentId := "legacy_" ++ toString seq
  if (comments.get commentId).isSome || COMMENT_MAX_PER_RUN ≤ comments.rows.length then none
  else
    let comment : CommentState :=
      { commentId, nodeId, text
        nodeGeneration := none
        actorKind := "legacy_unknown"
        createdAt := timestamp event.ts
        updatedAt := timestamp event.ts
        createdSeq := seq
        updatedSeq := seq
        legacy := true
        editable := false }
    some (comment, historyRow comment event "created" comment.actorKind)

def applyCreated (seq : Int) : Option (CommentState × HistoryRow) := do
  let commentId ← (event.data.get "comment_id").str?
  let nodeId ← integerFrom 0 (event.data.get "node_id")
  let nodeGeneration ← integerFrom 0 (event.data.get "node_generation")
  let actorKind ← modernActor (event.data.get "actor_kind")
  let version ← integerFrom 1 (event.data.get "version")
  let text ← (normalizeCommentText (event.data.get "text")).toOption
  if !commentIdOk commentId || (comments.get commentId).isSome || version ≠ 1 ||
      COMMENT_MAX_PER_RUN ≤ modernCount comments ||
      COMMENT_MAX_PER_NODE_GENERATION ≤ perSubject comments nodeId nodeGeneration then none
  else
    let comment : CommentState :=
      { commentId, nodeId, text, actorKind
        nodeGeneration := some nodeGeneration
        createdAt := timestamp event.ts
        updatedAt := timestamp event.ts
        createdSeq := seq
        updatedSeq := seq }
    some (comment, historyRow comment event "created" actorKind)

def revised (type : CommentEvent) (comment : CommentState) : Option (CommentState × String) :=
  match type with
  | .edited => do
    let text ← (normalizeCommentText (event.data.get "text")).toOption
    if text = comment.text then none else some ({ comment with text }, "edited")
  | _ =>
    match event.data.get "resolved" with
    | .bool resolved =>
      if resolved = comment.resolved then none
      else some ({ comment with resolved }, if resolved then "resolved" else "reopened")
    | _ => none

def applyRevision (type : CommentEvent) (seq : Int) : Option (CommentState × HistoryRow) := do
  let commentId ← (event.data.get "comment_id").str?
  let comment ← comments.get commentId
  let actor ← modernActor (event.data.get "actor_kind")
  let version ← integerFrom 2 (event.data.get "version")
  if !comment.editable || integerFrom 0 (event.data.get "node_id") ≠ some comment.nodeId ||
      integerFrom 0 (event.data.get "node_generation") ≠ comment.nodeGeneration ||
      integerFrom 1 (event.data.get "base_version") ≠ some comment.version ||
      version ≠ comment.version + 1 || COMMENT_MAX_VERSION < version then none
  else
    let (comment, action) ← revised event type comment
    let comment :=
      { comment with
        version
        updatedAt := timestamp event.ts
        updatedSeq := seq }
    some (comment, historyRow comment event action actor)

/-- `apply_comment_event`: the comment as the row leaves it, with its audit row. -/
def applyCommentEvent : Option (CommentState × HistoryRow) :=
  if event.seq < 0 then none
  else if event.type = EV_ANNOTATION then applyAnnotation comments event event.seq
  else if event.type = CommentEvent.created.name then applyCreated comments event event.seq
  else if event.type = CommentEvent.edited.name then applyRevision comments event .edited event.seq
  else if event.type = CommentEvent.resolutionChanged.name then
    applyRevision comments event .resolutionChanged event.seq
  else none

end Apply

structure Comments where
  comments : Dict String CommentState := Table.empty
  history : Dict String (List HistoryRow) := Table.empty

def Comments.put (c : Comments) (comment : CommentState) (row : HistoryRow) : Comments where
  comments := c.comments.set comment.commentId comment
  history := c.history.set comment.commentId ((c.history.get comment.commentId).getD [] ++ [row])

def Comments.apply (c : Comments) (event : Event) : Comments :=
  match applyCommentEvent c.comments event with
  | none => c
  | some (comment, row) => c.put comment row

/-- `project_comments`, with the history -/
def projectComments (events : List Event) : Comments := events.foldl Comments.apply {}

end LoopLab.Serve

/-!
## Comment commands

A command is normalised against the state that the server last folded, and rechecked against the state of
the log it is appended to, under the append lock.
-/

namespace LoopLab.Serve
open Lib

structure Refusal where
  status : Nat := 409
  code : String := ""
  message : String
  remediation : String := ""
  retryable : Bool := false
  currentVersion : Option Int := none
  currentGeneration : Option Int := none

/-- `raise` where the condition holds. -/
def refuseIf (cond : Prop) [Decidable cond] (refusal : Refusal) : Except Refusal Unit :=
  if cond then .error refusal else .ok ()

def foundOr {α : Type} (value : Option α) (refusal : Refusal) : Except Refusal α :=
  match value with
  | some a => .ok a
  | none => .error refusal

/-- What the folded state tells a comment command: the generation of each experiment, and the comments. -/
structure CommentSubject where
  attempt : Int → Option Nat
  comments : Dict String CommentState

/-- A token of `secrets.token_hex(16)`. -/
structure HexToken where
  text : String
  valid : text.toList.length = 32 ∧ text.toList.all Py.hexDigit = true

structure CommentAuthor where
  agentToken : Bool := false
  ownerAuth : Bool := false

def CommentAuthor.actorKind (author : CommentAuthor) : String :=
  if author.agentToken then "harness_agent"
  else if author.ownerAuth then "deployment_owner"
  else "local_operator"

def strictInteger (value : Json) (name : String) : Except Refusal Int :=
  let refused : Refusal := { status := 400, message := name ++ " must be an integer" }
  match value with
  | .int i => .ok i
  | .str s =>
    if (Py.strip s).toList.contains '_' then .error refused
    else
      match Py.parseInt s with
      | some i => .ok i
      | none => .error refused
  | _ => .error refused

def commentText (value : Json) : Except Refusal String :=
  match normalizeCommentText value with
  | .ok text => .ok text
  | .error message => .error
    { status := 400
      code := "invalid_comment_text"
      message
      remediation := "enter non-empty text no larger than 8192 UTF-8 bytes" }

def commentVersion (value : Json) : Except Refusal Int := do
  let version ← strictInteger value "expected_version"
  refuseIf (version < 1) { status := 400, message := "expected_version must be positive" }
  pure version

/-- `re.fullmatch(r"legacy_(?:0|[1-9]\d*)", s)` -/
def legacyIdOk (s : String) : Bool :=
  "legacy_".toList.isPrefixOf s.toList &&
    match s.toList.drop 7 with
    | ['0'] => true
    | c :: rest => '1' ≤ c && c ≤ '9' && rest.all fun d => (Py.digit d).isSome
    | [] => false

def revisionId (value : Json) : Except Refusal String :=
  match value with
  | .str s =>
    if legacyIdOk s || commentIdOk s then .ok s
    else .error
      { status := 400
        code := "invalid_comment_id"
        message := "comment_id must be cmt_ followed by exactly 32 lowercase hex characters"
        remediation := "refresh the collaboration panel and retry the exact visible comment" }
  | _ => .error
    { status := 400
      code := "invalid_comment_id"
      message := "comment_id must be cmt_ followed by exactly 32 lowercase hex characters"
      remediation := "refresh the collaboration panel and retry the exact visible comment" }

section Intake
variable (current : CommentSubject) (author : CommentAuthor) (data : Obj)

def normalizeCommentCreated (tokens : List HexToken) : Except Refusal Obj := do
  let nodeId ← strictInteger (data.get "node_id") "node_id"
  let attempt ← foundOr (current.attempt nodeId) { status := 404, message := s!"no node #{nodeId} in this run" }
  let nodeGeneration ← strictInteger (data.get "node_generation") "node_generation"
  refuseIf (nodeGeneration < 0) { status := 400, message := "node_generation must be non-negative" }
  refuseIf ((attempt : Int) ≠ nodeGeneration)
    { code := "node_generation_changed"
      message := s!"experiment #{nodeId} is generation {attempt}, not {nodeGeneration}"
      remediation := "refresh the run before commenting on this experiment lifecycle" }
  refuseIf (COMMENT_MAX_PER_RUN ≤ modernCount current.comments)
    { code := "comment_run_limit_reached"
      message := s!"this run already has {COMMENT_MAX_PER_RUN} projected comments"
      remediation := "archive or compact comment history before creating more" }
  refuseIf (COMMENT_MAX_PER_NODE_GENERATION ≤ perSubject current.comments nodeId nodeGeneration)
    { code := "comment_subject_limit_reached"
      message := s!"experiment #{nodeId} generation {nodeGeneration} already has " ++
        s!"{COMMENT_MAX_PER_NODE_GENERATION} comments"
      remediation := "resolve or consolidate the existing discussion" }
  let token ←
    foundOr ((tokens.take 128).find? fun token => (current.comments.get ("cmt_" ++ token.text)).isNone)
      { status := 503
        code := "comment_id_unavailable"
        message := "the server could not allocate a unique comment id"
        remediation := "retry with the same command idempotency key"
        retryable := true }
  let text ← commentText (data.get "text")
  pure
    [("comment_id", .str ("cmt_" ++ token.text)), ("node_id", .int nodeId), ("node_generation", .int nodeGeneration),
      ("text", .str text), ("actor_kind", .str author.actorKind), ("version", .int 1)]

def revisionField (type : CommentEvent) (comment : CommentState) : Except Refusal (String × Json) :=
  match type with
  | .edited => do
    let text ← commentText (data.get "text")
    refuseIf (text = comment.text)
      { code := "comment_unchanged"
        message := "the edited text is identical to the current comment"
        remediation := "no update is needed" }
    pure ("text", .str text)
  | _ =>
    match data.get "resolved" with
    | .bool resolved => do
      refuseIf (resolved = comment.resolved)
        { code := "comment_resolution_unchanged"
          message := "the comment already has that resolution state"
          remediation := "refresh the collaboration panel" }
      pure ("resolved", .bool resolved)
    | _ => .error { status := 400, message := "resolved must be a boolean" }

def normalizeCommentRevision (type : CommentEvent) : Except Refusal Obj := do
  let commentId ← revisionId (data.get "comment_id")
  let comment ←
    foundOr (current.comments.get commentId)
      { status := 404
        code := "comment_not_found"
        message := "the comment does not exist in this run generation"
        remediation := "refresh the collaboration panel" }
  refuseIf (!comment.editable || comment.legacy)
    { code := "legacy_comment_read_only"
      message := "legacy annotations have no verifiable actor or lifecycle and are read-only"
      remediation := "create a new attributed comment instead" }
  refuseIf (COMMENT_MAX_VERSION ≤ comment.version)
    { code := "comment_version_limit_reached"
      message := s!"comment {commentId} reached its {COMMENT_MAX_VERSION}-revision limit"
      remediation := "resolve it and create a concise follow-up comment" }
  let suppliedNode ← strictInteger (data.get "node_id") "node_id"
  let suppliedGeneration ← strictInteger (data.get "node_generation") "node_generation"
  refuseIf (suppliedNode ≠ comment.nodeId || some suppliedGeneration ≠ comment.nodeGeneration)
    { code := "comment_subject_changed"
      message := "the submitted node lifecycle does not own this comment"
      remediation := "refresh the collaboration panel before editing this comment" }
  let expectedVersion ← commentVersion (data.get "expected_version")
  refuseIf (comment.version ≠ expectedVersion)
    { code := "comment_version_changed"
      message := s!"comment {commentId} is version {comment.version}, not {expectedVersion}"
      remediation := "refresh the comment and re-apply the edit to its current version"
      currentVersion := some comment.version }
  let field ← revisionField data type comment
  pure
    [("comment_id", .str commentId), ("node_id", .int comment.nodeId),
      ("node_generation", (comment.nodeGeneration.map Json.int).getD .null), ("base_version", .int expectedVersion),
      ("version", .int (expectedVersion + 1)), ("actor_kind", .str author.actorKind), field]

def normalizeComment (type : CommentEvent) (tokens : List HexToken) : Except Refusal Obj :=
  match type with
  | .created => normalizeCommentCreated current author data tokens
  | _ => normalizeCommentRevision current author data type

end Intake

section Recheck
variable (state : CommentSubject) (data : Obj)

/-- `_precondition_comment_created`; nothing where it holds. -/
def preconditionCommentCreated : Option Refusal :=
  let nodeId := (data.get "node_id").int?.getD 0
  let generation := (data.get "node_generation").int?.getD 0
  let attempt := (data.get "node_id").int?.bind state.attempt
  if attempt.map Nat.cast ≠ (data.get "node_generation").int? || attempt.isNone then
    some
      { code := "node_generation_changed"
        message := s!"the comment target is no longer experiment #{nodeId} generation {generation}"
        remediation := "refresh the run and create a new comment against the current lifecycle"
        currentGeneration := attempt.map Nat.cast }
  else if ((data.get "comment_id").str?.bind state.comments.get).isSome then
    some
      { code := "comment_id_conflict"
        message := "the allocated comment id is already present"
        remediation := "submit a new command with a new idempotency key" }
  else if COMMENT_MAX_PER_RUN ≤ modernCount state.comments then
    some
      { code := "comment_run_limit_reached"
        message := s!"this run already has {COMMENT_MAX_PER_RUN} projected comments"
        remediation := "archive or compact comment history before creating more comments" }
  else if COMMENT_MAX_PER_NODE_GENERATION ≤ perSubject state.comments nodeId generation then
    some
      { code := "comment_subject_limit_reached"
        message := s!"experiment #{nodeId} generation {generation} already has " ++
          s!"{COMMENT_MAX_PER_NODE_GENERATION} comments"
        remediation := "resolve or consolidate the existing discussion" }
  else none

/-- `_precondition_comment_revision`; nothing where it holds. -/
def preconditionCommentRevision : Option Refusal :=
  match ((data.get "comment_id").str?.bind state.comments.get).filter (·.editable) with
  | none =>
    some
      { code := "comment_not_found"
        message := "the editable comment no longer exists"
        remediation := "refresh the collaboration panel" }
  | some comment =>
    let base := (data.get "base_version").int?.getD 0
    if some comment.nodeId ≠ (data.get "node_id").int? || comment.nodeGeneration ≠ (data.get "node_generation").int? then
      some
        { code := "comment_subject_changed"
          message := "the comment subject identity no longer matches"
          remediation := "inspect the event history before retrying" }
    else if some comment.version ≠ (data.get "base_version").int? then
      some
        { code := "comment_version_changed"
          message := s!"comment {comment.commentId} is version {comment.version}, not {base}"
          remediation := "refresh the comment and re-apply the edit to its current version"
          currentVersion := some comment.version }
    else if COMMENT_MAX_VERSION ≤ comment.version || (data.get "version").int?.any (COMMENT_MAX_VERSION < ·) then
      some
        { code := "comment_version_limit_reached"
          message := s!"comment {comment.commentId} reached its {COMMENT_MAX_VERSION}-revision limit"
          remediation := "resolve it and create a concise follow-up comment" }
    else none

def preconditionComment (type : CommentEvent) : Option Refusal :=
  match type with
  | .created => preconditionCommentCreated state data
  | _ => preconditionCommentRevision state data

end Recheck

/-! ## Runs -/

structure CommentCommand where
  type : CommentEvent
  request : Obj
  author : CommentAuthor := {}
  tokens : List HexToken := []
  ts : Rat := 0
  seen : Nat

structure OtherRow where
  event : Event
  other : ∀ type : CommentEvent, event.type ≠ type.name

inductive CommentAction where
  | row (row : OtherRow)
  | command (command : CommentCommand)

section Run
variable (env : Env)

def commentSubject (log : List Event) : CommentSubject where
  attempt id := ((fold env log).nodes.get id).map (·.attempt)
  comments := (projectComments log).comments

/-- The row of a command that passes the intake and the recheck, at the end of the log. -/
def CommentCommand.row (c : CommentCommand) (log : List Event) : Except Refusal Event := do
  let data ← normalizeComment (commentSubject env (log.take c.seen)) c.author c.request c.type c.tokens
  match preconditionComment (commentSubject env log) data c.type with
  | some refusal => .error refusal
  | none => .ok { seq := log.length, ts := c.ts, type := c.type.name, data }

def commentStep (log : List Event) : CommentAction → List Event
  | .row r => log ++ [{ r.event with seq := log.length }]
  | .command c =>
    match c.row env log with
    | .ok event => log ++ [event]
    | .error _ => log

def commentLog (actions : List CommentAction) : List Event := actions.foldl (commentStep env) []

end Run

end LoopLab.Serve
