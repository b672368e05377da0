import LoopLab.Ledger.Drops
import LoopLab.Serve.Comments

/-!
# An accepted comment command takes effect

The intake, the recheck and the fold read one version of the comment: what the fold has under the version the
intake saw is what the intake saw.
-/

set_option autoImplicit false

namespace LoopLab.Serve
open Lib

variable {comments : Dict String CommentState} {event : Event} {comment : CommentState} {audit : HistoryRow}
variable {seq : Int} {id : String} {log : List Event}

/-! ## What a row does to the comments -/

def Keyed (comments : Dict String CommentState) : Prop := ∀ id c, comments.get id = some c → c.commentId = id

theorem applyAnnotation_fresh (h : applyAnnotation comments event seq = some (comment, audit)) :
    comments.get comment.commentId = none ∧ comment.legacy = true ∧ comment.editable = false := by
  unfold applyAnnotation at h
  obtain ⟨nodeId, -, h⟩ := Option.bind_eq_some_iff.mp h
  obtain ⟨text, -, h⟩ := Option.bind_eq_some_iff.mp h
  dsimp only at h
  split at h
  · cases h
  · next hfresh =>
    obtain ⟨rfl, -⟩ := Prod.mk.inj (Option.some.inj h)
    simp only [Bool.or_eq_true, not_or, Bool.not_eq_true, Option.isSome_eq_false_iff, Option.isNone_iff_eq_none] at hfresh
    exact ⟨hfresh.1, rfl, rfl⟩

structure Opened (comments : Dict String CommentState) (comment : CommentState) : Prop where
  fresh : comments.get comment.commentId = none
  modern : comment.legacy = false
  editable : comment.editable = true
  version : comment.version = 1
  node : 0 ≤ comment.nodeId
  generation : ∃ g, comment.nodeGeneration = some g ∧ 0 ≤ g ∧ perSubject comments comment.nodeId g < COMMENT_MAX_PER_NODE_GENERATION
  run : modernCount comments < COMMENT_MAX_PER_RUN

theorem integerFrom_eq {minimum i : Int} {value : Json} :
    integerFrom minimum value = some i ↔ value.int? = some i ∧ minimum ≤ i := by
  unfold integerFrom
  rw [Option.filter_eq_some_iff, decide_eq_true_iff]

theorem applyCreated_opened (h : applyCreated comments event seq = some (comment, audit)) : Opened comments comment := by
  unfold applyCreated at h
  obtain ⟨commentId, -, h⟩ := Option.bind_eq_some_iff.mp h
  obtain ⟨nodeId, hnode, h⟩ := Option.bind_eq_some_iff.mp h
  obtain ⟨generation, hgeneration, h⟩ := Option.bind_eq_some_iff.mp h
  obtain ⟨actorKind, -, h⟩ := Option.bind_eq_some_iff.mp h
  obtain ⟨version, -, h⟩ := Option.bind_eq_some_iff.mp h
  obtain ⟨text, -, h⟩ := Option.bind_eq_some_iff.mp h
  dsimp only at h
  split at h
  · cases h
  · next hopen =>
    obtain ⟨rfl, -⟩ := Prod.mk.inj (Option.some.inj h)
    simp only [Bool.or_eq_true, decide_eq_true_eq, not_or, Bool.not_eq_true, Option.isSome_eq_false_iff,
      Option.isNone_iff_eq_none, not_le] at hopen
    obtain ⟨⟨⟨⟨-, hfresh⟩, -⟩, hrun⟩, hsubject⟩ := hopen
    exact ⟨hfresh, rfl, rfl, rfl, (integerFrom_eq.mp hnode).2,
      ⟨generation, rfl, (integerFrom_eq.mp hgeneration).2, hsubject⟩, hrun⟩

structure Advanced (old comment : CommentState) : Prop where
  commentId : comment.commentId = old.commentId
  nodeId : comment.nodeId = old.nodeId
  nodeGeneration : comment.nodeGeneration = old.nodeGeneration
  legacy : comment.legacy = old.legacy
  editable : comment.editable = old.editable
  open_ : old.editable = true
  version : comment.version = old.version + 1
  bound : comment.version ≤ COMMENT_MAX_VERSION

theorem revised_same {type : CommentEvent} {old : CommentState} {action : String}
    (h : revised event type old = some (comment, action)) :
    ∃ text resolved, comment = { old with text, resolved } := by
  unfold revised at h
  split at h
  · obtain ⟨text, -, h⟩ := Option.bind_eq_some_iff.mp h
    split at h
    · cases h
    · obtain ⟨rfl, -⟩ := Prod.mk.inj (Option.some.inj h)
      exact ⟨_, _, rfl⟩
  · split at h
    · split at h
      · cases h
      · obtain ⟨rfl, -⟩ := Prod.mk.inj (Option.some.inj h)
        exact ⟨_, _, rfl⟩
    · cases h

theorem applyRevision_advanced {type : CommentEvent} (h : applyRevision comments event type seq = some (comment, audit)) :
    ∃ id old, (event.data.get "comment_id").str? = some id ∧ comments.get id = some old ∧ Advanced old comment := by
  unfold applyRevision at h
  obtain ⟨id, hid, h⟩ := Option.bind_eq_some_iff.mp h
  obtain ⟨old, hold, h⟩ := Option.bind_eq_some_iff.mp h
  obtain ⟨actor, -, h⟩ := Option.bind_eq_some_iff.mp h
  obtain ⟨version, -, h⟩ := Option.bind_eq_some_iff.mp h
  split at h
  · cases h
  · next hfence =>
    simp only [Bool.or_eq_true, decide_eq_true_eq, not_or, Bool.not_eq_true, Bool.not_eq_false', not_not, not_lt] at hfence
    obtain ⟨⟨⟨⟨⟨hopen, -⟩, -⟩, -⟩, hversion⟩, hbound⟩ := hfence
    obtain ⟨⟨next, action⟩, hrevised, h⟩ := Option.bind_eq_some_iff.mp h
    obtain ⟨text, resolved, rfl⟩ := revised_same hrevised
    obtain ⟨rfl, -⟩ := Prod.mk.inj (Option.some.inj h)
    exact ⟨id, old, hid, hold, rfl, rfl, rfl, rfl, rfl, hopen, hversion, hbound⟩

/-- The rows that revise a comment. -/
def revises (event : Event) : Prop :=
  event.type = CommentEvent.edited.name ∨ event.type = CommentEvent.resolutionChanged.name

instance : Decidable (revises event) := inferInstanceAs (Decidable (_ ∨ _))

theorem applyCommentEvent_cases (h : applyCommentEvent comments event = some (comment, audit)) :
    (¬revises event ∧ comments.get comment.commentId = none ∧ comment.legacy = true ∧ comment.editable = false) ∨
      (¬revises event ∧ Opened comments comment) ∨
      (revises event ∧
        ∃ id old, (event.data.get "comment_id").str? = some id ∧ comments.get id = some old ∧ Advanced old comment) := by
  have hnames : ¬ EV_ANNOTATION = CommentEvent.edited.name ∧ ¬ EV_ANNOTATION = CommentEvent.resolutionChanged.name ∧
      ¬ CommentEvent.created.name = CommentEvent.edited.name ∧
      ¬ CommentEvent.created.name = CommentEvent.resolutionChanged.name := by decide
  unfold applyCommentEvent at h
  unfold revises
  split at h
  · cases h
  · split at h
    · next htype => exact .inl ⟨by rw [htype]; exact not_or.mpr ⟨hnames.1, hnames.2.1⟩, applyAnnotation_fresh h⟩
    · split at h
      · next htype => exact .inr (.inl ⟨by rw [htype]; exact not_or.mpr hnames.2.2, applyCreated_opened h⟩)
      · split at h
        · next htype => exact .inr (.inr ⟨.inl htype, applyRevision_advanced h⟩)
        · split at h
          · next htype => exact .inr (.inr ⟨.inr htype, applyRevision_advanced h⟩)
          · cases h

/-! ## The comments of a growing log -/

theorem Comments.keyed_apply (c : Comments) (event : Event) (h : Keyed c.comments) : Keyed (c.apply event).comments := by
  unfold Comments.apply
  split
  · exact h
  · next comment row happly =>
    intro id found hfound
    rw [Comments.put, Dict.get_set] at hfound
    split at hfound
    · next hid =>
      obtain rfl := Option.some.inj hfound
      exact hid.symm
    · exact h id found hfound

theorem Comments.grown_apply (c : Comments) (event : Event) (h : Keyed c.comments) :
    Fence.Grown (·.version) c.comments (c.apply event).comments := by
  unfold Comments.apply
  split
  · exact .refl c.comments
  · next comment row happly =>
    apply Fence.Grown.set
    intro found hfound
    rcases applyCommentEvent_cases happly with ⟨-, hfresh, -, -⟩ | ⟨-, hopened⟩ | ⟨-, id, old, -, hold, hnext⟩
    · cases hfresh.symm.trans hfound
    · cases hopened.fresh.symm.trans hfound
    · rw [hnext.commentId, h id old hold, hold] at hfound
      obtain rfl := Option.some.inj hfound
      have hversion := hnext.version
      omega

theorem projectComments_snoc (log : List Event) (event : Event) :
    projectComments (log ++ [event]) = (projectComments log).apply event := by
  simp [projectComments]

theorem projectComments_keyed (log : List Event) : Keyed (projectComments log).comments := by
  induction log using List.reverseRecOn with
  | nil =>
    intro id c h
    cases h
  | append_singleton log event ih =>
    rw [projectComments_snoc]
    exact Comments.keyed_apply _ event ih

theorem projectComments_take (log : List Event) (n : Nat) :
    Fence.Grown (·.version) (projectComments (log.take n)).comments (projectComments log).comments := by
  have hgrown : Fence.Grown (·.version) (projectComments (log.take n)).comments
      ((log.drop n).foldl Comments.apply (projectComments (log.take n))).comments :=
    Fence.Grown.foldl (P := fun c : Comments => Keyed c.comments)
      Comments.keyed_apply Comments.grown_apply _ _ (projectComments_keyed _)
  unfold projectComments at hgrown ⊢
  rwa [← List.foldl_append, List.take_append_drop] at hgrown

/-- The rows of the log that revise the comment. -/
def revisionCount (log : List Event) (id : String) : Nat :=
  log.countP fun event => revises event ∧ (event.data.get "comment_id").str? = some id

/-- What the counts of the comments are at most, and what the versions count. -/
structure CommentCounts (log : List Event) : Prop where
  version : ∀ id c, (projectComments log).comments.get id = some c → c.legacy = false →
    c.version = 1 + revisionCount log id ∧ c.version ≤ COMMENT_MAX_VERSION
  history : ∀ id c, (projectComments log).comments.get id = some c → c.legacy = false →
    ∃ rows, (projectComments log).history.get id = some rows ∧ (rows.length : Int) = c.version
  run : modernCount (projectComments log).comments ≤ COMMENT_MAX_PER_RUN
  subject : ∀ nodeId generation,
    perSubject (projectComments log).comments nodeId generation ≤ COMMENT_MAX_PER_NODE_GENERATION

/-- With the counts: nothing revises or audits a comment that is not there, and the modern ones can be edited. -/
structure CommentsSound (log : List Event) : Prop extends CommentCounts log where
  absent : ∀ id, (projectComments log).comments.get id = none →
    revisionCount log id = 0 ∧ (projectComments log).history.get id = none
  editable : ∀ id c, (projectComments log).comments.get id = some c → c.editable = !c.legacy
  subjects : ∀ id c, (projectComments log).comments.get id = some c → c.legacy = false →
    0 ≤ c.nodeId ∧ ∃ g, c.nodeGeneration = some g ∧ 0 ≤ g

theorem commentsSound_nil : CommentsSound [] where
  version := by intro id c h; cases h
  history := by intro id c h; cases h
  run := by decide
  subject := by intro nodeId generation; exact Nat.zero_le _
  absent := by intro id _; exact ⟨rfl, rfl⟩
  editable := by intro id c h; cases h
  subjects := by intro id c h; cases h

theorem revisionCount_snoc (log : List Event) (event : Event) (id : String) :
    revisionCount (log ++ [event]) id =
      revisionCount log id + if revises event ∧ (event.data.get "comment_id").str? = some id then 1 else 0 := by
  unfold revisionCount
  rw [List.countP_append, List.countP_singleton]
  simp only [decide_eq_true_eq]

theorem CommentsSound.skip (h : CommentsSound log) (hrow : ¬revises event)
    (hnone : applyCommentEvent (projectComments log).comments event = none) : CommentsSound (log ++ [event]) := by
  have hsame : projectComments (log ++ [event]) = projectComments log := by
    rw [projectComments_snoc, Comments.apply, hnone]
  have hcount : ∀ id, revisionCount (log ++ [event]) id = revisionCount log id := by
    intro id
    rw [revisionCount_snoc, if_neg fun hrevises => hrow hrevises.1]
    rfl
  constructor
  · constructor
    · rw [hsame]
      simp only [hcount]
      exact h.version
    · rw [hsame]
      exact h.history
    · rw [hsame]
      exact h.run
    · rw [hsame]
      exact h.subject
  · rw [hsame]
    simp only [hcount]
    exact h.absent
  · rw [hsame]
    exact h.editable
  · rw [hsame]
    exact h.subjects

structure Placed (log : List Event) (event : Event) (comment : CommentState) : Prop where
  editable : comment.editable = !comment.legacy
  subject : comment.legacy = false → 0 ≤ comment.nodeId ∧ ∃ g, comment.nodeGeneration = some g ∧ 0 ≤ g
  version : comment.legacy = false →
    comment.version = 1 + revisionCount (log ++ [event]) comment.commentId ∧ comment.version ≤ COMMENT_MAX_VERSION
  history : comment.legacy = false →
    ((((projectComments log).history.get comment.commentId).getD []).length + 1 : Nat) = comment.version
  run : modernCount ((projectComments log).comments.set comment.commentId comment) ≤ COMMENT_MAX_PER_RUN
  count : ∀ nodeId generation,
    perSubject ((projectComments log).comments.set comment.commentId comment) nodeId generation ≤
      COMMENT_MAX_PER_NODE_GENERATION

theorem CommentsSound.placed_legacy (h : CommentsSound log) (hfresh : (projectComments log).comments.get comment.commentId = none)
    (hlegacy : comment.legacy = true) (heditable : comment.editable = false) : Placed log event comment where
  editable := by rw [hlegacy, heditable]; rfl
  subject hmodern := by rw [hlegacy] at hmodern; cases hmodern
  version hmodern := by rw [hlegacy] at hmodern; cases hmodern
  history hmodern := by rw [hlegacy] at hmodern; cases hmodern
  run := by
    have hrun := h.run
    unfold modernCount at hrun ⊢
    rw [Dict.countP_set_of_none _ hfresh]
    simpa [hlegacy] using hrun
  count := by
    intro nodeId generation
    have hcount := h.subject nodeId generation
    unfold perSubject at hcount ⊢
    rw [Dict.countP_set_of_none _ hfresh]
    simpa [hlegacy] using hcount

theorem CommentsSound.placed_opened (h : CommentsSound log) (hrow : ¬revises event)
    (hopened : Opened (projectComments log).comments comment) : Placed log event comment where
  editable := by rw [hopened.modern, hopened.editable]; rfl
  subject _ := by
    obtain ⟨g, hg, hnonneg, -⟩ := hopened.generation
    exact ⟨hopened.node, g, hg, hnonneg⟩
  version _ := by
    rw [revisionCount_snoc, if_neg fun hrevises => hrow hrevises.1, (h.absent _ hopened.fresh).1, hopened.version]
    decide
  history _ := by
    rw [(h.absent _ hopened.fresh).2, hopened.version]
    rfl
  run := by
    have hrun := hopened.run
    unfold modernCount at hrun ⊢
    rw [Dict.countP_set_of_none _ hopened.fresh]
    split <;> omega
  count := by
    intro nodeId generation
    have hcount := h.subject nodeId generation
    obtain ⟨g, hg, -, hsubject⟩ := hopened.generation
    unfold perSubject at hcount hsubject ⊢
    rw [Dict.countP_set_of_none _ hopened.fresh]
    split
    · next hsame =>
      simp only [hopened.modern, Bool.not_false, Bool.true_and, Bool.and_eq_true, decide_eq_true_eq, hg,
        Option.some.injEq] at hsame
      rw [hsame.1, hsame.2] at hsubject
      exact hsubject
    · exact hcount

theorem CommentsSound.placed_advanced (h : CommentsSound log) {old : CommentState} (hrow : revises event)
    (hid : (event.data.get "comment_id").str? = some id) (hold : (projectComments log).comments.get id = some old)
    (hnext : Advanced old comment) : Placed log event comment := by
  have hkey : comment.commentId = id := hnext.commentId.trans (projectComments_keyed log id old hold)
  have hmodern : old.legacy = false := by
    have heditable := h.editable id old hold
    rw [hnext.open_] at heditable
    exact (Bool.not_eq_true' _).mp heditable.symm
  refine ⟨?_, ?_, ?_, ?_, ?_, ?_⟩
  · rw [hnext.editable, hnext.legacy]
    exact h.editable id old hold
  · intro _
    rw [hnext.nodeId, hnext.nodeGeneration]
    exact h.subjects id old hold hmodern
  · intro _
    have hversion := (h.version id old hold hmodern).1
    refine ⟨?_, hnext.bound⟩
    rw [revisionCount_snoc, hkey, if_pos ⟨hrow, hid⟩, hnext.version]
    omega
  · intro _
    obtain ⟨rows, hrows, hlength⟩ := h.history id old hold hmodern
    rw [hkey, hrows, hnext.version]
    show ((rows.length + 1 : Nat) : Int) = _
    omega
  · unfold modernCount
    rw [hkey, Dict.countP_set_of_get _ hold (by rw [hnext.legacy])]
    exact h.run
  · intro nodeId generation
    unfold perSubject
    rw [hkey, Dict.countP_set_of_get _ hold (by rw [hnext.legacy, hnext.nodeId, hnext.nodeGeneration])]
    exact h.subject nodeId generation

theorem CommentsSound.placed (h : CommentsSound log) {event : Event} {comment : CommentState} {audit : HistoryRow}
    (happly : applyCommentEvent (projectComments log).comments event = some (comment, audit)) :
    Placed log event comment := by
  rcases applyCommentEvent_cases happly with ⟨-, hfresh, hlegacy, heditable⟩ | ⟨hrow, hopened⟩ | ⟨hrow, id, old, hid, hold, hnext⟩
  · exact h.placed_legacy hfresh hlegacy heditable
  · exact h.placed_opened hrow hopened
  · exact h.placed_advanced hrow hid hold hnext

theorem CommentsSound.put (h : CommentsSound log) {event : Event} {comment : CommentState} {audit : HistoryRow}
    (happly : applyCommentEvent (projectComments log).comments event = some (comment, audit)) :
    CommentsSound (log ++ [event]) := by
  have hplaced := h.placed happly
  have hput : projectComments (log ++ [event]) = (projectComments log).put comment audit := by
    rw [projectComments_snoc, Comments.apply, happly]
  have hget : ∀ id, (projectComments (log ++ [event])).comments.get id =
      if id = comment.commentId then some comment else (projectComments log).comments.get id := by
    intro id
    rw [hput, Comments.put, Dict.get_set]
  have hhistory : ∀ id, (projectComments (log ++ [event])).history.get id =
      if id = comment.commentId then some (((projectComments log).history.get comment.commentId).getD [] ++ [audit])
      else (projectComments log).history.get id := by
    intro id
    rw [hput, Comments.put, Dict.get_set]
  have hother : ∀ id, ¬ id = comment.commentId → revisionCount (log ++ [event]) id = revisionCount log id := by
    intro id hid
    rw [revisionCount_snoc, if_neg]
    · rfl
    · rintro ⟨hrevises, hnamed⟩
      rcases applyCommentEvent_cases happly with ⟨hnot, -⟩ | ⟨hnot, -⟩ | ⟨-, id', old, hid', hold, hnext⟩
      · exact hnot hrevises
      · exact hnot hrevises
      · obtain rfl := Option.some.inj (hid'.symm.trans hnamed)
        exact hid ((hnext.commentId.trans (projectComments_keyed log _ old hold)).symm)
  constructor
  · constructor
    · intro id c hc hmodern
      rw [hget] at hc
      split at hc
      · next hid =>
        obtain rfl := Option.some.inj hc
        rw [hid]
        exact hplaced.version hmodern
      · next hid =>
        rw [hother id hid]
        exact h.version id c hc hmodern
    · intro id c hc hmodern
      rw [hget] at hc
      rw [hhistory]
      split at hc
      · next hid =>
        obtain rfl := Option.some.inj hc
        refine ⟨_, if_pos hid, ?_⟩
        rw [List.length_append, List.length_singleton]
        exact hplaced.history hmodern
      · next hid =>
        rw [if_neg hid]
        exact h.history id c hc hmodern
    · rw [hput]
      exact hplaced.run
    · rw [hput]
      exact hplaced.count
  · intro id hnone
    rw [hget] at hnone
    split at hnone
    · cases hnone
    · next hid =>
      rw [hother id hid, hhistory, if_neg hid]
      exact h.absent id hnone
  · intro id c hc
    rw [hget] at hc
    split at hc
    · obtain rfl := Option.some.inj hc
      exact hplaced.editable
    · exact h.editable id c hc
  · intro id c hc hmodern
    rw [hget] at hc
    split at hc
    · obtain rfl := Option.some.inj hc
      exact hplaced.subject hmodern
    · exact h.subjects id c hc hmodern

/-! ## What the intake and the recheck let through -/

section Accepted
variable {α β : Type} {x : Except Refusal α} {f : α → Except Refusal β} {refusal : Refusal}

theorem ok_of_bind {b : β} (h : x >>= f = .ok b) : ∃ a, x = .ok a ∧ f a = .ok b := by
  cases x with
  | error e => cases h
  | ok a => exact ⟨a, rfl, h⟩

theorem refuseIf_ok {cond : Prop} [Decidable cond] {u : Unit} (h : refuseIf cond refusal = .ok u) : ¬cond := by
  intro hcond
  rw [refuseIf, if_pos hcond] at h
  cases h

theorem foundOr_ok {value : Option α} {a : α} (h : foundOr value refusal = .ok a) : value = some a := by
  cases value with
  | none => cases h
  | some b => rw [Except.ok.inj h]

end Accepted

theorem normalizeCommentText_ok {value : Json} {text : String} (h : normalizeCommentText value = .ok text) :
    ∃ s, value = .str s ∧ Py.strip s = text := by
  unfold normalizeCommentText at h
  split at h
  · next s =>
    dsimp only at h
    split at h
    · cases h
    · split at h
      · cases h
      · exact ⟨s, rfl, Except.ok.inj h⟩
  · cases h

theorem normalizeCommentText_again {value : Json} {text : String} (h : normalizeCommentText value = .ok text) :
    normalizeCommentText (.str text) = .ok text := by
  obtain ⟨s, rfl, rfl⟩ := normalizeCommentText_ok h
  have hstrip : Py.strip (Py.strip s) = Py.strip s := by
    unfold Py.strip
    rw [String.toList_ofList, stripChars_idem]
  have hsame : normalizeCommentText (.str (Py.strip s)) = normalizeCommentText (.str s) := by
    unfold normalizeCommentText
    simp only [hstrip]
  exact hsame.trans h

theorem commentText_ok {value : Json} {text : String} (h : commentText value = .ok text) :
    normalizeCommentText value = .ok text := by
  unfold commentText at h
  split at h
  · next text' htext => rw [htext, Except.ok.inj h]
  · cases h

theorem commentText_again {value : Json} {text : String} (h : commentText value = .ok text) :
    (normalizeCommentText (.str text)).toOption = some text := by
  rw [normalizeCommentText_again (commentText_ok h)]
  rfl

theorem commentIdOk_token (token : HexToken) : commentIdOk ("cmt_" ++ token.text) = true := by
  have hlist : ("cmt_" ++ token.text).toList = "cmt_".toList ++ token.text.toList := String.toList_append
  have hdrop : ("cmt_".toList ++ token.text.toList).drop 4 = token.text.toList := rfl
  unfold commentIdOk
  rw [hlist, hdrop, token.valid.1, token.valid.2]
  rfl

theorem modernActor_kind (author : CommentAuthor) : modernActor (.str author.actorKind) = some author.actorKind := by
  obtain ⟨agentToken, ownerAuth⟩ := author
  cases agentToken <;> cases ownerAuth <;> decide

def createdData (author : CommentAuthor) (id : String) (nodeId generation : Int) (text : String) : Obj :=
  [("comment_id", .str id), ("node_id", .int nodeId), ("node_generation", .int generation), ("text", .str text),
    ("actor_kind", .str author.actorKind), ("version", .int 1)]

theorem normalizeCommentCreated_ok {current : CommentSubject} {author : CommentAuthor} {data row : Obj}
    {tokens : List HexToken} (h : normalizeCommentCreated current author data tokens = .ok row) :
    ∃ nodeId generation text, ∃ token : HexToken,
      strictInteger (data.get "node_id") "node_id" = .ok nodeId ∧
      strictInteger (data.get "node_generation") "node_generation" = .ok generation ∧ 0 ≤ generation ∧
      commentText (data.get "text") = .ok text ∧
      row = createdData author ("cmt_" ++ token.text) nodeId generation text := by
  unfold normalizeCommentCreated at h
  obtain ⟨nodeId, hnode, h⟩ := ok_of_bind h
  obtain ⟨attempt, -, h⟩ := ok_of_bind h
  obtain ⟨generation, hgeneration, h⟩ := ok_of_bind h
  obtain ⟨_, hnonneg, h⟩ := ok_of_bind h
  obtain ⟨_, -, h⟩ := ok_of_bind h
  obtain ⟨_, -, h⟩ := ok_of_bind h
  obtain ⟨_, -, h⟩ := ok_of_bind h
  obtain ⟨token, -, h⟩ := ok_of_bind h
  obtain ⟨text, htext, h⟩ := ok_of_bind h
  refine ⟨nodeId, generation, text, token, hnode, hgeneration, not_lt.mp (refuseIf_ok hnonneg), htext, ?_⟩
  have hrow := Except.ok.inj h
  exact hrow.symm

theorem preconditionCommentCreated_none {state : CommentSubject} {author : CommentAuthor} {nodeId generation : Int}
    {text : String} (h : preconditionCommentCreated state (createdData author id nodeId generation text) = none) :
    state.comments.get id = none ∧ modernCount state.comments < COMMENT_MAX_PER_RUN ∧
      perSubject state.comments nodeId generation < COMMENT_MAX_PER_NODE_GENERATION := by
  unfold preconditionCommentCreated at h
  dsimp only at h
  split at h
  · cases h
  · split at h
    · cases h
    · next hfree =>
      split at h
      · cases h
      · next hrun =>
        split at h
        · cases h
        · next hsubject =>
          refine ⟨?_, not_le.mp hrun, not_le.mp hsubject⟩
          rw [Bool.not_eq_true, Option.isSome_eq_false_iff, Option.isNone_iff_eq_none] at hfree
          exact hfree

/-- The comment a creation asks for. -/
def createdComment (row : Event) (author : CommentAuthor) (id : String) (nodeId generation : Int) (text : String) :
    CommentState where
  commentId := id
  nodeId := nodeId
  nodeGeneration := some generation
  text := text
  actorKind := author.actorKind
  createdAt := timestamp row.ts
  updatedAt := timestamp row.ts
  createdSeq := row.seq
  updatedSeq := row.seq

theorem applyCreated_data {author : CommentAuthor} {nodeId generation : Int} {text : String} {token : HexToken}
    (hdata : event.data = createdData author ("cmt_" ++ token.text) nodeId generation text) (hnode : 0 ≤ nodeId)
    (hgeneration : 0 ≤ generation) (htext : (normalizeCommentText (.str text)).toOption = some text)
    (hfree : comments.get ("cmt_" ++ token.text) = none) (hrun : modernCount comments < COMMENT_MAX_PER_RUN)
    (hsubject : perSubject comments nodeId generation < COMMENT_MAX_PER_NODE_GENERATION) :
    applyCreated comments event event.seq =
      some (createdComment event author ("cmt_" ++ token.text) nodeId generation text,
        historyRow (createdComment event author ("cmt_" ++ token.text) nodeId generation text) event "created"
          author.actorKind) := by
  have hid : event.data.get "comment_id" = .str ("cmt_" ++ token.text) := by rw [hdata]; rfl
  have hnodeField : integerFrom 0 (event.data.get "node_id") = some nodeId := by
    rw [hdata]
    exact integerFrom_eq.mpr ⟨rfl, hnode⟩
  have hgenerationField : integerFrom 0 (event.data.get "node_generation") = some generation := by
    rw [hdata]
    exact integerFrom_eq.mpr ⟨rfl, hgeneration⟩
  have hactor : modernActor (event.data.get "actor_kind") = some author.actorKind := by
    rw [hdata]
    exact modernActor_kind author
  have hversion : integerFrom 1 (event.data.get "version") = some 1 := by
    rw [hdata]
    rfl
  have htextField : (normalizeCommentText (event.data.get "text")).toOption = some text := by
    rw [hdata]
    exact htext
  unfold applyCreated
  rw [hid, hnodeField, hgenerationField, hactor, hversion, htextField]
  simp only [Json.str?, bind, Option.bind]
  rw [if_neg]
  · rfl
  · rw [commentIdOk_token, hfree]
    simp [hrun, hsubject]

theorem applyCreated_negative {author : CommentAuthor} {nodeId generation : Int} {text : String}
    (hdata : event.data = createdData author id nodeId generation text) (hnode : nodeId < 0) :
    applyCreated comments event seq = none := by
  have hnodeField : integerFrom 0 (event.data.get "node_id") = none := by
    rw [hdata]
    show (some nodeId).filter _ = none
    rw [Option.filter_some, if_neg]
    simpa using hnode
  unfold applyCreated
  rw [hnodeField]
  cases (event.data.get "comment_id").str? <;> rfl

def revisedData (author : CommentAuthor) (comment : CommentState) (field : String × Json) : Obj :=
  [("comment_id", .str comment.commentId), ("node_id", .int comment.nodeId),
    ("node_generation", (comment.nodeGeneration.map Json.int).getD .null), ("base_version", .int comment.version),
    ("version", .int (comment.version + 1)), ("actor_kind", .str author.actorKind), field]

theorem revisionId_ok {value : Json} (h : revisionId value = .ok id) : value = .str id := by
  unfold revisionId at h
  split at h
  · split at h
    · rw [Except.ok.inj h]
    · cases h
  · cases h

theorem normalizeCommentRevision_ok {current : CommentSubject} {author : CommentAuthor} {data row : Obj}
    {type : CommentEvent} (hkeyed : Keyed current.comments)
    (h : normalizeCommentRevision current author data type = .ok row) :
    ∃ id old field, data.get "comment_id" = .str id ∧ current.comments.get id = some old ∧
      old.legacy = false ∧ old.version < COMMENT_MAX_VERSION ∧
      commentVersion (data.get "expected_version") = .ok old.version ∧
      revisionField data type old = .ok field ∧ row = revisedData author old field := by
  unfold normalizeCommentRevision at h
  obtain ⟨id, hid, h⟩ := ok_of_bind h
  obtain ⟨old, hold, h⟩ := ok_of_bind h
  obtain ⟨_, heditable, h⟩ := ok_of_bind h
  obtain ⟨_, hbound, h⟩ := ok_of_bind h
  obtain ⟨_, -, h⟩ := ok_of_bind h
  obtain ⟨_, -, h⟩ := ok_of_bind h
  obtain ⟨_, -, h⟩ := ok_of_bind h
  obtain ⟨expected, hexpected, h⟩ := ok_of_bind h
  obtain ⟨_, hversion, h⟩ := ok_of_bind h
  obtain ⟨field, hfield, h⟩ := ok_of_bind h
  have hold := foundOr_ok hold
  obtain rfl := hkeyed id old hold
  obtain rfl : old.version = expected := not_not.mp (refuseIf_ok hversion)
  have hmodern : old.legacy = false := by
    have heditable := refuseIf_ok heditable
    rw [Bool.or_eq_true, not_or] at heditable
    exact (Bool.not_eq_true _).mp heditable.2
  exact ⟨old.commentId, old, field, revisionId_ok hid, hold, hmodern, not_le.mp (refuseIf_ok hbound), hexpected, hfield,
    (Except.ok.inj h).symm⟩

theorem preconditionCommentRevision_none {state : CommentSubject} {author : CommentAuthor} {old : CommentState}
    {field : String × Json} (h : preconditionCommentRevision state (revisedData author old field) = none) :
    ∃ now, state.comments.get old.commentId = some now ∧ now.editable = true ∧ now.version = old.version := by
  have hid : (revisedData author old field).get "comment_id" = .str old.commentId := rfl
  have hbase : (revisedData author old field).get "base_version" = .int old.version := rfl
  unfold preconditionCommentRevision at h
  rw [hid, hbase] at h
  split at h
  · cases h
  · next now hnow =>
    obtain ⟨hnow, heditable⟩ := Option.filter_eq_some_iff.mp hnow
    dsimp only at h
    split at h
    · cases h
    · split at h
      · cases h
      · next hversion => exact ⟨now, hnow, heditable, Option.some.inj (not_not.mp hversion)⟩

/-- The comment at the next version, under the time and the place of the row. -/
def revisedComment (row : Event) (comment : CommentState) : CommentState :=
  { comment with
    version := comment.version + 1
    updatedAt := timestamp row.ts
    updatedSeq := row.seq }

theorem applyRevision_data {author : CommentAuthor} {type : CommentEvent} {old next : CommentState} {generation : Int}
    {field : String × Json} {action : String} (hdata : event.data = revisedData author old field)
    (hold : comments.get old.commentId = some old) (heditable : old.editable = true) (hnode : 0 ≤ old.nodeId)
    (hg : old.nodeGeneration = some generation) (hgeneration : 0 ≤ generation) (hfirst : 1 ≤ old.version)
    (hlast : old.version < COMMENT_MAX_VERSION) (hrevised : revised event type old = some (next, action)) :
    applyRevision comments event type event.seq =
      some (revisedComment event next, historyRow (revisedComment event next) event action author.actorKind) := by
  have hid : event.data.get "comment_id" = .str old.commentId := by rw [hdata]; rfl
  have hnodeField : integerFrom 0 (event.data.get "node_id") = some old.nodeId := by
    rw [hdata]
    exact integerFrom_eq.mpr ⟨rfl, hnode⟩
  have hgenerationField : integerFrom 0 (event.data.get "node_generation") = old.nodeGeneration := by
    rw [hdata, hg]
    refine integerFrom_eq.mpr ⟨?_, hgeneration⟩
    show ((old.nodeGeneration.map Json.int).getD .null).int? = some generation
    rw [hg]
    rfl
  have hbase : integerFrom 1 (event.data.get "base_version") = some old.version := by
    rw [hdata]
    exact integerFrom_eq.mpr ⟨rfl, hfirst⟩
  have hversion : integerFrom 2 (event.data.get "version") = some (old.version + 1) := by
    rw [hdata]
    exact integerFrom_eq.mpr ⟨rfl, by omega⟩
  have hactor : modernActor (event.data.get "actor_kind") = some author.actorKind := by
    rw [hdata]
    exact modernActor_kind author
  obtain ⟨text, resolved, rfl⟩ := revised_same hrevised
  unfold applyRevision
  rw [hid, hnodeField, hgenerationField, hbase, hversion, hactor]
  simp only [Json.str?, bind, Option.bind, hold]
  rw [if_neg]
  · rw [hrevised]
    rfl
  · rw [heditable]
    simp only [Bool.not_true, ne_eq, not_true, decide_false, Bool.or_false, Bool.false_or, decide_eq_true_eq, not_lt]
    omega

theorem revisionField_edited {data : Obj} {old : CommentState} {field : String × Json}
    (h : revisionField data .edited old = .ok field) :
    ∃ text, commentText (data.get "text") = .ok text ∧ ¬text = old.text ∧ field = ("text", .str text) := by
  obtain ⟨text, htext, h⟩ := ok_of_bind h
  obtain ⟨_, hne, h⟩ := ok_of_bind h
  exact ⟨text, htext, refuseIf_ok hne, (Except.ok.inj h).symm⟩

theorem revisionField_resolution {data : Obj} {old : CommentState} {field : String × Json}
    (h : revisionField data .resolutionChanged old = .ok field) :
    ∃ resolved, data.get "resolved" = .bool resolved ∧ ¬resolved = old.resolved ∧
      field = ("resolved", .bool resolved) := by
  unfold revisionField at h
  dsimp only at h
  split at h
  · next resolved hresolved =>
    obtain ⟨_, hne, h⟩ := ok_of_bind h
    exact ⟨resolved, hresolved, refuseIf_ok hne, (Except.ok.inj h).symm⟩
  · cases h

/-! ## Runs -/

/-- What a command asks of the comments: the comment it names as it asks for it, with the audit row of its
author, and every other one as it was. -/
def CommentCommand.Effect (c : CommentCommand) (row : Event) (before after : Comments) : Prop :=
  match c.type with
  | .created =>
    ∃ id nodeId generation text,
      strictInteger (c.request.get "node_id") "node_id" = .ok nodeId ∧
      strictInteger (c.request.get "node_generation") "node_generation" = .ok generation ∧
      commentText (c.request.get "text") = .ok text ∧ before.comments.get id = none ∧
      after = before.put (createdComment row c.author id nodeId generation text)
        (historyRow (createdComment row c.author id nodeId generation text) row "created" c.author.actorKind)
  | .edited =>
    ∃ old text,
      c.request.get "comment_id" = .str old.commentId ∧ before.comments.get old.commentId = some old ∧
      commentVersion (c.request.get "expected_version") = .ok old.version ∧
      commentText (c.request.get "text") = .ok text ∧
      after = before.put (revisedComment row { old with text })
        (historyRow (revisedComment row { old with text }) row "edited" c.author.actorKind)
  | .resolutionChanged =>
    ∃ old resolved,
      c.request.get "comment_id" = .str old.commentId ∧ before.comments.get old.commentId = some old ∧
      commentVersion (c.request.get "expected_version") = .ok old.version ∧
      c.request.get "resolved" = .bool resolved ∧
      after = before.put (revisedComment row { old with resolved })
        (historyRow (revisedComment row { old with resolved }) row (if resolved then "resolved" else "reopened")
          c.author.actorKind)

/-- The command does not open a comment on an experiment of negative id. -/
def CommentCommand.OnBoard (c : CommentCommand) : Prop :=
  c.type = .created → ∀ nodeId, strictInteger (c.request.get "node_id") "node_id" = .ok nodeId → 0 ≤ nodeId

section Accepted
variable {env : Env} {c : CommentCommand} {row : Event}

theorem CommentCommand.row_ok (h : c.row env log = .ok row) :
    ∃ data, normalizeComment (commentSubject env (log.take c.seen)) c.author c.request c.type c.tokens = .ok data ∧
      preconditionComment (commentSubject env log) data c.type = none ∧
      row = { seq := log.length, ts := c.ts, type := c.type.name, data } := by
  obtain ⟨data, hdata, h⟩ := ok_of_bind h
  split at h
  · cases h
  · next hnone => exact ⟨data, hdata, hnone, (Except.ok.inj h).symm⟩

def applyTyped (comments : Dict String CommentState) (event : Event) (type : CommentEvent) :
    Option (CommentState × HistoryRow) :=
  match type with
  | .created => applyCreated comments event event.seq
  | type => applyRevision comments event type event.seq

theorem applyCommentEvent_type (hseq : 0 ≤ event.seq) {type : CommentEvent} (htype : event.type = type.name) :
    applyCommentEvent comments event = applyTyped comments event type := by
  unfold applyCommentEvent
  rw [if_neg (not_lt.mpr hseq), htype]
  cases type <;> rfl

theorem CommentCommand.created_row (htype : c.type = .created) (h : c.row env log = .ok row) :
    ∃ id nodeId generation text,
      strictInteger (c.request.get "node_id") "node_id" = .ok nodeId ∧
      strictInteger (c.request.get "node_generation") "node_generation" = .ok generation ∧
      commentText (c.request.get "text") = .ok text ∧ (projectComments log).comments.get id = none ∧
      applyCommentEvent (projectComments log).comments row =
        if nodeId < 0 then none
        else some (createdComment row c.author id nodeId generation text,
          historyRow (createdComment row c.author id nodeId generation text) row "created" c.author.actorKind) := by
  obtain ⟨data, hdata, hnone, hrow⟩ := row_ok h
  rw [htype] at hdata hnone
  obtain ⟨nodeId, generation, text, token, hnode, hgeneration, hnonneg, htext, rfl⟩ := normalizeCommentCreated_ok hdata
  obtain ⟨hfree, hrun, hsubject⟩ := preconditionCommentCreated_none hnone
  refine ⟨"cmt_" ++ token.text, nodeId, generation, text, hnode, hgeneration, htext, hfree, ?_⟩
  have hseq : 0 ≤ row.seq := by rw [hrow]; exact Int.natCast_nonneg _
  have hname : row.type = CommentEvent.created.name := by rw [hrow]; exact congrArg CommentEvent.name htype
  have hfields : row.data = createdData c.author ("cmt_" ++ token.text) nodeId generation text := by rw [hrow]
  rw [applyCommentEvent_type hseq hname]
  show applyCreated _ _ _ = _
  split
  · next hneg => exact applyCreated_negative hfields hneg
  · next hboard =>
    exact applyCreated_data hfields (not_lt.mp hboard) hnonneg (commentText_again htext) hfree hrun hsubject

theorem CommentCommand.revision_row (hsound : CommentsSound log) (htype : ¬c.type = .created)
    (h : c.row env log = .ok row) :
    ∃ old field, c.request.get "comment_id" = .str old.commentId ∧
      (projectComments log).comments.get old.commentId = some old ∧
      commentVersion (c.request.get "expected_version") = .ok old.version ∧
      revisionField c.request c.type old = .ok field ∧ row.data = revisedData c.author old field ∧
      ∀ next action, revised row c.type old = some (next, action) →
        applyCommentEvent (projectComments log).comments row =
          some (revisedComment row next, historyRow (revisedComment row next) row action c.author.actorKind) := by
  obtain ⟨data, hdata, hnone, hrow⟩ := row_ok h
  have hdata : normalizeCommentRevision (commentSubject env (log.take c.seen)) c.author c.request c.type = .ok data := by
    cases hc : c.type with
    | created => exact absurd hc htype
    | edited => rwa [hc] at hdata
    | resolutionChanged => rwa [hc] at hdata
  have hnone : preconditionCommentRevision (commentSubject env log) data = none := by
    cases hc : c.type with
    | created => exact absurd hc htype
    | edited => rwa [hc] at hnone
    | resolutionChanged => rwa [hc] at hnone
  obtain ⟨id, old, field, hid, hold, hmodern, hlast, hexpected, hfield, rfl⟩ :=
    normalizeCommentRevision_ok (projectComments_keyed _) hdata
  obtain rfl := projectComments_keyed _ id old hold
  obtain ⟨now, hnow, heditable, hversion⟩ := preconditionCommentRevision_none hnone
  have hsame : now = old := (projectComments_take log c.seen).eq_of_version hold hnow hversion
  rw [hsame] at hnow heditable
  refine ⟨old, field, hid, hnow, hexpected, hfield, by rw [hrow], ?_⟩
  intro next action hrevised
  obtain ⟨hnode, generation, hg, hgeneration⟩ := hsound.subjects _ old hnow hmodern
  have hcount := (hsound.version _ old hnow hmodern).1
  have hseq : 0 ≤ row.seq := by rw [hrow]; exact Int.natCast_nonneg _
  have happly := applyRevision_data (by rw [hrow]) hnow heditable hnode hg hgeneration (by omega) hlast hrevised
  rw [applyCommentEvent_type hseq (show row.type = c.type.name by rw [hrow])]
  cases hc : c.type with
  | created => exact absurd hc htype
  | edited => rwa [hc] at happly
  | resolutionChanged => rwa [hc] at happly

theorem CommentCommand.revision_effect (hsound : CommentsSound log) (htype : ¬c.type = .created)
    (h : c.row env log = .ok row) :
    (applyCommentEvent (projectComments log).comments row).isSome ∧
      c.Effect row (projectComments log) (projectComments (log ++ [row])) := by
  obtain ⟨old, field, hid, hold, hexpected, hfield, hdata, happly⟩ := revision_row hsound htype h
  rw [projectComments_snoc]
  unfold Effect Comments.apply
  cases hc : c.type with
  | created => exact absurd hc htype
  | edited =>
    rw [hc] at hfield happly
    obtain ⟨text, htext, hne, rfl⟩ := revisionField_edited hfield
    have hrevised : revised row .edited old = some ({ old with text }, "edited") := by
      have hfieldText : row.data.get "text" = .str text := by rw [hdata]; rfl
      unfold revised
      rw [hfieldText, commentText_again htext]
      exact if_neg hne
    rw [happly _ _ hrevised]
    exact ⟨rfl, old, text, hid, hold, hexpected, htext, rfl⟩
  | resolutionChanged =>
    rw [hc] at hfield happly
    obtain ⟨resolved, hresolved, hne, rfl⟩ := revisionField_resolution hfield
    have hrevised : revised row .resolutionChanged old =
        some ({ old with resolved }, if resolved then "resolved" else "reopened") := by
      have hfieldResolved : row.data.get "resolved" = .bool resolved := by rw [hdata]; rfl
      unfold revised
      rw [hfieldResolved]
      exact if_neg hne
    rw [happly _ _ hrevised]
    exact ⟨rfl, old, resolved, hid, hold, hexpected, hresolved, rfl⟩

theorem CommentCommand.created_effect (htype : c.type = .created) (h : c.row env log = .ok row) :
    c.Effect row (projectComments log) (projectComments (log ++ [row])) ↔ c.OnBoard := by
  obtain ⟨id, nodeId, generation, text, hnode, hgeneration, htext, hfree, happly⟩ := created_row htype h
  rw [projectComments_snoc]
  unfold Effect OnBoard Comments.apply
  rw [htype, happly]
  dsimp only
  constructor
  · rintro ⟨id', nodeId', generation', text', hnode', -, -, hfree', hafter⟩ - nodeId'' hnode''
    obtain rfl := Except.ok.inj (hnode.symm.trans hnode'')
    by_contra hneg
    rw [if_pos (not_le.mp hneg)] at hafter
    have hget := congrArg (·.comments.get id') hafter
    dsimp only [Comments.put] at hget
    rw [hfree', Dict.get_set] at hget
    have hopened := hget.trans (if_pos rfl)
    cases hopened
  · intro hboard
    rw [if_neg (not_lt.mpr (hboard rfl nodeId hnode))]
    exact ⟨id, nodeId, generation, text, hnode, hgeneration, htext, hfree, rfl⟩

end Accepted

theorem commentsSound_row (h : CommentsSound log) (r : OtherRow) :
    CommentsSound (log ++ [{ r.event with seq := log.length }]) := by
  have hrow : ¬revises { r.event with seq := log.length } :=
    not_or.mpr ⟨r.other .edited, r.other .resolutionChanged⟩
  cases happly : applyCommentEvent (projectComments log).comments { r.event with seq := log.length } with
  | none => exact h.skip hrow happly
  | some applied => exact h.put happly

theorem commentsSound_command {env : Env} {c : CommentCommand} {row : Event} (h : CommentsSound log)
    (hrow : c.row env log = .ok row) : CommentsSound (log ++ [row]) := by
  cases happly : applyCommentEvent (projectComments log).comments row with
  | some applied => exact h.put happly
  | none =>
    by_cases htype : c.type = .created
    · obtain ⟨data, -, -, rfl⟩ := CommentCommand.row_ok hrow
      refine h.skip ?_ happly
      unfold revises
      rw [htype]
      show ¬(CommentEvent.created.name = _ ∨ CommentEvent.created.name = _)
      decide
    · have hsome := (CommentCommand.revision_effect h htype hrow).1
      rw [happly] at hsome
      cases hsome

theorem commentsSound_log (env : Env) (actions : List CommentAction) : CommentsSound (commentLog env actions) := by
  induction actions using List.reverseRecOn with
  | nil => exact commentsSound_nil
  | append_singleton actions action ih =>
    unfold commentLog at ih ⊢
    rw [List.foldl_append]
    cases action with
    | row r => exact commentsSound_row ih r
    | command c =>
      rw [List.foldl_cons, List.foldl_nil]
      unfold commentStep
      dsimp only
      split
      · next event hrow => exact commentsSound_command ih hrow
      · exact ih

theorem commentLog_take (env : Env) (actions : List CommentAction) (n : Nat) :
    ∃ earlier, (commentLog env actions).take n = commentLog env earlier := by
  induction actions using List.reverseRecOn with
  | nil => exact ⟨[], List.take_nil⟩
  | append_singleton actions action ih =>
    have hlog : commentLog env (actions ++ [action]) = commentStep env (commentLog env actions) action := by
      simp [commentLog]
    by_cases hn : n ≤ (commentLog env actions).length
    · have hbegins : ∃ tail, commentLog env (actions ++ [action]) = commentLog env actions ++ tail := by
        rw [hlog]
        cases action with
        | row r => exact ⟨_, rfl⟩
        | command c =>
          unfold commentStep
          dsimp only
          split
          · exact ⟨_, rfl⟩
          · exact ⟨[], (List.append_nil _).symm⟩
      obtain ⟨tail, htail⟩ := hbegins
      rw [htail, List.take_append_of_le_length hn]
      exact ih
    · have hlength : (commentLog env (actions ++ [action])).length ≤ (commentLog env actions).length + 1 := by
        rw [hlog]
        cases action with
        | row r => exact (List.length_append).le
        | command c =>
          unfold commentStep
          dsimp only
          split
          · exact (List.length_append).le
          · exact Nat.le_succ _
      exact ⟨actions ++ [action], List.take_of_length_le (by omega)⟩

/-- Whatever rows stand between the commands and however old their folds are: a command that is let through takes
effect as it asks exactly where it does not open a comment on an experiment of negative id. The versions count the
revisions and every cap holds all along. -/
theorem accepted_comments_apply (env : Env) (actions : List CommentAction) :
    (∀ c row, CommentCommand.row env c (commentLog env actions) = .ok row →
      (c.Effect row (projectComments (commentLog env actions)) (projectComments (commentLog env actions ++ [row])) ↔
        c.OnBoard)) ∧
      ∀ n, CommentCounts ((commentLog env actions).take n) := by
  have hsound := commentsSound_log env actions
  constructor
  · intro c row hrow
    by_cases htype : c.type = .created
    · exact CommentCommand.created_effect htype hrow
    · refine iff_of_true (CommentCommand.revision_effect hsound htype hrow).2 ?_
      intro hcreated
      exact absurd hcreated htype
  · intro n
    obtain ⟨earlier, hearlier⟩ := commentLog_take env actions n
    rw [hearlier]
    exact (commentsSound_log env earlier).toCommentCounts

theorem nodeCreated_other (type : CommentEvent) : "node_created" ≠ type.name := by
  cases type <;> decide

/-- A first draft on the node. -/
def draftRow (nodeId : Int) : OtherRow where
  event :=
    { type := "node_created"
      data :=
        [("node_id", .int nodeId), ("operator", .str "draft"), ("parent_ids", .arr []),
          ("idea", .obj [("operator", .str "draft")]), ("code", .str "print(1)")] }
  other := nodeCreated_other

/-- A first comment on the node. -/
def firstComment (nodeId : Int) : CommentCommand where
  type := .created
  request := [("node_id", .int nodeId), ("node_generation", .int 0), ("text", .str "look at the loss")]
  tokens := [⟨"0123456789abcdef0123456789abcdef", by decide⟩]
  seen := 1

theorem firstComment_row (nodeId : Int)
    (h : ((firstComment nodeId).row Env.plain (commentLog Env.plain [.row (draftRow nodeId)])).toOption.isSome) :
    ∃ row, (firstComment nodeId).row Env.plain (commentLog Env.plain [.row (draftRow nodeId)]) = .ok row := by
  cases hrow : (firstComment nodeId).row Env.plain (commentLog Env.plain [.row (draftRow nodeId)]) with
  | error refusal =>
    rw [hrow] at h
    cases h
  | ok row => exact ⟨row, rfl⟩

theorem accepted_comments_apply_first :
    ∃ row, (firstComment 0).row Env.plain (commentLog Env.plain [.row (draftRow 0)]) = .ok row ∧
      (firstComment 0).Effect row (projectComments (commentLog Env.plain [.row (draftRow 0)]))
        (projectComments (commentLog Env.plain [.row (draftRow 0)] ++ [row])) := by
  obtain ⟨row, hrow⟩ := firstComment_row 0 (by decide +kernel)
  refine ⟨row, hrow, ((accepted_comments_apply Env.plain [.row (draftRow 0)]).1 _ row hrow).mpr ?_⟩
  intro _ nodeId hnode
  exact (Except.ok.inj hnode).le

/-- A node row without a server behind it may have any id; a comment on a negative one is let through and lost. -/
theorem stray_comment_lost :
    ∃ row, (firstComment (-1)).row Env.plain (commentLog Env.plain [.row (draftRow (-1))]) = .ok row ∧
      projectComments (commentLog Env.plain [.row (draftRow (-1))] ++ [row]) =
        projectComments (commentLog Env.plain [.row (draftRow (-1))]) ∧
      ¬(firstComment (-1)).Effect row (projectComments (commentLog Env.plain [.row (draftRow (-1))]))
        (projectComments (commentLog Env.plain [.row (draftRow (-1))] ++ [row])) := by
  obtain ⟨row, hrow⟩ := firstComment_row (-1) (by decide +kernel)
  have hstray : ¬(firstComment (-1)).OnBoard := by
    intro hboard
    exact absurd (hboard rfl (-1) rfl) (by decide)
  refine ⟨row, hrow, ?_, fun heffect => hstray ((CommentCommand.created_effect rfl hrow).mp heffect)⟩
  obtain ⟨id, nodeId, generation, text, hnode, -, -, -, happly⟩ := CommentCommand.created_row rfl hrow
  obtain rfl : -1 = nodeId := Except.ok.inj hnode
  rw [projectComments_snoc, Comments.apply, happly]
  rfl

end LoopLab.Serve
