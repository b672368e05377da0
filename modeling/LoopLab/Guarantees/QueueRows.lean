import LoopLab.Engine.BuildService
import LoopLab.Guarantees.BuildQueue

/-!
# What a row does to the build queue

A row of another writer leaves the queue as it is. A request of the engine lands at its end or not at all, a
receipt is added to the receipts, and a close closes the position of its request and no other.
-/

set_option autoImplicit false

namespace LoopLab.Engine.Speculation
open Lib

/-! ## The queue of a log -/

def IsOpen (b : Builds) (p : Nat) (key : BuildRequest) : Prop :=
  b.requests[p]? = some key ∧ ¬ b.window.IsClosed p

section Queue
variable {env : LedgerEnv} {key : BuildRequest} {log rows : List Event} {p : Nat}

theorem queueOf_eq (env : LedgerEnv) (log : List Event) :
    queueOf env log = (replayLog env.toEnv log).builds := by
  unfold queueOf
  rw [log_replayBoard]

theorem requestPosition_open (h : requestPosition env key log = some p) : IsOpen (queueOf env log) p key := by
  unfold requestPosition at h
  obtain ⟨⟨request, q⟩, hfind, rfl⟩ := Option.map_eq_some_iff.mp h
  have hmem := List.mem_of_find?_eq_some hfind
  have hprop := List.find?_some hfind
  simp only [Bool.and_eq_true, decide_eq_true_eq] at hprop
  have hget := List.mem_zipIdx_iff_getElem?.mp hmem
  exact ⟨hprop.1 ▸ hget, hprop.2⟩

theorem mem_outstanding : key ∈ outstandingRequests env log ↔ ∃ q, IsOpen (queueOf env log) q key := by
  unfold outstandingRequests
  constructor
  · intro h
    obtain ⟨⟨request, q⟩, hmem, rfl⟩ := List.mem_map.mp h
    obtain ⟨hmem, hopen⟩ := List.mem_filter.mp hmem
    exact ⟨q, List.mem_zipIdx_iff_getElem?.mp hmem, of_decide_eq_true hopen⟩
  · rintro ⟨q, hget, hopen⟩
    apply List.mem_map.mpr
    exact ⟨(key, q), List.mem_filter.mpr ⟨List.mem_zipIdx_iff_getElem?.mpr hget, decide_eq_true hopen⟩, rfl⟩

/-! ### Rows of other writers -/

theorem builds_logStep_other {e : Event} {s : LogState} {e' : Env}
    (h : e.row ≠ some .cardBuildRequested ∧ e.row ≠ some .cardBuildAttempted ∧ e.row ≠ some .cardBuildDone) :
    (logStep e' s e).builds = s.builds := by
  cases hrow : e.row with
  | none => rw [logStep_other hrow]
  | some t =>
    rw [logStep_row hrow]
    rw [hrow] at h
    cases t with
    | cardBuildRequested => exact absurd rfl h.1
    | cardBuildAttempted => exact absurd rfl h.2.1
    | cardBuildDone => exact absurd rfl h.2.2
    | _ => rfl

theorem foreign_row (h : foreign rows = true) {e : Event} (he : e ∈ rows) :
    e.row ≠ some .cardBuildRequested ∧ e.row ≠ some .cardBuildAttempted ∧ e.row ≠ some .cardBuildDone := by
  have hrow := List.all_eq_true.mp h e he
  simpa using hrow

structure SameQueue (env : LedgerEnv) (log log' : List Event) : Prop where
  queue : queueOf env log' = queueOf env log
  closes : closes env.toEnv log' = closes env.toEnv log

theorem SameQueue.refl (env : LedgerEnv) (log : List Event) : SameQueue env log log := ⟨rfl, rfl⟩

theorem SameQueue.trans {a b c : List Event} (h : SameQueue env a b) (h' : SameQueue env b c) :
    SameQueue env a c := ⟨h'.queue.trans h.queue, h'.closes.trans h.closes⟩

theorem sameQueue_foreign (log : List Event) (h : foreign rows = true) : SameQueue env log (log ++ rows) := by
  induction rows generalizing log with
  | nil =>
    rw [List.append_nil]
    exact .refl env log
  | cons e rows ih =>
    have hrow := foreign_row h List.mem_cons_self
    have hrows : foreign rows = true := (Bool.and_eq_true _ _ ▸ h : _ ∧ _).2
    rw [List.append_cons]
    refine SameQueue.trans ?_ (ih (log ++ [e]) hrows)
    constructor
    · rw [queueOf_eq, queueOf_eq, replayLog_snoc, builds_logStep_other hrow]
    · rw [closes_snoc, newlyClosed_nothing (by rw [builds_logStep_other hrow]), List.map_nil, List.append_nil]

theorem requestPosition_same {log' : List Event} (h : SameQueue env log log') :
    requestPosition env key log' = requestPosition env key log := by
  have hq := h.queue
  unfold queueOf at hq
  unfold requestPosition
  rw [hq]

/-! ### The identity of a request -/

theorem length_stripChars (cs : List Char) : (Py.stripChars cs).length ≤ cs.length := by
  unfold Py.stripChars
  have h := (List.dropWhile_sublist Py.isSpace (l := cs)).length_le
  have h' := (List.dropWhile_sublist Py.isSpace (l := (cs.dropWhile Py.isSpace).reverse)).length_le
  rw [List.length_reverse] at h' ⊢
  omega

theorem cardReplayId_idem {e : Env} {v : Json} {id : String} (h : cardReplayId e v = some id) :
    cardReplayId e (.str id) = some id := by
  unfold cardReplayId at h ⊢
  simp only [Option.bind_eq_bind, Option.bind_eq_some_iff] at h
  obtain ⟨s, -, h⟩ := h
  split at h
  · cases h
  · rename_i hlen
    split at h
    · rename_i hok
      cases h
      have hshort : (Py.strip s).length ≤ s.length := by
        unfold Py.strip
        rw [String.length_ofList, ← String.length_toList]
        exact length_stripChars _
      simp only [Option.bind_eq_bind, Json.str?, Option.bind_some, strip_idem]
      rw [if_neg (by omega), if_pos hok]
    · cases h

def Canonical (env : Env) (key : BuildRequest) : Prop :=
  cardReplayId env (.str key.cardId) = some key.cardId ∧
    (Json.int key.generation).boundedInt 0 CARD_REPLAY_NODE_ID_MAX = true

theorem canonical_identity {e : Env} {d : Obj} (h : buildIdentity e d = some key) : Canonical e key := by
  unfold buildIdentity at h
  simp only [Option.bind_eq_bind, Option.bind_eq_some_iff] at h
  obtain ⟨cardId, hcard, generation, hint, h⟩ := h
  split at h
  · rename_i hbound
    cases h
    refine ⟨cardReplayId_idem hcard, ?_⟩
    rwa [Json.int?_eq_some.mp hint] at hbound
  · cases h

theorem identity_canonical {e : Env} {d : Obj} (h : Canonical e key)
    (hcard : d.get "card_id" = .str key.cardId) (hint : d.get "generation" = .int key.generation) :
    buildIdentity e d = some key := by
  unfold buildIdentity
  rw [hcard, hint, h.1, h.2]
  rfl

theorem canonical_requests (env : LedgerEnv) (log : List Event) :
    ∀ key ∈ (queueOf env log).requests, Canonical env.toEnv key := by
  rw [queueOf_eq]
  refine replayLog_invariant (P := fun s => ∀ key ∈ s.builds.requests, Canonical env.toEnv key) env.toEnv
    (fun key h => by cases h) (fun s e ih => ?_) log
  rcases logStep_builds env.toEnv s e with ⟨-, -⟩ | ⟨-, p, request, -, hr, -⟩
  · cases hrow : e.row with
    | none =>
      rw [logStep_other hrow]
      exact ih
    | some t =>
      rw [logStep_row hrow]
      cases t with
      | cardBuildRequested =>
        intro key hkey
        change key ∈ (onCardBuildRequested env.toEnv s.run.st s.builds e).requests at hkey
        unfold onCardBuildRequested at hkey
        split at hkey
        · rename_i request hid
          split at hkey
          · exact ih key hkey
          · rcases List.mem_append.mp hkey with hkey | hkey
            · exact ih key hkey
            · rw [List.mem_singleton.mp hkey]
              exact canonical_identity hid
        · exact ih key hkey
      | cardBuildAttempted =>
        intro key hkey
        change key ∈ (onCardBuildAttempted env.toEnv s.builds e).requests at hkey
        rw [(cardBuildAttempted_keeps env.toEnv s.builds e).2] at hkey
        exact ih key hkey
      | cardBuildDone =>
        intro key hkey
        change key ∈ (onCardBuildDone env.toEnv s.run.st s.builds e).requests at hkey
        rcases cardBuildDone_cases env.toEnv s.run.st s.builds e with heq | ⟨_, _, _, hr, _⟩
        · rw [heq] at hkey
          exact ih key hkey
        · rw [hr] at hkey
          exact ih key hkey
      | _ => exact ih
  · rw [hr]
    exact ih

end Queue

/-! ### The rows of the engine -/

section Rows
variable {env : LedgerEnv} {key : BuildRequest} {log : List Event} {p : Nat} {ts : Rat}

@[simp] theorem keyData_card (rest : Obj) : Obj.get (keyData key ++ rest) "card_id" = .str key.cardId := by
  simp [keyData, Obj.get, Obj.getD, List.lookup_cons]

@[simp] theorem keyData_generation (rest : Obj) :
    Obj.get (keyData key ++ rest) "generation" = .int key.generation := by
  simp [keyData, Obj.get, Obj.getD, List.lookup_cons]

theorem queueOf_snoc (e : Event) : queueOf env (log ++ [e]) =
    (logStep env.toEnv (replayLog env.toEnv log) e).builds := by
  rw [queueOf_eq, replayLog_snoc]

theorem queueOf_requested (hcard : cardReplayId env.toEnv (.str key.cardId) = some key.cardId) :
    let log' := log ++ [queueRow ts log "card_build_requested" (keyData key)]
    closes env.toEnv log' = closes env.toEnv log ∧ (queueOf env log' = queueOf env log ∨
      queueOf env log' = { queueOf env log with requests := (queueOf env log).requests ++ [key] }) := by
  intro log'
  have hrow : (queueRow ts log "card_build_requested" (keyData key)).row = some .cardBuildRequested :=
    RowType.ofName_name .cardBuildRequested
  have hstep := @logStep_row env.toEnv (replayLog env.toEnv log) _ _ hrow
  have hwindow := (requests_cardBuildRequested env.toEnv (replayLog env.toEnv log).run.st
    (replayLog env.toEnv log).builds (queueRow ts log "card_build_requested" (keyData key))).1
  constructor
  · rw [closes_snoc, newlyClosed_nothing (by rw [hstep]; exact hwindow), List.map_nil, List.append_nil]
  · rw [queueOf_snoc, hstep, queueOf_eq]
    unfold handleQueue onCardBuildRequested
    dsimp only
    split
    · rename_i request hid
      split
      · exact .inl rfl
      · right
        unfold buildIdentity at hid
        have hd : (queueRow ts log "card_build_requested" (keyData key)).data = keyData key ++ [] := by
          rw [List.append_nil]
          rfl
        rw [hd, keyData_card, keyData_generation, hcard] at hid
        simp only [Option.bind_eq_bind, Option.bind_some, Json.int?] at hid
        split at hid
        · cases hid
          rfl
        · cases hid
    · exact .inl rfl

theorem queueOf_attempted (hkey : Canonical env.toEnv key) :
    let log' := log ++ [queueRow ts log "card_build_attempted" (keyData key ++ [("index", .int p)])]
    closes env.toEnv log' = closes env.toEnv log ∧
      queueOf env log' = { queueOf env log with attempts := (queueOf env log).attempts ++ [⟨key, p⟩] } := by
  intro log'
  have hrow : (queueRow ts log "card_build_attempted" (keyData key ++ [("index", .int p)])).row =
      some .cardBuildAttempted := RowType.ofName_name .cardBuildAttempted
  have hstep := @logStep_row env.toEnv (replayLog env.toEnv log) _ _ hrow
  constructor
  · rw [closes_snoc, newlyClosed_nothing, List.map_nil, List.append_nil]
    rw [hstep]
    exact (cardBuildAttempted_keeps env.toEnv _ _).1
  · rw [queueOf_snoc, hstep, queueOf_eq]
    have hid : buildIdentity env.toEnv (keyData key ++ [("index", .int p)]) = some key :=
      identity_canonical hkey (keyData_card _) (keyData_generation _)
    have hindex : Obj.get (keyData key ++ [("index", .int p)]) "index" = .int p := by
      simp [keyData, Obj.get, Obj.getD, List.lookup_cons]
    unfold handleQueue onCardBuildAttempted queueRow
    dsimp only
    rw [hid, hindex]
    dsimp only
    rw [if_neg (by omega), Int.toNat_natCast]

def doneRow (env : LedgerEnv) (key : BuildRequest) (log : List Event) (p : Nat) (live : Bool)
    (closing : Closing) : Obj :=
  if p = (queueOf env log).window.done then doneData key live closing
  else doneData key live closing ++ [("index", .int p)]

theorem doneRow_get (live : Bool) (closing : Closing) (name : String) (hname : name ≠ "index") :
    (doneRow env key log p live closing).get name = (doneData key live closing).get name := by
  unfold doneRow
  split
  · rfl
  · unfold Obj.get Obj.getD
    rw [List.lookup_append, List.lookup_cons, beq_false_of_ne hname]
    simp

theorem doneData_key (live : Bool) (closing : Closing) :
    ∃ rest, doneData key live closing = keyData key ++ rest ∧ rest.lookup "index" = none := by
  cases closing with
  | node id => exact ⟨_, rfl, rfl⟩
  | skip word reason =>
    unfold doneData
    dsimp only
    rw [List.append_assoc, List.append_assoc]
    refine ⟨_, rfl, ?_⟩
    cases reason.map Py.strip with
    | none => cases live <;> rfl
    | some text =>
      dsimp only
      split <;> cases live <;> rfl

theorem doneRow_index (live : Bool) (closing : Closing) :
    (doneRow env key log p live closing).get "index" =
      if p = (queueOf env log).window.done then .null else .int p := by
  obtain ⟨rest, hdata, hrest⟩ := doneData_key live closing
  have hnone : (doneData key live closing).lookup "index" = none := by
    rw [hdata, List.lookup_append, hrest]
    rfl
  unfold doneRow Obj.get Obj.getD
  split
  · rw [hnone]
    rfl
  · rw [List.lookup_append, hnone]
    rfl

theorem doneData_skipped (live : Bool) (word : String) (reason : Option String) :
    (doneData key live (.skip word reason)).get "skipped" = .str word := by
  unfold doneData
  dsimp only
  rw [List.append_assoc, List.append_assoc]
  rfl

/-- The node a close names is the one the request was for, where its row lands. -/
def Answers (env : LedgerEnv) (key : BuildRequest) (log : List Event) (id : Int) : Prop :=
  ∃ n, (replayLog env.toEnv log).run.st.nodes.get id = some n ∧ (0 ≤ id ∧ id ≤ CARD_REPLAY_NODE_ID_MAX) ∧
    n.idea.cardId = some key.cardId ∧ n.speculative = true ∧ n.cardBuildGeneration = some key.generation

def Sound (env : LedgerEnv) (key : BuildRequest) (log : List Event) : Closing → Prop
  | .node id => Answers env key log id
  | .skip word _ => word = "producer_failed" ∨ word = "stale"

def Closing.outcome : Closing → String
  | .node _ => "committed"
  | .skip word _ => word

theorem statedOutcome_done (live : Bool) {closing : Closing} (h : Sound env key log closing) :
    statedOutcome (doneRow env key log p live closing) = closing.outcome := by
  unfold statedOutcome
  rw [doneRow_get live closing "skipped" (by decide)]
  cases closing with
  | node id => rfl
  | skip word reason =>
    rw [doneData_skipped]
    rcases h with rfl | rfl <;> rfl

theorem buildEnd_done (live : Bool) {closing : Closing} (h : Sound env key log closing) :
    ∃ ending, buildEnd (replayLog env.toEnv log).run.st key (doneRow env key log p live closing) = some ending := by
  unfold buildEnd
  rw [doneRow_get live closing "skipped" (by decide)]
  cases closing with
  | node id =>
    obtain ⟨n, hget, hbound, hcard, hspec, hgen⟩ := h
    refine ⟨.committed n, ?_⟩
    unfold committedNode
    rw [doneRow_get live _ "skipped" (by decide), doneRow_get live _ "speculative" (by decide),
      doneRow_get live _ "node_id" (by decide)]
    have hid : cardReplayNodeId (.int id) = some id := by
      unfold cardReplayNodeId
      simp [Json.coerceInt, hbound.1, hbound.2]
    have hdata : (doneData key live (.node id)).get "skipped" = .null ∧
        (doneData key live (.node id)).get "speculative" = .bool true ∧
        (doneData key live (.node id)).get "node_id" = .int id := ⟨rfl, rfl, rfl⟩
    rw [hdata.1, hdata.2.1, hdata.2.2, hid]
    simp [Json.isNull, Json.isTrue, Json.str?, hget, hcard, hspec, hgen]
  | skip word reason =>
    rw [doneData_skipped]
    rcases h with rfl | rfl
    · exact ⟨_, rfl⟩
    · exact ⟨_, rfl⟩

structure ClosesAt (env : LedgerEnv) (log log' : List Event) (p : Nat) (outcome : String) : Prop where
  requests : (queueOf env log').requests = (queueOf env log).requests
  attempts : (queueOf env log').attempts = (queueOf env log).attempts
  closed : ∀ q, (queueOf env log').window.IsClosed q ↔ (queueOf env log).window.IsClosed q ∨ q = p
  closes : closes env.toEnv log' = closes env.toEnv log ++ [(p, outcome)]

theorem closesAt_row {e : Event} (hrow : e.row = some .cardBuildDone) (hget : (queueOf env log).requests[p]? = some key)
    (hnamed : namedPosition (queueOf env log).window e.data = some p) (hsame : sameRequest env.toEnv key e.data = true)
    {ending : BuildEnd} (hend : buildEnd (replayLog env.toEnv log).run.st key e.data = some ending) :
    ClosesAt env log (log ++ [e]) p (statedOutcome e.data) := by
  rw [queueOf_eq] at hget hnamed
  have hholds := queueHolds_replayLog env.toEnv log
  have hreq : closedRequest env.toEnv (replayLog env.toEnv log).builds e.data = some (p, key) := by
    unfold closedRequest
    rw [hnamed]
    simp only [Option.bind_eq_bind, Option.bind_some, hget, hsame, if_true]
  have hstep : (logStep env.toEnv (replayLog env.toEnv log) e).builds =
      onCardBuildDone env.toEnv (replayLog env.toEnv log).run.st (replayLog env.toEnv log).builds e := by
    rw [logStep_row hrow]
    rfl
  obtain ⟨hrequests, hattempts, hwindow⟩ :
      (logStep env.toEnv (replayLog env.toEnv log) e).builds.requests = (replayLog env.toEnv log).builds.requests ∧
      (logStep env.toEnv (replayLog env.toEnv log) e).builds.attempts = (replayLog env.toEnv log).builds.attempts ∧
      (logStep env.toEnv (replayLog env.toEnv log) e).builds.window =
        (replayLog env.toEnv log).builds.window.close p (statedOutcome e.data) := by
    rw [hstep, ← buildEnd_outcome hend]
    unfold onCardBuildDone
    rw [hreq]
    dsimp only
    rw [hend]
    cases ending with
    | skipped word =>
      dsimp only
      split <;> exact ⟨rfl, rfl, rfl⟩
    | committed n => exact ⟨rfl, rfl, rfl⟩
  constructor
  · rw [queueOf_snoc, queueOf_eq]
    exact hrequests
  · rw [queueOf_snoc, queueOf_eq]
    exact hattempts
  · intro q
    rw [queueOf_snoc, hwindow, queueOf_eq]
    exact (closed_by_done hholds hreq).2.2 q
  · rw [closes_snoc, newlyClosed_done hholds hreq hwindow]
    rfl

theorem doneRow_named (live : Bool) (closing : Closing) (hopen : ¬ (queueOf env log).window.IsClosed p) :
    namedPosition (queueOf env log).window (doneRow env key log p live closing) = some p := by
  unfold namedPosition
  rw [doneRow_index]
  by_cases hp : p = (queueOf env log).window.done
  · rw [if_pos hp, ← hp]
  · rw [if_neg hp]
    have hguard : ¬ ((p : Int) < (queueOf env log).window.done ∨
        ∃ q ∈ (queueOf env log).window.ahead, ((q : Nat) : Int) = p) := by
      rintro (hlt | ⟨q, hq, heq⟩)
      · exact hopen (.inl (by omega))
      · exact hopen (.inr ((by omega : q = p) ▸ hq))
    dsimp only
    rw [if_neg (by simpa using hguard), Int.toNat_natCast]

theorem doneRow_same (live : Bool) (closing : Closing) (hkey : Canonical env.toEnv key) :
    sameRequest env.toEnv key (doneRow env key log p live closing) = true := by
  unfold sameRequest
  obtain ⟨rest, hdata, -⟩ := doneData_key live closing
  rw [doneRow_get live closing "card_id" (by decide), doneRow_get live closing "generation" (by decide),
    hdata, keyData_card, keyData_generation, hkey.1]
  simp [Json.int?]

theorem closesAt_done (live : Bool) {closing : Closing} (hkey : Canonical env.toEnv key)
    (hopen : IsOpen (queueOf env log) p key) (h : Sound env key log closing) :
    ClosesAt env log (log ++ [queueRow ts log "card_build_done" (doneRow env key log p live closing)]) p
      closing.outcome := by
  obtain ⟨ending, hend⟩ := buildEnd_done (p := p) live h
  rw [← statedOutcome_done (p := p) live h]
  exact closesAt_row (RowType.ofName_name .cardBuildDone) hopen.1 (doneRow_named live closing hopen.2)
    (doneRow_same live closing hkey) hend

end Rows

/-! ## A close and its race -/

/-- Other rows land while each of the tries of a close plans. -/
def Raced (moves : List (List Event)) : Prop :=
  casAttempts ≤ moves.length ∧ ∀ rows ∈ moves.take casAttempts, rows ≠ []

/-- The rows that land ahead of a close that is not raced. -/
def landedRows (moves : List (List Event)) : List Event := (moves.takeWhile fun rows => !rows.isEmpty).flatten

section Race
variable {env : LedgerEnv} {key : BuildRequest} {p : Nat} {moves : List (List Event)}

theorem foreign_flatten {lost : List (List Event)} (h : ∀ rows ∈ lost, foreign rows = true) :
    foreign lost.flatten = true := by
  unfold foreign at h ⊢
  rw [List.all_flatten, List.all_eq_true]
  exact h

theorem takeWhile_lost {lost rest : List (List Event)} (hlost : ∀ rows ∈ lost, rows ≠ [])
    (hquiet : Journal.Quiet rest) : (lost ++ rest).takeWhile (fun rows => !rows.isEmpty) = lost := by
  rw [List.takeWhile_append_of_pos (by simpa using hlost)]
  cases rest with
  | nil => simp
  | cons rows rest => simp [hquiet rows rest rfl]

theorem append_cases (closing : Closing) (ts : Rat) {s : BuildService}
    (hpos : requestPosition env key s.log = some p) (hmoves : moves.all foreign = true) :
    ∃ rows, foreign rows = true ∧
      ((Raced moves ∧ appendCardBuildDone env key closing ts moves s = (false, { s with log := s.log ++ rows })) ∨
        (¬ Raced moves ∧ rows = landedRows moves ∧
          appendCardBuildDone env key closing ts moves s = (true, { s with
            log := s.log ++ rows ++ [queueRow ts (s.log ++ rows) "card_build_done"
              (doneRow env key (s.log ++ rows) p (closing.skips && (s.shop.inflight.get key).isSome) closing)]
            shop := if closing.skips && (s.shop.inflight.get key).isSome then cancelBuildProducer key s.shop
              else s.shop }))) := by
  generalize hlive : (closing.skips && (s.shop.inflight.get key).isSome) = live
  have hforeign := List.all_eq_true.mp hmoves
  obtain ⟨lost, rest, hsplit, hlost, hends⟩ :=
    Journal.retry_cases (closePlan env key ts (doneData key live closing)) casAttempts moves s.log
  have hrows : foreign lost.flatten = true :=
    foreign_flatten fun rows h => hforeign rows (hsplit ▸ List.mem_append_left rest h)
  have hplan : closePlan env key ts (doneData key live closing) (s.log ++ lost.flatten) = .adds
      (queueRow ts (s.log ++ lost.flatten) "card_build_done"
        (doneRow env key (s.log ++ lost.flatten) p live closing)) true := by
    have hsame := @sameQueue_foreign env _ s.log hrows
    unfold closePlan
    rw [requestPosition_same hsame, hpos]
    rfl
  have hne : ∀ rows ∈ lost, rows ≠ [] := by
    intro rows hmem
    obtain ⟨a, b, rfl⟩ := List.append_of_mem hmem
    exact (hlost.at).1
  refine ⟨lost.flatten, hrows, ?_⟩
  rcases hends with hlength | ⟨hlt, ⟨a, hplan'⟩ | ⟨-, hquiet⟩⟩
  · left
    constructor
    · constructor
      · rw [hsplit, List.length_append]
        omega
      · rw [hsplit, ← hlength, List.take_left]
        exact hne
    · unfold appendCardBuildDone
      dsimp only
      rw [hlive, hsplit, Journal.retry_spent (j := ⟨s.log, []⟩) hlost hlength]
      rfl
  · rw [hplan] at hplan'
    cases hplan'
  · right
    have htake := takeWhile_lost hne hquiet
    refine ⟨?_, ?_, ?_⟩
    · rintro ⟨hlen, hall⟩
      rw [hsplit, List.length_append] at hlen
      rw [hsplit, List.take_append] at hall
      obtain ⟨rows, rest, rfl⟩ := List.exists_cons_of_length_pos (by omega : 0 < rest.length)
      have hempty := hquiet rows rest rfl
      subst hempty
      obtain ⟨n, hn⟩ := Nat.exists_eq_add_of_lt hlt
      refine hall [] (List.mem_append_right _ ?_) rfl
      rw [hn, show lost.length + n + 1 - lost.length = n + 1 by omega, List.take_succ_cons]
      exact List.mem_cons_self
    · unfold landedRows
      rw [hsplit, htake]
    · unfold appendCardBuildDone
      dsimp only
      rw [hlive, hsplit, Journal.retry_adds (j := ⟨s.log, []⟩) hlost hlt hplan hquiet]
      simp

end Race

end LoopLab.Engine.Speculation
