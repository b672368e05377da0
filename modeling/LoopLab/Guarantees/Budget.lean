import LoopLab.Lifecycles.Renewals
import LoopLab.Guarantees.FailureCount

/-!
# The evaluation budget

The seconds charged are the sum of the buckets and never fall.
-/

set_option autoImplicit false

namespace LoopLab
open Lib Board

/-- The two states have charged the same, in total and in every bucket. -/
structure SameBudget (st st' : RunState) : Prop where
  total : st'.totalEvalSeconds = st.totalEvalSeconds
  byKind : ∀ kind, st'.evalSecondsByKind.get kind = st.evalSecondsByKind.get kind

/-- The row appended again: its type and payload, wherever it lands in the log. -/
structure CopyOf (e f : Event) : Prop where
  type : f.type = e.type
  data : f.data = e.data

/-- The rows that carry a cost; an ablation counts when it has an id of its own. -/
def CarriesCost (e : Event) : Prop :=
  e.kind = some .nodeEvaluated ∨ e.kind = some .nodeFailed ∨ e.kind = some .confirmEval ∨
    e.kind = some .evalNoiseSeed ∨ e.kind = some .holdoutEvaluated ∨
    (e.kind = some .ablate ∧ (ablationId e.data).isSome) ∨ e.kind = some .upstreamExecution

/-- An upstream execution that reports more than no seconds. -/
def ChargesUpstream (e : Event) : Prop :=
  e.kind = some .upstreamExecution ∧ ∃ secs, upstreamSeconds e.data = some secs ∧ 0 < secs

theorem SameBudget.refl (st : RunState) : SameBudget st st := ⟨rfl, fun _ => rfl⟩

theorem SameBudget.of_eq {st st' : RunState} (h : st' = st) : SameBudget st st' := h ▸ .refl st

theorem CopyOf.kind {e f : Event} (h : CopyOf e f) : f.kind = e.kind := by
  unfold Event.kind
  rw [h.type]

/-! ## Rows with a key -/

def confirmGeneration (n : Node) (d : Obj) : Option Nat :=
  match eventGeneration d true with
  | .missing => some n.attempt
  | .invalid => none
  | .at g => some g

def ConfirmCharged (c : FoldCore) (d : Obj) : Prop :=
  ∀ n seed g, c.st.nodeForEvent d = some n → foreignAttemptAlias n d = false →
    seedOf d = some seed → confirmGeneration n d = some g → confirmChargeable c.st n g = true →
    (n.id, g, seed) ∈ c.ctx.chargedConfirmSeeds

def NoiseCharged (c : FoldCore) (d : Obj) : Prop :=
  ∀ nid seed, coerceNodeId d = some nid → seedOf d = some seed →
    (nid, noiseGeneration (c.st.nodes.get nid) d, seed) ∈ c.ctx.chargedNoiseSeeds

def HoldoutCharged (c : FoldCore) (d : Obj) : Prop :=
  ∀ nid, coerceNodeId d = some nid → d.has "eval_seconds" = true →
    (nid, (d.get "generation").coerceInt, (d.get "search_epoch").coerceInt) ∈
      c.ctx.chargedHoldoutKeys

def AblationCharged (c : FoldCore) (d : Obj) : Prop :=
  ∀ pid g id, coerceNodeId d "parent_id" = some pid →
    ablationGeneration (c.st.nodes.get pid) d = some g → ablationId d = some id →
    id ∈ c.ctx.chargedAblationIds

theorem chargeConfirm_eq (c : FoldCore) (n : Node) (seed : Int) (d : Obj) :
    chargeConfirm c n seed d = match confirmGeneration n d with
      | none => c
      | some g =>
        if !confirmChargeable c.st n g || c.ctx.chargedConfirmSeeds.contains (n.id, g, seed) then c
        else
          { st := chargeEvalSeconds c.st .confirm (d.get "eval_seconds")
            ctx := { c.ctx with
              chargedConfirmSeeds := (n.id, g, seed) :: c.ctx.chargedConfirmSeeds } } := by
  unfold chargeConfirm confirmGeneration
  cases eventGeneration d true <;> rfl

theorem charged_chargeConfirm {c : FoldCore} {n : Node} {seed : Int} {d : Obj} {g : Nat}
    (hg : confirmGeneration n d = some g) (hc : confirmChargeable c.st n g = true) :
    (n.id, g, seed) ∈ (chargeConfirm c n seed d).ctx.chargedConfirmSeeds := by
  rw [chargeConfirm_eq, hg]
  simp only [hc, Bool.not_true, Bool.false_or]
  split
  · rename_i hin
    simpa using hin
  · exact List.mem_cons_self

theorem chargeConfirm_keeps (c : FoldCore) (n : Node) (seed : Int) (d : Obj) :
    (chargeConfirm c n seed d).st.nodes = c.st.nodes ∧
      (chargeConfirm c n seed d).st.abortedNodes = c.st.abortedNodes := by
  rw [chargeConfirm_eq]
  split
  · exact ⟨rfl, rfl⟩
  · split <;> exact ⟨rfl, rfl⟩

theorem confirmEval_memo {c : FoldCore} {e : Event} {n : Node} {seed : Int}
    (hn : c.st.nodeForEvent e.data = some n) (halias : foreignAttemptAlias n e.data = false)
    (hseed : seedOf e.data = some seed) :
    ∃ memo, onConfirmEval c e = { chargeConfirm c n seed e.data with
      st := { (chargeConfirm c n seed e.data).st with confirmSeedResults := memo } } := by
  unfold onConfirmEval
  dsimp only
  rw [hn]
  simp only [halias, hseed, Bool.false_eq_true, if_false]
  split
  · exact ⟨_, rfl⟩
  · split
    · exact ⟨_, rfl⟩
    · split <;> exact ⟨_, rfl⟩

theorem confirmEval_keeps (c : FoldCore) (e : Event) :
    (onConfirmEval c e).st.nodes = c.st.nodes ∧
      (onConfirmEval c e).st.abortedNodes = c.st.abortedNodes := by
  unfold onConfirmEval
  dsimp only
  split
  · exact ⟨rfl, rfl⟩
  · rename_i n _
    split
    · exact ⟨rfl, rfl⟩
    · split
      · exact ⟨rfl, rfl⟩
      · rename_i seed _
        have hkeeps := chargeConfirm_keeps c n seed e.data
        split
        · exact hkeeps
        · split
          · exact hkeeps
          · split <;> exact hkeeps

theorem sameBudget_confirmEval {c : FoldCore} {e : Event} (h : ConfirmCharged c e.data) :
    SameBudget c.st (onConfirmEval c e).st := by
  unfold onConfirmEval
  dsimp only
  split
  · exact .refl _
  · rename_i n hn
    split
    · exact .refl _
    · rename_i halias
      split
      · exact .refl _
      · rename_i seed hseed
        have hcharge : chargeConfirm c n seed e.data = c := by
          rw [chargeConfirm_eq]
          split
          · rfl
          · rename_i g hg
            rw [if_pos]
            cases hc : confirmChargeable c.st n g with
            | false => rfl
            | true => simpa using h n seed g hn (Bool.eq_false_iff.mpr halias) hseed hg hc
        rw [hcharge]
        split
        · exact .refl _
        · split
          · exact .refl _
          · split
            · exact .refl _
            · exact ⟨rfl, fun _ => rfl⟩

theorem confirmCharged_confirmEval (c : FoldCore) (e : Event) :
    ConfirmCharged (onConfirmEval c e) e.data := by
  intro n seed g hn halias hseed hg hc
  obtain ⟨hnodes, hab⟩ := confirmEval_keeps c e
  rw [nodeForEvent_congr hnodes] at hn
  obtain ⟨memo, hmemo⟩ := confirmEval_memo hn halias hseed
  rw [hmemo]
  refine charged_chargeConfirm hg ?_
  unfold confirmChargeable at hc ⊢
  rwa [aborted_congr hab] at hc

theorem sameBudget_evalNoiseSeed {c : FoldCore} {e : Event} (h : NoiseCharged c e.data) :
    SameBudget c.st (onEvalNoiseSeed c e).st := by
  unfold onEvalNoiseSeed
  dsimp only
  split
  · rename_i nid seed hnid hseed
    rw [if_pos (by simpa using h nid seed hnid hseed)]
    split
    · exact .refl _
    · split
      · exact .refl _
      · exact ⟨rfl, fun _ => rfl⟩
  · exact .refl _

theorem noiseCharged_evalNoiseSeed (c : FoldCore) (e : Event) :
    NoiseCharged (onEvalNoiseSeed c e) e.data := by
  intro nid seed hnid hseed
  unfold onEvalNoiseSeed
  dsimp only
  rw [hnid, hseed]
  dsimp only
  by_cases hin : c.ctx.chargedNoiseSeeds.contains
      (nid, noiseGeneration (c.st.nodes.get nid) e.data, seed) = true
  · rw [if_pos hin]
    cases hget : c.st.nodes.get nid with
    | none => simpa [hget] using hin
    | some n =>
      dsimp only
      split <;> simpa [hget] using hin
  · rw [if_neg hin]
    cases hget : c.st.nodes.get nid with
    | none => simp [chargeEvalSeconds, hget]
    | some n =>
      dsimp only
      split <;> simp [chargeEvalSeconds, hget]

theorem sameBudget_holdoutEvaluated {env : Env} {c : FoldCore} {e : Event}
    (h : HoldoutCharged c e.data) : SameBudget c.st (onHoldoutEvaluated env c e).st := by
  unfold onHoldoutEvaluated
  dsimp only
  split
  · exact .refl _
  · rename_i nid hnid
    have hcharge : chargeHoldout c nid e.data = c := by
      unfold chargeHoldout
      dsimp only
      rw [if_pos]
      cases hhas : e.data.has "eval_seconds" with
      | false => rfl
      | true => simpa using h nid hnid hhas
    rw [hcharge]
    split
    · exact .refl _
    · split
      · exact .refl _
      · split
        · exact .refl _
        · split <;> exact ⟨rfl, fun _ => rfl⟩

theorem holdoutCharged_holdoutEvaluated (env : Env) (c : FoldCore) (e : Event) :
    HoldoutCharged (onHoldoutEvaluated env c e) e.data := by
  intro nid hnid hhas
  have hctx : (onHoldoutEvaluated env c e).ctx = (chargeHoldout c nid e.data).ctx := by
    unfold onHoldoutEvaluated
    dsimp only
    rw [hnid]
    dsimp only
    split
    · rfl
    · split
      · rfl
      · split
        · rfl
        · split <;> rfl
  rw [hctx]
  unfold chargeHoldout
  dsimp only
  rw [hhas]
  simp only [Bool.not_true, Bool.false_or]
  split
  · rename_i hin
    simpa using hin
  · exact List.mem_cons_self

theorem sameBudget_ablate {c : FoldCore} {e : Event} (hid : (ablationId e.data).isSome)
    (h : AblationCharged c e.data) : SameBudget c.st (onAblate c e).st := by
  unfold onAblate
  dsimp only
  split
  · exact .refl _
  · rename_i pid hpid
    split
    · exact .refl _
    · rename_i g hg
      split
      · rename_i hnone
        rw [hnone] at hid
        cases hid
      · rename_i id hsome
        rw [if_pos (by simpa using h pid g id hpid hg hsome)]
        exact ⟨rfl, fun _ => rfl⟩

theorem ablationCharged_ablate (c : FoldCore) (e : Event) :
    AblationCharged (onAblate c e) e.data := by
  intro pid g id hpid hg hid
  have hnodes : (onAblate c e).st.nodes = c.st.nodes := by
    unfold onAblate
    dsimp only
    split
    · rfl
    · split
      · rfl
      · split
        · rfl
        · split <;> rfl
  rw [hnodes] at hg
  unfold onAblate
  dsimp only
  rw [hpid]
  dsimp only
  rw [hg, hid]
  dsimp only
  split
  · rename_i hin
    simpa using hin
  · exact List.mem_cons_self

/-! ## The row without a key -/

theorem sameBudget_upstream_iff (st : RunState) {e f : Event} (hf : f.data = e.data) :
    SameBudget (onUpstreamExecution st e) (onUpstreamExecution (onUpstreamExecution st e) f) ↔
      ¬ ∃ secs, upstreamSeconds e.data = some secs ∧ 0 < secs := by
  cases hsecs : upstreamSeconds e.data with
  | none =>
    have hnoop (st : RunState) (g : Event) (hg : g.data = e.data) :
        onUpstreamExecution st g = st := by
      unfold onUpstreamExecution
      rw [hg, hsecs]
    rw [hnoop st e rfl, hnoop st f hf]
    exact ⟨fun _ => by simp, fun _ => .refl _⟩
  | some secs =>
    have hcharge (st : RunState) (g : Event) (hg : g.data = e.data) :
        (onUpstreamExecution st g).totalEvalSeconds = st.totalEvalSeconds + secs ∧
          (onUpstreamExecution st g).evalSecondsByKind = st.evalSecondsByKind.set .upstream
            ((st.evalSecondsByKind.get .upstream).getD 0 + secs) := by
      unfold onUpstreamExecution
      rw [hg, hsecs]
      exact ⟨rfl, rfl⟩
    have hnonneg : 0 ≤ secs := upstreamSeconds_nonneg hsecs
    obtain ⟨htotal, hkind⟩ := hcharge (onUpstreamExecution st e) f hf
    constructor
    · rintro ⟨hsame, -⟩ ⟨q, hq, hpos⟩
      cases hq
      rw [htotal, add_eq_left] at hsame
      exact hpos.ne' hsame
    · intro hno
      have hzero : secs = 0 := by
        by_contra hne
        exact hno ⟨secs, rfl, lt_of_le_of_ne hnonneg (Ne.symm hne)⟩
      refine ⟨by rw [htotal, hzero, add_zero], fun kind => ?_⟩
      rw [hkind, Dict.get_set]
      split
      · rename_i hk
        rw [hk, (hcharge st e rfl).2, Dict.get_set, if_pos rfl, hzero]
        simp
      · rfl

/-! ## The budget -/

theorem step_of_kind {env : Env} {s : FoldState} {e : Event} {t : EventType} (h : e.kind = some t) :
    step env s e = handle clampedPred env s e t := by
  unfold step stepWith
  rw [h]

theorem sameBudget_copy_iff (env : Env) (s : FoldState) {e f : Event} (he : CarriesCost e)
    (hf : CopyOf e f) :
    SameBudget (step env s e).st (step env (step env s e) f).st ↔ ¬ ChargesUpstream e := by
  have keyed {t : EventType} (hk : e.kind = some t) (ht : t ≠ .upstreamExecution)
      (hsame : SameBudget (handle clampedPred env s e t).st
        (handle clampedPred env (handle clampedPred env s e t) f t).st) :
      SameBudget (step env s e).st (step env (step env s e) f).st ↔ ¬ ChargesUpstream e := by
    rw [step_of_kind hk, step_of_kind (hf.kind.trans hk)]
    refine ⟨fun _ hup => ?_, fun _ => hsame⟩
    exact ht (Option.some.inj (hk.symm.trans hup.1))
  rcases he with hk | hk | hk | hk | hk | ⟨hk, hid⟩ | hk
  · refine keyed hk nofun (.of_eq (congrArg FoldCore.st (onNodeEvaluated_closed ?_)))
    rw [hf.data]
    exact closed_onNodeEvaluated env s e
  · refine keyed hk nofun (.of_eq (congrArg FoldCore.st ?_))
    show (onNodeFailed env (onNodeFailed env s e) f).toFoldCore = (onNodeFailed env s e).toFoldCore
    rw [core_onNodeFailed, core_onNodeFailed]
    refine settleFailed_closed ?_
    rw [hf.data]
    exact closed_settleFailed env s.toFoldCore e
  · refine keyed hk nofun (sameBudget_confirmEval ?_)
    rw [hf.data]
    exact confirmCharged_confirmEval s.toFoldCore e
  · refine keyed hk nofun (sameBudget_evalNoiseSeed ?_)
    rw [hf.data]
    exact noiseCharged_evalNoiseSeed s.toFoldCore e
  · refine keyed hk nofun (sameBudget_holdoutEvaluated ?_)
    rw [hf.data]
    exact holdoutCharged_holdoutEvaluated env s.toFoldCore e
  · refine keyed hk nofun (sameBudget_ablate (hf.data ▸ hid) ?_)
    rw [hf.data]
    exact ablationCharged_ablate s.toFoldCore e
  · rw [step_of_kind hk, step_of_kind (hf.kind.trans hk)]
    refine (sameBudget_upstream_iff s.st hf.data).trans (not_congr ?_)
    exact ⟨fun h => ⟨hk, h⟩, fun h => h.2⟩

theorem total_fold (env : Env) (log : List Event) :
    (fold env log).totalEvalSeconds = (replay env log).st.totalEvalSeconds ∧
      (fold env log).evalSecondsByKind = (replay env log).st.evalSecondsByKind := by
  unfold fold applyTrustGate blockFlagged
  split <;> exact ⟨rfl, rfl⟩

theorem total_mono (env : Env) (log tail : List Event) :
    (replay env log).st.totalEvalSeconds ≤ (replay env (log ++ tail)).st.totalEvalSeconds := by
  induction tail using List.reverseRecOn with
  | nil => rw [List.append_nil]
  | append_singleton tail e ih =>
    rw [← List.append_assoc, replay_snoc]
    have hmoves := stepWith_moves clampedPred env (replay env (log ++ tail)) e
    have hle : (boardOf (replay env (log ++ tail)).toFoldCore).total ≤
        (boardOf (step env (replay env (log ++ tail)) e).toFoldCore).total := Evolves.total_le hmoves
    exact ih.trans hle

/-- The seconds charged are the sum of the buckets and never fall along a log; a cost row that comes
again at once charges nothing exactly when it is not an upstream execution of some length. -/
theorem eval_budget_exact (env : Env) (log : List Event) :
    (fold env log).totalEvalSeconds = (fold env log).evalSecondsByKind.sum ∧
    (∀ tail, (fold env log).totalEvalSeconds ≤ (fold env (log ++ tail)).totalEvalSeconds) ∧
    ∀ e f, CarriesCost e → CopyOf e f →
      (SameBudget (fold env (log ++ [e])) (fold env (log ++ [e, f])) ↔ ¬ ChargesUpstream e) := by
  refine ⟨?_, fun tail => ?_, fun e f he hf => ?_⟩
  · rw [(total_fold env log).1, (total_fold env log).2]
    exact replay_board (P := Balanced) env rfl (fun h => Evolves.balanced h) log
  · rw [(total_fold env log).1, (total_fold env (log ++ tail)).1]
    exact total_mono env log tail
  · have hcons : log ++ [e, f] = (log ++ [e]) ++ [f] := by simp
    have hsame := sameBudget_copy_iff env (replay env log) he hf
    rw [← replay_snoc, ← replay_snoc, ← hcons] at hsame
    refine Iff.trans ⟨fun h => ?_, fun h => ?_⟩ hsame
    · refine ⟨?_, fun kind => ?_⟩
      · rw [← (total_fold env _).1, ← (total_fold env _).1, h.total]
      · rw [← (total_fold env _).2, ← (total_fold env _).2, h.byKind]
    · refine ⟨?_, fun kind => ?_⟩
      · rw [(total_fold env _).1, (total_fold env _).1, h.total]
      · rw [(total_fold env _).2, (total_fold env _).2, h.byKind]

/-- An upstream execution of five seconds. -/
def upstreamRow (seq : Int) : Event where
  seq := seq
  type := "upstream_execution"
  data := [("execution", .obj [("seconds", .int 5)])]

/-- The same upstream execution recorded twice is charged twice. -/
theorem upstream_charged_twice :
    CarriesCost (upstreamRow 0) ∧ CopyOf (upstreamRow 0) (upstreamRow 1) ∧
      (fold .plain [upstreamRow 0]).totalEvalSeconds = 5 ∧
      (fold .plain [upstreamRow 0, upstreamRow 1]).totalEvalSeconds = 10 ∧
      ¬ SameBudget (fold .plain [upstreamRow 0]) (fold .plain [upstreamRow 0, upstreamRow 1]) := by
  have hone : (fold .plain [upstreamRow 0]).totalEvalSeconds = 5 := by decide +kernel
  have htwo : (fold .plain [upstreamRow 0, upstreamRow 1]).totalEvalSeconds = 10 := by
    decide +kernel
  refine ⟨by unfold CarriesCost; decide, ⟨rfl, rfl⟩, hone, htwo, fun h => ?_⟩
  have := h.total
  rw [hone, htwo] at this
  exact absurd this (by decide +kernel)

end LoopLab
