import LoopLab.Selection.Cuts
import Mathlib.Tactic.Linarith
import Mathlib.Data.Rat.Cast.Order

/-!
# On a tie, the simpler node

The node that takes a tie is the leader or the best contender cut from it: still the cut it was, no worse than the
leader on one ruler, not called less sound, and beaten by nobody.
-/

set_option autoImplicit false

namespace LoopLab
open Lib

/-- Two scores a verifier may have given. -/
def bothUsable (a b : Option Rat) : Option (Rat × Rat) :=
  match a.filter fun q => decide (0 ≤ q ∧ q ≤ 1), b.filter fun q => decide (0 ≤ q ∧ q ≤ 1) with
  | some p, some q => some (p, q)
  | _, _ => none

/-- The scores two nodes are compared by: those on the current evidence, else those on the raw one,
and only the latter on the raw ruler. -/
def decidingScores (env : Env) (st : RunState) (ruler : Ruler) (leader n : Node) :
    Option (Rat × Rat) :=
  (if ruler = .raw then none else bothUsable leader.verifierScore n.verifierScore)
    <|> bothUsable (heldRawScore env st leader) (heldRawScore env st n)

/-- A node that may take the leader's tie, at its depth and with its value. -/
structure Contender (fl : Floats) (env : Env) (st : RunState) (leader : Node) (pool : List Node)
    (ruler : Ruler) (d : Nat) (v : Rat) (n : Node) : Prop where
  below : CutBelow st leader (d + 1) n
  mem : n ∈ pool
  value : (ruler.value n).finiteMetric = some v
  sameRuler : ruler.single = false → n.confirmedMean.isNone = leader.confirmedMean.isNone
  nonInferior : ∃ anchor, (ruler.value leader).finiteMetric = some anchor ∧
    let spread := comparedSpread ruler n leader
    oneSeNonInferior fl v anchor (stdIf spread n) (seedsIf spread n) st.direction
      (stdIf spread leader) (seedsIf spread leader) = true
  sound : st.selectVerifierTiebreak = true → ∀ p q,
    decidingScores env st ruler leader n = some (p, q) → p ≤ q
  unbeaten : ∀ other ∈ pool, other.id ≠ n.id → ∀ w, (ruler.value other).finiteMetric = some w →
    (ruler.single = false → other.confirmedMean.isNone = n.confirmedMean.isNone) →
    let spread := comparedSpread ruler other n
    oneSeBetter fl w v (stdIf spread other) (seedsIf spread other) st.direction
      (stdIf spread n) (seedsIf spread n) = false

section Facts
variable {fl : Floats} {env : Env} {st : RunState} {pool : List Node} {ruler : Ruler}
  {leader n : Node} {anchor v : Rat}

theorem verifierPrefers_eq : verifierPrefers env st leader n (ruler == .raw) =
    (st.selectVerifierTiebreak &&
      (decidingScores env st ruler leader n).any fun pq => decide (pq.2 < pq.1)) := by
  unfold verifierPrefers decidingScores bothUsable
  dsimp only
  generalize leader.verifierScore.filter (fun q => decide (0 ≤ q ∧ q ≤ 1)) = a
  generalize n.verifierScore.filter (fun q => decide (0 ≤ q ∧ q ≤ 1)) = b
  generalize (heldRawScore env st leader).filter (fun q => decide (0 ≤ q ∧ q ≤ 1)) = c
  generalize (heldRawScore env st n).filter (fun q => decide (0 ≤ q ∧ q ≤ 1)) = d
  cases st.selectVerifierTiebreak with
  | false => rfl
  | true => cases ruler <;> cases a <;> cases b <;> cases c <;> cases d <;> rfl

theorem verifierPrefers_eq_false_iff :
    verifierPrefers env st leader n (ruler == .raw) = false ↔
      (st.selectVerifierTiebreak = true → ∀ p q,
        decidingScores env st ruler leader n = some (p, q) → p ≤ q) := by
  rw [verifierPrefers_eq]
  cases st.selectVerifierTiebreak with
  | false => simp
  | true =>
    cases decidingScores env st ruler leader n with
    | none => simp
    | some pq =>
      obtain ⟨p, q⟩ := pq
      simp

theorem significantlyBeaten_eq_false_iff (hvalue : (ruler.value n).finiteMetric = some v) :
    significantlyBeaten fl st ruler n pool = false ↔
      ∀ other ∈ pool, other.id ≠ n.id → ∀ w, (ruler.value other).finiteMetric = some w →
        (ruler.single = false → other.confirmedMean.isNone = n.confirmedMean.isNone) →
        oneSeBetter fl w v (stdIf (comparedSpread ruler other n) other)
          (seedsIf (comparedSpread ruler other n) other) st.direction
          (stdIf (comparedSpread ruler other n) n) (seedsIf (comparedSpread ruler other n) n) = false := by
  unfold significantlyBeaten
  rw [List.any_eq_false]
  apply forall_congr'
  intro other
  apply forall_congr'
  intro _
  rw [hvalue]
  cases hother : (ruler.value other).finiteMetric with
  | none => simp
  | some w => cases ruler.single <;> simp

theorem find_row (hpool : ∀ m ∈ pool, m ∈ st.nodes.rows) (hn : n ∈ pool) :
    pool.find? (fun m => m.id = n.id) = some n := by
  cases hfind : pool.find? (fun m => m.id = n.id) with
  | none => exact absurd (decide_eq_true rfl) (List.find?_eq_none.mp hfind n hn)
  | some m =>
    have hid : m.id = n.id := by simpa using List.find?_some hfind
    rw [row_of_id (hpool m (List.mem_of_find?_eq_some hfind)) (hpool n hn) hid]

theorem simplerValue_eq_some_iff (hpool : ∀ m ∈ pool, m ∈ st.nodes.rows) (hn : n ∈ pool) :
    simplerValue fl env st ruler pool leader anchor n = some v ↔
      (ruler.value n).finiteMetric = some v ∧
      (ruler.single = false → n.confirmedMean.isNone = leader.confirmedMean.isNone) ∧
      oneSeNonInferior fl v anchor (stdIf (comparedSpread ruler n leader) n)
        (seedsIf (comparedSpread ruler n leader) n) st.direction
        (stdIf (comparedSpread ruler n leader) leader)
        (seedsIf (comparedSpread ruler n leader) leader) = true ∧
      verifierPrefers env st leader n (ruler == .raw) = false ∧
      significantlyBeaten fl st ruler n pool = false := by
  unfold simplerValue
  rw [find_row hpool hn]
  dsimp only [Option.bind_eq_bind, Option.bind_some]
  cases hvalue : (ruler.value n).finiteMetric with
  | none => simp
  | some w =>
    dsimp only [Option.bind_some]
    constructor
    · intro h
      split_ifs at h with hruler hrefused
      cases h
      simp only [Bool.or_eq_true, not_or, Bool.not_eq_true, Bool.not_eq_eq_eq_not, Bool.not_true] at hrefused
      refine ⟨rfl, ?_, by simpa using hrefused.1.1, hrefused.1.2, hrefused.2⟩
      intro hsingle
      simpa [hsingle] using hruler
    · rintro ⟨hw, hruler, hheld, hsound, hbeaten⟩
      cases hw
      rw [hheld, hsound, hbeaten]
      have hsame : (!ruler.single && n.confirmedMean.isNone != leader.confirmedMean.isNone) = false := by
        cases hsingle : ruler.single with
        | true => rfl
        | false =>
          rw [hruler hsingle]
          simp
      rw [hsame]
      rfl

theorem contender_iff (hpool : ∀ m ∈ pool, m ∈ st.nodes.rows) {d : Nat}
    (hanchor : (ruler.value leader).finiteMetric = some anchor) :
    Contender fl env st leader pool ruler d v n ↔ CutBelow st leader (d + 1) n ∧ n ∈ pool ∧
      simplerValue fl env st ruler pool leader anchor n = some v := by
  constructor
  · intro h
    obtain ⟨anchor', hanchor', hheld⟩ := h.nonInferior
    rw [hanchor] at hanchor'
    cases hanchor'
    refine ⟨h.below, h.mem, ?_⟩
    rw [simplerValue_eq_some_iff hpool h.mem, verifierPrefers_eq_false_iff,
      significantlyBeaten_eq_false_iff h.value]
    exact ⟨h.value, h.sameRuler, hheld, h.sound, h.unbeaten⟩
  · rintro ⟨hbelow, hmem, h⟩
    rw [simplerValue_eq_some_iff hpool hmem, verifierPrefers_eq_false_iff] at h
    obtain ⟨hvalue, hruler, hheld, hsound, hbeaten⟩ := h
    rw [significantlyBeaten_eq_false_iff hvalue] at hbeaten
    exact ⟨hbelow, hmem, hvalue, hruler, ⟨anchor, hanchor, hheld⟩, hsound, hbeaten⟩

/-! ## The walk and its choice -/

/-- The walk as it starts. -/
def firstWalk (leader : Node) : Walk := { frontier := [(leader, 0)], seen := [leader.id], chosen := leader, key := none }

theorem walked_firstWalk : Walked fl env st pool ruler leader anchor none (firstWalk leader) := by
  constructor
  · intro e he
    rw [List.mem_singleton.mp he]
    exact .leader
  · exact List.mem_singleton.mpr rfl
  · intro d n hn hid
    obtain ⟨rfl, rfl⟩ := hn.unique .leader (List.mem_singleton.mp hid)
    exact .inl (List.mem_singleton.mpr rfl)
  · refine ⟨rfl, ?_⟩
    rintro d v n ⟨hseen, hbelow, -⟩
    rcases hbelow.eq_leader_or_row with ⟨hzero, -⟩ | ⟨-, -, haway⟩
    · exact Nat.succ_ne_zero d hzero
    · exact haway (List.mem_singleton.mp hseen)

theorem work_firstWalk : (firstWalk leader).frontier.length + unseen st (firstWalk leader) ≤
    st.nodes.rows.length + 1 := by
  have hle : unseen st (firstWalk leader) ≤ st.nodes.rows.length := List.countP_le_length
  change 1 + unseen st (firstWalk leader) ≤ _
  omega

variable (fl env st pool ruler leader anchor) in
/-- The walk of the tie, with a round for every node. -/
def lastWalk : Walk :=
  walkCuts fl env st ruler pool leader anchor (st.nodes.rows.length + 1) (firstWalk leader)

theorem lastWalk_spec :
    Walked fl env st pool ruler leader anchor none (lastWalk fl env st pool ruler leader anchor) ∧
      (lastWalk fl env st pool ruler leader anchor).frontier = [] :=
  Walked.walk _ walked_firstWalk work_firstWalk

theorem all_seen {w : Walk} (hw : Walked fl env st pool ruler leader anchor none w)
    (hend : w.frontier = []) {d : Nat} (hn : CutBelow st leader d n) : n.id ∈ w.seen := by
  induction hn with
  | leader => exact hw.start
  | cut habove hmem _ hlink ih =>
    rcases hw.closed _ _ habove ih with hin | hbusy | hall
    · rw [hend] at hin
      cases hin
    · cases hbusy
    · exact hall _ hmem hlink

theorem lastWalk_chosen (hpool : ∀ m ∈ pool, m ∈ st.nodes.rows)
    (hanchor : (ruler.value leader).finiteMetric = some anchor) :
    ((lastWalk fl env st pool ruler leader anchor).chosen = leader ∧
      ∀ d v n, ¬ Contender fl env st leader pool ruler d v n) ∨
    ∃ d v, Contender fl env st leader pool ruler d v
        (lastWalk fl env st pool ruler leader anchor).chosen ∧
      ∀ d' v' n', Contender fl env st leader pool ruler d' v' n' →
        cutKey st d' v' n' ≤ cutKey st d v (lastWalk fl env st pool ruler leader anchor).chosen := by
  set w := lastWalk fl env st pool ruler leader anchor with hw
  have hspec : Walked fl env st pool ruler leader anchor none w ∧ w.frontier = [] := lastWalk_spec
  obtain ⟨hwalked, hend⟩ := hspec
  have heligible {d : Nat} {v : Rat} {n : Node} (h : Contender fl env st leader pool ruler d v n) :
      Eligible fl env st pool ruler leader anchor w.seen d v n := by
    obtain ⟨hbelow, -, hvalue⟩ := (contender_iff hpool hanchor).mp h
    exact ⟨all_seen hwalked hend hbelow, hbelow, hvalue⟩
  have hchosen := hwalked.chosen
  unfold Chosen at hchosen
  cases hkey : w.key with
  | none =>
    rw [hkey] at hchosen
    exact .inl ⟨hchosen.1, fun d v n h => hchosen.2 d v n (heligible h)⟩
  | some key =>
    rw [hkey] at hchosen
    obtain ⟨d, v, n, ⟨_, hbelow, hvalue⟩, rfl, hfind, hmax⟩ := hchosen
    have hmem : w.chosen ∈ pool := List.mem_of_find?_eq_some hfind
    have hid : w.chosen.id = n.id := by simpa using List.find?_some hfind
    have hrow : n ∈ st.nodes.rows := by
      rcases hbelow.eq_leader_or_row with ⟨hzero, -⟩ | ⟨-, hrow, -⟩
      · exact absurd hzero (Nat.succ_ne_zero d)
      · exact hrow
    have heq : w.chosen = n := row_of_id (hpool _ hmem) hrow hid
    rw [heq] at hmem ⊢
    refine .inr ⟨d, v, (contender_iff hpool hanchor).mpr ⟨hbelow, hmem, hvalue⟩, ?_⟩
    intro d' v' n' h'
    exact not_lt.mp (hmax d' v' n' (heligible h'))

variable (fl env leader ruler) in
theorem simplerTie_best (hpool : ∀ m ∈ pool, m ∈ st.nodes.rows) :
    (simplerTie fl env st leader pool ruler = leader ∧
      ∀ d v n, ¬ Contender fl env st leader pool ruler d v n) ∨
    ∃ d v, Contender fl env st leader pool ruler d v (simplerTie fl env st leader pool ruler) ∧
      ∀ d' v' n', Contender fl env st leader pool ruler d' v' n' →
        cutKey st d' v' n' ≤ cutKey st d v (simplerTie fl env st leader pool ruler) := by
  unfold simplerTie
  split
  · rename_i hplain
    refine .inl ⟨rfl, ?_⟩
    intro d v n h
    cases h.below with
    | cut _ hmem _ hlink =>
      obtain ⟨receipt, hreceipt, -⟩ := parent_of_stillCutOf hlink
      have hnone := List.all_eq_true.mp hplain n hmem
      rw [hreceipt] at hnone
      cases hnone
  · cases hanchor : (ruler.value leader).finiteMetric with
    | none =>
      refine .inl ⟨rfl, ?_⟩
      intro d v n h
      obtain ⟨anchor, hanchor', -⟩ := h.nonInferior
      rw [hanchor] at hanchor'
      cases hanchor'
    | some anchor => exact lastWalk_chosen hpool hanchor

theorem cutKey_le {d d' : Nat} {v' : Rat} {n' : Node} (h : cutKey st d' v' n' ≤ cutKey st d v n) :
    d' ≤ d ∧ (d' = d → st.fitness.vsign * v' ≤ st.fitness.vsign * v ∧
      (st.fitness.vsign * v' = st.fitness.vsign * v → n.id ≤ n'.id)) := by
  have hnot := not_lt.mpr h
  simp only [cutKey, List.cons_lt_cons_iff, not_or, not_and, not_lt] at hnot
  obtain ⟨hdepth, hrest⟩ := hnot
  refine ⟨?_, ?_⟩
  · have : (d' : Rat) ≤ d := by linarith
    exact_mod_cast this
  · intro heq
    obtain ⟨hvalue, hid⟩ := hrest (by rw [heq])
    refine ⟨hvalue, ?_⟩
    intro hsame
    have := (hid hsame.symm).1
    have hle : (n.id : Rat) ≤ n'.id := by linarith
    exact_mod_cast hle

/-! ## Any order -/

theorem CutBelow.reorder {t : Table Node.id} (ht : ∀ m ∈ st.nodes.rows, m ∈ t.rows) {d : Nat}
    (h : CutBelow st leader d n) : CutBelow { st with nodes := t } leader d n := by
  induction h with
  | leader => exact .leader
  | cut _ hmem haway hlink ih => exact .cut ih (ht _ hmem) haway hlink

theorem Contender.reorder {t : Table Node.id} {pool' : List Node}
    (ht : ∀ m ∈ st.nodes.rows, m ∈ t.rows) (hpool : ∀ m, m ∈ pool' ↔ m ∈ pool) {d : Nat}
    (h : Contender fl env st leader pool ruler d v n) :
    Contender fl env { st with nodes := t } leader pool' ruler d v n where
  below := h.below.reorder ht
  mem := (hpool n).mpr h.mem
  value := h.value
  sameRuler := h.sameRuler
  nonInferior := h.nonInferior
  sound := h.sound
  unbeaten other hother := h.unbeaten other ((hpool other).mp hother)

theorem best_unique (hpool : ∀ m ∈ pool, m ∈ st.nodes.rows) {d d' : Nat} {v v' : Rat} {n' : Node}
    (h : Contender fl env st leader pool ruler d v n)
    (h' : Contender fl env st leader pool ruler d' v' n')
    (hle : cutKey st d v n ≤ cutKey st d' v' n') (hge : cutKey st d' v' n' ≤ cutKey st d v n) :
    n = n' := by
  have hkey := le_antisymm hle hge
  simp only [cutKey, List.cons.injEq, neg_inj, Rat.intCast_inj] at hkey
  exact row_of_id (hpool n h.mem) (hpool n' h'.mem) hkey.2.2.1

theorem simplerTie_reorder (hpool : ∀ m ∈ pool, m ∈ st.nodes.rows) {t : Table Node.id}
    {pool' : List Node} (ht : t.rows.Perm st.nodes.rows) (hpool' : pool'.Perm pool) :
    simplerTie fl env { st with nodes := t } leader pool' ruler =
      simplerTie fl env st leader pool ruler := by
  have hmem (m : Node) : m ∈ pool' ↔ m ∈ pool := hpool'.mem_iff
  have hrows : ∀ m ∈ st.nodes.rows, m ∈ t.rows := fun m hm => ht.mem_iff.mpr hm
  have hthere {d : Nat} {v : Rat} {n : Node} (h : Contender fl env st leader pool ruler d v n) :
      Contender fl env { st with nodes := t } leader pool' ruler d v n := h.reorder hrows hmem
  have hback {d : Nat} {v : Rat} {n : Node}
      (h : Contender fl env { st with nodes := t } leader pool' ruler d v n) :
      Contender fl env st leader pool ruler d v n :=
    h.reorder (fun m hm => ht.mem_iff.mp hm) fun m => (hmem m).symm
  have hpoolrows : ∀ m ∈ pool', m ∈ ({ st with nodes := t } : RunState).nodes.rows :=
    fun m hm => hrows m (hpool m ((hmem m).mp hm))
  rcases simplerTie_best fl env ruler leader hpool with ⟨hsame, hnone⟩ | ⟨d, v, h, hbest⟩
  · rcases simplerTie_best fl env ruler leader hpoolrows with ⟨hsame', -⟩ | ⟨d', v', h', -⟩
    · rw [hsame, hsame']
    · exact absurd (hback h') (hnone d' v' _)
  · rcases simplerTie_best fl env ruler leader hpoolrows with ⟨-, hnone'⟩ | ⟨d', v', h', hbest'⟩
    · exact absurd (hthere h) (hnone' d v _)
    · exact best_unique hpool (hback h') h (hbest d' v' _ (hback h')) (hbest' d v _ (hthere h))

end Facts

/-- The node that takes the tie: the leader where there is no contender, else the deepest contender,
of these one with the best value, of these the one with the lowest id; in any order of the nodes and
of the pool, and after a walk that ends. -/
theorem simplerTie_sound (fl : Floats) (env : Env) (st : RunState) (leader : Node) (pool : List Node)
    (ruler : Ruler) (hpool : ∀ m ∈ pool, m ∈ st.nodes.rows) :
    ((simplerTie fl env st leader pool ruler = leader ∧
        ∀ d v n, ¬ Contender fl env st leader pool ruler d v n) ∨
      ∃ d v, Contender fl env st leader pool ruler d v (simplerTie fl env st leader pool ruler) ∧
        ∀ d' v' n, Contender fl env st leader pool ruler d' v' n →
          d' ≤ d ∧ (d' = d → st.fitness.vsign * v' ≤ st.fitness.vsign * v ∧
            (st.fitness.vsign * v' = st.fitness.vsign * v →
              (simplerTie fl env st leader pool ruler).id ≤ n.id))) ∧
    (∀ (t : Table Node.id) (pool' : List Node), t.rows.Perm st.nodes.rows → pool'.Perm pool →
      simplerTie fl env { st with nodes := t } leader pool' ruler =
        simplerTie fl env st leader pool ruler) ∧
    ∀ anchor, (lastWalk fl env st pool ruler leader anchor).frontier = [] := by
  refine ⟨?_, fun t pool' ht hpool' => simplerTie_reorder hpool ht hpool', fun anchor => lastWalk_spec.2⟩
  rcases simplerTie_best fl env ruler leader hpool with h | ⟨d, v, h, hbest⟩
  · exact .inl h
  · refine .inr ⟨d, v, h, ?_⟩
    intro d' v' n h'
    exact cutKey_le (hbest d' v' n h')

/-- A node of a run with its program and a verifier score. -/
def cutNode (id : Int) (code : String) (receipt : Option Simplification) (score : Rat) : Node :=
  { id := id, status := .evaluated, metric := .float 1, code := .str code, simplified := receipt
    verifierScore := some score }

def cutLeader : Node := cutNode 0 "a\n\nb\n" none (9 / 10)

/-- A leader and a cut of it that measured as well and was called less sound. -/
def cutRun : RunState where
  nodes := (Table.empty.put cutLeader).put
    (cutNode 1 "# [ablated] a\n\nb\n" (some ⟨0, 0, 0, "ablation"⟩) (1 / 10))

/-- The verifier is not heard in a run that breaks no ties by it. -/
theorem less_sound_taken :
    (simplerTie Floats.exact Env.plain cutRun cutLeader cutRun.nodes.rows .robust).id = 1 ∧
      (simplerTie Floats.exact Env.plain cutRun cutLeader cutRun.nodes.rows .robust).verifierScore =
        some (1 / 10) ∧
      cutLeader.verifierScore = some (9 / 10) := by decide +kernel

theorem simplerTie_sound_cutRun :
    ∃ d v, Contender Floats.exact Env.plain cutRun cutLeader cutRun.nodes.rows .robust d v
      (simplerTie Floats.exact Env.plain cutRun cutLeader cutRun.nodes.rows .robust) := by
  obtain ⟨h, -⟩ := simplerTie_sound Floats.exact Env.plain cutRun cutLeader cutRun.nodes.rows .robust
    fun m hm => hm
  have htaken : (simplerTie Floats.exact Env.plain cutRun cutLeader cutRun.nodes.rows .robust).id ≠
      cutLeader.id := by decide +kernel
  rcases h with ⟨hsame, -⟩ | ⟨d, v, h, -⟩
  · exact absurd (congrArg Node.id hsame) htaken
  · exact ⟨d, v, h⟩

end LoopLab
