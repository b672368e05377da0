import LoopLab.Guarantees.Replanning
import Mathlib.Data.List.Nodup

/-!
# Stalls and the final reserve

An episode is followed from the call that starts it: where it began, how many nodes the stall gives it and how many
the operator has added.
-/

set_option autoImplicit false

namespace LoopLab.Engine

/-! ## Runs -/

section Runs
variable (fl : PlanFloats)

/-- The row after a call. -/
def advance (p : PlanRow) (a : PlanAsk) : PlanRow := (replan fl p a).getD p

/-- A row the two functions can produce. -/
inductive Produced : PlanRow → Prop
  | built {c : PlanCut} {reason : PlanReason} {start : Option Int} {p : PlanRow} :
      buildPlan fl c reason start = some p → Produced p
  | replanned {p r : PlanRow} {a : PlanAsk} : Produced p → replan fl p a = some r → Produced r

/-- The champion whose episode the row bounds. -/
def heldChampion (p : PlanRow) : Option Int := p.endgameEnd.bind fun _ => p.champion

/-- The champion a call starts an episode for. -/
def startedChampion (p : PlanRow) (a : PlanAsk) : Option Int :=
  (replan fl p a).bind fun r => if p.endgameEnd = none then heldChampion r else none

/-- The champions a run of calls starts episodes for, in order. -/
def startedChampions : PlanRow → List PlanAsk → List Int
  | _, [] => []
  | p, a :: asks => (startedChampion fl p a).toList ++ startedChampions (advance fl p a) asks

/-- An episode as the calls have made it. -/
structure StallEpisode where
  began : Int
  stallNodes : Int
  added : Int
  champion : Option Int

def StallEpisode.stop (ep : StallEpisode) : Int := ep.began + ep.stallNodes + ep.added

/-- A row with the episode under way. -/
structure Watch where
  row : PlanRow
  episode : Option StallEpisode := none

/-- What a call does to the episode under way. -/
def watchStep (w : Watch) (a : PlanAsk) : Watch :=
  match replan fl w.row a with
  | none => w
  | some r =>
    { row := r
      episode :=
        match r.endgameEnd, w.row.endgameEnd with
        | none, _ => none
        | some _, none => some
          { began := if w.row.reason = .stagnation then w.row.endgameStart else a.atNode
            stallNodes := a.stallNodes
            added := 0
            champion := a.champion }
        | some _, some _ => w.episode.map fun ep =>
          { ep with added := ep.added + max 0 (injectedBatch w.row a) } }

/-- The episode under way is the one the row bounds. -/
def Watch.Follows (w : Watch) : Prop :=
  match w.episode with
  | none => w.row.endgameEnd = none
  | some ep => w.row.endgameEnd = some ep.stop ∧ w.row.champion = ep.champion

end Runs

section Stalls
variable {fl : PlanFloats}

theorem stallChampions_of_eq {r : PlanRow} {spent : List Int} (h : r.stallChampions = spent) (c : Int) :
    c ∈ stallChampions r ↔ c ∈ spent := by
  unfold stallChampions
  rw [List.mem_eraseDups, h]

theorem mem_withSpent_champions {row : Option PlanRow} {spent : List Int} {r : PlanRow} {c : Int}
    (h : withSpent row spent = some r) (hc : c ∈ spent) : c ∈ stallChampions r := by
  obtain ⟨q, -, ⟨-, hnil⟩ | rfl⟩ := mem_withSpent h
  · rw [hnil] at hc
    cases hc
  · exact (stallChampions_of_eq rfl c).mpr hc

theorem mem_reopened_champions {p r : PlanRow} {cut : PlanCut} {spent : List Int} {cause : ReopenCause}
    {c : Int} (h : reopenedPlan fl p cut spent cause = some r) (hc : c ∈ spent) : c ∈ stallChampions r :=
  mem_withSpent_champions h hc

theorem mem_injected_champions {p r : PlanRow} {cut : PlanCut} {spent : List Int} {c : Int}
    (h : injectedRecut fl p cut spent = some r) (hc : c ∈ spent) : c ∈ stallChampions r := by
  unfold injectedRecut at h
  dsimp only at h
  split at h
  · cases h
  · split at h
    · cases h
    · split at h
      · cases h
      · exact mem_withSpent_champions h hc

theorem mem_episode_champions {cut : PlanCut} {start stop : Int} {champion : Option Int}
    {spent : List Int} {reason : PlanReason} {r : PlanRow} {c : Int}
    (h : episodeRow fl cut start stop champion spent reason = some r) :
    c ∈ stallChampions r ↔ c ∈ spent := by
  obtain ⟨-, -, hspent, -⟩ := episodeRow_some h
  exact stallChampions_of_eq hspent c

/-! ## One episode for a champion -/

theorem spent_kept {p r : PlanRow} {a : PlanAsk} {c : Int} (hpos : 0 < a.stallNodes)
    (h : replan fl p a = some r) (hc : c ∈ stallChampions p) : c ∈ stallChampions r := by
  rcases replan_cases h with ⟨stop, -, h⟩ | ⟨-, ⟨hzero, -⟩ | ⟨-, -, h⟩ | ⟨-, -, h⟩⟩
  · rcases replanEpisode_cases h with ⟨_, h⟩ | ⟨-, -, h⟩ | ⟨-, -, -, -, h⟩
    · exact mem_reopened_champions h hc
    · exact (mem_episode_champions h).mpr hc
    · exact (mem_episode_champions h).mpr hc
  · omega
  · rcases replanMigrated_cases h with ⟨_, _, h, hspent⟩ | ⟨champion, -, -, -, h⟩
    · exact mem_reopened_champions h (hspent c hc)
    · exact (mem_episode_champions h).mpr (List.mem_append_left _ hc)
  · rcases replanBounded_cases h with ⟨-, h⟩ | ⟨-, h⟩ | ⟨champion, -, -, -, -, h⟩
    · exact mem_withSpent_champions h hc
    · exact mem_injected_champions h hc
    · exact (mem_episode_champions h).mpr (List.mem_append_left _ hc)

theorem held_of_ordinary {a : PlanAsk} {r : PlanRow} (h : OrdinaryRow a r) : heldChampion r = none := by
  unfold heldChampion
  rw [h.unbounded]
  rfl

theorem held_episode {cut : PlanCut} {start stop : Int} {champion : Option Int}
    {spent : List Int} {reason : PlanReason} {r : PlanRow}
    (h : episodeRow fl cut start stop champion spent reason = some r) : heldChampion r = champion := by
  obtain ⟨hend, hheld, -⟩ := episodeRow_some h
  unfold heldChampion
  rw [hend]
  exact hheld

theorem started_spent {p : PlanRow} {a : PlanAsk} {c : Int} (hpos : 0 < a.stallNodes)
    (h : startedChampion fl p a = some c) :
    c ∉ stallChampions p ∧ c ∈ stallChampions (advance fl p a) := by
  obtain ⟨r, hr, h⟩ := Option.bind_eq_some_iff.mp h
  split at h
  · rename_i hnone
    unfold advance
    rw [hr, Option.getD_some]
    rcases replan_cases hr with ⟨stop, hstop, -⟩ | ⟨-, ⟨hzero, -⟩ | ⟨-, -, hr⟩ | ⟨-, -, hr⟩⟩
    · rw [hnone] at hstop
      cases hstop
    · omega
    · rcases replanMigrated_cases hr with ⟨_, _, hr, -⟩ | ⟨champion, -, hunspent, -, hr⟩
      · rw [held_of_ordinary (ordinary_reopened hr)] at h
        cases h
      · rw [held_episode hr] at h
        cases h
        exact ⟨hunspent, (mem_episode_champions hr).mpr (by simp)⟩
    · rcases replanBounded_cases hr with ⟨-, hr⟩ | ⟨-, hr⟩ | ⟨champion, -, hunspent, -, -, hr⟩
      · rw [held_of_ordinary (OrdinaryRow.withSpent (fun q hq => ordinary_budget hq) hr)] at h
        cases h
      · rw [held_of_ordinary (ordinary_injected hr)] at h
        cases h
      · rw [held_episode hr] at h
        cases h
        exact ⟨hunspent, (mem_episode_champions hr).mpr (by simp)⟩
  · cases h

theorem spent_advance {p : PlanRow} {a : PlanAsk} {c : Int} (hpos : 0 < a.stallNodes)
    (hc : c ∈ stallChampions p) : c ∈ stallChampions (advance fl p a) := by
  unfold advance
  cases hr : replan fl p a with
  | none => exact hc
  | some r => exact spent_kept hpos hr hc

theorem started_unspent {asks : List PlanAsk} {p : PlanRow} (hpos : ∀ a ∈ asks, 0 < a.stallNodes) :
    ∀ c ∈ startedChampions fl p asks, c ∉ stallChampions p := by
  induction asks generalizing p with
  | nil =>
    intro c hc
    cases hc
  | cons a asks ih =>
    have ha := hpos a List.mem_cons_self
    intro c hc
    rcases List.mem_append.mp hc with hc | hc
    · exact (started_spent ha (Option.mem_toList.mp hc)).1
    · intro hspent
      exact ih (fun b hb => hpos b (List.mem_cons_of_mem a hb)) c hc (spent_advance ha hspent)

theorem started_nodup {asks : List PlanAsk} {p : PlanRow} (hpos : ∀ a ∈ asks, 0 < a.stallNodes) :
    (startedChampions fl p asks).Nodup := by
  induction asks generalizing p with
  | nil => exact List.nodup_nil
  | cons a asks ih =>
    have ha := hpos a List.mem_cons_self
    have hrest : ∀ b ∈ asks, 0 < b.stallNodes := fun b hb => hpos b (List.mem_cons_of_mem a hb)
    apply List.nodup_append.mpr
    refine ⟨?_, ih hrest, ?_⟩
    · exact Option.toList_nodup _
    · rintro c hc _ hlater rfl
      exact started_unspent hrest c hlater (started_spent ha (Option.mem_toList.mp hc)).2

theorem held_spent {p : PlanRow} (h : Produced fl p) :
    ∀ stop, p.endgameEnd = some stop → ∃ c, p.champion = some c ∧ c ∈ stallChampions p := by
  induction h with
  | built h =>
    obtain ⟨hbuilt, -⟩ := buildPlan_some h
    intro stop hstop
    rw [hbuilt.unbounded] at hstop
    cases hstop
  | @replanned p r a _ hr ih =>
    have hordinary {stop : Int} (h : OrdinaryRow a r) (hstop : r.endgameEnd = some stop) :
        ∃ c, r.champion = some c ∧ c ∈ stallChampions r := by
      rw [h.unbounded] at hstop
      cases hstop
    have hcarried {cut : PlanCut} {start stop : Int} {reason : PlanReason} {before : Int}
        (hbefore : p.endgameEnd = some before)
        (h : episodeRow fl cut start stop p.champion (stallChampions p) reason = some r) :
        ∃ c, r.champion = some c ∧ c ∈ stallChampions r := by
      obtain ⟨c, hc, hspent⟩ := ih before hbefore
      obtain ⟨-, hheld, -⟩ := episodeRow_some h
      exact ⟨c, hheld.trans hc, (mem_episode_champions h).mpr hspent⟩
    have hstarted {cut : PlanCut} {start stop : Int} {reason : PlanReason} {champion : Int}
        (h : episodeRow fl cut start stop (some champion) (stallChampions p ++ [champion]) reason = some r) :
        ∃ c, r.champion = some c ∧ c ∈ stallChampions r := by
      obtain ⟨-, hheld, -⟩ := episodeRow_some h
      exact ⟨champion, hheld, (mem_episode_champions h).mpr (by simp)⟩
    intro stop hstop
    rcases replan_cases hr with ⟨before, hbefore, hr⟩ | ⟨-, ⟨-, hr⟩ | ⟨-, -, hr⟩ | ⟨-, -, hr⟩⟩
    · rcases replanEpisode_cases hr with ⟨_, hr⟩ | ⟨-, -, hr⟩ | ⟨-, -, -, -, hr⟩
      · exact hordinary (ordinary_reopened hr) hstop
      · exact hcarried hbefore hr
      · exact hcarried hbefore hr
    · rcases replanPermanent_cases hr with ⟨-, hr⟩ | ⟨-, -, hr⟩ | ⟨-, hr⟩
      · exact hordinary (ordinary_budget hr) hstop
      · obtain ⟨hbuilt, -⟩ := buildPlan_some hr
        rw [hbuilt.unbounded] at hstop
        cases hstop
      · exact hordinary (ordinary_injected hr) hstop
    · rcases replanMigrated_cases hr with ⟨_, _, hr, -⟩ | ⟨champion, -, -, -, hr⟩
      · exact hordinary (ordinary_reopened hr) hstop
      · exact hstarted hr
    · rcases replanBounded_cases hr with ⟨-, hr⟩ | ⟨-, hr⟩ | ⟨champion, -, -, -, -, hr⟩
      · exact hordinary (OrdinaryRow.withSpent (fun q hq => ordinary_budget hq) hr) hstop
      · exact hordinary (ordinary_injected hr) hstop
      · exact hstarted hr

theorem episodes_nodup {p : PlanRow} (h : Produced fl p) {asks : List PlanAsk}
    (hpos : ∀ a ∈ asks, 0 < a.stallNodes) :
    ((heldChampion p).toList ++ startedChampions fl p asks).Nodup := by
  apply List.nodup_append.mpr
  refine ⟨?_, started_nodup hpos, ?_⟩
  · exact Option.toList_nodup _
  · rintro c hc _ hlater rfl
    obtain ⟨stop, hstop, hchampion⟩ := Option.bind_eq_some_iff.mp (Option.mem_toList.mp hc)
    obtain ⟨d, hd, hspent⟩ := held_spent h stop hstop
    cases hchampion.symm.trans hd
    exact started_unspent hpos c hlater hspent

/-! ## The end of an episode -/

theorem follows_step {w : Watch} (h : w.Follows) (a : PlanAsk) : (watchStep fl w a).Follows := by
  obtain ⟨p, episode⟩ := w
  unfold watchStep
  dsimp only
  cases hr : replan fl p a with
  | none => exact h
  | some r =>
    dsimp only
    rcases replan_cases hr with ⟨stop, hstop, hr⟩ | ⟨hnone, hr⟩
    · cases episode with
      | none => cases hstop.symm.trans h
      | some ep =>
        obtain ⟨hep, hchampion⟩ := h
        cases hstop.symm.trans hep
        rcases replanEpisode_cases hr with ⟨_, hr⟩ | ⟨-, hpending, hr⟩ | ⟨-, hpending, hlive, -, hr⟩
        · have hopen := (ordinary_reopened hr).unbounded
          rw [hopen]
          exact hopen
        · obtain ⟨hend, hheld, -⟩ := episodeRow_some hr
          obtain ⟨hpos, -⟩ := hpending
          rw [hend, hstop]
          refine ⟨hend.trans ?_, hheld.trans hchampion⟩
          unfold StallEpisode.stop
          dsimp only
          congr 1
          omega
        · obtain ⟨hend, hheld, -⟩ := episodeRow_some hr
          have hbatch : injectedBatch p a ≤ 0 := by
            by_contra hpos
            exact hpending ⟨by omega, by omega⟩
          rw [hend, hstop]
          refine ⟨hend.trans ?_, hheld.trans hchampion⟩
          unfold StallEpisode.stop
          dsimp only
          congr 1
          omega
    · have hordinary (h : OrdinaryRow a r) : Watch.Follows { row := r, episode :=
          match r.endgameEnd, p.endgameEnd with
          | none, _ => none
          | some _, none => some
            { began := if p.reason = .stagnation then p.endgameStart else a.atNode
              stallNodes := a.stallNodes
              added := 0
              champion := a.champion }
          | some _, some _ => episode.map fun ep =>
            { ep with added := ep.added + max 0 (injectedBatch p a) } } := by
        rw [h.unbounded]
        exact h.unbounded
      rcases hr with ⟨-, hr⟩ | ⟨-, hstalled, hr⟩ | ⟨-, hstalled, hr⟩
      · rcases replanPermanent_cases hr with ⟨-, hr⟩ | ⟨-, -, hr⟩ | ⟨-, hr⟩
        · exact hordinary (ordinary_budget hr)
        · obtain ⟨hbuilt, -⟩ := buildPlan_some hr
          rw [hbuilt.unbounded]
          exact hbuilt.unbounded
        · exact hordinary (ordinary_injected hr)
      · rcases replanMigrated_cases hr with ⟨_, _, hr, -⟩ | ⟨champion, hchampion, -, -, hr⟩
        · exact hordinary (ordinary_reopened hr)
        · obtain ⟨hend, hheld, -⟩ := episodeRow_some hr
          rw [hend, hnone, if_pos hstalled]
          refine ⟨hend.trans ?_, hheld.trans hchampion.symm⟩
          unfold StallEpisode.stop
          rw [Int.add_zero]
      · rcases replanBounded_cases hr with ⟨-, hr⟩ | ⟨-, hr⟩ | ⟨champion, hchampion, -, -, -, hr⟩
        · exact hordinary (OrdinaryRow.withSpent (fun q hq => ordinary_budget hq) hr)
        · exact hordinary (ordinary_injected hr)
        · obtain ⟨hend, hheld, -⟩ := episodeRow_some hr
          rw [hend, hnone, if_neg hstalled]
          refine ⟨hend.trans ?_, hheld.trans hchampion.symm⟩
          unfold StallEpisode.stop
          rw [Int.add_zero]

/-- The episode is due to close. -/
def ClosingDue (p : PlanRow) (a : PlanAsk) (stop : Int) : Prop :=
  a.champion ≠ p.champion ∨ ¬ BatchPending p a stop ∧ stop ≤ a.atNode

theorem reopenedPlan_some (p : PlanRow) (a : PlanAsk) (spent : List Int) (cause : ReopenCause) :
    (∃ r, reopenedPlan fl p a.cut spent cause = some r) ↔ CutFits fl (ownFraction p a.cut) none := by
  unfold reopenedPlan withSpent
  simp only [Option.map_map, Option.map_eq_some_iff]
  constructor
  · rintro ⟨r, q, hq, -⟩
    exact (buildPlan_some hq).2.2
  · intro hfits
    obtain ⟨q, hq⟩ := buildPlan_fits .reopened hfits
    exact ⟨_, q, hq, rfl⟩

theorem reopened_closes {p : PlanRow} {stop : Int} (h : p.endgameEnd = some stop) (a : PlanAsk)
    (spent : List Int) (cause : ReopenCause) :
    ((reopenedPlan fl p a.cut spent cause).getD p).endgameEnd = none ↔
      CutFits fl (ownFraction p a.cut) none := by
  rw [← reopenedPlan_some p a spent cause]
  cases hr : reopenedPlan fl p a.cut spent cause with
  | none =>
    rw [Option.getD_none, h]
    simp
  | some r =>
    rw [Option.getD_some, (ordinary_reopened hr).unbounded]
    simp

theorem episodeRow_open {p : PlanRow} {stop : Int} (h : p.endgameEnd = some stop) (c : PlanCut)
    (start stop' : Int) (champion : Option Int) (spent : List Int) (reason : PlanReason) :
    ((episodeRow fl c start stop' champion spent reason).getD p).endgameEnd ≠ none := by
  cases hr : episodeRow fl c start stop' champion spent reason with
  | none =>
    rw [Option.getD_none, h]
    simp
  | some r =>
    obtain ⟨hend, -⟩ := episodeRow_some hr
    rw [Option.getD_some, hend]
    simp

theorem closes_iff {p : PlanRow} {a : PlanAsk} {stop : Int} (h : p.endgameEnd = some stop) :
    (advance fl p a).endgameEnd = none ↔
      ClosingDue p a stop ∧ CutFits fl (ownFraction p a.cut) none := by
  have hstep : advance fl p a = (replanEpisode fl p a stop).getD p := by
    unfold advance replan
    dsimp only
    rw [h]
  rw [hstep]
  unfold replanEpisode ClosingDue
  dsimp only
  split
  · rename_i hchampion
    rw [reopened_closes h, and_iff_right (.inl hchampion)]
  · rename_i hchampion
    split
    · rename_i hpending
      apply iff_of_false
      · exact episodeRow_open h _ _ _ _ _ _
      · rintro ⟨hdue | ⟨hdue, -⟩, -⟩
        · exact hchampion hdue
        · exact hdue hpending
    · rename_i hpending
      split
      · rename_i hspent
        rw [reopened_closes h, and_iff_right (.inr ⟨hpending, hspent⟩)]
      · rename_i hlive
        have hdue : ¬ ((a.champion ≠ p.champion ∨ ¬ BatchPending p a stop ∧ stop ≤ a.atNode) ∧
            CutFits fl (ownFraction p a.cut) none) := by
          rintro ⟨hdue | ⟨-, hdue⟩, -⟩
          · exact hchampion hdue
          · exact hlive hdue
        apply iff_of_false _ hdue
        split
        · exact episodeRow_open h _ _ _ _ _ _
        · rw [Option.getD_none, h]
          simp

/-! ## The final reserve -/

/-- The call leaves the budget, the seeds, the stall setting and the count of injected nodes. -/
structure SameTerms (c : PlanCut) (stallNodes : Int) (a : PlanAsk) : Prop where
  maxNodes : a.maxNodes = c.maxNodes
  nSeeds : a.nSeeds = c.nSeeds
  injected : a.injected = c.injected
  stall : a.stallNodes = stallNodes

structure OnTerms (c : PlanCut) (stallNodes : Int) (p : PlanRow) : Prop where
  maxNodes : p.maxNodes = c.maxNodes
  injected : recordedInjected p = max 0 c.injected
  within : p.endgameStart < c.maxNodes
  unstalled : p.endgameEnd = none → 0 < stallNodes → p.reason ≠ .stagnation
  seeds : p.endgameEnd ≠ none → p.phases.seed = max 0 c.nSeeds

theorem cutStart_lt (c : PlanCut) (s : Option Int) : cutStart fl c s < c.maxNodes := by
  unfold cutStart
  omega

theorem OnTerms.built {c cut : PlanCut} {stallNodes : Int} {p : PlanRow} {reason : PlanReason}
    {s : Option Int} (hmax : cut.maxNodes = c.maxNodes) (hinjected : max 0 cut.injected = max 0 c.injected)
    (hreason : 0 < stallNodes → reason ≠ .stagnation) (h : buildPlan fl cut reason s = some p) :
    OnTerms c stallNodes p := by
  obtain ⟨hbuilt, hstart, -⟩ := buildPlan_some h
  refine ⟨hbuilt.maxNodes.trans hmax, (recorded_built hbuilt).trans hinjected, ?_, ?_, ?_⟩
  · rw [hstart, ← hmax]
    exact cutStart_lt cut s
  · intro _ hpos
    rw [hbuilt.reason_eq]
    exact hreason hpos
  · intro hbounded
    exact absurd hbuilt.unbounded hbounded

section Terms
variable {c : PlanCut} {stallNodes : Int} {p r : PlanRow} {a : PlanAsk}

theorem SameTerms.cut_injected (h : SameTerms c stallNodes a) : a.cut.injected = max 0 c.injected := by
  unfold PlanAsk.cut
  rw [h.injected]

theorem batch_none (hp : OnTerms c stallNodes p) (ha : SameTerms c stallNodes a) (stop : Int) :
    ¬ BatchPending p a stop := by
  rintro ⟨hpos, -⟩
  unfold injectedBatch at hpos
  rw [ha.cut_injected, hp.injected] at hpos
  omega

theorem fresh_terms (hp : OnTerms c stallNodes p) (ha : SameTerms c stallNodes a) : Fresh a p where
  maxNodes := hp.maxNodes.trans ha.maxNodes.symm
  injected := hp.injected.trans ha.cut_injected.symm

theorem OnTerms.reopened (ha : SameTerms c stallNodes a) {spent : List Int} {cause : ReopenCause}
    (h : reopenedPlan fl p a.cut spent cause = some r) : OnTerms c stallNodes r := by
  obtain ⟨q, hq, hr⟩ := mem_withSpent h
  obtain ⟨b, hb, rfl⟩ := Option.map_eq_some_iff.mp hq
  have hinjected : max 0 (ownFraction p a.cut).injected = max 0 c.injected := by
    rw [ownFraction_injected, ha.cut_injected]
    omega
  have hbuilt : OnTerms c stallNodes b :=
    OnTerms.built ((ownFraction_maxNodes p a.cut).trans ha.maxNodes) hinjected (by simp) hb
  obtain ⟨hmax, hinjected, hwithin, hunstalled, hseeds⟩ := hbuilt
  rcases hr with ⟨rfl, -⟩ | rfl
  · exact ⟨hmax, hinjected, hwithin, hunstalled, hseeds⟩
  · exact ⟨hmax, hinjected, hwithin, hunstalled, hseeds⟩

theorem OnTerms.replan (hp : OnTerms c stallNodes p) (ha : SameTerms c stallNodes a)
    (h : replan fl p a = some r) : OnTerms c stallNodes r := by
  have hfresh := fresh_terms hp ha
  rcases replan_cases h with ⟨stop, hstop, h⟩ | ⟨hnone, ⟨hzero, h⟩ | ⟨hpos, hstalled, -⟩ | ⟨hpos, -, h⟩⟩
  · rcases replanEpisode_cases h with ⟨_, h⟩ | ⟨-, hpending, -⟩ | ⟨-, -, -, hne, -⟩
    · exact OnTerms.reopened ha h
    · exact absurd hpending (batch_none hp ha stop)
    · exact absurd hfresh.maxNodes.symm hne
  · rcases replanPermanent_cases h with ⟨hne, -⟩ | ⟨-, -, h⟩ | ⟨-, h⟩
    · exact absurd hfresh.maxNodes.symm hne
    · have hinjected : max 0 a.cut.injected = max 0 c.injected := by
        rw [ha.cut_injected]
        omega
      have hmax : a.cut.maxNodes = c.maxNodes := ha.maxNodes
      apply OnTerms.built hmax hinjected _ h
      intro hpos
      rw [← ha.stall] at hpos
      omega
    · rw [injectedRecut_fresh hfresh] at h
      cases h
  · rw [ha.stall] at hpos
    exact absurd hstalled (hp.unstalled hnone hpos)
  · rcases replanBounded_cases h with ⟨hne, -⟩ | ⟨-, h⟩ | ⟨champion, -, -, -, hstall, h⟩
    · exact absurd hfresh.maxNodes.symm hne
    · rw [injectedRecut_fresh hfresh] at h
      cases h
    · obtain ⟨hend, -, -, q, hq, hmax, hinjected, -, -, hstart, hseed⟩ := episodeRow_some h
      obtain ⟨hbuilt, hqstart, -⟩ := buildPlan_some hq
      have hcut : (ownFraction p a.cut).maxNodes = c.maxNodes :=
        (ownFraction_maxNodes p a.cut).trans ha.maxNodes
      have hseeds : (ownFraction p a.cut).nSeeds = c.nSeeds := by
        rw [ownFraction_nSeeds]
        exact ha.nSeeds
      obtain ⟨hfreshmax, hfreshinjected⟩ := fresh_own hbuilt
      refine ⟨?_, ?_, ?_, ?_, ?_⟩
      · rw [hmax, hfreshmax, ha.maxNodes]
      · unfold recordedInjected at hfreshinjected ⊢
        rw [hinjected, hfreshinjected, ha.cut_injected]
      · rw [hstart, hqstart, ← hcut]
        exact cutStart_lt _ _
      · intro hopen
        rw [hend] at hopen
        cases hopen
      · intro _
        rw [hseed, hbuilt.seed, hqstart, hseeds]
        have hwithin := hp.within
        have hseed := ha.nSeeds
        obtain ⟨-, hpast, hbefore⟩ := hstall
        unfold cutStart
        rw [Option.getD_some, hcut, hseeds]
        omega

/-- The final reserve is reached, and the dispatcher is in the endgame. -/
def Reserved (fl : PlanFloats) (p : PlanRow) (n : Int) : Prop :=
  finalReserveReached fl p n = some true ∧ inEndgame p n = true

theorem finalReserve_inEndgame {n : Int} (h : finalReserveReached fl p n = some true) :
    inEndgame p n = true := by
  unfold finalReserveReached at h
  split at h
  · exact Option.some.inj h
  · obtain ⟨final, -, hboth⟩ := Option.map_eq_some_iff.mp h
    exact (Bool.and_eq_true_iff.mp hboth).1

theorem reserved_unbounded {n m : Int} (hopen : p.endgameEnd = none) (hstart : p.endgameStart ≤ n)
    (h : n ≤ m) : Reserved fl p m := by
  have hin : inEndgame p m = true := by
    unfold inEndgame
    rw [hopen]
    simp only [Option.all_none, Bool.and_true, decide_eq_true_eq]
    omega
  refine ⟨?_, hin⟩
  unfold finalReserveReached
  rw [hopen]
  exact congrArg some hin

theorem reopened_start (hp : OnTerms c stallNodes p) (ha : SameTerms c stallNodes a)
    (hbounded : p.endgameEnd ≠ none) {final : Int} (hfinal : ordinaryStart fl p = some final) :
    CutFits fl (ownFraction p a.cut) none ∧ ∀ spent cause r,
      reopenedPlan fl p a.cut spent cause = some r → r.endgameStart = final := by
  obtain ⟨o, ho, rfl⟩ := Option.map_eq_some_iff.mp hfinal
  obtain ⟨-, hostart, hofits⟩ := buildPlan_some ho
  have hfrac : 0 < p.reserveFrac := hofits.2.1
  have hown : ownFraction p a.cut = { a.cut with reserveFrac := p.reserveFrac } := by
    unfold ownFraction
    rw [if_pos hfrac]
  have hmax : p.maxNodes = a.cut.maxNodes := hp.maxNodes.trans ha.maxNodes.symm
  have hseeds : max 0 p.phases.seed = max 0 a.cut.nSeeds := by
    have hcut : a.cut.nSeeds = c.nSeeds := ha.nSeeds
    rw [hp.seeds hbounded, hcut]
    omega
  have hinjected : recordedInjected p = a.cut.injected := hp.injected.trans ha.cut_injected.symm
  have hsame : cutStart fl (ownFraction p a.cut) none = o.endgameStart := by
    rw [hostart, hown]
    unfold cutStart
    dsimp only
    rw [hmax, hseeds, hinjected]
  constructor
  · unfold CutFits at hofits ⊢
    rw [hsame]
    rw [← hostart] at hofits
    dsimp only at hofits
    rw [hmax, hseeds] at hofits
    rw [hown]
    exact hofits
  · intro spent cause r hr
    obtain ⟨q, hq, hr⟩ := mem_withSpent hr
    obtain ⟨b, hb, rfl⟩ := Option.map_eq_some_iff.mp hq
    obtain ⟨-, hbstart, -⟩ := buildPlan_some hb
    rcases hr with ⟨rfl, -⟩ | rfl
    · exact hbstart.trans hsame
    · exact hbstart.trans hsame

theorem replan_reserved (hp : OnTerms c stallNodes p) (ha : SameTerms c stallNodes a)
    (hopen : p.endgameEnd = none) (hstart : p.endgameStart ≤ a.atNode) : replan fl p a = none := by
  have hfresh := fresh_terms hp ha
  have hstall : ¬ HardStall p a := by
    rintro ⟨-, -, hbefore⟩
    omega
  apply Option.eq_none_iff_forall_ne_some.mpr
  intro r hr
  rcases replan_cases hr with ⟨stop, hstop, -⟩ | ⟨-, ⟨-, hr⟩ | ⟨hpos, hstalled, -⟩ | ⟨-, -, hr⟩⟩
  · rw [hopen] at hstop
    cases hstop
  · rcases replanPermanent_cases hr with ⟨hne, -⟩ | ⟨-, hdue, -⟩ | ⟨-, hr⟩
    · exact hne hfresh.maxNodes.symm
    · exact hstall hdue
    · rw [injectedRecut_fresh hfresh] at hr
      cases hr
  · rw [ha.stall] at hpos
    exact hp.unstalled hopen hpos hstalled
  · rcases replanBounded_cases hr with ⟨hne, -⟩ | ⟨-, hr⟩ | ⟨_, -, -, -, hdue, -⟩
    · exact hne hfresh.maxNodes.symm
    · rw [injectedRecut_fresh hfresh] at hr
      cases hr
    · exact hstall hdue

/-- What a later call leaves of a final reserve reached by a count: the reserve at its own count, and
in a row it writes at every larger one. -/
structure ReserveKept (fl : PlanFloats) (p : PlanRow) (a : PlanAsk) (n : Int) : Prop where
  reached : finalReserveReached fl (advance fl p a) n = some true
  current : Reserved fl (advance fl p a) a.atNode
  later : ∀ r, replan fl p a = some r → ∀ m, n ≤ m → Reserved fl r m

theorem reserve_step (hp : OnTerms c stallNodes p) (ha : SameTerms c stallNodes a) {n : Int}
    (hreached : finalReserveReached fl p n = some true) (hn : n ≤ a.atNode) : ReserveKept fl p a n := by
  have hwithin := finalReserve_inEndgame hreached
  cases hopen : p.endgameEnd with
  | none =>
    have hstart : p.endgameStart ≤ n := by
      unfold inEndgame at hwithin
      rw [hopen] at hwithin
      simpa using hwithin
    have hrest : replan fl p a = none := replan_reserved hp ha hopen (by omega)
    have hsame : advance fl p a = p := by
      unfold advance
      rw [hrest]
      rfl
    refine ⟨?_, ?_, ?_⟩
    · rw [hsame]
      exact hreached
    · rw [hsame]
      exact reserved_unbounded hopen hstart hn
    · intro r hr
      rw [hrest] at hr
      cases hr
  | some stop =>
    have hbounded : p.endgameEnd ≠ none := by
      rw [hopen]
      simp
    obtain ⟨final, hfinal, hle⟩ : ∃ final, ordinaryStart fl p = some final ∧ final ≤ n := by
      unfold finalReserveReached at hreached
      rw [hopen] at hreached
      obtain ⟨final, hfinal, hboth⟩ := Option.map_eq_some_iff.mp hreached
      exact ⟨final, hfinal, of_decide_eq_true (Bool.and_eq_true_iff.mp hboth).2⟩
    obtain ⟨hfits, hstart⟩ := reopened_start hp ha hbounded hfinal
    have hlater (r : PlanRow) (hr : replan fl p a = some r) :
        r.endgameEnd = none ∧ r.endgameStart = final := by
      rcases replan_cases hr with ⟨stop', _, hr⟩ | ⟨hnone, -⟩
      · rcases replanEpisode_cases hr with ⟨_, hr⟩ | ⟨-, hpending, -⟩ | ⟨-, -, -, hne, -⟩
        · exact ⟨(ordinary_reopened hr).unbounded, hstart _ _ r hr⟩
        · exact absurd hpending (batch_none hp ha stop')
        · exact absurd (fresh_terms hp ha).maxNodes.symm hne
      · exact absurd hnone hbounded
    cases hr : replan fl p a with
    | some r =>
      obtain ⟨hropen, hrstart⟩ := hlater r hr
      have hadvance : advance fl p a = r := by
        unfold advance
        rw [hr]
        rfl
      have hkept (m : Int) (hm : n ≤ m) : Reserved fl r m := reserved_unbounded hropen (by omega) hm
      refine ⟨?_, ?_, ?_⟩
      · rw [hadvance]
        exact (hkept n (le_refl n)).1
      · rw [hadvance]
        exact hkept _ hn
      · rintro r' hr' m hm
        cases hr.symm.trans hr'
        exact hkept m hm
    | none =>
      have hadvance : advance fl p a = p := by
        unfold advance
        rw [hr]
        rfl
      have hlive : a.atNode < stop := by
        by_contra hspent
        have hclosed : (LoopLab.Engine.advance fl p a).endgameEnd = none :=
          (closes_iff hopen).mpr ⟨.inr ⟨batch_none hp ha stop, not_lt.mp hspent⟩, hfits⟩
        rw [hadvance] at hclosed
        exact hbounded hclosed
      have hin : inEndgame p a.atNode = true := by
        unfold inEndgame at hwithin ⊢
        rw [hopen] at hwithin ⊢
        simp only [Option.all_some, Bool.and_eq_true, decide_eq_true_eq] at hwithin ⊢
        omega
      refine ⟨?_, ⟨?_, ?_⟩, ?_⟩
      · rw [hadvance]
        exact hreached
      · rw [hadvance]
        unfold finalReserveReached
        rw [hopen]
        dsimp only
        rw [hfinal, Option.map_some, hin, Bool.true_and]
        exact congrArg some (decide_eq_true (by omega))
      · rw [hadvance]
        exact hin
      · intro r hr'
        rw [hr] at hr'
        cases hr'

theorem OnTerms.advance (hp : OnTerms c stallNodes p) (ha : SameTerms c stallNodes a) :
    OnTerms c stallNodes (advance fl p a) := by
  unfold LoopLab.Engine.advance
  cases hr : LoopLab.Engine.replan fl p a with
  | none => exact hp
  | some r => exact OnTerms.replan hp ha hr

theorem OnTerms.run {asks : List PlanAsk} (hp : OnTerms c stallNodes p)
    (h : ∀ a ∈ asks, SameTerms c stallNodes a) : OnTerms c stallNodes (asks.foldl (LoopLab.Engine.advance fl) p) := by
  induction asks generalizing p with
  | nil => exact hp
  | cons a asks ih =>
    apply ih (hp.advance (h a List.mem_cons_self))
    intro b hb
    exact h b (List.mem_cons_of_mem a hb)

theorem reserve_run {asks : List PlanAsk} {n : Int} (hp : OnTerms c stallNodes p)
    (h : ∀ a ∈ asks, SameTerms c stallNodes a) (hreached : finalReserveReached fl p n = some true)
    (hn : ∀ a ∈ asks, n ≤ a.atNode) :
    finalReserveReached fl (asks.foldl (LoopLab.Engine.advance fl) p) n = some true := by
  induction asks generalizing p with
  | nil => exact hreached
  | cons a asks ih =>
    have ha := h a List.mem_cons_self
    have hkept := reserve_step hp ha hreached (hn a List.mem_cons_self)
    apply ih (hp.advance ha) _ hkept.reached
    · intro b hb
      exact hn b (List.mem_cons_of_mem a hb)
    · intro b hb
      exact h b (List.mem_cons_of_mem a hb)

end Terms

end Stalls

/-- What cutting a plan again comes to, over all runs of calls. -/
structure PlanLaws (fl : PlanFloats) : Prop where
  settles : ∀ (p p₁ p₂ : PlanRow) (a : PlanAsk), Produced fl p → replan fl p a = some p₁ →
    replan fl p₁ a = some p₂ → replan fl p₂ a = none
  once : ∀ (p : PlanRow) (asks : List PlanAsk), Produced fl p → (∀ a ∈ asks, 0 < a.stallNodes) →
    ((heldChampion p).toList ++ startedChampions fl p asks).Nodup
  closes : ∀ (p : PlanRow) (asks : List PlanAsk) (a : PlanAsk) (w : Watch), Produced fl p →
    p.endgameEnd = none → asks.foldl (watchStep fl) { row := p } = w → w.Follows ∧
      ∀ ep, w.episode = some ep → ((watchStep fl w a).row.endgameEnd = none ↔
        ClosingDue w.row a ep.stop ∧ CutFits fl (ownFraction w.row a.cut) none)
  reserved : ∀ (c : PlanCut) (stallNodes : Int) (p : PlanRow) (earlier later : List PlanAsk)
    (a : PlanAsk) (n : Int), buildPlan fl c .initial none = some p →
      (∀ b ∈ earlier ++ later ++ [a], SameTerms c stallNodes b) →
      finalReserveReached fl (earlier.foldl (advance fl) p) n = some true →
      (∀ b ∈ later ++ [a], n ≤ b.atNode) →
      ReserveKept fl ((earlier ++ later).foldl (advance fl) p) a n

theorem follows_run {fl : PlanFloats} (asks : List PlanAsk) {w : Watch} (h : w.Follows) :
    (asks.foldl (watchStep fl) w).Follows := by
  induction asks generalizing w with
  | nil => exact h
  | cons a asks ih => exact ih (follows_step h a)

theorem watchStep_row {fl : PlanFloats} (w : Watch) (a : PlanAsk) :
    (watchStep fl w a).row = advance fl w.row a := by
  unfold watchStep advance
  split
  · rename_i hr
    rw [hr]
    rfl
  · rename_i r hr
    rw [hr]
    rfl

theorem plan_laws (fl : PlanFloats) : PlanLaws fl where
  settles _ _ _ _ _ h₁ h₂ := replan_rests h₁ h₂
  once _ _ hp hpos := episodes_nodup hp hpos
  closes := by
    rintro p asks a w - hopen rfl
    have hfollows : Watch.Follows (asks.foldl (watchStep fl) { row := p }) := follows_run asks hopen
    refine ⟨hfollows, ?_⟩
    intro ep hep
    unfold Watch.Follows at hfollows
    rw [hep] at hfollows
    rw [watchStep_row]
    exact closes_iff hfollows.1
  reserved := by
    intro c stallNodes p earlier later a n hp hterms hreached hn
    obtain ⟨hterms, ha⟩ := List.forall_mem_append.mp hterms
    obtain ⟨hearlier, hlater⟩ := List.forall_mem_append.mp hterms
    obtain ⟨hnlater, hna⟩ := List.forall_mem_append.mp hn
    have hfirst : OnTerms c stallNodes p := OnTerms.built rfl rfl (by simp) hp
    have hthen : OnTerms c stallNodes (earlier.foldl (advance fl) p) := OnTerms.run hfirst hearlier
    rw [List.foldl_append]
    exact reserve_step (OnTerms.run hthen hlater) (ha a (List.mem_singleton_self a))
      (reserve_run hthen hlater hreached hnlater) (hna a (List.mem_singleton_self a))

def smallCut : PlanCut := { maxNodes := 20, nSeeds := 2, reserveFrac := 1 / 5, atNode := 0 }

def stallAsk : PlanAsk :=
  { smallCut with atNode := 5, stallRung := 2, stallNodes := 3, champion := some 1 }

def tightAsk : PlanAsk :=
  { smallCut with maxNodes := 3, atNode := 7, stallNodes := 3, champion := some 6 }

/-- An episode outlives its champion where no ordinary cut fits. -/
theorem episode_outlives_champion :
    ¬ ∀ (p : PlanRow) (a : PlanAsk), Produced PlanFloats.exact p → p.endgameEnd ≠ none →
      0 < a.stallNodes → a.champion ≠ p.champion → (advance PlanFloats.exact p a).endgameEnd = none := by
  intro h
  have hrun : ((buildPlan PlanFloats.exact smallCut .initial none).bind fun p =>
      (replan PlanFloats.exact p stallAsk).map fun r =>
        (r.endgameEnd, r.champion, (advance PlanFloats.exact r tightAsk).endgameEnd)) =
      some (some 8, some 1, some 8) := by decide +kernel
  obtain ⟨p, hp, hrun⟩ := Option.bind_eq_some_iff.mp hrun
  obtain ⟨r, hr, hfacts⟩ := Option.map_eq_some_iff.mp hrun
  obtain ⟨hend, hrest⟩ := Prod.mk.inj hfacts
  obtain ⟨hchampion, hstill⟩ := Prod.mk.inj hrest
  have hclosed := h r tightAsk (.replanned (.built hp) hr) (by rw [hend]; decide) (by decide)
    (by rw [hchampion]; decide)
  rw [hclosed] at hstill
  cases hstill

end LoopLab.Engine
