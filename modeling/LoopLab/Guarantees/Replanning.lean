import LoopLab.Engine.Plan

/-!
# Cutting a plan again

A row comes to rest after two further cuts, a champion has one stall's episode, and what the final
reserve has taken no later row gives back.
-/

set_option autoImplicit false

namespace LoopLab.Engine

section Rows
variable {fl : PlanFloats}

/-! ## What the cuts build -/

structure BuiltFrom (fl : PlanFloats) (c : PlanCut) (reason : PlanReason) (r : PlanRow) : Prop where
  maxNodes : r.maxNodes = c.maxNodes
  injected : r.injected = max 0 c.injected
  reason_eq : r.reason = reason
  reserveFrac : r.reserveFrac = fl.round4 c.reserveFrac
  seed : r.phases.seed = min (max 0 c.nSeeds) r.endgameStart
  unbounded : r.endgameEnd = none
  unspent : r.stallChampions = []

/-- The start of a cut that fits. -/
def cutStart (fl : PlanFloats) (c : PlanCut) (endgameStart : Option Int) : Int :=
  max (min (max 0 c.nSeeds) (c.maxNodes - 1))
    (min (endgameStart.getD (c.maxNodes - max 1 (pyRound (fl.product
      (max 0 (c.maxNodes - max 0 c.injected)) (min c.reserveFrac maxReserveFrac))))) (c.maxNodes - 1))

/-- The budget holds the seeds and one reserved node besides. -/
def CutFits (fl : PlanFloats) (c : PlanCut) (endgameStart : Option Int) : Prop :=
  0 < c.maxNodes ∧ 0 < c.reserveFrac ∧
    (cutStart fl c endgameStart ≤ max 0 c.nSeeds → 2 ≤ c.maxNodes - max 0 c.nSeeds)

theorem buildPlan_some {c : PlanCut} {reason : PlanReason} {s : Option Int} {r : PlanRow}
    (h : buildPlan fl c reason s = some r) :
    BuiltFrom fl c reason r ∧ r.endgameStart = cutStart fl c s ∧ CutFits fl c s := by
  unfold buildPlan at h
  dsimp only at h
  split at h
  · cases h
  · rename_i hbudget
    split at h
    · cases h
    · rename_i hroom
      cases h
      refine ⟨⟨rfl, rfl, rfl, rfl, rfl, rfl, rfl⟩, rfl, ?_, ?_, ?_⟩
      · exact not_le.mp fun h => hbudget (.inl h)
      · exact not_le.mp fun h => hbudget (.inr h)
      · intro hstart
        by_contra hlt
        exact hroom ⟨hstart, not_le.mp hlt⟩

theorem buildPlan_fits {c : PlanCut} {s : Option Int} (reason : PlanReason) (h : CutFits fl c s) :
    ∃ r, buildPlan fl c reason s = some r := by
  obtain ⟨hbudget, hfrac, hroom⟩ := h
  unfold buildPlan
  dsimp only
  rw [if_neg (by rintro (h | h); exacts [not_le.mpr hbudget h, not_le.mpr hfrac h]), if_neg]
  · exact ⟨_, rfl⟩
  · rintro ⟨hstart, hlt⟩
    exact not_le.mpr hlt (hroom hstart)

theorem mem_withSpent {row : Option PlanRow} {spent : List Int} {r : PlanRow}
    (h : withSpent row spent = some r) : ∃ q, row = some q ∧
      (r = q ∧ spent = [] ∨ r = { q with stallChampions := spent }) := by
  obtain ⟨q, hq, heq⟩ := Option.map_eq_some_iff.mp h
  refine ⟨q, hq, ?_⟩
  split at heq
  · rename_i hnil
    exact .inl ⟨heq.symm, hnil⟩
  · exact .inr heq.symm

structure Fresh (a : PlanAsk) (r : PlanRow) : Prop where
  maxNodes : r.maxNodes = a.maxNodes
  injected : recordedInjected r = a.cut.injected

structure OrdinaryRow (a : PlanAsk) (r : PlanRow) : Prop extends Fresh a r where
  unbounded : r.endgameEnd = none
  unstalled : r.reason ≠ .stagnation

structure EpisodeRow (a : PlanAsk) (r : PlanRow) : Prop extends Fresh a r where
  bounded : ∃ stop, r.endgameEnd = some stop ∧ a.atNode < stop
  champion : r.champion = a.champion

structure PermanentRow (a : PlanAsk) (r : PlanRow) : Prop extends Fresh a r where
  permanent : a.stallNodes ≤ 0
  unbounded : r.endgameEnd = none
  stalled : r.reason = .stagnation
  begun : r.endgameStart ≤ a.atNode

theorem recorded_built {c : PlanCut} {reason : PlanReason} {r : PlanRow} (h : BuiltFrom fl c reason r) :
    recordedInjected r = max 0 c.injected := by
  unfold recordedInjected
  rw [h.injected]
  split <;> omega

theorem fresh_built {a : PlanAsk} {c : PlanCut} {reason : PlanReason} {r : PlanRow}
    (h : BuiltFrom fl c reason r) (hmax : c.maxNodes = a.maxNodes)
    (hinjected : c.injected = a.cut.injected) : Fresh a r where
  maxNodes := h.maxNodes.trans hmax
  injected := by
    rw [recorded_built h, hinjected]
    unfold PlanAsk.cut
    dsimp only
    omega

theorem ownFraction_maxNodes (p : PlanRow) (c : PlanCut) : (ownFraction p c).maxNodes = c.maxNodes := by
  unfold ownFraction
  split <;> rfl

theorem ownFraction_injected (p : PlanRow) (c : PlanCut) : (ownFraction p c).injected = c.injected := by
  unfold ownFraction
  split <;> rfl

theorem ownFraction_nSeeds (p : PlanRow) (c : PlanCut) : (ownFraction p c).nSeeds = c.nSeeds := by
  unfold ownFraction
  split <;> rfl

theorem fresh_own {a : PlanAsk} {p : PlanRow} {reason : PlanReason} {r : PlanRow}
    (h : BuiltFrom fl (ownFraction p a.cut) reason r) : Fresh a r :=
  fresh_built h (ownFraction_maxNodes p a.cut) (ownFraction_injected p a.cut)

theorem ordinary_built {a : PlanAsk} {reason : PlanReason} {r : PlanRow} {c : PlanCut}
    (h : BuiltFrom fl c reason r) (hfresh : Fresh a r) (hreason : reason ≠ .stagnation) :
    OrdinaryRow a r where
  toFresh := hfresh
  unbounded := h.unbounded
  unstalled := by rwa [h.reason_eq]

theorem OrdinaryRow.withSpent {a : PlanAsk} {row : Option PlanRow} {spent : List Int} {r : PlanRow}
    (hrow : ∀ q, row = some q → OrdinaryRow a q) (h : withSpent row spent = some r) : OrdinaryRow a r := by
  obtain ⟨q, hq, ⟨rfl, -⟩ | rfl⟩ := mem_withSpent h
  · exact hrow r hq
  · obtain ⟨⟨hmax, hinjected⟩, hunbounded, hunstalled⟩ := hrow q hq
    exact ⟨⟨hmax, hinjected⟩, hunbounded, hunstalled⟩

theorem ordinary_reopened {a : PlanAsk} {p : PlanRow} {spent : List Int} {cause : ReopenCause}
    {r : PlanRow} (h : reopenedPlan fl p a.cut spent cause = some r) : OrdinaryRow a r := by
  apply OrdinaryRow.withSpent _ h
  intro q hq
  obtain ⟨b, hb, rfl⟩ := Option.map_eq_some_iff.mp hq
  obtain ⟨hbuilt, -⟩ := buildPlan_some hb
  obtain ⟨⟨hmax, hinjected⟩, hunbounded, hunstalled⟩ :=
    ordinary_built hbuilt (fresh_own hbuilt) (by decide)
  exact ⟨⟨hmax, hinjected⟩, hunbounded, hunstalled⟩

theorem ordinary_injected {a : PlanAsk} {p : PlanRow} {spent : List Int} {r : PlanRow}
    (h : injectedRecut fl p a.cut spent = some r) : OrdinaryRow a r := by
  unfold injectedRecut at h
  dsimp only at h
  split at h
  · cases h
  · split at h
    · cases h
    · split at h
      · cases h
      · apply OrdinaryRow.withSpent _ h
        intro q hq
        obtain ⟨hb, -⟩ := Option.filter_eq_some_iff.mp hq
        obtain ⟨hbuilt, -⟩ := buildPlan_some hb
        exact ordinary_built hbuilt (fresh_own hbuilt) (by decide)

theorem ordinary_budget {a : PlanAsk} {r : PlanRow} (h : buildPlan fl a.cut .budgetChanged none = some r) :
    OrdinaryRow a r := by
  obtain ⟨hbuilt, -⟩ := buildPlan_some h
  exact ordinary_built hbuilt (fresh_built hbuilt rfl rfl) (by decide)

theorem episodeRow_some {c : PlanCut} {start stop : Int} {champion : Option Int} {spent : List Int}
    {reason : PlanReason} {r : PlanRow} (h : episodeRow fl c start stop champion spent reason = some r) :
    r.endgameEnd = some stop ∧ r.champion = champion ∧ r.stallChampions = spent ∧
      ∃ q, buildPlan fl c reason (some start) = some q ∧ r.maxNodes = q.maxNodes ∧
        r.injected = q.injected ∧ r.reason = q.reason ∧ r.reserveFrac = q.reserveFrac ∧
        r.endgameStart = q.endgameStart ∧ r.phases.seed = q.phases.seed := by
  obtain ⟨q, hq, rfl⟩ := Option.map_eq_some_iff.mp h
  exact ⟨rfl, rfl, rfl, q, hq, rfl, rfl, rfl, rfl, rfl, rfl⟩

theorem episode_own {a : PlanAsk} {p : PlanRow} {start stop : Int} {champion : Option Int}
    {spent : List Int} {reason : PlanReason} {r : PlanRow}
    (h : episodeRow fl (ownFraction p a.cut) start stop champion spent reason = some r)
    (hchampion : champion = a.champion) (hstop : a.atNode < stop) : EpisodeRow a r := by
  obtain ⟨hend, hheld, -, q, hq, hmax, hinjected, -⟩ := episodeRow_some h
  obtain ⟨hbuilt, -⟩ := buildPlan_some hq
  obtain ⟨hqmax, hqinjected⟩ := fresh_own hbuilt
  refine ⟨⟨hmax.trans hqmax, ?_⟩, ⟨stop, hend, hstop⟩, hheld.trans hchampion⟩
  unfold recordedInjected at hqinjected ⊢
  rwa [hinjected]

theorem permanent_stagnation {a : PlanAsk} {p r : PlanRow} (hpermanent : a.stallNodes ≤ 0)
    (hstall : HardStall p a) (h : buildPlan fl a.cut .stagnation (some a.atNode) = some r) :
    PermanentRow a r := by
  obtain ⟨hbuilt, hstart, -⟩ := buildPlan_some h
  obtain ⟨-, hseeds, -⟩ := hstall
  refine ⟨fresh_built hbuilt rfl rfl, hpermanent, hbuilt.unbounded, hbuilt.reason_eq, ?_⟩
  rw [hstart]
  unfold cutStart PlanAsk.cut
  rw [Option.getD_some]
  dsimp only
  omega

/-! ## One call -/

theorem replanEpisode_cases {p r : PlanRow} {a : PlanAsk} {stop : Int}
    (h : replanEpisode fl p a stop = some r) :
    (∃ cause, reopenedPlan fl p a.cut (stallChampions p) cause = some r) ∨
      a.champion = p.champion ∧ BatchPending p a stop ∧
        episodeRow fl (ownFraction p a.cut) p.endgameStart (stop + injectedBatch p a) p.champion
          (stallChampions p) .injected = some r ∨
      a.champion = p.champion ∧ ¬ BatchPending p a stop ∧ a.atNode < stop ∧ a.maxNodes ≠ p.maxNodes ∧
        episodeRow fl (ownFraction p a.cut) p.endgameStart stop p.champion
          (stallChampions p) .budgetChanged = some r := by
  unfold replanEpisode at h
  dsimp only at h
  split at h
  · exact .inl ⟨_, h⟩
  · rename_i hsame
    rw [not_not] at hsame
    split at h
    · rename_i hpending
      exact .inr (.inl ⟨hsame, hpending, h⟩)
    · rename_i hpending
      split at h
      · exact .inl ⟨_, h⟩
      · rename_i hlive
        split at h
        · rename_i hbudget
          exact .inr (.inr ⟨hsame, hpending, not_le.mp hlive, hbudget, h⟩)
        · cases h

theorem replanMigrated_cases {p r : PlanRow} {a : PlanAsk} {stallNodes : Int}
    (h : replanMigrated fl p a stallNodes = some r) :
    (∃ spent cause, reopenedPlan fl p a.cut spent cause = some r ∧
        ∀ c ∈ stallChampions p, c ∈ spent) ∨
      ∃ champion, a.champion = some champion ∧ champion ∉ stallChampions p ∧
        a.atNode < p.endgameStart + stallNodes ∧
        episodeRow fl (ownFraction p a.cut) p.endgameStart (p.endgameStart + stallNodes)
          (some champion) (stallChampions p ++ [champion]) .stagnation = some r := by
  unfold replanMigrated at h
  dsimp only at h
  split at h
  · exact .inl ⟨_, _, h, fun _ hc => hc⟩
  · rename_i champion hchampion
    split at h
    · exact .inl ⟨_, _, h, fun _ hc => hc⟩
    · split at h
      · exact .inl ⟨_, _, h, fun _ hc => hc⟩
      · split at h
        · exact .inl ⟨_, _, h, fun _ hc => hc⟩
        · rename_i hunspent
          split at h
          · exact .inl ⟨_, _, h, fun _ hc => List.mem_append_left _ hc⟩
          · rename_i hlive
            exact .inr ⟨champion, hchampion, hunspent, not_le.mp hlive, h⟩

theorem replanBounded_cases {p r : PlanRow} {a : PlanAsk} {stallNodes : Int}
    (h : replanBounded fl p a stallNodes = some r) :
    a.maxNodes ≠ p.maxNodes ∧
        withSpent (buildPlan fl a.cut .budgetChanged none) (stallChampions p) = some r ∨
      a.maxNodes = p.maxNodes ∧ injectedRecut fl p a.cut (stallChampions p) = some r ∨
      ∃ champion, a.champion = some champion ∧ champion ∉ stallChampions p ∧
        a.maxNodes = p.maxNodes ∧ HardStall p a ∧
        episodeRow fl (ownFraction p a.cut) a.atNode (a.atNode + stallNodes) (some champion)
          (stallChampions p ++ [champion]) .stagnation = some r := by
  unfold replanBounded at h
  dsimp only at h
  split at h
  · rename_i hbudget
    exact .inl ⟨hbudget, h⟩
  · rename_i hbudget
    rw [not_not] at hbudget
    split at h
    · rename_i champion hfilter
      obtain ⟨hchampion, hdue⟩ := Option.filter_eq_some_iff.mp hfilter
      obtain ⟨hstall, hunspent⟩ := of_decide_eq_true hdue
      exact .inr (.inr ⟨champion, hchampion, hunspent, hbudget, hstall, h⟩)
    · exact .inr (.inl ⟨hbudget, h⟩)

theorem replanPermanent_cases {p r : PlanRow} {a : PlanAsk} (h : replanPermanent fl p a = some r) :
    a.maxNodes ≠ p.maxNodes ∧ buildPlan fl a.cut .budgetChanged none = some r ∨
      a.maxNodes = p.maxNodes ∧ HardStall p a ∧
        buildPlan fl a.cut .stagnation (some a.atNode) = some r ∨
      a.maxNodes = p.maxNodes ∧ injectedRecut fl p a.cut [] = some r := by
  unfold replanPermanent at h
  split at h
  · rename_i hbudget
    exact .inl ⟨hbudget, h⟩
  · rename_i hbudget
    rw [not_not] at hbudget
    split at h
    · rename_i hstall
      exact .inr (.inl ⟨hbudget, hstall, h⟩)
    · exact .inr (.inr ⟨hbudget, h⟩)

theorem replan_cases {p r : PlanRow} {a : PlanAsk} (h : replan fl p a = some r) :
    (∃ stop, p.endgameEnd = some stop ∧ replanEpisode fl p a stop = some r) ∨
      p.endgameEnd = none ∧ (a.stallNodes ≤ 0 ∧ replanPermanent fl p a = some r ∨
        0 < a.stallNodes ∧ p.reason = .stagnation ∧ replanMigrated fl p a a.stallNodes = some r ∨
        0 < a.stallNodes ∧ p.reason ≠ .stagnation ∧ replanBounded fl p a a.stallNodes = some r) := by
  unfold replan at h
  dsimp only at h
  split at h
  · rename_i stop hstop
    exact .inl ⟨stop, hstop, h⟩
  · rename_i hnone
    refine .inr ⟨hnone, ?_⟩
    split at h
    · rename_i hzero
      exact .inl ⟨by omega, h⟩
    · rename_i hzero
      have hmax : max 0 a.stallNodes = a.stallNodes := by omega
      rw [hmax] at h
      split at h
      · rename_i hstalled
        exact .inr (.inl ⟨by omega, hstalled, h⟩)
      · rename_i hstalled
        exact .inr (.inr ⟨by omega, hstalled, h⟩)

def Begun (a : PlanAsk) (r : PlanRow) : Prop := EpisodeRow a r ∨ PermanentRow a r

theorem replan_row {p r : PlanRow} {a : PlanAsk} (h : replan fl p a = some r) :
    OrdinaryRow a r ∨ Begun a r := by
  rcases replan_cases h with ⟨stop, -, h⟩ | ⟨-, ⟨hzero, h⟩ | ⟨hpos, -, h⟩ | ⟨hpos, -, h⟩⟩
  · rcases replanEpisode_cases h with ⟨_, h⟩ | ⟨hsame, hpending, h⟩ | ⟨hsame, -, hlive, -, h⟩
    · exact .inl (ordinary_reopened h)
    · have hstop : a.atNode < stop + injectedBatch p a := by
        obtain ⟨-, hlt⟩ := hpending
        omega
      exact .inr (.inl (episode_own h hsame.symm hstop))
    · exact .inr (.inl (episode_own h hsame.symm hlive))
  · rcases replanPermanent_cases h with ⟨-, h⟩ | ⟨-, hstall, h⟩ | ⟨-, h⟩
    · exact .inl (ordinary_budget h)
    · exact .inr (.inr (permanent_stagnation hzero hstall h))
    · exact .inl (ordinary_injected h)
  · rcases replanMigrated_cases h with ⟨_, _, h, -⟩ | ⟨champion, hchampion, -, hlive, h⟩
    · exact .inl (ordinary_reopened h)
    · exact .inr (.inl (episode_own h hchampion.symm hlive))
  · rcases replanBounded_cases h with ⟨-, h⟩ | ⟨-, h⟩ | ⟨champion, hchampion, -, -, -, h⟩
    · exact .inl (OrdinaryRow.withSpent (fun q hq => ordinary_budget hq) h)
    · exact .inl (ordinary_injected h)
    · exact .inr (.inl (episode_own h hchampion.symm (by omega)))

/-! ## Coming to rest -/

theorem injectedRecut_fresh {a : PlanAsk} {r : PlanRow} (h : Fresh a r) (spent : List Int) :
    injectedRecut fl r a.cut spent = none := by
  unfold injectedRecut
  dsimp only
  rw [h.injected]
  simp

theorem replan_begun {a : PlanAsk} {r : PlanRow} (h : Begun a r) : replan fl r a = none := by
  rcases h with ⟨⟨hmax, hinjected⟩, ⟨stop, hstop, hlive⟩, hchampion⟩ |
    ⟨⟨hmax, hinjected⟩, hzero, hunbounded, hstalled, hbegun⟩
  · have hbatch : ¬ BatchPending r a stop := by
      rintro ⟨hpos, -⟩
      unfold injectedBatch at hpos
      rw [hinjected] at hpos
      omega
    unfold replan
    dsimp only
    rw [hstop]
    unfold replanEpisode
    dsimp only
    rw [if_neg (not_not.mpr hchampion.symm), if_neg hbatch, if_neg (not_le.mpr hlive),
      if_neg (not_not.mpr hmax.symm)]
  · have hstall : ¬ HardStall r a := by
      rintro ⟨-, -, hlt⟩
      omega
    unfold replan
    dsimp only
    rw [hunbounded]
    dsimp only
    rw [if_pos (by omega)]
    unfold replanPermanent injectedRecut
    rw [if_neg (not_not.mpr hmax.symm), if_neg hstall, if_pos hstalled]

theorem replan_ordinary {a : PlanAsk} {r r' : PlanRow} (h : OrdinaryRow a r)
    (hr : replan fl r a = some r') : Begun a r' := by
  obtain ⟨hfresh, hunbounded, hunstalled⟩ := h
  rcases replan_cases hr with ⟨stop, hstop, -⟩ | ⟨-, ⟨hzero, hr⟩ | ⟨-, hstalled, -⟩ | ⟨hpos, -, hr⟩⟩
  · rw [hunbounded] at hstop
    cases hstop
  · rcases replanPermanent_cases hr with ⟨hne, -⟩ | ⟨-, hstall, hr⟩ | ⟨-, hr⟩
    · exact absurd hfresh.maxNodes.symm hne
    · exact .inr (permanent_stagnation hzero hstall hr)
    · rw [injectedRecut_fresh hfresh] at hr
      cases hr
  · exact absurd hstalled hunstalled
  · rcases replanBounded_cases hr with ⟨hne, -⟩ | ⟨-, hr⟩ | ⟨champion, hchampion, -, -, -, hr⟩
    · exact absurd hfresh.maxNodes.symm hne
    · rw [injectedRecut_fresh hfresh] at hr
      cases hr
    · exact .inl (episode_own hr hchampion.symm (by omega))

theorem replan_rests {p p₁ p₂ : PlanRow} {a : PlanAsk} (h₁ : replan fl p a = some p₁)
    (h₂ : replan fl p₁ a = some p₂) : replan fl p₂ a = none := by
  rcases replan_row h₁ with hordinary | hbegun
  · exact replan_begun (replan_ordinary hordinary h₂)
  · rw [replan_begun hbegun] at h₂
    cases h₂

end Rows

end LoopLab.Engine
