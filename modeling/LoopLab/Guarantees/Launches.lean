import LoopLab.Serve.SpawnClaims

/-!
# One launch at a time

While a process of the service is starting, the claim stands for it, as long as nobody takes the lock of another
engine for its start and no verdict of a command takes the claim down.
-/

set_option autoImplicit false

namespace LoopLab.Serve.LaunchState
open Lib

/-- A process of the service is starting, or is about to be created. -/
def Starting (s : LaunchState) : Prop :=
  (∃ c ∈ s.children, c.cold = true) ∨ ∃ commandId, s.spawning = some (.leased commandId)

/-- The claim was left by the command. -/
def ClaimOf (s : LaunchState) (commandId : String) : Prop :=
  ∃ row, s.claim = some row ∧ row.commandId = commandId

/-- What is seen of `engine.lock` is so. -/
def SeenTrue (s : LaunchState) (liveness : Option Bool) : Prop :=
  (liveness = some true → s.lock ≠ none) ∧ (liveness = some false → s.lock = none)

/-- No live process is reported gone. -/
def GoneTrue (s : LaunchState) (pid : Option Pid) (gone : Bool) : Prop :=
  gone = true → ∃ p, pid = some p ∧ ∀ c ∈ s.children, c.pid = p → c.alive = false

structure ProbesTrue (s : LaunchState) (pid : Option Pid) (probes : Probes) : Prop where
  liveness : SeenTrue s probes.liveness
  gone : GoneTrue s pid probes.gone
  goneAfter : GoneTrue s pid probes.goneAfter

/-- The process of the row as a read finds it. -/
def claimedPid (s : LaunchState) : Option Pid := s.claim.bind (·.pid)

/-- The process of the row as the read after a quarantine finds it. -/
def quarantinedPid (s : LaunchState) (commandId : String) : Option Pid :=
  match s.claim with
  | some row => if row.commandId = commandId then (s.record commandId).enginePid.or row.pid else row.pid
  | none => (s.record commandId).enginePid

/-- The probes are truthful. -/
def Truthful (s : LaunchState) : LaunchOp → Prop
  | .lease _ probes | .read probes => ProbesTrue s s.claimedPid probes
  | .lockSeen _ liveness => SeenTrue s liveness
  | .expired commandId seen probes => SeenTrue s seen ∧ ProbesTrue s (s.quarantinedPid commandId) probes
  | _ => True

/-- While a process is starting, `engine.lock` is not read as held, no verdict falls on the command that
left the claim, and a deadline finds on its record the process of its claim. -/
def Unmistaken (s : LaunchState) : LaunchOp → Prop
  | .read probes => probes.liveness = some true → ¬ Starting s
  | .lockSeen commandId liveness => liveness = some true → ClaimOf s commandId → ¬ Starting s
  | .settled commandId => ClaimOf s commandId → ¬ Starting s
  | .expired commandId seen probes =>
    if (s.record commandId).spawnedByCommand && !(s.record commandId).spawnClaimReleased then
      (seen = some true → ClaimOf s commandId → ¬ Starting s) ∧
      (probes.liveness = some true → ¬ Starting s) ∧
      ∀ row p, s.claim = some row → row.commandId = commandId →
        (s.record commandId).enginePid = some p → row.created = some p
    else ClaimOf s commandId → ¬ Starting s
  | _ => True

/-- A run of the service from its start, each of whose steps is met by `ok`. -/
inductive Run (ok : LaunchState → LaunchOp → Prop) : LaunchState → Prop where
  | init : Run ok {}
  | step {s s' : LaunchState} (op : LaunchOp) (run : Run ok s) (truthful : Truthful s op) (meets : ok s op)
      (next : s.step op = some s') : Run ok s'

structure Inv (s : LaunchState) : Prop where
  pids : (s.children.map (·.pid)).Nodup
  cold : ∀ c ∈ s.children, c.cold = true → ∃ row, s.claim = some row ∧ row.created = some c.pid
  named : ∀ row p, s.claim = some row → row.pid = some p → row.created = some p
  leased : ∀ commandId, s.spawning = some (.leased commandId) →
    (∀ c ∈ s.children, c.cold = false) ∧ ∃ row, s.claim = some row ∧ row.created = none
  made : ∀ commandId pid, s.spawning = some (.created commandId pid) →
    ∀ c ∈ s.children, c.cold = true → c.pid = pid

structure Read (s s' : LaunchState) : Prop where
  children : s'.children = s.children
  spawning : s'.spawning = s.spawning
  claim : (∃ row row', s.claim = some row ∧ s'.claim = some row' ∧ row'.created = row.created ∧
      ∀ p, row'.pid = some p → row'.created = some p) ∨
    ¬ Starting s ∧ ∀ row' p, s'.claim = some row' → row'.pid = some p → row'.created = some p

variable {s s' : LaunchState}

theorem Inv.of_read (h : Inv s) (hread : Read s s') : Inv s' := by
  obtain ⟨hchildren, hspawning, hclaim⟩ := hread
  have hcold (c : EngineChild) (hc : c ∈ s.children) (hcold : c.cold = true) : Starting s :=
    .inl ⟨c, hc, hcold⟩
  constructor
  · rw [hchildren]
    exact h.pids
  · intro c hc hcold'
    rw [hchildren] at hc
    rcases hclaim with ⟨row, row', hrow, hrow', hsame, -⟩ | ⟨hnone, -⟩
    · obtain ⟨row₀, hrow₀, hcreated⟩ := h.cold c hc hcold'
      cases hrow.symm.trans hrow₀
      exact ⟨row', hrow', hsame.trans hcreated⟩
    · exact absurd (hcold c hc hcold') hnone
  · intro row p hrow hp
    rcases hclaim with ⟨-, row', -, hrow', -, hnamed⟩ | ⟨-, hnamed⟩
    · cases hrow'.symm.trans hrow
      exact hnamed p hp
    · exact hnamed row p hrow hp
  · intro commandId hleased
    rw [hspawning] at hleased
    rw [hchildren]
    refine ⟨(h.leased commandId hleased).1, ?_⟩
    obtain ⟨-, row₀, hrow₀, hcreated⟩ := h.leased commandId hleased
    rcases hclaim with ⟨row, row', hrow, hrow', hsame, -⟩ | ⟨hnone, -⟩
    · cases hrow.symm.trans hrow₀
      exact ⟨row', hrow', hsame.trans hcreated⟩
    · exact absurd (.inr ⟨commandId, hleased⟩) hnone
  · intro commandId pid hmade
    rw [hspawning] at hmade
    rw [hchildren]
    exact h.made commandId pid hmade

theorem Inv.not_starting (h : Inv s) (hnone : s.claim = none) : ¬ Starting s := by
  rintro (⟨c, hc, hcold⟩ | ⟨commandId, hleased⟩)
  · obtain ⟨row, hrow, -⟩ := h.cold c hc hcold
    rw [hnone] at hrow
    cases hrow
  · obtain ⟨-, row, hrow, -⟩ := h.leased commandId hleased
    rw [hnone] at hrow
    cases hrow

theorem Read.refl (h : Inv s) : Read s s := by
  refine ⟨rfl, rfl, ?_⟩
  cases hclaim : s.claim with
  | none =>
    refine .inr ⟨h.not_starting hclaim, ?_⟩
    intro row' p hrow'
    cases hrow'
  | some row => exact .inl ⟨row, row, rfl, rfl, rfl, fun p hp => h.named row p hclaim hp⟩

theorem Read.trans {t : LaunchState} (h : Read s t) (h' : Read t s') : Read s s' := by
  refine ⟨h'.children.trans h.children, h'.spawning.trans h.spawning, ?_⟩
  have hstarting : Starting t ↔ Starting s := by
    unfold Starting
    rw [h.children, h.spawning]
  rcases h.claim with ⟨row, row', hrow, hrow', hsame, -⟩ | ⟨hnone, -⟩
  · rcases h'.claim with ⟨row₁, row'', hrow₁, hrow'', hsame', hnamed⟩ | ⟨hnone, hnamed⟩
    · cases hrow'.symm.trans hrow₁
      exact .inl ⟨row, row'', hrow, hrow'', hsame'.trans hsame, hnamed⟩
    · exact .inr ⟨fun hs => hnone (hstarting.mpr hs), hnamed⟩
  · refine .inr ⟨hnone, ?_⟩
    rcases h'.claim with ⟨row₁, row'', -, hrow'', -, hnamed⟩ | ⟨-, hnamed⟩
    · intro r p hr hp
      cases hrow''.symm.trans hr
      exact hnamed p hp
    · exact hnamed

theorem Inv.not_starting_of_gone (h : Inv s) {gone : Bool} (htrue : GoneTrue s s.claimedPid gone)
    (hgone : gone = true) : ¬ Starting s := by
  obtain ⟨p, hp, hdead⟩ := htrue hgone
  obtain ⟨row, hrow, hpid⟩ := Option.bind_eq_some_iff.mp hp
  have hcreated := h.named row p hrow hpid
  rintro (⟨c, hc, hcold⟩ | ⟨commandId, hleased⟩)
  · obtain ⟨row₀, hrow₀, hc₀⟩ := h.cold c hc hcold
    cases hrow.symm.trans hrow₀
    have hsame : c.pid = p := Option.some.inj (hc₀.symm.trans hcreated)
    unfold EngineChild.cold at hcold
    rw [hdead c hc hsame] at hcold
    cases hcold
  · obtain ⟨-, row₀, hrow₀, hnone⟩ := h.leased commandId hleased
    cases hrow.symm.trans hrow₀
    rw [hnone] at hcreated
    cases hcreated

theorem read_removed (h : ¬ Starting s) : Read s { s with claim := none } := by
  refine ⟨rfl, rfl, .inr ⟨h, ?_⟩⟩
  intro row' p hrow'
  cases hrow'

theorem read_spec (h : Inv s) {probes : Probes} (htrue : ProbesTrue s s.claimedPid probes)
    (hseen : probes.liveness = some true → ¬ Starting s) : Read s (s.recentSpawnClaim probes).2 := by
  unfold recentSpawnClaim
  cases hclaim : s.claim with
  | none => exact Read.refl h
  | some row =>
    dsimp only
    split
    · rename_i hlive
      exact read_removed (hseen hlive)
    · exact Read.refl h
    · split
      · rename_i hgone
        exact read_removed (h.not_starting_of_gone htrue.gone hgone)
      · split
        · exact Read.refl h
        · split
          · exact Read.refl h
          · split
            · rename_i hgone
              exact read_removed (h.not_starting_of_gone htrue.goneAfter hgone)
            · exact ⟨rfl, rfl, .inl ⟨row, _, hclaim, rfl, rfl, fun p hp => h.named row p hclaim hp⟩⟩

theorem clear_spec (h : Inv s) {commandId : String} (hclear : ClaimOf s commandId → ¬ Starting s) :
    Read s (s.clearSpawnClaim commandId) := by
  unfold clearSpawnClaim
  cases hclaim : s.claim with
  | none =>
    rw [Option.filter_none]
    exact ⟨rfl, rfl, .inr ⟨h.not_starting hclaim, fun row' p hrow' => nomatch hrow'⟩⟩
  | some row =>
    by_cases hown : row.commandId = commandId
    · rw [Option.filter_some, if_neg (by simp [hown])]
      exact read_removed (hclear ⟨row, hclaim, hown⟩)
    · rw [Option.filter_some, if_pos (by simpa using hown)]
      exact ⟨rfl, rfl, .inl ⟨row, row, hclaim, rfl, rfl, fun p hp => h.named row p hclaim hp⟩⟩

theorem quarantine_spec (h : Inv s) {commandId : String} {probes : Probes}
    (htrue : ProbesTrue s (s.quarantinedPid commandId) probes)
    (hseen : probes.liveness = some true → ¬ Starting s)
    (hpid : ∀ row p, s.claim = some row → row.commandId = commandId →
      (s.record commandId).enginePid = some p → row.created = some p) :
    Read s (s.quarantineSpawnClaim commandId (s.record commandId).enginePid probes).2 := by
  -- the row as it is kept, and the read of it
  have hkept (row' : SpawnClaim) (hread : Read s { s with claim := some row' })
      (hsame : row'.pid = s.quarantinedPid commandId) :
      Read s (recentSpawnClaim { s with claim := some row' } probes).2 := by
    apply hread.trans
    apply read_spec (h.of_read hread)
    · rw [← hsame] at htrue
      exact ⟨htrue.liveness, htrue.gone, htrue.goneAfter⟩
    · exact hseen
  unfold quarantineSpawnClaim
  cases hclaim : s.claim with
  | none =>
    dsimp only
    apply hkept
    · refine ⟨rfl, rfl, .inr ⟨h.not_starting hclaim, ?_⟩⟩
      intro row' p hrow' hp
      cases hrow'
      exact hp
    · unfold quarantinedPid
      rw [hclaim]
  | some row =>
    dsimp only
    split
    · rename_i hown
      apply hkept
      · refine ⟨rfl, rfl, .inl ⟨row, _, hclaim, rfl, rfl, ?_⟩⟩
        intro p hp
        dsimp only at hp ⊢
        rcases Option.or_eq_some_iff.mp hp with hp | ⟨-, hp⟩
        · exact hpid row p hclaim hown hp
        · exact h.named row p hclaim hp
      · unfold quarantinedPid
        rw [hclaim]
        dsimp only
        rw [if_pos hown]
    · rename_i hother
      apply read_spec h
      · unfold quarantinedPid at htrue
        rw [hclaim] at htrue
        dsimp only at htrue
        rw [if_neg hother] at htrue
        unfold claimedPid
        rw [hclaim]
        exact htrue
      · exact hseen

theorem Read.setRecord (h : Read s s') (commandId : String) (launch : CommandLaunch) :
    Read s (s'.setRecord commandId launch) :=
  ⟨h.children, h.spawning, h.claim⟩

theorem expired_spec (h : Inv s) {commandId : String} {seen : Option Bool} {probes : Probes}
    (htrue : ProbesTrue s (s.quarantinedPid commandId) probes)
    (hclear : Unmistaken s (.expired commandId seen probes)) :
    Read s (s.settleExpired commandId seen probes) := by
  unfold Unmistaken at hclear
  unfold settleExpired
  dsimp only at hclear ⊢
  split
  · rename_i hspawned
    rw [if_pos hspawned] at hclear
    obtain ⟨hlock, hread, hpid⟩ := hclear
    split
    · rename_i hseen
      exact (clear_spec h (hlock hseen)).setRecord _ _
    · exact quarantine_spec h htrue hread hpid
  · rename_i hspawned
    rw [if_neg hspawned] at hclear
    exact clear_spec h hclear

/-- The claim comes down, or goes over to another process, only for one that is not starting. -/
def Released (s s' : LaunchState) : Prop :=
  ∀ row, s.claim = some row → (∀ row', s'.claim = some row' → row'.created ≠ row.created) →
    ∀ c ∈ s.children, row.created = some c.pid → c.held = true ∨ c.alive = false

theorem held_or_gone {c : EngineChild} (h : c.cold = false) : c.held = true ∨ c.alive = false := by
  unfold EngineChild.cold at h
  cases halive : c.alive with
  | false => exact .inr rfl
  | true =>
    rw [halive] at h
    exact .inl (by simpa using h)

theorem released_of_warm (h : ∀ c ∈ s.children, c.cold = false) : Released s s' :=
  fun _ _ _ c hc _ => held_or_gone (h c hc)

theorem warm_of_not_starting (h : ¬ Starting s) : ∀ c ∈ s.children, c.cold = false := by
  intro c hc
  apply eq_false_of_ne_true
  intro hcold
  exact h (.inl ⟨c, hc, hcold⟩)

theorem Read.released (h : Read s s') : Released s s' := by
  rcases h.claim with ⟨row, row', hrow, hrow', hsame, -⟩ | ⟨hnone, -⟩
  · intro row₀ hrow₀ hgone
    cases hrow.symm.trans hrow₀
    exact absurd hsame (hgone row' hrow')
  · exact released_of_warm (warm_of_not_starting hnone)

theorem recent_false {probes : Probes} (h : (s.recentSpawnClaim probes).1 = false) :
    (s.recentSpawnClaim probes).2.claim = none := by
  unfold recentSpawnClaim at h ⊢
  cases hclaim : s.claim with
  | none => exact hclaim
  | some row =>
    rw [hclaim] at h
    dsimp only at h ⊢
    split
    · rfl
    · rename_i hlive
      rw [hlive] at h
      cases h
    · rename_i hlive
      rw [hlive] at h
      dsimp only at h
      split
      · rfl
      · rename_i hgone
        rw [if_neg hgone] at h
        split
        · rename_i hquarantined
          rw [if_pos hquarantined] at h
          cases h
        · rename_i hquarantined
          rw [if_neg hquarantined] at h
          split
          · rename_i hexpired
            rw [if_pos hexpired] at h
            cases h
          · rename_i hexpired
            rw [if_neg hexpired] at h
            split
            · rfl
            · rename_i hafter
              rw [if_neg hafter] at h
              cases h

theorem Inv.leave (h : Inv s) {commandId : String} (hleased : s.spawning = some (.leased commandId)) :
    Inv { s.clearSpawnClaim commandId with spawning := none } where
  pids := h.pids
  cold := by
    intro c hc hcold
    rw [(h.leased commandId hleased).1 c hc] at hcold
    cases hcold
  named := by
    intro row p hrow hp
    exact h.named row p (Option.filter_eq_some_iff.mp hrow).1 hp
  leased := by
    intro other hother
    cases hother
  made := by
    intro other pid hother
    cases hother

theorem Inv.make (h : Inv s) {commandId : String} (hleased : s.spawning = some (.leased commandId))
    {pid : Pid} (hnew : s.child pid = none) {spawning : Option SpawnSection}
    (hspawning : spawning = none ∨ spawning = some (.created commandId pid)) :
    Inv { s with children := s.children ++ [{ pid := pid }]
                 claim := s.claim.map fun row => { row with created := some pid }
                 spawning } := by
  obtain ⟨hwarm, row, hrow, hnone⟩ := h.leased commandId hleased
  have hmade (c : EngineChild) (hc : c ∈ s.children ++ [{ pid := pid }]) (hcold : c.cold = true) : c.pid = pid := by
    rcases List.mem_append.mp hc with hc | hc
    · rw [hwarm c hc] at hcold
      cases hcold
    · cases List.mem_singleton.mp hc
      rfl
  constructor
  · dsimp only
    rw [List.map_append, List.nodup_append]
    refine ⟨h.pids, List.nodup_singleton _, ?_⟩
    intro a ha b hb
    obtain ⟨c, hc, rfl⟩ := List.mem_map.mp ha
    cases List.mem_singleton.mp hb
    have hother := List.find?_eq_none.mp hnew c hc
    simpa using hother
  · intro c hc hcold
    refine ⟨{ row with created := some pid }, ?_, ?_⟩
    · dsimp only
      rw [hrow]
      rfl
    · rw [hmade c hc hcold]
  · intro row' p hrow' hp
    dsimp only at hrow'
    rw [hrow] at hrow'
    cases hrow'
    have hcreated := h.named row p hrow hp
    rw [hnone] at hcreated
    cases hcreated
  · intro other hother
    dsimp only at hother
    rcases hspawning with rfl | rfl
    · cases hother
    · cases hother
  · intro other p hother c hc hcold
    dsimp only at hother
    rcases hspawning with rfl | rfl
    · cases hother
    · cases hother
      exact hmade c hc hcold

theorem Inv.warm (h : Inv s) {pid : Pid} {f : EngineChild → EngineChild} {lock : Option LockHolder}
    (hpid : ∀ c, (f c).pid = c.pid) (hwarm : ∀ c, (f c).cold = false) :
    Inv { s.updateChild pid f with lock } := by
  have hmem (c : EngineChild) (hc : c ∈ (s.updateChild pid f).children) (hcold : c.cold = true) :
      c ∈ s.children := by
    obtain ⟨c₀, hc₀, heq⟩ := List.mem_map.mp hc
    split at heq
    · rw [← heq, hwarm] at hcold
      cases hcold
    · rwa [← heq]
  constructor
  · have hsame : (s.updateChild pid f).children.map (·.pid) = s.children.map (·.pid) := by
      unfold updateChild
      dsimp only
      rw [List.map_map]
      apply List.map_congr_left
      intro c _
      rw [Function.comp_apply]
      split
      · exact hpid c
      · rfl
    dsimp only
    rw [hsame]
    exact h.pids
  · intro c hc hcold
    exact h.cold c (hmem c hc hcold) hcold
  · exact h.named
  · intro commandId hleased
    obtain ⟨hall, hrow⟩ := h.leased commandId hleased
    refine ⟨?_, hrow⟩
    intro c hc
    apply eq_false_of_ne_true
    intro hcold
    rw [hall c (hmem c hc hcold)] at hcold
    cases hcold
  · intro commandId p hmade c hc hcold
    exact h.made commandId p hmade c (hmem c hc hcold) hcold

theorem Inv.step (h : Inv s) {op : LaunchOp} (htrue : Truthful s op) (hclear : Unmistaken s op)
    (hnext : s.step op = some s') : Inv s' ∧ Released s s' := by
  have hread {t : LaunchState} (hread : Read s t) : Inv t ∧ Released s t :=
    ⟨h.of_read hread, hread.released⟩
  have hsame (hclaim : s'.claim = s.claim) : Released s s' := by
    intro row hrow hgone
    exact absurd rfl (hgone row (hclaim.trans hrow))
  cases op with
  | lease commandId probes =>
    dsimp only [LaunchState.step] at hnext
    split at hnext
    · rename_i hfree
      have hnot : probes.liveness = some true → ¬ Starting s := by
        intro hlive
        rw [hfree.2] at hlive
        cases hlive
      have hrecent := read_spec h htrue hnot
      split at hnext
      · rename_i t heq
        cases hnext
        rw [heq] at hrecent
        exact hread hrecent
      · rename_i t heq
        cases hnext
        have hnone : t.claim = none := by
          have hfalse := recent_false (s := s) (by rw [heq])
          rwa [heq] at hfalse
        rw [heq] at hrecent
        have hwarm := warm_of_not_starting ((h.of_read hrecent).not_starting hnone)
        have hchildren : t.children = s.children := hrecent.children
        refine ⟨⟨(h.of_read hrecent).pids, ?_, ?_, ?_, ?_⟩, ?_⟩
        · intro c hc hcold
          rw [hwarm c hc] at hcold
          cases hcold
        · intro row p hrow hp
          cases hrow
          cases hp
        · intro other _
          exact ⟨hwarm, _, rfl, rfl⟩
        · intro other pid hother
          cases hother
        · apply released_of_warm
          rw [← hchildren]
          exact hwarm
    · cases hnext
  | stepAside =>
    dsimp only [LaunchState.step] at hnext
    split at hnext
    · rename_i commandId hleased
      cases hnext
      exact ⟨h.leave hleased, released_of_warm (h.leased commandId hleased).1⟩
    · cases hnext
  | create pid =>
    dsimp only [LaunchState.step] at hnext
    split at hnext
    · rename_i commandId hleased
      split at hnext
      · rename_i hnew
        cases hnext
        exact ⟨h.make hleased hnew (.inr rfl), released_of_warm (h.leased commandId hleased).1⟩
      · cases hnext
    · cases hnext
  | spawnFails =>
    dsimp only [LaunchState.step] at hnext
    split at hnext
    · rename_i commandId hleased
      cases hnext
      exact ⟨h.leave hleased, released_of_warm (h.leased commandId hleased).1⟩
    · cases hnext
  | spawnUncertain pid =>
    dsimp only [LaunchState.step] at hnext
    split at hnext
    · rename_i commandId hleased
      have hwarm := (h.leased commandId hleased).1
      cases pid with
      | none =>
        cases hnext
        exact ⟨{ h with leased := fun _ hother => (nomatch hother), made := fun _ _ hother => (nomatch hother) },
          released_of_warm hwarm⟩
      | some pid =>
        dsimp only at hnext
        split at hnext
        · rename_i hnew
          cases hnext
          exact ⟨h.make hleased hnew (.inl rfl), released_of_warm hwarm⟩
        · cases hnext
    · cases hnext
  | persist known =>
    dsimp only [LaunchState.step] at hnext
    split at hnext
    · rename_i commandId pid hmade
      have hcold := h.made commandId pid hmade
      cases hnext
      refine ⟨⟨h.pids, ?_, ?_, ?_, ?_⟩, ?_⟩
      · intro c hc hstarts
        exact ⟨_, rfl, by rw [hcold c hc hstarts]⟩
      · intro row p hrow hp
        cases hrow
        dsimp only at hp ⊢
        split at hp
        · exact hp
        · cases hp
      · intro other hother
        cases hother
      · intro other p hother
        cases hother
      · intro row hrow hgone c hc hcreated
        apply held_or_gone
        apply eq_false_of_ne_true
        intro hstarts
        have hpid := hcold c hc hstarts
        rw [hpid] at hcreated
        exact hgone _ rfl hcreated.symm
    · cases hnext
  | save restarting =>
    dsimp only [LaunchState.step] at hnext
    split at hnext
    · cases hnext
      exact ⟨{ h with leased := fun _ hother => (nomatch hother), made := fun _ _ hother => (nomatch hother) },
        hsame rfl⟩
    · cases hnext
  | serverDies =>
    cases hnext
    exact ⟨{ h with leased := fun _ hother => (nomatch hother), made := fun _ _ hother => (nomatch hother) },
      hsame rfl⟩
  | read probes =>
    cases hnext
    exact hread (read_spec h htrue hclear)
  | lockSeen commandId liveness =>
    dsimp only [LaunchState.step] at hnext
    split at hnext
    · rename_i hlive
      cases hnext
      exact hread ((clear_spec h (hclear hlive)).setRecord _ _)
    · cases hnext
      exact hread (Read.refl h)
  | settled commandId =>
    cases hnext
    exact hread (clear_spec h hclear)
  | expired commandId seen probes =>
    dsimp only [LaunchState.step] at hnext
    split at hnext
    · cases hnext
      exact hread (expired_spec h htrue.2 hclear)
    · cases hnext
  | retry commandId =>
    cases hnext
    exact ⟨{ h with }, hsame rfl⟩
  | childTakesLock pid =>
    dsimp only [LaunchState.step] at hnext
    split at hnext
    · cases hnext
      refine ⟨h.warm (fun c => rfl) ?_, hsame rfl⟩
      intro c
      unfold EngineChild.cold
      rw [Bool.not_true, Bool.and_false]
    · cases hnext
  | otherTakesLock =>
    dsimp only [LaunchState.step] at hnext
    split at hnext
    · cases hnext
      exact ⟨{ h with }, hsame rfl⟩
    · cases hnext
  | lockReleased =>
    cases hnext
    exact ⟨{ h with }, hsame rfl⟩
  | childDies pid =>
    cases hnext
    refine ⟨h.warm (fun c => rfl) ?_, hsame rfl⟩
    intro c
    rfl

theorem Inv.init : Inv {} where
  pids := .nil
  cold := by
    intro c hc
    cases hc
  named := by
    intro row p hrow
    cases hrow
  leased := by
    intro commandId hleased
    cases hleased
  made := by
    intro commandId pid hmade
    cases hmade

theorem Inv.one_cold (h : Inv s) {c d : EngineChild} (hc : c ∈ s.children) (hd : d ∈ s.children)
    (hcold : c.cold = true) (hcold' : d.cold = true) : c = d := by
  obtain ⟨row, hrow, hcreated⟩ := h.cold c hc hcold
  obtain ⟨row', hrow', hcreated'⟩ := h.cold d hd hcold'
  cases hrow.symm.trans hrow'
  exact List.inj_on_of_nodup_map h.pids hc hd (Option.some.inj (hcreated.symm.trans hcreated'))

/-- One launch at a time, a claim that stands as long as its process is starting, and a claim that
permits a launch once its process is gone. -/
theorem launches_keep_apart {s : LaunchState} (run : Run Unmistaken s) :
    (∀ c ∈ s.children, ∀ d ∈ s.children, c.cold = true → d.cold = true → c = d) ∧
    (∀ op s', Truthful s op → Unmistaken s op → s.step op = some s' → Released s s') ∧
    ∀ row probes, s.claim = some row → probes.liveness = some false → probes.gone = true →
      (s.recentSpawnClaim probes).1 = false ∧ (s.recentSpawnClaim probes).2.claim = none := by
  have hinv : Inv s := by
    induction run with
    | init => exact Inv.init
    | step op run truthful meets next ih => exact (ih.step truthful meets next).1
  refine ⟨?_, ?_, ?_⟩
  · intro c hc d hd hcold hcold'
    exact hinv.one_cold hc hd hcold hcold'
  · intro op s' htrue hclear hnext
    exact (hinv.step htrue hclear hnext).2
  · intro row probes hrow hlive hgone
    have hfalse : (s.recentSpawnClaim probes).1 = false := by
      unfold recentSpawnClaim
      rw [hrow]
      dsimp only
      rw [hlive]
      dsimp only
      rw [if_pos hgone]
    exact ⟨hfalse, recent_false hfalse⟩

/-- The state after steps that are all possible. -/
def after (s : LaunchState) : List LaunchOp → LaunchState
  | [] => s
  | op :: ops => after ((s.step op).getD s) ops

/-- No engine holds the lock, and nobody is known to be gone. -/
def quiet : Probes := { liveness := some false }

theorem quiet_true {s : LaunchState} (h : s.lock = none) (pid : Option Pid) : ProbesTrue s pid quiet := by
  refine ⟨⟨?_, fun _ => h⟩, ?_, ?_⟩
  · intro hlive
    cases hlive
  · intro hgone
    cases hgone
  · intro hgone
    cases hgone

/-- No engine holds the lock, and the process the claim names is known to be gone. -/
def ended : Probes := { liveness := some false, gone := true }

/-- An engine is created and named on its claim and on its record, and its claim falls with it. -/
theorem launches_keep_apart_started :
    (∀ c ∈ (after {} [.lease "cmd_1" quiet, .create 7, .persist true, .save false]).children,
      ∀ d ∈ (after {} [.lease "cmd_1" quiet, .create 7, .persist true, .save false]).children,
      c.cold = true → d.cold = true → c = d) ∧
    ((after {} [.lease "cmd_1" quiet, .create 7, .persist true, .save false]).recentSpawnClaim
      ended).2.claim = none := by
  have h₁ : Run Unmistaken (after {} [.lease "cmd_1" quiet]) :=
    Run.init.step (.lease "cmd_1" quiet) (quiet_true rfl _) trivial rfl
  have h₂ : Run Unmistaken (after {} [.lease "cmd_1" quiet, .create 7]) :=
    h₁.step (.create 7) trivial trivial rfl
  have h₃ : Run Unmistaken (after {} [.lease "cmd_1" quiet, .create 7, .persist true]) :=
    h₂.step (.persist true) trivial trivial rfl
  have h₄ := launches_keep_apart (h₃.step (.save false) trivial trivial rfl)
  exact ⟨h₄.1, (h₄.2.2 _ ended rfl rfl rfl).2⟩

/-- The server dies between creating an engine and recording it; the deadline of the command clears the
claim, and the next command creates a second engine beside the first. -/
theorem unrecorded_child_doubled : ∃ s, Run (fun _ _ => True) s ∧ ∃ c ∈ s.children, ∃ d ∈ s.children,
    c.cold = true ∧ d.cold = true ∧ c ≠ d := by
  have h₁ : Run (fun _ _ => True) (after {} [.lease "cmd_1" quiet]) :=
    Run.init.step (.lease "cmd_1" quiet) (quiet_true rfl _) trivial rfl
  have h₂ : Run (fun _ _ => True) (after {} [.lease "cmd_1" quiet, .create 7]) :=
    h₁.step (.create 7) trivial trivial rfl
  have h₃ : Run (fun _ _ => True) (after {} [.lease "cmd_1" quiet, .create 7, .serverDies]) :=
    h₂.step .serverDies trivial trivial rfl
  have h₄ : Run (fun _ _ => True) (after {} [.lease "cmd_1" quiet, .create 7, .serverDies,
      .expired "cmd_1" (some false) quiet]) :=
    h₃.step (.expired "cmd_1" (some false) quiet)
      ⟨⟨fun hlive => (nomatch hlive), fun _ => rfl⟩, quiet_true rfl _⟩ trivial rfl
  have h₅ : Run (fun _ _ => True) (after {} [.lease "cmd_1" quiet, .create 7, .serverDies,
      .expired "cmd_1" (some false) quiet, .lease "cmd_2" quiet]) :=
    h₄.step (.lease "cmd_2" quiet) (quiet_true rfl _) trivial rfl
  refine ⟨after {} [.lease "cmd_1" quiet, .create 7, .serverDies, .expired "cmd_1" (some false) quiet,
    .lease "cmd_2" quiet, .create 8], h₅.step (.create 8) trivial trivial rfl, ?_⟩
  exact ⟨{ pid := 7 }, by decide, { pid := 8 }, by decide, rfl, rfl, by decide⟩

end LoopLab.Serve.LaunchState
