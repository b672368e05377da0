import LoopLab.Lib.Table

/-!
# The claim of an engine's launch

Before the command service creates an engine it leaves a claim, and puts the process behind it as soon as it knows
it.
-/

set_option autoImplicit false

namespace LoopLab.Serve
open Lib

abbrev Pid := Nat

/-- A process the service created: whether it runs, and whether it ever held `engine.lock`. -/
structure EngineChild where
  pid : Pid
  alive : Bool := true
  held : Bool := false
  deriving DecidableEq

/-- Started, alive, and never the holder of `engine.lock`. -/
def EngineChild.cold (c : EngineChild) : Bool := c.alive && !c.held

/-- Who holds `engine.lock`. -/
inductive LockHolder where
  | child (pid : Pid)
  | other
  deriving DecidableEq

/-- The row of the claim. `created` is no field of it: it is the process made under the claim, whether or
not the row names it. -/
structure SpawnClaim where
  commandId : String
  pid : Option Pid := none
  quarantined : Bool := false
  created : Option Pid := none
  deriving DecidableEq

structure CommandLaunch where
  spawnedByCommand : Bool := false
  spawnClaimReleased : Bool := false
  enginePid : Option Pid := none
  deriving DecidableEq

inductive SpawnSection where
  | leased (commandId : String)
  | created (commandId : String) (pid : Pid)
  | persisted (commandId : String) (pid : Option Pid)
  deriving DecidableEq

/-- What the probes answer when the claim is read: of `engine.lock`, of the process of the row, now and
after the row is quarantined, and whether the lease has run out. -/
structure Probes where
  liveness : Option Bool
  gone : Bool := false
  goneAfter : Bool := false
  expired : Bool := false

structure LaunchState where
  children : List EngineChild := []
  lock : Option LockHolder := none
  claim : Option SpawnClaim := none
  records : Dict String CommandLaunch := Table.empty
  spawning : Option SpawnSection := none

namespace LaunchState

def child (s : LaunchState) (pid : Pid) : Option EngineChild := s.children.find? (·.pid = pid)

def record (s : LaunchState) (commandId : String) : CommandLaunch :=
  (Dict.get s.records commandId).getD {}

/-- `_recent_spawn_claim`: whether the claim forbids a launch, and what the read leaves of it. -/
def recentSpawnClaim (s : LaunchState) (probes : Probes) : Bool × LaunchState :=
  match s.claim with
  | none => (false, s)
  | some row =>
    match probes.liveness with
    | some true => (true, { s with claim := none })
    | none => (true, s)
    | some false =>
      if probes.gone then (false, { s with claim := none })
      else if row.quarantined then (true, s)
      else if !probes.expired then (true, s)
      else if probes.goneAfter then (false, { s with claim := none })
      else (true, { s with claim := some { row with quarantined := true } })

def clearSpawnClaim (s : LaunchState) (commandId : String) : LaunchState :=
  { s with claim := s.claim.filter (·.commandId ≠ commandId) }

/-- `_quarantine_spawn_claim`: the row kept for good, and read once more. -/
def quarantineSpawnClaim (s : LaunchState) (commandId : String) (pid : Option Pid) (probes : Probes) :
    Bool × LaunchState :=
  match s.claim with
  | some row =>
    if row.commandId = commandId then
      recentSpawnClaim { s with claim := some { row with pid := pid.or row.pid, quarantined := true } }
        probes
    else recentSpawnClaim s probes
  | none => recentSpawnClaim { s with claim := some { commandId, pid, quarantined := true, created := pid } }
    probes

def setRecord (s : LaunchState) (commandId : String) (launch : CommandLaunch) : LaunchState :=
  { s with records := s.records.set commandId launch }

/-- The spawn rungs of `_settle_expired`; `seen` is what it sees of `engine.lock` ahead of the claim's
read. -/
def settleExpired (s : LaunchState) (commandId : String) (seen : Option Bool) (probes : Probes) :
    LaunchState :=
  let launch := s.record commandId
  if launch.spawnedByCommand && !launch.spawnClaimReleased then
    if seen = some true then
      (s.clearSpawnClaim commandId).setRecord commandId { launch with spawnClaimReleased := true }
    else (s.quarantineSpawnClaim commandId launch.enginePid probes).2
  else s.clearSpawnClaim commandId

def updateChild (s : LaunchState) (pid : Pid) (f : EngineChild → EngineChild) : LaunchState :=
  { s with children := s.children.map fun c => if c.pid = pid then f c else c }

end LaunchState

inductive LaunchOp where
  /-- A spawning section of `_spawn_under_claim` finds no engine and no claim, and leaves its own. -/
  | lease (commandId : String) (probes : Probes)
  | stepAside
  | create (pid : Pid)
  | spawnFails
  | spawnUncertain (pid : Option Pid)
  | persist (known : Bool)
  | save (restarting : Bool)
  | serverDies
  | read (probes : Probes)
  /-- The monitor, or the wait for the start, sees `engine.lock` held. -/
  | lockSeen (commandId : String) (liveness : Option Bool)
  | settled (commandId : String)
  | expired (commandId : String) (seen : Option Bool) (probes : Probes)
  /-- `_safe_retry`, as far as the launch goes -/
  | retry (commandId : String)
  | childTakesLock (pid : Pid)
  | otherTakesLock
  | lockReleased
  | childDies (pid : Pid)

namespace LaunchState

def step (s : LaunchState) : LaunchOp → Option LaunchState
  | .lease commandId probes =>
    if s.spawning = none ∧ probes.liveness = some false then
      match s.recentSpawnClaim probes with
      | (true, s) => some s
      | (false, s) => some { s with claim := some { commandId }, spawning := some (.leased commandId) }
    else none
  | .stepAside =>
    match s.spawning with
    | some (.leased commandId) => some { s.clearSpawnClaim commandId with spawning := none }
    | _ => none
  | .create pid =>
    match s.spawning with
    | some (.leased commandId) =>
      if s.child pid = none then
        some { s with children := s.children ++ [{ pid }]
                      claim := s.claim.map fun row => { row with created := some pid }
                      spawning := some (.created commandId pid) }
      else none
    | _ => none
  | .spawnFails =>
    match s.spawning with
    | some (.leased commandId) => some { s.clearSpawnClaim commandId with spawning := none }
    | _ => none
  | .spawnUncertain pid =>
    match s.spawning with
    | some (.leased _) =>
      match pid with
      | none => some { s with spawning := none }
      | some pid =>
        if s.child pid = none then
          some { s with children := s.children ++ [{ pid }]
                        claim := s.claim.map fun row => { row with created := some pid }
                        spawning := none }
        else none
    | _ => none
  | .persist known =>
    match s.spawning with
    | some (.created commandId pid) =>
      some { s with claim := some { commandId, pid := if known then some pid else none, created := some pid }
                    spawning := some (.persisted commandId (if known then some pid else none)) }
    | _ => none
  | .save restarting =>
    match s.spawning with
    | some (.persisted commandId pid) =>
      let launch := s.record commandId
      let enginePid := if restarting then pid else pid.or launch.enginePid
      some { s.setRecord commandId { launch with spawnedByCommand := true, enginePid } with
               spawning := none }
    | _ => none
  | .serverDies => some { s with spawning := none }
  | .read probes => some (s.recentSpawnClaim probes).2
  | .lockSeen commandId liveness =>
    if liveness = some true then
      some ((s.clearSpawnClaim commandId).setRecord commandId
        { s.record commandId with spawnClaimReleased := true })
    else some s
  | .settled commandId => some (s.clearSpawnClaim commandId)
  | .expired commandId seen probes =>
    if s.spawning = none then some (s.settleExpired commandId seen probes) else none
  | .retry commandId => some (s.setRecord commandId {})
  | .childTakesLock pid =>
    if s.lock = none ∧ (s.child pid).any (·.alive) then
      some { s.updateChild pid fun c => { c with held := true } with lock := some (.child pid) }
    else none
  | .otherTakesLock => if s.lock = none then some { s with lock := some .other } else none
  | .lockReleased => some { s with lock := none }
  | .childDies pid =>
    some { s.updateChild pid fun c => { c with alive := false } with
             lock := s.lock.filter (· ≠ .child pid) }

end LaunchState

end LoopLab.Serve
