import LoopLab.Lib.Table
import Mathlib.Data.List.Basic

/-!
# The GPU pool

The devices a run may hand out, the memory they have, and the demands that are clamped to them.
-/

set_option autoImplicit false

namespace LoopLab.Resources
open LoopLab.Lib

/-- A row of `detect_gpus`; `none` where the field is not an `int`. -/
structure GpuRow where
  index : Option Int
  memFreeMib : Option Int
  deriving DecidableEq, Repr

/-- The devices the engine hands out (`_gpu_ids`), with the memory each had at the start (`_gpu_mem`). The
memory is known of every device or of none. -/
structure Pool where
  ids : List Nat
  nodup : ids.Nodup
  mem : Dict Nat Nat
  covers : mem.rows = [] ∨ mem.rows.map Prod.fst = ids

/-- The free memory by physical index; `none` where a row cannot be trusted. -/
def byPhysical : List GpuRow → Dict Int Nat → Option (Dict Int Nat)
  | [], d => some d
  | row :: rows, d => do
    let index ← row.index
    let free ← row.memFreeMib
    if free < 0 || (d.get index).isSome then none else byPhysical rows (d.set index free.toNat)

/-- The memory of the devices, each looked up by its physical index; `none` where one has no row. -/
def joined (d : Dict Int Nat) (physical : Nat → Option Int) : List Nat → Option (List (Nat × Nat))
  | [] => some []
  | gpu :: ids => do
    let free ← (physical gpu).bind d.get
    let rest ← joined d physical ids
    some ((gpu, free) :: rest)

theorem joined_keys {d : Dict Int Nat} {physical : Nat → Option Int} {ids : List Nat} {rows : List (Nat × Nat)}
    (h : joined d physical ids = some rows) : rows.map Prod.fst = ids := by
  induction ids generalizing rows with
  | nil =>
    cases h
    rfl
  | cons gpu ids ih =>
    obtain ⟨free, -, h⟩ := Option.bind_eq_some_iff.mp h
    obtain ⟨rest, hrest, h⟩ := Option.bind_eq_some_iff.mp h
    cases h
    exact congrArg (gpu :: ·) (ih hrest)

/-- The memory half of `detect_gpu_inventory`; `physical` reads the number of a device's selector, where it
is one. -/
def detectGpuInventory (ids : List Nat) (nodup : ids.Nodup) (physical : Nat → Option Int) (rows : List GpuRow) :
    Pool :=
  match h : (byPhysical rows Table.empty).bind (joined · physical ids) with
  | none => { ids, nodup, mem := Table.empty, covers := .inl rfl }
  | some mem =>
    have hkeys : mem.map Prod.fst = ids := by
      obtain ⟨d, -, hd⟩ := Option.bind_eq_some_iff.mp h
      exact joined_keys hd
    { ids, nodup, mem := ⟨mem, hkeys ▸ nodup⟩, covers := .inr hkeys }

/-- `_memory_envelope`: the most memory that as many devices have each. -/
def memoryEnvelope (pool : Pool) (gpuCount : Nat) : Option Nat :=
  let mem := pool.mem.rows.map Prod.snd
  if mem = [] then none else
  let n := max 1 (min (if gpuCount = 0 then 1 else gpuCount) mem.length)
  (mem.mergeSort (fun a b => decide (b ≤ a)))[n - 1]?

/-- A normalized footprint; the memory may be declared as `None`. -/
structure Footprint where
  gpus : Option Nat := none
  gpuMemMib : Option (Option Nat) := none
  deriving DecidableEq, Repr

/-- `effective_card_footprint`: the pin of the operator over the footprint of the idea. -/
def effectiveCardFootprint (footprint resourcePin : Option Footprint) : Option Footprint :=
  let base := footprint.getD {}
  let pin := resourcePin.getD {}
  let out : Footprint := { gpus := pin.gpus.or base.gpus, gpuMemMib := pin.gpuMemMib.or base.gpuMemMib }
  if out = {} then none
  else if out.gpus = some 0 then some { out with gpuMemMib := none }
  else some out

def clampResourceFootprint (pool : Pool) (footprint : Option Footprint) : Option Footprint :=
  footprint.map fun clean =>
    let total := pool.ids.length
    let gpus := clean.gpus.map fun n => if 0 < total || n = 0 then min n total else n
    let memory := clean.gpuMemMib.map fun raw => raw.map fun m =>
      match memoryEnvelope pool (gpus.getD 1) with
      | some envelope => min m envelope
      | none => m
    { gpus := gpus, gpuMemMib := memory }

structure Request where
  count : Nat
  gpuMemMib : Option Nat
  cpuOnly : Bool
  requiredUnavailable : Bool
  isUnspecified : Bool
  taskGpuCapable : Bool
  footprint : Option Footprint
  deriving DecidableEq, Repr

def Request.pin (r : Request) : Bool := decide (0 < r.count) && !r.requiredUnavailable

def resourceRequestForNode (pool : Pool) (evalParallel : Nat) (taskGpuCapable : Bool)
    (footprint resourcePin : Option Footprint) : Request :=
  let raw := effectiveCardFootprint footprint resourcePin
  let effective := clampResourceFootprint pool raw
  let declared := raw.bind Footprint.gpus
  let requiredUnavailable := declared.any (0 < ·) && decide (pool.ids.length = 0)
  let count :=
    match declared with
    | some n =>
      if n = 0 then 0 else if requiredUnavailable then n
      else ((effective.bind Footprint.gpus).getD 0)
    | none => if pool.ids ≠ [] && decide (1 < max 1 evalParallel) && taskGpuCapable then 1 else 0
  { count := count
    gpuMemMib := (effective.bind Footprint.gpuMemMib).join
    cpuOnly := decide (declared = some 0)
    requiredUnavailable := requiredUnavailable
    isUnspecified := declared.isNone
    taskGpuCapable := taskGpuCapable
    footprint := effective }

inductive LeaseTry where
  | acquired
  | contended
  | unopenable (why : String)
  deriving DecidableEq, Repr

/-- What the host answers while devices are taken: the gate of the run, the place in the queue where the
queue can be used, the lease, and the second try where an abandoned lease was moved aside. -/
structure Host where
  gateBlocked : Bool
  isHead : Option Bool
  lease : LeaseTry
  retry : Option LeaseTry
  deriving DecidableEq, Repr

def Host.Open (host : Host) : Prop :=
  host.gateBlocked = false ∧ host.isHead ≠ some false ∧ host.lease = .acquired

instance (host : Host) : Decidable host.Open :=
  inferInstanceAs (Decidable (_ ∧ _ ∧ _))

/-- The devices nobody holds, and whether the run holds the lease (`_gpu_host_lease_handle`). The engine
gives every populated pool a lease path. -/
structure GpuState where
  free : List Nat
  lease : Bool := false
  epoch : Nat := 0
  deriving DecidableEq, Repr

/-- The lease, where it is asked for: `none` is a wait. -/
def tryLease (host : Host) : Except String (Option Unit) :=
  if host.isHead = some false then .ok none else
  let first := host.lease
  let tried := if first = .contended then host.retry.getD first else first
  match tried with
  | .acquired => .ok (some ())
  | .contended => .ok none
  | .unopenable why => .error why

/-- The memory demand as `_acquire_gpus` clamps it. -/
def clampedDemand (pool : Pool) (count : Nat) (mem : Option Int) : Option Nat :=
  mem.map fun m =>
    match memoryEnvelope pool count with
    | some envelope => min m.toNat envelope
    | none => m.toNat

def fits (pool : Pool) (demand : Option Nat) (gpu : Nat) : Bool :=
  demand.all fun m => pool.mem.rows = [] || (pool.mem.get gpu).any (m ≤ ·)

/-- `_acquire_gpus`: `none` tells the caller to wait, an error that the lease cannot be opened. -/
def acquireGpus (pool : Pool) (host : Host) (s : GpuState) (n : Int) (mem : Option Int) :
    Except String (Option (List Nat)) × GpuState :=
  let count := min n.toNat pool.ids.length
  if count = 0 then (.ok (some []), s) else
  let fitting := s.free.filter (fits pool (clampedDemand pool count mem))
  if fitting.length < count then (.ok none, s)
  else if host.gateBlocked then (.ok none, s)
  else
    match if s.lease then .ok (some ()) else tryLease host with
    | .error why => (.error why, s)
    | .ok none => (.ok none, s)
    | .ok (some ()) =>
      let chosen := fitting.take count
      (.ok (some chosen),
        { free := s.free.filter fun gpu => decide (gpu ∉ chosen), lease := true, epoch := s.epoch + 1 })

def releaseGpus (pool : Pool) (s : GpuState) (gpuIds : List Nat) : GpuState :=
  let released := gpuIds.filter fun gpu => decide (gpu ∈ pool.ids)
  if released = [] then s else
  let free := released.foldl (fun free gpu => if gpu ∈ free then free else free ++ [gpu]) s.free
  let free := free.mergeSort fun a b => decide (pool.ids.idxOf a ≤ pool.ids.idxOf b)
  { free := free
    lease := if free.length = pool.ids.length then false else s.lease
    epoch := s.epoch + 1 }

end LoopLab.Resources

/-!
## Lanes and their reservations

A lane is admitted with a reservation, registers it under the lifecycle it evaluates, may give its devices back
while it needs none and take others later, and settles once.
-/

namespace LoopLab.Resources
open LoopLab.Lib

abbrev Key := Nat × Nat

structure Reservation where
  request : Request
  gpuIds : List Nat
  wholePoolUnpinned : Bool := false
  admissionUnpinnable : Option String := none
  yieldedGpus : Option Nat := none
  gave : yieldedGpus ≠ none → gpuIds = []
  deriving DecidableEq

/-- `_try_reserve_node_resources`: `none` tells the caller to wait. -/
def tryReserveNodeResources (pool : Pool) (host : Host) (s : GpuState) (request : Request) :
    Option Reservation × GpuState :=
  if request.requiredUnavailable then (some { request, gpuIds := [], gave := fun _ => rfl }, s) else
  let wholePoolUnpinned :=
    request.isUnspecified && request.taskGpuCapable && decide (request.count = 0) && decide (pool.ids ≠ [])
  let reserveCount := if wholePoolUnpinned then pool.ids.length else request.count
  match acquireGpus pool host s reserveCount (request.gpuMemMib.map Int.ofNat) with
  | (.error why, s') =>
    (some { request, gpuIds := [], admissionUnpinnable := some (why.take 400).toString, gave := fun _ => rfl }, s')
  | (.ok none, s') => (none, s')
  | (.ok (some gpuIds), s') =>
    (some { request, gpuIds, wholePoolUnpinned, gave := fun h => absurd rfl h }, s')

structure Lane where
  key : Key
  reservation : Reservation
  registered : Bool := false

/-- The engine between two sections under the lock. `leaving` are devices on their way to the free list,
`coming` what a reclaim has taken and not yet written to the registry (`_eval_gpu_reservations`). -/
structure World where
  gpu : GpuState
  attempts : Dict Nat Nat := Table.empty
  lanes : Dict Nat Lane := Table.empty
  registry : Dict Key Reservation := Table.empty
  leaving : List (List Nat) := []
  coming : Dict Key Reservation := Table.empty

def World.attempt (w : World) (node : Nat) : Nat := (w.attempts.get node).getD 0

def World.start (pool : Pool) : World := { gpu := { free := pool.ids } }

inductive Act where
  | enter (lane node : Nat) (request : Request) (host : Host)
  | register (lane : Nat)
  | release (lane : Nat)
  | unspawn (lane : Nat)
  | giveBack (gpuIds : List Nat)
  | yieldDevices (key : Key)
  | reclaim (key : Key) (host : Host)
  | store (key : Key)
  | reset (node : Nat)
  | settle (lane : Nat)

namespace World
variable (pool : Pool) (w : World)

def enter (lane node : Nat) (request : Request) (host : Host) : World :=
  match w.lanes.get lane with
  | some _ => w
  | none =>
    match tryReserveNodeResources pool host w.gpu request with
    | (none, gpu) => { w with gpu }
    | (some reservation, gpu) =>
      { w with gpu, lanes := w.lanes.set lane { key := (node, w.attempt node), reservation } }

/-- `_register_eval_resource_reservation`, for a lifecycle with no live entry. -/
def register (lane : Nat) : World :=
  match w.lanes.get lane with
  | none => w
  | some l =>
    if l.registered || (w.registry.get l.key).isSome then w
    else { w with
      registry := w.registry.set l.key l.reservation
      lanes := w.lanes.set lane { l with registered := true } }

/-- `_release_gpus` by a lane that never registered. -/
def release (lane : Nat) : World :=
  match w.lanes.get lane with
  | none => w
  | some l =>
    if l.registered then w
    else { w with gpu := releaseGpus pool w.gpu l.reservation.gpuIds, lanes := Table.erase w.lanes lane }

/-- `_clear_eval_resource_reservation`, up to the release after it, for a lane that could not be started: its
entry is still the one it registered. -/
def unspawn (lane : Nat) : World :=
  match w.lanes.get lane with
  | none => w
  | some l =>
    if l.registered && (w.coming.get l.key).isNone &&
        (w.registry.get l.key).any (·.gpuIds = l.reservation.gpuIds) then
      { w with
        lanes := Table.erase w.lanes lane
        registry := Table.erase w.registry l.key
        leaving := w.leaving ++ [l.reservation.gpuIds] }
    else w

/-- The `_release_gpus` that ends a settle or a yield. -/
def giveBack (gpuIds : List Nat) : World :=
  if gpuIds ∈ w.leaving then
    { w with gpu := releaseGpus pool w.gpu gpuIds, leaving := w.leaving.erase gpuIds }
  else w

/-- `_yield_eval_devices`, up to its release. -/
def yieldDevices (key : Key) : World :=
  if (w.coming.get key).isSome then w else
  match w.registry.get key with
  | none => w
  | some held =>
    if held.gpuIds = [] || held.admissionUnpinnable.isSome || held.request.requiredUnavailable then w
    else { w with
      registry := w.registry.set key
        { held with gpuIds := [], yieldedGpus := some held.gpuIds.length, gave := fun _ => rfl }
      leaving := w.leaving ++ [held.gpuIds] }

/-- A round of `_reclaim_eval_devices`, up to its write to the registry. -/
def reclaim (key : Key) (host : Host) : World :=
  if (w.coming.get key).isSome then w else
  match w.registry.get key with
  | none => w
  | some held =>
    let count := held.yieldedGpus.getD 0
    if count = 0 then w else
    match acquireGpus pool host w.gpu count (held.request.gpuMemMib.map Int.ofNat) with
    | (.error _, gpu) => { w with gpu }
    | (.ok none, gpu) => { w with gpu }
    | (.ok (some gpuIds), gpu) =>
      if gpuIds = [] then { w with gpu }
      else { w with
        gpu
        coming := w.coming.set key
          { held with gpuIds, yieldedGpus := none, gave := fun h => absurd rfl h } }

def store (key : Key) : World :=
  match w.coming.get key with
  | none => w
  | some back => { w with registry := w.registry.set key back, coming := Table.erase w.coming key }

def reset (node : Nat) : World := { w with attempts := w.attempts.set node (w.attempt node + 1) }

/-- `_settle_eval_resource_reservation`, up to its release. A lane that did not register settles only a
lifecycle that has no entry. -/
def settle (lane : Nat) : World :=
  match w.lanes.get lane with
  | none => w
  | some l =>
    if (w.coming.get l.key).isSome then w else
    match w.registry.get l.key with
    | none => { w with lanes := Table.erase w.lanes lane, leaving := w.leaving ++ [l.reservation.gpuIds] }
    | some held =>
      if l.registered then
        { w with
          lanes := Table.erase w.lanes lane
          registry := Table.erase w.registry l.key
          leaving := w.leaving ++ [held.gpuIds] }
      else w

def step : Act → World
  | .enter lane node request host => w.enter pool lane node request host
  | .register lane => w.register lane
  | .release lane => w.release pool lane
  | .unspawn lane => w.unspawn lane
  | .giveBack gpuIds => w.giveBack pool gpuIds
  | .yieldDevices key => w.yieldDevices key
  | .reclaim key host => w.reclaim pool key host
  | .store key => w.store key
  | .reset node => w.reset node
  | .settle lane => w.settle lane

/-- The world after a run of sections; one that cannot be entered changes nothing. -/
def after (acts : List Act) : World := acts.foldl (step pool) (start pool)

/-- The devices of the admissions that have not settled: of a lane that did not register, in its own
reservation; of one that did, in the registry; else on their way. -/
def held : List Nat :=
  (w.lanes.rows.flatMap fun l => if l.2.registered then [] else l.2.reservation.gpuIds) ++
    (w.registry.rows.flatMap fun r => r.2.gpuIds) ++
    (w.coming.rows.flatMap fun r => r.2.gpuIds) ++ w.leaving.flatten

def Settled : Prop := w.lanes.rows = [] ∧ w.leaving = []

end World

end LoopLab.Resources
