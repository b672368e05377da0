import LoopLab.Lib.Table

/-!
# The producers of builds

Each producer works on a pair of roles leased from a pool: the first pair and the pairs behind it, all taken from
the role pool of the engine and never its primary pair.
-/

set_option autoImplicit false

namespace LoopLab.Engine
open Lib

abbrev Role := Nat

abbrev RolePair := Role × Role

def RolesApart (p q : RolePair) : Prop := p.1 ≠ q.1 ∧ p.2 ≠ q.2

instance (p q : RolePair) : Decidable (RolesApart p q) := inferInstanceAs (Decidable (_ ∧ _))

inductive Holder where
  | build (cardId : String) (generation : Int)
  | raw
  deriving DecidableEq, Repr

/-- What the build width is made of. `overridden` says that the operator's budget names it; `pin` is the
width the run started with, where the log has one, and `launched` that of this process. -/
structure BuildWidth where
  startupAuto : Bool
  llmParallel : Int
  overridden : Bool := false
  pin : Int := 0
  launched : Int := 1

def speculativeProducerWidth (w : BuildWidth) : Nat :=
  if w.startupAuto then 1
  else
    let live := max 1 w.llmParallel
    if w.overridden then live.toNat
    else
      let launched := if 1 ≤ w.pin then w.pin else w.launched
      (max 1 (min live launched)).toNat

theorem one_le_width (w : BuildWidth) : 1 ≤ speculativeProducerWidth w := by
  unfold speculativeProducerWidth
  dsimp only
  split
  · exact Nat.le_refl 1
  · split <;> omega

/-- A producer at work: the pair in its hands, and the width and the index it was leased at. -/
structure Producer where
  holder : Holder
  pair : RolePair
  width : Nat
  index : Nat
  deriving DecidableEq

structure Producers where
  researcher : Role
  developer : Role
  rolePool : List RolePair := []
  /-- `_spec_role_pair` -/
  rolePair : Option RolePair := none
  /-- `_spec_role_pairs` -/
  rolePairs : List RolePair := []
  pairLeases : Dict Holder Nat := Table.empty
  builderGeneration : Nat := 0
  width : BuildWidth
  live : List Producer := []

/-- What the role factory answers when it is asked, call by call: a pair, or a failure. It fails where
the list ends. -/
abbrev Offers := List (Option RolePair)

/-- The loop of `_build_role_pairs`: pairs are added to the pool up to a length, until a call fails. -/
def growPool (length : Nat) : Offers → List RolePair → List RolePair × Offers
  | some pair :: offers, pool =>
    if length ≤ pool.length then (pool, some pair :: offers) else growPool length offers (pool ++ [pair])
  | none :: offers, pool => if length ≤ pool.length then (pool, none :: offers) else (pool, offers)
  | [], pool => (pool, [])

namespace Producers

/-- `_build_role_pairs`, the pairs behind the primary one -/
def buildRolePairs (s : Producers) (n : Nat) (offers : Offers) : List RolePair × Producers × Offers :=
  let (pool, offers) := growPool (n - 1) offers s.rolePool
  (pool.take (n - 1), { s with rolePool := pool }, offers)

def isolated (s : Producers) (pair : RolePair) : Bool :=
  pair.1 ≠ s.researcher && pair.2 ≠ s.developer

def producerRolePair (s : Producers) (offers : Offers) : Option RolePair × Producers × Offers :=
  match s.rolePair with
  | some pair => (some pair, s, offers)
  | none =>
    let (pairs, s, offers) := s.buildRolePairs 2 offers
    match pairs.head? with
    | none => (none, s, offers)
    | some pair =>
      if s.isolated pair then (some pair, { s with rolePair := some pair }, offers)
      else (none, s, offers)

/-- `_ensure_producer_pool`: how many pairs there are for a width. -/
def ensureProducerPool (s : Producers) (width : Nat) (offers : Offers) : Nat × Producers :=
  match s.producerRolePair offers with
  | (none, s, _) => (0, s)
  | (some first, s, offers) =>
    if 1 < width ∧ s.rolePairs.length < width - 1 then
      let (pairs, s, _) := s.buildRolePairs (width + 1) offers
      let extra := pairs.tail.filter fun pair => s.isolated pair && pair ≠ first
      let s := if s.rolePairs.length < extra.length then { s with rolePairs := extra.take (width - 1) }
        else s
      (min (max 1 width) (1 + s.rolePairs.length), s)
    else (min (max 1 width) (1 + s.rolePairs.length), s)

def pairAt (s : Producers) : Nat → Option RolePair
  | 0 => s.rolePair
  | i + 1 => s.rolePairs[i]?

def held (s : Producers) : List Nat := s.pairLeases.rows.map Prod.snd

/-- `_producer_pair_for`: the index leased. -/
def producerPairFor (s : Producers) (holder : Holder) (width : Nat) (offers : Offers) :
    Option Nat × Producers :=
  match Dict.get s.pairLeases holder with
  | some index => (some index, s)
  | none =>
    if holder = .raw ∧ 1 < width then
      let (pool, s) := s.ensureProducerPool (width + 1) offers
      if pool ≤ width then (none, s)
      else (some width, { s with pairLeases := s.pairLeases.set .raw width })
    else
      let (pool, s) := s.ensureProducerPool width offers
      match (List.range pool).find? (· ∉ s.held) with
      | none => (none, s)
      | some index => (some index, { s with pairLeases := s.pairLeases.set holder index })

def releaseProducerPair (s : Producers) (holder : Holder) : Producers :=
  { s with pairLeases := s.pairLeases.erase holder }

/-- `_drop_producer_pool`, as far as pairs and leases go -/
def dropProducerPool (s : Producers) : Producers :=
  { s with rolePair := none, rolePairs := [], pairLeases := Table.empty,
           builderGeneration := s.builderGeneration + 1 }

def rewrapped (pool : List RolePair) (pooled : Nat → Role) : List RolePair :=
  pool.zipIdx.map fun e => (pooled e.2, e.1.2)

end Producers

/-! ## What happens to the producers -/

inductive ProducerOp where
  | rewidth (width : BuildWidth)
  | batch (n : Nat) (offers : Offers)
  | capacity (offers : Offers)
  | start (holder : Holder) (offers : Offers)
  | startFails (holder : Holder) (offers : Offers)
  | finish (holder : Holder)
  | swapDeveloper (developer : Role)
  /-- The Strategist's switch wraps the researchers (`_ensure_surrogate`). -/
  | wrapResearchers (researcher : Role) (pooled : Nat → Role)

namespace Producers

def idle (s : Producers) (holder : Holder) : Bool := s.live.all (·.holder ≠ holder)

def step (s : Producers) : ProducerOp → Option Producers
  | .rewidth width => some { s with width }
  | .batch n offers => some (s.buildRolePairs n offers).2.1
  | .capacity offers => some (s.ensureProducerPool (speculativeProducerWidth s.width) offers).2
  | .start holder offers =>
    if s.idle holder then
      let width := speculativeProducerWidth s.width
      match s.producerPairFor holder width offers with
      | (none, s) => some s
      | (some index, s) =>
        (s.pairAt index).map fun pair =>
          { s with live := s.live ++ [{ holder, pair, width, index }] }
    else none
  | .startFails holder offers =>
    if s.idle holder then
      some ((s.producerPairFor holder (speculativeProducerWidth s.width) offers).2.releaseProducerPair
        holder)
    else none
  | .finish holder =>
    some { s.releaseProducerPair holder with live := s.live.filter (·.holder ≠ holder) }
  | .swapDeveloper developer => some { s.dropProducerPool with developer, rolePool := [] }
  | .wrapResearchers researcher pooled =>
    if s.rolePool = [] then some { s with researcher }
    else some { s with researcher, rolePool := rewrapped s.rolePool pooled, rolePair := none,
                       rolePairs := [], pairLeases := Table.empty }

end Producers

end LoopLab.Engine
