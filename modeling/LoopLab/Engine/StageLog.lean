import LoopLab.Engine.LossTrajectory
import LoopLab.Tools.Patch

/-!
# The trajectory of a stage log

The bytes of an attempt are read in chunks, and every chunk is handed over up to its last record end. What is left of it
opens the next one.
-/

set_option autoImplicit false

namespace LoopLab.Engine.StageLog
open LossTrajectory

abbrev Bytes := List UInt8

def STAGE_TRAJECTORY_WINDOWS : Int := 32

def STAGE_TRAJECTORY_MIN_CHUNK : Nat := 65536

def STAGE_TRAJECTORY_MAX_CHUNK : Nat := 4 * 1024 * 1024

/-- `\n` or `\r` -/
def isRecordEnd (b : UInt8) : Bool := b = 10 || b = 13

/-- The windows that are wanted; `none` is what `int` does not take. -/
def wanted (windows : Option Int) : Nat := (windows.elim STAGE_TRAJECTORY_WINDOWS (max 2)).toNat

def chunkOf (region want : Nat) : Nat :=
  max 1 (min (min (max (region / want) STAGE_TRAJECTORY_MIN_CHUNK) STAGE_TRAJECTORY_MAX_CHUNK) (region / 2))

/-- What stands behind the last record end. -/
def unended (buf : Bytes) : Bytes := (buf.reverse.takeWhile (!isRecordEnd ·)).reverse

/-- How much of a buffer is handed over; nothing where it has to be carried on. -/
def cutOf (chunk : Nat) (buf : Bytes) : Option Nat :=
  if (unended buf).length < buf.length then some (buf.length - (unended buf).length)
  else if buf.length < chunk then none
  else some buf.length

/-- The buffers of a reading, and what was handed over. -/
structure Scan where
  buffers : List Bytes := []
  ranges : List Bytes := []

def flush (carry : Bytes) : Scan := { ranges := if carry = [] then [] else [carry] }

def Scan.before (buffer range : Bytes) (s : Scan) : Scan := ⟨buffer :: s.buffers, range :: s.ranges⟩

/-- `fh.read(asked)`, of which `short` says how much comes. -/
def read (short asked : Nat) (left : Bytes) : Bytes := left.take (max 1 (min short asked))

/-- The loop: `left` is what the file still gives, `short` how much comes of each read. -/
def scan (chunk : Nat) (remaining : Nat) (left carry : Bytes) (short : Nat → Nat) : Scan :=
  if remaining = 0 then flush carry
  else
    let raw := read (short 0) (min chunk remaining) left
    if raw = [] then flush carry
    else
      let buf := carry ++ raw
      let next := fun n => short (n + 1)
      match cutOf chunk buf with
      | none =>
        let rest := scan chunk (remaining - raw.length) (left.drop raw.length) buf next
        { rest with buffers := buf :: rest.buffers }
      | some cut => (scan chunk (remaining - raw.length) (left.drop raw.length) (buf.drop cut) next).before buf (buf.take cut)
termination_by remaining
decreasing_by
  · exact Nat.sub_lt (Nat.pos_of_ne_zero ‹_›) (List.length_pos_of_ne_nil ‹_›)
  · exact Nat.sub_lt (Nat.pos_of_ne_zero ‹_›) (List.length_pos_of_ne_nil ‹_›)

/-- `bytes.decode("utf-8", "replace")` -/
def decoded (bytes : Bytes) : List Char := Tools.utf8 (bytes.map UInt8.toNat)

/-- The reading of a file of `size` bytes that gives `bytes` from its floor on. -/
def stageScan (size floor : Nat) (windows : Option Int) (bytes : Bytes) (short : Nat → Nat) : Scan :=
  let region := size - floor
  if region = 0 then {} else scan (chunkOf region (wanted windows)) region bytes [] short

def readStageTrajectory (size floor : Nat) (windows : Option Int) (bytes : Bytes) (short : Nat → Nat) : Trajectory :=
  if size - floor = 0 then {}
  else summarizeTrajectory ((stageScan size floor windows bytes short).ranges.filterMap fun range => summarizeLossWindow (decoded range))

end LoopLab.Engine.StageLog
