import LoopLab.Log.Codec

/-!
# The lines of a trace

The scanner reads a stream chunk by chunk and keeps at most one unfinished line. It stops for good before a line that is
too long.
-/

set_option autoImplicit false

namespace LoopLab.Trace
open LoopLab.Lib

/-- What is left of a stream, and how many bytes each of the coming reads gives at most. -/
structure Stream where
  content : Bytes
  short : Nat → Nat

/-- `stream.read(request)`: some bytes as long as there are any. -/
def Stream.read (s : Stream) (request : Nat) : Bytes × Stream :=
  let n := max 1 (min request (s.short 0))
  (s.content.take n, ⟨s.content.drop n, fun i => s.short (i + 1)⟩)

/-- What the scanner does: it holds an unfinished line, finishes the one it holds, and yields a line. -/
inductive Mark
  | held (pending : Bytes)
  | finished (pending : Bytes)
  | yielded (raw : Bytes)
  deriving DecidableEq

inductive Stop
  | returned
  | shortRead
  | oversizedRead
  | badBounds
  deriving DecidableEq

/-- The loop over one chunk; `none` where a line is too long. -/
def scanChunk (ceiling : Nat) (pending chunk : Bytes) : List Mark × Option Bytes :=
  if chunk = [] then ([], some pending)
  else
    let segment := chunk.takeWhile (· ≠ newline)
    match _h : chunk.dropWhile (· ≠ newline) with
    | [] =>
      if ceiling ≤ pending.length + segment.length then ([], none)
      else ([.held (pending ++ segment)], some (pending ++ segment))
    | _ :: after =>
      if ceiling < pending.length + segment.length + 1 then ([], none)
      else
        let raw := pending ++ (segment ++ [newline])
        let (marks, left) := scanChunk ceiling [] after
        ((if pending = [] then [.yielded raw] else [.finished raw, .yielded raw]) ++ marks, left)
termination_by chunk.length
decreasing_by
  have hlen := (List.dropWhile_sublist (· ≠ newline) (l := chunk)).length_le
  rw [_h, List.length_cons] at hlen
  omega

/-- `request` -/
def requested (chunkSize : Nat) : Option Nat → Nat
  | none => chunkSize
  | some n => min chunkSize n

/-- The loop over the reads; `remaining` is what is left of a declared size. -/
def scanReads (ceiling chunkSize : Nat) (s : Stream) (remaining : Option Nat) (pending : Bytes) : List Mark × Stop :=
  if remaining = some 0 then ([], .returned)
  else
    let request := requested chunkSize remaining
    let chunk := (s.read request).1
    if _hchunk : chunk = [] then ([], if remaining.isSome then .shortRead else .returned)
    else if request < chunk.length then ([], .oversizedRead)
    else
      match scanChunk ceiling pending chunk with
      | (marks, none) => (marks, .returned)
      | (marks, some pending) =>
        let (more, stop) :=
          scanReads ceiling chunkSize (s.read request).2 (remaining.map (· - chunk.length)) pending
        (marks ++ more, stop)
termination_by s.content.length
decreasing_by
  have hne : s.content ≠ [] := by
    intro heq
    apply _hchunk
    simp only [chunk, Stream.read, heq, List.take_nil]
  have hpos := List.length_pos_iff.mpr hne
  simp only [Stream.read, List.length_drop]
  omega

def iterBoundedTraceJsonlLines (s : Stream) (size : Option Int) (maxLineBytes readChunkBytes : Int) :
    List Mark × Stop :=
  if maxLineBytes < 2 ∨ readChunkBytes < 1 then ([], .badBounds)
  else scanReads maxLineBytes.toNat readChunkBytes.toNat s (size.map Int.toNat) []

def Mark.line? : Mark → Option Bytes
  | .yielded raw => some raw
  | _ => none

end LoopLab.Trace
