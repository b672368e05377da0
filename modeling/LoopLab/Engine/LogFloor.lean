import LoopLab.Log.Codec

/-!
# Where an attempt's bytes begin in a training log

Before an attempt every log file is noted with its size, its identity and its last bytes.
-/

set_option autoImplicit false

namespace LoopLab.Engine.LogFloor
open Lib

structure LogFile where
  device : Int
  inode : Int
  content : Bytes

/-- `_file_identity`: a file system without inodes proves no identity. -/
def LogFile.identity (file : LogFile) : Option (Int × Int) :=
  if file.inode = 0 then none else some (file.device, file.inode)

structure TrainingLogCursor where
  offset : Option Nat
  identity : Option (Int × Int)
  probeStart : Nat := 0
  probe : Option Bytes := none

structure TrainingLogSnapshot where
  cursors : Dict String TrainingLogCursor
  complete : Bool := true

/-- `_CURSOR_PROBE_BYTES` -/
def cursorProbeBytes : Nat := 64

def cursorOf : Option LogFile → TrainingLogCursor
  | some file =>
    let size := file.content.length
    let probeStart := size - cursorProbeBytes
    { offset := some size, identity := file.identity, probeStart, probe := some (file.content.drop probeStart) }
  | none => { offset := none, identity := none }

/-- `snapshot_training_logs`, over the log files of the workdir by path; the workdir itself may be unreadable. -/
def snapshotTrainingLogs (paths : Option (Dict String (Option LogFile))) : TrainingLogSnapshot :=
  match paths with
  | some paths => { cursors := Table.image paths Prod.fst (fun r => (r.1, cursorOf r.2)) fun _ => rfl }
  | none => { cursors := Table.empty, complete := false }

/-- `fh.seek(start)`, then `fh.read(n)` -/
def LogFile.read (file : LogFile) (start n : Nat) : Bytes := (file.content.drop start).take n

def LogFile.shows (file : LogFile) (cursor : TrainingLogCursor) : Bool :=
  match cursor.offset, cursor.probe with
  | some offset, some probe =>
    offset ≤ file.content.length && file.read cursor.probeStart probe.length = probe
  | _, _ => false

/-- The cursor of the file: by its path, by its identity after a rename, and by its last bytes at the end. -/
def LogFile.cursorIn (file : LogFile) (path : String) (snapshot : TrainingLogSnapshot) : Option TrainingLogCursor :=
  let old := snapshot.cursors.rows.map Prod.snd
  let cursor := snapshot.cursors.get path
  let cursor := cursor.or (if file.identity.isSome then old.find? (·.identity = file.identity) else none)
  cursor.or (old.find? file.shows)

def LogFile.floorAt (file : LogFile) (cursor : TrainingLogCursor) : Option Nat :=
  match cursor.offset, cursor.probe with
  | some offset, some probe =>
    let replaced := cursor.identity.isSome && file.identity.isSome && cursor.identity ≠ file.identity
    let truncated := decide (file.content.length < offset)
    let boundaryChanged := !replaced && !truncated && file.read cursor.probeStart probe.length ≠ probe
    some (if replaced || truncated || boundaryChanged then 0 else offset)
  | _, _ => none

def attemptByteFloor (file : LogFile) (path : String) (snapshot : Option TrainingLogSnapshot) : Option Nat :=
  match snapshot with
  | none => some 0
  | some snapshot =>
    if !snapshot.complete then none else
    match file.cursorIn path snapshot with
    | none => some 0
    | some cursor => file.floorAt cursor

end LoopLab.Engine.LogFloor
