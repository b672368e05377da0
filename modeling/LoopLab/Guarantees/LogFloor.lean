import LoopLab.Engine.LogFloor
import LoopLab.Lib.Custody
import Mathlib.Tactic.Common

/-!
# A monitor and the bytes of the attempt before

The files of a workdir are followed from the snapshot on, each with what it held then and how much of that it still
holds.
-/

set_option autoImplicit false

namespace LoopLab.Engine.LogFloor
open Lib

/-- A file with what it held at the snapshot, and how many of these bytes it still begins with. -/
structure Tracked where
  file : LogFile
  old : Bytes
  kept : Nat

def Tracked.append (t : Tracked) (data : Bytes) : Tracked :=
  { t with file := { t.file with content := t.file.content ++ data } }

def Tracked.truncate (t : Tracked) (n : Nat) : Tracked :=
  { t with file := { t.file with content := t.file.content.take n }, kept := min t.kept n }

/-- The log files of a workdir by path, and the identities given out so far. -/
structure Workdir where
  files : Dict String Tracked
  used : List (Option (Int × Int))

/-- The workdir at the snapshot. -/
def Workdir.start (files : Dict String LogFile) : Workdir where
  files := Table.image files Prod.fst (fun r => (r.1, ⟨r.2, r.2.content, r.2.content.length⟩)) fun _ => rfl
  used := files.rows.map (·.2.identity)

/-- What happens to the log files. -/
inductive Change where
  | append (path : String) (data : Bytes)
  | truncate (path : String) (n : Nat)
  | create (path : String) (file : LogFile)
  | rename (src dst : String)

/-- A new file is empty, has an identity of its own and takes no name in use. -/
def Workdir.Allows (w : Workdir) : Change → Prop
  | .create path file => w.files.get path = none ∧ file.content = [] ∧ file.inode ≠ 0 ∧ file.identity ∉ w.used
  | _ => True

def Workdir.change (w : Workdir) : Change → Workdir
  | .append path data =>
    match w.files.get path with
    | some t => { w with files := w.files.set path (t.append data) }
    | none => w
  | .truncate path n =>
    match w.files.get path with
    | some t => { w with files := w.files.set path (t.truncate n) }
    | none => w
  | .create path file => { files := w.files.set path ⟨file, [], 0⟩, used := file.identity :: w.used }
  | .rename src dst =>
    match w.files.get src with
    | some t => { w with files := Dict.set (Table.erase w.files src) dst t }
    | none => w

/-- The workdirs reached by changes that a condition holds of. -/
inductive Reached (P : Workdir → Change → Prop) (files : Dict String LogFile) : Workdir → Prop
  | start : Reached P files (.start files)
  | change {w : Workdir} {c : Change} : Reached P files w → w.Allows c → P w c → Reached P files (w.change c)

/-- The files of the snapshot have identities, and no two the same. -/
structure Stable (files : Dict String LogFile) : Prop where
  identified : ∀ r ∈ files.rows, r.2.inode ≠ 0
  distinct : ∀ r ∈ files.rows, ∀ r' ∈ files.rows, r.2.identity = r'.2.identity → r = r'

section Floor
variable {files : Dict String LogFile} {w : Workdir} {path : String} {t : Tracked}

structure Tracked.Ok (files : Dict String LogFile) (t : Tracked) : Prop where
  identified : t.file.inode ≠ 0
  origin : (∃ r ∈ files.rows, r.2.identity = t.file.identity ∧ t.old = r.2.content) ∨
    ((∀ r ∈ files.rows, r.2.identity ≠ t.file.identity) ∧ t.old = [])
  within : t.kept ≤ t.old.length
  begins : t.file.content.take t.kept = t.old.take t.kept

structure Workdir.Ok (files : Dict String LogFile) (w : Workdir) : Prop where
  tracked : ∀ path t, w.files.get path = some t → t.Ok files
  used : ∀ r ∈ files.rows, r.2.identity ∈ w.used

theorem Tracked.Ok.append (h : t.Ok files) (data : Bytes) : (t.append data).Ok files := by
  refine ⟨h.identified, h.origin, h.within, ?_⟩
  have hlen : t.kept ≤ t.file.content.length := by
    have hlen := congrArg List.length h.begins
    rw [List.length_take, List.length_take, Nat.min_eq_left h.within] at hlen
    omega
  show (t.file.content ++ data).take t.kept = _
  rw [List.take_append_of_le_length hlen]
  exact h.begins

theorem Tracked.Ok.truncate (h : t.Ok files) (n : Nat) : (t.truncate n).Ok files := by
  refine ⟨h.identified, h.origin, (Nat.min_le_left t.kept n).trans h.within, ?_⟩
  show (t.file.content.take n).take (min t.kept n) = t.old.take (min t.kept n)
  rw [List.take_take, Nat.min_assoc, Nat.min_self, Nat.min_comm, ← List.take_take, h.begins, List.take_take]

theorem Workdir.Ok.start (hstable : Stable files) : (Workdir.start files).Ok files := by
  constructor
  · intro path t hget
    have himage : (Table.get (Workdir.start files).files path).map Prod.snd = some t := hget
    unfold Workdir.start at himage
    rw [Table.get_image, Option.map_map] at himage
    obtain ⟨r, hr, rfl⟩ := Option.map_eq_some_iff.mp himage
    have hmem := Table.mem_of_get hr
    exact ⟨hstable.identified r hmem, Or.inl ⟨r, hmem, rfl, rfl⟩, le_rfl, rfl⟩
  · intro r hr
    exact List.mem_map_of_mem hr

theorem get_change {c : Change} {p : String} {u : Tracked} (h : (w.change c).files.get p = some u) :
    w.files.get p = some u ∨
    (∃ data t, c = .append p data ∧ w.files.get p = some t ∧ u = t.append data) ∨
    (∃ n t, c = .truncate p n ∧ w.files.get p = some t ∧ u = t.truncate n) ∨
    (∃ file, c = .create p file ∧ u = ⟨file, [], 0⟩) ∨
    ∃ src, c = .rename src p ∧ w.files.get src = some u := by
  cases c with
  | append path data =>
    simp only [Workdir.change] at h
    cases hget : w.files.get path with
    | none =>
      rw [hget] at h
      exact Or.inl h
    | some t =>
      rw [hget] at h
      simp only [Dict.get_set] at h
      split at h
      · rename_i heq
        subst heq
        exact Or.inr (Or.inl ⟨data, t, rfl, hget, (Option.some.inj h).symm⟩)
      · exact Or.inl h
  | truncate path n =>
    simp only [Workdir.change] at h
    cases hget : w.files.get path with
    | none =>
      rw [hget] at h
      exact Or.inl h
    | some t =>
      rw [hget] at h
      simp only [Dict.get_set] at h
      split at h
      · rename_i heq
        subst heq
        exact Or.inr (Or.inr (Or.inl ⟨n, t, rfl, hget, (Option.some.inj h).symm⟩))
      · exact Or.inl h
  | create path file =>
    simp only [Workdir.change, Dict.get_set] at h
    split at h
    · rename_i heq
      subst heq
      exact Or.inr (Or.inr (Or.inr (Or.inl ⟨file, rfl, (Option.some.inj h).symm⟩)))
    · exact Or.inl h
  | rename src dst =>
    simp only [Workdir.change] at h
    cases hget : w.files.get src with
    | none =>
      rw [hget] at h
      exact Or.inl h
    | some t =>
      rw [hget] at h
      simp only [Dict.get_set] at h
      split at h
      · rename_i heq
        subst heq
        exact Or.inr (Or.inr (Or.inr (Or.inr ⟨src, rfl, hget.trans h⟩)))
      · rw [Dict.get_erase] at h
        split at h
        · cases h
        · exact Or.inl h

theorem mem_used_change {c : Change} {i : Option (Int × Int)} (h : i ∈ w.used) : i ∈ (w.change c).used := by
  cases c with
  | create path file => exact List.mem_cons_of_mem _ h
  | append path data =>
    simp only [Workdir.change]
    split <;> exact h
  | truncate path n =>
    simp only [Workdir.change]
    split <;> exact h
  | rename src dst =>
    simp only [Workdir.change]
    split <;> exact h

theorem Workdir.Ok.change (h : w.Ok files) {c : Change} (hallows : w.Allows c) : (w.change c).Ok files := by
  constructor
  · intro p u hu
    rcases get_change hu with hget | ⟨data, t, rfl, hget, rfl⟩ | ⟨n, t, rfl, hget, rfl⟩ | ⟨file, rfl, rfl⟩ |
      ⟨src, rfl, hget⟩
    · exact h.tracked p u hget
    · exact (h.tracked p t hget).append data
    · exact (h.tracked p t hget).truncate n
    · obtain ⟨-, -, hinode, hfresh⟩ := hallows
      exact ⟨hinode, Or.inr ⟨fun r hr heq => hfresh (heq ▸ h.used r hr), rfl⟩, le_rfl, rfl⟩
    · exact h.tracked src u hget
  · intro r hr
    exact mem_used_change (h.used r hr)

theorem Reached.ok {P : Workdir → Change → Prop} (hstable : Stable files) (h : Reached P files w) : w.Ok files := by
  induction h with
  | start => exact .start hstable
  | change _ hallows _ ih => exact ih.change hallows

/-- The snapshot of the files. -/
def snapshotOf (files : Dict String LogFile) : TrainingLogSnapshot :=
  snapshotTrainingLogs (some (Table.image files Prod.fst (fun r => (r.1, some r.2)) fun _ => rfl))

/-- The file stands under the name that another one had at the snapshot. -/
def Displaced (files : Dict String LogFile) (path : String) (t : Tracked) : Prop :=
  ∃ file, files.get path = some file ∧ file.identity ≠ t.file.identity

/-- A file that was cut and has grown to its old size again shows other bytes where the probe was taken. -/
def Regrown (t : Tracked) : Prop :=
  t.kept < t.old.length → t.old.length ≤ t.file.content.length →
    t.file.read (t.old.length - cursorProbeBytes) (t.old.drop (t.old.length - cursorProbeBytes)).length ≠
      t.old.drop (t.old.length - cursorProbeBytes)

theorem get_snapshotOf (files : Dict String LogFile) (path : String) :
    (snapshotOf files).cursors.get path = (files.get path).map fun file => cursorOf (some file) := by
  unfold snapshotOf snapshotTrainingLogs Dict.get
  simp only [Table.get_image, Option.map_map]
  rfl

theorem rows_snapshotOf (files : Dict String LogFile) :
    (snapshotOf files).cursors.rows.map Prod.snd = files.rows.map fun r => cursorOf (some r.2) := by
  unfold snapshotOf snapshotTrainingLogs Table.image
  simp only [List.map_map]
  rfl

theorem identity_isSome {file : LogFile} (h : file.inode ≠ 0) : file.identity = some (file.device, file.inode) :=
  if_neg h

theorem floorAt_cursorOf (current file : LogFile) (h : file.inode ≠ 0) (h' : current.inode ≠ 0) :
    current.floorAt (cursorOf (some file)) =
      some (if file.identity = current.identity ∧ file.content.length ≤ current.content.length ∧
        current.read (file.content.length - cursorProbeBytes)
          (file.content.length - (file.content.length - cursorProbeBytes)) =
            file.content.drop (file.content.length - cursorProbeBytes)
        then file.content.length else 0) := by
  have hsome : file.identity.isSome = true := by rw [identity_isSome h]; rfl
  have hsome' : current.identity.isSome = true := by rw [identity_isSome h']; rfl
  unfold LogFile.floorAt cursorOf
  simp only [hsome, hsome', List.length_drop, Bool.true_and]
  by_cases hid : file.identity = current.identity
  · by_cases hlen : file.content.length ≤ current.content.length
    · simp [hid, hlen, Nat.not_lt.mpr hlen]
    · simp [hid, hlen, Nat.not_le.mp hlen]
  · simp [hid]

theorem floor_of_cursor (hok : t.Ok files) (hregrown : Regrown t) {file : LogFile} (hfile : file.inode ≠ 0)
    (hsame : file.identity = t.file.identity → t.old = file.content) :
    t.file.floorAt (cursorOf (some file)) =
      some (if file.identity = t.file.identity ∧ t.kept = t.old.length then t.old.length else 0) := by
  rw [floorAt_cursorOf t.file file hfile hok.identified]
  by_cases hid : file.identity = t.file.identity
  · rw [← hsame hid]
    by_cases hkept : t.kept = t.old.length
    · -- only appended to: the old bytes are all there, so the probe stands
      have hall : t.file.content.take t.old.length = t.old := by
        have hbegins := hok.begins
        rw [hkept, List.take_length] at hbegins
        exact hbegins
      have hlen : t.old.length ≤ t.file.content.length := by
        have hlen := congrArg List.length hall
        rw [List.length_take] at hlen
        omega
      have hprobe : t.file.read (t.old.length - cursorProbeBytes) (t.old.length - (t.old.length - cursorProbeBytes)) =
          t.old.drop (t.old.length - cursorProbeBytes) := by
        unfold LogFile.read
        rw [← List.drop_take, hall]
      rw [if_pos ⟨hid, hlen, hprobe⟩, if_pos ⟨hid, hkept⟩]
    · have hlt : t.kept < t.old.length := lt_of_le_of_ne hok.within hkept
      have hnot : ¬(file.identity = t.file.identity ∧ t.old.length ≤ t.file.content.length ∧
          t.file.read (t.old.length - cursorProbeBytes) (t.old.length - (t.old.length - cursorProbeBytes)) =
            t.old.drop (t.old.length - cursorProbeBytes)) := by
        rintro ⟨-, hlen, hprobe⟩
        apply hregrown hlt hlen
        rw [List.length_drop]
        exact hprobe
      rw [if_neg hnot, if_neg fun h => hkept h.2]
  · rw [if_neg fun h => hid h.1, if_neg fun h => hid h.1]

/-! The cursor of a file. -/

theorem cursorIn_known {file current : LogFile} (h : files.get path = some file) :
    current.cursorIn path (snapshotOf files) = some (cursorOf (some file)) := by
  unfold LogFile.cursorIn
  rw [get_snapshotOf, h]
  rfl

theorem cursorIn_renamed {current : LogFile} (h : files.get path = none) (hinode : current.inode ≠ 0)
    {r : String × LogFile} (hr : r ∈ files.rows) (hid : r.2.identity = current.identity) :
    ∃ r' ∈ files.rows, r'.2.identity = current.identity ∧
      current.cursorIn path (snapshotOf files) = some (cursorOf (some r'.2)) := by
  unfold LogFile.cursorIn
  rw [get_snapshotOf, rows_snapshotOf, h, identity_isSome hinode]
  have hfound : ((files.rows.map fun r => cursorOf (some r.2)).find?
      (·.identity = some (current.device, current.inode))).isSome = true := by
    rw [List.find?_isSome]
    exact ⟨cursorOf (some r.2), List.mem_map_of_mem hr, decide_eq_true (hid.trans (identity_isSome hinode))⟩
  obtain ⟨cursor, hcursor⟩ := Option.isSome_iff_exists.mp hfound
  obtain ⟨r', hr', rfl⟩ := List.mem_map.mp (List.mem_of_find?_eq_some hcursor)
  have hid' := List.find?_some hcursor
  refine ⟨r', hr', of_decide_eq_true hid', ?_⟩
  simp only [Option.map_none, Option.none_or, Option.isSome_some, if_true, hcursor, Option.some_or]

theorem cursorIn_new {current : LogFile} (hnew : ∀ r ∈ files.rows, r.2.identity ≠ current.identity)
    (h : files.get path = none) :
    current.cursorIn path (snapshotOf files) = none ∨
      ∃ r ∈ files.rows, current.cursorIn path (snapshotOf files) = some (cursorOf (some r.2)) := by
  unfold LogFile.cursorIn
  rw [get_snapshotOf, rows_snapshotOf, h]
  have hnone : (files.rows.map fun r => cursorOf (some r.2)).find? (·.identity = current.identity) = none := by
    rw [List.find?_eq_none]
    intro cursor hcursor
    obtain ⟨r, hr, rfl⟩ := List.mem_map.mp hcursor
    exact fun hid => hnew r hr (of_decide_eq_true hid)
  simp only [Option.map_none, Option.none_or, hnone, ite_self]
  cases hshown : (files.rows.map fun r => cursorOf (some r.2)).find? current.shows with
  | none => exact Or.inl rfl
  | some cursor =>
    obtain ⟨r, hr, rfl⟩ := List.mem_map.mp (List.mem_of_find?_eq_some hshown)
    exact Or.inr ⟨r, hr, rfl⟩

theorem floor_eq (hstable : Stable files) (hok : t.Ok files) (hregrown : Regrown t) :
    (¬Displaced files path t → t.kept = t.old.length →
      attemptByteFloor t.file path (some (snapshotOf files)) = some t.old.length) ∧
    (Displaced files path t ∨ t.kept ≠ t.old.length →
      attemptByteFloor t.file path (some (snapshotOf files)) = some 0) := by
  have hsame {r : String × LogFile} (hr : r ∈ files.rows) (hid : r.2.identity = t.file.identity) :
      t.old = r.2.content := by
    rcases hok.origin with ⟨r', hr', hid', hold⟩ | ⟨hnone, -⟩
    · rw [hold, hstable.distinct r hr r' hr' (hid.trans hid'.symm)]
    · exact absurd hid (hnone r hr)
  have hfrom {r : String × LogFile} (hr : r ∈ files.rows)
      (hcursor : t.file.cursorIn path (snapshotOf files) = some (cursorOf (some r.2))) :
      attemptByteFloor t.file path (some (snapshotOf files)) =
        some (if r.2.identity = t.file.identity ∧ t.kept = t.old.length then t.old.length else 0) := by
    rw [← floor_of_cursor hok hregrown (hstable.identified r hr) (hsame hr)]
    unfold attemptByteFloor
    simp only [hcursor]
    rfl
  cases hget : files.get path with
  | some file =>
    -- the name was in use: its cursor decides
    have hmem : (path, file) ∈ files.rows := Dict.mem_rows.mpr hget
    have hdisplaced : Displaced files path t ↔ file.identity ≠ t.file.identity := by
      unfold Displaced
      rw [hget]
      simp
    rw [hfrom hmem (cursorIn_known hget), hdisplaced]
    constructor
    · intro hid hkept
      rw [if_pos ⟨not_not.mp hid, hkept⟩]
    · rintro (hid | hkept)
      · rw [if_neg fun h => hid h.1]
      · rw [if_neg fun h => hkept h.2]
  | none =>
    have hdisplaced : ¬Displaced files path t := by
      rintro ⟨file, hfile, -⟩
      rw [hget] at hfile
      cases hfile
    rcases hok.origin with ⟨r, hr, hid, -⟩ | ⟨hnew, hold⟩
    · -- a renamed file: its own cursor decides
      obtain ⟨r', hr', hid', hcursor⟩ := cursorIn_renamed hget hok.identified hr hid
      rw [hfrom hr' hcursor]
      constructor
      · intro _ hkept
        rw [if_pos ⟨hid', hkept⟩]
      · rintro (hd | hkept)
        · exact absurd hd hdisplaced
        · rw [if_neg fun h => hkept h.2]
    · -- a new file: a cursor found by its last bytes is that of another file
      have hzero : attemptByteFloor t.file path (some (snapshotOf files)) = some 0 := by
        rcases cursorIn_new hnew hget with hcursor | ⟨r, hr, hcursor⟩
        · unfold attemptByteFloor
          simp only [hcursor]
          rfl
        · rw [hfrom hr hcursor, if_neg fun h => hnew r hr h.1]
      rw [hzero, hold]
      exact ⟨fun _ _ => rfl, fun _ => rfl⟩

end Floor

/-! ## The condition -/

section Condition
variable {files : Dict String LogFile} {w : Workdir} {path : String} {t : Tracked}

/-- The floor admits no byte of the attempt before, and of a file that was only appended to every new one. -/
structure FloorRight (files : Dict String LogFile) (path : String) (t : Tracked) : Prop where
  above : ∀ o, attemptByteFloor t.file path (some (snapshotOf files)) = some o → t.kept ≤ o
  exact : t.kept = t.old.length → attemptByteFloor t.file path (some (snapshotOf files)) = some t.old.length

/-- A file that holds all its old bytes has none, or does not stand under another's name; one that was cut has
none left. -/
def Traceable (files : Dict String LogFile) (path : String) (t : Tracked) : Prop :=
  (t.kept = t.old.length → t.old = [] ∨ ¬Displaced files path t) ∧ (t.kept ≠ t.old.length → t.kept = 0)

theorem floorRight_iff (hstable : Stable files) (hok : t.Ok files) (hregrown : Regrown t) :
    FloorRight files path t ↔ Traceable files path t := by
  obtain ⟨hown, hzero⟩ := @floor_eq files path t hstable hok hregrown
  constructor
  · rintro ⟨habove, hexact⟩
    refine ⟨fun hkept => ?_, fun hkept => ?_⟩
    · by_cases hd : Displaced files path t
      · have hlen := (hexact hkept).symm.trans (hzero (Or.inl hd))
        exact Or.inl (List.length_eq_zero_iff.mp (Option.some.inj hlen))
      · exact Or.inr hd
    · exact Nat.le_zero.mp (habove 0 (hzero (Or.inr hkept)))
  · rintro ⟨hall, hcut⟩
    by_cases hkept : t.kept = t.old.length
    · have hfloor : attemptByteFloor t.file path (some (snapshotOf files)) = some t.old.length := by
        by_cases hd : Displaced files path t
        · rcases hall hkept with hnil | hnot
          · rw [hzero (Or.inl hd), hnil]
            rfl
          · exact absurd hd hnot
        · exact hown hd hkept
      refine ⟨fun o ho => ?_, fun _ => hfloor⟩
      rw [hfloor] at ho
      exact Option.some.inj ho ▸ hok.within
    · refine ⟨fun o _ => ?_, fun h => absurd h hkept⟩
      rw [hcut hkept]
      exact Nat.zero_le o

/-- No file with old bytes is renamed onto the name another file had, and a cut leaves all old bytes or none. -/
def Careful (files : Dict String LogFile) (w : Workdir) : Change → Prop
  | .rename src dst => ∀ t, w.files.get src = some t → t.kept = 0 ∨ ¬Displaced files dst t
  | .truncate path n => ∀ t, w.files.get path = some t → n = 0 ∨ t.kept ≤ n
  | _ => True

theorem Traceable.start (hstable : Stable files) (hget : (Workdir.start files).files.get path = some t) :
    Traceable files path t := by
  have himage : (Table.get (Workdir.start files).files path).map Prod.snd = some t := hget
  unfold Workdir.start at himage
  rw [Table.get_image, Option.map_map] at himage
  obtain ⟨r, hr, rfl⟩ := Option.map_eq_some_iff.mp himage
  refine ⟨fun _ => Or.inr ?_, fun h => absurd rfl h⟩
  rintro ⟨file, hfile, hne⟩
  have hrow : files.get path = some r.2 := by
    unfold Dict.get
    rw [hr]
    rfl
  rw [hrow] at hfile
  obtain rfl := Option.some.inj hfile
  exact hne rfl

theorem Traceable.append {data : Bytes} (h : Traceable files path t) : Traceable files path (t.append data) := h

theorem Traceable.truncate {n : Nat} (h : Traceable files path t) (hn : n = 0 ∨ t.kept ≤ n) :
    Traceable files path (t.truncate n) := by
  rcases hn with rfl | hle
  · have hzero : (t.truncate 0).kept = 0 := Nat.min_zero t.kept
    refine ⟨fun hkept => Or.inl ?_, fun _ => hzero⟩
    rw [hzero] at hkept
    exact List.length_eq_zero_iff.mp hkept.symm
  · have hsame : (t.truncate n).kept = t.kept := Nat.min_eq_left hle
    unfold Traceable
    rw [hsame]
    exact h

theorem Traceable.rename {dst : String} (h : Traceable files path t) (hmove : t.kept = 0 ∨ ¬Displaced files dst t) :
    Traceable files dst t := by
  refine ⟨fun hkept => ?_, h.2⟩
  rcases hmove with hzero | hnot
  · rw [hzero] at hkept
    exact Or.inl (List.length_eq_zero_iff.mp hkept.symm)
  · exact Or.inr hnot

theorem traceable_change (h : ∀ path t, w.files.get path = some t → Traceable files path t) {c : Change}
    (hc : Careful files w c) (p : String) (u : Tracked) (hchanged : (w.change c).files.get p = some u) :
    Traceable files p u := by
  rcases get_change hchanged with hget | ⟨data, t, rfl, hget, rfl⟩ | ⟨n, t, rfl, hget, rfl⟩ | ⟨file, rfl, rfl⟩ |
    ⟨src, rfl, hget⟩
  · exact h p u hget
  · exact (h p t hget).append
  · exact (h p t hget).truncate (hc t hget)
  · exact ⟨fun _ => Or.inl rfl, fun _ => rfl⟩
  · exact (h src u hget).rename (hc u hget)

/-- In every workdir reached, the floors of the files are right exactly where all can be traced; and they are in
every workdir that careful changes reach. -/
theorem floor_admits_new_bytes (hstable : Stable files) :
    (∀ w, Reached (fun _ _ => True) files w → (∀ path t, w.files.get path = some t → Regrown t) →
      ((∀ path t, w.files.get path = some t → FloorRight files path t) ↔
        ∀ path t, w.files.get path = some t → Traceable files path t)) ∧
    ∀ w, Reached (Careful files) files w → (∀ path t, w.files.get path = some t → Regrown t) →
      ∀ path t, w.files.get path = some t → FloorRight files path t := by
  constructor
  · intro w hw hregrown
    have hright (path : String) (t : Tracked) (hget : w.files.get path = some t) :=
      @floorRight_iff files path t hstable ((hw.ok hstable).tracked path t hget) (hregrown path t hget)
    constructor
    · intro h path t hget
      exact (hright path t hget).mp (h path t hget)
    · intro h path t hget
      exact (hright path t hget).mpr (h path t hget)
  · intro w hw hregrown path t hget
    have htrace : ∀ path t, w.files.get path = some t → Traceable files path t := by
      clear hregrown hget
      induction hw with
      | start => exact fun path t hget => .start hstable hget
      | change _ _ hc ih => exact traceable_change ih hc
    have hok := (hw.ok hstable).tracked path t hget
    exact (floorRight_iff hstable hok (hregrown path t hget)).mpr (htrace path t hget)

end Condition

/-- Two logs before an attempt. -/
def twoLogs : Dict String LogFile :=
  Dict.set (Dict.set Table.empty "eval.log" ⟨1, 2, [50]⟩) "train.log" ⟨1, 1, [49]⟩

theorem twoLogs_stable : Stable twoLogs := by
  have hrows : twoLogs.rows = [("eval.log", ⟨1, 2, [50]⟩), ("train.log", ⟨1, 1, [49]⟩)] := rfl
  constructor
  · rw [hrows]
    decide
  · rw [hrows]
    intro r hr r' hr' hid
    simp only [List.mem_cons, List.not_mem_nil, or_false] at hr hr'
    rcases hr with rfl | rfl <;> rcases hr' with rfl | rfl
    · rfl
    · exact absurd hid (by decide)
    · exact absurd hid (by decide)
    · rfl

def rotatedOnto : Workdir := (Workdir.start twoLogs).change (.rename "train.log" "eval.log")

/-- Renamed onto the other, the first log is read from its start. -/
theorem rotated_log_is_read_again :
    ¬∀ files, Stable files → ∀ w, Reached (fun _ _ => True) files w →
      (∀ path t, w.files.get path = some t → Regrown t) →
        ∀ path t, w.files.get path = some t → FloorRight files path t := by
  intro h
  have hreached : Reached (fun _ _ => True) twoLogs rotatedOnto := .change .start trivial trivial
  have hrows : rotatedOnto.files.rows = [("eval.log", ⟨⟨1, 1, [49]⟩, [49], 1⟩)] := rfl
  have hget : rotatedOnto.files.get "eval.log" = some ⟨⟨1, 1, [49]⟩, [49], 1⟩ := rfl
  have hregrown (path : String) (t : Tracked) (hfile : rotatedOnto.files.get path = some t) : Regrown t := by
    have hmem := Dict.mem_rows.mpr hfile
    rw [hrows, List.mem_singleton] at hmem
    obtain ⟨-, rfl⟩ := Prod.mk.inj hmem
    intro hlt
    exact absurd hlt (by decide)
  have hright := h twoLogs twoLogs_stable rotatedOnto hreached hregrown "eval.log" _ hget
  exact absurd (hright.above 0 rfl) (by decide)

/-- The floors over these two logs. -/
theorem twoLogs_floors :
    Stable twoLogs ∧ ∀ w, Reached (Careful twoLogs) twoLogs w →
      (∀ path t, w.files.get path = some t → Regrown t) →
        ∀ path t, w.files.get path = some t → FloorRight twoLogs path t :=
  ⟨twoLogs_stable, (floor_admits_new_bytes twoLogs_stable).2⟩

end LoopLab.Engine.LogFloor
