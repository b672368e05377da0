import LoopLab.Log.Repair
import LoopLab.Log.Printer

/-!
# One boundary for all readers, and repair at it

On any bytes whatever, a store, the streaming reader and the divergence walk stop at the same line.
-/

set_option autoImplicit false

namespace LoopLab
open Lib

/-- The events `read_all` returns on a store constructed on these bytes. -/
def readFresh (c : Codec) (disk : Disk) : List Event :=
  ((EventStore.new c disk).readAll c disk).cache

/-- A repair cut the log at its boundary, recorded that, and left nothing to repair. -/
structure RepairOk (c : Codec) (t : RepairMoment) (disk : Disk) : Prop where
  clean : c.logDivergence (repairLog c t disk).disk = none
  recorded : ∃ e : Event, readFresh c (repairLog c t disk).disk = readFresh c disk ++ [e] ∧
    e.type = evLogRepaired ∧ e.seq = (readFresh c disk).length
  backup : (repairLog c t disk).backup = some disk.content
  again : ∀ t', (repairLog c t' (repairLog c t disk).disk).disk = (repairLog c t disk).disk ∧
    (repairLog c t' (repairLog c t disk).disk).backup = none

/-- All readers stop at one boundary, and repair cuts exactly there. -/
structure OneBoundary (c : Codec) (t : RepairMoment) (disk : Disk) : Prop where
  streaming : readFresh c disk = c.decoded (c.iterEventJsonl disk)
  divergence : c.logDivergence disk = none ↔
    ((EventStore.new c disk).readAll c disk).cacheBytes = (join newline disk.complete).length
  good : ∀ d, c.logDivergence disk = some d → d.goodRecords = (readFresh c disk).length
  untouched : c.logDivergence disk = none →
    (repairLog c t disk).disk = disk ∧ (repairLog c t disk).backup = none
  repaired : ∀ d, c.logDivergence disk = some d → RepairOk c t disk

variable {c : Codec} {disk : Disk} {log : List Event} {t : RepairMoment}

theorem readFresh_eq (c : Codec) (disk : Disk) : readFresh c disk = c.readable disk.complete :=
  (Synced.fresh c disk).cache_eq

theorem readFresh_streaming (c : Codec) (disk : Disk) :
    readFresh c disk = c.decoded (c.iterEventJsonl disk) := by
  have hstream : c.iterEventJsonl disk = c.iterEvents (nextSeq []) (c.iterLines disk.complete) := rfl
  have h := Codec.decoded_iterEvents (c := c) disk.complete []
  rw [List.nil_append] at h
  rw [readFresh_eq, hstream, h]
  rfl

theorem readFresh_consumes (c : Codec) (disk : Disk) : c.logDivergence disk = none ↔
    ((EventStore.new c disk).readAll c disk).cacheBytes = (join newline disk.complete).length := by
  obtain ⟨lines, left, hcur⟩ := (Synced.fresh c disk).current
  rw [← hcur.left_eq_nil, hcur.caches.bytes, hcur.complete, join_append, List.length_append]
  constructor
  · rintro rfl
    rfl
  · intro h
    have hz : (join newline left).length = 0 := by omega
    exact join_eq_nil.mp (List.eq_nil_of_length_eq_zero hz)

theorem divergent_split {d : Divergence} (h : c.logDivergence disk = some d) (t : RepairMoment) :
    d.goodRecords = (readFresh c disk).length ∧
      Accepted c (truncatedDisk t d disk) (readFresh c disk) ∧
      (truncatedDisk t d disk).content = join newline (truncatedDisk t d disk).complete := by
  obtain ⟨read, bad, rest, log, hsplit, ht, hbad, hline, hgood⟩ :=
    Codec.logDivergence_eq_some h
  have hlog : readFresh c disk = log := by
    rw [readFresh_eq, Codec.readable, hsplit, ht.scan_append, scan_cons_none hbad]
  have hread : Unbroken newline read := (unbroken_append.mp (hsplit ▸ disk.unbroken)).1
  have hcontent : (truncatedDisk t d disk).content = join newline read := by
    have hp : pieces newline disk.content = read ++ (bad :: rest ++ [(cut newline disk.content).2]) := by
      rw [pieces, ← List.append_assoc, ← hsplit]
      rfl
    have hk : d.corruptLine - 1 = read.length := by omega
    have hkept : keptBytes d disk.content = join newline read := by
      rw [keptBytes, hp, hk, List.take_left]
    exact hkept
  have hcomplete : (truncatedDisk t d disk).complete = read := by
    have := cut_join (t := []) hread List.not_mem_nil
    rw [List.append_nil] at this
    rw [Disk.complete, hcontent, this]
  rw [hlog]
  refine ⟨hgood, ⟨by rwa [hcomplete]⟩, by rw [hcomplete, hcontent]⟩

theorem append_accepted (h : Accepted c disk log)
    (hw : disk.content = join newline disk.complete) {m : Moment} (hm : m.fenced = false)
    (type : String) (data : Obj) (htype : type ≠ eventBatchType) {text : Bytes}
    (ht : c.dumps (.obj (Event.dump { seq := lastSeq log + 1, ts := m.time 0, type, data })) =
      some text) :
    let r := (EventStore.new c disk).append c m type data (some (none, none)) none .lands disk
    (c.diskLastSeq disk = .raises → r.disk = disk ∧ r.outcome = .raised .seqUnreadable) ∧
      (c.diskLastSeq disk ≠ .raises →
        r.outcome = .returned [{ seq := lastSeq log + 1, ts := m.time 0, type, data }] ∧
        Accepted c r.disk (log ++ [{ seq := lastSeq log + 1, ts := m.time 0, type, data }])) := by
  have hnew := Follows.new h
  obtain ⟨hf, _⟩ := hnew.readAll h
  have hseq := readAll_seq hnew h (new_seq h)
  obtain ⟨s', hcur, _⟩ := currentSeq_accepted hf h hw hseq
  have hbuild : c.buildOne m (m.ids (some (none, none))) type data (lastSeq log) =
      .ok (text ++ [newline], lastSeq log + 1,
        [{ seq := lastSeq log + 1, ts := m.time 0, type, data }]) := by
    simp only [Codec.buildOne, Moment.ids, Option.getD_some, ht]
  have happend : (EventStore.new c disk).append c m type data (some (none, none)) none .lands disk =
      (EventStore.new c disk).lockedAppend c m (c.buildOne m (m.ids (some (none, none))) type data)
        none .lands disk := by
    rw [EventStore.append, if_neg htype]
  dsimp only
  rw [happend, EventStore.lockedAppend, if_neg (by simp [hm])]
  simp only [hf.sound, disk.heal_eq m hw, hcur, Option.filter_none]
  constructor
  · intro hraises
    simp only [hraises, if_true]
    exact ⟨trivial, trivial⟩
  · intro hok
    simp only [hok, if_false, hbuild]
    obtain ⟨text', htext, hl⟩ := buildOne_line htype hbuild
    obtain rfl : text = text' := List.append_cancel_right htext
    obtain ⟨heq, _⟩ := disk.written_line m hl.printed.unbroken hw
    exact ⟨rfl, h.line hl heq⟩

theorem repairLog_divergent {d : Divergence} (h : c.logDivergence disk = some d)
    (hf : t.append.fenced = false) {text : Bytes}
    (ht : c.dumps (.obj (repairEvent t d (readFresh c disk)).dump) = some text) :
    (repairLog c t disk).backup = some disk.content ∧
      (c.diskLastSeq (truncatedDisk t d disk) = .raises →
        (repairLog c t disk).disk = truncatedDisk t d disk) ∧
      (c.diskLastSeq (truncatedDisk t d disk) ≠ .raises →
        Accepted c (repairLog c t disk).disk
          (readFresh c disk ++ [repairEvent t d (readFresh c disk)])) := by
  obtain ⟨_, hacc, hw⟩ := divergent_split h t
  obtain ⟨hraises, hok⟩ := append_accepted hacc hw hf evLogRepaired (repairRecord t d)
    (by decide) ht
  have hdisk : (repairLog c t disk).disk = ((EventStore.new c (truncatedDisk t d disk)).append c
      t.append evLogRepaired (repairRecord t d) (some (none, none)) none .lands
      (truncatedDisk t d disk)).disk := by
    rw [repairLog, if_neg (by simp [hf]), h]
    dsimp only
    split <;> rfl
  have hbackup : (repairLog c t disk).backup = some disk.content := by
    rw [repairLog, if_neg (by simp [hf]), h]
    dsimp only
    split <;> rfl
  rw [hdisk]
  exact ⟨hbackup, fun hr => (hraises hr).1, fun hr => (hok hr).2⟩

theorem repairLog_clean (h : c.logDivergence disk = none) (t : RepairMoment) :
    (repairLog c t disk).disk = disk ∧ (repairLog c t disk).backup = none := by
  unfold repairLog
  split
  · exact ⟨rfl, rfl⟩
  · rw [h]
    exact ⟨rfl, rfl⟩

theorem Accepted.readFresh (h : Accepted c disk log) : readFresh c disk = log := by
  rw [readFresh_eq, h.readable]

theorem repairOk_iff {d : Divergence} (h : c.logDivergence disk = some d)
    (hf : t.append.fenced = false) {text : Bytes}
    (ht : c.dumps (.obj (repairEvent t d (LoopLab.readFresh c disk)).dump) = some text) :
    RepairOk c t disk ↔ c.diskLastSeq (truncatedDisk t d disk) ≠ .raises := by
  obtain ⟨hbackup, hraises, hok⟩ := repairLog_divergent h hf ht
  obtain ⟨_, hacc, _⟩ := divergent_split h t
  constructor
  · intro hrepair hr
    obtain ⟨e, hread, _, _⟩ := hrepair.recorded
    rw [hraises hr, hacc.readFresh] at hread
    have hlen := congrArg List.length hread
    rw [List.length_append, List.length_singleton] at hlen
    omega
  · intro hr
    have hafter := hok hr
    refine ⟨hafter.logDivergence, ⟨_, hafter.readFresh, rfl, ?_⟩, hbackup,
      repairLog_clean hafter.logDivergence⟩
    simp only [repairEvent, hacc.dense.lastSeq]
    omega

/-- For every content of the log and every repair that may write and print its record: all readers
stop at one boundary and repair cuts there, exactly when `int` reads the last row in sight of what
the repair keeps. -/
theorem one_boundary_iff (c : Codec) (t : RepairMoment) (disk : Disk)
    (hf : t.append.fenced = false)
    (hs : ∀ d, c.logDivergence disk = some d →
      ∃ text, c.dumps (.obj (repairEvent t d (readFresh c disk)).dump) = some text) :
    OneBoundary c t disk ↔
      ∀ d, c.logDivergence disk = some d → c.diskLastSeq (truncatedDisk t d disk) ≠ .raises := by
  constructor
  · intro hone d h
    obtain ⟨text, ht⟩ := hs d h
    exact (repairOk_iff h hf ht).mp (hone.repaired d h)
  · intro hcond
    refine ⟨readFresh_streaming c disk, readFresh_consumes c disk, ?_,
      fun h => repairLog_clean h t, ?_⟩
    · intro d h
      exact (divergent_split h t).1
    · intro d h
      obtain ⟨text, ht⟩ := hs d h
      exact (repairOk_iff h hf ht).mpr (hcond d h)

/-- Rows of two small logs, the second with a numeral that validation takes and `int` refuses, and the
record of the repair of either. -/
def repairTable : TextTable where
  values := [.obj (Event.dump { seq := 0, type := "a" }),
    .obj [("seq", .str "0.0"), ("type", .str "x")],
    .obj (Event.dump (repairEvent {} ⟨1, 2, 0⟩ [{ seq := 0, type := "a" }]))]
  ok := by decide +kernel

/-- A row and a line that is not JSON. -/
def brokenLog (row : Json) : Disk :=
  some { content := row.print ++ [newline, 98, 97, 100, newline], entry := (1, 1), mtimeNs := 1,
         ctimeNs := 1 }

theorem brokenLog_prints (row : Json) (hd : repairTable.codec.logDivergence (brokenLog row) = some ⟨1, 2, 0⟩)
    (hr : (readFresh repairTable.codec (brokenLog row)).map Event.seq = [0]) :
    ∀ d, repairTable.codec.logDivergence (brokenLog row) = some d →
      ∃ text, repairTable.codec.dumps
        (.obj (repairEvent {} d (readFresh repairTable.codec (brokenLog row))).dump) = some text := by
  intro d h
  rw [hd] at h
  cases h
  have hlast : lastSeq (readFresh repairTable.codec (brokenLog row)) = 0 := by
    obtain ⟨e, he⟩ : ∃ e, readFresh repairTable.codec (brokenLog row) = [e] :=
      List.length_eq_one_iff.mp (by simpa using congrArg List.length hr)
    rw [he] at hr ⊢
    simpa [lastSeq] using hr
  have hevent : repairEvent {} ⟨1, 2, 0⟩ (readFresh repairTable.codec (brokenLog row)) =
      repairEvent {} ⟨1, 2, 0⟩ [{ seq := 0, type := "a" }] := by
    rw [repairEvent, repairEvent, hlast]
    rfl
  rw [hevent]
  exact Option.isSome_iff_exists.mp (by decide +kernel)

theorem one_boundary_small :
    OneBoundary repairTable.codec {} (brokenLog (.obj (Event.dump { seq := 0, type := "a" }))) := by
  have hd : repairTable.codec.logDivergence
      (brokenLog (.obj (Event.dump { seq := 0, type := "a" }))) = some ⟨1, 2, 0⟩ := by decide +kernel
  refine (one_boundary_iff repairTable.codec {} _ rfl (brokenLog_prints _ hd ?_)).mpr ?_
  · decide +kernel
  · intro d h
    rw [hd] at h
    cases h
    decide +kernel

/-- The row `{"seq":"0.0","type":"x"}` is read, and the repair behind it is not recorded. -/
theorem repair_unrecorded :
    ¬ ∀ disk t, t.append.fenced = false →
      (∀ d, repairTable.codec.logDivergence disk = some d → ∃ text, repairTable.codec.dumps
        (.obj (repairEvent t d (readFresh repairTable.codec disk)).dump) = some text) →
      OneBoundary repairTable.codec t disk := by
  intro h
  have hd : repairTable.codec.logDivergence
      (brokenLog (.obj [("seq", .str "0.0"), ("type", .str "x")])) = some ⟨1, 2, 0⟩ := by
    decide +kernel
  have hone := h (brokenLog (.obj [("seq", .str "0.0"), ("type", .str "x")])) {} rfl
    (brokenLog_prints _ hd (by decide +kernel))
  obtain ⟨e, hread, _, _⟩ := (hone.repaired _ hd).recorded
  have hlen := congrArg List.length hread
  revert hlen
  rw [List.length_append, List.length_singleton]
  decide +kernel

end LoopLab

/-!
## The incremental reader against a full scan

One store polls a file that others append to, truncate, rewrite and replace.
-/

namespace LoopLab
open Lib

/-- The poll returns the events and the verdict of a store constructed on the same bytes. -/
def Agrees (c : Codec) (s : EventStore) (now : Disk) : Prop :=
  (s.readAll c now).cache = ((EventStore.new c now).readAll c now).cache ∧
    (s.readAll c now).divergence.isSome = ((EventStore.new c now).readAll c now).divergence.isSome

/-- `P` holds at every poll of a history, of the store, the file it last saw and the file now. -/
def AtEveryPoll (c : Codec) (P : EventStore → Disk → Disk → Prop) :
    EventStore → Disk → List Disk → Prop
  | _, _, [] => True
  | s, seen, now :: rest => P s seen now ∧ AtEveryPoll c P (s.readAll c now) now rest

variable {c : Codec} {s : EventStore} {seen now : Disk}

theorem Synced.agrees_iff (h : Synced c seen s) (ha : Announced c s seen now) :
    Agrees c s now ↔ StillDiverges c s now := by
  have hfresh := Synced.fresh c now
  obtain ⟨hs, hstill⟩ | ⟨_, hstale, hd, hnone⟩ := h.poll ha
  · refine ⟨fun _ => hstill, fun _ => ⟨?_, ?_⟩⟩
    · rw [hs.cache_eq, hfresh.cache_eq]
    · rw [hs.verdict, hfresh.verdict]
  · refine ⟨fun hagree => ?_, fun hstill => absurd hstill hstale⟩
    have hverdict := hagree.2
    rw [hfresh.verdict, hnone, Option.isSome_none] at hverdict
    exact absurd (Option.isNone_iff_eq_none.mp (by simpa using hverdict)) hd

/-! ## A history of polls -/

theorem Synced.history (h : Synced c seen s) (polls : List Disk)
    (ha : AtEveryPoll c (Announced c) s seen polls) :
    AtEveryPoll c (fun s _ now => Agrees c s now) s seen polls ↔
      AtEveryPoll c (fun s _ now => StillDiverges c s now) s seen polls := by
  induction polls generalizing s seen with
  | nil => exact Iff.rfl
  | cons now polls ih =>
    obtain ⟨ha, hrest⟩ := ha
    have hstep := h.agrees_iff ha
    have hnext (hstill : StillDiverges c s now) : Synced c now (s.readAll c now) := by
      obtain ⟨hs, _⟩ | ⟨_, hstale, _⟩ := h.poll ha
      · exact hs
      · exact absurd hstill hstale
    constructor
    · rintro ⟨hagree, hpolls⟩
      have hstill := hstep.mp hagree
      exact ⟨hstill, (ih (hnext hstill) hrest).mp hpolls⟩
    · rintro ⟨hstill, hpolls⟩
      exact ⟨hstep.mpr hstill, (ih (hnext hstill) hrest).mpr hpolls⟩

/-- Over every history of announced changes, all polls of one store agree with a full scan exactly
when none of them keeps the cache of a store holding a divergence over a file without one. -/
theorem incremental_read_exact (c : Codec) (first : Disk) (polls : List Disk)
    (ha : AtEveryPoll c (Announced c) (EventStore.new c first) first polls) :
    AtEveryPoll c (fun s _ now => Agrees c s now) (EventStore.new c first) first polls ↔
      AtEveryPoll c (fun s _ now => StillDiverges c s now) (EventStore.new c first) first polls :=
  (Synced.new c first).history polls ha

/-- One row, for small histories. -/
def rowTable : TextTable where
  values := [.obj (Event.dump { seq := 0, type := "a" })]
  ok := by decide +kernel

/-- The row with a torn line behind it, then the same with that line ended. -/
def grownPolls : List Disk :=
  let row := (Json.obj (Event.dump { seq := 0, type := "a" })).print
  [some { content := row ++ [newline, 123], entry := (1, 1), mtimeNs := 1, ctimeNs := 1 },
    some { content := row ++ [newline, 123, newline], entry := (1, 1), mtimeNs := 2, ctimeNs := 2 }]

theorem incremental_read_exact_grown :
    AtEveryPoll rowTable.codec (Announced rowTable.codec) (EventStore.new rowTable.codec none) none
        grownPolls ∧
      AtEveryPoll rowTable.codec (fun s _ now => Agrees rowTable.codec s now)
        (EventStore.new rowTable.codec none) none grownPolls := by
  have ha : AtEveryPoll rowTable.codec (Announced rowTable.codec)
      (EventStore.new rowTable.codec none) none grownPolls := by
    refine ⟨.growth List.nil_prefix (Nat.le_refl 0), .growth ?_ (by decide +kernel), trivial⟩
    exact ⟨[newline], by decide +kernel⟩
  refine ⟨ha, (incremental_read_exact rowTable.codec none grownPolls ha).mpr ⟨?_, ?_, trivial⟩⟩
  · exact fun h => absurd (by decide +kernel) h
  · exact fun h => absurd (by decide +kernel) h

def rejectedFile : Disk := some { content := [120, newline], entry := (1, 1), mtimeNs := 1, ctimeNs := 1 }
def mendedFile : Disk := some { content := [32, newline], entry := (1, 1), mtimeNs := 2, ctimeNs := 2 }

/-- The rewrite keeps the size and changes the timestamps, yet the store that saw the rejected line
goes on reporting it. -/
theorem mended_divergence_stays :
    ¬ ∀ first polls, AtEveryPoll rowTable.codec (Announced rowTable.codec)
        (EventStore.new rowTable.codec first) first polls →
      AtEveryPoll rowTable.codec (fun s _ now => Agrees rowTable.codec s now)
        (EventStore.new rowTable.codec first) first polls := by
  intro h
  have ha : Announced rowTable.codec (EventStore.new rowTable.codec rejectedFile) rejectedFile
      mendedFile := by
    have hzero : (EventStore.new rowTable.codec rejectedFile).cacheBytes = 0 := by decide +kernel
    have heq : (EventStore.new rowTable.codec rejectedFile).consumed mendedFile =
        (EventStore.new rowTable.codec rejectedFile).consumed rejectedFile := by
      rw [EventStore.consumed, EventStore.consumed, hzero, List.take_zero, List.take_zero]
    exact ⟨.inr (.inr (.inr fun _ => by decide)), fun _ _ hne => absurd heq hne, fun _ => heq⟩
  have hagree := (h rejectedFile [mendedFile] ⟨ha, trivial⟩).1.2
  revert hagree
  decide +kernel

end LoopLab
