import LoopLab.Log.Appends

/-!
# Reading a log to its boundary, and repairing it

The readers agree on the events before the first rejected line.
-/

set_option autoImplicit false

namespace LoopLab
open Lib

/-- `EV_LOG_REPAIRED` -/
def evLogRepaired : String := "log_repaired"

/-- What `repair_log` meets: the clock, the stat of the file it puts in place, and the append. -/
structure RepairMoment where
  timeNs : Nat := 0
  replacement : File := { content := [], entry := (0, 0), mtimeNs := 0, ctimeNs := 0 }
  append : Moment := {}

structure RepairResult where
  disk : Disk
  backup : Option Bytes
  record : Except Refusal Obj

def keptBytes (div : Divergence) (raw : Bytes) : Bytes :=
  join newline ((pieces newline raw).take (div.corruptLine - 1))

def repairRecord (t : RepairMoment) (div : Divergence) : Obj :=
  [("backup", .str (s!"events.jsonl.corrupt-{t.timeNs}.bak")), ("corrupt_line", .int div.corruptLine),
    ("dropped_lines", .int div.droppedLines), ("good_records", .int div.goodRecords),
    ("ts", .int (t.timeNs / 1000000000 : Nat))]

/-- `atomic_write_bytes(p, truncated)` -/
def truncatedDisk (t : RepairMoment) (div : Divergence) (disk : Disk) : Disk :=
  some { t.replacement with content := keptBytes div disk.content }

/-- `repair_log(path)` -/
def repairLog (c : Codec) (t : RepairMoment) (disk : Disk) : RepairResult :=
  if t.append.fenced then ⟨disk, none, .error .fenced⟩
  else match c.logDivergence disk with
    | none => ⟨disk, none, .ok []⟩
    | some div =>
      let truncated := truncatedDisk t div disk
      let record := repairRecord t div
      let r := (EventStore.new c truncated).append c t.append evLogRepaired record
        (some (none, none)) none .lands truncated
      match r.outcome with
      | .raised why => ⟨r.disk, some disk.content, .error why⟩
      | _ => ⟨r.disk, some disk.content, .ok record⟩

/-- The event that records a repair behind the events `kept`. -/
def repairEvent (t : RepairMoment) (div : Divergence) (kept : List Event) : Event where
  seq := lastSeq kept + 1
  ts := t.append.time 0
  type := evLogRepaired
  data := repairRecord t div

/-! ## The streaming reader -/

namespace Codec
variable {c : Codec}

def decoded (c : Codec) (rows : List Obj) : List Event :=
  rows.flatMap fun o => (c.decodeEventRecord o).getD []

theorem decoded_append (rows more : List Obj) :
    c.decoded (rows ++ more) = c.decoded rows ++ c.decoded more := List.flatMap_append

theorem decoded_dumps {es : List Event} (h : ∀ e ∈ es, e.v = 1 ∧ e.type ≠ eventBatchType) :
    c.decoded (es.map Event.dump) = es := by
  induction es with
  | nil => rfl
  | cons e es ih =>
    obtain ⟨⟨hv, ht⟩, h⟩ := List.forall_mem_cons.mp h
    have hrest := ih h
    rw [decoded] at hrest ⊢
    rw [List.map_cons, List.flatMap_cons, hrest, decodeEventRecord_dump hv ht]
    rfl

theorem decoded_record {o : Obj} {es : List Event} (h : c.decodeEventRecord o = some es) :
    c.decoded (if isEventBatchRecord o then es.map Event.dump else [o]) = es := by
  split
  · rename_i hb
    rw [decodeEventRecord, if_pos hb] at h
    exact decoded_dumps (decodeBatchEnvelope_some h).2.1
  · simp [decoded, h]

theorem decoded_iterEvents (lines : List Bytes) (events : List Event) :
    events ++ c.decoded (c.iterEvents (nextSeq events) (c.iterLines lines)) =
      (scan c.readLine events lines).1 := by
  induction lines generalizing events with
  | nil => exact List.append_nil _
  | cons line lines ih =>
    cases hd : c.decodeJsonlLine line with
    | none =>
      rw [scan_cons_none (readLine_invalid hd), iterLines, decodeJsonlLine_newline, hd]
      exact List.append_nil _
    | some found =>
      cases found with
      | none =>
        rw [scan_cons_some (readLine_blank hd), iterLines, decodeJsonlLine_newline, hd]
        exact ih events
      | some o =>
        rw [iterLines, decodeJsonlLine_newline, hd]
        cases he : c.decodeEventRecord o with
        | none =>
          rw [scan_cons_none (readLine_undecoded hd he)]
          simp only [iterEvents, he]
          exact List.append_nil _
        | some here =>
          by_cases hs : eventSequenceContinues here (nextSeq events) = true
          · rw [scan_cons_some (readLine_record hd he hs), ← ih (events ++ here),
              nextSeq_append events (continues_ne_nil hs)]
            simp only [iterEvents, he, hs, if_true]
            rw [decoded_append, decoded_record he, List.append_assoc]
          · rw [scan_cons_none (readLine_gap hd he hs)]
            simp only [iterEvents, he, hs]
            exact List.append_nil _

end Codec

/-! ## Appending to a log that others wrote -/

theorem stripBytes_eq_nil {line : Bytes} :
    stripBytes line = [] ↔ ∀ b ∈ line, isSpaceByte b = true := by
  rw [stripBytes, List.rdropWhile_eq_nil_iff]
  constructor
  · intro h
    rw [← List.dropWhile_eq_nil_iff]
    by_contra hne
    obtain ⟨b, bs, hb⟩ := List.exists_cons_of_ne_nil hne
    have hspace := h b (by rw [hb]; exact List.mem_cons_self)
    have hnot := List.head_dropWhile_not isSpaceByte hne
    simp only [hb, List.head_cons] at hnot
    rw [hspace] at hnot
    cases hnot
  · intro h b hb
    exact h b (List.dropWhile_sublist _ |>.mem hb)

section
variable {c : Codec} {disk : Disk} {log : List Event} {s : EventStore}

theorem Accepted.row_le (h : Accepted c disk log) {l : Bytes} (hl : l ∈ disk.complete) {k : Nat}
    {v : Json} {i : Int} (hv : c.rowSeq (l.drop k) = some v) (hne : stripBytes (l.drop k) ≠ [])
    (hi : v.toInt = some i) : i ≤ lastSeq log := by
  obtain ⟨before, after, hsplit⟩ := List.append_of_mem hl
  have ht := h.takes
  rw [hsplit] at ht
  obtain ⟨m, hbefore, ht⟩ := takes_append.mp ht
  obtain ⟨m', hline, hafter⟩ := takes_cons.mp ht
  have hm : Dense m := Codec.takes_dense .nil hbefore
  rcases Codec.readLine_cases hline with ⟨hblank, _⟩ | ⟨o, new, hd, he, hs, rfl⟩
  · rw [Codec.decodeJsonlLine_blank_iff, stripBytes_eq_nil] at hblank
    exact absurd (stripBytes_eq_nil.mpr fun b hb => hblank b (List.mem_of_mem_drop hb)) hne
  · have hloads : c.loads (stripBytes l) = some (.obj o) := by
      unfold Codec.decodeJsonlLine at hd
      dsimp only at hd
      split at hd
      · cases hd
      · split at hd
        · cases hd
          assumption
        · cases hd
    have hlookup : o.lookup "seq" = some v := by
      rcases Codec.rowSeq_drop hloads k with hn | hs'
      · rw [hn] at hv
        cases hv
      · rw [← hs', hv]
    obtain ⟨w, hw, hnum⟩ := Codec.decodeEventRecord_seq he hs (by rw [hm.nextSeq]; omega)
    rw [hlookup] at hw
    cases hw
    have hlast := nextSeq_append m (Codec.continues_ne_nil hs)
    rw [nextSeq_eq, nextSeq_eq] at hlast
    have hdense : Dense (m ++ new) := hm.append (Codec.continues_countsFrom hs)
    have hpre : (m ++ new) <+: log :=
      hafter.preserves (P := ((m ++ new) <+: ·)) (fun _ _ _ hp ha => hp.trans (Codec.readLine_extends ha))
        List.prefix_rfl
    have hlen := hpre.length_le
    have hl1 := hdense.lastSeq
    have hl2 := h.dense.lastSeq
    have hnum' := hnum i hi
    omega

theorem Accepted.diskLastSeq_le (h : Accepted c disk log)
    (hw : disk.content = join newline disk.complete) :
    c.diskLastSeq disk = .raises ∨ c.diskLastSeq disk = .unseen ∨
      ∃ i, i ≤ lastSeq log ∧ c.diskLastSeq disk = .seq i := by
  by_cases hnil : disk.content = []
  · right
    right
    exact ⟨-1, h.lastSeq_ge, by rw [Codec.diskLastSeq, if_pos hnil]⟩
  · rw [Codec.diskLastSeq, if_neg hnil]
    cases hv : c.tailSeq disk.content with
    | none => exact .inr (.inl rfl)
    | some v =>
      cases hi : v.toInt with
      | none => exact .inl (by simp only [hi])
      | some i =>
        right
        right
        refine ⟨i, ?_, by simp only [hi]⟩
        obtain ⟨l, hl, k, hrow, hne⟩ := Codec.tailSeq_mem hv
        have hp := pieces_join_append (t := []) disk.unbroken List.not_mem_nil
        rw [List.append_nil, ← hw] at hp
        rw [hp, List.mem_append, List.mem_singleton] at hl
        rcases hl with hl | rfl
        · exact h.row_le hl hrow hne hi
        · rw [List.drop_nil] at hne
          exact absurd rfl hne

theorem readAll_seq (hf : Follows c disk log s) (h : Accepted c disk log)
    (hs : s.seq = lastSeq log) : (s.readAll c disk).seq = lastSeq log := by
  obtain ⟨⟨lines, hc, hl⟩, hd, _⟩ := hf
  have hv := verdictStands_of_sound hd disk.stat
  cases hk : s.cacheInvalidated c disk with
  | true =>
    obtain ⟨lines', left, hcur, _, _, hseq, _⟩ := readAll_dropped hv hk
    rw [hseq, (readAll_accepted h hcur).1]
  | false =>
    obtain ⟨_, _, _, _, hseq, _⟩ := readAll_kept hc (join_prefix_content hl) hv hk
    rw [hseq, hs]

theorem new_seq (h : Accepted c disk log) : (EventStore.new c disk).seq = lastSeq log := by
  have hcache : (({} : EventStore).readAll c disk).cache = log := by
    have h0 : Follows c disk [] {} := ⟨⟨[], .blank, List.nil_prefix⟩, rfl, Int.le_refl _⟩
    have hle : lastSeq [] ≤ lastSeq log := h.lastSeq_ge
    have h1 : Follows c disk log {} := h0.mono List.prefix_rfl hle
    exact (h1.readAll h).2
  unfold EventStore.new
  dsimp only
  split <;> exact congrArg lastSeq hcache

theorem currentSeq_accepted (hf : Follows c disk log s) (h : Accepted c disk log)
    (hw : disk.content = join newline disk.complete) (hs : s.seq = lastSeq log) :
    ∃ s', s.currentSeq c disk =
        (s', if c.diskLastSeq disk = .raises then none else some (lastSeq log)) ∧
      Follows c disk log s' := by
  rcases h.diskLastSeq_le hw with hd | hd | ⟨i, hi, hd⟩
  · exact ⟨s, by simp [EventStore.currentSeq, hd], hf⟩
  · obtain ⟨hf', hcache⟩ := hf.readAll h
    exact ⟨s.readAll c disk, by simp [EventStore.currentSeq, hd, hcache, hs], hf'⟩
  · have hmax : max s.seq i = lastSeq log := by omega
    exact ⟨s, by simp [EventStore.currentSeq, hd, hmax], hf⟩

end

end LoopLab
