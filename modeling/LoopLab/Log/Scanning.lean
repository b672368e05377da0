import LoopLab.Log.Reader
import LoopLab.Lib.Scanner

/-!
# One scanner behind all readers

`readLine` says what a complete line does to the events read so far: a blank line nothing, a record in sequence
adds its events, any other line ends the reading.
-/

set_option autoImplicit false

namespace LoopLab
open Lib

/-! ## Sequence numbers -/

def Dense (events : List Event) : Prop := countsFrom 0 events = true

theorem countsFrom_append (n : Int) (es fs : List Event) :
    countsFrom n (es ++ fs) = (countsFrom n es && countsFrom (n + es.length) fs) := by
  induction es generalizing n with
  | nil => simp [countsFrom]
  | cons e es ih =>
    simp only [List.cons_append, countsFrom, ih, List.length_cons, Bool.and_assoc]
    congr 3
    omega

theorem countsFrom_iff (n : Int) (es : List Event) :
    countsFrom n es = true ↔ es.map Event.seq = (List.range es.length).map fun i => n + (i : Nat) := by
  induction es generalizing n with
  | nil => simp [countsFrom]
  | cons e es ih =>
    simp only [countsFrom, Bool.and_eq_true, beq_iff_eq, ih, List.map_cons, List.length_cons,
      List.range_succ_eq_map, List.map_map, List.cons.injEq]
    have hz : n + ((0 : Nat) : Int) = n := by omega
    have hs : ((fun i : Nat => n + (i : Int)) ∘ Nat.succ) = fun i : Nat => n + 1 + (i : Int) := by
      funext i
      simp only [Function.comp_apply, Nat.succ_eq_add_one]
      omega
    rw [hz, hs]

theorem nextSeq_append (es : List Event) {fs : List Event} (h : fs ≠ []) : nextSeq (es ++ fs) = nextSeq fs := by
  obtain ⟨gs, e, rfl⟩ := List.eq_nil_or_concat' fs |>.resolve_left h
  simp [nextSeq, ← List.append_assoc]

theorem nextSeq_eq (es : List Event) : nextSeq es = lastSeq es + 1 := by
  unfold nextSeq lastSeq
  cases es.getLast? <;> simp

theorem lastSeq_of_countsFrom {n : Int} {es : List Event} (h : countsFrom n es = true)
    (hne : es ≠ []) : lastSeq es = n + es.length - 1 := by
  obtain ⟨gs, e, rfl⟩ := List.eq_nil_or_concat' es |>.resolve_left hne
  rw [countsFrom_append, Bool.and_eq_true] at h
  have he : e.seq = n + gs.length := by simpa [countsFrom] using h.2
  simp [lastSeq, he]
  omega

theorem Dense.nil : Dense [] := rfl

theorem Dense.lastSeq {es : List Event} (h : Dense es) : lastSeq es = es.length - 1 := by
  by_cases hne : es = []
  · subst es
    rfl
  · rw [lastSeq_of_countsFrom h hne]
    omega

theorem Dense.nextSeq {es : List Event} (h : Dense es) : nextSeq es = es.length := by
  rw [nextSeq_eq, h.lastSeq]
  omega

theorem Dense.append {es fs : List Event} (h : Dense es) (hf : countsFrom (LoopLab.nextSeq es) fs = true) :
    Dense (es ++ fs) := by
  rw [Dense, countsFrom_append, Bool.and_eq_true]
  refine ⟨h, ?_⟩
  rwa [Int.zero_add, ← h.nextSeq]

/-! ## A line -/

theorem stripBytes_idem (line : Bytes) : stripBytes (stripBytes line) = stripBytes line := by
  unfold stripBytes
  have h : (List.dropWhile isSpaceByte ((line.dropWhile isSpaceByte).rdropWhile isSpaceByte)) =
      (line.dropWhile isSpaceByte).rdropWhile isSpaceByte := by
    rw [List.dropWhile_eq_self_iff]
    intro hl hp
    have hpre : (line.dropWhile isSpaceByte).rdropWhile isSpaceByte <+: line.dropWhile isSpaceByte :=
      List.rdropWhile_prefix _ _
    have hlen := hpre.length_le
    have hz : 0 < (line.dropWhile isSpaceByte).length := by omega
    refine List.dropWhile_get_zero_not (p := isSpaceByte) line hz ?_
    have := hpre.getElem hl
    simpa [this] using hp
  rw [h, List.rdropWhile_idempotent]

namespace Codec
variable (c : Codec)

/-- The events a complete line adds after the sequence number before `expectedSeq`; nothing where
the line is rejected. -/
def lineEvents (expectedSeq : Int) (line : Bytes) : Option (List Event) :=
  match c.decodeJsonlLine line with
  | none => none
  | some none => some []
  | some (some o) =>
    match c.decodeEventRecord o with
    | none => none
    | some events => if eventSequenceContinues events expectedSeq then some events else none

def readLine (events : List Event) (line : Bytes) : Option (List Event) :=
  (c.lineEvents (nextSeq events) line).map (events ++ ·)

def readable (lines : List Bytes) : List Event := (scan c.readLine [] lines).1

def Idle (events : List Event) (lines : List Bytes) : Prop :=
  (scan c.readLine events lines).1 = events ∧
    ((scan c.readLine events lines).2 = [] → lines = [])

variable {c} {events : List Event} {line : Bytes}

theorem readLine_blank (h : c.decodeJsonlLine line = some none) :
    c.readLine events line = some events := by
  simp [readLine, lineEvents, h]

theorem readLine_invalid (h : c.decodeJsonlLine line = none) : c.readLine events line = none := by
  simp [readLine, lineEvents, h]

theorem readLine_undecoded {o : Obj} (h : c.decodeJsonlLine line = some (some o))
    (hd : c.decodeEventRecord o = none) : c.readLine events line = none := by
  simp [readLine, lineEvents, h, hd]

theorem readLine_gap {o : Obj} {new : List Event} (h : c.decodeJsonlLine line = some (some o))
    (hd : c.decodeEventRecord o = some new)
    (hs : ¬ eventSequenceContinues new (nextSeq events) = true) : c.readLine events line = none := by
  simp [readLine, lineEvents, h, hd, hs]

theorem readLine_record {o : Obj} {new : List Event} (h : c.decodeJsonlLine line = some (some o))
    (hd : c.decodeEventRecord o = some new)
    (hs : eventSequenceContinues new (nextSeq events) = true) :
    c.readLine events line = some (events ++ new) := by
  simp [readLine, lineEvents, h, hd, hs]

theorem readLine_cases {events' : List Event} (h : c.readLine events line = some events') :
    (c.decodeJsonlLine line = some none ∧ events' = events) ∨
    ∃ o new, c.decodeJsonlLine line = some (some o) ∧ c.decodeEventRecord o = some new ∧
      eventSequenceContinues new (nextSeq events) = true ∧ events' = events ++ new := by
  unfold readLine lineEvents at h
  split at h
  · cases h
  · rename_i hl
    exact .inl ⟨hl, by simpa using h.symm⟩
  · rename_i o hl
    split at h
    · cases h
    · rename_i new hd
      split at h
      · rename_i hs
        exact .inr ⟨o, new, hl, hd, hs, by simpa using h.symm⟩
      · cases h

theorem continues_ne_nil {new : List Event} {n : Int}
    (h : eventSequenceContinues new n = true) : new ≠ [] := by
  rintro rfl
  simp [eventSequenceContinues] at h

theorem continues_countsFrom {new : List Event} {n : Int}
    (h : eventSequenceContinues new n = true) : countsFrom n new = true := by
  rw [eventSequenceContinues, Bool.and_eq_true] at h
  exact h.2

theorem readLine_dense {events' : List Event} (hd : Dense events)
    (h : c.readLine events line = some events') : Dense events' := by
  rcases readLine_cases h with ⟨_, rfl⟩ | ⟨_, new, _, _, hs, rfl⟩
  · exact hd
  · exact hd.append (continues_countsFrom hs)

theorem readLine_extends {events' : List Event} (h : c.readLine events line = some events') :
    events <+: events' := by
  rcases readLine_cases h with ⟨_, rfl⟩ | ⟨_, new, _, _, _, rfl⟩
  · exact List.prefix_rfl
  · exact List.prefix_append _ _

theorem takes_dense {lines : List Bytes} {events' : List Event} (hd : Dense events)
    (h : Takes c.readLine events lines events') : Dense events' :=
  h.preserves (fun _ _ _ hs ha => readLine_dense hs ha) hd

/-! ## The region scan of a store -/

theorem idle_nil : c.Idle events [] := ⟨rfl, fun _ => rfl⟩

theorem idle_stuck {line : Bytes} (lines : List Bytes) {rest : List Bytes}
    (hb : Takes c.readLine events lines events) (hl : c.readLine events line = none) :
    c.Idle events (lines ++ line :: rest) := by
  rw [Idle, hb.scan_append, scan_cons_none hl]
  exact ⟨rfl, fun h => absurd h (List.cons_ne_nil _ _)⟩

/-- The loop of `read_all` consumes a run of accepted lines and leaves a rejected one in front, or
blank lines and then a rejected one. `blanks` stands between the last accepted record and `pos`. -/
theorem acceptRecords_scan (lines blanks : List Bytes) (events : List Event) (pos ok : Nat)
    (hb : Takes c.readLine events blanks events)
    (hpos : pos = ok + (join newline blanks).length) :
    ∃ new stop, c.acceptRecords (c.scanJsonlRegion pos lines).2 (nextSeq events) ok
        ((c.scanJsonlRegion pos lines).1.map fun r => (r.1, r.2.2 + 1)) = (new, stop) ∧
      ∃ read left, blanks ++ lines = read ++ left ∧ stop = ok + (join newline read).length ∧
        Takes c.readLine events read (events ++ new) ∧ c.Idle (events ++ new) left := by
  induction lines generalizing blanks events pos ok with
  | nil =>
    refine ⟨[], pos, rfl, blanks, [], rfl, hpos, ?_, ?_⟩
    · rwa [List.append_nil]
    · exact idle_nil
  | cons line lines ih =>
    cases hd : c.decodeJsonlLine line with
    | none =>
      refine ⟨[], pos, ?_, blanks, line :: lines, rfl, hpos, ?_, ?_⟩
      · simp [scanJsonlRegion, hd, acceptRecords]
      · rwa [List.append_nil]
      · rw [List.append_nil]
        exact idle_stuck [] .nil (readLine_invalid hd)
    | some found =>
      cases found with
      | none =>
        have hb' : Takes c.readLine events (blanks ++ [line]) events :=
          hb.append (takes_singleton.mpr (readLine_blank hd))
        obtain ⟨new, stop, hr, read, left, hsplit, rest⟩ := ih (blanks ++ [line]) events
          (pos + line.length + 1) ok hb' (by simp [hpos]; omega)
        refine ⟨new, stop, ?_, read, left, ?_, rest⟩
        · simpa only [scanJsonlRegion, hd] using hr
        · rw [← hsplit, List.append_assoc, List.singleton_append]
      | some o =>
        have hrej (hl : c.readLine events line = none) :
            ∃ read left, blanks ++ line :: lines = read ++ left ∧
              ok = ok + (join newline read).length ∧
              Takes c.readLine events read (events ++ []) ∧ c.Idle (events ++ []) left := by
          refine ⟨[], blanks ++ line :: lines, rfl, by simp, ?_, ?_⟩
          · rw [List.append_nil]
            exact .nil
          · rw [List.append_nil]
            exact idle_stuck blanks hb hl
        cases he : c.decodeEventRecord o with
        | none =>
          refine ⟨[], ok, ?_, hrej (readLine_undecoded hd he)⟩
          simp [scanJsonlRegion, hd, acceptRecords, he]
        | some here =>
          by_cases hs : eventSequenceContinues here (nextSeq events) = true
          · have hnext := nextSeq_append events (continues_ne_nil hs)
            obtain ⟨new, stop, hr, read, left, hsplit, hstop, ht, hidle⟩ := ih []
              (events ++ here) (pos + line.length + 1) (pos + line.length + 1) .nil (by simp)
            rw [hnext] at hr
            refine ⟨here ++ new, stop, ?_, blanks ++ line :: read, left, ?_, ?_, ?_, ?_⟩
            · simp only [scanJsonlRegion, hd, acceptRecords, List.map_cons, he, hs, if_true, hr]
            · rw [List.append_assoc, List.cons_append, ← hsplit, List.nil_append]
            · rw [hstop, hpos]
              simp
              omega
            · rw [← List.append_assoc]
              exact hb.append (takes_cons.mpr ⟨_, readLine_record hd he hs, ht⟩)
            · rwa [← List.append_assoc]
          · refine ⟨[], ok, ?_, hrej (readLine_gap hd he hs)⟩
            simp [scanJsonlRegion, hd, acceptRecords, he, hs]

/-! ## The divergence walk -/

theorem decodeJsonlLine_strip (line : Bytes) :
    c.decodeJsonlLine (stripBytes line) = c.decodeJsonlLine line := by
  simp only [decodeJsonlLine, stripBytes_idem]

theorem decodeJsonlLine_blank_iff : c.decodeJsonlLine line = some none ↔ stripBytes line = [] := by
  unfold decodeJsonlLine
  constructor
  · intro h
    dsimp only at h
    split at h
    · rename_i he
      exact List.isEmpty_iff.mp he
    · split at h <;> cases h
  · intro h
    simp [h]

theorem divergenceFrom_cons (good i : Nat) (lines : List Bytes) :
    c.divergenceFrom (nextSeq events) good i (line :: lines) =
      match c.readLine events line with
      | some events' => c.divergenceFrom (nextSeq events')
          (good + (events'.length - events.length)) (i + 1) lines
      | none => some ⟨good, i + 1, (lines.filter fun later => !(stripBytes later).isEmpty).length⟩ := by
  rw [divergenceFrom]
  cases hd : c.decodeJsonlLine line with
  | none =>
    have hne : stripBytes line ≠ [] := by
      intro h
      rw [decodeJsonlLine_blank_iff.mpr h] at hd
      cases hd
    simp [readLine_invalid hd, decodeJsonlLine_strip, hd, hne]
  | some found =>
    cases found with
    | none => simp [readLine_blank hd, decodeJsonlLine_blank_iff.mp hd]
    | some o =>
      have hne : stripBytes line ≠ [] := by
        intro h
        rw [decodeJsonlLine_blank_iff.mpr h] at hd
        cases hd
      cases he : c.decodeEventRecord o with
      | none => simp [readLine_undecoded hd he, decodeJsonlLine_strip, hd, he, hne]
      | some here =>
        by_cases hs : eventSequenceContinues here (nextSeq events) = true
        · simp [readLine_record hd he hs, decodeJsonlLine_strip, hd, he, hs, hne,
            nextSeq_append events (continues_ne_nil hs)]
        · simp [readLine_gap hd he hs, decodeJsonlLine_strip, hd, he, hs, hne]

theorem divergenceFrom_eq_none (good i : Nat) (lines : List Bytes) :
    c.divergenceFrom (nextSeq events) good i lines = none ↔
      (scan c.readLine events lines).2 = [] := by
  induction lines generalizing events good i with
  | nil => simp [divergenceFrom, scan]
  | cons line lines ih =>
    rw [divergenceFrom_cons]
    cases hl : c.readLine events line with
    | none => simp [scan_cons_none hl]
    | some events' => simpa only [scan_cons_some hl] using ih _ _

theorem divergenceFrom_eq_some {good i : Nat} {lines : List Bytes} {d : Divergence}
    (h : c.divergenceFrom (nextSeq events) good i lines = some d) :
    ∃ read bad rest events', lines = read ++ bad :: rest ∧ Takes c.readLine events read events' ∧
      c.readLine events' bad = none ∧ d.corruptLine = i + read.length + 1 ∧
      d.goodRecords = good + (events'.length - events.length) := by
  induction lines generalizing events good i with
  | nil => simp [divergenceFrom] at h
  | cons line lines ih =>
    rw [divergenceFrom_cons] at h
    cases hl : c.readLine events line with
    | none =>
      rw [hl] at h
      cases h
      exact ⟨[], line, lines, events, rfl, .nil, hl, rfl, by simp⟩
    | some m =>
      rw [hl] at h
      obtain ⟨read, bad, rest, events', hsplit, ht, hbad, hline, hgood⟩ := ih h
      have hm := (readLine_extends hl).length_le
      have hm' : m.length ≤ events'.length :=
        (ht.preserves (P := (m <+: ·)) (fun _ _ _ hp ha => hp.trans (readLine_extends ha))
          List.prefix_rfl).length_le
      refine ⟨line :: read, bad, rest, events', by rw [hsplit, List.cons_append],
        takes_cons.mpr ⟨m, hl, ht⟩, hbad, ?_, ?_⟩
      · rw [hline, List.length_cons]
        omega
      · rw [hgood]
        omega

theorem logDivergence_eq_none {disk : Disk} :
    c.logDivergence disk = none ↔ (scan c.readLine [] disk.complete).2 = [] := by
  have hstart : c.divergenceFrom (nextSeq []) 0 0 disk.complete = none ↔
      (scan c.readLine [] disk.complete).2 = [] := divergenceFrom_eq_none 0 0 disk.complete
  exact hstart

theorem logDivergence_eq_some {disk : Disk} {d : Divergence} (h : c.logDivergence disk = some d) :
    ∃ read bad rest events, disk.complete = read ++ bad :: rest ∧
      Takes c.readLine [] read events ∧ c.readLine events bad = none ∧
      d.corruptLine = read.length + 1 ∧ d.goodRecords = events.length := by
  have hstart : c.divergenceFrom (nextSeq []) 0 0 disk.complete = some d := h
  obtain ⟨read, bad, rest, events, hsplit, ht, hbad, hline, hgood⟩ := divergenceFrom_eq_some hstart
  exact ⟨read, bad, rest, events, hsplit, ht, hbad, by omega, by simpa using hgood⟩

/-! ## The streaming reader -/

theorem decodeJsonlLine_newline (line : Bytes) :
    c.decodeJsonlLine (line ++ [newline]) = c.decodeJsonlLine line := by
  simp only [decodeJsonlLine, stripBytes_newline]

end Codec

end LoopLab
