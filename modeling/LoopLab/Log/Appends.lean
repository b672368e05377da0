import LoopLab.Log.Tail
import Mathlib.Data.List.Sublists

/-!
# What an append does to a log

`Intact` says that every complete line of the file is accepted and that the last one was printed by an append;
`Follows`, that a store has read the beginning of that file and knows no later sequence number than the log's last.
-/

set_option autoImplicit false

namespace LoopLab
open Lib

/-! ## The line an append builds -/

theorem numbered_length (m : Moment) (ids : Option String × Option String) (cur : Int)
    (offset : Nat) (records : List (String × Obj)) :
    (numbered m ids cur offset records).length = records.length := by
  induction records generalizing offset with
  | nil => rfl
  | cons r records ih => simp [numbered, ih]

theorem numbered_countsFrom (m : Moment) (ids : Option String × Option String) (cur : Int)
    (offset : Nat) (records : List (String × Obj)) :
    countsFrom (cur + 1 + offset) (numbered m ids cur offset records) = true := by
  induction records generalizing offset with
  | nil => rfl
  | cons r records ih =>
    have h := ih (offset + 1)
    rw [show cur + 1 + ((offset + 1 : Nat) : Int) = cur + 1 + offset + 1 by omega] at h
    simpa [numbered, countsFrom] using h

theorem numbered_records (m : Moment) (ids : Option String × Option String) (cur : Int)
    (offset : Nat) (records : List (String × Obj)) :
    (numbered m ids cur offset records).map (fun e => (e.type, e.data)) = records := by
  induction records generalizing offset with
  | nil => rfl
  | cons r records ih => simp [numbered, ih]

theorem numbered_plain {m : Moment} {ids : Option String × Option String} {cur : Int}
    {offset : Nat} {records : List (String × Obj)} (h : ∀ r ∈ records, r.1 ≠ eventBatchType) :
    ∀ e ∈ numbered m ids cur offset records, e.v = 1 ∧ e.type ≠ eventBatchType := by
  induction records generalizing offset with
  | nil => exact fun e he => absurd he List.not_mem_nil
  | cons r records ih =>
    obtain ⟨hr, h⟩ := List.forall_mem_cons.mp h
    exact List.forall_mem_cons.mpr ⟨⟨rfl, hr⟩, ih h⟩

/-- One line of text that reads to `events` behind the sequence number `cur`. -/
structure Line (c : Codec) (cur : Int) (records : List (String × Obj)) (text : Bytes) (last : Int)
    (events : List Event) : Prop where
  printed : c.Printed text last
  last_eq : last = lastSeq events
  ne_nil : events ≠ []
  counts : countsFrom (cur + 1) events = true
  records_eq : events.map (fun e => (e.type, e.data)) = records
  decodes : ∃ o, c.loads text = some (.obj o) ∧ c.decodeEventRecord o = some events

def Call.Admitted (call : Call) : Prop :=
  match call.request with
  | .append type _ => type ≠ eventBatchType
  | .appendMany records => records ≠ [] ∧ records.length ≤ maxEventBatchMembers ∧
      ∀ r ∈ records, r.1 ≠ eventBatchType

theorem buildOne_line {c : Codec} {m : Moment} {ids : Option String × Option String}
    {type : String} {data : Obj} {cur last : Int} {payload : Bytes} {events : List Event}
    (ht : type ≠ eventBatchType)
    (h : c.buildOne m ids type data cur = .ok (payload, last, events)) :
    ∃ text, payload = text ++ [newline] ∧ Line c cur [(type, data)] text last events := by
  unfold Codec.buildOne at h
  dsimp only at h
  split at h
  · cases h
  · rename_i text hd
    cases h
    refine ⟨text, rfl, ⟨_, hd, rfl⟩, rfl, by simp, ?_, rfl, _, c.loads_dumps hd, ?_⟩
    · simp [countsFrom]
    · exact Codec.decodeEventRecord_dump rfl ht

theorem buildMany_line {c : Codec} {m : Moment} {ids : Option String × Option String}
    {records : List (String × Obj)} {cur last : Int} {payload : Bytes} {events : List Event}
    (hne : records ≠ []) (hlen : records.length ≤ maxEventBatchMembers)
    (ht : ∀ r ∈ records, r.1 ≠ eventBatchType) (hcur : -1 ≤ cur)
    (h : c.buildMany m ids records cur = .ok (payload, last, events)) :
    ∃ text, payload = text ++ [newline] ∧ Line c cur records text last events := by
  unfold Codec.buildMany at h
  dsimp only at h
  split at h
  · cases h
  · rename_i text hd
    split at h
    · cases h
    · rename_i hsize
      cases h
      have hcount : countsFrom (cur + 1) (numbered m ids cur 0 records) = true := by
        simpa using numbered_countsFrom m ids cur 0 records
      have hnum : numbered m ids cur 0 records ≠ [] := by
        intro h0
        have := numbered_length m ids cur 0 records
        rw [h0] at this
        exact hne (List.eq_nil_of_length_eq_zero this.symm)
      refine ⟨text, rfl, ⟨_, hd, ?_⟩, rfl, hnum, hcount, numbered_records _ _ _ _ _, _,
        c.loads_dumps hd, ?_⟩
      · rw [physicalEnvelope, Obj.lookup_set_ne (by decide)]
        rfl
      · exact Codec.decodeEventRecord_batch hnum hcount (by omega) (numbered_plain ht)
          (by rwa [numbered_length]) hd (by omega)

theorem Call.build_line {c : Codec} {m : Moment} {call : Call} {cur last : Int} {payload : Bytes}
    {events : List Event} (ha : call.Admitted) (hcur : -1 ≤ cur)
    (h : call.build c m cur = .ok (payload, last, events)) :
    ∃ text, payload = text ++ [newline] ∧ Line c cur call.request.records text last events := by
  obtain ⟨request, trace, expected⟩ := call
  cases request with
  | append type data => exact buildOne_line ha h
  | appendMany records => exact buildMany_line ha.1 ha.2.1 ha.2.2 hcur h

theorem Call.build_error {c : Codec} {m : Moment} {call : Call} {cur : Int} {d : Divergence} :
    call.build c m cur ≠ .error (.corruption d) := by
  obtain ⟨request, trace, expected⟩ := call
  intro h
  cases request with
  | append type data =>
    simp only [Call.build, Codec.buildOne] at h
    split at h <;> cases h
  | appendMany records =>
    simp only [Call.build, Codec.buildMany] at h
    split at h
    · cases h
    · split at h <;> cases h

theorem Line.readLine {c : Codec} {log : List Event} {records : List (String × Obj)}
    {text : Bytes} {last : Int} {events : List Event}
    (h : Line c (lastSeq log) records text last events) :
    c.readLine log text = some (log ++ events) := by
  obtain ⟨o, hl, hd⟩ := h.decodes
  obtain ⟨_, _, hstrip, hne, _⟩ := h.printed.loads
  refine Codec.readLine_record (o := o) ?_ hd ?_
  · simp [Codec.decodeJsonlLine, hstrip, hne, hl]
  · rw [eventSequenceContinues, nextSeq_eq, h.counts, Bool.and_true]
    simpa using h.ne_nil

/-! ## Logs and the stores that follow them -/

/-- The complete lines of the file read to `log`. -/
structure Accepted (c : Codec) (disk : Disk) (log : List Event) : Prop where
  takes : Takes c.readLine [] disk.complete log

structure Intact (c : Codec) (disk : Disk) (log : List Event) : Prop extends Accepted c disk log where
  printed : ∀ lines line, disk.complete = lines ++ [line] → c.Printed line (lastSeq log)

structure Follows (c : Codec) (disk : Disk) (log : List Event) (s : EventStore) : Prop where
  caches : ∃ lines, Caches c s lines ∧ lines <+: disk.complete
  sound : s.divergence = none
  behind : s.seq ≤ lastSeq log

section
variable {c : Codec} {disk disk' : Disk} {log log' : List Event} {s : EventStore}

theorem Intact.missing : Intact c none [] := by
  refine ⟨⟨.nil⟩, ?_⟩
  intro lines line h
  have h0 : ([] : List Bytes) = lines ++ [line] := h
  simp at h0

theorem Accepted.dense (h : Accepted c disk log) : Dense log := Codec.takes_dense .nil h.takes

theorem Accepted.lastSeq_ge (h : Accepted c disk log) : -1 ≤ lastSeq log := by
  rw [h.dense.lastSeq]
  omega

theorem Accepted.readable (h : Accepted c disk log) : c.readable disk.complete = log := by
  rw [Codec.readable, h.takes.scan]

theorem Accepted.logDivergence (h : Accepted c disk log) : c.logDivergence disk = none :=
  Codec.logDivergence_eq_none.mpr (by rw [h.takes.scan])

theorem Intact.congr (h : Intact c disk log) (heq : disk'.complete = disk.complete) :
    Intact c disk' log := by
  obtain ⟨⟨ht⟩, hp⟩ := h
  exact ⟨⟨by rwa [heq]⟩, by rwa [heq]⟩

theorem Accepted.line {records : List (String × Obj)} {text : Bytes} {last : Int}
    {events : List Event} (h : Accepted c disk log)
    (hl : Line c (lastSeq log) records text last events)
    (heq : disk'.complete = disk.complete ++ [text]) : Accepted c disk' (log ++ events) := by
  constructor
  rw [heq]
  exact h.takes.append (takes_singleton.mpr hl.readLine)

theorem Intact.line {records : List (String × Obj)} {text : Bytes} {last : Int}
    {events : List Event} (h : Intact c disk log)
    (hl : Line c (lastSeq log) records text last events)
    (heq : disk'.complete = disk.complete ++ [text]) : Intact c disk' (log ++ events) := by
  constructor
  · exact h.toAccepted.line hl heq
  · intro lines line hlast
    rw [heq] at hlast
    have hline : text = line := by simpa using congrArg List.getLast? hlast
    have hseq : lastSeq (log ++ events) = last := by
      rw [hl.last_eq]
      have h1 := nextSeq_append log hl.ne_nil
      rw [nextSeq_eq, nextSeq_eq] at h1
      omega
    rw [← hline, hseq]
    exact hl.printed

theorem Follows.mono (h : Follows c disk log s) (hp : disk.complete <+: disk'.complete)
    (hs : lastSeq log ≤ lastSeq log') : Follows c disk' log' s := by
  obtain ⟨⟨lines, hc, hl⟩, hd, hb⟩ := h
  exact ⟨⟨lines, hc, hl.trans hp⟩, hd, Int.le_trans hb hs⟩

theorem join_prefix_content {lines : List Bytes} (h : lines <+: disk.complete) :
    join newline lines <+: disk.content := by
  obtain ⟨more, hmore⟩ := h
  rw [disk.content_eq, ← hmore, join_append, List.append_assoc]
  exact List.prefix_append _ _

theorem verdictStands_of_sound (h : s.divergence = none) (st : Option Stat) :
    s.verdictStands st = false := by
  simp [EventStore.verdictStands, h]

theorem readAll_accepted (h : Accepted c disk log) {lines left : List Bytes}
    (hcur : Current c disk s lines left) : s.cache = log ∧ lines = disk.complete := by
  have hleft := hcur.left_eq_nil.mpr h.logDivergence
  refine ⟨hcur.cache_eq.trans h.readable, ?_⟩
  rw [hcur.complete, hleft, List.append_nil]

theorem Follows.readAll (hf : Follows c disk log s) (h : Accepted c disk log) :
    Follows c disk log (s.readAll c disk) ∧ (s.readAll c disk).cache = log := by
  obtain ⟨⟨lines, hc, hl⟩, hd, hb⟩ := hf
  have hv := verdictStands_of_sound hd disk.stat
  by_cases hk : s.cacheInvalidated c disk = true
  · obtain ⟨lines', left, hcur, hdiv, _, hseq, _⟩ := readAll_dropped hv hk
    obtain ⟨hcache, hlines⟩ := readAll_accepted h hcur
    refine ⟨⟨⟨lines', hcur.caches, hlines ▸ List.prefix_rfl⟩, ?_, ?_⟩, hcache⟩
    · rw [hdiv, h.logDivergence]
    · rw [hcache] at hseq
      exact Int.le_of_eq hseq
  · obtain ⟨read, left, hcur, hverdict, hseq, _⟩ :=
      readAll_kept hc (join_prefix_content hl) hv (Bool.not_eq_true _ ▸ hk)
    obtain ⟨hcache, hlines⟩ := readAll_accepted h hcur
    have hleft := hcur.left_eq_nil.mpr h.logDivergence
    refine ⟨⟨⟨lines ++ read, hcur.caches, hlines ▸ List.prefix_rfl⟩, ?_, ?_⟩, hcache⟩
    · rw [(hverdict.1 hleft).1, hd]
    · rwa [hseq]

theorem Follows.new (h : Accepted c disk log) : Follows c disk log (EventStore.new c disk) := by
  have h0 : Follows c disk [] {} := ⟨⟨[], .blank, List.nil_prefix⟩, rfl, Int.le_refl _⟩
  have hle : lastSeq [] ≤ lastSeq log := h.lastSeq_ge
  have h1 : Follows c disk log {} := h0.mono List.prefix_rfl hle
  obtain ⟨⟨hc, hd, _⟩, hcache⟩ := h1.readAll h
  have hf : Follows c disk log ((({} : EventStore).readAll c disk).setSeq
      (lastSeq (({} : EventStore).readAll c disk).cache)) := by
    refine ⟨?_, hd, ?_⟩
    · obtain ⟨lines, hc, hl⟩ := hc
      exact ⟨lines, hc.setSeq _, hl⟩
    · rw [hcache]
      exact Int.le_refl _
  unfold EventStore.new
  dsimp only
  split
  · exact ⟨by obtain ⟨lines, hc, hl⟩ := hf.caches; exact ⟨lines, ⟨hc.1, hc.2, hc.3, hc.4, hc.5⟩, hl⟩,
      h.logDivergence, hf.behind⟩
  · exact hf

/-! ## The sequence number an append goes on from -/

theorem Intact.diskLastSeq (h : Intact c disk log)
    (hw : disk.content = join newline disk.complete) :
    c.diskLastSeq disk = .seq (lastSeq log) ∨ c.diskLastSeq disk = .unseen := by
  obtain hnil | ⟨lines, line, hlast⟩ := List.eq_nil_or_concat' disk.complete
  · have ht := h.takes
    rw [hnil] at hw ht
    rw [join_nil] at hw
    left
    rw [Codec.diskLastSeq, if_pos hw]
    cases ht
    rfl
  · refine (h.printed lines line hlast).diskLastSeq lines [[]] ?_ (.inr rfl)
    have hp := pieces_join_append (t := []) disk.unbroken List.not_mem_nil
    rw [List.append_nil] at hp
    rw [hw, hp, hlast, List.append_assoc]
    rfl

theorem Follows.currentSeq (hf : Follows c disk log s) (h : Intact c disk log)
    (hw : disk.content = join newline disk.complete) :
    ∃ s', s.currentSeq c disk = (s', some (lastSeq log)) ∧ Follows c disk log s' := by
  have hmax : max s.seq (lastSeq log) = lastSeq log := Int.max_eq_right hf.behind
  rcases h.diskLastSeq hw with hd | hd
  · exact ⟨s, by simp only [EventStore.currentSeq, hd, hmax], hf⟩
  · obtain ⟨hf', hcache⟩ := hf.readAll h.toAccepted
    exact ⟨s.readAll c disk, by simp only [EventStore.currentSeq, hd, hcache, hmax], hf'⟩

theorem Intact.heal (h : Intact c disk log) (m : Moment) : Intact c (disk.heal m) log :=
  h.congr (disk.heal_complete m)

theorem Follows.heal (hf : Follows c disk log s) (m : Moment) : Follows c (disk.heal m) log s := by
  refine hf.mono ?_ (Int.le_refl _)
  rw [disk.heal_complete]

theorem healed_whole (disk : Disk) (m : Moment) :
    (disk.heal m).content = join newline (disk.heal m).complete := by
  rw [disk.heal_whole, disk.heal_complete]

theorem lockedAppend_cases (hf : Follows c disk log s) (h : Intact c disk log) (m : Moment)
    (build : Int → Except Refusal EventStore.Built) (expected : Option Int) (fate : Fate) :
    (∃ s' disk' why, s.lockedAppend c m build expected fate disk = ⟨s', disk', .raised why⟩ ∧
      (disk' = disk ∨ disk' = disk.heal m) ∧ Follows c disk' log s' ∧
      (why = .fenced ∨ (∃ n, why = .concurrency n (lastSeq log)) ∨
        build (lastSeq log) = .error why)) ∨
    (∃ s' payload last events, expected.filter (· ≠ lastSeq log) = none ∧
      build (lastSeq log) = .ok (payload, last, events) ∧ Follows c (disk.heal m) log s' ∧
      s.lockedAppend c m build expected fate disk =
        s'.write c m (disk.heal m) payload last events fate) := by
  rw [EventStore.lockedAppend]
  split
  · exact .inl ⟨s, disk, .fenced, rfl, .inl rfl, hf, .inl rfl⟩
  · obtain ⟨hf', _⟩ := hf.readAll h.toAccepted
    obtain ⟨s', hcur, hs'⟩ := (hf'.heal m).currentSeq (h.heal m) (healed_whole disk m)
    simp only [hf'.sound, hcur]
    cases hexp : expected.filter (· ≠ lastSeq log) with
    | some n =>
      exact .inl ⟨s', disk.heal m, .concurrency n (lastSeq log), rfl, .inr rfl, hs',
        .inr (.inl ⟨n, rfl⟩)⟩
    | none =>
      cases hbuild : build (lastSeq log) with
      | error why => exact .inl ⟨s', disk.heal m, why, rfl, .inr rfl, hs', .inr (.inr rfl)⟩
      | ok built =>
        obtain ⟨payload, last, events⟩ := built
        exact .inr ⟨s', payload, last, events, rfl, rfl, hs', rfl⟩

/-! ## What the write leaves -/

theorem lastSeq_append_ge {extra : List Event} (h : Dense log) (h' : Dense (log ++ extra)) :
    lastSeq log ≤ lastSeq (log ++ extra) := by
  rw [h.lastSeq, h'.lastSeq, List.length_append]
  omega

theorem Intact.written (h : Intact c disk log) (hw : disk.content = join newline disk.complete)
    {records : List (String × Obj)} {text : Bytes} {last : Int} {events : List Event}
    (hl : Line c (lastSeq log) records text last events) (m : Moment) (k : Nat) :
    ∃ extra, ((k ≤ text.length ∧ extra = []) ∨ (text.length < k ∧ extra = events)) ∧
      Intact c (disk.written m ((text ++ [newline]).take k)) (log ++ extra) ∧
      disk.complete <+: (disk.written m ((text ++ [newline]).take k)).complete := by
  by_cases hk : k ≤ text.length
  · have htorn : newline ∉ (text ++ [newline]).take k := by
      rw [List.take_append_of_le_length hk]
      exact fun hm => hl.printed.unbroken (List.mem_of_mem_take hm)
    have heq := disk.written_torn m htorn hw
    refine ⟨[], .inl ⟨hk, rfl⟩, ?_, ?_⟩
    · rw [List.append_nil]
      exact h.congr heq
    · rw [heq]
  · have hall : (text ++ [newline]).take k = text ++ [newline] :=
      List.take_of_length_le (by simp; omega)
    obtain ⟨heq, _⟩ := disk.written_line m hl.printed.unbroken hw
    refine ⟨events, .inr ⟨by omega, rfl⟩, ?_, ?_⟩
    · rw [hall]
      exact h.line hl heq
    · rw [hall, heq]
      exact List.prefix_append _ _

/-- What a failed sync leaves without harm: nothing of the line, all but its newline or all of it,
and a row, or no byte at all, in the last 64 KiB. -/
def Harmless (c : Codec) (disk : Disk) (payload : Bytes) (k : Nat) : Prop :=
  (k = 0 ∨ payload.length ≤ k + 1) ∧ c.diskLastSeq disk ≠ .unseen

theorem markUncertainAppend_harmless (h : Intact c disk log)
    (hw : disk.content = join newline disk.complete) {records : List (String × Obj)}
    {text : Bytes} {last : Int} {events : List Event}
    (hl : Line c (lastSeq log) records text last events) (m : Moment) (k : Nat)
    (hk : Harmless c (disk.written m ((text ++ [newline]).take k)) (text ++ [newline]) k) :
    s.markUncertainAppend c (disk.written m ((text ++ [newline]).take k)) last =
      some { seq := s.seq } := by
  obtain ⟨hk, hseen⟩ := hk
  have hreserve (i : Int) (hn : EventStore.needsReservation
      (disk.written m ((text ++ [newline]).take k)) last i = false)
      (hd : c.diskLastSeq (disk.written m ((text ++ [newline]).take k)) = .seq i) :
      s.markUncertainAppend c (disk.written m ((text ++ [newline]).take k)) last =
        some { seq := s.seq } := by
    rw [EventStore.markUncertainAppend, hd]
    simp [EventStore.reserve, hn]
  by_cases hk0 : k = 0
  · -- Nothing was written: the file ends at a newline, or is empty.
    subst k
    have hcontent : (disk.written m ((text ++ [newline]).take 0)).content = disk.content := by
      rw [List.take_zero, Disk.written_content, List.append_nil]
    have hcomplete : (disk.written m ((text ++ [newline]).take 0)).complete = disk.complete := by
      rw [Disk.complete, hcontent, Disk.complete]
    refine hreserve (lastSeq log) ?_ ?_
    · rw [EventStore.needsReservation, hcontent, hw]
      by_cases hnil : disk.complete = []
      · simp [hnil]
      · simp [getLast?_join hnil]
    · exact ((h.congr hcomplete).diskLastSeq (by rw [hcontent, hcomplete, hw])).resolve_right hseen
  · rw [List.length_append, List.length_singleton] at hk
    refine hreserve last ?_ ?_
    · simp [EventStore.needsReservation]
    · -- The line stands whole at the end of the file, with or without its newline.
      by_cases hfull : k = text.length
      · have hcontent : (disk.written m ((text ++ [newline]).take k)).content =
            join newline disk.complete ++ text := by
          rw [Disk.written_content, hw, hfull, List.take_left]
        refine (hl.printed.diskLastSeq disk.complete [] ?_
          (.inl rfl)).resolve_right hseen
        rw [hcontent, pieces_join_append disk.unbroken hl.printed.unbroken]
      · have hall : (text ++ [newline]).take k = text ++ [newline] :=
          List.take_of_length_le (by simp; omega)
        obtain ⟨heq, hwhole⟩ := disk.written_line m hl.printed.unbroken hw
        rw [hall] at hseen ⊢
        refine (hl.printed.diskLastSeq disk.complete [[]] ?_
          (.inr rfl)).resolve_right hseen
        have hp := pieces_join_append (t := []) (disk.written m (text ++ [newline])).unbroken
          List.not_mem_nil
        rw [List.append_nil] at hp
        rw [hwhole, hp, heq, List.append_assoc]
        rfl

/-- The log after a call is `log ++ extra`, and a store that lives on follows it. -/
structure Advances (c : Codec) (disk : Disk) (log extra : List Event) (r : Ended) : Prop where
  intact : Intact c r.disk (log ++ extra)
  grows : disk.complete <+: r.disk.complete
  follows : Follows c r.disk (log ++ extra) r.store

theorem Follows.extend (hf : Follows c disk log s) (h : Intact c disk log) {extra : List Event}
    (h' : Intact c disk' (log ++ extra)) (hp : disk.complete <+: disk'.complete) :
    Follows c disk' (log ++ extra) s :=
  hf.mono hp (lastSeq_append_ge h.dense h'.dense)

section Write
variable {records : List (String × Obj)} {text : Bytes} {last : Int} {events : List Event}

theorem write_lands (hf : Follows c disk log s) (h : Intact c disk log)
    (hw : disk.content = join newline disk.complete)
    (hl : Line c (lastSeq log) records text last events) (m : Moment) :
    ∃ s' disk', s.write c m disk (text ++ [newline]) last events .lands =
        ⟨s', disk', .returned events⟩ ∧
      Advances c disk log events ⟨s', disk', .returned events⟩ := by
  refine ⟨_, _, rfl, ?_⟩
  obtain ⟨heq, _⟩ := disk.written_line m hl.printed.unbroken hw
  have h' := h.line hl heq
  have hp : disk.complete <+: (disk.written m (text ++ [newline])).complete := by
    rw [heq]
    exact List.prefix_append _ _
  obtain ⟨⟨lines, hc, hlines⟩, hd, _⟩ := hf
  have hlast : last = lastSeq (log ++ events) := by
    have h1 := nextSeq_append log hl.ne_nil
    rw [nextSeq_eq, nextSeq_eq, ← hl.last_eq] at h1
    omega
  have hwrote : Follows c (disk.written m (text ++ [newline])) (log ++ events)
      (s.wrote last (disk.written m (text ++ [newline])).stat) :=
    ⟨⟨lines, ⟨hc.1, hc.2, hc.3, hc.4, hc.5⟩, hlines.trans hp⟩, hd, Int.le_of_eq hlast⟩
  exact ⟨h', hp, (hwrote.readAll h'.toAccepted).1⟩

theorem write_dies (hf : Follows c disk log s) (h : Intact c disk log)
    (hw : disk.content = join newline disk.complete)
    (hl : Line c (lastSeq log) records text last events) (m : Moment) (k : Nat) :
    ∃ s' disk', s.write c m disk (text ++ [newline]) last events (.dies k) = ⟨s', disk', .died⟩ ∧
      Advances c disk log [] ⟨s', disk', .died⟩ := by
  refine ⟨_, _, rfl, ?_⟩
  have htorn : newline ∉ (text ++ [newline]).dropLast.take k := by
    rw [List.dropLast_concat]
    exact fun hm => hl.printed.unbroken (List.mem_of_mem_take hm)
  have heq := disk.written_torn m htorn hw
  have hp : disk.complete <+:
      (disk.written m ((text ++ [newline]).dropLast.take k)).complete := by rw [heq]
  have h' : Intact c (disk.written m ((text ++ [newline]).dropLast.take k)) (log ++ []) := by
    rw [List.append_nil]
    exact h.congr heq
  exact ⟨h', hp, hf.extend h h' hp⟩

theorem write_fails (hf : Follows c disk log s) (h : Intact c disk log)
    (hw : disk.content = join newline disk.complete)
    (hl : Line c (lastSeq log) records text last events) (m : Moment) (stage : Stage) (k : Nat)
    (hk : stage = .sync →
      Harmless c (disk.written m ((text ++ [newline]).take k)) (text ++ [newline]) k) :
    ∃ s' disk' extra, s.write c m disk (text ++ [newline]) last events (.fails stage k) =
        ⟨s', disk', .raised .io⟩ ∧
      Advances c disk log extra ⟨s', disk', .raised .io⟩ := by
  cases stage with
  | write =>
    obtain ⟨extra, _, h', hp⟩ := h.written hw hl m k
    exact ⟨s, _, extra, rfl, h', hp, hf.extend h h' hp⟩
  | sync =>
    obtain ⟨extra, _, h', hp⟩ := h.written hw hl m k
    refine ⟨{ seq := s.seq }, _, extra, ?_, h', hp, ?_⟩
    · simp only [EventStore.write, markUncertainAppend_harmless h hw hl m k (hk rfl)]
      rfl
    · have hblank : Follows c disk log { seq := s.seq } :=
        ⟨⟨[], ⟨unbroken_nil, .nil, rfl, rfl, .inl rfl⟩, List.nil_prefix⟩, rfl, hf.behind⟩
      exact hblank.extend h h' hp
  | publish =>
    obtain ⟨extra, _, h', hp⟩ := h.written hw hl m (text ++ [newline]).length
    rw [List.take_length] at h' hp
    exact ⟨s, _, extra, rfl, h', hp, hf.extend h h' hp⟩

end Write

/-! ## A call -/

theorem call_cases (hf : Follows c disk log s) (h : Intact c disk log) (m : Moment) (call : Call)
    (fate : Fate) :
    (∃ s' disk' why, s.call c m call fate disk = ⟨s', disk', .raised why⟩ ∧
      (disk' = disk ∨ disk' = disk.heal m) ∧ Follows c disk' log s' ∧
      ∀ d, why ≠ .corruption d) ∨
    (call.request.records = [] ∧ s.call c m call fate disk = ⟨s, disk, .returned []⟩) ∨
    (∃ s' text last events, call.expectedLastSeq.filter (· ≠ lastSeq log) = none ∧
      call.build c m (lastSeq log) = .ok (text ++ [newline], last, events) ∧
      Line c (lastSeq log) call.request.records text last events ∧
      Follows c (disk.heal m) log s' ∧
      s.call c m call fate disk =
        s'.write c m (disk.heal m) (text ++ [newline]) last events fate) := by
  by_cases ha : call.Admitted
  · have hlocked : s.call c m call fate disk =
        s.lockedAppend c m (call.build c m) call.expectedLastSeq fate disk := by
      obtain ⟨request, trace, expected⟩ := call
      cases request with
      | append type data =>
        have ht : ¬ type = eventBatchType := ha
        simp only [EventStore.call, EventStore.append, if_neg ht]
        rfl
      | appendMany records =>
        obtain ⟨hne, hlen, ht⟩ : records ≠ [] ∧ records.length ≤ maxEventBatchMembers ∧
          ∀ r ∈ records, r.1 ≠ eventBatchType := ha
        have hany : ¬ records.any (·.1 = eventBatchType) = true := by
          simpa using fun x hm => ht (eventBatchType, x) hm rfl
        simp only [EventStore.call, EventStore.appendMany, if_neg hne, if_neg (Nat.not_lt.mpr hlen),
          if_neg hany]
        rfl
    rw [hlocked]
    rcases lockedAppend_cases hf h m (call.build c m) call.expectedLastSeq fate with
      ⟨s', disk', why, heq, hdisk, hf', hwhy⟩ | ⟨s', payload, last, events, hexp, hbuild, hf', heq⟩
    · refine .inl ⟨s', disk', why, heq, hdisk, hf', ?_⟩
      rintro d rfl
      rcases hwhy with hx | ⟨n, hx⟩ | hx
      · cases hx
      · cases hx
      · exact Call.build_error hx
    · obtain ⟨text, rfl, hl⟩ := Call.build_line ha h.lastSeq_ge hbuild
      exact .inr (.inr ⟨s', text, last, events, hexp, hbuild, hl, hf', heq⟩)
  · obtain ⟨request, trace, expected⟩ := call
    cases request with
    | append type data =>
      have ht : type = eventBatchType := Classical.not_not.mp ha
      refine .inl ⟨s, disk, .reservedType, ?_, .inl rfl, hf, fun d => nofun⟩
      simp only [EventStore.call, EventStore.append, if_pos ht]
    | appendMany records =>
      by_cases hne : records = []
      · refine .inr (.inl ⟨hne, ?_⟩)
        simp only [EventStore.call, EventStore.appendMany, if_pos hne]
      · by_cases hlen : maxEventBatchMembers < records.length
        · refine .inl ⟨s, disk, .tooManyMembers, ?_, .inl rfl, hf, fun d => nofun⟩
          simp only [EventStore.call, EventStore.appendMany, if_neg hne, if_pos hlen]
        · have hany : records.any (·.1 = eventBatchType) = true := by
            by_contra hany
            exact ha ⟨hne, Nat.not_lt.mp hlen, fun r hr ht =>
              hany (List.any_eq_true.mpr ⟨r, hr, by simpa using ht⟩)⟩
          refine .inl ⟨s, disk, .reservedType, ?_, .inl rfl, hf, fun d => nofun⟩
          simp only [EventStore.call, EventStore.appendMany, if_neg hne, if_neg hlen, if_pos hany]

end

end LoopLab

/-!
## Runs of many stores over one file

A `World` is the file and the stores alive over it. Stores are constructed, polled and called in any order, each
call as a whole under the log lock; a call may be the last of its process, or its write may fail.
-/

namespace LoopLab
open Lib

structure World where
  disk : Disk := none
  stores : Nat → Option EventStore := fun _ => none
  blocked : Bool := false

inductive Op where
  | new (i : Nat)
  | read (i : Nat)
  | call (i : Nat) (m : Moment) (call : Call) (fate : Fate)

def Outcome.events : Outcome → List Event
  | .returned events => events
  | _ => []

/-- The store after the call, unless its process died or its thread is stuck. -/
def Ended.survivor (r : Ended) : Option EventStore :=
  match r.outcome with
  | .returned _ => some r.store
  | .raised _ => some r.store
  | .died => none
  | .hung => none

def Ended.stuck (r : Ended) : Bool :=
  match r.outcome with
  | .hung => true
  | _ => false

namespace World

def setStore (w : World) (i : Nat) (s : Option EventStore) : World :=
  { w with stores := fun j => if j = i then s else w.stores j }

/-- The world after a call of store `i`. -/
def ended (w : World) (i : Nat) (r : Ended) : World :=
  { w.setStore i r.survivor with disk := r.disk, blocked := r.stuck }

def step (c : Codec) (w : World) : Op → World × List Event
  | .new i => (w.setStore i (some (EventStore.new c w.disk)), [])
  | .read i => (w.setStore i ((w.stores i).map (EventStore.readAll c w.disk)), [])
  | .call i m call fate =>
    if w.blocked then (w, [])
    else match w.stores i with
      | none => (w, [])
      | some s => (w.ended i (s.call c m call fate w.disk), (s.call c m call fate w.disk).outcome.events)

def run (c : Codec) : World → List Op → World × List Event
  | w, [] => (w, [])
  | w, op :: ops =>
    let (w', done) := w.step c op
    let (w'', rest) := run c w' ops
    (w'', done ++ rest)

end World

def Op.Fails : Op → Prop
  | .call _ _ _ (.fails _ _) => True
  | _ => False

def Op.Harmless (c : Codec) (w : World) : Op → Prop
  | .call _ m asked (.fails .sync k) =>
    ∀ payload last events,
      asked.build c m (lastSeq (c.readable w.disk.complete)) = .ok (payload, last, events) →
      LoopLab.Harmless c ((w.disk.heal m).written m (payload.take k)) payload k
  | _ => True

def World.SafeRun (c : Codec) : World → List Op → Prop
  | _, [] => True
  | w, op :: ops => op.Harmless c w ∧ SafeRun c (w.step c op).1 ops

theorem Op.harmless_of_not_fails {c : Codec} {w : World} {op : Op} (h : ¬ op.Fails) :
    op.Harmless c w := by
  unfold Op.Harmless
  split
  · exact absurd trivial h
  · trivial

theorem World.safeRun_of_not_fails {c : Codec} {w : World} {ops : List Op}
    (h : ∀ op ∈ ops, ¬ op.Fails) : w.SafeRun c ops := by
  induction ops generalizing w with
  | nil => trivial
  | cons op ops ih =>
    obtain ⟨hop, h⟩ := List.forall_mem_cons.mp h
    exact ⟨Op.harmless_of_not_fails hop, ih h⟩

structure World.Sound (c : Codec) (w : World) (log : List Event) : Prop where
  intact : Intact c w.disk log
  follows : ∀ i s, w.stores i = some s → Follows c w.disk log s
  free : w.blocked = false

section
variable {c : Codec} {w : World} {log extra : List Event}

theorem World.Sound.start : World.Sound c {} [] :=
  ⟨.missing, fun _ _ h => (by cases h), rfl⟩

theorem World.Sound.setStore (h : w.Sound c log) (i : Nat) {s : Option EventStore}
    (hs : ∀ t, s = some t → Follows c w.disk log t) : (w.setStore i s).Sound c log := by
  refine ⟨h.intact, ?_, h.free⟩
  intro j t ht
  simp only [World.setStore] at ht
  split at ht
  · exact hs t ht
  · exact h.follows j t ht

theorem World.Sound.ended (h : w.Sound c log) (i : Nat) {r : Ended}
    (ha : Advances c w.disk log extra r) (hr : r.stuck = false) :
    (w.ended i r).Sound c (log ++ extra) := by
  refine ⟨ha.intact, ?_, hr⟩
  intro j t ht
  simp only [World.ended, World.setStore] at ht
  split at ht
  · have hstore : t = r.store := by
      unfold Ended.survivor at ht
      split at ht <;> cases ht <;> rfl
    rw [hstore]
    exact ha.follows
  · exact (h.follows j t ht).extend h.intact ha.intact ha.grows

theorem Advances.still {disk disk' : Disk} {m : Moment} {s' : EventStore} {outcome : Outcome}
    (h : Intact c disk log) (hd : disk' = disk ∨ disk' = disk.heal m)
    (hf : Follows c disk' log s') : Advances c disk log [] ⟨s', disk', outcome⟩ := by
  have heq : disk'.complete = disk.complete := by
    rcases hd with rfl | rfl
    · rfl
    · exact disk.heal_complete m
  refine ⟨?_, ?_, ?_⟩
  · rw [List.append_nil]
    exact h.congr heq
  · rw [heq]
  · rwa [List.append_nil]

theorem call_advances {s : EventStore} (hf : Follows c w.disk log s) (h : Intact c w.disk log)
    {i : Nat} {m : Moment} {call : Call} {fate : Fate} (hk : (Op.call i m call fate).Harmless c w) :
    ∃ extra, Advances c w.disk log extra (s.call c m call fate w.disk) ∧
      (s.call c m call fate w.disk).stuck = false ∧
      ((s.call c m call fate w.disk).outcome.events = extra ∨
        ((s.call c m call fate w.disk).outcome.events = [] ∧ (Op.call i m call fate).Fails)) := by
  rcases call_cases hf h m call fate with ⟨s', disk', why, heq, hd, hf', _⟩ | ⟨_, heq⟩ |
    ⟨s', text, last, events, _, hbuild, hl, hf', heq⟩
  · rw [heq]
    exact ⟨[], .still h hd hf', rfl, .inl rfl⟩
  · rw [heq]
    exact ⟨[], .still (m := m) h (.inl rfl) hf, rfl, .inl rfl⟩
  · have hw := healed_whole w.disk m
    have hgrow {extra : List Event} {r : Ended}
        (ha : Advances c (w.disk.heal m) log extra r) : Advances c w.disk log extra r := by
      refine ⟨ha.intact, ?_, ha.follows⟩
      rw [← w.disk.heal_complete m]
      exact ha.grows
    rw [heq]
    cases fate with
    | lands =>
      obtain ⟨s'', disk', heq', ha⟩ := write_lands hf' (h.heal m) hw hl m
      rw [heq']
      exact ⟨events, hgrow ha, rfl, .inl rfl⟩
    | dies k =>
      obtain ⟨s'', disk', heq', ha⟩ := write_dies hf' (h.heal m) hw hl m k
      rw [heq']
      exact ⟨[], hgrow ha, rfl, .inl rfl⟩
    | fails stage k =>
      have hharm : stage = .sync → Harmless c ((w.disk.heal m).written m
          ((text ++ [newline]).take k)) (text ++ [newline]) k := by
        rintro rfl
        have hk' : ∀ payload last events,
            call.build c m (lastSeq (c.readable w.disk.complete)) = .ok (payload, last, events) →
            Harmless c ((w.disk.heal m).written m (payload.take k)) payload k := hk
        rw [h.readable] at hk'
        exact hk' _ _ _ hbuild
      obtain ⟨s'', disk', extra, heq', ha⟩ := write_fails hf' (h.heal m) hw hl m stage k hharm
      rw [heq']
      exact ⟨extra, hgrow ha, rfl, .inr ⟨rfl, trivial⟩⟩

theorem World.Sound.step (h : w.Sound c log) {op : Op} (hk : op.Harmless c w) :
    ∃ extra, (w.step c op).1.Sound c (log ++ extra) ∧
      ((w.step c op).2 = extra ∨ ((w.step c op).2 = [] ∧ op.Fails)) := by
  cases op with
  | new i =>
    refine ⟨[], ?_, .inl rfl⟩
    rw [List.append_nil]
    apply h.setStore i
    rintro t heq
    cases heq
    exact .new h.intact.toAccepted
  | read i =>
    refine ⟨[], ?_, .inl rfl⟩
    rw [List.append_nil]
    apply h.setStore i
    intro t heq
    obtain ⟨s, hs, rfl⟩ := Option.map_eq_some_iff.mp heq
    exact ((h.follows i s hs).readAll h.intact.toAccepted).1
  | call i m call fate =>
    cases hs : w.stores i with
    | none =>
      refine ⟨[], ?_, .inl ?_⟩
      · simpa [World.step, h.free, hs] using h
      · simp [World.step, h.free, hs]
    | some s =>
      have heq : w.step c (.call i m call fate) = (w.ended i (s.call c m call fate w.disk),
          (s.call c m call fate w.disk).outcome.events) := by
        simp [World.step, h.free, hs]
      obtain ⟨extra, ha, hstuck, hdone⟩ := call_advances (h.follows i s hs) h.intact hk
      rw [heq]
      exact ⟨extra, h.ended i ha hstuck, hdone⟩

theorem World.Sound.run (h : w.Sound c log) {ops : List Op} (hs : w.SafeRun c ops) :
    ∃ extra, (w.run c ops).1.Sound c (log ++ extra) ∧ List.Sublist (w.run c ops).2 extra ∧
      ((∀ op ∈ ops, ¬ op.Fails) → (w.run c ops).2 = extra) := by
  induction ops generalizing w log with
  | nil =>
    refine ⟨[], ?_, List.nil_sublist _, fun _ => rfl⟩
    rwa [List.append_nil]
  | cons op ops ih =>
    obtain ⟨hk, hs⟩ := hs
    obtain ⟨extra, hstep, hdone⟩ := h.step hk
    obtain ⟨more, hrun, hsub, heq⟩ := ih hstep hs
    refine ⟨extra ++ more, ?_, ?_, ?_⟩
    · rw [← List.append_assoc]
      exact hrun
    · have hhead : List.Sublist (w.step c op).2 extra := by
        rcases hdone with hd | ⟨hd, _⟩
        · rw [hd]
        · rw [hd]
          exact List.nil_sublist _
      exact hhead.append hsub
    · intro hno
      obtain ⟨hop, hno⟩ := List.forall_mem_cons.mp hno
      have hd : (w.step c op).2 = extra := hdone.resolve_right fun hf => hop hf.2
      have hr : (w.run c (op :: ops)).2 = (w.step c op).2 ++ ((w.step c op).1.run c ops).2 := rfl
      rw [hr, hd, heq hno]

end

end LoopLab
