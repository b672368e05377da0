import LoopLab.Trace.Lines

/-!
# The readable prefix of a trace

What the scanner has read is whole lines within the ceiling and one unfinished line below it, whichever way the
reads were cut.
-/

set_option autoImplicit false

namespace LoopLab.Trace
open LoopLab.Lib

/-- The lines that end with a newline. -/
def terminated (bs : Bytes) : List Bytes := (cut newline bs).1.map (· ++ [newline])

/-- The lines before the first one that is too long. -/
def readable (ceiling : Nat) (bs : Bytes) : List Bytes := (terminated bs).takeWhile (·.length ≤ ceiling)

/-- A line is too long, be it finished or not. -/
def Overlong (ceiling : Nat) (bs : Bytes) : Prop :=
  (∃ line ∈ terminated bs, ceiling < line.length) ∨ ceiling ≤ (cut newline bs).2.length

/-- The bytes within the declared size. -/
def within (size : Option Nat) (bs : Bytes) : Bytes :=
  match size with
  | none => bs
  | some n => bs.take n

/-- The lines are the readable ones, and a scan raises just where the stream ends before its declared size. -/
structure ScanSound (s : Stream) (size : Option Int) (ceiling chunkSize : Int) : Prop where
  lines : (iterBoundedTraceJsonlLines s size ceiling chunkSize).1.filterMap Mark.line? =
    readable ceiling.toNat (within (size.map Int.toNat) s.content)
  front : ((iterBoundedTraceJsonlLines s size ceiling chunkSize).1.filterMap Mark.line?).flatten <+: s.content
  raises : (iterBoundedTraceJsonlLines s size ceiling chunkSize).2 ≠ .returned ↔
    ∃ n, size = some n ∧ s.content.length < n ∧ ¬Overlong ceiling.toNat s.content

/-- The unfinished line stays below the ceiling; a line that is finished in the buffer may reach it. -/
def BufferBounded (ceiling : Nat) : Mark → Prop
  | .held pending => pending.length < ceiling
  | .finished pending => pending.length ≤ ceiling
  | .yielded _ => True

section Scan
variable {ceiling chunkSize : Nat} {bs read chunk pending : Bytes} {ms : List Bytes}

/-- What was read: lines, and an unfinished one. -/
structure Scanned (ceiling : Nat) (read : Bytes) (ms : List Bytes) (pending : Bytes) : Prop where
  split : read = join newline ms ++ pending
  unbroken : Unbroken newline ms
  inside : ∀ m ∈ ms, m.length + 1 ≤ ceiling
  unfinished : newline ∉ pending
  below : pending.length < ceiling

/-- What was read goes on after some lines with one that is too long. -/
structure Stuck (ceiling : Nat) (read : Bytes) (ms : List Bytes) : Prop where
  split : ∃ long rest, read = join newline ms ++ (long ++ rest) ∧ newline ∉ long ∧ ceiling ≤ long.length
  unbroken : Unbroken newline ms
  inside : ∀ m ∈ ms, m.length + 1 ≤ ceiling

theorem Stuck.append (h : Stuck ceiling read ms) (more : Bytes) : Stuck ceiling (read ++ more) ms := by
  obtain ⟨long, rest, hsplit, hlong, hlen⟩ := h.split
  refine ⟨⟨long, rest ++ more, ?_, hlong, hlen⟩, h.unbroken, h.inside⟩
  rw [hsplit, List.append_assoc, List.append_assoc]

theorem terminated_inside (h : ∀ m ∈ ms, m.length + 1 ≤ ceiling) :
    ∀ line ∈ ms.map (· ++ [newline]), line.length ≤ ceiling := by
  intro line hline
  obtain ⟨m, hm, rfl⟩ := List.mem_map.mp hline
  simpa using h m hm

theorem Scanned.readable (h : Scanned ceiling read ms pending) :
    ms.map (· ++ [newline]) = Trace.readable ceiling read ∧ ¬Overlong ceiling read := by
  have hcut : cut newline read = (ms, pending) := by
    rw [h.split]
    exact cut_join h.unbroken h.unfinished
  have hin := terminated_inside h.inside
  constructor
  · rw [Trace.readable, terminated, hcut]
    exact (List.takeWhile_eq_self_iff.mpr fun line hline => decide_eq_true (hin line hline)).symm
  · rintro (⟨line, hline, hlong⟩ | hlong)
    · rw [terminated, hcut] at hline
      exact absurd (hin line hline) (by omega)
    · rw [hcut] at hlong
      exact absurd h.below (Nat.not_lt.mpr hlong)

theorem Stuck.readable (h : Stuck ceiling read ms) :
    ms.map (· ++ [newline]) = Trace.readable ceiling read ∧ Overlong ceiling read := by
  obtain ⟨long, rest, hsplit, hlong, hlen⟩ := h.split
  have hcut : cut newline read = (ms ++ (cut newline (long ++ rest)).1, (cut newline (long ++ rest)).2) := by
    rw [hsplit]
    exact cut_join_append h.unbroken _
  have hin := terminated_inside h.inside
  rw [Trace.readable, Overlong, terminated, hcut, List.map_append,
    List.takeWhile_append_of_pos fun line hline => decide_eq_true (hin line hline)]
  -- the first line after them begins with what is too long
  cases hfirst : (cut newline (long ++ rest)).1 with
  | nil =>
    have htail := join_cut newline (long ++ rest)
    rw [hfirst, join_nil, List.nil_append] at htail
    refine ⟨(List.append_nil _).symm, Or.inr ?_⟩
    rw [htail, List.length_append]
    omega
  | cons l ls =>
    have htail := join_cut newline (long ++ rest)
    have hunbroken := (cut_unbroken newline (long ++ rest)).1
    rw [hfirst] at htail hunbroken
    rw [join_cons, List.append_assoc, List.cons_append] at htail
    have hlonger : ceiling ≤ l.length := by
      by_contra hshort
      -- otherwise its newline would be inside
      have hget := congrArg (fun bytes : Bytes => bytes[l.length]?) htail
      have hinside : l.length < long.length := by omega
      simp only [List.getElem?_append_right (Nat.le_refl l.length), Nat.sub_self, List.getElem?_cons_zero] at hget
      rw [List.getElem?_append_left hinside] at hget
      exact hlong (List.mem_of_getElem? hget.symm)
    constructor
    · rw [List.map_cons, List.takeWhile_cons_of_neg, List.append_nil]
      simp
      omega
    · left
      refine ⟨l ++ [newline], ?_, ?_⟩
      · simp
      · rw [List.length_append, List.length_singleton]
        omega

/-- One chunk. -/
theorem scanChunk_spec (h : Scanned ceiling read ms pending) :
    ∃ found, (scanChunk ceiling pending chunk).1.filterMap Mark.line? = found.map (· ++ [newline]) ∧
      (∀ mark ∈ (scanChunk ceiling pending chunk).1, BufferBounded ceiling mark) ∧
      match (scanChunk ceiling pending chunk).2 with
      | some left => Scanned ceiling (read ++ chunk) (ms ++ found) left
      | none => Stuck ceiling (read ++ chunk) (ms ++ found) := by
  induction hn : chunk.length using Nat.strong_induction_on generalizing chunk pending read ms with
  | _ n ih =>
    rw [scanChunk]
    by_cases hnil : chunk = []
    · rw [if_pos hnil]
      refine ⟨[], rfl, by simp, ?_⟩
      rw [hnil, List.append_nil, List.append_nil]
      exact h
    · rw [if_neg hnil]
      dsimp only
      have hparts := List.takeWhile_append_dropWhile (p := (· ≠ newline)) (l := chunk)
      have hsegment : newline ∉ chunk.takeWhile (· ≠ newline) := by
        intro hmem
        simpa using List.mem_takeWhile_imp hmem
      split
      · rename_i hdrop
        rw [hdrop, List.append_nil] at hparts
        by_cases hlong : ceiling ≤ pending.length + (chunk.takeWhile (· ≠ newline)).length
        · rw [if_pos hlong]
          refine ⟨[], rfl, by simp, ?_⟩
          rw [List.append_nil]
          refine ⟨⟨pending ++ chunk, [], ?_, ?_, ?_⟩, h.unbroken, h.inside⟩
          · rw [h.split, List.append_nil, List.append_assoc]
          · rw [List.mem_append, not_or]
            exact ⟨h.unfinished, hparts ▸ hsegment⟩
          · rw [List.length_append, ← hparts]
            exact hlong
        · rw [if_neg hlong, hparts]
          rw [hparts] at hlong hsegment
          refine ⟨[], rfl, ?_, ?_⟩
          · intro mark hmark
            cases List.mem_singleton.mp hmark
            rw [BufferBounded, List.length_append]
            omega
          · rw [List.append_nil]
            refine ⟨?_, h.unbroken, h.inside, ?_, ?_⟩
            · rw [h.split, List.append_assoc]
            · rw [List.mem_append, not_or]
              exact ⟨h.unfinished, hsegment⟩
            · rw [List.length_append]
              omega
      · rename_i first after hdrop
        have hfirst : first = newline := by
          have hhead := List.head?_dropWhile_not (· ≠ newline) chunk
          rw [hdrop] at hhead
          simpa using hhead
        rw [hdrop, hfirst] at hparts
        generalize chunk.takeWhile (· ≠ newline) = segment at hparts hsegment ⊢
        by_cases hlong : ceiling < pending.length + segment.length + 1
        · rw [if_pos hlong]
          refine ⟨[], rfl, by simp, ?_⟩
          rw [List.append_nil]
          refine ⟨⟨pending ++ segment, newline :: after, ?_, ?_, ?_⟩, h.unbroken, h.inside⟩
          · rw [h.split, ← hparts, List.append_assoc, List.append_assoc]
          · rw [List.mem_append, not_or]
            exact ⟨h.unfinished, hsegment⟩
          · rw [List.length_append]
            omega
        · rw [if_neg hlong]
          have hone : Scanned ceiling (read ++ (segment ++ [newline])) (ms ++ [pending ++ segment]) [] := by
            refine ⟨?_, unbroken_append.mpr ⟨h.unbroken, ?_⟩, ?_, List.not_mem_nil, ?_⟩
            · rw [h.split, join_append, join_cons, join_nil]
              simp
            · intro m hm
              rw [List.mem_singleton.mp hm, List.mem_append, not_or]
              exact ⟨h.unfinished, hsegment⟩
            · intro m hm
              rcases List.mem_append.mp hm with hm | hm
              · exact h.inside m hm
              · rw [List.mem_singleton.mp hm, List.length_append]
                omega
            · exact Nat.lt_of_le_of_lt (Nat.zero_le _) h.below
          have hshorter : after.length < n := by
            rw [← hn, ← hparts, List.length_append, List.length_cons]
            omega
          obtain ⟨found, hlines, hbounded, hleft⟩ := ih after.length hshorter hone rfl
          have hread : read ++ (segment ++ [newline]) ++ after = read ++ chunk := by
            rw [← hparts]
            simp
          rw [hread, List.append_assoc, List.singleton_append] at hleft
          refine ⟨(pending ++ segment) :: found, ?_, ?_, hleft⟩
          · rw [List.filterMap_append, hlines, List.map_cons, List.append_assoc]
            split <;> rfl
          · intro mark hmark
            rcases List.mem_append.mp hmark with hmark | hmark
            · have hfull : (pending ++ (segment ++ [newline])).length ≤ ceiling := by
                simp only [List.length_append, List.length_singleton]
                omega
              split at hmark
              · cases List.mem_singleton.mp hmark
                exact trivial
              · rcases List.mem_cons.mp hmark with rfl | hmark
                · exact hfull
                · cases List.mem_singleton.mp hmark
                  exact trivial
            · exact hbounded mark hmark

theorem Stream.read_spec (s : Stream) {request : Nat} (h : 1 ≤ request) :
    ∃ size, 1 ≤ size ∧ size ≤ request ∧ (s.read request).1 = s.content.take size ∧
      (s.read request).2.content = s.content.drop size :=
  ⟨max 1 (min request (s.short 0)), by omega, by omega, rfl, rfl⟩

theorem within_append {remaining : Option Nat} {size : Nat} (h : ∀ n, remaining = some n → size ≤ n) :
    within remaining bs =
      bs.take size ++ within (remaining.map (· - (bs.take size).length)) (bs.drop size) := by
  cases remaining with
  | none => exact (List.take_append_drop size bs).symm
  | some n =>
    have hsize := h n rfl
    rw [Option.map_some, within, within, List.length_take]
    by_cases hshort : bs.length ≤ size
    · rw [List.take_of_length_le (by omega : bs.length ≤ n), List.take_of_length_le hshort, List.drop_of_length_le hshort,
        List.take_nil, List.append_nil]
    · rw [Nat.min_eq_left (by omega)]
      calc bs.take n = bs.take (size + (n - size)) := by rw [Nat.add_sub_cancel' hsize]
        _ = bs.take size ++ (bs.drop size).take (n - size) := List.take_add

/-- The reads of a scan. -/
theorem scanReads_spec {s : Stream} {remaining : Option Nat} (hsize : 1 ≤ chunkSize)
    (h : Scanned ceiling read ms pending) :
    ∃ found, (scanReads ceiling chunkSize s remaining pending).1.filterMap Mark.line? = found.map (· ++ [newline]) ∧
      (∀ mark ∈ (scanReads ceiling chunkSize s remaining pending).1, BufferBounded ceiling mark) ∧
      ((scanReads ceiling chunkSize s remaining pending).2 = .returned ∧
          ((∃ left, Scanned ceiling (read ++ within remaining s.content) (ms ++ found) left) ∧
              (∀ n, remaining = some n → n ≤ s.content.length) ∨
            Stuck ceiling (read ++ within remaining s.content) (ms ++ found)) ∨
        (scanReads ceiling chunkSize s remaining pending).2 = .shortRead ∧
          (∃ n, remaining = some n ∧ s.content.length < n) ∧
            ∃ left, Scanned ceiling (read ++ s.content) (ms ++ found) left) := by
  induction hlen : s.content.length using Nat.strong_induction_on generalizing s remaining pending read ms with
  | _ k ih =>
    rw [scanReads.eq_def]
    by_cases hdone : remaining = some 0
    · rw [if_pos hdone, hdone]
      refine ⟨[], rfl, by simp, Or.inl ⟨rfl, Or.inl ⟨⟨pending, ?_⟩, ?_⟩⟩⟩
      · rw [within, List.take_zero, List.append_nil, List.append_nil]
        exact h
      · intro n hn
        cases hn
        exact Nat.zero_le _
    · rw [if_neg hdone]
      dsimp only
      generalize hrequest : requested chunkSize remaining = request
      have hpos : 1 ≤ request := by
        rw [← hrequest]
        cases remaining with
        | none => exact hsize
        | some n =>
          have hn : n ≠ 0 := fun hzero => hdone (hzero ▸ rfl)
          rw [requested]
          omega
      have hwithin (n : Nat) (hn : remaining = some n) : request ≤ n := by
        rw [← hrequest, hn]
        exact Nat.min_le_right _ _
      obtain ⟨size, hsome, hle, hread, hrest⟩ := s.read_spec hpos
      rw [hread]
      by_cases hnil : s.content.take size = []
      · -- the stream has ended
        have hempty : s.content = [] := by
          rcases List.take_eq_nil_iff.mp hnil with hzero | hempty
          · omega
          · exact hempty
        have hscanned : Scanned ceiling (read ++ s.content) (ms ++ []) pending := by
          rw [hempty, List.append_nil, List.append_nil]
          exact h
        rw [dif_pos hnil]
        refine ⟨[], rfl, by simp, ?_⟩
        cases remaining with
        | none => exact Or.inl ⟨rfl, Or.inl ⟨⟨pending, hscanned⟩, fun n hn => (Option.some_ne_none n hn.symm).elim⟩⟩
        | some n =>
          have hn : n ≠ 0 := fun hzero => hdone (hzero ▸ rfl)
          refine Or.inr ⟨rfl, ⟨n, rfl, ?_⟩, pending, hscanned⟩
          rw [← hlen, hempty, List.length_nil]
          omega
      · have hfits : ¬request < (s.content.take size).length := by
          rw [List.length_take]
          omega
        rw [dif_neg hnil, if_neg hfits]
        have hsplit := @within_append s.content remaining _ fun n hn => hle.trans (hwithin n hn)
        obtain ⟨found, hlines, hbounded, hleft⟩ := @scanChunk_spec _ _ (s.content.take size) _ _ h
        generalize scanChunk ceiling pending (s.content.take size) = scanned at hlines hbounded hleft ⊢
        obtain ⟨marks, left⟩ := scanned
        cases left with
        | none =>
          refine ⟨found, hlines, hbounded, Or.inl ⟨rfl, Or.inr ?_⟩⟩
          rw [hsplit, ← List.append_assoc]
          exact Stuck.append hleft _
        | some left =>
          dsimp only
          have hshorter : (s.read request).2.content.length < k := by
            rw [hrest, List.length_drop, hlen]
            have hpositive := List.length_pos_iff.mpr fun hempty : s.content = [] => hnil (by rw [hempty, List.take_nil])
            omega
          obtain ⟨more, hmoreLines, hmoreBounded, hstop⟩ := ih _ hshorter hleft
            rfl
          rw [hrest, List.append_assoc, List.append_assoc, List.append_assoc, ← hsplit, List.take_append_drop] at hstop
          refine ⟨found ++ more, ?_, ?_, ?_⟩
          · rw [List.filterMap_append, hlines, hmoreLines, List.map_append]
          · intro mark hmark
            rcases List.mem_append.mp hmark with hmark | hmark
            · exact hbounded mark hmark
            · exact hmoreBounded mark hmark
          · have hlength : (s.content.take size).length + (s.content.drop size).length = s.content.length := by
              rw [← List.length_append, List.take_append_drop]
            rcases hstop with ⟨hreturned, hscanned⟩ | ⟨hshort, ⟨n, hn, hlt⟩, hscanned⟩
            · refine Or.inl ⟨hreturned, ?_⟩
              rcases hscanned with ⟨hscanned, hall⟩ | hstuck
              · refine Or.inl ⟨hscanned, ?_⟩
                intro n hn
                have hn' := hall (n - (s.content.take size).length) (by rw [hn, Option.map_some])
                omega
              · exact Or.inr hstuck
            · refine Or.inr ⟨hshort, ?_, hscanned⟩
              obtain ⟨m, hm, rfl⟩ := Option.map_eq_some_iff.mp hn
              exact ⟨m, hm, by omega⟩

end Scan

theorem trace_scan_sound (s : Stream) (size : Option Int) {ceiling chunkSize : Int} (hceiling : 2 ≤ ceiling)
    (hchunk : 1 ≤ chunkSize) : ScanSound s size ceiling chunkSize ∧
      ∀ mark ∈ (iterBoundedTraceJsonlLines s size ceiling chunkSize).1, BufferBounded ceiling.toNat mark := by
  have hstart : Scanned ceiling.toNat [] [] [] :=
    ⟨rfl, unbroken_nil, nofun, List.not_mem_nil, by rw [List.length_nil]; omega⟩
  obtain ⟨found, hlines, hbounded, hstop⟩ := @scanReads_spec _ chunkSize.toNat _ _ _ s _ (by omega) hstart
  have hrun : iterBoundedTraceJsonlLines s size ceiling chunkSize =
      scanReads ceiling.toNat chunkSize.toNat s (size.map Int.toNat) [] := by
    rw [iterBoundedTraceJsonlLines, if_neg (by omega)]
  rw [← hrun] at hlines hbounded hstop
  simp only [List.nil_append] at hstop
  have hfront : within (size.map Int.toNat) s.content <+: s.content := by
    cases size with
    | none => exact List.prefix_refl _
    | some n => exact List.take_prefix _ _
  have hflat : (found.map (· ++ [newline])).flatten = join newline found := by
    rw [join, List.flatMap]
  refine ⟨⟨?_, ?_, ?_⟩, hbounded⟩
  · rw [hlines]
    rcases hstop with ⟨-, ⟨⟨left, hscanned⟩, -⟩ | hstuck⟩ | ⟨-, ⟨n, hn, hlt⟩, left, hscanned⟩
    · exact hscanned.readable.1
    · exact hstuck.readable.1
    · rw [hn, within, List.take_of_length_le hlt.le]
      exact hscanned.readable.1
  · rw [hlines, hflat]
    rcases hstop with ⟨-, ⟨⟨left, hscanned⟩, -⟩ | hstuck⟩ | ⟨-, -, left, hscanned⟩
    · apply List.IsPrefix.trans ?_ hfront
      rw [hscanned.split]
      exact List.prefix_append _ _
    · obtain ⟨long, rest, hsplit, -, -⟩ := hstuck.split
      apply List.IsPrefix.trans ?_ hfront
      rw [hsplit]
      exact List.prefix_append _ _
    · rw [hscanned.split]
      exact List.prefix_append _ _
  · rcases hstop with ⟨hreturned, hscanned⟩ | ⟨hshort, ⟨n, hn, hlt⟩, left, hscanned⟩
    · apply iff_of_false (fun hne => hne hreturned)
      rintro ⟨n, rfl, hlt, hfits⟩
      rcases hscanned with ⟨-, hall⟩ | hstuck
      · have hle := hall n.toNat rfl
        omega
      · apply hfits
        have hover := hstuck.readable.2
        rwa [Option.map_some, within, List.take_of_length_le (by omega)] at hover
    · apply iff_of_true (by rw [hshort]; exact Stop.noConfusion)
      obtain ⟨n', rfl, rfl⟩ := Option.map_eq_some_iff.mp hn
      exact ⟨n', rfl, by omega, hscanned.readable.2⟩

/-- A stream that gives one byte at a time. -/
def trickle (content : Bytes) : Stream := ⟨content, fun _ => 1⟩

theorem trickle_sound : ScanSound (trickle [97, newline, 98]) (some 9) 2 1 ∧
    ∀ mark ∈ (iterBoundedTraceJsonlLines (trickle [97, newline, 98]) (some 9) 2 1).1, BufferBounded 2 mark :=
  trace_scan_sound (trickle [97, newline, 98]) (some 9) (Int.le_refl 2) (Int.le_refl 1)

/-- A line as long as the ceiling is finished in the buffer. -/
theorem line_fills_buffer : ¬∀ (s : Stream) (size : Option Int) (ceiling chunkSize : Int), 2 ≤ ceiling → 1 ≤ chunkSize →
    ScanSound s size ceiling chunkSize ∧ ∀ pending, (Mark.held pending ∈ (iterBoundedTraceJsonlLines s size ceiling
      chunkSize).1 ∨ Mark.finished pending ∈ (iterBoundedTraceJsonlLines s size ceiling chunkSize).1) →
        pending.length < ceiling.toNat := by
  intro h
  have hbelow := (h (trickle [97, newline]) none 2 1 (Int.le_refl 2) (Int.le_refl 1)).2 [97, newline] (Or.inr ?_)
  · exact absurd hbelow (by decide)
  · decide +kernel

end LoopLab.Trace
