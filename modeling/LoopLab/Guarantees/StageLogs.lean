import LoopLab.Engine.StageLog
import LoopLab.Guarantees.LossTrajectory

/-!
# The reader of a stage log covers every byte once

What is handed over is the bytes of the attempt, cut at record ends as far as a chunk has some.
-/

set_option autoImplicit false

namespace LoopLab.Engine.StageLog
open LossTrajectory

def Unended (r : Bytes) : Prop := ∀ b ∈ r, isRecordEnd b = false

def Ended (r : Bytes) : Prop := ∃ b, r.getLast? = some b ∧ isRecordEnd b = true

/-- A range that another one follows. -/
def Cut (chunk : Nat) (r : Bytes) : Prop := Ended r ∨ Unended r ∧ chunk ≤ r.length

/-- What a reading makes of `bytes`. -/
structure Covers (chunk : Nat) (bytes : Bytes) (s : Scan) : Prop where
  all : s.ranges.flatten = bytes
  filled : ∀ r ∈ s.ranges, r ≠ []
  cut : ∀ r ∈ s.ranges.dropLast, Cut chunk r
  buffers : ∀ b ∈ s.buffers, b.length < 2 * chunk
  short : ∀ r ∈ s.ranges, r.length < 2 * chunk

section Scan
variable {chunk : Nat} {buf carry raw left : Bytes}

theorem unended_spec (buf : Bytes) : ∃ head, buf = head ++ unended buf ∧ Unended (unended buf) ∧ (head = [] ∨ Ended head) := by
  refine ⟨(buf.reverse.dropWhile (!isRecordEnd ·)).reverse, ?_, ?_, ?_⟩
  · unfold unended
    rw [← List.reverse_append, List.takeWhile_append_dropWhile, List.reverse_reverse]
  · intro b hb
    have hkept := List.mem_takeWhile_imp (List.mem_reverse.mp hb)
    simpa using hkept
  · cases hrest : buf.reverse.dropWhile (!isRecordEnd ·) with
    | nil => exact Or.inl rfl
    | cons b rest =>
      right
      refine ⟨b, by simp, ?_⟩
      have hstop := List.head?_dropWhile_not (!isRecordEnd ·) buf.reverse
      rw [hrest] at hstop
      simpa using hstop

theorem cutOf_none (h : cutOf chunk buf = none) : Unended buf ∧ buf.length < chunk := by
  obtain ⟨head, hbuf, hunended, -⟩ := unended_spec buf
  unfold cutOf at h
  split at h
  · cases h
  · rename_i hall
    split at h
    · rename_i hshort
      have hlength := congrArg List.length hbuf
      rw [List.length_append] at hlength
      have hhead : head = [] := List.length_eq_zero_iff.mp (by omega)
      rw [hhead, List.nil_append] at hbuf
      exact ⟨hbuf ▸ hunended, hshort⟩
    · cases h

/-- What is handed over of a buffer, and what is left of it. -/
theorem cutOf_some {cut : Nat} (h : cutOf chunk buf = some cut) (hchunk : 0 < chunk) :
    buf.take cut ≠ [] ∧ Cut chunk (buf.take cut) ∧ Unended (buf.drop cut) ∧
      (buf.drop cut = [] ∨ buf.drop cut = unended buf ∧ (unended buf).length < buf.length) := by
  obtain ⟨head, hbuf, hunended, hhead⟩ := unended_spec buf
  have hlength := congrArg List.length hbuf
  rw [List.length_append] at hlength
  unfold cutOf at h
  split at h
  · rename_i hless
    obtain rfl := Option.some.inj h
    have hsize : buf.length - (unended buf).length = head.length := by omega
    have htake : buf.take (buf.length - (unended buf).length) = head := by
      rw [hsize]
      conv_lhs => rw [hbuf]
      exact List.take_left
    have hdrop : buf.drop (buf.length - (unended buf).length) = unended buf := by
      rw [hsize]
      conv_lhs => rw [hbuf]
      exact List.drop_left
    rw [htake, hdrop]
    have hne : head ≠ [] := by
      intro hnil
      rw [hnil] at hlength
      simp at hlength
      omega
    exact ⟨hne, Or.inl (hhead.resolve_left hne), hunended, Or.inr ⟨rfl, hless⟩⟩
  · rename_i hall
    split at h
    · cases h
    · rename_i hlong
      obtain rfl := Option.some.inj h
      have hnil : head = [] := List.length_eq_zero_iff.mp (by omega)
      rw [hnil, List.nil_append] at hbuf
      rw [List.take_length, List.drop_length]
      refine ⟨?_, Or.inr ⟨hbuf ▸ hunended, by omega⟩, nofun, Or.inl rfl⟩
      intro hempty
      rw [hempty] at hlong
      simp at hlong
      omega

theorem flush_covers (hcarry : carry.length < chunk) : Covers chunk carry (flush carry) := by
  unfold flush
  by_cases hnil : carry = []
  · rw [if_pos hnil, hnil]
    exact ⟨rfl, nofun, nofun, nofun, nofun⟩
  · rw [if_neg hnil]
    refine ⟨by simp, ?_, nofun, nofun, ?_⟩
    · intro r hr
      obtain rfl := List.mem_singleton.mp hr
      exact hnil
    · intro r hr
      obtain rfl := List.mem_singleton.mp hr
      omega

/-- A read gives something of what is left, and no more than was asked. -/
theorem read_spec {short asked : Nat} (hasked : 0 < asked) : ∃ rest, left = read short asked left ++ rest ∧
    left.drop (read short asked left).length = rest ∧ (read short asked left).length ≤ asked ∧
    (read short asked left = [] → left = []) := by
  unfold read
  refine ⟨left.drop (max 1 (min short asked)), (List.take_append_drop _ left).symm, ?_, ?_, ?_⟩
  · rw [List.length_take]
    by_cases hle : max 1 (min short asked) ≤ left.length
    · rw [min_eq_left hle]
    · rw [min_eq_right (by omega), List.drop_length, List.drop_of_length_le (by omega)]
  · rw [List.length_take]
    omega
  · intro hnil
    rw [List.take_eq_nil_iff] at hnil
    exact hnil.resolve_left (by omega)

theorem Unended.append {a b : Bytes} (ha : Unended a) (hb : Unended b) : Unended (a ++ b) := by
  intro x hx
  rcases List.mem_append.mp hx with hx | hx
  · exact ha x hx
  · exact hb x hx

theorem unended_eq (h : Unended buf) : unended buf = buf := by
  unfold unended
  rw [List.takeWhile_eq_self_iff.mpr ?_, List.reverse_reverse]
  intro b hb
  rw [h b (List.mem_reverse.mp hb)]
  rfl

/-- A record end is in what was read last. -/
theorem unended_append_lt (hcarry : Unended carry) (h : (unended (carry ++ raw)).length < (carry ++ raw).length) :
    (unended (carry ++ raw)).length < raw.length := by
  obtain ⟨head, hbuf, hunended, -⟩ := unended_spec (carry ++ raw)
  by_contra hlong
  have hsuffix : raw <:+ unended (carry ++ raw) := by
    apply List.suffix_of_suffix_length_le (List.suffix_append carry raw) ?_ (by omega)
    conv_rhs => rw [hbuf]
    exact List.suffix_append _ _
  have hraw : Unended raw := fun b hb => hunended b (hsuffix.subset hb)
  rw [unended_eq (hcarry.append hraw)] at h
  omega

theorem mem_dropLast_cons {α : Type} {x r : α} {rest : List α} (h : r ∈ (x :: rest).dropLast) : r = x ∨ r ∈ rest.dropLast := by
  cases rest with
  | nil => cases h
  | cons y rest => exact List.mem_cons.mp h

theorem Covers.before {bytes range : Bytes} {s : Scan} (h : Covers chunk bytes s) (hfilled : range ≠ []) (hcut : Cut chunk range)
    (hbuf : buf.length < 2 * chunk) (hle : range.length ≤ buf.length) : Covers chunk (range ++ bytes) (s.before buf range) := by
  obtain ⟨hall, hnonempty, hcuts, hbuffers, hshort⟩ := h
  refine ⟨?_, ?_, ?_, ?_, ?_⟩
  · exact congrArg (range ++ ·) hall
  · exact List.forall_mem_cons.mpr ⟨hfilled, hnonempty⟩
  · intro r hr
    rcases mem_dropLast_cons hr with rfl | hr
    · exact hcut
    · exact hcuts r hr
  · exact List.forall_mem_cons.mpr ⟨hbuf, hbuffers⟩
  · exact List.forall_mem_cons.mpr ⟨by omega, hshort⟩

/-- The carry has no record end and is shorter than a chunk at each turn of the loop. -/
theorem scan_covers (hchunk : 0 < chunk) (remaining : Nat) (left carry : Bytes) (short : Nat → Nat) (hunended : Unended carry)
    (hcarry : carry.length < chunk) : Covers chunk (carry ++ left.take remaining) (scan chunk remaining left carry short) := by
  induction remaining using Nat.strongRecOn generalizing left carry short with
  | ind remaining ih =>
  rw [scan]
  by_cases hzero : remaining = 0
  · rw [if_pos hzero, hzero, List.take_zero, List.append_nil]
    exact flush_covers hcarry
  · rw [if_neg hzero]
    dsimp only
    obtain ⟨rest, hleft, hdrop, hle, hempty⟩ := @read_spec left (short 0) (min chunk remaining) (by omega)
    generalize hraw : read (short 0) (min chunk remaining) left = raw at hleft hdrop hle hempty
    by_cases hnone : raw = []
    · rw [if_pos hnone, hempty hnone, List.take_nil, List.append_nil]
      exact flush_covers hcarry
    · rw [if_neg hnone, hdrop]
      have hpos := List.length_pos_of_ne_nil hnone
      have hbytes : carry ++ left.take remaining = (carry ++ raw) ++ rest.take (remaining - raw.length) := by
        rw [hleft, List.take_append, List.take_of_length_le (by omega), List.append_assoc]
      have hbuf : (carry ++ raw).length < 2 * chunk := by
        rw [List.length_append]
        omega
      have hsmaller : remaining - raw.length < remaining := by omega
      rw [hbytes]
      cases hcut : cutOf chunk (carry ++ raw) with
      | none =>
        obtain ⟨hcarry', hshort⟩ := cutOf_none hcut
        obtain ⟨hall, hnonempty, hcuts, hbuffers, hranges⟩ :=
          ih _ hsmaller rest (carry ++ raw) (fun n => short (n + 1)) hcarry' hshort
        exact ⟨hall, hnonempty, hcuts, List.forall_mem_cons.mpr ⟨hbuf, hbuffers⟩, hranges⟩
      | some cut =>
        obtain ⟨hfilled, hiscut, hcarry', hsmall⟩ := cutOf_some hcut hchunk
        have hshort : ((carry ++ raw).drop cut).length < chunk := by
          rcases hsmall with hnil | ⟨htail, hless⟩
          · rw [hnil]
            exact hchunk
          · rw [htail]
            have hshorter := unended_append_lt hunended hless
            omega
        have hrest := ih _ hsmaller rest ((carry ++ raw).drop cut) (fun n => short (n + 1)) hcarry' hshort
        have hparts : (carry ++ raw) ++ rest.take (remaining - raw.length) =
            (carry ++ raw).take cut ++ ((carry ++ raw).drop cut ++ rest.take (remaining - raw.length)) := by
          rw [← List.append_assoc, List.take_append_drop]
        dsimp only
        rw [hparts]
        exact hrest.before hfilled hiscut hbuf (List.length_take_le' cut _)

end Scan

section Region
variable {region want : Nat}

theorem chunkOf_pos : 0 < chunkOf region want := by
  unfold chunkOf
  omega

/-- A region of two bytes has two chunks at least. -/
theorem chunkOf_half (h : 2 ≤ region) : 2 * chunkOf region want ≤ region := by
  unfold chunkOf
  omega

/-- What is longer than a buffer can be takes two ranges. -/
theorem Covers.two {chunk : Nat} {bytes : Bytes} {s : Scan} (h : Covers chunk bytes s) (hlong : 2 * chunk ≤ bytes.length)
    (hpos : 0 < chunk) : 2 ≤ s.ranges.length := by
  by_contra hfew
  have hall := h.all
  have hshort := h.short
  cases hranges : s.ranges with
  | nil =>
    rw [hranges] at hall
    rw [← hall] at hlong
    simp at hlong
    omega
  | cons r rest =>
    rw [hranges] at hfew hall hshort
    have hrest : rest = [] := by
      cases rest with
      | nil => rfl
      | cons x rest => simp at hfew
    rw [hrest] at hall
    have hr := hshort r List.mem_cons_self
    rw [← hall] at hlong
    simp at hlong
    omega

end Region

/-! ## Records -/

section Record
variable {chunk : Nat} {a r b x : Bytes}

/-- A record starts after a record end, or where the attempt does. -/
def StartsRecord (a : Bytes) : Prop := a = [] ∨ Ended a

def EndsRecord (b : Bytes) : Prop := ∀ e ∈ b.head?, isRecordEnd e = true

theorem Ended.of_append {a y : Bytes} (hy : y ≠ []) (h : Ended (a ++ y)) : Ended y := by
  obtain ⟨e, he, hend⟩ := h
  rw [List.getLast?_append_of_ne_nil a hy] at he
  exact ⟨e, he, hend⟩

/-- A record shorter than a chunk lies in one range. -/
theorem record_in_range {ranges : List Bytes} (hcut : ∀ x ∈ ranges.dropLast, Cut chunk x) {a b : Bytes}
    (hflat : ranges.flatten = a ++ r ++ b) (hne : r ≠ []) (hstart : StartsRecord a) (hend : EndsRecord b)
    (hrecord : Unended r) (hshort : r.length < chunk) :
    ∃ x ∈ ranges, ∃ a' b', x = a' ++ r ++ b' ∧ StartsRecord a' ∧ EndsRecord b' := by
  induction ranges generalizing a with
  | nil =>
    have hnil : r = [] := by
      have hall := hflat.symm
      simp at hall
      exact hall.2.1
    exact absurd hnil hne
  | cons x rest ih =>
    have hrest (y : Bytes) (hy : y ∈ rest.dropLast) : Cut chunk y := by
      apply hcut y
      cases rest with
      | nil => cases hy
      | cons z rest => exact List.mem_cons_of_mem x hy
    have hfound (a' : Bytes) (hflat' : rest.flatten = a' ++ r ++ b) (hstart' : StartsRecord a') :
        ∃ y ∈ x :: rest, ∃ a' b', y = a' ++ r ++ b' ∧ StartsRecord a' ∧ EndsRecord b' := by
      obtain ⟨y, hy, hsplit⟩ := ih hrest hflat' hstart'
      exact ⟨y, List.mem_cons_of_mem x hy, hsplit⟩
    rw [List.flatten_cons, List.append_assoc] at hflat
    rcases List.append_eq_append_iff.mp hflat with ⟨a', rfl, htail⟩ | ⟨y, rfl, htail⟩
    · -- the record starts behind the first range
      apply hfound a' (htail.trans (List.append_assoc ..).symm)
      rcases hstart with hnil | hended
      · exact Or.inl (List.append_eq_nil_iff.mp hnil).2
      · by_cases hnil : a' = []
        · exact Or.inl hnil
        · exact Or.inr (hended.of_append hnil)
    · rcases List.append_eq_append_iff.mp htail with ⟨d, rfl, hd⟩ | ⟨d, rfl, hd⟩
      · -- it lies in the first range
        refine ⟨_, List.mem_cons_self, a, d, (List.append_assoc ..).symm, hstart, ?_⟩
        intro e he
        apply hend e
        rw [hd]
        cases d with
        | nil => cases he
        | cons z d => exact he
      · by_cases hnil : d = []
        · refine ⟨_, List.mem_cons_self, a, [], ?_, hstart, nofun⟩
          rw [hnil]
          simp
        · -- the first range would end inside of it
          have hmore : rest ≠ [] := by
            rintro rfl
            exact hnil (List.append_eq_nil_iff.mp hd.symm).1
          have hx : Cut chunk (a ++ y) := by
            apply hcut
            cases rest with
            | nil => exact absurd rfl hmore
            | cons z rest => exact List.mem_cons_self
          by_cases hy : y = []
          · apply hfound [] ?_ (Or.inl rfl)
            rw [hd, hy]
            rfl
          · rcases hx with hended | ⟨hunended, hlong⟩
            · obtain ⟨e, he, hise⟩ := hended.of_append hy
              have hnot := hrecord e (List.mem_append_left d (List.mem_of_getLast? he))
              rw [hise] at hnot
              cases hnot
            · rcases hstart with rfl | ⟨e, he, hise⟩
              · rw [List.nil_append] at hlong
                rw [List.length_append] at hshort
                omega
              · have hnot := hunended e (List.mem_append_left y (List.mem_of_getLast? he))
                rw [hise] at hnot
                cases hnot

end Record

/-! ## A loss in a text -/

section Loss
open Lib Lib.Pattern Redact
variable {s t u : Cursor} {k : Rest} {value : Pattern}

def isQuote (c : Char) : Bool := Redact.among ['\'', '"'] c

def isSeparator (c : Char) : Bool := Redact.among [':', '='] c

theorem among_cases {a b c : Char} (h : Redact.among [a, b] c = true) : c = a ∨ c = b := by
  unfold Redact.among at h
  rw [List.any_cons, List.any_cons, List.any_nil, Bool.or_false, Bool.or_eq_true, decide_eq_true_eq, decide_eq_true_eq] at h
  rcases h with h | h
  · exact Or.inl (Char.toNat_inj.mp h.symm)
  · exact Or.inr (Char.toNat_inj.mp h.symm)

/-- A quote stands for nothing else of the pattern. -/
theorem quote_alone {c : Char} (h : isQuote c = true) : foldCase c = c ∧ c ≠ 'l' ∧ Py.isSpace c = false ∧ isSeparator c = false := by
  rcases among_cases h with rfl | rfl
  · decide
  · decide

theorem separator_alone {c : Char} (h : isSeparator c = true) : foldCase c ≠ 'l' ∧ Py.isSpace c = false ∧ isQuote c = false := by
  rcases among_cases h with rfl | rfl
  · decide
  · decide

/-- A quote, or none. -/
def Quote (q : List Char) : Prop := q = [] ∨ ∃ d, q = [d] ∧ isQuote d = true

theorem run_opt_quote (h : (opt (char isQuote)).run s k = some t) :
    ∃ q u, Quote q ∧ s.Leads q u ∧ u.groups = s.groups ∧ k u = some t := by
  unfold opt run at h
  split at h
  · rename_i found hfound
    cases h
    unfold run at hfound
    split at hfound
    · cases hfound
    · rename_i d rest hafter
      split at hfound
      · rename_i hquote
        exact ⟨[d], _, Or.inr ⟨d, rfl, hquote⟩, Cursor.leads_advance hafter, rfl, hfound⟩
      · cases hfound
  · exact ⟨[], s, Or.inl rfl, .refl s, rfl, h⟩

/-- A quote is taken where there is one. -/
theorem opt_quote_run {q rest before : List Char} {groups : List (Nat × List Char)} (hq : Quote q)
    (hrest : q = [] → ∀ c ∈ rest.head?, isQuote c = false) (hk : k ⟨q.reverse ++ before, rest, groups⟩ = some t) :
    (opt (char isQuote)).run ⟨before, q ++ rest, groups⟩ k = some t := by
  unfold opt run
  unfold run
  rcases hq with rfl | ⟨d, rfl, hd⟩
  · cases rest with
    | nil => exact hk
    | cons c rest =>
      dsimp only [List.nil_append]
      rw [hrest rfl c rfl]
      exact hk
  · dsimp only [List.cons_append]
    rw [if_pos hd]
    have hnext : k (Cursor.advance ⟨before, d :: ([] ++ rest), groups⟩ d ([] ++ rest)) = some t := hk
    rw [hnext]

/-- What stands between the start of a match and its value. -/
structure Keyed (q w q' xs : List Char) (c : Char) (ys : List Char) : Prop where
  open_ : Quote q
  key : List.Forall₂ (fun a b => decide (foldCase a = foldCase b) = true) "loss".toList w
  close : Quote q'
  before : ∀ x ∈ xs, Py.isSpace x = true
  separator : isSeparator c = true
  after : ∀ y ∈ ys, Py.isSpace y = true

/-- Nothing that could belong to the key stands before. -/
def Free (before : List Char) : Prop := before.head?.any (fun c => isAlnum (foldCase c) || Redact.among ['_'] c) = false

/-- The key, its separator and a value, without what is asked of what stands before. -/
def keyedRest (value : Pattern) : Pattern :=
  seq (opt (char isQuote)) (seq (anyCase "loss") (seq (opt (char isQuote)) (seq spaces (seq (char isSeparator)
    (seq spaces (group 1 value))))))

theorem keyed_eq (h : Free s.before) : (keyed "loss" value).run s k = (keyedRest value).run s k := by
  have hcheck : (keyed "loss" value).run s k =
      if !(s.before.head?.any fun c => isAlnum (foldCase c) || Redact.among ['_'] c) then (keyedRest value).run s k else none := rfl
  rw [hcheck, h]
  rfl

theorem keyed_free (h : (keyed "loss" value).run s k = some t) : Free s.before := by
  have hcheck : (keyed "loss" value).run s k =
      if !(s.before.head?.any fun c => isAlnum (foldCase c) || Redact.among ['_'] c) then (keyedRest value).run s k else none := rfl
  rw [hcheck] at h
  split at h
  · rename_i hfree
    rwa [Bool.not_eq_true'] at hfree
  · cases h

theorem char_takes {ok : Char → Bool} (h : (char ok).run s k = some t) :
    ∃ c rest, s.after = c :: rest ∧ ok c = true ∧ k (s.advance c rest) = some t := by
  unfold run at h
  split at h
  · cases h
  · rename_i c rest hafter
    split at h
    · rename_i hok
      exact ⟨c, rest, hafter, hok, h⟩
    · cases h

theorem keyed_takes (h : (keyed "loss" value).run s some = some t) : ∃ q w q' xs c ys u, Keyed q w q' xs c ys ∧
    s.Leads (q ++ (w ++ (q' ++ (xs ++ c :: ys)))) u ∧ u.groups = s.groups ∧ (group 1 value).run u some = some t := by
  rw [keyed_eq (keyed_free h)] at h
  obtain ⟨q, s₁, hq, hlead₁, hgroups₁, h⟩ := run_opt_quote h
  obtain ⟨w, s₂, hw, hlead₂, hgroups₂, h⟩ := ofChars_takes h
  obtain ⟨q', s₃, hq', hlead₃, hgroups₃, h⟩ := run_opt_quote h
  obtain ⟨xs, s₄, hxs, hlead₄, hgroups₄, h⟩ := many_char_takes h
  have hchar : (char isSeparator).run s₄ (fun t => (seq spaces (group 1 value)).run t some) = some t := h
  obtain ⟨c, rest, hafter, hc, h⟩ := char_takes hchar
  obtain ⟨ys, u, hys, hlead₆, hgroups₆, h⟩ := many_char_takes h
  have hlead₅ := (Cursor.leads_advance hafter).trans hlead₆
  refine ⟨q, w, q', xs, c, ys, u, ⟨hq, hw, hq', hxs, hc, hys⟩, ?_, ?_, h⟩
  · exact hlead₁.trans (hlead₂.trans (hlead₃.trans (hlead₄.trans hlead₅)))
  · rw [hgroups₆]
    exact hgroups₄.trans (hgroups₃.trans (hgroups₂.trans hgroups₁))

theorem keyed_run {q w q' xs ys rest before : List Char} {c : Char} {groups : List (Nat × List Char)} (hfree : Free before)
    (h : Keyed q w q' xs c ys) (hrest : ∀ x ∈ rest.head?, Py.isSpace x = false)
    (hvalue : (group 1 value).run ⟨(q ++ (w ++ (q' ++ (xs ++ c :: ys)))).reverse ++ before, rest, groups⟩ some = some t) :
    (keyed "loss" value).run ⟨before, q ++ (w ++ (q' ++ (xs ++ c :: (ys ++ rest)))), groups⟩ some = some t := by
  rw [keyed_eq hfree]
  apply opt_quote_run h.open_
  · intro _ a ha
    have hkey := h.key
    cases hkey with
    | @cons _ b _ _ hb _ =>
      obtain rfl := Option.some.inj ha
      rw [Bool.eq_false_iff]
      intro hquote
      obtain ⟨hfold, hne, -⟩ := quote_alone hquote
      exact hne (hfold ▸ (of_decide_eq_true hb).symm)
  · have hkey := @run_ofChars (fun t => (seq (opt (char isQuote)) (seq spaces (seq (char isSeparator)
      (seq spaces (group 1 value))))).run t some) _ _ _ (q' ++ (xs ++ c :: (ys ++ rest))) (q.reverse ++ before)
      groups h.key
    refine hkey.trans ?_
    apply opt_quote_run h.close
    · intro _ a ha
      rw [Bool.eq_false_iff]
      intro hquote
      obtain ⟨-, -, hspace, hseparator⟩ := quote_alone hquote
      cases xs with
      | nil =>
        obtain rfl := Option.some.inj ha
        rw [h.separator] at hseparator
        cases hseparator
      | cons x xs =>
        obtain rfl := Option.some.inj ha
        rw [h.before x List.mem_cons_self] at hspace
        cases hspace
    · apply run_many_char h.before
      · intro a ha
        obtain rfl := Option.some.inj ha
        exact (separator_alone h.separator).2.1
      · have hsep : (char isSeparator).run ⟨xs.reverse ++ (q'.reverse ++ (w.reverse ++ (q.reverse ++ before))), c :: (ys ++ rest), groups⟩
            (fun t => (seq spaces (group 1 value)).run t some) =
            (seq spaces (group 1 value)).run ⟨c :: (xs.reverse ++ (q'.reverse ++ (w.reverse ++ (q.reverse ++ before)))), ys ++ rest, groups⟩ some :=
          if_pos h.separator
        refine hsep.trans ?_
        apply run_many_char h.after hrest
        simpa using hvalue

def spaceCodes : List Nat :=
  [9, 10, 11, 12, 13, 28, 29, 30, 31, 32, 0x85, 0xA0, 0x1680, 0x2000, 0x2001, 0x2002, 0x2003, 0x2004, 0x2005, 0x2006, 0x2007,
    0x2008, 0x2009, 0x200A, 0x2028, 0x2029, 0x202F, 0x205F, 0x3000]

theorem space_alone {c : Char} (h : Py.isSpace c = true) : lossValue.takes c = false ∧ foldCase c ≠ 'l' ∧ isQuote c = false := by
  have hcode : c.toNat ∈ spaceCodes := by
    unfold Py.isSpace at h
    simp only [Bool.or_eq_true, Bool.and_eq_true, decide_eq_true_eq] at h
    simp only [spaceCodes, List.mem_cons, List.not_mem_nil, or_false]
    omega
  have hall : ∀ n ∈ spaceCodes, lossValue.takes (Char.ofNat n) = false ∧ foldCase (Char.ofNat n) ≠ 'l' ∧
      isQuote (Char.ofNat n) = false := by decide
  have hone := hall c.toNat hcode
  rwa [Char.ofNat_toNat] at hone

/-- A character that a match can start with. -/
def Opens (c : Char) : Prop := isQuote c = true ∨ foldCase c = 'l'

theorem foldCase_letter {c : Char} (h : foldCase c = 'l') : c = 'l' ∨ c = 'L' := by
  unfold foldCase at h
  split at h
  · rename_i hupper
    unfold isUpper inRange at hupper
    rw [Bool.and_eq_true, decide_eq_true_eq, decide_eq_true_eq] at hupper
    have hall : ∀ n ∈ List.range 91, 65 ≤ n → Char.ofNat (n + 32) = 'l' → n = 76 := by decide
    have hcode := hall c.toNat (List.mem_range.mpr (by omega)) hupper.1 h
    exact Or.inr (Char.toNat_inj.mp hcode)
  · split at h
    · exact absurd h (by decide)
    · split at h
      · exact absurd h (by decide)
      · split at h
        · exact absurd h (by decide)
        · exact Or.inl h

theorem value_not_opens {c : Char} (h : lossValue.takes c = true) : ¬Opens c := by
  rintro (hquote | hfold)
  · rcases among_cases hquote with rfl | rfl
    · exact absurd h (by decide)
    · exact absurd h (by decide)
  · rcases foldCase_letter hfold with rfl | rfl
    · exact absurd h (by decide)
    · exact absurd h (by decide)

/-- What follows the key of a match opens no other. -/
theorem Keyed.not_opens {q w q' xs ys val : List Char} {c : Char} (h : Keyed q w q' xs c ys)
    (hval : ∀ x ∈ val, lossValue.takes x = true) : ∀ x ∈ xs ++ c :: (ys ++ val), ¬Opens x := by
  have hspace (x : Char) (hx : Py.isSpace x = true) : ¬Opens x := by
    rintro (hquote | hfold)
    · exact Bool.eq_false_iff.mp (space_alone hx).2.2 hquote
    · exact (space_alone hx).2.1 hfold
  intro x hx
  rcases List.mem_append.mp hx with hx | hx
  · exact hspace x (h.before x hx)
  · rcases List.mem_cons.mp hx with rfl | hx
    · rintro (hquote | hfold)
      · exact Bool.eq_false_iff.mp (separator_alone h.separator).2.2 hquote
      · exact (separator_alone h.separator).1 hfold
    · rcases List.mem_append.mp hx with hx | hx
      · exact hspace x (h.after x hx)
      · exact value_not_opens (hval x hx)

/-- The spelling of the key: its first letter opens a match, and the others do not. -/
theorem Keyed.key_cons {q w q' xs ys : List Char} {c : Char} (h : Keyed q w q' xs c ys) :
    ∃ a rest, w = a :: rest ∧ foldCase a = 'l' ∧ ∀ x ∈ rest, ¬Opens x := by
  have hletter {x d : Char} (hfold : decide (foldCase d = foldCase x) = true) (hne : foldCase d ≠ 'l')
      (hquote : isQuote (foldCase d) = false) : ¬Opens x := by
    have heq := of_decide_eq_true hfold
    rintro (hx | hx)
    · rw [heq, (quote_alone hx).1, hx] at hquote
      cases hquote
    · exact hne (heq.trans hx)
  have hkey := h.key
  have hword : "loss".toList = ['l', 'o', 's', 's'] := rfl
  rw [hword] at hkey
  obtain ⟨a, w₁, hl, hkey₁, rfl⟩ := List.forall₂_cons_left_iff.mp hkey
  obtain ⟨b, w₂, ho, hkey₂, rfl⟩ := List.forall₂_cons_left_iff.mp hkey₁
  obtain ⟨c, w₃, hs, hkey₃, rfl⟩ := List.forall₂_cons_left_iff.mp hkey₂
  obtain ⟨d, w₄, hs', hkey₄, rfl⟩ := List.forall₂_cons_left_iff.mp hkey₃
  obtain rfl := List.forall₂_nil_left_iff.mp hkey₄
  refine ⟨a, [b, c, d], rfl, (of_decide_eq_true hl).symm, ?_⟩
  intro x hx
  rcases List.mem_cons.mp hx with rfl | hx
  · exact hletter ho (by decide) (by decide)
  · rcases List.mem_pair.mp hx with rfl | rfl
    · exact hletter hs (by decide) (by decide)
    · exact hletter hs' (by decide) (by decide)

/-- A match of the loss, with its value. -/
theorem loss_takes {m : Match} (h : lossPoint.matchAt s = some (m, t)) : ∃ q w q' xs c ys x val, Keyed q w q' xs c ys ∧
    s.Leads (q ++ (w ++ (q' ++ (xs ++ c :: ys)))) x ∧ x.groups = s.groups ∧ (group 1 lossValue).run x some = some t ∧
    x.after = val ++ t.after ∧ val ≠ [] ∧ ∀ a ∈ val, lossValue.takes a = true := by
  obtain ⟨found, hfound, heq⟩ := Option.map_eq_some_iff.mp h
  cases heq
  obtain ⟨q, w, q', xs, c, ys, x, hkeyed, hlead, hgroups, hvalue⟩ := keyed_takes hfound
  obtain ⟨val, y, ⟨-, hafter⟩, htakes, hneeds, hy⟩ := run_takes hvalue
  obtain rfl := Option.some.inj hy
  exact ⟨q, w, q', xs, c, ys, x, val, hkeyed, hlead, hgroups, hvalue, hafter, hneeds (by decide), htakes⟩

def RecordEnd (c : Char) : Prop := c = '\n' ∨ c = '\r'

/-- A match in a record is one in the text around it, with the same value. -/
theorem loss_within {m : Match} {u v A B : List Char} (hA : ∀ c ∈ A.getLast?, RecordEnd c) (hB : ∀ c ∈ B.head?, RecordEnd c)
    (h : lossPoint.matchAt ⟨u.reverse, v, []⟩ = some (m, t)) (ht : t.after.length < v.length) :
    ∃ m' t', lossPoint.matchAt ⟨(A ++ u).reverse, v ++ B, []⟩ = some (m', t') ∧ m'.get 1 = m.get 1 ∧
      t'.after.length < (v ++ B).length := by
  obtain ⟨found, hfound, heq⟩ := Option.map_eq_some_iff.mp h
  have hfree := keyed_free hfound
  obtain ⟨q, w, q', xs, c, ys, x, val, hkeyed, ⟨hbefore, hafter⟩, hgroups, hvalue, hrest, hne, htakes⟩ := loss_takes h
  have hstop (c : Char) (hc : c ∈ B.head?) : (group 1 lossValue).takes c = false := by
    rcases hB c hc with rfl | rfl
    · decide
    · decide
  have hlonger : (group 1 lossValue).run (x.within A.reverse B) some = some (t.within A.reverse B) := by
    have hk (u : Cursor) : some (u.within A.reverse B) = (some u).map (·.within A.reverse B) := rfl
    rw [run_within (by decide) hstop hk, hvalue]
    rfl
  have hfree' : Free (u.reverse ++ A.reverse) := by
    cases hu : u.reverse with
    | cons a rest =>
      unfold Free at hfree ⊢
      dsimp only at hfree
      rw [hu] at hfree
      exact hfree
    | nil =>
      unfold Free
      rw [List.nil_append, List.head?_reverse]
      cases hlast : A.getLast? with
      | none => rfl
      | some c =>
        rcases hA c hlast with rfl | rfl
        · decide
        · decide
  have hspace (d : Char) (hd : d ∈ (x.after ++ B).head?) : Py.isSpace d = false := by
    cases val with
    | nil => exact absurd rfl hne
    | cons a val =>
      rw [hrest] at hd
      obtain rfl := Option.some.inj hd
      rw [Bool.eq_false_iff]
      intro hisspace
      have htake := htakes a List.mem_cons_self
      rw [(space_alone hisspace).1] at htake
      cases htake
  have hcursor : (⟨(q ++ (w ++ (q' ++ (xs ++ c :: ys)))).reverse ++ (u.reverse ++ A.reverse), x.after ++ B, []⟩ : Cursor) =
      x.within A.reverse B := by
    unfold Cursor.within
    rw [hbefore, hgroups, List.append_assoc]
  have hrun := keyed_run (t := t.within A.reverse B) hfree' hkeyed hspace (hcursor ▸ hlonger)
  have htext : q ++ (w ++ (q' ++ (xs ++ c :: (ys ++ (x.after ++ B))))) = v ++ B := by
    dsimp only at hafter
    rw [hafter]
    simp
  rw [htext, ← List.reverse_append] at hrun
  refine ⟨_, t.within A.reverse B, congrArg (Option.map _) hrun, ?_, ?_⟩
  · cases heq
    rfl
  · unfold Cursor.within
    rw [List.length_append, List.length_append]
    omega

/-- A piece that starts with an opening character starts where one is. -/
theorem opens_split {xs rest p y : List Char} (hxs : ∀ x ∈ xs, ¬Opens x) (h : xs ++ rest = p ++ y)
    (hy : ∃ d y', y = d :: y' ∧ Opens d) : ∃ p', p = xs ++ p' ∧ rest = p' ++ y := by
  obtain ⟨d, y', rfl, hd⟩ := hy
  rcases List.append_eq_append_iff.mp h with ⟨p', hp, hrest⟩ | ⟨z, hx, hz⟩
  · exact ⟨p', hp, hrest⟩
  · cases z with
    | nil =>
      rw [List.append_nil] at hx
      exact ⟨[], by rw [List.append_nil, hx], hz.symm⟩
    | cons a z =>
      obtain ⟨rfl, -⟩ := List.cons.inj hz
      exact absurd hd (hxs d (hx ▸ List.mem_append_right p List.mem_cons_self))

theorem Keyed.opens {q w q' xs ys rest : List Char} {c : Char} (h : Keyed q w q' xs c ys) :
    ∃ d y, q ++ (w ++ (q' ++ (xs ++ c :: ys))) ++ rest = d :: y ∧ Opens d := by
  obtain ⟨a, w', rfl, ha, -⟩ := h.key_cons
  rcases h.open_ with rfl | ⟨d, rfl, hd⟩
  · exact ⟨a, _, rfl, Or.inr ha⟩
  · exact ⟨d, _, rfl, Or.inl hd⟩

/-- Behind its quote a match goes on as one that starts there. -/
theorem loss_behind_quote {m₀ m₁ : Match} {t₀ t₁ : Cursor} {d a : Char} {v before : List Char} (hd : isQuote d = true)
    (ha : foldCase a = 'l') (h₀ : lossPoint.matchAt ⟨before, d :: a :: v, []⟩ = some (m₀, t₀))
    (h₁ : lossPoint.matchAt ⟨d :: before, a :: v, []⟩ = some (m₁, t₁)) : m₀.get 1 = m₁.get 1 := by
  obtain ⟨found₀, hfound₀, heq₀⟩ := Option.map_eq_some_iff.mp h₀
  obtain ⟨found₁, hfound₁, heq₁⟩ := Option.map_eq_some_iff.mp h₁
  obtain ⟨rfl, rfl⟩ := Prod.mk.inj heq₀
  obtain ⟨rfl, rfl⟩ := Prod.mk.inj heq₁
  have hrun₀ := (keyed_eq (keyed_free hfound₀)).symm.trans hfound₀
  have hrun₁ := (keyed_eq (keyed_free hfound₁)).symm.trans hfound₁
  obtain ⟨q, u, hq, ⟨hbefore, hafter⟩, hgroups, hu⟩ := run_opt_quote hrun₁
  dsimp only at hbefore hafter hgroups
  have hnil : q = [] := by
    rcases hq with rfl | ⟨e, rfl, he⟩
    · rfl
    · obtain ⟨rfl, -⟩ := List.cons.inj hafter
      obtain ⟨hfold, hne, -⟩ := quote_alone he
      exact absurd (hfold.symm.trans ha) hne
  have hcursor : u = ⟨d :: before, a :: v, []⟩ := by
    rw [hnil] at hbefore hafter
    obtain ⟨ub, ua, ug⟩ := u
    dsimp only at hbefore hafter hgroups
    rw [hbefore, hgroups, show ua = a :: v from hafter.symm]
    rfl
  rw [hcursor] at hu
  have hsame : (keyedRest lossValue).run ⟨before, [d] ++ a :: v, []⟩ some = some found₁ :=
    opt_quote_run (Or.inr ⟨d, rfl, hd⟩) (fun h => by cases h) hu
  have heq : found₀ = found₁ := Option.some.inj (hrun₀.symm.trans hsame)
  rw [heq]
  rfl

/-- Of two matches that overlap the later starts at the key of the earlier, behind its quote. -/
theorem loss_overlap {m₀ m₁ : Match} {t₀ t₁ : Cursor} {p v before : List Char} (hp : p ≠ [])
    (h₀ : lossPoint.matchAt ⟨before, p ++ v, []⟩ = some (m₀, t₀)) (h₁ : lossPoint.matchAt ⟨p.reverse ++ before, v, []⟩ = some (m₁, t₁))
    (hreach : t₀.after.length < v.length) : m₀.get 1 = m₁.get 1 := by
  obtain ⟨q₀, w₀, q₀', xs₀, c₀, ys₀, x₀, val₀, hkeyed₀, ⟨-, hafter₀⟩, -, -, hrest₀, hne₀, htakes₀⟩ := loss_takes h₀
  obtain ⟨q₁, w₁, q₁', xs₁, c₁, ys₁, x₁, val₁, hkeyed₁, ⟨-, hafter₁⟩, -, -, -, -, -⟩ := loss_takes h₁
  dsimp only at hafter₀ hafter₁
  have htail := hkeyed₀.not_opens htakes₀
  obtain ⟨a, w, rfl, ha, hw⟩ := hkeyed₀.key_cons
  obtain ⟨a₁, w', rfl, ha₁, -⟩ := hkeyed₁.key_cons
  -- the later match starts within the earlier one
  have hfull : q₀ ++ (a :: (w ++ (q₀' ++ (xs₀ ++ c₀ :: (ys₀ ++ val₀))))) ++ t₀.after = p ++ v := by
    rw [hafter₀, hrest₀]
    simp
  obtain ⟨y, hy, hv⟩ : ∃ y, q₀ ++ (a :: (w ++ (q₀' ++ (xs₀ ++ c₀ :: (ys₀ ++ val₀))))) = p ++ y ∧ v = y ++ t₀.after := by
    rcases List.append_eq_append_iff.mp hfull with ⟨y, -, hlong⟩ | ⟨y, hsplit, hv⟩
    · rw [hlong, List.length_append] at hreach
      omega
    · exact ⟨y, hsplit, hv⟩
  have hyopens : ∃ d y', y = d :: y' ∧ Opens d := by
    obtain ⟨d, y', hd, hopens⟩ := hkeyed₁.opens
    rw [← hafter₁, hv] at hd
    cases y with
    | nil =>
      rw [hv] at hreach
      exact absurd hreach (Nat.lt_irrefl _)
    | cons b y =>
      obtain ⟨rfl, -⟩ := List.cons.inj hd
      exact ⟨b, y, rfl, hopens⟩
  -- behind the key nothing opens a match but a quote, which no key follows
  have hclose (p' : List Char) (hsplit : q₀' ++ (xs₀ ++ c₀ :: (ys₀ ++ val₀)) = p' ++ y) : False := by
    have hin (p'' : List Char) (hsplit' : xs₀ ++ c₀ :: (ys₀ ++ val₀) = p'' ++ y) : False := by
      obtain ⟨d, y', rfl, hd⟩ := hyopens
      exact htail d (hsplit' ▸ List.mem_append_right p'' List.mem_cons_self) hd
    rcases hkeyed₀.close with rfl | ⟨e, rfl, he⟩
    · exact hin p' hsplit
    · cases p' with
      | cons b p' => exact hin p' (List.cons.inj hsplit).2
      | nil =>
        rw [List.nil_append] at hsplit
        rw [hv, ← hsplit] at hafter₁
        rcases hkeyed₁.open_ with rfl | ⟨e₁, rfl, -⟩
        · obtain ⟨rfl, -⟩ := List.cons.inj hafter₁
          obtain ⟨hfold, hne, -⟩ := quote_alone he
          exact hne (hfold.symm.trans ha₁)
        · have hrest := (List.cons.inj hafter₁).2
          apply htail a₁ ?_ (Or.inr ha₁)
          cases xs₀ with
          | nil =>
            obtain ⟨rfl, -⟩ := List.cons.inj hrest
            exact List.mem_cons_self
          | cons b xs₀ =>
            obtain ⟨rfl, -⟩ := List.cons.inj hrest
            exact List.mem_cons_self
  have hkey (p' : List Char) (hsplit : w ++ (q₀' ++ (xs₀ ++ c₀ :: (ys₀ ++ val₀))) = p' ++ y) : False := by
    obtain ⟨p'', -, hrest⟩ := opens_split hw hsplit hyopens
    exact hclose p'' hrest
  cases p with
  | nil => exact absurd rfl hp
  | cons b p =>
    rcases hkeyed₀.open_ with rfl | ⟨e, rfl, he⟩
    · exact (hkey p (List.cons.inj hy).2).elim
    · have htail' : a :: (w ++ (q₀' ++ (xs₀ ++ c₀ :: (ys₀ ++ val₀)))) = p ++ y := (List.cons.inj hy).2
      obtain rfl : e = b := (List.cons.inj hy).1
      cases p with
      | cons b p => exact (hkey p (List.cons.inj htail').2).elim
      | nil =>
        rw [List.nil_append] at htail'
        rw [hv, ← htail'] at h₀ h₁
        exact loss_behind_quote he ha h₀ h₁

/-- A non-finite loss of a text. -/
def LossSeen (text : List Char) : Prop :=
  ∃ m ∈ lossPoint.finditer text, spelled (m.get 1) = true ∧ Py.parseFloat (String.ofList (m.get 1)) = none

/-- A value that a match in a record has is one that the text around it is searched for. -/
theorem value_within {m : Match} {A R B : List Char} (hA : ∀ c ∈ A.getLast?, RecordEnd c) (hB : ∀ c ∈ B.head?, RecordEnd c)
    (h : m ∈ lossPoint.finditer R) : ∃ m' ∈ lossPoint.finditer (A ++ R ++ B), m'.get 1 = m.get 1 := by
  obtain ⟨u, v, t, rfl, hm, ht⟩ := mem_matchesFrom h
  rw [List.append_nil] at hm
  obtain ⟨m₁, t₁, hm₁, hvalue₁, ht₁⟩ := loss_within hA hB hm ht
  have hsplit : A ++ (u ++ v) ++ B = (A ++ u) ++ (v ++ B) := by simp only [List.append_assoc]
  have hstart : (A ++ u).reverse ++ [] = (A ++ u).reverse := List.append_nil _
  obtain ⟨u₀, v₀, m₀, t₀, hsplit₀, hle, hm₀, ht₀, hfound⟩ :=
    matchesFrom_covers (le_refl _) hsplit (hstart.symm ▸ hm₁) ht₁
  refine ⟨m₀, hfound, ?_⟩
  rw [List.append_nil] at hm₀
  rw [hsplit] at hsplit₀
  obtain ⟨p, hp, hv₀⟩ : ∃ p, A ++ u = u₀ ++ p ∧ v₀ = p ++ (v ++ B) := by
    rcases List.append_eq_append_iff.mp hsplit₀ with ⟨p, hlong, hrest⟩ | ⟨p, hlong, hrest⟩
    · have hlength := congrArg List.length hlong
      rw [List.length_append] at hlength
      have hnil : p = [] := List.length_eq_zero_iff.mp (by omega)
      rw [hnil, List.append_nil] at hlong
      rw [hnil, List.nil_append] at hrest
      exact ⟨[], by rw [hlong, List.append_nil], hrest.symm⟩
    · exact ⟨p, hlong, hrest⟩
  rw [hv₀] at hm₀
  rw [hp, List.reverse_append] at hm₁
  by_cases hnil : p = []
  · rw [hnil] at hm₀ hm₁
    have hsame := Option.some.inj (hm₀.symm.trans hm₁)
    rw [← hvalue₁, (Prod.mk.inj hsame).1]
  · rw [← hvalue₁]
    exact loss_overlap hnil hm₀ hm₁ ht₀

theorem nonfinite_of_seen {text : List Char} (h : LossSeen text) : (parseLossPoints text).2 ≠ 0 := by
  obtain ⟨m, hm, hspelled, hnone⟩ := h
  have hmem : m.get 1 ∈ ((lossPoint.finditer text).map fun m => m.get 1).filter spelled :=
    List.mem_filter.mpr ⟨List.mem_map_of_mem hm, hspelled⟩
  have hless := List.length_filterMap_lt_length_iff_exists (f := fun v => Py.parseFloat (String.ofList v)) |>.mpr ⟨_, hmem, hnone⟩
  unfold parseLossPoints
  dsimp only
  omega

/-- The window of a text with a non-finite loss says so. -/
theorem window_of_seen {text : List Char} (h : LossSeen text) : ∃ w, summarizeLossWindow text = some w ∧ w.nonfinite ≠ 0 := by
  have hnonfinite := nonfinite_of_seen h
  unfold summarizeLossWindow
  split
  · rename_i hnone
    rw [hnone] at hnonfinite
    exact absurd rfl hnonfinite
  · rename_i hsome
    rw [hsome] at hnonfinite
    exact ⟨_, rfl, hnonfinite⟩
  · rename_i hsome
    rw [hsome] at hnonfinite
    exact ⟨_, rfl, hnonfinite⟩

theorem seen_within {A R B : List Char} (hA : ∀ c ∈ A.getLast?, RecordEnd c) (hB : ∀ c ∈ B.head?, RecordEnd c) (h : LossSeen R) :
    LossSeen (A ++ R ++ B) := by
  obtain ⟨m, hm, hspelled, hnone⟩ := h
  obtain ⟨m', hm', hvalue⟩ := value_within hA hB hm
  refine ⟨m', hm', ?_⟩
  rw [hvalue]
  exact ⟨hspelled, hnone⟩

end Loss

/-! ## Decoding -/

section Decoding
open Tools
variable {a b r x : Bytes}

/-- The bounds between which the next byte of a character lies leave out what is a character of its own. -/
def Above : Option Pending → Prop
  | none => True
  | some p => 0x80 ≤ p.lo

theorem firstByte_above (n : Nat) : Above (firstByte n).2 := by
  unfold firstByte
  repeat' split
  all_goals simp [Above]

theorem utf8From_single {st : Option Pending} (hst : Above st) {e : Nat} (he : e < 0x80) (ys : List Nat) :
    utf8From st (e :: ys) = utf8From st [] ++ Char.ofNat e :: utf8From none ys := by
  have hfirst : firstByte e = ([Char.ofNat e], none) := if_pos he
  cases st with
  | none =>
    conv_lhs => rw [utf8From, hfirst]
    rfl
  | some p =>
    have hlow : 0x80 ≤ p.lo := hst
    have hnot : (p.lo ≤ e && e ≤ p.hi) = false := by
      rw [decide_eq_false (by omega), Bool.false_and]
    conv_lhs => rw [utf8From, hnot, hfirst]
    rfl

/-- A byte that is a character of its own divides what stands before it from what follows. -/
theorem utf8From_append {st : Option Pending} (hst : Above st) {e : Nat} (he : e < 0x80) (xs ys : List Nat) :
    utf8From st (xs ++ e :: ys) = utf8From st xs ++ Char.ofNat e :: utf8From none ys := by
  induction xs generalizing st with
  | nil => exact utf8From_single hst he ys
  | cons b xs ih =>
    cases st with
    | none =>
      rw [List.cons_append, utf8From, utf8From, ih (firstByte_above b), List.append_assoc]
    | some p =>
      rw [List.cons_append, utf8From, utf8From]
      dsimp only
      by_cases hin : (p.lo ≤ b && b ≤ p.hi) = true
      · rw [if_pos hin, if_pos hin]
        by_cases howed : p.owed = 1
        · rw [if_pos howed, if_pos howed, @ih none trivial, List.cons_append]
        · rw [if_neg howed, if_neg howed, @ih (some _) (le_refl 0x80)]
      · rw [if_neg hin, if_neg hin, ih (firstByte_above b)]
        simp only [List.cons_append, List.append_assoc]

theorem recordEnd_code {e : UInt8} (h : isRecordEnd e = true) : e.toNat < 0x80 ∧ RecordEnd (Char.ofNat e.toNat) := by
  unfold isRecordEnd at h
  rw [Bool.or_eq_true, decide_eq_true_eq, decide_eq_true_eq] at h
  rcases h with rfl | rfl
  · exact ⟨by decide, Or.inl rfl⟩
  · exact ⟨by decide, Or.inr rfl⟩

theorem decoded_append {e : UInt8} (h : isRecordEnd e = true) (xs ys : Bytes) :
    decoded (xs ++ e :: ys) = decoded xs ++ Char.ofNat e.toNat :: decoded ys := by
  unfold decoded utf8
  rw [List.map_append, List.map_cons]
  exact @utf8From_append none trivial _ (recordEnd_code h).1 _ _

theorem decoded_start (h : StartsRecord a) : (∀ c ∈ (decoded a).getLast?, RecordEnd c) ∧ decoded (a ++ x) = decoded a ++ decoded x := by
  rcases h with rfl | ⟨e, he, hise⟩
  · exact ⟨nofun, rfl⟩
  · obtain ⟨front, rfl⟩ := List.getLast?_eq_some_iff.mp he
    have hfront : decoded (front ++ [e]) = decoded front ++ [Char.ofNat e.toNat] := decoded_append hise front []
    refine ⟨?_, ?_⟩
    · intro c hc
      rw [hfront, List.getLast?_concat] at hc
      obtain rfl := Option.some.inj hc
      exact (recordEnd_code hise).2
    · rw [List.append_assoc, List.singleton_append, decoded_append hise, hfront, List.append_assoc]
      rfl

theorem decoded_end (h : EndsRecord b) : (∀ c ∈ (decoded b).head?, RecordEnd c) ∧ decoded (x ++ b) = decoded x ++ decoded b := by
  cases b with
  | nil =>
    refine ⟨nofun, ?_⟩
    rw [List.append_nil]
    exact (List.append_nil _).symm
  | cons e rest =>
    have hise := h e rfl
    have hhead : decoded (e :: rest) = Char.ofNat e.toNat :: decoded rest := decoded_append hise [] rest
    refine ⟨?_, ?_⟩
    · intro c hc
      rw [hhead] at hc
      obtain rfl := Option.some.inj hc
      exact (recordEnd_code hise).2
    · rw [decoded_append hise, hhead]

/-- A loss of a record is one of any range that contains it whole. -/
theorem seen_in_range (ha : StartsRecord a) (hb : EndsRecord b) (h : LossSeen (decoded r)) : LossSeen (decoded (a ++ r ++ b)) := by
  obtain ⟨hA, -⟩ := decoded_start (x := r) ha
  obtain ⟨hB, hend⟩ := decoded_end (x := a ++ r) hb
  rw [hend, (decoded_start ha).2]
  exact seen_within hA hB h

end Decoding

/-! ## The reading -/

section Reading
variable {size floor : Nat} {windows : Option Int} {bytes : Bytes} {short : Nat → Nat}

/-- Every turn reads something. -/
theorem scan_turns (chunk remaining : Nat) (left carry : Bytes) (short : Nat → Nat) :
    (scan chunk remaining left carry short).buffers.length ≤ remaining := by
  induction remaining using Nat.strongRecOn generalizing left carry short with
  | ind remaining ih =>
  rw [scan]
  by_cases hzero : remaining = 0
  · rw [if_pos hzero]
    exact Nat.zero_le _
  · rw [if_neg hzero]
    dsimp only
    generalize read (short 0) (min chunk remaining) left = raw
    by_cases hnone : raw = []
    · rw [if_pos hnone]
      exact Nat.zero_le _
    · rw [if_neg hnone]
      have hpos := List.length_pos_of_ne_nil hnone
      cases cutOf chunk (carry ++ raw) with
      | none =>
        have hrest := ih (remaining - raw.length) (by omega) (left.drop raw.length) (carry ++ raw) (fun n => short (n + 1))
        dsimp only
        rw [List.length_cons]
        omega
      | some cut =>
        have hrest := ih (remaining - raw.length) (by omega) (left.drop raw.length) ((carry ++ raw).drop cut) (fun n => short (n + 1))
        dsimp only [Scan.before]
        rw [List.length_cons]
        omega

/-- The reading of an attempt, of which `bytes` are what the file gives from the floor on. -/
structure Reads (size floor : Nat) (windows : Option Int) (bytes : Bytes) (short : Nat → Nat) : Prop where
  covers : Covers (chunkOf (size - floor) (wanted windows)) (bytes.take (size - floor)) (stageScan size floor windows bytes short)
  turns : (stageScan size floor windows bytes short).buffers.length ≤ size - floor
  two : 2 ≤ size - floor → size - floor ≤ bytes.length → 2 ≤ (stageScan size floor windows bytes short).ranges.length
  summary : readStageTrajectory size floor windows bytes short =
    summarizeTrajectory ((stageScan size floor windows bytes short).ranges.filterMap fun range => summarizeLossWindow (decoded range))
  seen : ∀ a r b, bytes.take (size - floor) = a ++ r ++ b → StartsRecord a → EndsRecord b → Unended r →
    r.length < chunkOf (size - floor) (wanted windows) → LossSeen (decoded r) →
    (∃ x ∈ (stageScan size floor windows bytes short).ranges, (∃ a' b', x = a' ++ r ++ b') ∧
      ∃ w, summarizeLossWindow (decoded x) = some w ∧ w.nonfinite ≠ 0) ∧
    (readStageTrajectory size floor windows bytes short).anomaly = "non-finite loss or grad_norm"

theorem stageScan_covers : Covers (chunkOf (size - floor) (wanted windows)) (bytes.take (size - floor))
    (stageScan size floor windows bytes short) := by
  unfold stageScan
  dsimp only
  by_cases hzero : size - floor = 0
  · rw [if_pos hzero, hzero, List.take_zero]
    exact ⟨rfl, nofun, nofun, nofun, nofun⟩
  · rw [if_neg hzero]
    exact scan_covers chunkOf_pos _ _ [] _ nofun chunkOf_pos

theorem readStageTrajectory_eq : readStageTrajectory size floor windows bytes short =
    summarizeTrajectory ((stageScan size floor windows bytes short).ranges.filterMap fun range => summarizeLossWindow (decoded range)) := by
  unfold readStageTrajectory
  by_cases hzero : size - floor = 0
  · have hscan : stageScan size floor windows bytes short = {} := by
      unfold stageScan
      dsimp only
      rw [if_pos hzero]
    rw [if_pos hzero, hscan]
    rfl
  · rw [if_neg hzero]

/-- Every byte of an attempt is read once, in ranges that end with a record as far as they can, and a non-finite loss
that lies in a record of less than a chunk is seen by the window of the range that contains it. -/
theorem stage_log_read_once (size floor : Nat) (windows : Option Int) (bytes : Bytes) (short : Nat → Nat) :
    Reads size floor windows bytes short where
  covers := stageScan_covers
  turns := by
    unfold stageScan
    dsimp only
    split
    · exact Nat.zero_le _
    · exact scan_turns ..
  two := by
    intro hregion hall
    apply stageScan_covers.two ?_ chunkOf_pos
    rw [List.length_take, min_eq_left hall]
    exact chunkOf_half hregion
  summary := readStageTrajectory_eq
  seen := by
    intro a r b hsplit hstart hend hrecord hshort hseen
    have hne : r ≠ [] := by
      rintro rfl
      obtain ⟨m, hm, -⟩ := hseen
      cases hm
    have hcovers := @stageScan_covers size floor windows bytes short
    obtain ⟨x, hx, a', b', rfl, ha', hb'⟩ :=
      record_in_range hcovers.cut (hcovers.all.trans hsplit) hne hstart hend hrecord hshort
    obtain ⟨w, hw, hnonfinite⟩ := window_of_seen (seen_in_range ha' hb' hseen)
    refine ⟨⟨_, hx, ⟨a', b', rfl⟩, w, hw, hnonfinite⟩, ?_⟩
    rw [readStageTrajectory_eq, anomaly_summary]
    unfold anomalyOf
    apply if_pos
    unfold anyNonfinite
    exact List.any_eq_true.mpr ⟨w, List.mem_filterMap.mpr ⟨_, hx, hw⟩, decide_eq_true hnonfinite⟩

end Reading

end LoopLab.Engine.StageLog
