import LoopLab.Log.Scanning
import Mathlib.Data.List.Infix

/-!
# The cache of a store against the file

`Caches` says that a store holds exactly the events of some lines, and `Current` that those lines are the beginning
of the file and nothing more of the file can be read.
-/

set_option autoImplicit false

namespace LoopLab
open Lib

def headWindow (bytes : Bytes) : Bytes := bytes.take cacheAnchorBytes
def tailWindowOf (bytes : Bytes) : Bytes := bytes.drop (bytes.length - cacheAnchorBytes)

theorem take_min_length (n : Nat) (bytes : Bytes) :
    bytes.take (min n bytes.length) = bytes.take n := by
  rw [← List.take_take, List.take_length]

theorem drop_sub_min (n : Nat) (bytes : Bytes) :
    bytes.drop (bytes.length - min n bytes.length) = bytes.drop (bytes.length - n) := by
  congr 1
  omega

theorem headWindow_append (bytes accepted : Bytes) :
    (headWindow bytes ++ accepted).take (min cacheAnchorBytes (bytes.length + accepted.length)) =
      headWindow (bytes ++ accepted) := by
  rw [headWindow, headWindow]
  by_cases h : cacheAnchorBytes ≤ bytes.length
  · rw [Nat.min_eq_left (by omega), List.take_append_of_le_length (by simp; omega),
      List.take_append_of_le_length h, List.take_take, Nat.min_self]
  · rw [List.take_of_length_le (by omega : bytes.length ≤ cacheAnchorBytes)]
    rw [← List.length_append, take_min_length]

theorem lastBytes_eq {n : Nat} {buf : Bytes} (h : 0 < n) :
    lastBytes n buf = buf.drop (buf.length - n) := by
  rw [lastBytes, if_neg (by omega)]

theorem tailWindowOf_append {bytes : Bytes} (accepted : Bytes) (h : 0 < bytes.length) :
    lastBytes (min cacheAnchorBytes (bytes.length + accepted.length))
        (tailWindowOf bytes ++ accepted) = tailWindowOf (bytes ++ accepted) := by
  have hpos : 0 < cacheAnchorBytes := by decide
  rw [tailWindowOf, tailWindowOf]
  generalize cacheAnchorBytes = n at hpos ⊢
  rw [lastBytes_eq (by omega), List.length_append, List.length_append, List.length_drop]
  by_cases hw : n ≤ bytes.length
  · rw [Nat.min_eq_left (by omega), List.drop_append, List.drop_drop, List.drop_append,
      List.length_drop]
    congr 2 <;> omega
  · rw [show bytes.length - n = 0 by omega, List.drop_zero]
    congr 1
    omega

structure Caches (c : Codec) (s : EventStore) (lines : List Bytes) : Prop where
  unbroken : Unbroken newline lines
  takes : Takes c.readLine [] lines s.cache
  bytes : s.cacheBytes = (join newline lines).length
  hasher : s.cacheHasher = join newline lines
  windows : s.prefixHead = none ∨
    (s.prefixHead = some (headWindow (join newline lines)) ∧
      s.prefixTail = some (tailWindowOf (join newline lines)) ∧ lines ≠ [])

structure Current (c : Codec) (disk : Disk) (s : EventStore) (lines left : List Bytes) : Prop where
  caches : Caches c s lines
  complete : disk.complete = lines ++ left
  idle : c.Idle s.cache left
  mtime : s.cacheMtimeNs = disk.stat.map Stat.mtimeNs
  ctime : s.cacheCtimeNs = disk.stat.map Stat.ctimeNs
  identity : s.cacheIdentity = disk.stat.map Stat.entry

namespace Disk
variable (disk : Disk)

theorem content_eq : disk.content = join newline disk.complete ++ (cut newline disk.content).2 :=
  (join_cut newline _).symm

theorem unbroken : Unbroken newline disk.complete := (cut_unbroken newline _).1

theorem sizeOf_stat : EventStore.sizeOf disk.stat = disk.content.length := by
  cases disk <;> rfl

end Disk

variable {c : Codec} {disk : Disk} {s : EventStore} {lines left : List Bytes}

theorem Current.cache_eq (h : Current c disk s lines left) :
    s.cache = c.readable disk.complete := by
  rw [Codec.readable, h.complete, h.caches.takes.scan_append, h.idle.1]

theorem Current.left_eq_nil (h : Current c disk s lines left) :
    left = [] ↔ c.logDivergence disk = none := by
  rw [Codec.logDivergence_eq_none, h.complete, h.caches.takes.scan_append]
  refine ⟨?_, h.idle.2⟩
  rintro rfl
  rfl

namespace Caches

theorem blank : Caches c {} [] := ⟨unbroken_nil, .nil, rfl, rfl, .inl rfl⟩

theorem invalidate (s : EventStore) : Caches c s.invalidate [] :=
  ⟨unbroken_nil, .nil, rfl, rfl, .inl rfl⟩

theorem forgetTrust (h : Caches c s lines) : Caches c s.forgetTrust lines :=
  ⟨h.unbroken, h.takes, h.bytes, h.hasher, h.windows⟩

theorem stamp (h : Caches c s lines) (st : Option Stat) : Caches c (s.stamp st) lines :=
  ⟨h.unbroken, h.takes, h.bytes, h.hasher, h.windows⟩

theorem setSeq (h : Caches c s lines) (n : Int) : Caches c (s.setSeq n) lines :=
  ⟨h.unbroken, h.takes, h.bytes, h.hasher, h.windows⟩

theorem diverge (h : Caches c s lines) (d : Divergence) (st : Option Stat) :
    Caches c (s.diverge d st) lines :=
  ⟨h.unbroken, h.takes, h.bytes, h.hasher, h.windows⟩

theorem seedWindows (h : Caches c s lines) (hpos : 0 < s.cacheBytes) :
    Caches c (s.seedWindows (join newline lines)) lines := by
  refine ⟨h.unbroken, h.takes, h.bytes, h.hasher, .inr ⟨?_, ?_, ?_⟩⟩
  · simp only [EventStore.seedWindows, headWindow, h.bytes, take_min_length]
  · simp only [EventStore.seedWindows, tailWindowOf, h.bytes]
    rw [drop_sub_min]
  · rintro rfl
    rw [h.bytes] at hpos
    exact absurd hpos (by simp)

theorem extend (h : Caches c s lines) {read : List Bytes} {evs : List Event}
    (hu : Unbroken newline read) (ht : Takes c.readLine s.cache read (s.cache ++ evs)) :
    Caches c (s.extend evs (join newline read)) (lines ++ read) := by
  refine ⟨unbroken_append.mpr ⟨h.unbroken, hu⟩, h.takes.append ht, ?_, ?_, ?_⟩
  · rw [join_append, List.length_append, ← h.bytes]
    rfl
  · rw [join_append, ← h.hasher]
    rfl
  · rcases h.windows with hn | ⟨hh, htl, hne⟩
    · left
      simp only [EventStore.extend, hn, Option.map_none]
    · right
      have hpos : 0 < (join newline lines).length := List.length_pos_iff.mpr (join_ne_nil hne)
      refine ⟨?_, ?_, by simp [hne]⟩
      · simp only [EventStore.extend, hh, Option.map_some, h.bytes, join_append]
        rw [headWindow_append]
      · simp only [EventStore.extend, hh, htl, Option.isSome_some, if_true, Option.map_some, h.bytes,
          join_append]
        rw [tailWindowOf_append _ hpos]

end Caches

/-! ## Reading on from the consumed prefix -/

namespace EventStore
variable (c : Codec) (disk : Disk) (s : EventStore)

theorem absorb_seq : (s.absorb c disk).seq = s.seq := by
  unfold absorb
  dsimp only
  split <;> rfl

theorem absorb_trusted : (s.absorb c disk).trustedGrowthStat = s.trustedGrowthStat := by
  unfold absorb
  dsimp only
  split <;> rfl

theorem catchUp_seq : (s.catchUp c disk).seq = s.seq := by
  unfold catchUp
  split
  · exact absorb_seq c disk s
  · rfl

theorem catchUp_trusted : (s.catchUp c disk).trustedGrowthStat = s.trustedGrowthStat := by
  unfold catchUp
  split
  · exact absorb_trusted c disk s
  · rfl

theorem proved_cases : (s.proved c disk).2 = s ∨
    (0 < s.cacheBytes ∧ (s.proved c disk).2 = s.seedWindows (disk.content.take s.cacheBytes)) := by
  unfold proved
  split
  · rename_i hg
    unfold checkPrefix
    split
    · exact .inl rfl
    · split
      · exact .inl rfl
      · right
        simp only [externalGrowth, Bool.and_eq_true, decide_eq_true_eq] at hg
        exact ⟨hg.1.1.2, rfl⟩
  · exact .inl rfl

theorem proved_divergence : (s.proved c disk).2.divergence = s.divergence ∧
    (s.proved c disk).2.divergenceStat = s.divergenceStat := by
  rcases proved_cases c disk s with h | ⟨_, h⟩
  all_goals
    rw [h]
    exact ⟨rfl, rfl⟩

theorem proved_seq : (s.proved c disk).2.seq = s.seq := by
  rcases proved_cases c disk s with h | ⟨_, h⟩
  · rw [h]
  · rw [h]
    rfl

end EventStore

theorem absorb_current (h : Caches c s lines) (hp : join newline lines <+: disk.content) :
    ∃ read left, Caches c (s.absorb c disk) (lines ++ read) ∧ disk.complete = lines ++ read ++ left ∧
      c.Idle (s.absorb c disk).cache left ∧
      (left = [] → (s.absorb c disk).divergence = s.divergence ∧
        (s.absorb c disk).divergenceStat = s.divergenceStat) ∧
      (left ≠ [] → (s.absorb c disk).divergence = c.logDivergence disk ∧
        (s.absorb c disk).divergenceStat = disk.stat) := by
  obtain ⟨more, hcut, hcontent⟩ := join_prefix h.unbroken hp
  have hmore : Unbroken newline more :=
    (unbroken_append.mp (hcut ▸ disk.unbroken : Unbroken newline (lines ++ more))).2
  have htail := (cut_unbroken newline disk.content).2
  have hnew : disk.content.drop s.cacheBytes =
      join newline more ++ (cut newline disk.content).2 := by
    conv_lhs => rw [hcontent, h.bytes, join_append, List.append_assoc, List.drop_left]
  obtain ⟨evs, stop, hacc, read, left, hsplit, hstop, ht, hidle⟩ :=
    Codec.acceptRecords_scan (c := c) more [] s.cache 0 0 .nil (by simp)
  rw [List.nil_append] at hsplit
  rw [Nat.zero_add] at hstop
  obtain ⟨hread, hleft⟩ := unbroken_append.mp (hsplit ▸ hmore)
  have htake : (disk.content.drop s.cacheBytes).take stop = join newline read := by
    rw [hnew, hsplit, join_append, List.append_assoc, hstop, List.take_left]
  have hdrop : (disk.content.drop s.cacheBytes).drop stop =
      join newline left ++ (cut newline disk.content).2 := by
    rw [hnew, hsplit, join_append, List.append_assoc, hstop, List.drop_left]
  have hmem : newline ∈ (disk.content.drop s.cacheBytes).drop stop ↔ left ≠ [] := by
    rw [hdrop, List.mem_append]
    constructor
    · rintro (hm | hm) rfl
      · exact List.not_mem_nil hm
      · exact htail hm
    · intro hl
      exact .inl (mem_join hl)
  have hcomplete : disk.complete = lines ++ read ++ left := by
    rw [List.append_assoc, ← hsplit]
    exact hcut
  have hext := h.extend hread ht
  have hwalk : left ≠ [] → c.logDivergence disk ≠ none := by
    intro hl hnone
    rw [Codec.logDivergence_eq_none, hcomplete, hext.takes.scan_append] at hnone
    exact hl (hidle.2 hnone)
  have hparse : c.parseJsonlRegion (disk.content.drop s.cacheBytes) =
      ((c.scanJsonlRegion 0 more).1.map fun r => (r.1, r.2.2 + 1), (c.scanJsonlRegion 0 more).2) := by
    rw [Codec.parseJsonlRegion, hnew, cut_join hmore htail]
  by_cases hl : left = []
  · have heq : s.absorb c disk = s.extend evs (join newline read) := by
      simp only [EventStore.absorb, hparse, hacc, htake, if_neg (fun hm => hmem.mp hm hl)]
    rw [heq]
    exact ⟨read, left, hext, hcomplete, hidle, fun _ => ⟨rfl, rfl⟩, fun hne => absurd hl hne⟩
  · obtain ⟨d, hd⟩ := Option.ne_none_iff_exists'.mp (hwalk hl)
    have heq : s.absorb c disk = (s.extend evs (join newline read)).diverge d disk.stat := by
      simp only [EventStore.absorb, hparse, hacc, htake, if_pos (hmem.mpr hl), hd, Option.getD_some]
    rw [heq]
    exact ⟨read, left, hext.diverge _ _, hcomplete, hidle, fun hn => absurd hn hl,
      fun _ => ⟨hd.symm, rfl⟩⟩

def Verdict (c : Codec) (disk : Disk) (s s' : EventStore) (left : List Bytes) : Prop :=
  (left = [] → s'.divergence = s.divergence ∧ s'.divergenceStat = s.divergenceStat) ∧
    (left ≠ [] → s'.divergence = c.logDivergence disk ∧ s'.divergenceStat = disk.stat)

theorem catchUp_current (h : Caches c s lines) (hp : join newline lines <+: disk.content) :
    ∃ read left, Current c disk (s.catchUp c disk) (lines ++ read) left ∧
      Verdict c disk s (s.catchUp c disk) left := by
  by_cases hsize : s.cacheBytes < EventStore.sizeOf disk.stat
  · obtain ⟨read, left, hcaches, hcomplete, hidle, hnil, hcons⟩ := absorb_current h hp
    have heq : s.catchUp c disk = (s.absorb c disk).stamp disk.stat := by
      rw [EventStore.catchUp, if_pos hsize]
    rw [heq]
    exact ⟨read, left, ⟨hcaches.stamp _, hcomplete, hidle, rfl, rfl, rfl⟩, hnil, hcons⟩
  · rw [disk.sizeOf_stat, h.bytes, Nat.not_lt] at hsize
    have hcontent : join newline lines = disk.content := hp.eq_of_length_le hsize
    have hcomplete : disk.complete = lines := by
      have := cut_join (t := []) h.unbroken List.not_mem_nil
      rw [List.append_nil, hcontent] at this
      exact congrArg Prod.fst this
    have heq : s.catchUp c disk = s.stamp disk.stat := by
      rw [EventStore.catchUp, if_neg (by rw [disk.sizeOf_stat, h.bytes]; omega)]
    rw [heq]
    refine ⟨[], [], ⟨?_, ?_, Codec.idle_nil, rfl, rfl, rfl⟩, fun _ => ⟨rfl, rfl⟩,
      fun hne => absurd rfl hne⟩
    · rw [List.append_nil]
      exact h.stamp _
    · rw [List.append_nil, List.append_nil, hcomplete]

theorem proved_caches (h : Caches c s lines) (hp : join newline lines <+: disk.content) :
    Caches c (s.proved c disk).2 lines := by
  rcases s.proved_cases c disk with heq | ⟨hpos, heq⟩
  · rw [heq]
    exact h
  · rw [heq, h.bytes, List.prefix_iff_eq_take.mp hp |>.symm]
    exact h.seedWindows hpos

theorem readAll_kept (h : Caches c s lines) (hp : join newline lines <+: disk.content)
    (hv : s.verdictStands disk.stat = false) (hk : s.cacheInvalidated c disk = false) :
    ∃ read left, Current c disk (s.readAll c disk) (lines ++ read) left ∧
      Verdict c disk s (s.readAll c disk) left ∧ (s.readAll c disk).seq = s.seq ∧
      (s.readAll c disk).trustedGrowthStat = none := by
  have heq : s.readAll c disk = (s.proved c disk).2.forgetTrust.catchUp c disk := by
    simp [EventStore.readAll, hv, hk]
  obtain ⟨read, left, hcur, hverdict⟩ := catchUp_current (proved_caches h hp).forgetTrust hp
  rw [heq]
  refine ⟨read, left, hcur, ?_, ?_, ?_⟩
  · obtain ⟨hd, hs⟩ := s.proved_divergence c disk
    rw [Verdict, ← hd, ← hs]
    exact hverdict
  · rw [EventStore.catchUp_seq]
    exact s.proved_seq c disk
  · rw [EventStore.catchUp_trusted]
    rfl

theorem readAll_dropped (hv : s.verdictStands disk.stat = false)
    (hk : s.cacheInvalidated c disk = true) :
    ∃ lines left, Current c disk (s.readAll c disk) lines left ∧
      (s.readAll c disk).divergence = c.logDivergence disk ∧
      ((s.readAll c disk).divergence ≠ none → (s.readAll c disk).divergenceStat = disk.stat) ∧
      (s.readAll c disk).seq = lastSeq (s.readAll c disk).cache ∧
      (s.readAll c disk).trustedGrowthStat = none := by
  obtain ⟨t, ht, htrust⟩ : ∃ t : EventStore, s.readAll c disk =
      (t.invalidate.catchUp c disk).setSeq (lastSeq (t.invalidate.catchUp c disk).cache) ∧
        t.trustedGrowthStat = none :=
    ⟨(s.proved c disk).2.forgetTrust, by simp [EventStore.readAll, hv, hk], rfl⟩
  have hstart : Caches c t.invalidate [] := .invalidate t
  have hp : join newline [] <+: disk.content := List.nil_prefix
  obtain ⟨read, left, hcur, hnil, hcons⟩ := catchUp_current hstart hp
  rw [ht]
  refine ⟨[] ++ read, left, ⟨hcur.caches.setSeq _, hcur.complete, hcur.idle, hcur.mtime, hcur.ctime,
    hcur.identity⟩, ?_, ?_, rfl, ?_⟩
  · by_cases hl : left = []
    · exact (hnil hl).1.trans (hcur.left_eq_nil.mp hl).symm
    · exact (hcons hl).1
  · intro hne
    by_cases hl : left = []
    · exact absurd (hnil hl).1 hne
    · exact (hcons hl).2
  · exact (EventStore.catchUp_trusted c disk _).trans htrust

end LoopLab

/-!
## Polls of a file that others change

Between two polls the file may grow, shrink, be rewritten or be replaced.
-/

namespace LoopLab
open Lib

namespace Disk

def entry (disk : Disk) : Option (Nat × Nat) := disk.map File.entry

def times (disk : Disk) : Option (Int × Int) := disk.map fun f => (f.mtimeNs, f.ctimeNs)

end Disk

/-- The bytes of the file where the store's consumed prefix stood when it last looked. -/
def EventStore.consumed (s : EventStore) (disk : Disk) : Bytes := disk.content.take s.cacheBytes

/-- What may happen to the file between two looks of the store, from `seen` to `now`. -/
structure Announced (c : Codec) (s : EventStore) (seen now : Disk) : Prop where
  /-- A change other than growth shows in the identity, in a size below the consumed prefix, or, at
  the same size, in a timestamp. -/
  shown : seen.content <+: now.content ∨ now.entry ≠ seen.entry ∨
    now.content.length < s.cacheBytes ∨
    ((now.content.length = s.cacheBytes ∨ now.content.length = seen.content.length) →
      now.times ≠ seen.times)
  /-- A rewrite of the consumed prefix in a longer file alters one of its windows, or the prefix has
  doubled since it was last hashed in full. -/
  windows : s.cacheBytes < now.content.length → now.entry = seen.entry →
    s.consumed now ≠ s.consumed seen →
    headWindow (s.consumed now) ≠ headWindow (s.consumed seen) ∨
      tailWindowOf (s.consumed now) ≠ tailWindowOf (s.consumed seen) ∨ s.proofDue = true
  digest : c.sha256 (s.consumed now) = c.sha256 (s.consumed seen) → s.consumed now = s.consumed seen

/-- A store that holds a divergence and is about to keep its cache finds one in the file. -/
def StillDiverges (c : Codec) (s : EventStore) (now : Disk) : Prop :=
  s.divergence ≠ none → s.cacheInvalidated c now = false → c.logDivergence now ≠ none

structure Synced (c : Codec) (disk : Disk) (s : EventStore) : Prop where
  current : ∃ lines left, Current c disk s lines left
  verdict : s.divergence = c.logDivergence disk
  stat : s.divergence ≠ none → s.divergenceStat = disk.stat
  untrusted : s.trustedGrowthStat = none

section Windows
variable {s : EventStore} {content : Bytes}

theorem readPrefixWindows_eq {n : Nat} (h0 : 0 < n) (hn : n ≤ content.length) :
    EventStore.readPrefixWindows content n =
      some (headWindow (content.take n), tailWindowOf (content.take n)) := by
  have hlen : (content.take n).length = n := List.length_take_of_le hn
  have hhead : content.take (min cacheAnchorBytes n) = headWindow (content.take n) := by
    rw [headWindow, List.take_take]
  have htail : (if min cacheAnchorBytes n < n then
      (content.drop (n - min cacheAnchorBytes n)).take (min cacheAnchorBytes n)
      else content.take (min cacheAnchorBytes n)) = tailWindowOf (content.take n) := by
    rw [tailWindowOf, hlen, List.drop_take]
    generalize cacheAnchorBytes = a
    split
    · rw [show n - min a n = n - a by omega, show n - (n - a) = min a n by omega]
    · rw [show n - a = 0 by omega, List.drop_zero, show min a n = n - 0 by omega]
  have hl1 : (headWindow (content.take n)).length = min cacheAnchorBytes n := by
    rw [← hhead, List.length_take]
    omega
  have hl2 : (tailWindowOf (content.take n)).length = min cacheAnchorBytes n := by
    rw [tailWindowOf, List.length_drop, hlen]
    omega
  rw [EventStore.readPrefixWindows, if_neg (by omega)]
  dsimp only
  rw [htail, hhead, hl1, hl2]
  simp

end Windows

variable {c : Codec} {s : EventStore} {seen now : Disk}

theorem Current.consumed_eq {lines left : List Bytes} (h : Current c seen s lines left) :
    s.consumed seen = join newline lines ∧ s.cacheBytes ≤ seen.content.length := by
  have hp : join newline lines <+: seen.content := by
    rw [seen.content_eq, h.complete, join_append, List.append_assoc]
    exact List.prefix_append _ _
  refine ⟨?_, ?_⟩
  · rw [EventStore.consumed, h.caches.bytes]
    exact (List.prefix_iff_eq_take.mp hp).symm
  · rw [h.caches.bytes]
    exact hp.length_le

theorem kept_prefix {lines left : List Bytes} (h : Current c seen s lines left)
    (hu : s.trustedGrowthStat = none) (ha : Announced c s seen now)
    (hk : s.cacheInvalidated c now = false) : join newline lines <+: now.content := by
  obtain ⟨hcons, hlen⟩ := h.consumed_eq
  simp only [EventStore.cacheInvalidated, Bool.or_eq_false_iff, decide_eq_false_iff_not,
    Nat.not_lt, now.sizeOf_stat] at hk
  obtain ⟨⟨⟨hsize, hrep⟩, hsame⟩, hproved⟩ := hk
  suffices heq : s.consumed now = s.consumed seen by
    rw [← hcons, ← heq]
    exact List.take_prefix _ _
  have hbegins : seen.content <+: now.content → s.consumed now = s.consumed seen := by
    rintro ⟨more, hmore⟩
    rw [EventStore.consumed, EventStore.consumed, ← hmore, List.take_append_of_le_length hlen]
  by_cases hz : s.cacheBytes = 0
  · rw [EventStore.consumed, EventStore.consumed, hz, List.take_zero, List.take_zero]
  -- The file was there when the store last looked, and is the same directory entry now.
  obtain ⟨f, rfl⟩ : ∃ f, seen = some f := by
    cases seen with
    | none => exact absurd (Nat.le_zero.mp hlen) hz
    | some f => exact ⟨f, rfl⟩
  obtain ⟨g, rfl⟩ : ∃ g, now = some g := by
    cases now with
    | none => exact absurd (Nat.le_zero.mp hsize) hz
    | some g => exact ⟨g, rfl⟩
  have hentry : g.entry = f.entry := by
    have hi := h.identity
    simp only [EventStore.replaced, hi, Disk.stat, Option.map_some, Option.isSome_some,
      Bool.true_and, bne_eq_false_iff_eq, Option.some.injEq] at hrep
    exact hrep
  by_cases hgrow : s.cacheBytes < (Disk.content (some g)).length
  · by_contra hne
    have htrust : s.trustedGrowth (Disk.stat (some g)) = false := by
      simp [EventStore.trustedGrowth, hu, Disk.stat]
    have hext : s.externalGrowth (Disk.stat (some g)) = true := by
      simp only [EventStore.externalGrowth, htrust, hrep, Disk.sizeOf_stat, Bool.not_false,
        Bool.and_true, Bool.and_eq_true, decide_eq_true_eq]
      exact ⟨hgrow, Nat.pos_of_ne_zero hz⟩
    simp only [EventStore.proved, hext, if_true, EventStore.checkPrefix] at hproved
    split at hproved
    · rename_i hseeded
      rw [Bool.and_eq_true, Bool.not_eq_true'] at hseeded
      simp only [EventStore.windowsDiffer] at hproved
      rw [readPrefixWindows_eq (Nat.pos_of_ne_zero hz) (Nat.le_of_lt hgrow)] at hproved
      obtain ⟨hw, hd⟩ := hseeded
      rcases h.caches.windows with hnone | ⟨hh, ht, _⟩
      · simp [EventStore.windowsSeeded, hnone] at hw
      · simp only [hh, ht, Bool.or_eq_false_iff, bne_eq_false_iff_eq, Option.some.injEq] at hproved
        rw [← hcons] at hproved
        rcases ha.windows hgrow (by simp [Disk.entry, hentry]) hne with h1 | h2 | h3
        · exact h1 hproved.1
        · exact h2 hproved.2
        · rw [hd] at h3
          cases h3
    · split at hproved
      · cases hproved
      · rename_i hhash
        simp only [EventStore.hashDiffers, Bool.not_eq_true, Bool.or_eq_false_iff,
          bne_eq_false_iff_eq, h.caches.hasher, ← hcons] at hhash
        exact hne (ha.digest hhash.2)
  · have hcut : (Disk.content (some g)).length = s.cacheBytes := Nat.le_antisymm (Nat.not_lt.mp hgrow) hsize
    have hcut' : g.content.length = s.cacheBytes := hcut
    have htimes : g.mtimeNs = f.mtimeNs ∧ g.ctimeNs = f.ctimeNs := by
      simp only [EventStore.sameSizeRewrite, h.mtime, h.ctime, Disk.stat, Option.map_some,
        EventStore.sizeOf, Option.getD_some, File.stat, hcut', Option.isSome_some, Bool.and_true,
        beq_self_eq_true, Bool.true_and, Bool.or_eq_false_iff, bne_eq_false_iff_eq,
        Option.some.injEq] at hsame
      exact hsame
    rcases ha.shown with h1 | h2 | h3 | h4
    · exact hbegins h1
    · exact absurd (by simp [Disk.entry, hentry]) h2
    · exact absurd h3 (Nat.not_lt.mpr hsize)
    · exact absurd (by simp [Disk.times, htimes.1, htimes.2]) (h4 (.inl hcut))

theorem Announced.growth (h : seen.content <+: now.content)
    (hlen : s.cacheBytes ≤ seen.content.length) : Announced c s seen now := by
  have heq : s.consumed now = s.consumed seen := by
    obtain ⟨more, hmore⟩ := h
    rw [EventStore.consumed, EventStore.consumed, ← hmore, List.take_append_of_le_length hlen]
  exact ⟨.inl h, fun _ _ hne => absurd heq hne, fun _ => heq⟩

/-! ## One poll -/

theorem Synced.cache_eq (h : Synced c now s) : s.cache = c.readable now.complete := by
  obtain ⟨lines, left, hcur⟩ := h.current
  exact hcur.cache_eq

theorem Synced.cacheBytes_le (h : Synced c now s) : s.cacheBytes ≤ now.content.length := by
  obtain ⟨lines, left, hcur⟩ := h.current
  exact hcur.consumed_eq.2

theorem Announced.same_file (ha : Announced c s seen now) (hlen : s.cacheBytes ≤ seen.content.length)
    (hstat : now.stat = seen.stat) : now = seen := by
  cases now with
  | none =>
    cases seen with
    | none => rfl
    | some f => cases hstat
  | some g =>
    cases seen with
    | none => cases hstat
    | some f =>
      obtain ⟨gc, ge, gm, gt⟩ := g
      obtain ⟨fc, fe, fm, ft⟩ := f
      simp only [Disk.stat, Option.map_some, File.stat, Option.some.injEq, Stat.mk.injEq] at hstat
      obtain ⟨rfl, hsize, rfl, rfl⟩ := hstat
      have hcontent : fc = gc := by
        rcases ha.shown with h1 | h2 | h3 | h4
        · exact List.IsPrefix.eq_of_length_le h1 (Nat.le_of_eq hsize)
        · exact absurd rfl h2
        · have h3' : gc.length < s.cacheBytes := h3
          have hlen' : s.cacheBytes ≤ fc.length := hlen
          omega
        · exact absurd rfl (h4 (.inr hsize))
      rw [hcontent]

theorem Synced.poll (h : Synced c seen s) (ha : Announced c s seen now) :
    (Synced c now (s.readAll c now) ∧ StillDiverges c s now) ∨
      (s.divergence ≠ none ∧ ¬ StillDiverges c s now ∧ (s.readAll c now).divergence ≠ none ∧
        c.logDivergence now = none) := by
  obtain ⟨lines, left, hcur⟩ := h.current
  cases hv : s.verdictStands now.stat with
  | true =>
    left
    have hs : s.readAll c now = s := by rw [EventStore.readAll, if_pos hv]
    simp only [EventStore.verdictStands, Bool.and_eq_true, beq_iff_eq] at hv
    have hdiv : s.divergence ≠ none := Option.isSome_iff_ne_none.mp hv.1.1
    have heq : now = seen := ha.same_file h.cacheBytes_le (hv.2.trans (h.stat hdiv))
    rw [hs, heq]
    refine ⟨h, ?_⟩
    intro _ _
    rwa [← h.verdict]
  | false =>
    cases hk : s.cacheInvalidated c now with
    | true =>
      left
      obtain ⟨lines', left', hcur', hdiv, hstat, _, htrust⟩ := readAll_dropped hv hk
      refine ⟨⟨⟨lines', left', hcur'⟩, hdiv, hstat, htrust⟩, ?_⟩
      intro _ hk'
      rw [hk] at hk'
      cases hk'
    | false =>
      have hp := kept_prefix hcur h.untrusted ha hk
      obtain ⟨read, left', hcur', hverdict, _, htrust⟩ := readAll_kept hcur.caches hp hv hk
      by_cases hl : left' = []
      · have hnone := hcur'.left_eq_nil.mp hl
        obtain ⟨hd, hst⟩ := hverdict.1 hl
        by_cases hs : s.divergence = none
        · left
          refine ⟨⟨⟨_, left', hcur'⟩, ?_, ?_, htrust⟩, fun hne => absurd hs hne⟩
          · rw [hd, hs, hnone]
          · intro hne
            rw [hd] at hne
            exact absurd hs hne
        · right
          refine ⟨hs, fun hstill => hstill hs hk hnone, ?_, hnone⟩
          rwa [hd]
      · left
        obtain ⟨hd, hst⟩ := hverdict.2 hl
        refine ⟨⟨⟨_, left', hcur'⟩, hd, fun _ => hst, htrust⟩, ?_⟩
        intro _ _ hnone
        exact hl (hcur'.left_eq_nil.mpr hnone)

theorem Synced.new (c : Codec) (disk : Disk) : Synced c disk (EventStore.new c disk) := by
  have hblank : Synced c none {} := by
    refine ⟨⟨[], [], .blank, rfl, Codec.idle_nil, rfl, rfl, rfl⟩, rfl, fun h => absurd rfl h, rfl⟩
  have ha : Announced c {} none disk := .growth List.nil_prefix (Nat.le_refl 0)
  obtain ⟨hs, _⟩ | ⟨h, _⟩ := hblank.poll ha
  · obtain ⟨⟨lines, left, hcur⟩, hverdict, hstat, htrust⟩ := hs
    have hcur' : Current c disk ((({} : EventStore).readAll c disk).setSeq
        (lastSeq (({} : EventStore).readAll c disk).cache)) lines left :=
      ⟨hcur.caches.setSeq _, hcur.complete, hcur.idle, hcur.mtime, hcur.ctime, hcur.identity⟩
    unfold EventStore.new
    dsimp only
    split
    · rename_i hcond
      have hnone : c.logDivergence disk = none := hverdict.symm.trans hcond.2.1
      obtain ⟨hc, hcomplete, hidle, hm, hct, hi⟩ := hcur'
      exact ⟨⟨lines, left, ⟨hc.1, hc.2, hc.3, hc.4, hc.5⟩, hcomplete, hidle, hm, hct, hi⟩, rfl,
        fun hne => absurd hnone hne, htrust⟩
    · exact ⟨⟨lines, left, hcur'⟩, hverdict, hstat, htrust⟩
  · exact absurd rfl h

theorem Synced.fresh (c : Codec) (disk : Disk) :
    Synced c disk ((EventStore.new c disk).readAll c disk) := by
  have hnew := Synced.new c disk
  obtain ⟨hs, _⟩ | ⟨hd, _, _, hnone⟩ := hnew.poll (.growth List.prefix_rfl hnew.cacheBytes_le)
  · exact hs
  · exact absurd (hnew.verdict.trans hnone) hd

end LoopLab
