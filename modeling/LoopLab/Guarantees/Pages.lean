import LoopLab.Llm.Page
import Mathlib.Logic.Function.Iterate
import Mathlib.Algebra.Group.Nat.Defs

/-!
# A page stays inside its cap

The settling loop sizes the page four times, each time for the receipt of the end before.
-/

set_option autoImplicit false

namespace LoopLab.Llm

/-- The pages that are read from an offset on, each at the offset that the one before it names. -/
inductive Reads (p : PageCall) (cap : Int) : Nat → List (Nat × Nat) → Prop
  | last {offset : Nat} (h : p.stop cap offset = p.total) : Reads p cap offset [(offset, p.stop cap offset)]
  | next {offset : Nat} {pages : List (Nat × Nat)} (h : p.stop cap offset < p.total)
      (hrest : Reads p cap (p.stop cap offset) pages) : Reads p cap offset ((offset, p.stop cap offset) :: pages)

/-- The page is inside its cap and names what it shows, and reading on from the front shows the text once. -/
structure PageSound (p : PageCall) (cap : Int) (offset : Int) : Prop where
  inside : ((boundedPage p cap offset).length : Int) ≤ cap
  range : boundedPage p cap offset = p.text ∧ p.start offset = 0 ∧ p.stop cap offset = p.total ∨
    boundedPage p cap offset =
      p.shown (p.start offset) (p.stop cap offset) ++ p.receipt (p.start offset) (p.stop cap offset)
  ordered : p.start offset ≤ p.stop cap offset ∧ p.stop cap offset ≤ p.total
  offered : p.stop cap offset < p.total → p.start offset < p.stop cap offset ∧ ∀ call, p.moreCall = some call →
    p.more (p.stop cap offset) = "; call " ++ call (p.stop cap offset) ++ " for the rest"
  once : ∃ pages, Reads p cap 0 pages ∧ (pages.map fun page => (p.shown page.1 page.2).toList).flatten = p.text.toList

/-- The cap holds every receipt and one character. -/
def HoldsReceipts (p : PageCall) (cap : Int) : Prop :=
  ∀ start stop, start ≤ stop → stop ≤ p.total → ((p.receipt start stop).length : Int) + 1 ≤ cap

/-- The end of a page that leaves room for so long a receipt. -/
def sizedStop (p : PageCall) (cap : Int) (start room : Nat) : Nat := min p.total (start + (cap - room).toNat)

/-- The end of the page that is sized so many times, at first without a receipt. -/
def sizedTimes (p : PageCall) (cap : Int) (start : Nat) : Nat → Nat
  | 0 => sizedStop p cap start 0
  | n + 1 => sizedStop p cap start (p.receipt start (sizedTimes p cap start n)).length

/-- The whole text fits, or the rest does beside its receipt, or the receipt of the page that is sized four times is not
longer than that of the page that is sized three times. -/
def ReceiptsSettle (p : PageCall) (cap : Int) (start : Nat) : Prop :=
  start = 0 ∧ (p.total : Int) ≤ cap ∨ (p.total : Int) + (p.receipt start p.total).length ≤ start + cap ∨
    (p.receipt start (sizedTimes p cap start 4)).length ≤ (p.receipt start (sizedTimes p cap start 3)).length

section Pages
variable {p : PageCall} {cap offset : Int} {start stop keep n : Nat}

theorem start_le : p.start offset ≤ p.total := by
  unfold PageCall.start
  omega

theorem start_of_le (h : n ≤ p.total) : p.start (n : Int) = n := by
  unfold PageCall.start
  omega

theorem length_shown (hle : start ≤ stop) (hin : stop ≤ p.total) : (p.shown start stop).length = stop - start := by
  unfold PageCall.shown
  rw [String.length_ofList, List.length_drop, List.length_take]
  have hlen : p.text.toList.length = p.total := rfl
  omega

/-! ## The settling loop -/

theorem settle_eq_iterate : p.settle cap start n keep = (p.newKeep cap start)^[n] keep := by
  induction n generalizing keep with
  | zero => rfl
  | succ n ih =>
    rw [Function.iterate_succ_apply, PageCall.settle]
    by_cases h : p.newKeep cap start keep = keep
    · rw [if_pos h, h, Function.iterate_fixed h]
    · rw [if_neg h, ih]

theorem newKeep_eq (h : HoldsReceipts p cap) (hle : start ≤ p.total) :
    p.newKeep cap start keep = (cap - (p.receipt start (min p.total (start + keep))).length).toNat := by
  have hroom := h start (min p.total (start + keep)) (by omega) (by omega)
  unfold PageCall.newKeep
  dsimp only
  split
  · rw [max_eq_right (by omega)]
  · rw [max_eq_right (by omega)]

theorem iterate_newKeep (h : HoldsReceipts p cap) (hle : start ≤ p.total) :
    min p.total (start + (p.newKeep cap start)^[n] (max 0 cap).toNat) = sizedTimes p cap start n := by
  induction n with
  | zero =>
    have hcap := h start start (Nat.le_refl _) hle
    rw [Function.iterate_zero_apply, sizedTimes, sizedStop]
    congr 2
    omega
  | succ n ih => rw [Function.iterate_succ_apply', newKeep_eq h hle, ih, sizedTimes, sizedStop]

theorem stop_eq (h : HoldsReceipts p cap) (hfit : ¬(p.start offset = 0 ∧ (p.total : Int) ≤ cap)) :
    p.stop cap offset = sizedTimes p cap (p.start offset) 4 := by
  rw [PageCall.stop, if_neg hfit, settle_eq_iterate, iterate_newKeep h start_le]

theorem sizedTimes_bounds (h : HoldsReceipts p cap) (hle : start ≤ p.total) :
    start ≤ sizedTimes p cap start n ∧ sizedTimes p cap start n ≤ p.total ∧
      (start < p.total → start < sizedTimes p cap start n) := by
  induction n with
  | zero =>
    have hroom := h start start (Nat.le_refl _) hle
    unfold sizedTimes sizedStop
    omega
  | succ n ih =>
    have hroom := h start (sizedTimes p cap start n) ih.1 ih.2.1
    rw [sizedTimes, sizedStop]
    omega

theorem stop_bounds (h : HoldsReceipts p cap) :
    p.start offset ≤ p.stop cap offset ∧ p.stop cap offset ≤ p.total ∧
      (p.start offset < p.total → p.start offset < p.stop cap offset) := by
  have hle := @start_le p offset
  by_cases hfit : p.start offset = 0 ∧ (p.total : Int) ≤ cap
  · rw [PageCall.stop, if_pos hfit]
    omega
  · rw [stop_eq h hfit]
    exact sizedTimes_bounds h hle

/-! ## Reading on -/

theorem toList_shown_append {a b c : Nat} (hab : a ≤ b) (hbc : b ≤ c) :
    (p.shown a b).toList ++ (p.shown b c).toList = (p.shown a c).toList := by
  unfold PageCall.shown
  rw [String.toList_ofList, String.toList_ofList, String.toList_ofList]
  have htake : p.text.toList.take b = (p.text.toList.take c).take b := by
    rw [List.take_take, Nat.min_eq_left hbc]
  rw [htake]
  generalize p.text.toList.take c = l
  calc (l.take b).drop a ++ l.drop b = (l.take b).drop a ++ (l.drop a).drop (b - a) := by
        rw [List.drop_drop, Nat.add_sub_cancel' hab]
    _ = (l.drop a).take (b - a) ++ (l.drop a).drop (b - a) := by rw [List.drop_take]
    _ = l.drop a := List.take_append_drop _ _

theorem reads_from (h : HoldsReceipts p cap) (n : Nat) (hn : n ≤ p.total) :
    ∃ pages, Reads p cap n pages ∧
      (pages.map fun page => (p.shown page.1 page.2).toList).flatten = (p.shown n p.total).toList := by
  obtain ⟨hle, hin, hmore⟩ := stop_bounds h
  rw [start_of_le hn] at hle hmore
  by_cases hlast : p.stop cap n = p.total
  · refine ⟨_, .last hlast, ?_⟩
    rw [List.map_singleton, List.flatten_singleton, hlast]
  · have hlt : p.stop cap n < p.total := by omega
    have hprogress : p.total - p.stop cap n < p.total - n := by omega
    obtain ⟨pages, hreads, hshown⟩ := reads_from h (p.stop cap n) hin
    refine ⟨_, .next hlt hreads, ?_⟩
    rw [List.map_cons, List.flatten_cons, hshown, toList_shown_append hle hin]
termination_by p.total - n
decreasing_by exact hprogress

/-! ## The cap -/

theorem sized_inside_iff (h : HoldsReceipts p cap) (hle : start ≤ p.total) :
    (sizedTimes p cap start (n + 1) - start : Int) + (p.receipt start (sizedTimes p cap start (n + 1))).length ≤ cap ↔
      (p.total : Int) + (p.receipt start p.total).length ≤ start + cap ∨
        (p.receipt start (sizedTimes p cap start (n + 1))).length ≤ (p.receipt start (sizedTimes p cap start n)).length := by
  obtain ⟨hlow, hhigh, -⟩ := sizedTimes_bounds (n := n) h hle
  have hroom := h start (sizedTimes p cap start n) hlow hhigh
  generalize hlast : sizedTimes p cap start (n + 1) = last
  rw [sizedTimes, sizedStop] at hlast
  generalize hbefore : (p.receipt start (sizedTimes p cap start n)).length = before at hlast hroom ⊢
  by_cases hend : last = p.total
  · rw [hend]
    omega
  · have hsize : (last : Int) = start + (cap - before) := by omega
    constructor
    · intro hin
      right
      omega
    · rintro (hrest | hshorter)
      · -- then every size comes to the end of the text
        exfalso
        apply hend
        have hall (m : Nat) : sizedTimes p cap start m = p.total := by
          induction m with
          | zero =>
            rw [sizedTimes, sizedStop]
            omega
          | succ m ih =>
            rw [sizedTimes, ih, sizedStop]
            omega
        rw [← hall (n + 1), sizedTimes, sizedStop, hbefore]
        exact hlast.symm
      · omega

variable (p cap offset) in
theorem inside_iff (h : HoldsReceipts p cap) :
    ((boundedPage p cap offset).length : Int) ≤ cap ↔ ReceiptsSettle p cap (p.start offset) := by
  obtain ⟨hlow, hhigh, -⟩ := stop_bounds h
  by_cases hfit : p.start offset = 0 ∧ (p.total : Int) ≤ cap
  · rw [boundedPage, if_pos hfit]
    exact iff_of_true hfit.2 (Or.inl hfit)
  · rw [boundedPage, if_neg hfit, String.length_append, length_shown hlow hhigh, ReceiptsSettle, or_iff_right hfit,
      ← sized_inside_iff h start_le, ← stop_eq h hfit]
    omega

def ReceiptsGrow (p : PageCall) (start : Nat) : Prop :=
  ∀ a b, a ≤ b → b < p.total → (p.receipt start a).length ≤ (p.receipt start b).length

/-- Two ends chase each other when a page that is sized for the receipt of either one falls on the far side of the other.
The page then ends behind both of them. -/
theorem not_settle_of_chase {a b : Nat} (hgrow : ReceiptsGrow p start) (hpast : (start : Int) + cap < p.total)
    (hstart : start ≤ a) (hab : a < b) (ha : (start : Int) + (cap - (p.receipt start b).length) ≤ a)
    (hb : (b : Int) ≤ start + (cap - (p.receipt start a).length)) : ¬ReceiptsSettle p cap start := by
  have hturns (n : Nat) : b ≤ sizedTimes p cap start (2 * n) ∧ sizedTimes p cap start (2 * n) < p.total ∧
      sizedTimes p cap start (2 * n + 1) ≤ a := by
    induction n with
    | zero =>
      have hfirst : b ≤ sizedTimes p cap start 0 ∧ sizedTimes p cap start 0 < p.total := by
        unfold sizedTimes sizedStop
        omega
      have hlonger := hgrow b _ hfirst.1 hfirst.2
      refine ⟨hfirst.1, hfirst.2, ?_⟩
      rw [Nat.mul_zero, sizedTimes, sizedStop]
      omega
    | succ n ih =>
      have hshorter := hgrow _ a ih.2.2 (by omega)
      have hnext : b ≤ sizedTimes p cap start (2 * n + 2) ∧ sizedTimes p cap start (2 * n + 2) < p.total := by
        rw [sizedTimes, sizedStop]
        omega
      have hlonger := hgrow b _ hnext.1 hnext.2
      refine ⟨hnext.1, hnext.2, ?_⟩
      rw [Nat.mul_succ, sizedTimes, sizedStop]
      omega
  have hthird : sizedTimes p cap start 3 ≤ a := (hturns 1).2.2
  obtain ⟨hfourth, hin, -⟩ : b ≤ sizedTimes p cap start 4 ∧ sizedTimes p cap start 4 < p.total ∧ _ := hturns 2
  have hshorter := hgrow _ a hthird (by omega)
  have hlonger := hgrow b _ hfourth hin
  rintro (hfit | hrest | hsettled)
  · omega
  · omega
  · omega

theorem length_receipt : (p.receipt start stop).length = p.label.length + (toString start).length +
    (toString stop).length + (toString p.total).length + (p.more stop).length + 15 := by
  unfold PageCall.receipt PAGE_RECEIPT
  simp only [String.length_append]
  have hmark : "\n…[".length = 3 := rfl
  have hunit : "chars ".length = 6 := rfl
  have hof : " of ".length = 4 := rfl
  have hdash : "-".length = 1 := rfl
  have hclose : "]".length = 1 := rfl
  omega

end Pages

theorem length_toString_le {n k : Nat} (hk : 0 < k) : (toString n).length ≤ k ↔ n < 10 ^ k := by
  rw [Nat.toString_eq_repr]
  exact Nat.length_repr_le_iff hk

theorem length_toString_mono {a b : Nat} (h : a ≤ b) : (toString a).length ≤ (toString b).length := by
  have hpos : 0 < (toString b).length := by
    rw [Nat.toString_eq_repr]
    exact Nat.length_repr_pos
  exact (length_toString_le hpos).mpr (Nat.lt_of_le_of_lt h ((length_toString_le hpos).mp (Nat.le_refl _)))

/-! ## A note that is read in pages -/

def readNote (n : Nat) : PageCall where
  text := String.ofList (List.replicate n 'x')
  moreCall := some fun offset => "read_note(name='a', offset=" ++ toString offset ++ ")"
  what := ""

section Note
variable {n start stop : Nat}

theorem total_readNote : (readNote n).total = n := by
  unfold PageCall.total readNote
  rw [String.length_ofList, List.length_replicate]

theorem length_readNote_receipt : ((readNote n).receipt start stop).length =
    (toString start).length + (toString n).length +
      if n ≤ stop then (toString stop).length + 28 else 2 * (toString stop).length + 63 := by
  rw [length_receipt, total_readNote, PageCall.more, total_readNote]
  have hlabel : (readNote n).label.length = 0 := rfl
  split
  · have hend : "; end of text".length = 13 := rfl
    omega
  · have hsome : (readNote n).moreCall = some fun offset => "read_note(name='a', offset=" ++ toString offset ++ ")" := rfl
    rw [hsome]
    simp only [String.length_append]
    have hcall : "; call ".length = 7 := rfl
    have hname : "read_note(name='a', offset=".length = 27 := rfl
    have hclose : ")".length = 1 := rfl
    have hrest : " for the rest".length = 13 := rfl
    omega

theorem readNote_grows : ReceiptsGrow (readNote n) start := by
  intro a b hab hb
  rw [total_readNote] at hb
  rw [length_readNote_receipt, length_readNote_receipt, if_neg (by omega), if_neg (by omega)]
  have hdigits := length_toString_mono hab
  omega

theorem readNote_holds : HoldsReceipts (readNote 300) 171 := by
  intro start stop hle hin
  rw [total_readNote] at hin
  rw [length_readNote_receipt]
  have hstart : (toString start).length ≤ 3 := (length_toString_le (by omega)).mpr (by omega)
  have hstop : (toString stop).length ≤ 3 := (length_toString_le (by omega)).mpr (by omega)
  have htotal : (toString 300).length = 3 := rfl
  split
  · omega
  · omega

end Note

end LoopLab.Llm
