import Mathlib.Algebra.BigOperators.Group.List.Basic
import Mathlib.Algebra.Order.Field.Basic
import Mathlib.Data.List.Pairwise
import Mathlib.Order.Lattice
import Mathlib.Tactic.Ring

/-!
# Sweeping a list of intervals

Closed intervals of a line, sorted by their starts, merge into separated ones that cover the same points.
-/

set_option autoImplicit false

namespace LoopLab.Lib.Sweep

universe u v

def steps {β : Type u} (xs : List β) : List (β × β) := xs.zip xs.tail

theorem steps_cons_cons {β : Type u} (x y : β) (ys : List β) : steps (x :: y :: ys) = (x, y) :: steps (y :: ys) :=
  rfl

section Merging
variable {α : Type u} [LinearOrder α]

def Covered (ss : List (α × α)) (x : α) : Prop := ∃ s ∈ ss, s.1 ≤ x ∧ x ≤ s.2

def WellFormed (ss : List (α × α)) : Prop := ∀ s ∈ ss, s.1 ≤ s.2

def Separated (ss : List (α × α)) : Prop := ss.Pairwise fun s t => s.2 < t.1

def mergeFrom (cur : α × α) : List (α × α) → List (α × α)
  | [] => [cur]
  | s :: ss => if s.1 ≤ cur.2 then mergeFrom (cur.1, max cur.2 s.2) ss else cur :: mergeFrom s ss

def merge : List (α × α) → List (α × α)
  | [] => []
  | s :: ss => mergeFrom s ss

def gaps (ss : List (α × α)) : List (α × α) := (steps ss).map fun p => (p.1.2, p.2.1)

variable {cur s : α × α} {ss : List (α × α)} {u v x : α}

theorem covered_cons : Covered (s :: ss) x ↔ (s.1 ≤ x ∧ x ≤ s.2) ∨ Covered ss x := by
  simp only [Covered, List.mem_cons, exists_eq_or_imp]

theorem covered_congr {ts : List (α × α)} (h : ∀ s, s ∈ ss ↔ s ∈ ts) : Covered ss x ↔ Covered ts x := by
  simp only [Covered, h]

theorem mem_mergeFrom_start {t : α × α} (hsorted : (cur :: ss).Pairwise fun s t => s.1 ≤ t.1)
    (ht : t ∈ mergeFrom cur ss) : cur.1 ≤ t.1 := by
  induction ss generalizing cur with
  | nil => exact (List.mem_singleton.mp ht ▸ le_rfl)
  | cons s ss ih =>
    obtain ⟨hcur, hrest⟩ := List.pairwise_cons.mp hsorted
    unfold mergeFrom at ht
    split at ht
    · apply ih ?_ ht
      apply List.pairwise_cons.mpr
      exact ⟨fun t htm => hcur t (List.mem_cons_of_mem _ htm), (List.pairwise_cons.mp hrest).2⟩
    · rcases List.mem_cons.mp ht with rfl | ht
      · exact le_rfl
      · exact (hcur s List.mem_cons_self).trans (ih hrest ht)

theorem mergeFrom_spec (hsorted : (cur :: ss).Pairwise fun s t => s.1 ≤ t.1) (hwf : WellFormed (cur :: ss)) :
    Separated (mergeFrom cur ss) ∧ WellFormed (mergeFrom cur ss) ∧
      ∀ x, Covered (mergeFrom cur ss) x ↔ Covered (cur :: ss) x := by
  induction ss generalizing cur with
  | nil => exact ⟨List.pairwise_singleton _ _, hwf, fun x => Iff.rfl⟩
  | cons s ss ih =>
    obtain ⟨hcur, hrest⟩ := List.pairwise_cons.mp hsorted
    have hcurwf : cur.1 ≤ cur.2 := hwf cur List.mem_cons_self
    have hswf : s.1 ≤ s.2 := hwf s (List.mem_cons_of_mem _ List.mem_cons_self)
    unfold mergeFrom
    split
    · rename_i hmeets
      -- the two intervals meet, so their union is one interval
      have hgrown : WellFormed ((cur.1, max cur.2 s.2) :: ss) := by
        intro t ht
        rcases List.mem_cons.mp ht with rfl | ht
        · exact hcurwf.trans (le_max_left _ _)
        · exact hwf t (List.mem_cons_of_mem _ (List.mem_cons_of_mem _ ht))
      have hstarts : ((cur.1, max cur.2 s.2) :: ss).Pairwise fun s t => s.1 ≤ t.1 := by
        apply List.pairwise_cons.mpr
        exact ⟨fun t ht => hcur t (List.mem_cons_of_mem _ ht), (List.pairwise_cons.mp hrest).2⟩
      obtain ⟨hsep, hmerged, hcover⟩ := ih hstarts hgrown
      refine ⟨hsep, hmerged, fun x => (hcover x).trans ?_⟩
      rw [covered_cons, covered_cons, covered_cons, ← or_assoc]
      apply or_congr_left
      have hcs : cur.1 ≤ s.1 := hcur s List.mem_cons_self
      constructor
      · rintro ⟨hlo, hhi⟩
        rcases le_max_iff.mp hhi with hhi | hhi
        · exact Or.inl ⟨hlo, hhi⟩
        · rcases le_total x cur.2 with hx | hx
          · exact Or.inl ⟨hlo, hx⟩
          · exact Or.inr ⟨hmeets.trans hx, hhi⟩
      · rintro (⟨hlo, hhi⟩ | ⟨hlo, hhi⟩)
        · exact ⟨hlo, hhi.trans (le_max_left _ _)⟩
        · exact ⟨hcs.trans hlo, hhi.trans (le_max_right _ _)⟩
    · rename_i hapart
      obtain ⟨hsep, hmerged, hcover⟩ := ih hrest fun t ht => hwf t (List.mem_cons_of_mem _ ht)
      refine ⟨List.pairwise_cons.mpr ⟨fun t ht => ?_, hsep⟩, fun t ht => ?_, fun x => ?_⟩
      · exact (not_le.mp hapart).trans_le (mem_mergeFrom_start hrest ht)
      · rcases List.mem_cons.mp ht with rfl | ht
        · exact hcurwf
        · exact hmerged t ht
      · rw [covered_cons, hcover x, ← covered_cons]

theorem merge_spec (hsorted : ss.Pairwise fun s t => s.1 ≤ t.1) (hwf : WellFormed ss) :
    Separated (merge ss) ∧ WellFormed (merge ss) ∧ ∀ x, Covered (merge ss) x ↔ Covered ss x := by
  cases ss with
  | nil => exact ⟨List.Pairwise.nil, hwf, fun x => Iff.rfl⟩
  | cons s ss => exact mergeFrom_spec hsorted hwf

/-- A stretch of time with no covered point inside, between the first covered point and the last. -/
structure Gap (C : α → Prop) (u v : α) : Prop where
  lt : u < v
  bare : ∀ x, u < x → x < v → ¬ C x
  before : ∃ x ≤ u, C x
  after : ∃ x, v ≤ x ∧ C x

def MaximalGap (C : α → Prop) (u v : α) : Prop :=
  Gap C u v ∧ ∀ a b, Gap C a b → a ≤ u → v ≤ b → a = u ∧ b = v

theorem maximalGap_congr {C D : α → Prop} (h : ∀ x, C x ↔ D x) : MaximalGap C u v ↔ MaximalGap D u v := by
  have : C = D := funext fun x => propext (h x)
  rw [this]

theorem maximalGap_of_ends {C : α → Prop} (hlt : u < v) (hbare : ∀ x, u < x → x < v → ¬ C x) (hu : C u)
    (hv : C v) : MaximalGap C u v := by
  refine ⟨⟨hlt, hbare, ⟨u, le_rfl, hu⟩, v, le_rfl, hv⟩, fun a b hgap ha hb => ?_⟩
  constructor
  · by_contra hne
    exact hgap.bare u (lt_of_le_of_ne ha hne) (hlt.trans_le hb) hu
  · by_contra hne
    exact hgap.bare v (ha.trans_lt hlt) (lt_of_le_of_ne hb (Ne.symm hne)) hv

theorem covered_start_le (hsep : Separated (s :: ss)) (hwf : WellFormed (s :: ss)) (hx : Covered (s :: ss) x) :
    s.1 ≤ x := by
  obtain ⟨t, ht, hlo, hhi⟩ := hx
  rcases List.mem_cons.mp ht with rfl | ht
  · exact hlo
  · exact ((hwf s List.mem_cons_self).trans_lt ((List.pairwise_cons.mp hsep).1 t ht)).le.trans hlo

theorem ends_of_mem_gaps (hsep : Separated ss) (hwf : WellFormed ss) (h : (u, v) ∈ gaps ss) :
    u < v ∧ (∀ x, u < x → x < v → ¬ Covered ss x) ∧ Covered ss u ∧ Covered ss v := by
  induction ss with
  | nil => cases h
  | cons s rest ih =>
    cases rest with
    | nil => cases h
    | cons t ts =>
      obtain ⟨hs, hrest⟩ := List.pairwise_cons.mp hsep
      have htail : WellFormed (t :: ts) := fun r hr => hwf r (List.mem_cons_of_mem _ hr)
      have hst : s.2 < t.1 := hs t List.mem_cons_self
      rcases List.mem_cons.mp h with heq | h
      · obtain ⟨rfl, rfl⟩ := Prod.mk.inj heq
        refine ⟨hst, fun x hlo hhi hcov => ?_, ?_, ?_⟩
        · rcases covered_cons.mp hcov with hin | hin
          · exact absurd hin.2 (not_le.mpr hlo)
          · exact absurd (covered_start_le hrest htail hin) (not_le.mpr hhi)
        · exact ⟨s, List.mem_cons_self, hwf s List.mem_cons_self, le_rfl⟩
        · exact ⟨t, List.mem_cons_of_mem _ List.mem_cons_self, le_rfl, htail t List.mem_cons_self⟩
      · obtain ⟨hlt, hbare, hu, hv⟩ := ih hrest htail h
        refine ⟨hlt, fun x hlo hhi hcov => ?_, covered_cons.mpr (Or.inr hu), covered_cons.mpr (Or.inr hv)⟩
        rcases covered_cons.mp hcov with hin | hin
        · have htu : t.1 ≤ u := covered_start_le hrest htail hu
          exact absurd (hin.2.trans_lt (hst.trans_le htu)) (not_lt.mpr hlo.le)
        · exact hbare x hlo hhi hin

theorem pairwise_gaps (hsep : Separated ss) (hwf : WellFormed ss) :
    (gaps ss).Pairwise fun v w => v.2 ≤ w.1 := by
  induction ss with
  | nil => exact List.Pairwise.nil
  | cons s rest ih =>
    cases rest with
    | nil => exact List.Pairwise.nil
    | cons t ts =>
      have hrest := (List.pairwise_cons.mp hsep).2
      have htail : WellFormed (t :: ts) := fun r hr => hwf r (List.mem_cons_of_mem _ hr)
      apply List.pairwise_cons.mpr
      constructor
      · intro w hw
        exact covered_start_le hrest htail (ends_of_mem_gaps hrest htail hw).2.2.1
      · exact ih hrest htail

theorem maximalGap_sub {α : Type u} [AddCommGroup α] [LinearOrder α] [IsOrderedAddMonoid α] {C D : α → Prop}
    {u v t : α} (h : ∀ x, D x ↔ C (x + t)) : MaximalGap D u v ↔ MaximalGap C (u + t) (v + t) := by
  have hgap (a b : α) : Gap D a b ↔ Gap C (a + t) (b + t) := by
    constructor
    · rintro ⟨hlt, hbare, ⟨x, hx, hcx⟩, y, hy, hcy⟩
      refine ⟨add_lt_add_left hlt t, fun z hlo hhi hz => ?_, ⟨x + t, add_le_add_left hx t, (h x).mp hcx⟩,
        y + t, add_le_add_left hy t, (h y).mp hcy⟩
      apply hbare (z - t) (lt_sub_iff_add_lt.mpr hlo) (sub_lt_iff_lt_add.mpr hhi)
      rwa [h, sub_add_cancel]
    · rintro ⟨hlt, hbare, ⟨x, hx, hcx⟩, y, hy, hcy⟩
      refine ⟨lt_of_add_lt_add_right hlt, fun z hlo hhi hz => ?_, ⟨x - t, sub_le_iff_le_add.mpr hx, ?_⟩,
        y - t, le_sub_iff_add_le.mpr hy, ?_⟩
      · exact hbare (z + t) (add_lt_add_left hlo t) (add_lt_add_left hhi t) ((h z).mp hz)
      · rwa [h, sub_add_cancel]
      · rwa [h, sub_add_cancel]
  unfold MaximalGap
  rw [hgap]
  apply and_congr_right
  intro _
  constructor
  · intro hmax a b hab ha hb
    have hshift : Gap D (a - t) (b - t) := by rwa [hgap, sub_add_cancel, sub_add_cancel]
    obtain ⟨hu, hv⟩ := hmax _ _ hshift (sub_le_iff_le_add.mpr ha) (le_sub_iff_add_le.mpr hb)
    exact ⟨sub_eq_iff_eq_add.mp hu, sub_eq_iff_eq_add.mp hv⟩
  · intro hmax a b hab ha hb
    obtain ⟨hu, hv⟩ := hmax _ _ ((hgap a b).mp hab) (add_le_add_left ha t) (add_le_add_left hb t)
    exact ⟨add_right_cancel hu, add_right_cancel hv⟩

variable [DenselyOrdered α]

theorem Gap.within (hsep : Separated ss) (hwf : WellFormed ss) (h : Gap (Covered ss) u v) :
    ∃ w ∈ gaps ss, w.1 ≤ u ∧ v ≤ w.2 := by
  induction ss with
  | nil =>
    obtain ⟨x, _, s, hs, _⟩ := h.before
    cases hs
  | cons s rest ih =>
    have hclear : s.2 ≤ u := by
      -- otherwise the interval would cover a point inside the gap
      by_contra hlt
      obtain ⟨x, hxu, hx⟩ := h.before
      obtain ⟨z, hz, hmin⟩ := exists_between (lt_min h.lt (not_le.mp hlt))
      obtain ⟨hzv, hzs⟩ := lt_min_iff.mp hmin
      have hstart : s.1 ≤ u := (covered_start_le hsep hwf hx).trans hxu
      exact h.bare z hz hzv ⟨s, List.mem_cons_self, hstart.trans hz.le, hzs.le⟩
    cases rest with
    | nil =>
      obtain ⟨y, hvy, hy⟩ := h.after
      obtain ⟨t, ht, _, hyt⟩ := hy
      rw [List.mem_singleton.mp ht] at hyt
      exact absurd (hclear.trans_lt h.lt) (not_lt.mpr (hvy.trans hyt))
    | cons t ts =>
      have hrest := (List.pairwise_cons.mp hsep).2
      have htail : WellFormed (t :: ts) := fun r hr => hwf r (List.mem_cons_of_mem _ hr)
      have hcovered : Covered (t :: ts) t.1 := ⟨t, List.mem_cons_self, le_rfl, htail t List.mem_cons_self⟩
      by_cases hvt : v ≤ t.1
      · exact ⟨(s.2, t.1), List.mem_cons_self, hclear, hvt⟩
      · have htu : t.1 ≤ u := by
          by_contra hlt
          exact h.bare t.1 (not_le.mp hlt) (not_le.mp hvt) (covered_cons.mpr (Or.inr hcovered))
        have hgap : Gap (Covered (t :: ts)) u v := by
          refine ⟨h.lt, fun x hlo hhi hx => h.bare x hlo hhi (covered_cons.mpr (Or.inr hx)),
            ⟨t.1, htu, hcovered⟩, ?_⟩
          obtain ⟨y, hvy, hy⟩ := h.after
          rcases covered_cons.mp hy with hin | hin
          · exact absurd (hclear.trans_lt h.lt) (not_lt.mpr (hvy.trans hin.2))
          · exact ⟨y, hvy, hin⟩
        obtain ⟨w, hw, hwu, hwv⟩ := ih hrest htail hgap
        exact ⟨w, List.mem_cons_of_mem _ hw, hwu, hwv⟩

theorem mem_gaps_iff (hsep : Separated ss) (hwf : WellFormed ss) :
    (u, v) ∈ gaps ss ↔ MaximalGap (Covered ss) u v := by
  constructor
  · intro h
    obtain ⟨hlt, hbare, hu, hv⟩ := ends_of_mem_gaps hsep hwf h
    exact maximalGap_of_ends hlt hbare hu hv
  · rintro ⟨hgap, hmax⟩
    obtain ⟨⟨a, b⟩, hmem, ha, hb⟩ := hgap.within hsep hwf
    obtain ⟨hlt, hbare, hu, hv⟩ := ends_of_mem_gaps hsep hwf hmem
    obtain ⟨rfl, rfl⟩ := hmax a b (maximalGap_of_ends hlt hbare hu hv).1 ha hb
    exact hmem

end Merging

section Lengths
variable {α : Type u} [AddCommGroup α]

def length (s : α × α) : α := s.2 - s.1

def total (ss : List (α × α)) : α := (ss.map length).sum

theorem total_cons (s : α × α) (ss : List (α × α)) : total (s :: ss) = length s + total ss := List.sum_cons

theorem sum_steps {β : Type v} (g : β → α) (p : β) (ps : List β) :
    ((steps (p :: ps)).map fun s => g s.2 - g s.1).sum = g ((p :: ps).getLast (List.cons_ne_nil p ps)) - g p := by
  induction ps generalizing p with
  | nil => simp [steps]
  | cons q qs ih =>
    rw [steps_cons_cons, List.map_cons, List.sum_cons, ih q, List.getLast_cons_cons]
    exact sub_add_sub_cancel' _ _ _

variable [LinearOrder α]
variable {s : α × α} {ss : List (α × α)} {points : List α} {a b x y hi : α}

theorem outside_of_mem_steps {α : Type u} [LinearOrder α] {points : List α} {c x y : α}
    (hsorted : points.Pairwise (· ≤ ·)) (hc : c ∈ points) (h : (x, y) ∈ steps points) : x ≤ y ∧ (c ≤ x ∨ y ≤ c) := by
  induction points generalizing c with
  | nil => cases hc
  | cons p rest ih =>
    cases rest with
    | nil => cases h
    | cons q qs =>
      obtain ⟨hp, hrest⟩ := List.pairwise_cons.mp hsorted
      rcases List.mem_cons.mp h with heq | hlater
      · obtain ⟨rfl, rfl⟩ := Prod.mk.inj heq
        refine ⟨hp _ List.mem_cons_self, ?_⟩
        rcases List.mem_cons.mp hc with rfl | hc
        · exact Or.inl le_rfl
        · rcases List.mem_cons.mp hc with rfl | hc
          · exact Or.inr le_rfl
          · exact Or.inr ((List.pairwise_cons.mp hrest).1 c hc)
      · have hx : x ∈ q :: qs := (List.of_mem_zip hlater).1
        rcases List.mem_cons.mp hc with rfl | hc
        · exact ⟨(ih hrest hx hlater).1, Or.inl (hp x hx)⟩
        · exact ih hrest hc hlater

def share (s : α × α) (p : α × α) : α := if s.1 ≤ p.1 ∧ p.2 ≤ s.2 then length p else 0

theorem sum_share (hsorted : points.Pairwise (· ≤ ·)) (hstart : s.1 ∈ points) (hend : s.2 ∈ points)
    (hwf : s.1 ≤ s.2) : ((steps points).map (share s)).sum = length s := by
  cases points with
  | nil => cases hstart
  | cons p ps =>
    -- the share of a step is what the step adds to its place within the interval
    let place (t : α) : α := min s.2 (max s.1 t)
    have hplace : (steps (p :: ps)).map (share s) = (steps (p :: ps)).map fun q => place q.2 - place q.1 := by
      apply List.map_congr_left
      rintro ⟨x, y⟩ hq
      obtain ⟨hxy, hlo⟩ := outside_of_mem_steps hsorted hstart hq
      obtain ⟨-, hhi⟩ := outside_of_mem_steps hsorted hend hq
      simp only [share, place, length]
      rcases hlo with hlo | hlo
      · rcases hhi with hhi | hhi
        · rw [max_eq_right (hlo.trans hxy), max_eq_right hlo, min_eq_left hhi, min_eq_left (hhi.trans hxy), sub_self]
          split
          · rename_i hin
            rw [le_antisymm (hin.2.trans hhi) hxy, sub_self]
          · rfl
        · rw [if_pos ⟨hlo, hhi⟩, max_eq_right (hlo.trans hxy), max_eq_right hlo, min_eq_right hhi,
            min_eq_right (hxy.trans hhi)]
      · rw [max_eq_left hlo, max_eq_left (hxy.trans hlo), sub_self]
        split
        · rename_i hin
          rw [le_antisymm (hlo.trans hin.1) hxy, sub_self]
        · rfl
    rw [hplace, sum_steps place p ps]
    have hfirst : p ≤ s.1 := by
      rcases List.mem_cons.mp hstart with heq | hmem
      · exact heq ▸ le_rfl
      · exact (List.pairwise_cons.mp hsorted).1 _ hmem
    have hlast : s.2 ≤ (p :: ps).getLast (List.cons_ne_nil p ps) := List.Pairwise.rel_getLast hsorted hend
    simp only [place, length]
    rw [max_eq_left hfirst, max_eq_right (hwf.trans hlast), min_eq_left hlast, min_eq_right hwf]

theorem total_steps (hsorted : points.Pairwise (· ≤ ·)) (hfirst : a ∈ points) (hlast : b ∈ points)
    (hwithin : ∀ x ∈ points, a ≤ x ∧ x ≤ b) : total (steps points) = b - a := by
  have hshare : (steps points).map length = (steps points).map (share (a, b)) := by
    apply List.map_congr_left
    rintro ⟨x, y⟩ hp
    obtain ⟨hx, hy⟩ := List.of_mem_zip hp
    exact (if_pos ⟨(hwithin x hx).1, (hwithin y (List.mem_of_mem_tail hy)).2⟩).symm
  unfold total
  rw [hshare, sum_share hsorted hfirst hlast (hwithin a hfirst).2]
  rfl

def live (ss : List (α × α)) (p : α × α) : Nat := ss.countP fun s => s.1 ≤ p.1 && p.2 ≤ s.2

theorem sum_live (hsorted : points.Pairwise (· ≤ ·)) (hmem : ∀ s ∈ ss, s.1 ∈ points ∧ s.2 ∈ points)
    (hwf : WellFormed ss) : ((steps points).map fun p => live ss p • length p).sum = total ss := by
  induction ss with
  | nil => simp [live, total]
  | cons s ss ih =>
    have hsplit (p : α × α) : live (s :: ss) p • length p = share s p + live ss p • length p := by
      unfold live share
      by_cases h : s.1 ≤ p.1 ∧ p.2 ≤ s.2
      · rw [List.countP_cons_of_pos (by simpa using h), if_pos h, succ_nsmul']
      · rw [List.countP_cons_of_neg (by simpa using h), if_neg h, zero_add]
    obtain ⟨hstart, hend⟩ := hmem s List.mem_cons_self
    simp only [hsplit]
    rw [List.sum_map_add, sum_share hsorted hstart hend (hwf s List.mem_cons_self), total_cons,
      ih (fun t ht => hmem t (List.mem_cons_of_mem _ ht)) fun t ht => hwf t (List.mem_cons_of_mem _ ht)]

theorem total_gaps_le [IsOrderedAddMonoid α] (hsep : Separated (s :: ss)) (hwf : WellFormed (s :: ss)) (hhi : ∀ t ∈ s :: ss, t.2 ≤ hi) :
    total (gaps (s :: ss)) ≤ hi - s.2 := by
  induction ss generalizing s with
  | nil => simpa [gaps, steps, total] using hhi s List.mem_cons_self
  | cons t ts ih =>
    have hrest := ih (List.pairwise_cons.mp hsep).2 (fun r hr => hwf r (List.mem_cons_of_mem _ hr))
      fun r hr => hhi r (List.mem_cons_of_mem _ hr)
    have htwf : t.1 ≤ t.2 := hwf t (List.mem_cons_of_mem _ List.mem_cons_self)
    calc total (gaps (s :: t :: ts)) = (t.1 - s.2) + total (gaps (t :: ts)) := total_cons _ _
      _ ≤ (t.2 - s.2) + (hi - t.2) := add_le_add (sub_le_sub_right htwf _) hrest
      _ = hi - s.2 := sub_add_sub_cancel' _ _ _

end Lengths

end LoopLab.Lib.Sweep
