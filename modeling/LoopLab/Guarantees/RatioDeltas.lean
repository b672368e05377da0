import LoopLab.Trust.Paired
import Mathlib.Algebra.BigOperators.Group.List.Lemmas
import Mathlib.Algebra.BigOperators.Ring.List
import Mathlib.Algebra.Order.BigOperators.Group.List
import Mathlib.Algebra.Order.Field.Rat
import Mathlib.Data.List.Perm.Basic
import Mathlib.Tactic.FieldSimp
import Mathlib.Tactic.Ring

/-!
# Ratio deltas and mean deltas

On rows that share their denominators, the difference of two ratios is the difference of the hits over the total.
-/

set_option autoImplicit false

namespace LoopLab.Trust
open Lib

universe u v
variable {κ : Type u} [DecidableEq κ] {κ' : Type v} [DecidableEq κ']

/-! ## Clusters -/

section Clusters
variable {seen labels : List κ} {l : κ}

def distinctFrom (seen labels : List κ) : List κ :=
  labels.foldl (fun seen label => if label ∈ seen then seen else seen ++ [label]) seen

def distinct (labels : List κ) : List κ := distinctFrom [] labels

theorem prefix_distinctFrom (seen labels : List κ) : seen <+: distinctFrom seen labels := by
  induction labels generalizing seen with
  | nil => exact List.prefix_rfl
  | cons label labels ih =>
    unfold distinctFrom
    rw [List.foldl_cons]
    split
    · exact ih seen
    · exact (List.prefix_append seen [label]).trans (ih _)

theorem nodup_distinctFrom (h : seen.Nodup) : (distinctFrom seen labels).Nodup := by
  induction labels generalizing seen with
  | nil => exact h
  | cons label labels ih =>
    unfold distinctFrom
    rw [List.foldl_cons]
    split
    · exact ih h
    · rename_i hnew
      apply ih
      rw [List.nodup_append]
      refine ⟨h, List.nodup_singleton label, ?_⟩
      rintro a ha b hb rfl
      rw [List.mem_singleton.mp hb] at ha
      exact hnew ha

theorem mem_distinctFrom : l ∈ distinctFrom seen labels ↔ l ∈ seen ∨ l ∈ labels := by
  induction labels generalizing seen with
  | nil => simp [distinctFrom]
  | cons label labels ih =>
    unfold distinctFrom
    rw [List.foldl_cons]
    refine ih.trans ?_
    split
    · rename_i hmem
      rw [List.mem_cons]
      constructor
      · rintro (h | h)
        · exact .inl h
        · exact .inr (.inr h)
      · rintro (h | rfl | h)
        · exact .inl h
        · exact .inl hmem
        · exact .inr h
    · simp [or_assoc]

theorem nodup_distinct (labels : List κ) : (distinct labels).Nodup := nodup_distinctFrom List.nodup_nil

theorem mem_distinct : l ∈ distinct labels ↔ l ∈ labels := by
  unfold distinct
  rw [mem_distinctFrom]
  simp

theorem foldl_cluster (seen : List κ) (index : List Nat) (labels : List κ) :
    labels.foldl (fun (s : List κ × List Nat) label =>
      if label ∈ s.1 then (s.1, s.2 ++ [s.1.idxOf label]) else (s.1 ++ [label], s.2 ++ [s.1.length]))
      (seen, index) =
    (distinctFrom seen labels, index ++ labels.map ((distinctFrom seen labels).idxOf ·)) := by
  induction labels generalizing seen index with
  | nil => simp [distinctFrom]
  | cons label labels ih =>
    rw [List.foldl_cons]
    by_cases hmem : label ∈ seen
    · have hrest : distinctFrom seen (label :: labels) = distinctFrom seen labels := by
        unfold distinctFrom
        rw [List.foldl_cons, if_pos hmem]
      rw [if_pos hmem, ih, hrest]
      obtain ⟨more, hmore⟩ := prefix_distinctFrom seen labels
      rw [List.map_cons, ← hmore, List.idxOf_append_of_mem hmem, List.append_assoc]
      rfl
    · have hrest : distinctFrom seen (label :: labels) = distinctFrom (seen ++ [label]) labels := by
        unfold distinctFrom
        rw [List.foldl_cons, if_neg hmem]
      rw [if_neg hmem, ih, hrest]
      obtain ⟨more, hmore⟩ := prefix_distinctFrom (seen ++ [label]) labels
      rw [List.map_cons, ← hmore, List.idxOf_append_of_mem (List.mem_append_right seen List.mem_cons_self),
        List.idxOf_append_of_notMem hmem, List.append_assoc]
      simp

theorem clusterIndex_eq (labels : List κ) :
    clusterIndex labels = (labels.map ((distinct labels).idxOf ·), (distinct labels).length) := by
  unfold clusterIndex
  dsimp only
  rw [foldl_cluster]
  rfl

end Clusters

/-! ## Rows -/

/-- The two sides of a query, with the denominator they share and the cluster the query is in. -/
structure Row (κ : Type u) where
  treatment : Rat
  control : Rat
  denominator : Rat
  cluster : κ

namespace Row

def swap (r : Row κ) : Row κ := { r with treatment := r.control, control := r.treatment }

def relabel (f : κ → κ') (r : Row κ) : Row κ' := { r with cluster := f r.cluster }

end Row

section Sums
variable {rows rows' : List (Row κ)} {z y : Row κ → Rat} {scale : Rat}

def sumOf (rows : List (Row κ)) (z : Row κ → Rat) (l : κ) : Rat := ((rows.filter (·.cluster = l)).map z).sum

omit [DecidableEq κ] in
theorem getElem_foldl_modify (place : Row κ → Nat) (sums : List Rat) (g : Nat) :
    (((rows.map z).zip (rows.map place)).foldl (fun sums e => sums.modify e.2 (· + e.1)) sums)[g]? =
      sums[g]?.map (· + ((rows.filter (place · = g)).map z).sum) := by
  induction rows generalizing sums with
  | nil => simp
  | cons r rows ih =>
    rw [List.map_cons, List.map_cons, List.zip_cons_cons, List.foldl_cons, ih, List.getElem?_modify,
      List.filter_cons]
    by_cases h : place r = g
    · cases hsum : sums[g]? <;> simp [h, add_assoc]
    · simp [h]

theorem clusterSums_eq : clusterSums (rows.map z) (clusterIndex (rows.map (·.cluster))).1
    (clusterIndex (rows.map (·.cluster))).2 = (distinct (rows.map (·.cluster))).map (sumOf rows z) := by
  rw [clusterIndex_eq]
  dsimp only
  rw [List.map_map]
  unfold clusterSums
  apply List.ext_getElem?
  intro g
  refine (getElem_foldl_modify _ _ g).trans ?_
  rw [List.getElem?_map]
  by_cases hg : g < (distinct (rows.map (·.cluster))).length
  · rw [List.getElem?_replicate, if_pos hg, List.getElem?_eq_getElem hg, Option.map_some, Option.map_some, zero_add]
    have hfilter : rows.filter (fun r => (distinct (rows.map (·.cluster))).idxOf r.cluster = g) =
        rows.filter (fun r => r.cluster = (distinct (rows.map (·.cluster)))[g]) := by
      apply List.filter_congr
      intro r hr
      apply decide_eq_decide.mpr
      constructor
      · rintro rfl
        exact (List.getElem_idxOf hg).symm
      · intro heq
        rw [heq]
        exact (nodup_distinct _).idxOf_getElem g hg
    exact congrArg (fun kept => some (List.map z kept).sum) hfilter
  · rw [List.getElem?_replicate, if_neg hg, List.getElem?_eq_none (Nat.le_of_not_lt hg)]
    rfl

def seOf (rows : List (Row κ)) (z : Row κ → Rat) (scale : Rat) : Option Rat :=
  let index := clusterIndex (rows.map (·.cluster))
  clusterSe (rows.map z) index.1 index.2 scale

theorem seOf_eq : seOf rows z scale =
    let ls := distinct (rows.map (·.cluster))
    if ls.length < 2 then none
    else some (ls.length / (ls.length - 1) * (ls.map fun l => sumOf rows z l * sumOf rows z l).sum / (scale * scale)) := by
  unfold seOf clusterSe
  dsimp only
  rw [clusterSums_eq, List.map_map, clusterIndex_eq]
  rfl

theorem seOf_perm (h : rows.Perm rows') : seOf rows z scale = seOf rows' z scale := by
  have hls : (distinct (rows.map (·.cluster))).Perm (distinct (rows'.map (·.cluster))) := by
    apply (List.perm_ext_iff_of_nodup (nodup_distinct _) (nodup_distinct _)).mpr
    intro l
    rw [mem_distinct, mem_distinct, (h.map _).mem_iff]
  have hsum : sumOf rows z = sumOf rows' z := funext fun l => ((h.filter _).map z).sum_eq
  rw [seOf_eq, seOf_eq, hsum]
  dsimp only
  rw [hls.length_eq, (hls.map _).sum_eq]

theorem seOf_relabel {f : κ → κ'} (hf : Function.Injective f) {z' : Row κ' → Rat}
    (hz : ∀ r ∈ rows, z' (r.relabel f) = z r) : seOf (rows.map (·.relabel f)) z' scale = seOf rows z scale := by
  have hlabels : (rows.map (·.relabel f)).map (·.cluster) = (rows.map (·.cluster)).map f := by
    rw [List.map_map, List.map_map]
    rfl
  have hls : (distinct ((rows.map (·.cluster)).map f)).Perm ((distinct (rows.map (·.cluster))).map f) := by
    apply (List.perm_ext_iff_of_nodup (nodup_distinct _) ((nodup_distinct _).map hf)).mpr
    intro l
    rw [mem_distinct, List.mem_map, List.mem_map]
    simp only [mem_distinct]
  have hsum : ∀ l, sumOf (rows.map (·.relabel f)) z' (f l) = sumOf rows z l := by
    intro l
    unfold sumOf
    rw [List.filter_map, List.map_map]
    have hfilter : rows.filter ((fun r => decide (r.cluster = f l)) ∘ fun r => r.relabel f) =
        rows.filter (·.cluster = l) :=
      List.filter_congr fun r _ => decide_eq_decide.mpr hf.eq_iff
    rw [hfilter]
    congr 1
    exact List.map_congr_left fun r hr => hz r (List.mem_of_mem_filter hr)
  rw [seOf_eq, seOf_eq, hlabels]
  dsimp only
  rw [hls.length_eq, (hls.map _).sum_eq, List.length_map, List.map_map]
  simp only [Function.comp_def, hsum]

theorem seOf_swap : seOf (rows.map Row.swap) z scale = seOf rows (fun r => z r.swap) scale := by
  unfold seOf
  rw [List.map_map, List.map_map]
  rfl

theorem seOf_congr (h : ∀ r ∈ rows, z r = y r) : seOf rows z scale = seOf rows y scale := by
  have hmap : rows.map z = rows.map y := List.map_congr_left h
  unfold seOf
  rw [hmap]

theorem sumOf_mul (c : Rat) (l : κ) : sumOf rows (fun r => z r * c) l = sumOf rows z l * c := by
  unfold sumOf
  rw [← List.sum_map_mul_right]

theorem seOf_mul (c : Rat) : seOf rows (fun r => z r * c) scale =
    (seOf rows z scale).map fun se => se * (c * c) := by
  have hsquares : ((distinct (rows.map (·.cluster))).map fun l =>
      sumOf rows (fun r => z r * c) l * sumOf rows (fun r => z r * c) l).sum =
      ((distinct (rows.map (·.cluster))).map fun l => sumOf rows z l * sumOf rows z l).sum * (c * c) := by
    rw [← List.sum_map_mul_right]
    congr 1
    apply List.map_congr_left
    intro l _
    rw [sumOf_mul]
    ring
  rw [seOf_eq, seOf_eq]
  dsimp only
  rw [hsquares]
  split
  · rfl
  · rw [Option.map_some]
    congr 1
    ring

theorem seOf_neg : seOf rows (fun r => -z r) scale = seOf rows z scale := by
  have hmul : (fun r => -z r) = fun r => z r * -1 := funext fun r => by ring
  rw [hmul, seOf_mul]
  simp

theorem seOf_scaled : seOf rows (fun r => z r / scale) 1 = seOf rows z scale := by
  have hmul : (fun r => z r / scale) = fun r => z r * scale⁻¹ := funext fun r => div_eq_mul_inv _ _
  rw [hmul, seOf_mul, seOf_eq, seOf_eq]
  dsimp only
  split
  · rfl
  · rw [Option.map_some]
    congr 1
    rw [mul_one, div_one, ← mul_inv, ← div_eq_mul_inv]

end Sums

/-! ## The comparisons -/

section Comparisons
variable {rows rows' : List (Row κ)}

/-- The ratio comparison of rows that share their denominators. -/
def ratioDelta (rows : List (Row κ)) : Except PairedInputError Delta :=
  pairedRatioDelta (rows.map (·.treatment)) (rows.map (·.denominator)) (rows.map (·.control))
    (rows.map (·.denominator)) (rows.map (·.cluster))

def meanDelta (rows : List (Row κ)) : Except PairedInputError Delta :=
  pairedMeanDelta (rows.map (·.treatment)) (rows.map (·.control)) (rows.map (·.cluster))

/-- The estimate and the squared standard error, where the comparison is made. -/
def measured (delta : Except PairedInputError Delta) : Option (Rat × Option Rat) :=
  match delta with
  | .ok d => some (d.estimate, d.se)
  | .error _ => none

def totalOf (rows : List (Row κ)) (field : Row κ → Rat) : Rat := (rows.map field).sum

def ratioInfluence (rows : List (Row κ)) (r : Row κ) : Rat :=
  let total := totalOf rows (·.denominator)
  (r.treatment - totalOf rows (·.treatment) / total * r.denominator) / total -
    (r.control - totalOf rows (·.control) / total * r.denominator) / total

def meanInfluence (rows : List (Row κ)) (r : Row κ) : Rat :=
  r.treatment - r.control - (totalOf rows fun r => r.treatment - r.control) / rows.length

theorem measured_ratioDelta (hrows : rows ≠ []) (htotal : 0 < totalOf rows (·.denominator)) :
    measured (ratioDelta rows) = some
      (totalOf rows (·.treatment) / totalOf rows (·.denominator) -
        totalOf rows (·.control) / totalOf rows (·.denominator),
      seOf rows (ratioInfluence rows) 1) := by
  have haligned : ¬ (!(decide (rows.length ≠ 0) && true && true && true && true)) = true := by
    simpa using hrows
  have hpositive : ¬ (decide (totalOf rows (·.denominator) ≤ 0) || decide (totalOf rows (·.denominator) ≤ 0)) = true := by
    simpa using htotal
  unfold ratioDelta pairedRatioDelta
  simp only [List.length_map, decide_true]
  rw [if_neg haligned]
  refine (congrArg measured (if_neg hpositive)).trans ?_
  simp only [List.zip_map', List.map_map]
  rfl

theorem measured_meanDelta (hrows : rows ≠ []) : measured (meanDelta rows) = some
      ((totalOf rows fun r => r.treatment - r.control) / rows.length,
      seOf rows (meanInfluence rows) rows.length) := by
  have haligned : ¬ ((!(true && true)) || (rows.map (·.treatment)).isEmpty) = true := by
    simpa using hrows
  unfold meanDelta pairedMeanDelta
  simp only [List.length_map, decide_true]
  rw [if_neg haligned]
  simp only [List.zip_map', List.map_map, List.length_map]
  rfl

omit [DecidableEq κ] in
theorem totalOf_perm (h : rows.Perm rows') (field : Row κ → Rat) : totalOf rows field = totalOf rows' field :=
  (h.map field).sum_eq

omit [DecidableEq κ] in
theorem totalOf_pos (hrows : rows ≠ []) (hpos : ∀ r ∈ rows, 0 < r.denominator) :
    0 < totalOf rows (·.denominator) := by
  apply List.sum_pos
  · intro d hd
    obtain ⟨r, hr, rfl⟩ := List.mem_map.mp hd
    exact hpos r hr
  · simpa using hrows

omit [DecidableEq κ] in
theorem totalOf_sub (x y : Row κ → Rat) : (totalOf rows fun r => x r - y r) = totalOf rows x - totalOf rows y := by
  unfold totalOf
  induction rows with
  | nil => simp
  | cons r rows ih =>
    simp only [List.map_cons, List.sum_cons, ih]
    ring

theorem comparisons_perm (hpos : ∀ r ∈ rows, 0 < r.denominator) (h : rows.Perm rows') :
    measured (ratioDelta rows') = measured (ratioDelta rows) ∧
      measured (meanDelta rows') = measured (meanDelta rows) := by
  by_cases hrows : rows = []
  · rw [hrows] at h
    rw [hrows, h.symm.eq_nil]
    exact ⟨rfl, rfl⟩
  · have hrows' : rows' ≠ [] := fun hnil => hrows (by rw [hnil] at h; exact h.eq_nil)
    have htotal := totalOf_pos hrows hpos
    have htotal' : 0 < totalOf rows' (·.denominator) := by rwa [← totalOf_perm h]
    have hratio : ratioInfluence rows' = ratioInfluence rows := by
      unfold ratioInfluence
      rw [totalOf_perm h, totalOf_perm h, totalOf_perm h]
    have hmean : meanInfluence rows' = meanInfluence rows := by
      unfold meanInfluence
      rw [totalOf_perm h, h.length_eq]
    constructor
    · rw [measured_ratioDelta hrows' htotal', measured_ratioDelta hrows htotal, hratio, seOf_perm h,
        totalOf_perm h, totalOf_perm h, totalOf_perm h]
    · rw [measured_meanDelta hrows', measured_meanDelta hrows, hmean, seOf_perm h, totalOf_perm h, h.length_eq]

theorem comparisons_relabel (hpos : ∀ r ∈ rows, 0 < r.denominator) {f : κ → κ'} (hf : Function.Injective f) :
    measured (ratioDelta (rows.map (·.relabel f))) = measured (ratioDelta rows) ∧
      measured (meanDelta (rows.map (·.relabel f))) = measured (meanDelta rows) := by
  by_cases hrows : rows = []
  · rw [hrows]
    exact ⟨rfl, rfl⟩
  · have hrows' : rows.map (·.relabel f) ≠ [] := by simpa using hrows
    have htotals : ∀ (field : Row κ' → Rat), totalOf (rows.map (·.relabel f)) field =
        totalOf rows fun r => field (r.relabel f) := fun field => by
      unfold totalOf
      rw [List.map_map]
      rfl
    have htotal := totalOf_pos hrows hpos
    have htotal' : 0 < totalOf (rows.map (·.relabel f)) (·.denominator) := by
      rw [htotals]
      exact htotal
    constructor
    · rw [measured_ratioDelta hrows' htotal', measured_ratioDelta hrows htotal,
        seOf_relabel hf fun r _ => ?_, htotals, htotals, htotals]
      · rfl
      · unfold ratioInfluence
        rw [htotals, htotals, htotals]
        rfl
    · rw [measured_meanDelta hrows', measured_meanDelta hrows, List.length_map,
        seOf_relabel hf fun r _ => ?_, htotals]
      · rfl
      · unfold meanInfluence
        rw [htotals, List.length_map]
        rfl

theorem comparisons_swap (hpos : ∀ r ∈ rows, 0 < r.denominator) :
    measured (ratioDelta (rows.map Row.swap)) = (measured (ratioDelta rows)).map (fun m => (-m.1, m.2)) ∧
      measured (meanDelta (rows.map Row.swap)) = (measured (meanDelta rows)).map (fun m => (-m.1, m.2)) := by
  by_cases hrows : rows = []
  · rw [hrows]
    exact ⟨rfl, rfl⟩
  · have hrows' : rows.map Row.swap ≠ [] := by simpa using hrows
    have htotals : ∀ (field : Row κ → Rat), totalOf (rows.map Row.swap) field =
        totalOf rows fun r => field r.swap := fun field => by
      unfold totalOf
      rw [List.map_map]
      rfl
    have hdiff : (totalOf rows fun r => r.control - r.treatment) = -totalOf rows fun r => r.treatment - r.control := by
      rw [totalOf_sub, totalOf_sub, neg_sub]
    have htotal := totalOf_pos hrows hpos
    have htotal' : 0 < totalOf (rows.map Row.swap) (·.denominator) := by
      rw [htotals]
      exact htotal
    constructor
    · have hse : seOf (rows.map Row.swap) (ratioInfluence (rows.map Row.swap)) 1 =
          seOf rows (ratioInfluence rows) 1 := by
        rw [seOf_swap, ← seOf_neg (z := ratioInfluence rows)]
        apply seOf_congr
        intro r _
        unfold ratioInfluence
        dsimp only
        rw [htotals, htotals, htotals]
        dsimp only [Row.swap]
        ring
      rw [measured_ratioDelta hrows' htotal', measured_ratioDelta hrows htotal, hse, htotals, htotals, htotals]
      dsimp only [Row.swap, Option.map_some]
      rw [neg_sub]
    · have hse : seOf (rows.map Row.swap) (meanInfluence (rows.map Row.swap)) rows.length =
          seOf rows (meanInfluence rows) rows.length := by
        rw [seOf_swap, ← seOf_neg (z := meanInfluence rows)]
        apply seOf_congr
        intro r _
        unfold meanInfluence
        rw [htotals, List.length_map]
        dsimp only [Row.swap]
        rw [hdiff]
        ring
      rw [measured_meanDelta hrows', measured_meanDelta hrows, List.length_map, hse, htotals]
      dsimp only [Row.swap, Option.map_some]
      rw [hdiff, neg_div]

theorem ratio_eq_mean (hone : ∀ r ∈ rows, r.denominator = 1) :
    measured (ratioDelta rows) = measured (meanDelta rows) := by
  by_cases hrows : rows = []
  · rw [hrows]
    rfl
  · have hlength : totalOf rows (·.denominator) = rows.length := by
      unfold totalOf
      rw [List.map_congr_left hone]
      simp
    have htotal : 0 < totalOf rows (·.denominator) := totalOf_pos hrows fun r hr => by
      rw [hone r hr]
      exact zero_lt_one
    rw [measured_ratioDelta hrows htotal, measured_meanDelta hrows, hlength, totalOf_sub, sub_div,
      ← seOf_scaled (z := meanInfluence rows)]
    congr 2
    apply seOf_congr
    intro r hr
    unfold ratioInfluence meanInfluence
    dsimp only
    rw [hlength, hone r hr, totalOf_sub]
    ring

/-- On rows with a shared positive denominator: the ratio comparison's estimate is the difference of the
hits over the total; with denominators of one it is the mean comparison, squared standard error and all;
and both comparisons are those of the rows in any order and under any names of their clusters, and change
the sign of the estimate alone when the sides are swapped. -/
theorem ratio_deltas (rows : List (Row κ)) (hpos : ∀ r ∈ rows, 0 < r.denominator) :
    (rows ≠ [] → ∃ se, measured (ratioDelta rows) =
      some ((totalOf rows (·.treatment) - totalOf rows (·.control)) / totalOf rows (·.denominator), se)) ∧
    ((∀ r ∈ rows, r.denominator = 1) → measured (ratioDelta rows) = measured (meanDelta rows)) ∧
    (∀ rows', rows.Perm rows' → measured (ratioDelta rows') = measured (ratioDelta rows) ∧
      measured (meanDelta rows') = measured (meanDelta rows)) ∧
    (∀ {κ' : Type v} [DecidableEq κ'] (f : κ → κ'), Function.Injective f →
      measured (ratioDelta (rows.map (·.relabel f))) = measured (ratioDelta rows) ∧
      measured (meanDelta (rows.map (·.relabel f))) = measured (meanDelta rows)) ∧
    measured (ratioDelta (rows.map Row.swap)) = (measured (ratioDelta rows)).map (fun m => (-m.1, m.2)) ∧
      measured (meanDelta (rows.map Row.swap)) = (measured (meanDelta rows)).map (fun m => (-m.1, m.2)) := by
  refine ⟨fun hrows => ?_, ratio_eq_mean, fun rows' => comparisons_perm hpos,
    fun f => comparisons_relabel hpos, comparisons_swap hpos⟩
  refine ⟨seOf rows (ratioInfluence rows) 1, ?_⟩
  rw [measured_ratioDelta hrows (totalOf_pos hrows hpos), sub_div]

/-- Three rows in two clusters. -/
def threeRows : List (Row Nat) := [⟨1, 0, 1, 7⟩, ⟨2, 1, 1, 8⟩, ⟨3, 1, 1, 7⟩]

theorem ratio_deltas_three : measured (ratioDelta threeRows) = measured (meanDelta threeRows) ∧
    measured (meanDelta threeRows) = some (4 / 3, some (4 / 81)) := by
  have hone : ∀ r ∈ threeRows, r.denominator = 1 := by decide +kernel
  refine ⟨(ratio_deltas.{0, 0} threeRows fun r hr => ?_).2.1 hone, by decide +kernel⟩
  rw [hone r hr]
  exact zero_lt_one

end Comparisons

end LoopLab.Trust
