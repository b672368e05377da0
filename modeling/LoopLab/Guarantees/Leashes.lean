import LoopLab.Stages.Leash
import Mathlib.Data.List.Forall2
import Mathlib.Tactic.NormNum

/-!
# A change of the budget moves every leash the right way

A leash at the budget moves with it and a shorter one is only ever cut, so that the override is the new budget and
a larger override makes no leash shorter.
-/

set_option autoImplicit false

namespace LoopLab.Leash
open Lib

/-- A usable wall clock. -/
def Declared (v : Json) : Prop := (∀ b, v ≠ .bool b) ∧ ∃ q, v.toFloat = some q ∧ 0 < q

structure EvalSpec.WellDeclared (spec : EvalSpec) : Prop where
  base : ∀ v, spec.timeout = some v → Declared v
  profiles : ∀ row ∈ spec.profiles.rows, ∀ v, row.2.timeout = some v → Declared v
  stages : ∀ stage ∈ spec.stages, ∀ v, stage.timeout = some v → Declared v

/-- An override as its reader gives it. -/
structure Override (ceiling : LaunchCeiling) where
  seconds : Rat
  pos : 0 < seconds
  le : seconds ≤ ceiling.seconds

/-- No command and no stage has a longer leash on the left. -/
structure NoLonger (ceiling : LaunchCeiling) (es es' : EvalSpec) (stages stages' : List LeashedStage) : Prop where
  command : ∀ profile, commandTimeout ceiling es profile ≤ commandTimeout ceiling es' profile
  stages : ∀ profile,
    List.Forall₂ (fun s s' => stageTimeout ceiling es profile s ≤ stageTimeout ceiling es' profile s') stages stages'

/-- The override is the new budget, it is applied once for all, and every leash goes the way that it goes. -/
structure LeashSound (ceiling : LaunchCeiling) (spec : EvalSpec) (chain : List LeashedStage) (n : Override ceiling) :
    Prop where
  budget : evalSpecTimeBudget ceiling (withEvalTimeout ceiling (some spec) (some n.seconds)) = some n.seconds
  again : withEvalTimeout ceiling (withEvalTimeout ceiling (some spec) (some n.seconds)) (some n.seconds) =
    withEvalTimeout ceiling (some spec) (some n.seconds)
  chainAgain : ∀ spec', spec' = spec ∨ spec' = spec.leashed ceiling n.seconds →
    leashedStages (leashedStages chain (evalSpecTimeBudget ceiling (some spec)) (some n.seconds))
        (evalSpecTimeBudget ceiling (some spec')) (some n.seconds) =
      leashedStages chain (evalSpecTimeBudget ceiling (some spec)) (some n.seconds)
  monotone : ∀ n' : Override ceiling, n.seconds ≤ n'.seconds →
    NoLonger ceiling (spec.leashed ceiling n.seconds) (spec.leashed ceiling n'.seconds)
      (leashedStages (spec.stages ++ chain) (evalSpecTimeBudget ceiling (some spec)) (some n.seconds))
      (leashedStages (spec.stages ++ chain) (evalSpecTimeBudget ceiling (some spec)) (some n'.seconds))
  raised : ∀ b, evalSpecTimeBudget ceiling (some spec) = some b → b ≤ n.seconds →
    NoLonger ceiling spec (spec.leashed ceiling n.seconds) (spec.stages ++ chain)
      (leashedStages (spec.stages ++ chain) (some b) (some n.seconds))
  lowered : ∀ b, evalSpecTimeBudget ceiling (some spec) = some b → n.seconds ≤ b →
    NoLonger ceiling (spec.leashed ceiling n.seconds) spec
      (leashedStages (spec.stages ++ chain) (some b) (some n.seconds)) (spec.stages ++ chain)

/-- A missing base timeout lies on the same side of the override as the budget, and an override from the budget on is not
below a stage. -/
def OnOneSide (ceiling : LaunchCeiling) (spec : EvalSpec) (chain : List LeashedStage) (n : Rat) : Prop :=
  ∀ b, evalSpecTimeBudget ceiling (some spec) = some b →
    (spec.timeout = none → (b ≤ n → 600 ≤ n) ∧ (n ≤ b → n ≤ 600)) ∧
      (b ≤ n → ∀ stage ∈ spec.stages ++ chain, ∀ v q, stage.timeout = some v → (∀ x, v ≠ .bool x) →
        v.toFloat = some q → min q ceiling.seconds ≤ n)

section Leash
variable {ceiling : LaunchCeiling} {spec : EvalSpec} {v : Json} {b n n' q default default' : Rat}

/-- What a declaration comes to under a ceiling. -/
theorem finiteTimeout_some (h : v.toFloat = some q) : finiteTimeout ceiling (some v) default = max 0 (min q ceiling.seconds) := by
  rw [finiteTimeout, Option.bind_some, h, Option.getD_some]

theorem finiteTimeout_none (h : v.toFloat = none) :
    finiteTimeout ceiling (some v) default = finiteTimeout ceiling none default := by
  rw [finiteTimeout, Option.bind_some, h]
  rfl

theorem finiteTimeout_float : finiteTimeout ceiling (some (.float q)) default = max 0 (min q ceiling.seconds) :=
  finiteTimeout_some rfl

/-- The rule on a declaration that is a number. -/
theorem leashedTimeout_number (hbool : ∀ b, v ≠ .bool b) (h : v.toFloat = some q) :
    leashedTimeout v (some b) (some n) = .float (if b ≤ q then n else min q n) := by
  unfold leashedTimeout
  cases v with
  | bool x => exact absurd rfl (hbool x)
  | _ =>
    dsimp only
    rw [h]
    simp only [Option.any_some, decide_eq_true_eq]
    split <;> rfl

theorem leashedTimeout_other (h : (∃ x, v = .bool x) ∨ v.toFloat = none) :
    leashedTimeout v (some b) (some n) = v := by
  unfold leashedTimeout
  rcases h with ⟨x, rfl⟩ | h
  · rfl
  · cases v with
    | bool x => rfl
    | _ =>
      dsimp only
      rw [h]

variable (v) in
theorem number_or_other : ((∀ b, v ≠ .bool b) ∧ ∃ q, v.toFloat = some q) ∨ (∃ x, v = .bool x) ∨ v.toFloat = none := by
  by_cases hbool : ∃ x, v = .bool x
  · exact Or.inr (Or.inl hbool)
  · cases h : v.toFloat with
    | none => exact Or.inr (Or.inr rfl)
    | some q => exact Or.inl ⟨fun b hb => hbool ⟨b, hb⟩, q, rfl⟩

/-- A second leash at the same override, against the old budget or the new one, changes nothing. -/
theorem leashedTimeout_again {budget : Rat} (hbudget : budget = b ∨ budget = n) :
    leashedTimeout (leashedTimeout v (some b) (some n)) (some budget) (some n) = leashedTimeout v (some b) (some n) := by
  rcases number_or_other v with ⟨hbool, q, h⟩ | hother
  · rw [leashedTimeout_number hbool h, leashedTimeout_number (fun _ hx => Json.noConfusion hx) rfl]
    congr 1
    grind
  · rw [leashedTimeout_other hother, leashedTimeout_other hother]

theorem map_leashedTimeout_again {budget : Rat} (timeout : Option Json) (hbudget : budget = b ∨ budget = n) :
    (timeout.map fun v => leashedTimeout v (some b) (some n)).map (fun v => leashedTimeout v (some budget) (some n)) =
      timeout.map fun v => leashedTimeout v (some b) (some n) := by
  cases timeout with
  | none => rfl
  | some v => exact congrArg some (leashedTimeout_again hbudget)

/-- A larger override leaves a leash at least as long. -/
theorem leashed_mono (h : n ≤ n') (hdefault : default ≤ default') :
    finiteTimeout ceiling (some (leashedTimeout v (some b) (some n))) default ≤
      finiteTimeout ceiling (some (leashedTimeout v (some b) (some n'))) default' := by
  rcases number_or_other v with ⟨hbool, q, hq⟩ | hother
  · rw [leashedTimeout_number hbool hq, leashedTimeout_number hbool hq, finiteTimeout_float, finiteTimeout_float]
    grind
  · rw [leashedTimeout_other hother, leashedTimeout_other hother]
    cases hv : v.toFloat with
    | none =>
      rw [finiteTimeout_none hv, finiteTimeout_none hv]
      unfold finiteTimeout
      exact max_le_max_left 0 (min_le_min_right ceiling.seconds hdefault)
    | some q => rw [finiteTimeout_some hv, finiteTimeout_some hv]

/-- From the budget on an override shortens no number that it does not reach. -/
theorem leashed_raised (hb : b ≤ n) (hv : ∀ q, (∀ x, v ≠ .bool x) → v.toFloat = some q → min q ceiling.seconds ≤ n)
    (hdefault : default ≤ default') :
    finiteTimeout ceiling (some v) default ≤ finiteTimeout ceiling (some (leashedTimeout v (some b) (some n))) default' := by
  rcases number_or_other v with ⟨hbool, q, hq⟩ | hother
  · have hle := hv q hbool hq
    rw [leashedTimeout_number hbool hq, finiteTimeout_some hq, finiteTimeout_float]
    grind
  · rw [leashedTimeout_other hother]
    cases hq : v.toFloat with
    | none =>
      rw [finiteTimeout_none hq, finiteTimeout_none hq]
      unfold finiteTimeout
      exact max_le_max_left 0 (min_le_min_right ceiling.seconds hdefault)
    | some q => rw [finiteTimeout_some hq, finiteTimeout_some hq]

/-- Up to the budget an override lengthens no number. -/
theorem leashed_lowered (hb : n ≤ b) (hdefault : default ≤ default') :
    finiteTimeout ceiling (some (leashedTimeout v (some b) (some n))) default ≤ finiteTimeout ceiling (some v) default' := by
  rcases number_or_other v with ⟨hbool, q, hq⟩ | hother
  · rw [leashedTimeout_number hbool hq, finiteTimeout_some hq, finiteTimeout_float]
    grind
  · rw [leashedTimeout_other hother]
    cases hq : v.toFloat with
    | none =>
      rw [finiteTimeout_none hq, finiteTimeout_none hq]
      unfold finiteTimeout
      exact max_le_max_left 0 (min_le_min_right ceiling.seconds hdefault)
    | some q => rw [finiteTimeout_some hq, finiteTimeout_some hq]

/-! ## The budget -/

theorem foldl_max_spec (xs : List Rat) (a : Rat) : a ≤ xs.foldl max a ∧ (∀ x ∈ xs, x ≤ xs.foldl max a) ∧
    (xs.foldl max a = a ∨ xs.foldl max a ∈ xs) := by
  induction xs generalizing a with
  | nil => exact ⟨le_refl a, nofun, Or.inl rfl⟩
  | cons y xs ih =>
    obtain ⟨hlow, hall, hfrom⟩ := ih (max a y)
    rw [List.foldl_cons]
    refine ⟨(le_max_left a y).trans hlow, ?_, ?_⟩
    · intro x hx
      rcases List.mem_cons.mp hx with rfl | hx
      · exact (le_max_right a x).trans hlow
      · exact hall x hx
    · rcases hfrom with heq | hmem
      · rw [heq]
        rcases max_choice a y with h | h
        · exact Or.inl h
        · rw [h]
          exact Or.inr List.mem_cons_self
      · exact Or.inr (List.mem_cons_of_mem y hmem)

theorem declared_of_mem (h : spec.WellDeclared) (hv : v ∈ budgetDeclarations spec) : Declared v := by
  rcases List.mem_append.mp hv with hv | hv
  · exact h.base v (Option.mem_toList.mp hv)
  · obtain ⟨row, hrow, hv⟩ := List.mem_filterMap.mp hv
    exact h.profiles row hrow v hv

/-- The budget of a well declared spec: no declaration of it is above, and one reaches it. -/
theorem budget_spec (h : spec.WellDeclared) : ∃ b, evalSpecTimeBudget ceiling (some spec) = some b ∧
    b ≤ ceiling.seconds ∧ (∀ v ∈ budgetDeclarations spec, ∀ q, v.toFloat = some q → min q ceiling.seconds ≤ b) ∧
      (budgetDeclarations spec ≠ [] → ∃ v ∈ budgetDeclarations spec, ∃ q, v.toFloat = some q ∧ b ≤ q) := by
  have hlong := ceiling.long
  have hpositive : 0 < ceiling.seconds := lt_of_lt_of_le (by norm_num [LAUNCH_TIMEOUT_DEFAULT_S]) hlong
  unfold evalSpecTimeBudget
  dsimp only
  generalize hvals : (if (budgetDeclarations spec).isEmpty then [Json.float 600] else budgetDeclarations spec) = vals
  have hmem : ∀ v ∈ vals, Declared v := by
    rw [← hvals]
    split
    · intro v hv
      rw [List.mem_singleton.mp hv]
      exact ⟨fun _ hx => Json.noConfusion hx, 600, rfl, by norm_num⟩
    · exact fun v hv => declared_of_mem h hv
  have hne : vals ≠ [] := by
    rw [← hvals]
    split
    · exact List.cons_ne_nil _ _
    · rename_i hempty
      exact fun hnil => hempty (List.isEmpty_iff.mpr hnil)
  obtain ⟨hlow, hall, hfrom⟩ := foldl_max_spec (vals.map fun v => finiteTimeout ceiling (some v) 0) 0
  obtain ⟨first, rest, hcons⟩ := List.exists_cons_of_ne_nil hne
  have hfirst : first ∈ vals := hcons ▸ List.mem_cons_self
  obtain ⟨-, q, hq, hqpos⟩ := hmem first hfirst
  have hover := hall _ (List.mem_map_of_mem hfirst)
  rw [finiteTimeout_some hq] at hover
  have hsome : 0 < (vals.map fun v => finiteTimeout ceiling (some v) 0).foldl max 0 :=
    lt_of_lt_of_le (lt_min hqpos hpositive) ((le_max_right 0 _).trans hover)
  refine ⟨_, if_pos hsome, ?_, ?_, ?_⟩
  · rcases hfrom with heq | hmem'
    · rw [heq]
      exact hpositive.le
    · obtain ⟨v, -, hv⟩ := List.mem_map.mp hmem'
      rw [← hv]
      exact max_le hpositive.le (min_le_right _ _)
  · intro v hv q hq
    have hin : v ∈ vals := by
      rw [← hvals, if_neg]
      · exact hv
      · intro hempty
        rw [List.isEmpty_iff.mp hempty] at hv
        cases hv
    have hover := hall _ (List.mem_map_of_mem hin)
    rw [finiteTimeout_some hq] at hover
    exact (le_max_right 0 _).trans hover
  · intro hsomeDeclared
    have hown : vals = budgetDeclarations spec := by
      rw [← hvals, if_neg]
      exact fun hempty => hsomeDeclared (List.isEmpty_iff.mp hempty)
    obtain ⟨v, hv, heq⟩ := List.mem_map.mp (hfrom.resolve_left hsome.ne')
    obtain ⟨-, q, hq, hqpos⟩ := hmem v hv
    refine ⟨v, hown ▸ hv, q, hq, ?_⟩
    rw [← heq, finiteTimeout_some hq]
    exact max_le hqpos.le (min_le_left _ _)

theorem budgetDeclarations_leashed {budget : Option Rat} (hbudget : evalSpecTimeBudget ceiling (some spec) = budget) :
    budgetDeclarations (spec.leashed ceiling n) =
      spec.timeout.elim (.float n) (fun declared => leashedTimeout declared budget (some n)) ::
        (spec.profiles.rows.filterMap fun row => row.2.timeout).map fun declared =>
          leashedTimeout declared budget (some n) := by
  unfold budgetDeclarations EvalSpec.leashed
  rw [hbudget]
  dsimp only
  rw [Table.rows_mapRows, List.filterMap_map, List.map_filterMap]
  rfl

/-- The override is the new budget. -/
theorem budget_leashed (h : spec.WellDeclared) (n : Override ceiling) :
    evalSpecTimeBudget ceiling (some (spec.leashed ceiling n.seconds)) = some n.seconds := by
  obtain ⟨b, hb, -, -, hreached⟩ := budget_spec h
  have hn := n.pos
  have hle := n.le
  have hdeclared := budgetDeclarations_leashed (n := n.seconds) hb
  have hnew : finiteTimeout ceiling (some (.float n.seconds)) 0 = n.seconds := by
    rw [finiteTimeout_float, min_eq_left hle, max_eq_right hn.le]
  have hleash (v : Json) (hv : Declared v) :
      finiteTimeout ceiling (some (leashedTimeout v (some b) (some n.seconds))) 0 ≤ n.seconds := by
    obtain ⟨hbool, q, hq, -⟩ := hv
    rw [leashedTimeout_number hbool hq, finiteTimeout_float]
    grind
  have hall : ∀ w ∈ budgetDeclarations (spec.leashed ceiling n.seconds), finiteTimeout ceiling (some w) 0 ≤ n.seconds := by
    rw [hdeclared]
    intro w hw
    rcases List.mem_cons.mp hw with rfl | hw
    · cases hbase : spec.timeout with
      | none => exact hnew.le
      | some v => exact hleash v (h.base v hbase)
    · obtain ⟨v, hv, rfl⟩ := List.mem_map.mp hw
      exact hleash v (declared_of_mem h (List.mem_append_right _ hv))
  have hone : Json.float n.seconds ∈ budgetDeclarations (spec.leashed ceiling n.seconds) := by
    rw [hdeclared]
    cases hbase : spec.timeout with
    | none => exact List.mem_cons_self
    | some base =>
      have hne : budgetDeclarations spec ≠ [] := by
        unfold budgetDeclarations
        rw [hbase]
        exact List.cons_ne_nil _ _
      obtain ⟨v, hv, q, hq, hbq⟩ := hreached hne
      have hmoved : leashedTimeout v (some b) (some n.seconds) = .float n.seconds := by
        rw [leashedTimeout_number (declared_of_mem h hv).1 hq, if_pos hbq]
      rcases List.mem_append.mp hv with hv | hv
      · rw [hbase] at hv
        obtain rfl := Option.some.inj (Option.mem_toList.mp hv)
        exact List.mem_cons.mpr (Or.inl hmoved.symm)
      · exact List.mem_cons_of_mem _ (hmoved ▸ List.mem_map_of_mem hv)
  unfold evalSpecTimeBudget
  dsimp only
  have hfilled : (budgetDeclarations (spec.leashed ceiling n.seconds)).isEmpty = false := by
    rw [hdeclared]
    rfl
  rw [hfilled, if_neg Bool.false_ne_true]
  obtain ⟨-, habove, hfrom⟩ := foldl_max_spec
    ((budgetDeclarations (spec.leashed ceiling n.seconds)).map fun v => finiteTimeout ceiling (some v) 0) 0
  have hge := habove _ (List.mem_map_of_mem hone)
  rw [hnew] at hge
  have heq : ((budgetDeclarations (spec.leashed ceiling n.seconds)).map fun v =>
      finiteTimeout ceiling (some v) 0).foldl max 0 = n.seconds := by
    apply le_antisymm ?_ hge
    rcases hfrom with heq | hmem
    · rw [heq]
      exact hn.le
    · obtain ⟨w, hw, hw'⟩ := List.mem_map.mp hmem
      rw [← hw']
      exact hall w hw
  rw [heq, if_pos hn]

/-! ## Leashes -/

theorem commandTimeout_leashed (hb : evalSpecTimeBudget ceiling (some spec) = some b) (profile : Option String) :
    commandTimeout ceiling (spec.leashed ceiling n) profile = finiteTimeout ceiling
      (some ((((resolvedProfile spec profile).bind Profile.timeout).or spec.timeout).elim (.float n) fun declared =>
        leashedTimeout declared (some b) (some n))) 600 := by
  have hprofile : (resolvedProfile (spec.leashed ceiling n) profile).bind Profile.timeout =
      ((resolvedProfile spec profile).bind Profile.timeout).map fun declared =>
        leashedTimeout declared (some b) (some n) := by
    unfold resolvedProfile EvalSpec.leashed Dict.get
    rw [hb]
    dsimp only
    rw [Table.get_mapRows]
    cases Table.get spec.profiles (if profile.getD "" = "" then "smoke" else profile.getD "") <;> rfl
  unfold commandTimeout
  rw [hprofile]
  cases (resolvedProfile spec profile).bind Profile.timeout with
  | some v => rfl
  | none =>
    unfold EvalSpec.leashed
    rw [hb]
    rfl

/-- What a profile or the base declares is among the declarations of the budget. -/
theorem own_declared {profile : Option String} (hv : ((resolvedProfile spec profile).bind Profile.timeout).or spec.timeout = some v) :
    v ∈ budgetDeclarations spec := by
  unfold budgetDeclarations
  cases hown : (resolvedProfile spec profile).bind Profile.timeout with
  | none =>
    rw [hown, Option.none_or] at hv
    rw [hv]
    exact List.mem_cons_self
  | some w =>
    rw [hown, Option.some_or] at hv
    obtain rfl := Option.some.inj hv
    obtain ⟨p, hp, htimeout⟩ := Option.bind_eq_some_iff.mp hown
    obtain ⟨row, hrow, rfl⟩ := Option.map_eq_some_iff.mp hp
    exact List.mem_append_right _ (List.mem_filterMap.mpr ⟨row, List.mem_of_find?_eq_some hrow, htimeout⟩)

/-- Some profile name selects the base command. -/
theorem exists_base_profile (spec : EvalSpec) : ∃ profile, (resolvedProfile spec profile).bind Profile.timeout = none := by
  have hlonger (rows : List (String × Profile)) : ∃ n, ∀ row ∈ rows, row.1.length < n := by
    induction rows with
    | nil => exact ⟨0, nofun⟩
    | cons row rows ih =>
      obtain ⟨n, hn⟩ := ih
      refine ⟨max n (row.1.length + 1), ?_⟩
      intro r hr
      rcases List.mem_cons.mp hr with rfl | hr
      · omega
      · have hlt := hn r hr
        omega
  obtain ⟨n, hn⟩ := hlonger spec.profiles.rows
  refine ⟨some (String.ofList (List.replicate (n + 1) 'x')), ?_⟩
  have hlength : (String.ofList (List.replicate (n + 1) 'x')).length = n + 1 := by
    rw [String.length_ofList, List.length_replicate]
  have hfilled : ¬String.ofList (List.replicate (n + 1) 'x') = "" := by
    intro hempty
    rw [hempty] at hlength
    cases hlength
  unfold resolvedProfile
  rw [Option.getD_some, if_neg hfilled]
  have hnone : spec.profiles.get (String.ofList (List.replicate (n + 1) 'x')) = none := by
    unfold Dict.get
    rw [Option.map_eq_none_iff, Table.get_eq_none]
    intro row hrow heq
    have hlt := hn row hrow
    rw [heq, hlength] at hlt
    omega
  rw [hnone]
  rfl

/-- A stage under the override. -/
def LeashedStage.leashed (stage : LeashedStage) (b n : Rat) : LeashedStage :=
  { stage with timeout := stage.timeout.map fun declared => leashedTimeout declared (some b) (some n) }

theorem leashedStages_eq (stages : List LeashedStage) :
    leashedStages stages (some b) (some n) = stages.map fun stage => stage.leashed b n := by
  rw [leashedStages, if_neg (Option.some_ne_none n)]
  rfl

theorem leashedStages_again {budget : Rat} (stages : List LeashedStage) (hbudget : budget = b ∨ budget = n) :
    leashedStages (leashedStages stages (some b) (some n)) (some budget) (some n) =
      leashedStages stages (some b) (some n) := by
  rw [leashedStages_eq, leashedStages_eq, List.map_map]
  apply List.map_congr_left
  intro stage _
  exact congrArg (LeashedStage.mk stage.name) (map_leashedTimeout_again stage.timeout hbudget)

theorem leashed_again {h : spec.WellDeclared} (n : Override ceiling) :
    (spec.leashed ceiling n.seconds).leashed ceiling n.seconds = spec.leashed ceiling n.seconds := by
  obtain ⟨b, hb, -⟩ := budget_spec h
  have hnew := budget_leashed h n
  generalize hmoved : spec.leashed ceiling n.seconds = moved at hnew
  unfold EvalSpec.leashed
  rw [hnew]
  subst hmoved
  unfold EvalSpec.leashed
  rw [hb]
  dsimp only
  congr 1
  · rw [Option.elim_some]
    cases spec.timeout with
    | none =>
      rw [Option.elim_none, leashedTimeout_number (fun _ hx => Json.noConfusion hx) rfl, if_pos (le_refl _)]
    | some v => rw [Option.elim_some, leashedTimeout_again (Or.inr rfl)]
  · apply Table.ext
    rw [Table.rows_mapRows, Table.rows_mapRows, List.map_map]
    apply List.map_congr_left
    intro row _
    exact congrArg (fun t => (row.1, Profile.mk t row.2.overrides))
      (map_leashedTimeout_again row.2.timeout (Or.inr rfl))
  · exact leashedStages_again _ (Or.inr rfl)

/-- Stages are compared one by one. -/
theorem forall_stages {R : LeashedStage → LeashedStage → Prop} {stages : List LeashedStage}
    {f g : LeashedStage → LeashedStage} :
    List.Forall₂ R (stages.map f) (stages.map g) ↔ ∀ stage ∈ stages, R (f stage) (g stage) := by
  rw [List.forall₂_map_left_iff, List.forall₂_map_right_iff, List.forall₂_same]

theorem forall_stages_left {R : LeashedStage → LeashedStage → Prop} {stages : List LeashedStage}
    {f : LeashedStage → LeashedStage} : List.Forall₂ R (stages.map f) stages ↔ ∀ stage ∈ stages, R (f stage) stage := by
  rw [List.forall₂_map_left_iff, List.forall₂_same]

theorem forall_stages_right {R : LeashedStage → LeashedStage → Prop} {stages : List LeashedStage}
    {f : LeashedStage → LeashedStage} : List.Forall₂ R stages (stages.map f) ↔ ∀ stage ∈ stages, R stage (f stage) := by
  rw [List.forall₂_map_right_iff, List.forall₂_same]

variable (spec) in
/-- Every leash goes the way of the override exactly where what it leaves alone lies on the right side. -/
theorem leashes_sound_iff (chain : List LeashedStage) (n : Override ceiling) (h : spec.WellDeclared) :
    LeashSound ceiling spec chain n ↔ OnOneSide ceiling spec chain n.seconds := by
  have hn := n.pos
  have hle := n.le
  have hlong : 600 ≤ ceiling.seconds := le_trans (by norm_num [LAUNCH_TIMEOUT_DEFAULT_S]) ceiling.long
  obtain ⟨b, hb, hbceiling, hbudget, -⟩ := budget_spec h
  have hdefault : finiteTimeout ceiling none 600 = 600 := by
    rw [finiteTimeout]
    exact max_eq_right (le_min (by norm_num) (hn.le.trans hle)) |>.trans (min_eq_left hlong)
  have hnew (d : Rat) : finiteTimeout ceiling (some (.float n.seconds)) d = n.seconds := by
    rw [finiteTimeout_float, min_eq_left hle, max_eq_right hn.le]
  constructor
  · intro hsound b' hb'
    obtain rfl := Option.some.inj (hb.symm.trans hb')
    constructor
    · intro hbase
      obtain ⟨profile, hprofile⟩ := exists_base_profile spec
      have hold : commandTimeout ceiling spec profile = 600 := by
        rw [commandTimeout, hprofile, hbase]
        exact hdefault
      have hmoved : commandTimeout ceiling (spec.leashed ceiling n.seconds) profile = n.seconds := by
        rw [commandTimeout_leashed hb, hprofile, hbase]
        exact hnew 600
      constructor
      · intro hraised
        have hcommand := (hsound.raised b hb hraised).command profile
        rwa [hold, hmoved] at hcommand
      · intro hlowered
        have hcommand := (hsound.lowered b hb hlowered).command profile
        rwa [hold, hmoved] at hcommand
    · intro hraised stage hstage v q hv hbool hq
      have hstages := (hsound.raised b hb hraised).stages none
      rw [leashedStages_eq, forall_stages_right] at hstages
      have hone := hstages stage hstage
      unfold stageTimeout LeashedStage.leashed at hone
      rw [hv, Option.map_some, finiteTimeout_some hq, leashedTimeout_number hbool hq, finiteTimeout_float] at hone
      grind
  · intro hside
    obtain ⟨hbase, hstages⟩ := hside b hb
    have hraisedCommand (hraised : b ≤ n.seconds) (profile : Option String) :
        commandTimeout ceiling spec profile ≤ commandTimeout ceiling (spec.leashed ceiling n.seconds) profile := by
      rw [commandTimeout_leashed hb, commandTimeout]
      cases hown : ((resolvedProfile spec profile).bind Profile.timeout).or spec.timeout with
      | none =>
        rw [Option.elim_none, hnew, hdefault]
        exact (hbase (Option.or_eq_none_iff.mp hown).2).1 hraised
      | some v => exact leashed_raised hraised (fun q _ hq => (hbudget v (own_declared hown) q hq).trans hraised) le_rfl
    have hloweredCommand (hlowered : n.seconds ≤ b) (profile : Option String) :
        commandTimeout ceiling (spec.leashed ceiling n.seconds) profile ≤ commandTimeout ceiling spec profile := by
      rw [commandTimeout_leashed hb, commandTimeout]
      cases hown : ((resolvedProfile spec profile).bind Profile.timeout).or spec.timeout with
      | none =>
        rw [Option.elim_none, hnew, hdefault]
        exact (hbase (Option.or_eq_none_iff.mp hown).2).2 hlowered
      | some v => exact leashed_lowered hlowered le_rfl
    refine ⟨budget_leashed h n, ?_, ?_, ?_, ?_, ?_⟩
    · exact congrArg some (leashed_again (h := h) n)
    · rintro spec' (rfl | rfl)
      · rw [hb]
        exact leashedStages_again chain (Or.inl rfl)
      · rw [hb, budget_leashed h n]
        exact leashedStages_again chain (Or.inr rfl)
    · intro n' hnn'
      have hcommand (profile : Option String) : commandTimeout ceiling (spec.leashed ceiling n.seconds) profile ≤
          commandTimeout ceiling (spec.leashed ceiling n'.seconds) profile := by
        rw [commandTimeout_leashed hb, commandTimeout_leashed hb]
        cases ((resolvedProfile spec profile).bind Profile.timeout).or spec.timeout with
        | none =>
          rw [Option.elim_none, Option.elim_none, finiteTimeout_float, finiteTimeout_float]
          exact max_le_max_left 0 (min_le_min_right ceiling.seconds hnn')
        | some v => exact leashed_mono hnn' le_rfl
      refine ⟨hcommand, ?_⟩
      intro profile
      rw [hb, leashedStages_eq, leashedStages_eq, forall_stages]
      intro stage _
      unfold stageTimeout LeashedStage.leashed
      cases stage.timeout with
      | none => exact max_le_max_left 0 (min_le_min_right ceiling.seconds (hcommand profile))
      | some v => exact leashed_mono hnn' (hcommand profile)
    · intro b' hb' hraised
      obtain rfl := Option.some.inj (hb.symm.trans hb')
      refine ⟨hraisedCommand hraised, ?_⟩
      intro profile
      rw [leashedStages_eq, forall_stages_right]
      intro stage hstage
      unfold stageTimeout LeashedStage.leashed
      cases hown : stage.timeout with
      | none => exact max_le_max_left 0 (min_le_min_right ceiling.seconds (hraisedCommand hraised profile))
      | some v =>
        exact leashed_raised hraised (fun q hbool hq => hstages hraised stage hstage v q hown hbool hq)
          (hraisedCommand hraised profile)
    · intro b' hb' hlowered
      obtain rfl := Option.some.inj (hb.symm.trans hb')
      refine ⟨hloweredCommand hlowered, ?_⟩
      intro profile
      rw [leashedStages_eq, forall_stages_left]
      intro stage _
      unfold stageTimeout LeashedStage.leashed
      cases stage.timeout with
      | none => exact max_le_max_left 0 (min_le_min_right ceiling.seconds (hloweredCommand hlowered profile))
      | some v => exact leashed_lowered hlowered (hloweredCommand hlowered profile)

end Leash

def dayCeiling : LaunchCeiling := ⟨LAUNCH_TIMEOUT_DEFAULT_S, le_refl _⟩

/-- Six hours for the evaluation, with a smoke profile of a minute. -/
def sixHours : EvalSpec := ⟨["python"], some (.int 21600), ⟨[("smoke", ⟨some (.int 60), []⟩)], by decide⟩, []⟩

theorem sixHours_declared : sixHours.WellDeclared := by
  have hseconds (i : Int) (hi : (Json.int i).toFloat = some (i : Rat) ∧ 0 < (i : Rat)) : Declared (.int i) :=
    ⟨fun _ h => Json.noConfusion h, i, hi⟩
  refine ⟨?_, ?_, ?_⟩
  · intro v hv
    obtain rfl := Option.some.inj hv
    exact hseconds 21600 (by decide +kernel)
  · intro row hrow v hv
    obtain rfl := List.mem_singleton.mp hrow
    obtain rfl := Option.some.inj hv
    exact hseconds 60 (by decide +kernel)
  · intro stage hstage
    cases hstage

def trainStage (seconds : Int) : LeashedStage := ⟨"train", some (.int seconds)⟩

def eightHours : Override dayCeiling := ⟨28800, by decide +kernel, by decide +kernel⟩

theorem sixHours_leashed : LeashSound dayCeiling sixHours [trainStage 21600] eightHours := by
  rw [leashes_sound_iff sixHours [trainStage 21600] eightHours sixHours_declared]
  intro b _
  refine ⟨nofun, ?_⟩
  intro _ stage hstage v q hv _ hq
  obtain rfl := List.mem_singleton.mp hstage
  obtain rfl := Option.some.inj hv
  have hvalue : (Json.int 21600).toFloat = some 21600 := by decide +kernel
  obtain rfl := Option.some.inj (hvalue.symm.trans hq)
  decide +kernel

/-- A stage of a day is cut to eight hours when the budget is raised from six hours to eight. -/
theorem longer_stage_is_cut : ¬∀ (ceiling : LaunchCeiling) (spec : EvalSpec) (chain : List LeashedStage)
    (n : Override ceiling), spec.WellDeclared → LeashSound ceiling spec chain n := by
  intro hall
  have hsound := hall dayCeiling sixHours [trainStage 86400] eightHours sixHours_declared
  have hraised := (hsound.raised 21600 (by decide +kernel) (by decide +kernel)).stages none
  cases hraised with
  | cons hfirst _ => exact absurd hfirst (by decide +kernel)

end LoopLab.Leash
