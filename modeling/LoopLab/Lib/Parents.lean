import Mathlib.Dynamics.PeriodicPts.Lemmas
import Mathlib.Data.Set.Finite.List
import Mathlib.Logic.Relation
import Mathlib.Logic.Function.Basic

/-!
# Chains of parents

A partial map to parents: the chain above a point, the points on a cycle, and how deep a point stands.
-/

set_option autoImplicit false

namespace LoopLab.Lib

universe u
variable {α : Type u}

/-- The `n`-th point above. -/
def anc (up : α → Option α) : Nat → α → Option α
  | 0, x => some x
  | n + 1, x => (up x).bind (anc up n)

/-- There are `n` points in the chain above. -/
def Deep (up : α → Option α) (n : Nat) (x : α) : Prop := (anc up n x).isSome

def OnCycle (up : α → Option α) (x : α) : Prop := ∃ n, 0 < n ∧ anc up n x = some x

def Acyclic (up : α → Option α) : Prop := ∀ x, ¬ OnCycle up x

def SubMap (up up' : α → Option α) : Prop := ∀ x y, up x = some y → up' x = some y

variable {up up' : α → Option α} {x y : α} {m n : Nat}

theorem anc_succ (n : Nat) (x : α) : anc up (n + 1) x = (up x).bind (anc up n) := rfl

theorem anc_one : anc up 1 x = up x := by
  rw [anc_succ]
  cases up x <;> rfl

theorem anc_add (m n : Nat) (x : α) : anc up (m + n) x = (anc up m x).bind (anc up n) := by
  induction m generalizing x with
  | zero =>
    rw [Nat.zero_add]
    rfl
  | succ m ih =>
    rw [Nat.succ_add, Nat.succ_eq_add_one, anc_succ, anc_succ]
    cases up x with
    | none => rfl
    | some y => exact ih y

theorem anc_succ_of (h : up x = some y) : anc up (n + 1) x = anc up n y := by
  rw [anc_succ, h]
  rfl

theorem anc_succ_none (h : up x = none) : anc up (n + 1) x = none := by
  rw [anc_succ, h]
  rfl

theorem anc_add_of (h : anc up m x = some y) : anc up (m + n) x = anc up n y := by
  rw [anc_add, h]
  rfl

theorem Deep.mono (h : Deep up n x) (hle : m ≤ n) : Deep up m x := by
  unfold Deep at h ⊢
  obtain ⟨k, rfl⟩ := Nat.exists_eq_add_of_le hle
  rw [anc_add] at h
  cases hm : anc up m x with
  | none =>
    rw [hm] at h
    exact h
  | some y => rfl

theorem deep_iff : Deep up n x ↔ ∃ y, anc up n x = some y := Option.isSome_iff_exists

theorem Deep.step (h : Deep up (n + 1) x) : ∃ y, up x = some y ∧ Deep up n y := by
  unfold Deep at h
  cases hx : up x with
  | none =>
    rw [anc_succ_none hx] at h
    cases h
  | some y =>
    rw [anc_succ_of hx] at h
    exact ⟨y, rfl, h⟩

theorem deep_succ (h : up x = some y) : Deep up (n + 1) x ↔ Deep up n y := by
  unfold Deep
  rw [anc_succ_of h]

namespace OnCycle

theorem parent (h : OnCycle up x) : ∃ y, up x = some y ∧ OnCycle up y := by
  obtain ⟨n, hn, hx⟩ := h
  obtain ⟨k, rfl⟩ := Nat.exists_eq_succ_of_ne_zero (Nat.pos_iff_ne_zero.mp hn)
  cases hup : up x with
  | none =>
    rw [anc_succ_none hup] at hx
    cases hx
  | some y =>
    refine ⟨y, rfl, k + 1, hn, ?_⟩
    rw [Nat.succ_eq_add_one, anc_succ_of hup] at hx
    rw [anc_add_of hx, anc_one, hup]

theorem of_parent (h : OnCycle up x) (hup : up x = some y) : OnCycle up y := by
  obtain ⟨z, hz, hc⟩ := h.parent
  rw [hup] at hz
  cases hz
  exact hc

theorem of_anc (h : OnCycle up x) (hn : anc up n x = some y) : OnCycle up y := by
  induction n generalizing x with
  | zero =>
    cases hn
    exact h
  | succ n ih =>
    obtain ⟨z, hz, hc⟩ := h.parent
    rw [anc_succ_of hz] at hn
    exact ih hc hn

theorem child (h : OnCycle up x) : ∃ y, up y = some x ∧ OnCycle up y := by
  obtain ⟨n, hn, hx⟩ := h
  obtain ⟨k, rfl⟩ := Nat.exists_eq_succ_of_ne_zero (Nat.pos_iff_ne_zero.mp hn)
  have hk : anc up (k + 1) x = (anc up k x).bind (anc up 1) := anc_add k 1 x
  cases hy : anc up k x with
  | none =>
    rw [hy, hx] at hk
    cases hk
  | some y =>
    rw [hy, hx] at hk
    have hone : anc up 1 y = up y := anc_one
    have hup : up y = some x := hone.symm.trans hk.symm
    exact ⟨y, hup, of_anc ⟨k + 1, hn, hx⟩ hy⟩

end OnCycle

theorem SubMap.anc (h : SubMap up up') (hn : anc up n x = some y) : anc up' n x = some y := by
  induction n generalizing x with
  | zero => exact hn
  | succ n ih =>
    cases hx : up x with
    | none =>
      rw [anc_succ_none hx] at hn
      cases hn
    | some z =>
      rw [anc_succ_of hx] at hn
      rw [anc_succ_of (h x z hx)]
      exact ih hn

theorem SubMap.deep (h : SubMap up up') (hd : Deep up n x) : Deep up' n x := by
  obtain ⟨y, hy⟩ := deep_iff.mp hd
  exact deep_iff.mpr ⟨y, h.anc hy⟩

theorem SubMap.acyclic (h : SubMap up up') (hout : ∀ x y, up x = some y → ¬ OnCycle up' x) :
    Acyclic up := by
  intro x hx
  obtain ⟨y, hy, -⟩ := hx.parent
  obtain ⟨n, hn, hanc⟩ := hx
  exact hout x y hy ⟨n, hn, h.anc hanc⟩

section Cut
open Classical

noncomputable def offCycles (up : α → Option α) (x : α) : Option α :=
  if OnCycle up x then none else up x

theorem offCycles_eq_some : offCycles up x = some y ↔ up x = some y ∧ ¬ OnCycle up x := by
  unfold offCycles
  split
  · rename_i h
    constructor
    · intro hx
      cases hx
    · intro hx
      exact absurd h hx.2
  · rename_i h
    exact ⟨fun hx => ⟨hx, h⟩, fun hx => hx.1⟩

theorem offCycles_subMap : SubMap (offCycles up) up := fun _ _ h => (offCycles_eq_some.mp h).1

theorem offCycles_acyclic : Acyclic (offCycles up) :=
  offCycles_subMap.acyclic fun _ _ h => (offCycles_eq_some.mp h).2

end Cut

theorem onCycle_of_children {s : List α} (h : ∀ x ∈ s, ∃ y ∈ s, up y = some x) (hx : x ∈ s) :
    OnCycle up x := by
  have hpoint (p : {x // x ∈ s}) : ∃ q : {x // x ∈ s}, up q.1 = some p.1 := by
    obtain ⟨y, hy, hup⟩ := h p.1 p.2
    exact ⟨⟨y, hy⟩, hup⟩
  choose child hchild using hpoint
  have hinj : Function.Injective child := by
    intro p q hpq
    have := hchild p
    rw [hpq, hchild q] at this
    exact Subtype.ext (Option.some.inj this).symm
  have hanc (n : Nat) (p : {x // x ∈ s}) : anc up n (child^[n] p).1 = some p.1 := by
    induction n generalizing p with
    | zero => rfl
    | succ n ih =>
      rw [Function.iterate_succ_apply, anc_add_of (ih (child p)), anc_one, hchild p]
  have hfinite : Finite {x // x ∈ s} := (List.finite_toSet s).to_subtype
  obtain ⟨n, hn, hper⟩ := hinj.mem_periodicPts ⟨x, hx⟩
  refine ⟨n, hn, ?_⟩
  have := hanc n ⟨x, hx⟩
  rwa [hper.eq] at this

end LoopLab.Lib

/-!
## Chains that end

A point ends where following the map from it comes to a point without a next one.
-/

namespace LoopLab.Lib

universe u
variable {α : Type u} {next next' : α → Option α} {x y z s d : α}

inductive Ends (next : α → Option α) : α → Prop
  | stop {x : α} (h : next x = none) : Ends next x
  | step {x y : α} (h : next x = some y) (hy : Ends next y) : Ends next x

abbrev Leads (next : α → Option α) : α → α → Prop := Relation.ReflTransGen fun x y => next x = some y

abbrev LeadsOn (next : α → Option α) : α → α → Prop := Relation.TransGen fun x y => next x = some y

inductive EndsAt (next : α → Option α) : α → α → Prop
  | stop {x : α} (h : next x = none) : EndsAt next x x
  | step {x y z : α} (h : next x = some y) (hy : EndsAt next y z) : EndsAt next x z

theorem EndsAt.unique (h : EndsAt next x y) (h' : EndsAt next x z) : y = z := by
  induction h with
  | stop hnone =>
    cases h' with
    | stop => rfl
    | step hsome =>
      rw [hnone] at hsome
      cases hsome
  | step hsome _ ih =>
    cases h' with
    | stop hnone =>
      rw [hsome] at hnone
      cases hnone
    | step hsome' hrest =>
      rw [hsome] at hsome'
      cases hsome'
      exact ih hrest

theorem EndsAt.leads (h : EndsAt next x z) : Leads next x z := by
  induction h with
  | stop => exact .refl
  | step hxy _ ih => exact .head hxy ih

theorem EndsAt.of_leads (h : Leads next x y) (hy : EndsAt next y z) : EndsAt next x z := by
  induction h using Relation.ReflTransGen.head_induction_on with
  | refl => exact hy
  | head hxy _ ih => exact .step hxy ih

theorem Ends.not_cycle (h : Ends next x) : ¬LeadsOn next x x := by
  induction h with
  | stop hnone =>
    intro hcycle
    obtain ⟨y, hxy, -⟩ := (Relation.TransGen.head'_iff).mp hcycle
    rw [hnone] at hxy
    cases hxy
  | @step x y hxy _ ih =>
    intro hcycle
    obtain ⟨w, hxw, hwx⟩ := (Relation.TransGen.head'_iff).mp hcycle
    obtain rfl := Option.some.inj (hxy.symm.trans hxw)
    exact ih (Relation.TransGen.tail' hwx hxy)

theorem Ends.of_leads (h : Ends next x) (hxy : Leads next x y) : Ends next y := by
  induction hxy with
  | refl => exact h
  | tail _ hyz ih =>
    cases ih with
    | stop hnone =>
      rw [hnone] at hyz
      cases hyz
    | step hsome hrest =>
      obtain rfl := Option.some.inj (hsome.symm.trans hyz)
      exact hrest

theorem EndsAt.rest (h : EndsAt next x z) (hxy : Leads next x y) : EndsAt next y z := by
  induction hxy with
  | refl => exact h
  | tail _ hyz ih =>
    cases ih with
    | stop hnone =>
      rw [hnone] at hyz
      cases hyz
    | step hsome hrest =>
      obtain rfl := Option.some.inj (hsome.symm.trans hyz)
      exact hrest

theorem EndsAt.eq_of_stop (h : EndsAt next x z) (hnone : next x = none) : z = x := h.unique (.stop hnone)

variable [DecidableEq α]

theorem leads_update {o : Option α} : Leads (Function.update next s o) x s ↔ Leads next x s := by
  constructor
  · intro h
    induction h using Relation.ReflTransGen.head_induction_on with
    | refl => exact .refl
    | @head x y hxy _ ih =>
      by_cases hxs : x = s
      · exact hxs ▸ .refl
      · rw [Function.update_of_ne hxs] at hxy
        exact .head hxy ih
  · intro h
    induction h using Relation.ReflTransGen.head_induction_on with
    | refl => exact .refl
    | @head x y hxy _ ih =>
      by_cases hxs : x = s
      · exact hxs ▸ .refl
      · exact .head (by rwa [Function.update_of_ne hxs]) ih

theorem Ends.update_of_not_leads (h : Ends next x) (hs : ¬Leads next x s) {o : Option α} :
    Ends (Function.update next s o) x := by
  induction h with
  | @stop x hnone =>
    have hxs : x ≠ s := by
      rintro rfl
      exact hs .refl
    exact .stop (by rw [Function.update_of_ne hxs, hnone])
  | @step x y hxy _ ih =>
    have hxs : x ≠ s := by
      rintro rfl
      exact hs .refl
    exact .step (by rw [Function.update_of_ne hxs, hxy]) (ih fun hys => hs (.head hxy hys))

theorem EndsAt.of_update {o : Option α} (hs : ¬Leads next x s) (h : EndsAt (Function.update next s o) x z) :
    EndsAt next x z := by
  induction h with
  | @stop x hnone =>
    have hxs : x ≠ s := by
      rintro rfl
      exact hs .refl
    exact .stop (by rwa [Function.update_of_ne hxs] at hnone)
  | @step x y z hxy _ ih =>
    have hxs : x ≠ s := by
      rintro rfl
      exact hs .refl
    rw [Function.update_of_ne hxs] at hxy
    exact .step hxy (ih fun hys => hs (.head hxy hys))

theorem Ends.update (h : ∀ x, Ends next x) (hs : ¬Leads next d s) (x : α) : Ends (Function.update next s (some d)) x := by
  have hd : Ends (Function.update next s (some d)) d := (h d).update_of_not_leads hs
  have hsource : Ends (Function.update next s (some d)) s := .step (Function.update_self ..) hd
  induction h x with
  | @stop x hnone =>
    by_cases hxs : x = s
    · exact hxs ▸ hsource
    · exact .stop (by rw [Function.update_of_ne hxs, hnone])
  | @step x y hxy _ ih =>
    by_cases hxs : x = s
    · exact hxs ▸ hsource
    · exact .step (by rw [Function.update_of_ne hxs, hxy]) ih

theorem Ends.cut (h : ∀ x, Ends next x) (s x : α) : Ends (Function.update next s none) x := by
  induction h x with
  | @stop x hnone =>
    refine .stop ?_
    by_cases hxs : x = s
    · rw [hxs, Function.update_self]
    · rw [Function.update_of_ne hxs, hnone]
  | @step x y hxy _ ih =>
    by_cases hxs : x = s
    · exact .stop (by rw [hxs, Function.update_self])
    · exact .step (by rw [Function.update_of_ne hxs, hxy]) ih

end LoopLab.Lib
