import LoopLab.Lib.Table
import LoopLab.Lib.Parents

/-!
# Following a finite map until it stops or repeats

The end of a chain is the point without a next one, or the first point met twice.
-/

set_option autoImplicit false

namespace LoopLab.Lib

universe u
variable {α : Type u}

theorem OnCycle.inj {up : α → Option α} {x y z : α} (hx : OnCycle up x) (hy : OnCycle up y)
    (hxz : up x = some z) (hyz : up y = some z) : x = y := by
  have turns {w : α} {n : Nat} (h : anc up n w = some w) (k : Nat) : anc up (k * n) w = some w := by
    induction k with
    | zero =>
      rw [Nat.zero_mul]
      rfl
    | succ k ih => rw [Nat.succ_mul, anc_add_of ih, h]
  obtain ⟨m, hm, hxm⟩ := hx
  obtain ⟨n, hn, hyn⟩ := hy
  have hxmn := turns hxm n
  have hymn := turns hyn m
  rw [Nat.mul_comm] at hymn
  obtain ⟨k, hk⟩ := Nat.exists_eq_succ_of_ne_zero (Nat.mul_ne_zero (by omega : n ≠ 0) (by omega : m ≠ 0))
  rw [hk, Nat.succ_eq_add_one, anc_succ_of hxz] at hxmn
  rw [hk, Nat.succ_eq_add_one, anc_succ_of hyz] at hymn
  rw [hxmn] at hymn
  exact Option.some.inj hymn

/-- The walk itself, which stops at a point without a next one or already seen. -/
inductive Follows (next : α → Option α) : List α → α → α → Prop
  | stop {seen : List α} {x : α} : next x = none ∨ x ∈ seen → Follows next seen x x
  | step {seen : List α} {x y z : α} : next x = some y → x ∉ seen → Follows next (x :: seen) y z →
      Follows next seen x z

structure Trail (next : α → Option α) (seen : List α) (x : α) : Prop where
  chain : (x :: seen).IsChain fun b a => next a = some b
  distinct : seen.Nodup

variable {next : α → Option α} {keys seen : List α} {x y z : α} {fuel : Nat}

theorem Follows.unique (h : Follows next seen x y) (h' : Follows next seen x z) : y = z := by
  induction h generalizing z with
  | stop hend =>
    cases h' with
    | stop => rfl
    | step hxy hout _ =>
      rcases hend with hnone | hin
      · rw [hnone] at hxy
        cases hxy
      · exact absurd hin hout
  | step hxy hout _ ih =>
    cases h' with
    | stop hend =>
      rcases hend with hnone | hin
      · rw [hnone] at hxy
        cases hxy
      · exact absurd hin hout
    | step hxz _ hrest =>
      rw [hxy] at hxz
      cases hxz
      exact ih hrest

theorem Trail.leads (h : Trail next seen x) (hy : y ∈ seen) : ∃ n, 0 < n ∧ anc next n y = some x := by
  obtain ⟨hchain, hdistinct⟩ := h
  induction seen generalizing x with
  | nil => cases hy
  | cons z seen ih =>
    obtain ⟨hz, hrest⟩ := List.isChain_cons_cons.mp hchain
    rcases List.mem_cons.mp hy with rfl | hy
    · exact ⟨1, Nat.one_pos, by rw [anc_one, hz]⟩
    · obtain ⟨n, hn, hanc⟩ := ih hy hrest (List.nodup_cons.mp hdistinct).2
      exact ⟨n + 1, Nat.succ_pos n, by rw [anc_add_of hanc, anc_one, hz]⟩

theorem Trail.extend (h : Trail next seen x) (hout : x ∉ seen) (hxy : next x = some y) :
    Trail next (x :: seen) y :=
  ⟨List.isChain_cons_cons.mpr ⟨hxy, h.chain⟩, List.nodup_cons.mpr ⟨hout, h.distinct⟩⟩

theorem Trail.nil (x : α) : Trail next [] x := ⟨List.isChain_singleton x, .nil⟩

theorem Trail.repeats (h : Trail next (seen ++ [y]) x) (hx : OnCycle next x)
    (hcycle : ∀ z ∈ seen ++ [y], OnCycle next z) (hin : x ∈ seen ++ [y]) : x = y := by
  by_contra hne
  have hseen : x ∈ seen := by
    rcases List.mem_append.mp hin with hin | hin
    · exact hin
    · exact absurd (List.mem_singleton.mp hin) hne
  obtain ⟨front, back, rfl⟩ := List.append_of_mem hseen
  obtain ⟨hchain, hdistinct⟩ := h
  -- the point before `x` on the trail and the newest one both lead to `x`
  rw [List.append_assoc, List.cons_append] at hchain hdistinct hcycle
  obtain ⟨before, rest, hbefore⟩ : ∃ z zs, back ++ [y] = z :: zs := by
    cases back with
    | nil => exact ⟨y, [], rfl⟩
    | cons z zs => exact ⟨z, zs ++ [y], rfl⟩
  rw [hbefore] at hchain hdistinct hcycle
  cases front with
  | nil =>
    -- `x` is its own parent, and so is the point before it
    obtain ⟨hself, hchain⟩ := List.isChain_cons_cons.mp hchain
    obtain ⟨hlead, -⟩ := List.isChain_cons_cons.mp hchain
    have hz := (hcycle before (by simp)).inj hx hlead hself
    rw [hz] at hdistinct
    simp at hdistinct
  | cons w front =>
    obtain ⟨hnew, hchain⟩ := List.isChain_cons_cons.mp hchain
    have htail : (x :: before :: rest).IsChain fun b a => next a = some b :=
      (show ((w :: front) ++ x :: before :: rest).IsChain _ from hchain).right_of_append
    obtain ⟨hlead, -⟩ := List.isChain_cons_cons.mp htail
    have hz := (hcycle before (by simp)).inj (hcycle w (by simp)) hlead hnew
    rw [hz] at hdistinct
    simp at hdistinct

theorem Follows.holds {P : α → Prop} (hnext : ∀ x y, next x = some y → P y) (h : Follows next seen x y)
    (hx : P x) : P y := by
  induction h with
  | stop _ => exact hx
  | step hxy _ _ ih => exact ih (hnext _ _ hxy)

theorem Follows.ends (h : Follows next seen x y) (htrail : Trail next seen x) :
    next y = none ∨ OnCycle next y := by
  induction h with
  | stop hend =>
    rcases hend with hnone | hin
    · exact .inl hnone
    · exact .inr (htrail.leads hin)
  | step hxy hout _ ih => exact ih (htrail.extend hout hxy)

variable [DecidableEq α]

def chaseLoop (next : α → Option α) : Nat → List α → α → α
  | 0, _, x => x
  | fuel + 1, seen, x =>
    match next x with
    | some y => if x ∈ seen then x else chaseLoop next fuel (x :: seen) y
    | none => x

def chase (edges : Dict α α) (x : α) : α := chaseLoop edges.get edges.rows.length [] x

section Fuel
variable (hkeys : ∀ x y, next x = some y → x ∈ keys)
include hkeys

omit [DecidableEq α] in
theorem Trail.mem_keys (h : Trail next seen x) (hy : y ∈ seen) : y ∈ keys := by
  obtain ⟨n, hn, hanc⟩ := h.leads hy
  obtain ⟨k, rfl⟩ := Nat.exists_eq_succ_of_ne_zero (Nat.pos_iff_ne_zero.mp hn)
  cases hget : next y with
  | none =>
    rw [Nat.succ_eq_add_one, anc_succ_none hget] at hanc
    cases hanc
  | some z => exact hkeys y z hget

theorem Trail.ended (h : Trail next seen x) (hlen : keys.length ≤ seen.length) :
    next x = none ∨ x ∈ seen := by
  by_contra hnot
  obtain ⟨hsome, hout⟩ := not_or.mp hnot
  obtain ⟨y, hxy⟩ := Option.ne_none_iff_exists'.mp hsome
  have hlonger := h.extend hout hxy
  have hsub : (x :: seen) ⊆ keys := fun z hz => hlonger.mem_keys hkeys hz
  have hle := (hlonger.distinct.subperm hsub).length_le
  rw [List.length_cons] at hle
  omega

theorem follows_chaseLoop (h : Trail next seen x) (hfuel : keys.length ≤ seen.length + fuel) :
    Follows next seen x (chaseLoop next fuel seen x) := by
  induction fuel generalizing seen x with
  | zero => exact .stop (h.ended hkeys (by omega))
  | succ fuel ih =>
    unfold chaseLoop
    cases hxy : next x with
    | none => exact .stop (.inl hxy)
    | some y =>
      dsimp only
      split
      · rename_i hin
        exact .stop (.inr hin)
      · rename_i hout
        apply Follows.step hxy hout
        apply ih (h.extend hout hxy)
        rw [List.length_cons]
        omega

theorem chaseLoop_cycle (h : Trail next (seen ++ [y]) x) (hx : OnCycle next x)
    (hcycle : ∀ z ∈ seen ++ [y], OnCycle next z) (hfuel : keys.length ≤ (seen ++ [y]).length + fuel) :
    chaseLoop next fuel (seen ++ [y]) x = y := by
  induction fuel generalizing seen x with
  | zero =>
    obtain ⟨z, hz, -⟩ := hx.parent
    rcases h.ended hkeys (by omega) with hnone | hin
    · rw [hz] at hnone
      cases hnone
    · exact h.repeats hx hcycle hin
  | succ fuel ih =>
    obtain ⟨z, hz, hcz⟩ := hx.parent
    unfold chaseLoop
    rw [hz]
    dsimp only
    split
    · rename_i hin
      exact h.repeats hx hcycle hin
    · rename_i hout
      have htrail : Trail next ((x :: seen) ++ [y]) z := h.extend hout hz
      rw [← List.cons_append]
      apply ih htrail hcz
      · intro w hw
        rcases List.mem_cons.mp hw with rfl | hw
        · exact hx
        · exact hcycle w hw
      · rw [List.cons_append, List.length_cons]
        omega

theorem chaseLoop_of_cycle (h : OnCycle next x) (hfuel : keys.length ≤ fuel) :
    chaseLoop next fuel [] x = x := by
  obtain ⟨y, hxy, hy⟩ := h.parent
  cases fuel with
  | zero => rfl
  | succ n =>
    unfold chaseLoop
    rw [hxy]
    have htrail : Trail next ([] ++ [x]) y := (Trail.nil x).extend List.not_mem_nil hxy
    rw [← List.nil_append [x]]
    apply chaseLoop_cycle hkeys htrail hy
    · intro z hz
      rwa [List.mem_singleton.mp hz]
    · rw [List.nil_append, List.length_singleton]
      omega

end Fuel

theorem chaseLoop_of_none (h : next x = none) : chaseLoop next fuel [] x = x := by
  cases fuel with
  | zero => rfl
  | succ n =>
    unfold chaseLoop
    rw [h]

theorem chaseLoop_idem (hkeys : ∀ x y, next x = some y → x ∈ keys) (hfuel : keys.length ≤ fuel) (x : α) :
    chaseLoop next fuel [] (chaseLoop next fuel [] x) = chaseLoop next fuel [] x := by
  have hwalk := follows_chaseLoop hkeys (Trail.nil x) (by simpa using hfuel)
  rcases hwalk.ends (Trail.nil x) with h | h
  · exact chaseLoop_of_none h
  · exact chaseLoop_of_cycle hkeys h hfuel

/-! ## Dictionaries -/

variable {edges edges' : Dict α α}

theorem Dict.mem_keys_of_get (x y : α) (h : edges.get x = some y) : x ∈ edges.rows.map Prod.fst := by
  rw [Dict.mem_keys, h]
  exact Option.some_ne_none y

theorem follows_chase (edges : Dict α α) (x : α) : Follows edges.get [] x (chase edges x) :=
  follows_chaseLoop Dict.mem_keys_of_get (Trail.nil x) (by simp)

theorem chase_idem (edges : Dict α α) (x : α) : chase edges (chase edges x) = chase edges x :=
  chaseLoop_idem Dict.mem_keys_of_get (by simp) x

theorem chase_of_none (h : edges.get x = none) : chase edges x = x := chaseLoop_of_none h

theorem chase_congr (h : edges.get = edges'.get) (x : α) : chase edges x = chase edges' x := by
  have hwalk := follows_chase edges x
  rw [h] at hwalk
  exact hwalk.unique (follows_chase edges' x)

end LoopLab.Lib
