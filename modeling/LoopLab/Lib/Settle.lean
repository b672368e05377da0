import LoopLab.Lib.Table
import Mathlib.Data.List.Perm.Basic
import Mathlib.Data.List.Dedup
import Mathlib.Data.List.Perm.Subperm
import Mathlib.Order.Defs.LinearOrder
import Mathlib.Data.List.Induction
import Mathlib.Data.List.Basic
import Mathlib.Order.Lattice

/-!
# Tables under conflicting writes

What a table holds where rows conflict: the settled one, the greatest one, the one behind the latest fence.
-/

set_option autoImplicit false

/-!
## Tables whose conflicting writes are settled

A second write under a key does not overwrite the first: an operation picks between the two.
-/

namespace LoopLab.Lib

universe u v
variable {κ : Type u} {α : Type v} [DecidableEq κ]

def settle (pick : α → α → α) : Option α → α → α
  | none, a => a
  | some b, a => pick b a

namespace Dict

def offer (pick : α → α → α) (d : Dict κ α) (e : κ × α) : Dict κ α :=
  d.set e.1 (settle pick (d.get e.1) e.2)

def offers (pick : α → α → α) (d : Dict κ α) (es : List (κ × α)) : Dict κ α :=
  es.foldl (offer pick) d

variable {pick : α → α → α}

theorem get_offer (d : Dict κ α) (e : κ × α) (k : κ) :
    (offer pick d e).get k = if k = e.1 then some (settle pick (d.get e.1) e.2) else d.get k :=
  get_set d e.1 k _

theorem get_offer_congr {d d' : Dict κ α} (h : ∀ k, d.get k = d'.get k) (e : κ × α) (k : κ) :
    (offer pick d e).get k = (offer pick d' e).get k := by
  rw [get_offer, get_offer, h, h]

theorem get_offers_congr {d d' : Dict κ α} (h : ∀ k, d.get k = d'.get k) (es : List (κ × α)) (k : κ) :
    (offers pick d es).get k = (offers pick d' es).get k := by
  induction es generalizing d d' with
  | nil => exact h k
  | cons e es ih => exact ih (get_offer_congr h e)

theorem get_offer_comm (hcomm : ∀ a b, pick a b = pick b a)
    (hassoc : ∀ a b c, pick (pick a b) c = pick a (pick b c)) (d : Dict κ α) (e f : κ × α) (k : κ) :
    (offer pick (offer pick d e) f).get k = (offer pick (offer pick d f) e).get k := by
  rw [get_offer, get_offer, get_offer, get_offer, get_offer, get_offer]
  by_cases hef : e.1 = f.1
  · rw [hef, if_pos rfl, if_pos rfl]
    have hswap : settle pick (some (settle pick (d.get f.1) e.2)) f.2 =
        settle pick (some (settle pick (d.get f.1) f.2)) e.2 := by
      cases d.get f.1 with
      | none => exact hcomm e.2 f.2
      | some a =>
        show pick (pick a e.2) f.2 = pick (pick a f.2) e.2
        rw [hassoc, hcomm e.2, hassoc]
    rw [hswap]
    split <;> rfl
  · rw [if_neg (Ne.symm hef), if_neg hef]
    by_cases hke : k = e.1
    · rw [if_neg (fun hkf => hef (hke.symm.trans hkf)), if_pos hke, if_pos hke]
    · rw [if_neg hke, if_neg hke]

theorem get_offers_perm (hcomm : ∀ a b, pick a b = pick b a)
    (hassoc : ∀ a b c, pick (pick a b) c = pick a (pick b c)) {es es' : List (κ × α)}
    (h : es.Perm es') (d : Dict κ α) (k : κ) : (offers pick d es).get k = (offers pick d es').get k := by
  induction h generalizing d with
  | nil => rfl
  | cons e _ ih => exact ih (offer pick d e)
  | swap e f es => exact get_offers_congr (get_offer_comm hcomm hassoc d f e) es k
  | trans _ _ ih ih' => exact (ih d).trans (ih' d)

end Dict

end LoopLab.Lib

/-!
## Tables that keep the greatest row of every key

Rows come one by one, and of those under one key the greatest stays, the later one among equals.
-/

namespace LoopLab.Lib

universe u v w
variable {κ : Type u} {α : Type v} {ρ : Type w} {key : α → κ} [DecidableEq κ]

theorem dedup_le_append (xs ys : List κ) : xs.dedup.length ≤ (xs ++ ys).dedup.length := by
  apply List.Subperm.length_le
  apply List.subperm_of_subset (List.nodup_dedup xs)
  intro k hk
  rw [List.mem_dedup] at hk ⊢
  exact List.mem_append_left ys hk

theorem dedup_lt_append {xs : List κ} {k : κ} (h : k ∉ xs) :
    xs.dedup.length < (xs ++ [k]).dedup.length := by
  have hsub : (k :: xs.dedup).Subperm (xs ++ [k]).dedup := by
    apply List.subperm_of_subset
    · exact List.nodup_cons.mpr ⟨fun hm => h (List.mem_dedup.mp hm), List.nodup_dedup xs⟩
    · intro j hj
      rw [List.mem_dedup, List.mem_append]
      rcases List.mem_cons.mp hj with rfl | hj
      · exact .inr List.mem_cons_self
      · exact .inl (List.mem_dedup.mp hj)
  exact hsub.length_le

variable [LinearOrder ρ] {rank : α → ρ} {t : Table key} {seen : List α}

structure Greatest (rank : α → ρ) (t : Table key) (seen : List α) : Prop where
  mem : ∀ a ∈ t.rows, a ∈ seen
  found : ∀ r ∈ seen, ∃ a, t.get (key r) = some a ∧ rank r ≤ rank a

namespace Greatest

theorem empty : Greatest rank (Table.empty : Table key) [] where
  mem a ha := by cases ha
  found r hr := by cases hr

theorem length_le (h : Greatest rank t seen) : t.rows.length ≤ (seen.map key).dedup.length := by
  rw [← List.length_map key]
  apply List.Subperm.length_le
  apply List.subperm_of_subset t.nodup
  intro k hk
  obtain ⟨a, ha, rfl⟩ := List.mem_map.mp hk
  exact List.mem_dedup.mpr (List.mem_map_of_mem (h.mem a ha))

theorem fresh (h : Greatest rank t seen) {r : α} (hr : t.get (key r) = none) : key r ∉ seen.map key := by
  intro hmem
  obtain ⟨b, hb, hkey⟩ := List.mem_map.mp hmem
  obtain ⟨a, ha, -⟩ := h.found b hb
  rw [hkey, hr] at ha
  cases ha

theorem put (h : Greatest rank t seen) {r : α} (hr : ∀ a, t.get (key r) = some a → rank a ≤ rank r) :
    Greatest rank (t.put r) (seen ++ [r]) := by
  constructor
  · intro a ha
    rcases Table.mem_put.mp ha with rfl | ⟨ha, -⟩
    · exact List.mem_append_right seen List.mem_cons_self
    · exact List.mem_append_left [r] (h.mem a ha)
  · intro b hb
    rw [Table.get_put]
    by_cases hkey : key b = key r
    · rw [if_pos hkey]
      refine ⟨r, rfl, ?_⟩
      rcases List.mem_append.mp hb with hb | hb
      · obtain ⟨a, ha, hle⟩ := h.found b hb
        rw [hkey] at ha
        exact le_trans hle (hr a ha)
      · rw [List.mem_singleton.mp hb]
    · rw [if_neg hkey]
      rcases List.mem_append.mp hb with hb | hb
      · exact h.found b hb
      · exact absurd (congrArg key (List.mem_singleton.mp hb)) hkey

theorem skip (h : Greatest rank t seen) {r a : α} (ha : t.get (key r) = some a) (hle : rank r ≤ rank a) :
    Greatest rank t (seen ++ [r]) := by
  constructor
  · intro b hb
    exact List.mem_append_left [r] (h.mem b hb)
  · intro b hb
    rcases List.mem_append.mp hb with hb | hb
    · exact h.found b hb
    · rw [List.mem_singleton.mp hb]
      exact ⟨a, ha, hle⟩

theorem of_get (h : Greatest rank t seen) {k : κ} {a : α} (ha : t.get k = some a) :
    a ∈ seen ∧ ∀ r ∈ seen, key r = k → rank r ≤ rank a := by
  refine ⟨h.mem a (Table.mem_of_get ha), ?_⟩
  intro r hr hkey
  obtain ⟨b, hb, hle⟩ := h.found r hr
  rw [hkey, ha] at hb
  cases hb
  exact hle

theorem get_congr {t' : Table key} {seen' : List α} (h : Greatest rank t seen)
    (h' : Greatest rank t' seen') (hseen : ∀ a, a ∈ seen ↔ a ∈ seen')
    (hone : ∀ a ∈ seen, ∀ b ∈ seen, key a = key b → rank a = rank b → a = b) (k : κ) :
    t.get k = t'.get k := by
  cases ha : t.get k with
  | none =>
    cases hb : t'.get k with
    | none => rfl
    | some b =>
      obtain ⟨hmem, -⟩ := h'.of_get hb
      obtain ⟨a, hget, -⟩ := h.found b ((hseen b).mpr hmem)
      rw [Table.key_of_get hb, ha] at hget
      cases hget
  | some a =>
    obtain ⟨hmem, hmost⟩ := h.of_get ha
    have hkey := Table.key_of_get ha
    obtain ⟨b, hb, hle⟩ := h'.found a ((hseen a).mp hmem)
    rw [hkey] at hb
    have hmem' := (hseen b).mpr (h'.of_get hb).1
    have hkey' := Table.key_of_get hb
    rw [hb, hone a hmem b hmem' (hkey.trans hkey'.symm) (le_antisymm hle (hmost b hmem' hkey'))]

end Greatest

end LoopLab.Lib

/-!
## Values behind a version fence

The values of a table change only by taking a later version.
-/

namespace LoopLab.Lib.Fence

universe u v w x
variable {κ : Type u} {α : Type v} {ε : Type w} [DecidableEq κ] {version : α → Int}
variable {s t r : Dict κ α} {k : κ} {a b : α}

def Grown (version : α → Int) (s t : Dict κ α) : Prop :=
  ∀ k a, s.get k = some a → ∃ b, t.get k = some b ∧ (b = a ∨ version a < version b)

theorem Grown.refl (s : Dict κ α) : Grown version s s := fun _ a h => ⟨a, h, .inl rfl⟩

theorem Grown.trans (hst : Grown version s t) (htr : Grown version t r) : Grown version s r := by
  intro k a ha
  obtain ⟨b, hb, hab⟩ := hst k a ha
  obtain ⟨c, hc, hbc⟩ := htr k b hb
  refine ⟨c, hc, ?_⟩
  rcases hab with rfl | hab
  · exact hbc
  · rcases hbc with rfl | hbc
    · exact .inr hab
    · exact .inr (Int.lt_trans hab hbc)

theorem Grown.set (h : ∀ a, s.get k = some a → version a < version b) : Grown version s (s.set k b) := by
  intro j a ha
  rw [Dict.get_set]
  by_cases hj : j = k
  · subst hj
    exact ⟨b, if_pos rfl, .inr (h a ha)⟩
  · exact ⟨a, (if_neg hj).trans ha, .inl rfl⟩

theorem Grown.eq_of_version (h : Grown version s t) (ha : s.get k = some a) (hb : t.get k = some b)
    (hversion : version b = version a) : b = a := by
  obtain ⟨c, hc, hca⟩ := h k a ha
  rw [hb] at hc
  obtain rfl := Option.some.inj hc
  rcases hca with rfl | hlt
  · rfl
  · omega

theorem Grown.foldl {σ : Type x} {view : σ → Dict κ α} {P : σ → Prop} {f : σ → ε → σ} (hP : ∀ s e, P s → P (f s e))
    (hf : ∀ s e, P s → Grown version (view s) (view (f s e))) (es : List ε) (s : σ) (hs : P s) :
    Grown version (view s) (view (es.foldl f s)) := by
  induction es generalizing s with
  | nil => exact .refl (view s)
  | cons e es ih => exact (hf s e hs).trans (ih (f s e) (hP s e hs))

end LoopLab.Lib.Fence

/-!
## Records written slot by slot

A record is a value for each of its slots, and an update overwrites one slot.
-/

namespace LoopLab.Lib

universe u v w
variable {κ : Type u} {υ : Type v} {σ : Type w} [DecidableEq κ]

/-- `view k s` is the update that would write what slot `k` of `s` holds. -/
structure Slots (slot : υ → κ) (act : σ → υ → σ) (view : κ → σ → υ) : Prop where
  write : ∀ s u, view (slot u) (act s u) = u
  other : ∀ s u k, k ≠ slot u → view k (act s u) = view k s
  ext : ∀ s t, (∀ k, view k s = view k t) → s = t

namespace Slots
variable {slot : υ → κ} {act : σ → υ → σ} {view : κ → σ → υ}

theorem view_run (h : Slots slot act view) (us : List υ) (s : σ) (k : κ) :
    view k (us.foldl act s) = ((us.filter fun u => slot u = k).getLast?).getD (view k s) := by
  induction us using List.reverseRecOn with
  | nil => rfl
  | append_singleton us u ih =>
    rw [List.foldl_append, List.foldl_cons, List.foldl_nil, List.filter_append]
    by_cases hk : slot u = k
    · subst hk
      rw [h.write, List.filter_cons_of_pos (by simp), List.filter_nil, List.getLast?_concat]
      rfl
    · rw [h.other _ _ _ (Ne.symm hk), ih, List.filter_cons_of_neg (by simpa using hk), List.filter_nil,
        List.append_nil]

theorem run_eq_iff (h : Slots slot act view) (us vs : List υ) (s : σ) :
    us.foldl act s = vs.foldl act s ↔ ∀ k, ((us.filter fun u => slot u = k).getLast?).getD (view k s) =
      ((vs.filter fun u => slot u = k).getLast?).getD (view k s) := by
  constructor
  · intro heq k
    rw [← h.view_run us s k, ← h.view_run vs s k, heq]
  · intro heq
    apply h.ext
    intro k
    rw [h.view_run, h.view_run, heq k]

end Slots

end LoopLab.Lib
