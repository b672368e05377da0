import Mathlib.Data.List.Nodup
import Mathlib.Data.List.Count

/-!
# Insertion-ordered tables keyed by a part of the row

A `Table key` is a list of rows whose keys are pairwise distinct, so that a lookup has at most one answer by
construction.
-/

set_option autoImplicit false

namespace LoopLab.Lib

universe u v w
variable {κ : Type u} {α : Type v} {β : Type w} {key : α → κ}

structure Table (key : α → κ) where
  rows : List α
  nodup : (rows.map key).Nodup

namespace Table

@[ext] theorem ext {s t : Table key} (h : s.rows = t.rows) : s = t := by
  cases s; cases t; cases h; rfl

def empty : Table key := ⟨[], .nil⟩

@[simp] theorem rows_empty : (empty : Table key).rows = [] := rfl

instance : Inhabited (Table key) := ⟨empty⟩

instance [DecidableEq α] : DecidableEq (Table key) := fun s t =>
  decidable_of_iff (s.rows = t.rows) ⟨ext, congrArg rows⟩

def mapRows (t : Table key) (f : α → α) (hf : ∀ a, key (f a) = key a) : Table key :=
  ⟨t.rows.map f, by
    have : key ∘ f = key := funext hf
    rw [List.map_map, this]
    exact t.nodup⟩

def image (t : Table key) (key' : β → κ) (f : α → β) (hf : ∀ a, key' (f a) = key a) :
    Table key' :=
  ⟨t.rows.map f, by
    have : key' ∘ f = key := funext hf
    rw [List.map_map, this]
    exact t.nodup⟩

def collect (t : Table key) (key' : β → κ) (f : α → Option β)
    (hf : ∀ a b, f a = some b → key' b = key a) : Table key' :=
  ⟨t.rows.filterMap f, by
    have hsub (rows : List α) : ((rows.filterMap f).map key').Sublist (rows.map key) := by
      induction rows with
      | nil => exact List.Sublist.refl _
      | cons a rows ih =>
        cases h : f a with
        | none =>
          rw [List.filterMap_cons_none h]
          exact ih.cons _
        | some b =>
          rw [List.filterMap_cons_some h, List.map_cons, List.map_cons, hf a b h]
          exact ih.cons_cons _
    exact t.nodup.sublist (hsub t.rows)⟩

def ofKeys (ks : List κ) (hks : ks.Nodup) : Table (id : κ → κ) := ⟨ks, by rwa [List.map_id]⟩

@[simp] theorem rows_mapRows (t : Table key) (f : α → α) (hf) :
    (t.mapRows f hf).rows = t.rows.map f := rfl

variable [DecidableEq κ]

/-- The row stored under `k`, if any. -/
def get (t : Table key) (k : κ) : Option α := t.rows.find? (key · = k)

def has (t : Table key) (k : κ) : Bool := (t.get k).isSome

/-- Overwrite the row with the key of `a` in place, or append `a`. -/
def putRow (key : α → κ) (a : α) : List α → List α
  | [] => [a]
  | b :: bs => if key b = key a then a :: bs else b :: putRow key a bs

theorem mem_keys_putRow {a : α} {rows : List α} {k : κ} :
    k ∈ (putRow key a rows).map key ↔ k ∈ rows.map key ∨ k = key a := by
  induction rows with
  | nil => simp [putRow]
  | cons b bs ih =>
    unfold putRow
    split
    · rename_i hb
      simp only [List.map_cons, List.mem_cons, hb]
      tauto
    · simp only [List.map_cons, List.mem_cons, ih]
      tauto

theorem nodup_putRow {a : α} {rows : List α} (h : (rows.map key).Nodup) :
    ((putRow key a rows).map key).Nodup := by
  induction rows with
  | nil => simp [putRow]
  | cons b bs ih =>
    obtain ⟨hb, hbs⟩ := List.nodup_cons.mp h
    unfold putRow
    split
    · rename_i hk
      exact List.nodup_cons.mpr ⟨hk ▸ hb, hbs⟩
    · rename_i hk
      refine List.nodup_cons.mpr ⟨fun hm => ?_, ih hbs⟩
      rcases mem_keys_putRow.mp hm with hm | hm
      · exact hb hm
      · exact hk hm

def put (t : Table key) (a : α) : Table key := ⟨putRow key a t.rows, nodup_putRow t.nodup⟩

def erase (t : Table key) (k : κ) : Table key :=
  ⟨t.rows.filter (key · ≠ k), t.nodup.sublist (List.filter_sublist.map key)⟩

def keep (t : Table key) (p : α → Bool) : Table key :=
  ⟨t.rows.filter p, t.nodup.sublist (List.filter_sublist.map key)⟩

@[simp] theorem get_empty (k : κ) : (empty : Table key).get k = none := rfl
@[simp] theorem rows_put (t : Table key) (a : α) : (t.put a).rows = putRow key a t.rows := rfl

theorem key_of_get {t : Table key} {k : κ} {a : α} (h : t.get k = some a) : key a = k := by
  simpa using List.find?_some h

theorem mem_of_get {t : Table key} {k : κ} {a : α} (h : t.get k = some a) : a ∈ t.rows :=
  List.mem_of_find?_eq_some h

theorem get_of_mem {t : Table key} {a : α} (h : a ∈ t.rows) : t.get (key a) = some a := by
  obtain ⟨rows, nodup⟩ := t
  simp only [get] at h ⊢
  induction rows with
  | nil => cases h
  | cons b bs ih =>
    obtain ⟨hb, hbs⟩ := List.nodup_cons.mp nodup
    rcases List.mem_cons.mp h with rfl | hm
    · simp
    · have hne : key b ≠ key a := fun he => hb (he ▸ List.mem_map_of_mem hm)
      simpa [hne] using ih hbs hm

theorem mem_iff_get {t : Table key} {a : α} : a ∈ t.rows ↔ t.get (key a) = some a :=
  ⟨get_of_mem, mem_of_get⟩

theorem get_perm {s t : Table key} (h : s.rows.Perm t.rows) (k : κ) : s.get k = t.get k := by
  cases hs : s.get k with
  | some a =>
    have hkey := key_of_get hs
    subst hkey
    exact (get_of_mem (h.mem_iff.mp (mem_of_get hs))).symm
  | none =>
    cases ht : t.get k with
    | none => rfl
    | some a =>
      have hkey := key_of_get ht
      subst hkey
      rw [get_of_mem (h.mem_iff.mpr (mem_of_get ht))] at hs
      cases hs

theorem get_eq_none {t : Table key} {k : κ} : t.get k = none ↔ ∀ a ∈ t.rows, key a ≠ k := by
  simp [get]

@[simp] theorem get_put_self (t : Table key) (a : α) : (t.put a).get (key a) = some a := by
  obtain ⟨rows, nodup⟩ := t
  simp only [get, put]
  induction rows with
  | nil => simp [putRow]
  | cons b bs ih =>
    unfold putRow
    split
    · simp
    · rename_i hb
      simpa [hb] using ih (List.nodup_cons.mp nodup).2

theorem get_put_ne {t : Table key} {a : α} {k : κ} (h : k ≠ key a) :
    (t.put a).get k = t.get k := by
  obtain ⟨rows, nodup⟩ := t
  simp only [get, put]
  induction rows with
  | nil => simp [putRow, Ne.symm h]
  | cons b bs ih =>
    unfold putRow
    split
    · rename_i hb
      simp [Ne.symm h, hb]
    · have := ih (List.nodup_cons.mp nodup).2
      by_cases hk : key b = k <;> simp [hk, this]

theorem get_put (t : Table key) (a : α) (k : κ) :
    (t.put a).get k = if k = key a then some a else t.get k := by
  split
  · rename_i h; subst h; simp
  · rename_i h; exact get_put_ne h

theorem mem_put {t : Table key} {a b : α} : b ∈ (t.put a).rows ↔ b = a ∨ b ∈ t.rows ∧ key b ≠ key a := by
  rw [mem_iff_get, get_put, mem_iff_get]
  by_cases hkey : key b = key a
  · rw [if_pos hkey]
    constructor
    · intro h
      exact .inl (Option.some.inj h).symm
    · rintro (rfl | ⟨-, hne⟩)
      · rfl
      · exact absurd hkey hne
  · rw [if_neg hkey]
    constructor
    · intro h
      exact .inr ⟨h, hkey⟩
    · rintro (rfl | ⟨h, -⟩)
      · exact absurd rfl hkey
      · exact h

theorem get_erase (t : Table key) (k j : κ) :
    (t.erase k).get j = if j = k then none else t.get j := by
  simp only [get, erase, List.find?_filter]
  split
  · rename_i h; subst h; simp
  · rename_i h
    congr 1
    funext a
    by_cases ha : key a = j <;> simp [ha, h]

theorem keep_eq_self {t : Table key} {p : α → Bool} (h : ∀ a ∈ t.rows, p a = true) : t.keep p = t :=
  ext (List.filter_eq_self.mpr h)

theorem keep_keep (t : Table key) (p q : α → Bool) : (t.keep p).keep q = t.keep fun a => q a && p a :=
  ext List.filter_filter

theorem erase_eq_keep (t : Table key) (k : κ) : t.erase k = t.keep fun a => key a ≠ k := rfl

theorem mapRows_eq_self {t : Table key} {f : α → α} {hf} (h : ∀ a ∈ t.rows, f a = a) : t.mapRows f hf = t :=
  ext ((List.map_congr_left h).trans (List.map_id _))

theorem get_mapRows (t : Table key) (f : α → α) (hf) (k : κ) :
    (t.mapRows f hf).get k = (t.get k).map f := by
  simp only [get, mapRows, List.find?_map]
  congr 2
  funext a
  simp [hf]

theorem get_image (t : Table key) (key' : β → κ) (f : α → β) (hf : ∀ a, key' (f a) = key a)
    (k : κ) : (t.image key' f hf).get k = (t.get k).map f := by
  simp only [get, image, List.find?_map]
  congr 2
  funext a
  simp [hf]

theorem get_collect (t : Table key) (key' : β → κ) (f : α → Option β)
    (hf : ∀ a b, f a = some b → key' b = key a) (k : κ) :
    (t.collect key' f hf).get k = (t.get k).bind f := by
  cases h : t.get k with
  | none =>
    apply get_eq_none.mpr
    intro b hb hk
    obtain ⟨a, ha, hab⟩ := List.mem_filterMap.mp hb
    exact get_eq_none.mp h a ha ((hf a b hab).symm.trans hk)
  | some a =>
    have hkey := key_of_get h
    subst hkey
    cases hb : f a with
    | none =>
      show (t.collect key' f hf).get (key a) = f a
      rw [hb]
      apply get_eq_none.mpr
      intro b hmem hk
      obtain ⟨a', ha', hab⟩ := List.mem_filterMap.mp hmem
      have hsame := get_of_mem ha'
      rw [← hf a' b hab, hk, h] at hsame
      cases hsame
      rw [hb] at hab
      cases hab
    | some b =>
      have hmem : b ∈ (t.collect key' f hf).rows := List.mem_filterMap.mpr ⟨a, mem_of_get h, hb⟩
      show (t.collect key' f hf).get (key a) = f a
      rw [hb, ← hf a b hb]
      exact get_of_mem hmem

theorem get_ofKeys (ks : List κ) (hks : ks.Nodup) (k : κ) :
    (ofKeys ks hks).get k = if k ∈ ks then some k else none := by
  split
  · rename_i hk
    have hmem : k ∈ (ofKeys ks hks).rows := hk
    exact get_of_mem hmem
  · rename_i hk
    apply get_eq_none.mpr
    rintro a ha rfl
    exact hk ha

theorem image_put (t : Table key) (key' : β → κ) (a : α) (f : α → β)
    (hf : ∀ a, key' (f a) = key a) :
    (t.put a).image key' f hf = (t.image key' f hf).put (f a) := by
  apply ext
  simp only [image, put]
  induction t.rows with
  | nil => rfl
  | cons b bs ih =>
    simp only [putRow, List.map_cons, hf]
    split
    · simp
    · simp [ih]

theorem put_of_get {t : Table key} {a : α} (h : t.get (key a) = some a) : t.put a = t := by
  apply ext
  obtain ⟨rows, nodup⟩ := t
  simp only [get, put] at h ⊢
  induction rows with
  | nil => simp at h
  | cons b bs ih =>
    unfold putRow
    split
    · rename_i hb
      simp [hb] at h
      rw [h]
    · rename_i hb
      rw [List.find?_cons_of_neg (by simpa using hb)] at h
      rw [ih (List.nodup_cons.mp nodup).2 h]

theorem rows_put_of_none {t : Table key} {a : α} (h : t.get (key a) = none) :
    (t.put a).rows = t.rows ++ [a] := by
  obtain ⟨rows, nodup⟩ := t
  simp only [get_eq_none, put] at h ⊢
  induction rows with
  | nil => rfl
  | cons b bs ih =>
    unfold putRow
    rw [if_neg (h b (by simp)), ih (List.nodup_cons.mp nodup).2 fun a ha => h a (by simp [ha])]
    rfl

theorem rows_put_of_get {t : Table key} {a b : α} (h : t.get (key a) = some b) :
    (t.put a).rows = t.rows.map fun c => if key c = key a then a else c := by
  obtain ⟨rows, nodup⟩ := t
  simp only [get, put] at h ⊢
  induction rows with
  | nil => cases h
  | cons c cs ih =>
    obtain ⟨hfresh, hcs⟩ := List.nodup_cons.mp nodup
    rw [List.map_cons]
    unfold putRow
    split
    · rename_i hc
      congr 1
      symm
      rw [List.map_congr_left (g := id), List.map_id]
      intro d hd
      rw [if_neg, id_eq]
      intro heq
      rw [hc, ← heq] at hfresh
      exact hfresh (List.mem_map_of_mem hd)
    · rename_i hc
      rw [List.find?_cons_of_neg (by simpa using hc)] at h
      rw [ih hcs h]

theorem countP_put_of_none (p : α → Bool) {t : Table key} {a : α} (h : t.get (key a) = none) :
    (t.put a).rows.countP p = t.rows.countP p + if p a then 1 else 0 := by
  rw [rows_put_of_none h, List.countP_append]
  by_cases hp : p a <;> simp [hp]

theorem countP_put_of_get (p : α → Bool) {t : Table key} {a b : α}
    (h : t.get (key b) = some a) :
    (t.put b).rows.countP p + (if p a then 1 else 0) =
      t.rows.countP p + if p b then 1 else 0 := by
  obtain ⟨rows, nodup⟩ := t
  simp only [get, put] at h ⊢
  induction rows with
  | nil => simp at h
  | cons c cs ih =>
    unfold putRow
    split
    · rename_i hc
      simp [hc] at h
      subst h
      simp only [List.countP_cons]
      omega
    · rename_i hc
      rw [List.find?_cons_of_neg (by simpa using hc)] at h
      have := ih (List.nodup_cons.mp nodup).2 h
      simp only [List.countP_cons]
      omega

theorem countP_pos_of_get (p : α → Bool) {t : Table key} {k : κ} {a : α} (h : t.get k = some a)
    (hp : p a = true) : 0 < t.rows.countP p :=
  List.countP_pos_iff.mpr ⟨a, mem_of_get h, hp⟩

end Table

abbrev Dict (κ : Type u) (α : Type v) [DecidableEq κ] := Table (Prod.fst : κ × α → κ)

namespace Dict

variable [DecidableEq κ]

def get (d : Dict κ α) (k : κ) : Option α := (Table.get d k).map Prod.snd

def set (d : Dict κ α) (k : κ) (a : α) : Dict κ α := Table.put d (k, a)

@[simp] theorem get_empty (k : κ) : Dict.get (Table.empty : Dict κ α) k = none := rfl

theorem get_set (d : Dict κ α) (k j : κ) (a : α) :
    Dict.get (d.set k a) j = if j = k then some a else d.get j := by
  unfold get set
  rw [Table.get_put]
  split <;> rfl

theorem set_of_get {d : Dict κ α} {k : κ} {a : α} (h : d.get k = some a) : d.set k a = d := by
  obtain ⟨r, hr, rfl⟩ := Option.map_eq_some_iff.mp h
  have hkey := Table.key_of_get hr
  subst hkey
  exact Table.put_of_get hr

theorem countP_set_of_none (p : κ × α → Bool) {d : Dict κ α} {k : κ} {a : α} (h : d.get k = none) :
    (d.set k a).rows.countP p = d.rows.countP p + if p (k, a) then 1 else 0 :=
  Table.countP_put_of_none p (Option.map_eq_none_iff.mp h)

theorem countP_set_of_get (p : κ × α → Bool) {d : Dict κ α} {k : κ} {a b : α} (h : d.get k = some b)
    (hp : p (k, a) = p (k, b)) : (d.set k a).rows.countP p = d.rows.countP p := by
  obtain ⟨r, hr, rfl⟩ := Option.map_eq_some_iff.mp h
  have hkey := Table.key_of_get hr
  have hrow : (k, r.2) = r := by rw [← hkey]
  have hcount := Table.countP_put_of_get p (a := r) (b := (k, a)) hr
  rw [hp, hrow] at hcount
  exact Nat.add_right_cancel hcount

/-- `{**d, **e}` -/
def update (d e : Dict κ α) : Dict κ α := e.rows.foldl (fun d r => d.set r.1 r.2) d

theorem mem_keys {d : Dict κ α} {k : κ} : k ∈ d.rows.map Prod.fst ↔ d.get k ≠ none := by
  constructor
  · intro hk
    obtain ⟨r, hr, rfl⟩ := List.mem_map.mp hk
    unfold get
    rw [Table.get_of_mem hr]
    exact Option.some_ne_none _
  · intro hk
    obtain ⟨a, ha⟩ := Option.ne_none_iff_exists'.mp hk
    obtain ⟨r, hr, -⟩ := Option.map_eq_some_iff.mp ha
    rw [← Table.key_of_get hr]
    exact List.mem_map_of_mem (Table.mem_of_get hr)

theorem get_update (d e : Dict κ α) (k : κ) : (update d e).get k = (e.get k).or (d.get k) := by
  obtain ⟨rows, nodup⟩ := e
  unfold update
  dsimp only
  induction rows generalizing d with
  | nil => rfl
  | cons r rows ih =>
    obtain ⟨hr, hrows⟩ := List.nodup_cons.mp nodup
    rw [List.foldl_cons, ih _ hrows, get_set]
    unfold get Table.get
    rw [List.find?_cons]
    by_cases hk : k = r.1
    · subst hk
      have hnone : List.find? (fun x => decide (x.1 = r.1)) rows = none := by
        apply List.find?_eq_none.mpr
        intro x hx hxr
        exact hr (of_decide_eq_true hxr ▸ List.mem_map_of_mem hx)
      simp [hnone]
    · simp [Ne.symm hk, hk]

theorem isEmpty_congr {d e : Dict κ α} (h : d.get = e.get) : d.rows.isEmpty = e.rows.isEmpty := by
  have hkeys (d : Dict κ α) : d.rows.isEmpty = true ↔ ∀ k, d.get k = none := by
    rw [List.isEmpty_iff]
    constructor
    · intro hd k
      unfold get Table.get
      rw [hd]
      rfl
    · intro hd
      cases hrows : d.rows with
      | nil => rfl
      | cons r rows =>
        have hmem : r.1 ∈ d.rows.map Prod.fst := by simp [hrows]
        exact absurd (hd r.1) (mem_keys.mp hmem)
  rw [Bool.eq_iff_iff, hkeys, hkeys, h]

theorem get_erase (d : Dict κ α) (k j : κ) :
    Dict.get (Table.erase d k) j = if j = k then none else d.get j := by
  unfold get
  rw [Table.get_erase]
  split <;> rfl

end Dict

end LoopLab.Lib
