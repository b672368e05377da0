import LoopLab.Resources.Pool
import LoopLab.Lib.Custody

/-!
# Devices are neither leaked nor shared

At every section of every run each device of the pool is on the free list or held by one admission
that has not settled, and the lease on the host's pool is held exactly while some device is out.
-/

set_option autoImplicit false

namespace LoopLab.Resources
open LoopLab.Lib

/-! ## One section on the free list -/

structure GpuState.Ordered (pool : Pool) (s : GpuState) : Prop where
  sublist : s.free.Sublist pool.ids
  leased : s.lease = true ↔ ∃ gpu ∈ pool.ids, gpu ∉ s.free

theorem GpuState.Ordered.nodup {pool : Pool} {s : GpuState} (h : s.Ordered pool) : s.free.Nodup :=
  pool.nodup.sublist h.sublist

theorem GpuState.ordered_start (pool : Pool) : ({ free := pool.ids } : GpuState).Ordered pool where
  sublist := .refl _
  leased := by simp

section Acquire

variable {pool : Pool} {host : Host} {s s' : GpuState} {n : Int} {mem : Option Int} {ids : List Nat}

theorem acquireGpus_cases {answer : Except String (Option (List Nat))}
    (h : acquireGpus pool host s n mem = (answer, s')) :
    (s' = s ∧ (answer = .ok (some []) ∧ min n.toNat pool.ids.length = 0 ∨ answer = .ok none ∨
      ∃ why, answer = .error why)) ∨
    ∃ chosen, answer = .ok (some chosen) ∧ chosen.Sublist s.free ∧
      chosen.length = min n.toNat pool.ids.length ∧ 0 < chosen.length ∧
      (∀ gpu ∈ chosen, fits pool (clampedDemand pool (min n.toNat pool.ids.length) mem) gpu = true) ∧
      s' = { free := s.free.filter fun gpu => decide (gpu ∉ chosen), lease := true, epoch := s.epoch + 1 } := by
  unfold acquireGpus at h
  dsimp only at h
  split at h
  · rename_i hcount
    cases h
    exact .inl ⟨rfl, .inl ⟨rfl, hcount⟩⟩
  · rename_i hcount
    split at h
    · cases h
      exact .inl ⟨rfl, .inr (.inl rfl)⟩
    · rename_i hlen
      split at h
      · cases h
        exact .inl ⟨rfl, .inr (.inl rfl)⟩
      · generalize (if s.lease = true then Except.ok (some ()) else tryLease host) = tried at h
        rcases tried with why | answer
        · cases h
          exact .inl ⟨rfl, .inr (.inr ⟨why, rfl⟩)⟩
        · rcases answer with _ | ⟨⟩
          · cases h
            exact .inl ⟨rfl, .inr (.inl rfl)⟩
          · cases h
            have hlength : (List.take (min n.toNat pool.ids.length) (s.free.filter
                (fits pool (clampedDemand pool (min n.toNat pool.ids.length) mem)))).length =
                min n.toNat pool.ids.length := by
              rw [List.length_take]
              omega
            refine .inr ⟨_, rfl, (List.take_sublist _ _).trans List.filter_sublist, hlength, ?_, ?_, rfl⟩
            · rw [hlength]
              omega
            · intro gpu hgpu
              exact (List.mem_filter.mp (List.mem_of_mem_take hgpu)).2

theorem acquireGpus_ordered {answer : Except String (Option (List Nat))} (hs : s.Ordered pool)
    (h : acquireGpus pool host s n mem = (answer, s')) : s'.Ordered pool := by
  rcases acquireGpus_cases h with ⟨rfl, -⟩ | ⟨chosen, -, hsub, -, hpos, -, rfl⟩
  · exact hs
  · obtain ⟨gpu, hgpu⟩ := List.exists_mem_of_length_pos hpos
    refine ⟨List.filter_sublist.trans hs.sublist, fun _ => ⟨gpu, ?_, ?_⟩, fun _ => rfl⟩
    · exact hs.sublist.subset (hsub.subset hgpu)
    · simp [hgpu]

theorem acquireGpus_count (hs : s.Ordered pool) (h : acquireGpus pool host s n mem = (.ok (some ids), s'))
    (gpu : Nat) : s'.free.count gpu + ids.count gpu = s.free.count gpu := by
  rcases acquireGpus_cases h with ⟨rfl, hsame⟩ | ⟨chosen, hchosen, hsub, -, -, -, rfl⟩
  · rcases hsame with ⟨hempty, -⟩ | hwait | ⟨why, herror⟩
    · cases hempty
      simp
    · cases hwait
    · cases herror
  · cases hchosen
    dsimp only
    by_cases hgpu : gpu ∈ ids
    · have hfree := hsub.subset hgpu
      rw [List.count_eq_zero.mpr (by simp [hgpu]), List.count_eq_one_of_mem (hs.nodup.sublist hsub) hgpu,
        List.count_eq_one_of_mem hs.nodup hfree]
    · rw [List.count_filter (by simpa using hgpu), List.count_eq_zero.mpr hgpu]
      rfl

theorem count_envelope {count e : Nat} (h : memoryEnvelope pool count = some e) (hpos : 0 < count)
    (hle : count ≤ pool.ids.length) :
    count ≤ (pool.ids.filter fun gpu => (pool.mem.get gpu).any (e ≤ ·)).length := by
  unfold memoryEnvelope at h
  dsimp only at h
  rw [if_neg (by omega : count ≠ 0)] at h
  split at h
  · cases h
  · rename_i hmem
    have hkeys : pool.mem.rows.map Prod.fst = pool.ids := by
      rcases pool.covers with hnone | hkeys
      · simp [hnone] at hmem
      · exact hkeys
    have hlen : pool.mem.rows.length = pool.ids.length := by
      rw [← hkeys, List.length_map]
    have hcount := lt_countP_of_sorted h
    rw [List.length_map] at hcount
    have hfilter : (pool.ids.filter fun gpu => (pool.mem.get gpu).any (e ≤ ·)).length =
        (pool.mem.rows.map Prod.snd).countP fun a => decide (e ≤ a) := by
      rw [← hkeys, ← List.countP_eq_length_filter, List.countP_map, List.countP_map]
      apply List.countP_congr
      intro row hrow
      have hget : pool.mem.get row.1 = some row.2 := by
        unfold Dict.get
        rw [Table.get_of_mem hrow]
        rfl
      simp [hget]
    omega

theorem count_fits {count : Nat} (mem : Option Int) (hpos : 0 < count) (hle : count ≤ pool.ids.length) :
    count ≤ (pool.ids.filter (fits pool (clampedDemand pool count mem))).length := by
  cases mem with
  | none =>
    have hall : pool.ids.filter (fits pool (clampedDemand pool count none)) = pool.ids :=
      List.filter_eq_self.mpr fun _ _ => rfl
    rwa [hall]
  | some m =>
    by_cases hrows : pool.mem.rows = []
    · have hall : pool.ids.filter (fits pool (clampedDemand pool count (some m))) = pool.ids :=
        List.filter_eq_self.mpr fun _ _ => by simp [fits, clampedDemand, hrows]
      rwa [hall]
    · cases henv : memoryEnvelope pool count with
      | none =>
        unfold memoryEnvelope at henv
        dsimp only at henv
        rw [if_neg (by simpa using hrows), List.getElem?_eq_none_iff, List.length_mergeSort] at henv
        have := List.length_pos_iff.mpr hrows
        rw [List.length_map] at henv
        omega
      | some e =>
        apply (count_envelope henv hpos hle).trans
        apply List.Sublist.length_le
        apply List.monotone_filter_right
        intro gpu hgpu
        obtain ⟨free, hget, hfree⟩ := (Option.any_eq_true _ _).mp hgpu
        have hmin : min m.toNat e ≤ free := (Nat.min_le_right _ _).trans (of_decide_eq_true hfree)
        simp [fits, clampedDemand, henv, hget, hmin]

theorem acquireGpus_grants (n : Int) (mem : Option Int) (hfree : s.free = pool.ids) (hopen : host.Open) :
    ∃ ids, (acquireGpus pool host s n mem).1 = .ok (some ids) ∧ ids.length = min n.toNat pool.ids.length ∧
      ∀ gpu ∈ ids, fits pool (clampedDemand pool (min n.toNat pool.ids.length) mem) gpu = true := by
  obtain ⟨hgate, hhead, hlease⟩ := hopen
  have hgranted : ∃ ids, (acquireGpus pool host s n mem).1 = .ok (some ids) := by
    unfold acquireGpus
    dsimp only
    by_cases hcount : min n.toNat pool.ids.length = 0
    · exact ⟨[], by rw [if_pos hcount]⟩
    · have hfits := count_fits mem (Nat.pos_of_ne_zero hcount) (Nat.min_le_right _ _)
      have htried : (if s.lease = true then .ok (some ()) else tryLease host) = .ok (some ()) := by
        unfold tryLease
        simp [hhead, hlease]
      rw [if_neg hcount, hfree, if_neg (by omega), if_neg (by simp [hgate]), htried]
      exact ⟨_, rfl⟩
  obtain ⟨ids, hids⟩ := hgranted
  refine ⟨ids, hids, ?_⟩
  rcases acquireGpus_cases (Prod.mk.eta (p := acquireGpus pool host s n mem)).symm with
    ⟨-, ⟨hempty, hzero⟩ | hwait | ⟨why, herror⟩⟩ | ⟨chosen, hchosen, -, hlen, -, hfit, -⟩
  · cases hids.symm.trans hempty
    rw [hzero]
    exact ⟨rfl, fun _ h => absurd h List.not_mem_nil⟩
  · cases hids.symm.trans hwait
  · cases hids.symm.trans herror
  · cases hids.symm.trans hchosen
    exact ⟨hlen, hfit⟩

end Acquire

section Release

variable {pool : Pool} {s : GpuState} {ids : List Nat}

theorem mem_foldl_release (free : List Nat) (gpu : Nat) :
    gpu ∈ ids.foldl (fun free gpu => if gpu ∈ free then free else free ++ [gpu]) free ↔ gpu ∈ free ∨ gpu ∈ ids := by
  induction ids generalizing free with
  | nil => simp
  | cons g ids ih =>
    rw [List.foldl_cons, ih]
    split
    · rename_i hg
      constructor
      · rintro (h | h)
        · exact .inl h
        · exact .inr (List.mem_cons_of_mem g h)
      · rintro (h | h)
        · exact .inl h
        · rcases List.mem_cons.mp h with rfl | h
          · exact .inl hg
          · exact .inr h
    · simp [or_assoc]

theorem nodup_foldl_release (free : List Nat) (h : free.Nodup) :
    (ids.foldl (fun free gpu => if gpu ∈ free then free else free ++ [gpu]) free).Nodup := by
  induction ids generalizing free with
  | nil => exact h
  | cons g ids ih =>
    rw [List.foldl_cons]
    apply ih
    split
    · exact h
    · rename_i hg
      exact List.nodup_append.mpr ⟨h, List.nodup_singleton g, fun a ha b hb hab => hg (by
        rw [List.mem_singleton] at hb
        exact hb ▸ hab ▸ ha)⟩

theorem releaseGpus_free (hs : s.Ordered pool) (hids : ∀ gpu ∈ ids, gpu ∈ pool.ids) :
    (releaseGpus pool s ids).free = inOrder pool.ids (s.free ++ ids) := by
  have hself : ids.filter (fun gpu => decide (gpu ∈ pool.ids)) = ids :=
    List.filter_eq_self.mpr fun gpu hgpu => decide_eq_true (hids gpu hgpu)
  unfold releaseGpus
  dsimp only
  rw [hself]
  split
  · rename_i hempty
    rw [hempty, List.append_nil]
    exact eq_inOrder pool.nodup hs.sublist
  · dsimp only
    rw [sort_eq_inOrder pool.nodup (nodup_foldl_release s.free hs.nodup)]
    · unfold inOrder
      apply List.filter_congr
      intro gpu _
      apply decide_eq_decide.mpr
      rw [mem_foldl_release, List.mem_append]
    · intro gpu hgpu
      rcases (mem_foldl_release s.free gpu).mp hgpu with hfree | hback
      · exact hs.sublist.subset hfree
      · exact hids gpu hback

theorem releaseGpus_ordered (hs : s.Ordered pool) (hids : ∀ gpu ∈ ids, gpu ∈ pool.ids) :
    (releaseGpus pool s ids).Ordered pool := by
  have hfree := releaseGpus_free hs hids
  have hsub : (releaseGpus pool s ids).free.Sublist pool.ids := by
    rw [hfree]
    exact inOrder_sublist _ _
  refine ⟨hsub, ?_⟩
  rw [exists_not_mem_iff pool.nodup hsub]
  have hold := hs.leased
  rw [exists_not_mem_iff pool.nodup hs.sublist] at hold
  have hgrows : s.free = pool.ids → (releaseGpus pool s ids).free = pool.ids := by
    intro hall
    rw [hfree, hall]
    exact List.filter_eq_self.mpr fun gpu hgpu => decide_eq_true (List.mem_append_left _ hgpu)
  rw [Ne, sublist_eq_iff hsub]
  rw [sublist_eq_iff hsub] at hgrows
  revert hgrows
  unfold releaseGpus
  dsimp only
  split
  · intro _
    rw [hold, Ne, sublist_eq_iff hs.sublist]
  · dsimp only
    intro hgrows
    split
    · rename_i hlen
      simp [hlen]
    · rename_i hlen
      rw [hold]
      exact ⟨fun _ => hlen, fun _ hall => hlen (hgrows hall)⟩

theorem releaseGpus_count (hs : s.Ordered pool) (hids : ∀ gpu ∈ ids, gpu ∈ pool.ids) (gpu : Nat)
    (honce : s.free.count gpu + ids.count gpu ≤ pool.ids.count gpu) :
    (releaseGpus pool s ids).free.count gpu = s.free.count gpu + ids.count gpu := by
  have hone := List.nodup_iff_count_le_one.mp pool.nodup gpu
  rw [releaseGpus_free hs hids]
  by_cases hmem : gpu ∈ s.free ++ ids
  · have hpool : gpu ∈ pool.ids := by
      rcases List.mem_append.mp hmem with hfree | hback
      · exact hs.sublist.subset hfree
      · exact hids gpu hback
    have hpos : 0 < (s.free ++ ids).count gpu := List.count_pos_iff.mpr hmem
    rw [List.count_append] at hpos
    rw [List.count_eq_one_of_mem (pool.nodup.sublist (inOrder_sublist _ _)) (mem_inOrder.mpr ⟨hpool, hmem⟩)]
    omega
  · have hzero := List.count_eq_zero.mpr hmem
    rw [List.count_append] at hzero
    rw [List.count_eq_zero.mpr fun h => hmem (mem_inOrder.mp h).2]
    omega

end Release

theorem tryReserve_spec {pool : Pool} (host : Host) {s : GpuState} (request : Request) (hs : s.Ordered pool) :
    match tryReserveNodeResources pool host s request with
    | (none, s') => s' = s
    | (some r, s') => s'.Ordered pool ∧ ∀ gpu, s'.free.count gpu + r.gpuIds.count gpu = s.free.count gpu := by
  unfold tryReserveNodeResources
  by_cases hrequired : request.requiredUnavailable = true
  · rw [if_pos hrequired]
    exact ⟨hs, fun gpu => rfl⟩
  · rw [if_neg hrequired]
    dsimp only
    generalize (if (request.isUnspecified && request.taskGpuCapable && decide (request.count = 0) &&
      decide (pool.ids ≠ [])) = true then pool.ids.length else request.count) = count
    cases hacquired : acquireGpus pool host s count (request.gpuMemMib.map Int.ofNat) with
    | mk answer s' =>
      rcases answer with why | _ | ids
      · rcases acquireGpus_cases hacquired with ⟨rfl, -⟩ | ⟨chosen, herr, -⟩
        · exact ⟨hs, fun gpu => rfl⟩
        · cases herr
      · rcases acquireGpus_cases hacquired with ⟨rfl, -⟩ | ⟨chosen, herr, -⟩
        · rfl
        · cases herr
      · exact ⟨acquireGpus_ordered hs hacquired, acquireGpus_count hs hacquired⟩

/-! ## Whose each device is -/

def laneIds (l : Nat × Lane) : List Nat := if l.2.registered then [] else l.2.reservation.gpuIds

def rowIds (r : Key × Reservation) : List Nat := r.2.gpuIds

theorem count_held (w : World) (gpu : Nat) : w.held.count gpu =
    Table.share laneIds w.lanes gpu + Table.share rowIds w.registry gpu + Table.share rowIds w.coming gpu +
      w.leaving.flatten.count gpu := by
  unfold World.held
  rw [List.count_append, List.count_append, List.count_append]
  rfl

/-- The entries of the registry are those of the lanes that registered; what a reclaim has taken is for an
entry without devices. -/
structure Entries (w : World) : Prop where
  entries : ∀ k, (w.registry.get k).isSome = true ↔
    ∃ i l, w.lanes.get i = some l ∧ l.registered = true ∧ l.key = k
  unique : ∀ i j l l', w.lanes.get i = some l → w.lanes.get j = some l' → l.registered = true →
    l'.registered = true → l.key = l'.key → i = j
  coming : ∀ k r, w.coming.get k = some r → ∃ held, w.registry.get k = some held ∧ held.gpuIds = []

namespace Entries

variable {w w' : World} (h : Entries w)
include h

theorem of_keys (hlanes : w'.lanes = w.lanes)
    (hkeys : ∀ k, (w'.registry.get k).isSome = (w.registry.get k).isSome)
    (hcoming : ∀ k r, w'.coming.get k = some r → ∃ held, w'.registry.get k = some held ∧ held.gpuIds = []) :
    Entries w' where
  entries k := by
    rw [hkeys, hlanes]
    exact h.entries k
  unique := by
    rw [hlanes]
    exact h.unique
  coming := hcoming

theorem admitted {lane : Nat} {l : Lane} (hlane : w.lanes.get lane = none) (hl : l.registered = false)
    (hlanes : w'.lanes = w.lanes.set lane l) (hregistry : w'.registry = w.registry)
    (hcoming : w'.coming = w.coming) : Entries w' := by
  have hget (i : Nat) (l' : Lane) (hreg : l'.registered = true) :
      w'.lanes.get i = some l' ↔ w.lanes.get i = some l' := by
    rw [hlanes, Dict.get_set]
    by_cases hi : i = lane
    · subst hi
      rw [if_pos rfl, hlane]
      refine ⟨?_, ?_⟩
      · intro heq
        cases heq
        rw [hl] at hreg
        cases hreg
      · intro heq
        cases heq
    · rw [if_neg hi]
  constructor
  · intro k
    rw [hregistry, h.entries k]
    constructor
    · rintro ⟨i, l', hl', hreg, hkey⟩
      exact ⟨i, l', (hget i l' hreg).mpr hl', hreg, hkey⟩
    · rintro ⟨i, l', hl', hreg, hkey⟩
      exact ⟨i, l', (hget i l' hreg).mp hl', hreg, hkey⟩
  · intro i j l₁ l₂ hl₁ hl₂ hreg₁ hreg₂ hkey
    exact h.unique i j l₁ l₂ ((hget i l₁ hreg₁).mp hl₁) ((hget j l₂ hreg₂).mp hl₂) hreg₁ hreg₂ hkey
  · rw [hcoming, hregistry]
    exact h.coming

theorem registered {lane : Nat} {l : Lane} {r : Reservation} (hlane : w.lanes.get lane = some l)
    (hl : l.registered = false) (hentry : w.registry.get l.key = none)
    (hlanes : w'.lanes = w.lanes.set lane { l with registered := true })
    (hregistry : w'.registry = w.registry.set l.key r) (hcoming : w'.coming = w.coming) : Entries w' := by
  have hother (i : Nat) (l' : Lane) (hl' : w.lanes.get i = some l') (hreg : l'.registered = true) :
      i ≠ lane ∧ l'.key ≠ l.key := by
    constructor
    · rintro rfl
      cases hlane.symm.trans hl'
      rw [hl] at hreg
      cases hreg
    · intro hk
      have hsome := (h.entries l'.key).mpr ⟨i, l', hl', hreg, rfl⟩
      rw [hk, hentry] at hsome
      cases hsome
  have hget (i : Nat) (hi : i ≠ lane) : w'.lanes.get i = w.lanes.get i := by
    rw [hlanes, Dict.get_set, if_neg hi]
  have hself : w'.lanes.get lane = some { l with registered := true } := by
    rw [hlanes, Dict.get_set, if_pos rfl]
  constructor
  · intro k
    rw [hregistry, Dict.get_set]
    by_cases hk : k = l.key
    · rw [if_pos hk]
      exact ⟨fun _ => ⟨lane, _, hself, rfl, hk.symm⟩, fun _ => rfl⟩
    · rw [if_neg hk, h.entries k]
      constructor
      · rintro ⟨i, l', hl', hreg, hkey⟩
        exact ⟨i, l', (hget i (hother i l' hl' hreg).1).trans hl', hreg, hkey⟩
      · rintro ⟨i, l', hl', hreg, hkey⟩
        by_cases hi : i = lane
        · subst hi
          cases hself.symm.trans hl'
          exact absurd hkey.symm hk
        · exact ⟨i, l', (hget i hi).symm.trans hl', hreg, hkey⟩
  · intro i j l₁ l₂ hl₁ hl₂ hreg₁ hreg₂ hkey
    by_cases hi : i = lane
    · by_cases hj : j = lane
      · exact hi.trans hj.symm
      · subst hi
        cases hself.symm.trans hl₁
        exact absurd hkey.symm (hother j l₂ ((hget j hj).symm.trans hl₂) hreg₂).2
    · by_cases hj : j = lane
      · subst hj
        cases hself.symm.trans hl₂
        exact absurd hkey (hother i l₁ ((hget i hi).symm.trans hl₁) hreg₁).2
      · exact h.unique i j l₁ l₂ ((hget i hi).symm.trans hl₁) ((hget j hj).symm.trans hl₂) hreg₁ hreg₂ hkey
  · intro k r' hr'
    rw [hcoming] at hr'
    obtain ⟨held, hheld, hempty⟩ := h.coming k r' hr'
    refine ⟨held, ?_, hempty⟩
    rw [hregistry, Dict.get_set, if_neg]
    · exact hheld
    · rintro rfl
      cases hentry.symm.trans hheld

theorem erased {lane : Nat} {l : Lane} (hlane : w.lanes.get lane = some l)
    (hlanes : w'.lanes = Table.erase w.lanes lane)
    (hregistry : ∀ k, w'.registry.get k = if l.registered = true ∧ k = l.key then none else w.registry.get k)
    (hidle : l.registered = true → w.coming.get l.key = none) (hcoming : w'.coming = w.coming) : Entries w' := by
  have hget (i : Nat) : w'.lanes.get i = if i = lane then none else w.lanes.get i := by
    rw [hlanes, Dict.get_erase]
  constructor
  · intro k
    rw [hregistry]
    constructor
    · intro hsome
      split at hsome
      · cases hsome
      · rename_i hk
        obtain ⟨i, l', hl', hreg, hkey⟩ := (h.entries k).mp hsome
        refine ⟨i, l', ?_, hreg, hkey⟩
        rw [hget, if_neg]
        · exact hl'
        · rintro rfl
          cases hlane.symm.trans hl'
          exact hk ⟨hreg, hkey.symm⟩
    · rintro ⟨i, l', hl', hreg, hkey⟩
      rw [hget] at hl'
      split at hl'
      · cases hl'
      · rename_i hi
        rw [if_neg]
        · exact (h.entries k).mpr ⟨i, l', hl', hreg, hkey⟩
        · rintro ⟨hreg', hk⟩
          exact hi (h.unique i lane l' l hl' hlane hreg hreg' (hkey.trans hk))
  · intro i j l₁ l₂ hl₁ hl₂
    rw [hget] at hl₁ hl₂
    split at hl₁
    · cases hl₁
    · split at hl₂
      · cases hl₂
      · exact h.unique i j l₁ l₂ hl₁ hl₂
  · intro k r hr
    rw [hcoming] at hr
    obtain ⟨held, hheld, hempty⟩ := h.coming k r hr
    refine ⟨held, ?_, hempty⟩
    rw [hregistry, if_neg]
    · exact hheld
    · rintro ⟨hreg, rfl⟩
      cases (hidle hreg).symm.trans hr

end Entries

structure Custody (pool : Pool) (w : World) : Prop where
  ordered : w.gpu.Ordered pool
  counts : ∀ gpu, w.gpu.free.count gpu + w.held.count gpu = pool.ids.count gpu
  entries : Entries w

theorem custody_start (pool : Pool) : Custody pool (World.start pool) where
  ordered := GpuState.ordered_start pool
  counts gpu := by
    rw [count_held]
    rfl
  entries := by
    constructor
    · intro k
      constructor
      · intro h
        cases h
      · rintro ⟨i, l, h, -⟩
        cases h
    · intro i j l l' h
      cases h
    · intro k r h
      cases h

namespace Custody

variable {pool : Pool} {w : World} (h : Custody pool w)
include h

theorem mem_pool {gpu : Nat} (hgpu : gpu ∈ w.held) : gpu ∈ pool.ids := by
  have hpos := List.count_pos_iff.mpr hgpu
  have hcount := h.counts gpu
  exact List.count_pos_iff.mp (by omega)

theorem enter (lane node : Nat) (request : Request) (host : Host) :
    Custody pool (w.enter pool lane node request host) := by
  unfold World.enter
  cases hlane : w.lanes.get lane with
  | some l => exact h
  | none =>
    dsimp only
    have hspec := tryReserve_spec host request h.ordered
    generalize tryReserveNodeResources pool host w.gpu request = reserved at hspec
    obtain ⟨answer, gpu⟩ := reserved
    cases answer with
    | none =>
      obtain rfl := hspec
      exact h
    | some reservation =>
      obtain ⟨hordered, hcount⟩ := hspec
      refine ⟨hordered, ?_, h.entries.admitted hlane rfl rfl rfl rfl⟩
      intro g
      have hshare := Dict.share_set_of_none (a := { key := (node, w.attempt node), reservation }) laneIds g hlane
      have hids : laneIds (lane, { key := (node, w.attempt node), reservation }) = reservation.gpuIds := rfl
      rw [hids] at hshare
      have hold := h.counts g
      have hmoved := hcount g
      rw [count_held] at hold ⊢
      dsimp only
      omega

theorem register (lane : Nat) : Custody pool (w.register lane) := by
  unfold World.register
  cases hlane : w.lanes.get lane with
  | none => exact h
  | some l =>
    dsimp only
    split
    · exact h
    · rename_i hfree
      rw [Bool.or_eq_true, not_or, Bool.not_eq_true, Bool.not_eq_true, Option.isSome_eq_false_iff,
        Option.isNone_iff_eq_none] at hfree
      obtain ⟨hunregistered, hentry⟩ := hfree
      refine ⟨h.ordered, ?_, h.entries.registered hlane hunregistered hentry rfl rfl rfl⟩
      intro g
      have hlanes := Dict.share_set_of_get (a := { l with registered := true }) laneIds g hlane
      have hrows := Dict.share_set_of_none (a := l.reservation) rowIds g hentry
      have hbefore : laneIds (lane, l) = l.reservation.gpuIds := by simp [laneIds, hunregistered]
      have hafter : laneIds (lane, { l with registered := true }) = [] := rfl
      have hrow : rowIds (l.key, l.reservation) = l.reservation.gpuIds := rfl
      rw [hbefore, hafter, List.count_nil] at hlanes
      rw [hrow] at hrows
      have hold := h.counts g
      rw [count_held] at hold ⊢
      dsimp only
      omega

omit h in
theorem share_erase_lane {lane : Nat} {l : Lane} (hlane : w.lanes.get lane = some l) (g : Nat) :
    Table.share laneIds w.lanes g =
      (if l.registered then 0 else l.reservation.gpuIds.count g) + Table.share laneIds (Table.erase w.lanes lane) g := by
  rw [Dict.share_erase laneIds g hlane]
  unfold laneIds
  cases l.registered <;> simp

omit h in
theorem leaving_snoc (leaving : List (List Nat)) (ids : List Nat) (g : Nat) :
    (leaving ++ [ids]).flatten.count g = leaving.flatten.count g + ids.count g := by
  simp

theorem released (ids : List Nat) (others : Nat → Nat) (hheld : ∀ g, w.held.count g = ids.count g + others g) :
    (releaseGpus pool w.gpu ids).Ordered pool ∧
      ∀ g, (releaseGpus pool w.gpu ids).free.count g + others g = pool.ids.count g := by
  have hids : ∀ gpu ∈ ids, gpu ∈ pool.ids := by
    intro gpu hgpu
    apply h.mem_pool
    apply List.count_pos_iff.mp
    have hpos := List.count_pos_iff.mpr hgpu
    have hcount := hheld gpu
    omega
  refine ⟨releaseGpus_ordered h.ordered hids, ?_⟩
  intro g
  have hold := h.counts g
  have hcount := hheld g
  have hback := releaseGpus_count h.ordered hids g (by omega)
  omega

theorem release (lane : Nat) : Custody pool (w.release pool lane) := by
  unfold World.release
  cases hlane : w.lanes.get lane with
  | none => exact h
  | some l =>
    dsimp only
    split
    · exact h
    · rename_i hunregistered
      rw [Bool.not_eq_true] at hunregistered
      have hshare := share_erase_lane hlane
      rw [hunregistered] at hshare
      obtain ⟨hordered, hcounts⟩ := h.released l.reservation.gpuIds
        (fun g => Table.share laneIds (Table.erase w.lanes lane) g + Table.share rowIds w.registry g +
          Table.share rowIds w.coming g + w.leaving.flatten.count g) (by
          intro g
          have hg := hshare g
          rw [count_held]
          simp only [Bool.false_eq_true, if_false] at hg
          omega)
      refine ⟨hordered, ?_, ?_⟩
      · intro g
        rw [count_held]
        exact hcounts g
      · refine h.entries.erased hlane rfl ?_ ?_ rfl
        · intro k
          simp [hunregistered]
        · intro hreg
          rw [hunregistered] at hreg
          cases hreg

theorem giveBack (gpuIds : List Nat) : Custody pool (w.giveBack pool gpuIds) := by
  unfold World.giveBack
  split
  · rename_i hmem
    obtain ⟨hordered, hcounts⟩ := h.released gpuIds
      (fun g => Table.share laneIds w.lanes g + Table.share rowIds w.registry g +
        Table.share rowIds w.coming g + (w.leaving.erase gpuIds).flatten.count g) (by
        intro g
        have hperm := ((List.perm_cons_erase hmem).flatten).count_eq g
        rw [List.flatten_cons, List.count_append] at hperm
        rw [count_held]
        omega)
    refine ⟨hordered, ?_, h.entries.of_keys rfl (fun _ => rfl) h.entries.coming⟩
    intro g
    rw [count_held]
    exact hcounts g
  · exact h

theorem yieldDevices (key : Key) : Custody pool (w.yieldDevices key) := by
  unfold World.yieldDevices
  split
  · exact h
  · rename_i hidle
    cases hheld : w.registry.get key with
    | none => exact h
    | some held =>
      dsimp only
      split
      · exact h
      · refine ⟨h.ordered, ?_, ?_⟩
        · intro g
          have hrows := Dict.share_set_of_get
            (a := { held with gpuIds := [], yieldedGpus := some held.gpuIds.length, gave := fun _ => rfl })
            rowIds g hheld
          have hafter : rowIds (key, { held with
            gpuIds := [], yieldedGpus := some held.gpuIds.length, gave := fun _ => rfl }) = [] := rfl
          have hbefore : rowIds (key, held) = held.gpuIds := rfl
          rw [hbefore, hafter, List.count_nil] at hrows
          have hold := h.counts g
          rw [count_held] at hold ⊢
          dsimp only
          rw [leaving_snoc]
          omega
        · refine h.entries.of_keys rfl ?_ ?_
          · intro k
            dsimp only
            rw [Dict.get_set]
            split
            · rename_i hk
              rw [hk, hheld]
              rfl
            · rfl
          · intro k r hr
            obtain ⟨old, hold, hempty⟩ := h.entries.coming k r hr
            dsimp only
            rw [Dict.get_set]
            split
            · exact ⟨_, rfl, rfl⟩
            · exact ⟨old, hold, hempty⟩

theorem reclaim (key : Key) (host : Host) : Custody pool (w.reclaim pool key host) := by
  unfold World.reclaim
  split
  · exact h
  · rename_i hidle
    rw [Bool.not_eq_true, Option.isSome_eq_false_iff, Option.isNone_iff_eq_none] at hidle
    cases hheld : w.registry.get key with
    | none => exact h
    | some held =>
      dsimp only
      split
      · exact h
      · rename_i hcount
        have hempty : held.gpuIds = [] := held.gave (by
          intro hnone
          rw [hnone] at hcount
          exact hcount rfl)
        cases hacquired : acquireGpus pool host w.gpu (held.yieldedGpus.getD 0)
            (held.request.gpuMemMib.map Int.ofNat) with
        | mk answer gpu =>
          have hordered := acquireGpus_ordered h.ordered hacquired
          rcases answer with why | _ | ids
          · rcases acquireGpus_cases hacquired with ⟨rfl, -⟩ | ⟨chosen, herr, -⟩
            · exact h
            · cases herr
          · rcases acquireGpus_cases hacquired with ⟨rfl, -⟩ | ⟨chosen, herr, -⟩
            · exact h
            · cases herr
          · have htaken := acquireGpus_count h.ordered hacquired
            dsimp only
            split
            · rename_i hids
              refine ⟨hordered, ?_, h.entries.of_keys rfl (fun _ => rfl) h.entries.coming⟩
              intro g
              have hg := htaken g
              rw [hids, List.count_nil] at hg
              have hold := h.counts g
              rw [count_held] at hold ⊢
              dsimp only
              omega
            · refine ⟨hordered, ?_, ?_⟩
              · intro g
                have hrows := Dict.share_set_of_none
                  (a := { held with gpuIds := ids, yieldedGpus := none, gave := fun hn => absurd rfl hn })
                  rowIds g hidle
                have hrow : rowIds (key, { held with
                  gpuIds := ids, yieldedGpus := none, gave := fun hn => absurd rfl hn }) = ids := rfl
                rw [hrow] at hrows
                have hg := htaken g
                have hold := h.counts g
                rw [count_held] at hold ⊢
                dsimp only
                omega
              · refine h.entries.of_keys rfl (fun _ => rfl) ?_
                intro k r hr
                dsimp only at hr
                rw [Dict.get_set] at hr
                split at hr
                · rename_i hk
                  exact ⟨held, hk ▸ hheld, hempty⟩
                · exact h.entries.coming k r hr

theorem store (key : Key) : Custody pool (w.store key) := by
  unfold World.store
  cases hback : w.coming.get key with
  | none => exact h
  | some back =>
    obtain ⟨held, hheld, hempty⟩ := h.entries.coming key back hback
    refine ⟨h.ordered, ?_, ?_⟩
    · intro g
      have hrows := Dict.share_set_of_get (a := back) rowIds g hheld
      have hcoming := Dict.share_erase rowIds g hback
      have hbefore : rowIds (key, held) = [] := hempty
      rw [hbefore, List.count_nil] at hrows
      have hold := h.counts g
      rw [count_held] at hold ⊢
      dsimp only
      omega
    · refine h.entries.of_keys rfl ?_ ?_
      · intro k
        dsimp only
        rw [Dict.get_set]
        split
        · rename_i hk
          rw [hk, hheld]
          rfl
        · rfl
      · intro k r hr
        dsimp only at hr ⊢
        rw [Dict.get_erase] at hr
        split at hr
        · cases hr
        · rename_i hk
          rw [Dict.get_set, if_neg hk]
          exact h.entries.coming k r hr

theorem reset (node : Nat) : Custody pool (w.reset node) where
  ordered := h.ordered
  counts := h.counts
  entries := h.entries.of_keys rfl (fun _ => rfl) h.entries.coming

theorem unspawn (lane : Nat) : Custody pool (w.unspawn lane) := by
  unfold World.unspawn
  cases hlane : w.lanes.get lane with
  | none => exact h
  | some l =>
    dsimp only
    split
    · rename_i hcond
      rw [Bool.and_eq_true, Bool.and_eq_true, Option.isNone_iff_eq_none, Option.any_eq_true] at hcond
      obtain ⟨⟨hreg, hidle⟩, held, hentry, hsame⟩ := hcond
      refine ⟨h.ordered, ?_, ?_⟩
      · intro g
        have hg := share_erase_lane hlane g
        rw [hreg] at hg
        simp only [if_true] at hg
        have hrows := Dict.share_erase rowIds g hentry
        have hrow : rowIds (l.key, held) = l.reservation.gpuIds := of_decide_eq_true hsame
        rw [hrow] at hrows
        have hold := h.counts g
        rw [count_held] at hold ⊢
        dsimp only
        rw [leaving_snoc]
        omega
      · refine h.entries.erased hlane rfl ?_ (fun _ => hidle) rfl
        intro k
        dsimp only
        rw [Dict.get_erase]
        simp [hreg]
    · exact h

theorem settle (lane : Nat) : Custody pool (w.settle lane) := by
  unfold World.settle
  cases hlane : w.lanes.get lane with
  | none => exact h
  | some l =>
    dsimp only
    split
    · exact h
    · rename_i hidle
      rw [Bool.not_eq_true, Option.isSome_eq_false_iff, Option.isNone_iff_eq_none] at hidle
      have hshare := share_erase_lane hlane
      cases hentry : w.registry.get l.key with
      | none =>
        have hunregistered : l.registered = false := by
          cases hreg : l.registered with
          | false => rfl
          | true =>
            have hsome := (h.entries.entries l.key).mpr ⟨lane, l, hlane, hreg, rfl⟩
            rw [hentry] at hsome
            cases hsome
        refine ⟨h.ordered, ?_, ?_⟩
        · intro g
          have hg := hshare g
          rw [hunregistered] at hg
          simp only [Bool.false_eq_true, if_false] at hg
          have hold := h.counts g
          rw [count_held] at hold ⊢
          dsimp only
          rw [leaving_snoc]
          omega
        · refine h.entries.erased hlane rfl ?_ (fun _ => hidle) rfl
          intro k
          simp [hunregistered]
      | some held =>
        dsimp only
        split
        · rename_i hreg
          refine ⟨h.ordered, ?_, ?_⟩
          · intro g
            have hg := hshare g
            rw [hreg] at hg
            simp only [if_true] at hg
            have hrows := Dict.share_erase rowIds g hentry
            have hrow : rowIds (l.key, held) = held.gpuIds := rfl
            rw [hrow] at hrows
            have hold := h.counts g
            rw [count_held] at hold ⊢
            dsimp only
            rw [leaving_snoc]
            omega
          · refine h.entries.erased hlane rfl ?_ (fun _ => hidle) rfl
            intro k
            dsimp only
            rw [Dict.get_erase]
            simp [hreg]
        · exact h

theorem step (act : Act) : Custody pool (w.step pool act) := by
  cases act with
  | enter lane node request host => exact h.enter lane node request host
  | register lane => exact h.register lane
  | release lane => exact h.release lane
  | unspawn lane => exact h.unspawn lane
  | giveBack gpuIds => exact h.giveBack gpuIds
  | yieldDevices key => exact h.yieldDevices key
  | reclaim key host => exact h.reclaim key host
  | store key => exact h.store key
  | reset node => exact h.reset node
  | settle lane => exact h.settle lane

end Custody

theorem custody_after (pool : Pool) (acts : List Act) : Custody pool (World.after pool acts) := by
  unfold World.after
  have hrun (w : World) (h : Custody pool w) : Custody pool (acts.foldl (World.step pool) w) := by
    induction acts generalizing w with
    | nil => exact h
    | cons act acts ih => exact ih _ (h.step act)
  exact hrun _ (custody_start pool)

/-- After every run the free list is in pool order and it and the held devices are the pool, each device
once; the lease is held while some device is out, and given up when every admission has settled; and where
all devices are free no request waits behind an open gate, and what it gets fits its clamped demand. -/
theorem devices_in_custody (pool : Pool) (acts : List Act) :
    let w := World.after pool acts
    w.gpu.free.Sublist pool.ids ∧ (w.gpu.free ++ w.held).Perm pool.ids ∧
      (w.gpu.lease = true ↔ ∃ gpu ∈ pool.ids, gpu ∉ w.gpu.free) ∧
      (w.Settled → w.gpu.free = pool.ids ∧ w.gpu.lease = false) ∧
      (w.gpu.free = pool.ids → ∀ host : Host, host.Open → ∀ request : Request,
        (tryReserveNodeResources pool host w.gpu request).1.isSome = true ∧
        ∀ (n : Int) (mem : Option Int), ∃ ids, (acquireGpus pool host w.gpu n mem).1 = .ok (some ids) ∧
          ids.length = min n.toNat pool.ids.length ∧
          ∀ gpu ∈ ids, fits pool (clampedDemand pool (min n.toNat pool.ids.length) mem) gpu = true) := by
  intro w
  have h : Custody pool w := custody_after pool acts
  have hperm : (w.gpu.free ++ w.held).Perm pool.ids := by
    apply List.perm_iff_count.mpr
    intro gpu
    rw [List.count_append]
    exact h.counts gpu
  refine ⟨h.ordered.sublist, hperm, h.ordered.leased, ?_, ?_⟩
  · rintro ⟨hlanes, hleaving⟩
    have hlane (i : Nat) : w.lanes.get i = none := by
      unfold Dict.get Table.get
      rw [hlanes]
      rfl
    have hregistry (k : Key) : w.registry.get k = none := by
      cases hget : w.registry.get k with
      | none => rfl
      | some r =>
        obtain ⟨i, l, hl, -⟩ := (h.entries.entries k).mp (by rw [hget]; rfl)
        cases (hlane i).symm.trans hl
    have hcoming (k : Key) : w.coming.get k = none := by
      cases hget : w.coming.get k with
      | none => rfl
      | some r =>
        obtain ⟨held, hheld, -⟩ := h.entries.coming k r hget
        cases (hregistry k).symm.trans hheld
    have hheld : w.held = [] := by
      unfold World.held
      rw [hlanes, hleaving, Dict.rows_eq_nil hregistry, Dict.rows_eq_nil hcoming]
      rfl
    rw [hheld, List.append_nil] at hperm
    have hfree : w.gpu.free = pool.ids := h.ordered.sublist.eq_of_length hperm.length_eq
    refine ⟨hfree, ?_⟩
    cases hlease : w.gpu.lease with
    | false => rfl
    | true =>
      obtain ⟨gpu, hgpu, hout⟩ := h.ordered.leased.mp hlease
      rw [hfree] at hout
      exact absurd hgpu hout
  · intro hfree host hopen request
    refine ⟨?_, fun n mem => acquireGpus_grants n mem hfree hopen⟩
    unfold tryReserveNodeResources
    by_cases hrequired : request.requiredUnavailable = true
    · rw [if_pos hrequired]
      rfl
    · rw [if_neg hrequired]
      dsimp only
      generalize (if (request.isUnspecified && request.taskGpuCapable && decide (request.count = 0) &&
        decide (pool.ids ≠ [])) = true then pool.ids.length else request.count) = count
      obtain ⟨ids, hids, -⟩ := acquireGpus_grants count (request.gpuMemMib.map Int.ofNat) hfree hopen
      generalize acquireGpus pool host w.gpu count (request.gpuMemMib.map Int.ofNat) = acquired at hids
      obtain ⟨answer, s'⟩ := acquired
      obtain rfl : answer = .ok (some ids) := hids
      rfl

end LoopLab.Resources
