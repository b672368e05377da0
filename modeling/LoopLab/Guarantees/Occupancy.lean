import LoopLab.Engine.EvalOccupancy
import LoopLab.Lib.Custody
import LoopLab.Lib.Sorted

/-!
# What the occupancy report conserves

What the loop over the rows keeps of a lifecycle is the lifecycle's own history, in log order.
-/

set_option autoImplicit false

namespace LoopLab.Engine.EvalOccupancy
open Lib

variable {events : List Row} {lc : Lifecycle}

def entryOf (lc : Lifecycle) (row : Row) : Option (Kind × Rat) := do
  let stamp ← stampOf row
  let (lifecycle, kind) ← markOf row
  if lifecycle = lc then some (kind, stamp) else none

def history (events : List Row) (lc : Lifecycle) : List (Kind × Rat) := events.filterMap (entryOf lc)

def firstOf (kind : Kind) (entries : List (Kind × Rat)) : Option Rat :=
  (entries.find? fun r => r.1 = kind).map Prod.snd

theorem get_setDefault {α : Type} (d : Dict Lifecycle α) (k j : Lifecycle) (v : α) :
    (setDefault d k v).get j = if j = k then some ((d.get j).getD v) else d.get j := by
  unfold setDefault
  split
  · rename_i h
    split
    · rename_i hj
      obtain ⟨w, hw⟩ := Option.isSome_iff_exists.mp h
      rw [hj, hw]
      rfl
    · rfl
  · rename_i h
    rw [Dict.get_set]
    split
    · rename_i hj
      rw [hj, Option.not_isSome_iff_eq_none.mp h]
      rfl
    · rfl

namespace Book

structure Reads (b : Book) (h : Lifecycle → List (Kind × Rat)) : Prop where
  sequences : ∀ lc, (b.sequences.get lc).getD [] = h lc
  starts : ∀ lc, b.starts.get lc = firstOf .started (h lc)
  ends : ∀ lc, b.ends.get lc = firstOf .terminal (h lc)

theorem firstOf_append (kind : Kind) (xs : List (Kind × Rat)) (r : Kind × Rat) :
    firstOf kind (xs ++ [r]) = if r.1 = kind then some ((firstOf kind xs).getD r.2) else firstOf kind xs := by
  unfold firstOf
  rw [List.find?_append]
  cases hfind : xs.find? fun r => r.1 = kind with
  | some s => simp
  | none =>
    by_cases hk : r.1 = kind
    · simp [hk]
    · simp [hk]

theorem Reads.row {b : Book} {h : Lifecycle → List (Kind × Rat)} (hb : b.Reads h) (row : Row) :
    (b.row row).Reads fun lc => h lc ++ (entryOf lc row).toList := by
  unfold Book.row entryOf
  cases hstamp : stampOf row with
  | none => simpa using hb
  | some stamp =>
    cases hmark : markOf row with
    | none => simpa using hb
    | some mark =>
      obtain ⟨lifecycle, kind⟩ := mark
      refine ⟨fun lc => ?_, fun lc => ?_, fun lc => ?_⟩
      · simp only [Option.bind_eq_bind, Option.bind_some, Dict.get_set]
        by_cases hlc : lc = lifecycle
        · rw [if_pos hlc, if_pos hlc.symm, Option.getD_some, hb.sequences, hlc]
          rfl
        · rw [if_neg hlc, if_neg (Ne.symm hlc), hb.sequences]
          simp
      · simp only [Option.bind_eq_bind, Option.bind_some]
        by_cases hlc : lc = lifecycle
        · rw [if_pos hlc.symm, Option.toList_some, firstOf_append]
          split
          · rw [get_setDefault, if_pos hlc, hb.starts]
          · exact hb.starts lc
        · rw [if_neg (Ne.symm hlc), Option.toList_none, List.append_nil]
          split
          · rw [get_setDefault, if_neg hlc, hb.starts]
          · exact hb.starts lc
      · simp only [Option.bind_eq_bind, Option.bind_some]
        by_cases hlc : lc = lifecycle
        · rw [if_pos hlc.symm, Option.toList_some, firstOf_append]
          split
          · rw [get_setDefault, if_pos hlc, hb.ends]
          · exact hb.ends lc
        · rw [if_neg (Ne.symm hlc), Option.toList_none, List.append_nil]
          split
          · rw [get_setDefault, if_neg hlc, hb.ends]
          · exact hb.ends lc

theorem Reads.run {b : Book} {h : Lifecycle → List (Kind × Rat)} (hb : b.Reads h) (events : List Row) :
    (events.foldl Book.row b).Reads fun lc => h lc ++ history events lc := by
  induction events generalizing b h with
  | nil => simpa [history] using hb
  | cons row rest ih =>
    have hsplit (lc : Lifecycle) : history (row :: rest) lc = (entryOf lc row).toList ++ history rest lc := by
      unfold history
      cases h : entryOf lc row with
      | none => rw [List.filterMap_cons_none h]; rfl
      | some r => rw [List.filterMap_cons_some h]; rfl
    simpa only [hsplit, ← List.append_assoc, List.foldl_cons] using ih (hb.row row)

theorem reads_events (events : List Row) : (events.foldl Book.row {}).Reads (history events) := by
  have hempty : ({} : Book).Reads fun _ => [] := ⟨fun _ => rfl, fun _ => rfl, fun _ => rfl⟩
  simpa using hempty.run events

end Book

section Stretches
variable {last lo : Rat} {opened : Option Rat} {started : Bool} {entries : List (Kind × Rat)} {s : Rat × Rat}

structure Consecutive (lo hi : Rat) (ss : List (Rat × Rat)) : Prop where
  apart : ss.Pairwise fun s t => s.2 ≤ t.1
  wellFormed : Sweep.WellFormed ss
  within : ∀ s ∈ ss, lo ≤ s.1 ∧ s.2 ≤ hi

theorem mem_closed {stamp : Rat} (h : s ∈ closed opened stamp) :
    opened = some s.1 ∧ s.2 = stamp ∧ s.1 ≤ s.2 := by
  unfold closed at h
  split at h
  · cases h
  · split at h
    · rename_i hle
      obtain rfl := List.mem_singleton.mp h
      exact ⟨rfl, rfl, hle⟩
    · cases h

theorem consecutive_closed {stamp : Rat} (hlo : ∀ o, opened = some o → lo ≤ o) (hstamp : stamp ≤ last) :
    Consecutive lo last (closed opened stamp) := by
  refine ⟨?_, fun s hs => (mem_closed hs).2.2, fun s hs => ?_⟩
  · unfold closed
    split
    · exact List.Pairwise.nil
    · split
      · exact List.pairwise_singleton _ _
      · exact List.Pairwise.nil
  · obtain ⟨hopen, hend, -⟩ := mem_closed hs
    exact ⟨hlo s.1 hopen, hend ▸ hstamp⟩

theorem withheldSegments_consecutive (hsorted : (entries.map Prod.snd).Pairwise (· ≤ ·))
    (hlo : ∀ r ∈ entries, lo ≤ r.2) (hopen : ∀ o, opened = some o → lo ≤ o)
    (hlast : ∀ r ∈ entries, r.2 ≤ last) :
    Consecutive lo last (withheldSegments last opened started entries).1 := by
  induction entries generalizing opened started lo with
  | nil => exact consecutive_closed hopen le_rfl
  | cons r rest ih =>
    obtain ⟨kind, stamp⟩ := r
    rw [List.map_cons] at hsorted
    obtain ⟨hstamp, hrising⟩ := List.pairwise_cons.mp hsorted
    have hrest : ∀ r ∈ rest, lo ≤ r.2 := fun r hr => hlo r (List.mem_cons_of_mem _ hr)
    have hends : ∀ r ∈ rest, r.2 ≤ last := fun r hr => hlast r (List.mem_cons_of_mem _ hr)
    have hhead : lo ≤ stamp := hlo _ List.mem_cons_self
    cases kind with
    | started =>
      apply ih hrising hrest ?_ hends
      intro o ho
      obtain rfl := Option.some.inj ho
      cases opened with
      | none => exact hhead
      | some p => exact hopen p rfl
    | relaunched =>
      apply ih hrising hrest ?_ hends
      intro o ho
      split at ho
      · exact Option.some.inj ho ▸ hhead
      · exact hopen o ho
    | withheld =>
      have hfirst : Consecutive lo stamp (closed opened stamp) := consecutive_closed hopen le_rfl
      have hlater : ∀ r ∈ rest, stamp ≤ r.2 := fun r hr => hstamp r.2 (List.mem_map_of_mem hr)
      have hnext : Consecutive stamp last (withheldSegments last none started rest).1 :=
        ih hrising hlater (fun o ho => nomatch ho) hends
      have hbound : stamp ≤ last := hlast _ List.mem_cons_self
      refine ⟨List.pairwise_append.mpr ⟨hfirst.apart, hnext.apart, fun s hs t ht => ?_⟩, fun s hs => ?_, fun s hs => ?_⟩
      · exact (hfirst.within s hs).2.trans (hnext.within t ht).1
      · rcases List.mem_append.mp hs with hs | hs
        · exact hfirst.wellFormed s hs
        · exact hnext.wellFormed s hs
      · rcases List.mem_append.mp hs with hs | hs
        · exact ⟨(hfirst.within s hs).1, (hfirst.within s hs).2.trans hbound⟩
        · exact ⟨hhead.trans (hnext.within s hs).1, (hnext.within s hs).2⟩
    | terminal => exact consecutive_closed hopen (hlast _ List.mem_cons_self)

theorem ne_nil_of_open (hopen : ∀ o, opened = some o → o ≤ last) (hlast : ∀ r ∈ entries, r.2 ≤ last)
    (h : (withheldSegments last opened started entries).2 = true) :
    (withheldSegments last opened started entries).1 ≠ [] := by
  induction entries generalizing opened started with
  | nil =>
    obtain ⟨o, rfl⟩ := Option.isSome_iff_exists.mp h
    simp [withheldSegments, closed, hopen o rfl]
  | cons r rest ih =>
    obtain ⟨kind, stamp⟩ := r
    have hends : ∀ r ∈ rest, r.2 ≤ last := fun r hr => hlast r (List.mem_cons_of_mem _ hr)
    have hhead : stamp ≤ last := hlast _ List.mem_cons_self
    cases kind with
    | started =>
      apply ih ?_ hends h
      intro o ho
      obtain rfl := Option.some.inj ho
      cases opened with
      | none => exact hhead
      | some p => exact hopen p rfl
    | relaunched =>
      apply ih ?_ hends h
      intro o ho
      split at ho
      · exact Option.some.inj ho ▸ hhead
      · exact hopen o ho
    | withheld =>
      have hnone : ∀ o, (none : Option Rat) = some o → o ≤ last := fun o ho => nomatch ho
      intro hnil
      exact ih hnone hends h (List.append_eq_nil_iff.mp hnil).2
    | terminal => cases h

end Stretches

structure Glance where
  started : Bool := false
  ended : Bool := false
  latest : Option Kind := none

def Glance.see (g : Glance) (kind : Kind) : Glance :=
  if g.ended then g
  else match kind with
    | .terminal => { g with ended := true, latest := none }
    | .started => { g with started := true, latest := some .started }
    | .relaunched => if g.started then { g with latest := some .relaunched } else g
    | .withheld => { g with latest := some .withheld }

namespace Watch

def glance (w : Watch) (lc : Lifecycle) : Glance :=
  ⟨w.started.contains lc, w.ended.contains lc, w.latest.get lc⟩

theorem glance_row (w : Watch) (row : Row) (lc : Lifecycle) :
    (w.row row).glance lc =
      (((markOf row).filter fun m => m.1 = lc).map fun m => (w.glance lc).see m.2).getD (w.glance lc) := by
  unfold Watch.row
  cases hmark : markOf row with
  | none => rfl
  | some mark =>
    obtain ⟨lifecycle, kind⟩ := mark
    by_cases hlc : lifecycle = lc
    · subst hlc
      simp only [Option.filter_some, decide_true, if_true, Option.map_some, Option.getD_some]
      unfold Glance.see
      by_cases hended : w.ended.contains lifecycle = true
      · rw [if_pos hended, if_pos (show (w.glance lifecycle).ended = true from hended)]
      · rw [if_neg hended, if_neg (show ¬ (w.glance lifecycle).ended = true from hended)]
        cases kind with
        | started => simp [glance, Dict.get_set]
        | relaunched =>
          by_cases hstarted : w.started.contains lifecycle = true
          · simp only [glance, hstarted, if_true, Dict.get_set]
          · simp only [glance, hstarted, if_false, Bool.false_eq_true]
        | withheld => simp [glance, Dict.get_set]
        | terminal => simp [glance, Dict.get_erase]
    · simp only [Option.filter_some, hlc, decide_false, Bool.false_eq_true, if_false, Option.map_none,
        Option.getD_none]
      have hne : lc ≠ lifecycle := Ne.symm hlc
      split
      · rfl
      · cases kind with
        | started => simp [glance, Dict.get_set, hne]
        | relaunched =>
          dsimp only
          split
          · simp [glance, Dict.get_set, hne]
          · rfl
        | withheld => simp [glance, Dict.get_set, hne]
        | terminal => simp [glance, Dict.get_erase, hne]

def kinds (events : List Row) (lc : Lifecycle) : List Kind :=
  events.filterMap fun row => ((markOf row).filter fun m => m.1 = lc).map Prod.snd

theorem glance_run (w : Watch) (events : List Row) (lc : Lifecycle) :
    (events.foldl Watch.row w).glance lc = (kinds events lc).foldl Glance.see (w.glance lc) := by
  induction events generalizing w with
  | nil => rfl
  | cons row rest ih =>
    rw [List.foldl_cons, ih, glance_row]
    unfold kinds
    cases h : (markOf row).filter fun m => m.1 = lc with
    | none => rw [List.filterMap_cons_none (by rw [h]; rfl)]; rfl
    | some m => rw [List.filterMap_cons_some (by rw [h]; rfl)]; rfl

end Watch

theorem mem_withheldLifecycles :
    lc ∈ withheldLifecycles events ↔ ((Watch.kinds events lc).foldl Glance.see {}).latest = some .withheld := by
  have hrun : (events.foldl Watch.row {}).latest.get lc = ((Watch.kinds events lc).foldl Glance.see {}).latest :=
    congrArg Glance.latest (Watch.glance_run {} events lc)
  rw [← hrun, ← Dict.mem_rows]
  unfold withheldLifecycles
  constructor
  · intro h
    obtain ⟨r, hr, rfl⟩ := List.mem_map.mp h
    obtain ⟨hmem, hkind⟩ := List.mem_filter.mp hr
    exact of_decide_eq_true hkind ▸ hmem
  · intro h
    exact List.mem_map.mpr ⟨_, List.mem_filter.mpr ⟨h, decide_eq_true rfl⟩, rfl⟩

section Flags
variable {last : Rat} {opened : Option Rat} {started : Bool} {entries : List (Kind × Rat)}

namespace Glance

def inFlight (g : Glance) : Bool := g.latest = some .started || g.latest = some .relaunched

theorem run_of_ended {g : Glance} (h : g.ended = true) (kinds : List Kind) : kinds.foldl see g = g := by
  induction kinds with
  | nil => rfl
  | cons kind kinds ih =>
    rw [List.foldl_cons]
    unfold see
    rw [if_pos h]
    exact ih

theorem open_iff_inFlight {g : Glance} (hended : g.ended = false) (hstarted : g.started = started)
    (hopen : opened.isSome = g.inFlight) :
    (withheldSegments last opened started entries).2 = ((entries.map Prod.fst).foldl see g).inFlight := by
  induction entries generalizing opened started g with
  | nil => exact hopen
  | cons r rest ih =>
    obtain ⟨kind, stamp⟩ := r
    rw [List.map_cons, List.foldl_cons]
    have hsee : ¬ g.ended = true := by simp [hended]
    cases kind with
    | started =>
      apply ih
      · simp [see, hended]
      · simp [see, hended]
      · simp [see, hended, inFlight]
    | relaunched =>
      apply ih
      · simp only [see, hended, Bool.false_eq_true, if_false]
        split
        · rfl
        · exact hended
      · simp only [see, hended, Bool.false_eq_true, if_false]
        split
        · exact hstarted
        · exact hstarted
      · simp only [see, hended, Bool.false_eq_true, if_false, hstarted]
        cases started with
        | false => simpa using hopen
        | true =>
          cases opened with
          | none => simp [inFlight]
          | some o => simp [inFlight]
    | withheld =>
      apply ih
      · simp [see, hended]
      · simpa [see, hended] using hstarted
      · simp [see, hended, inFlight]
    | terminal =>
      have hover : (see g .terminal).ended = true := by simp [see, hended]
      rw [run_of_ended hover]
      simp [withheldSegments, see, hended, inFlight]

structure Alive (g : Glance) : Prop where
  ended : g.ended = false
  terminal : g.latest ≠ some .terminal
  started : g.started = true → g.latest.isSome = true

theorem Alive.run {g : Glance} (h : g.Alive) {kinds : List Kind} (hend : .terminal ∉ kinds) :
    (kinds.foldl see g).Alive ∧ (g.started = true ∨ .started ∈ kinds → (kinds.foldl see g).started = true) := by
  induction kinds generalizing g with
  | nil => exact ⟨h, fun hs => hs.resolve_right (List.not_mem_nil)⟩
  | cons kind kinds ih =>
    rw [List.mem_cons, not_or] at hend
    have hnext : (g.see kind).Alive ∧ (g.started = true ∨ .started = kind → (g.see kind).started = true) := by
      unfold see
      rw [if_neg (by simp [h.ended])]
      cases kind with
      | started => exact ⟨⟨h.ended, by simp, fun _ => rfl⟩, fun _ => rfl⟩
      | relaunched =>
        dsimp only
        split
        · rename_i hs
          exact ⟨⟨h.ended, by simp, fun _ => rfl⟩, fun _ => hs⟩
        · exact ⟨h, fun hs => hs.resolve_right (by simp)⟩
      | withheld => exact ⟨⟨h.ended, by simp, fun _ => rfl⟩, fun hs => hs.resolve_right (by simp)⟩
      | terminal => exact absurd rfl hend.1
    obtain ⟨halive, hstarted⟩ := ih hnext.1 hend.2
    refine ⟨halive, fun hs => hstarted ?_⟩
    rw [List.mem_cons, ← or_assoc] at hs
    exact hs.imp_left hnext.2

theorem Alive.inFlight_iff {g : Glance} (h : g.Alive) (hstarted : g.started = true) :
    g.inFlight = true ↔ g.latest ≠ some .withheld := by
  obtain ⟨kind, hkind⟩ := Option.isSome_iff_exists.mp (h.started hstarted)
  have hterminal := h.terminal
  unfold inFlight
  rw [hkind] at hterminal ⊢
  cases kind with
  | started => simp
  | relaunched => simp
  | withheld => simp
  | terminal => exact absurd rfl hterminal

theorem not_inFlight_of_terminal {g : Glance} {kinds : List Kind} (hend : .terminal ∈ kinds)
    (hg : g.ended = true → g.latest = none) : (kinds.foldl see g).inFlight = false := by
  induction kinds generalizing g with
  | nil => cases hend
  | cons kind kinds ih =>
    by_cases hover : (g.see kind).ended = true
    · rw [List.foldl_cons, run_of_ended hover]
      have hnone : (g.see kind).latest = none := by
        unfold see at hover ⊢
        split
        · rename_i h
          exact hg h
        · rename_i h
          rw [if_neg h] at hover
          cases kind with
          | started => exact absurd hover h
          | relaunched =>
            dsimp only at hover ⊢
            split at hover
            · exact absurd hover h
            · exact absurd hover h
          | withheld => exact absurd hover h
          | terminal => rfl
      simp [inFlight, hnone]
    · rcases List.mem_cons.mp hend with rfl | hend
      · unfold see at hover
        split at hover
        · rename_i h
          exact absurd h hover
        · exact absurd rfl hover
      · exact ih hend fun h => absurd h hover

theorem withheld_mem_of_latest {g : Glance} {kinds : List Kind} (h : (kinds.foldl see g).latest = some .withheld)
    (hnot : g.latest ≠ some .withheld) : .withheld ∈ kinds := by
  induction kinds generalizing g with
  | nil => exact absurd h hnot
  | cons kind kinds ih =>
    by_cases hkind : kind = .withheld
    · exact hkind ▸ List.mem_cons_self
    · apply List.mem_cons_of_mem _ (ih h ?_)
      unfold see
      split
      · exact hnot
      · cases kind with
        | started => simp
        | relaunched =>
          dsimp only
          split
          · simp
          · exact hnot
        | withheld => exact absurd rfl hkind
        | terminal => simp

end Glance

end Flags

/-- Every row has a finite stamp, and no stamp falls. -/
structure InOrder (events : List Row) : Prop where
  stamped : ∀ row ∈ events, (stampOf row).isSome = true
  sorted : (events.filterMap stampOf).Pairwise (· ≤ ·)

def Starts (events : List Row) (lc : Lifecycle) : Prop := ∃ row ∈ events, markOf row = some (lc, .started)

def Ends (events : List Row) (lc : Lifecycle) : Prop := ∃ row ∈ events, markOf row = some (lc, .terminal)

/-- The first stamp of the log, which the report measures from. -/
def origin (events : List Row) : Rat :=
  match events.filterMap stampOf with
  | [] => 0
  | stamp :: stamps => leastOf stamp stamps

/-- The started lifecycles, each with its busy stretches and whether it is counted open. -/
def pairings (events : List Row) : List (Lifecycle × List (Rat × Rat) × Bool) :=
  match events.filterMap stampOf with
  | [] => []
  | stamp :: stamps => (events.foldl Book.row {}).paired (greatestOf stamp stamps)

section Histories

theorem mem_history {r : Kind × Rat} :
    r ∈ history events lc ↔ ∃ row ∈ events, markOf row = some (lc, r.1) ∧ stampOf row = some r.2 := by
  have hentry (row : Row) : entryOf lc row = some r ↔ markOf row = some (lc, r.1) ∧ stampOf row = some r.2 := by
    obtain ⟨kind, stamp⟩ := r
    unfold entryOf
    cases hstamp : stampOf row with
    | none => simp
    | some t =>
      cases hmark : markOf row with
      | none => simp
      | some mark =>
        obtain ⟨lifecycle, k⟩ := mark
        simp only [Option.bind_eq_bind, Option.bind_some, Option.some.injEq, Prod.mk.injEq]
        split
        · simp_all
        · simp_all
  simp only [history, List.mem_filterMap, hentry]

variable (h : InOrder events)
include h

theorem mem_kinds_iff {kind : Kind} :
    kind ∈ (history events lc).map Prod.fst ↔ ∃ row ∈ events, markOf row = some (lc, kind) := by
  constructor
  · intro hmem
    obtain ⟨r, hr, rfl⟩ := List.mem_map.mp hmem
    obtain ⟨row, hrow, hmark, -⟩ := mem_history.mp hr
    exact ⟨row, hrow, hmark⟩
  · rintro ⟨row, hrow, hmark⟩
    obtain ⟨stamp, hstamp⟩ := Option.isSome_iff_exists.mp (h.stamped row hrow)
    exact List.mem_map.mpr ⟨(kind, stamp), mem_history.mpr ⟨row, hrow, hmark, hstamp⟩, rfl⟩

theorem kinds_eq_history : Watch.kinds events lc = (history events lc).map Prod.fst := by
  unfold Watch.kinds history
  rw [List.map_filterMap]
  apply List.filterMap_congr
  intro row hrow
  obtain ⟨stamp, hstamp⟩ := Option.isSome_iff_exists.mp (h.stamped row hrow)
  unfold entryOf
  rw [hstamp]
  cases hmark : markOf row with
  | none => rfl
  | some mark =>
    obtain ⟨lifecycle, kind⟩ := mark
    by_cases hlc : lifecycle = lc
    · simp [hlc]
    · simp [hlc]

theorem history_sorted : ((history events lc).map Prod.snd).Pairwise (· ≤ ·) := by
  have hsub : ((history events lc).map Prod.snd).Sublist (events.filterMap stampOf) := by
    unfold history
    rw [List.map_filterMap]
    clear h
    induction events with
    | nil => exact List.Sublist.refl _
    | cons row rest ih =>
      cases hentry : entryOf lc row with
      | none =>
        rw [List.filterMap_cons_none (by rw [hentry]; rfl)]
        exact ih.trans ((List.sublist_cons_self row rest).filterMap stampOf)
      | some r =>
        have hmem : r ∈ history [row] lc := List.mem_filterMap.mpr ⟨row, List.mem_singleton_self row, hentry⟩
        obtain ⟨row', hrow, -, hstamp⟩ := mem_history.mp hmem
        rw [List.mem_singleton.mp hrow] at hstamp
        rw [List.filterMap_cons_some (by rw [hentry]; rfl), List.filterMap_cons_some hstamp]
        exact ih.cons_cons _
  exact h.sorted.sublist hsub

end Histories

theorem leastOf_le (x : Rat) (xs : List Rat) {y : Rat} (hy : y ∈ x :: xs) : leastOf x xs ≤ y := by
  unfold leastOf
  induction xs generalizing x y with
  | nil => exact List.mem_singleton.mp hy ▸ le_rfl
  | cons z zs ih =>
    have hfirst : zs.foldl min (min x z) ≤ min x z := ih (min x z) List.mem_cons_self
    rcases List.mem_cons.mp hy with rfl | hy
    · exact hfirst.trans (min_le_left _ _)
    · rcases List.mem_cons.mp hy with rfl | hy
      · exact hfirst.trans (min_le_right _ _)
      · exact ih (min x z) (List.mem_cons_of_mem _ hy)

theorem le_greatestOf (x : Rat) (xs : List Rat) {y : Rat} (hy : y ∈ x :: xs) : y ≤ greatestOf x xs := by
  unfold greatestOf
  induction xs generalizing x y with
  | nil => exact List.mem_singleton.mp hy ▸ le_rfl
  | cons z zs ih =>
    have hfirst : max x z ≤ zs.foldl max (max x z) := ih (max x z) List.mem_cons_self
    rcases List.mem_cons.mp hy with rfl | hy
    · exact (le_max_left _ _).trans hfirst
    · rcases List.mem_cons.mp hy with rfl | hy
      · exact (le_max_right _ _).trans hfirst
      · exact ih (max x z) (List.mem_cons_of_mem _ hy)

section Pairings
variable {stamp : Rat} {stamps : List Rat} (h : InOrder events) (hstamps : events.filterMap stampOf = stamp :: stamps)

theorem stamp_bounds (hstamps : events.filterMap stampOf = stamp :: stamps) {r : Kind × Rat}
    (hr : r ∈ history events lc) : leastOf stamp stamps ≤ r.2 ∧ r.2 ≤ greatestOf stamp stamps := by
  obtain ⟨row, hrow, -, hstamp⟩ := mem_history.mp hr
  have hmem : r.2 ∈ stamp :: stamps := hstamps ▸ List.mem_filterMap.mpr ⟨row, hrow, hstamp⟩
  exact ⟨leastOf_le _ _ hmem, le_greatestOf _ _ hmem⟩

theorem firstOf_mem {kind : Kind} {entries : List (Kind × Rat)} {t : Rat} (hfirst : firstOf kind entries = some t) :
    (kind, t) ∈ entries := by
  obtain ⟨r, hr, rfl⟩ := Option.map_eq_some_iff.mp hfirst
  have hkind : r.1 = kind := by simpa using List.find?_some hr
  exact hkind ▸ List.mem_of_find?_eq_some hr

theorem firstOf_eq_none {kind : Kind} {entries : List (Kind × Rat)} :
    firstOf kind entries = none ↔ kind ∉ entries.map Prod.fst := by
  unfold firstOf
  rw [Option.map_eq_none_iff, List.find?_eq_none, List.mem_map]
  constructor
  · rintro hnone ⟨r, hr, hkind⟩
    exact hnone r hr (decide_eq_true hkind)
  · intro hnot r hr hkind
    exact hnot ⟨r, hr, of_decide_eq_true hkind⟩

theorem mem_paired {last : Rat} {p : Lifecycle × List (Rat × Rat) × Bool}
    (hp : p ∈ (events.foldl Book.row {}).paired last) :
    ∃ start, firstOf .started (history events p.1) = some start ∧
      p.2 = (events.foldl Book.row {}).stretches last p.1 start := by
  obtain ⟨⟨lifecycle, start⟩, hr, rfl⟩ := List.mem_map.mp hp
  have hget := Dict.mem_rows.mp (List.mem_mergeSort.mp hr)
  exact ⟨start, (Book.reads_events events).starts lifecycle ▸ hget, rfl⟩

theorem keys_paired (last : Rat) :
    (((events.foldl Book.row {}).paired last).map Prod.fst).Perm
      ((events.foldl Book.row {}).starts.rows.map Prod.fst) := by
  unfold Book.paired
  rw [List.map_map]
  exact (List.mergeSort_perm _ _).map Prod.fst

include h hstamps

theorem stretches_consecutive {start : Rat} (hstart : firstOf .started (history events lc) = some start) :
    Consecutive (leastOf stamp stamps) (greatestOf stamp stamps)
      ((events.foldl Book.row {}).stretches (greatestOf stamp stamps) lc start).1 := by
  have hreads := Book.reads_events events
  have hbounds : ∀ o, some start = some o → leastOf stamp stamps ≤ o := by
    intro o ho
    exact Option.some.inj ho ▸ (stamp_bounds hstamps (firstOf_mem hstart)).1
  unfold Book.stretches
  dsimp only
  split
  · rw [hreads.sequences]
    exact withheldSegments_consecutive (history_sorted h) (fun r hr => (stamp_bounds hstamps hr).1)
      (fun o ho => nomatch ho) fun r hr => (stamp_bounds hstamps hr).2
  · split
    · exact consecutive_closed hbounds le_rfl
    · rename_i finish hfinish
      rw [hreads.ends] at hfinish
      exact consecutive_closed hbounds (stamp_bounds hstamps (firstOf_mem hfinish)).2

omit h in
theorem ne_nil_of_counted {start : Rat} (hstart : firstOf .started (history events lc) = some start)
    (hopen : ((events.foldl Book.row {}).stretches (greatestOf stamp stamps) lc start).2 = true) :
    ((events.foldl Book.row {}).stretches (greatestOf stamp stamps) lc start).1 ≠ [] := by
  have hreads := Book.reads_events events
  unfold Book.stretches at hopen ⊢
  dsimp only at hopen ⊢
  split at hopen
  · rename_i hwithheld
    rw [if_pos hwithheld]
    rw [hreads.sequences] at hopen ⊢
    exact ne_nil_of_open (fun o ho => nomatch ho) (fun r hr => (stamp_bounds hstamps hr).2) hopen
  · rename_i hplain
    rw [if_neg hplain]
    split at hopen
    · simp [closed, (stamp_bounds hstamps (firstOf_mem hstart)).2]
    · cases hopen

omit hstamps in
theorem counted_iff {last start : Rat} (hstart : firstOf .started (history events lc) = some start) :
    ((events.foldl Book.row {}).stretches last lc start).2 = true ↔
      ¬ Ends events lc ∧ lc ∉ withheldLifecycles events := by
  have hreads := Book.reads_events events
  have hends : Ends events lc ↔ .terminal ∈ (history events lc).map Prod.fst := (mem_kinds_iff h).symm
  have hstarts : .started ∈ (history events lc).map Prod.fst := List.mem_map_of_mem (firstOf_mem hstart)
  rw [hends, mem_withheldLifecycles, kinds_eq_history h]
  unfold Book.stretches
  dsimp only
  rw [hreads.sequences, hreads.ends]
  split
  · rw [Glance.open_iff_inFlight (g := {}) rfl rfl rfl]
    by_cases hend : .terminal ∈ (history events lc).map Prod.fst
    · simp only [hend, not_true_eq_false, false_and, iff_false]
      rw [Glance.not_inFlight_of_terminal hend (by simp)]
      simp
    · obtain ⟨halive, hstarted⟩ := Glance.Alive.run (g := {}) ⟨rfl, by simp, by simp⟩ hend
      rw [halive.inFlight_iff (hstarted (Or.inr hstarts))]
      simp only [hend, not_false_eq_true, true_and, ne_eq]
  · rename_i hplain
    have hnever : .withheld ∉ (history events lc).map Prod.fst := by
      intro hmem
      obtain ⟨r, hr, hkind⟩ := List.mem_map.mp hmem
      exact hplain (List.any_eq_true.mpr ⟨r, hr, decide_eq_true hkind⟩)
    have hlatest : ((history events lc).map Prod.fst |>.foldl Glance.see {}).latest ≠ some .withheld :=
      fun hlatest => hnever (Glance.withheld_mem_of_latest hlatest (by simp))
    split
    · rename_i hnone
      exact iff_of_true rfl ⟨firstOf_eq_none.mp hnone, hlatest⟩
    · rename_i finish hfinish
      apply iff_of_false (by simp)
      rintro ⟨hend, -⟩
      exact hend (List.mem_map_of_mem (firstOf_mem hfinish))

end Pairings

section Figures
variable {spans : List (Rat × Rat)} {t0 last : Rat}

theorem linear_pairLe : LinearBool pairLe where
  trans a b c hab hbc := by
    simp only [pairLe, Bool.or_eq_true, Bool.and_eq_true, decide_eq_true_eq] at *
    grind
  total a b := by
    simp only [pairLe, Bool.or_eq_true, Bool.and_eq_true, decide_eq_true_eq]
    grind
  antisymm a b hab hba := by
    simp only [pairLe, Bool.or_eq_true, Bool.and_eq_true, decide_eq_true_eq] at *
    apply Prod.ext
    · grind
    · grind

theorem merged_spec (hwf : Sweep.WellFormed spans) :
    Sweep.Separated (Sweep.merge (spans.mergeSort pairLe)) ∧
      Sweep.WellFormed (Sweep.merge (spans.mergeSort pairLe)) ∧
      ∀ x, Sweep.Covered (Sweep.merge (spans.mergeSort pairLe)) x ↔ Sweep.Covered spans x := by
  have hstarts : (spans.mergeSort pairLe).Pairwise fun s t => s.1 ≤ t.1 := by
    apply (linear_pairLe.sorted spans).imp
    intro s t hst
    simp only [pairLe, Bool.or_eq_true, Bool.and_eq_true, decide_eq_true_eq] at hst
    rcases hst with hlt | ⟨heq, -⟩
    · exact hlt.le
    · exact heq.le
  obtain ⟨hsep, hmerged, hcover⟩ := Sweep.merge_spec hstarts fun s hs => hwf s (List.mem_mergeSort.mp hs)
  exact ⟨hsep, hmerged, fun x => (hcover x).trans (Sweep.covered_congr fun _ => List.mem_mergeSort)⟩

theorem mem_pointsOf {x : Rat} :
    x ∈ pointsOf spans t0 last ↔ (∃ s ∈ spans, x = s.1 ∨ x = s.2) ∨ x = t0 ∨ x = last := by
  simp only [pointsOf, List.mem_mergeSort, List.mem_eraseDups, List.mem_append, List.mem_flatMap, List.mem_cons,
    List.not_mem_nil, or_false]

theorem pointsOf_sorted : (pointsOf spans t0 last).Pairwise (· ≤ ·) := by
  have hle : (pointsOf spans t0 last).Pairwise fun x y => decide (x ≤ y) = true := by
    apply List.pairwise_mergeSort
    · simpa using fun a b c => le_trans
    · simpa using le_total
  exact hle.imp fun h => of_decide_eq_true h

theorem tally_concurrencyOf (w : Int → Rat) (width : Option Int) (points : List Rat) :
    (concurrencyOf width spans points).tally (fun level seconds => w level * seconds) =
      ((Sweep.steps points).map fun p => w (levelOf width spans p) * Sweep.length p).sum := by
  have hrun (d : Dict Int Rat) (ps : List (Rat × Rat)) :
      (ps.foldl (fun d step =>
        let level := levelOf width spans step
        d.set level ((d.get level).getD 0 + (step.2 - step.1))) d).tally (fun level seconds => w level * seconds) =
      (ps.map fun p => w (levelOf width spans p) * Sweep.length p).sum +
        d.tally fun level seconds => w level * seconds := by
    induction ps generalizing d with
    | nil => exact (zero_add _).symm
    | cons p ps ih =>
      rw [List.foldl_cons, ih, Dict.tally_add (fun b => by rw [mul_add, add_comm]), List.map_cons, List.sum_cons,
        ← add_assoc, add_comm (List.sum _)]
      rfl
  have hall := hrun Table.empty (Sweep.steps points)
  exact hall.trans (add_zero _)

variable (hwithin : ∀ s ∈ spans, t0 ≤ s.1 ∧ s.1 ≤ s.2 ∧ s.2 ≤ last)
include hwithin

theorem seconds_eq (hrun : t0 ≤ last) (width : Option Int) :
    (concurrencyOf width spans (pointsOf spans t0 last)).tally (fun _ seconds => seconds) = last - t0 := by
  have hone := @tally_concurrencyOf spans (fun _ => 1) width (pointsOf spans t0 last)
  simp only [one_mul] at hone
  rw [hone]
  apply Sweep.total_steps pointsOf_sorted
  · exact mem_pointsOf.mpr (Or.inr (Or.inl rfl))
  · exact mem_pointsOf.mpr (Or.inr (Or.inr rfl))
  · intro x hx
    rcases mem_pointsOf.mp hx with ⟨s, hs, rfl | rfl⟩ | rfl | rfl
    · exact ⟨(hwithin s hs).1, (hwithin s hs).2.1.trans (hwithin s hs).2.2⟩
    · exact ⟨(hwithin s hs).1.trans (hwithin s hs).2.1, (hwithin s hs).2.2⟩
    · exact ⟨le_rfl, hrun⟩
    · exact ⟨hrun, le_rfl⟩

theorem weighted_eq :
    (concurrencyOf none spans (pointsOf spans t0 last)).tally (fun (level : Int) seconds => (level : Rat) * seconds) =
      Sweep.total spans := by
  have hlive : ((Sweep.steps (pointsOf spans t0 last)).map fun p => Sweep.live spans p • Sweep.length p).sum =
      Sweep.total spans := by
    apply Sweep.sum_live pointsOf_sorted ?_ fun s hs => (hwithin s hs).2.1
    intro s hs
    exact ⟨mem_pointsOf.mpr (Or.inl ⟨s, hs, Or.inl rfl⟩), mem_pointsOf.mpr (Or.inl ⟨s, hs, Or.inr rfl⟩)⟩
  rw [tally_concurrencyOf (fun level => (level : Rat)) none, ← hlive]
  apply congrArg List.sum
  apply List.map_congr_left
  intro p _
  simp only [levelOf, Int.cast_natCast, nsmul_eq_mul]

end Figures

/-- The reported stretches, offsets from the first stamp. -/
def Report.spans (r : Report) : List (Rat × Rat) := r.intervals.map fun i => (i.1, i.2.1)

/-- What a report conserves of the events it was folded from. -/
structure Conserves (events : List Row) (r : Report) : Prop where
  once : ((pairings events).map Prod.fst).Nodup
  paired : ∀ lc, lc ∈ (pairings events).map Prod.fst ↔ Starts events lc
  reported : r.intervals = (pairings events).flatMap fun p =>
    p.2.1.map fun s => (s.1 - origin events, s.2 - origin events, p.1.1)
  apart : ∀ p ∈ pairings events, Sweep.WellFormed p.2.1 ∧ p.2.1.Pairwise fun s t => s.2 ≤ t.1
  seconds : r.intervals ≠ [] → r.concurrency.tally (fun _ seconds => seconds) = r.runSeconds
  weighted : r.intervals ≠ [] → r.width = none →
    r.concurrency.tally (fun (level : Int) seconds => (level : Rat) * seconds) = Sweep.total r.spans
  windows : ∀ u v, (u, v) ∈ r.deadWindows ↔ Sweep.MaximalGap (Sweep.Covered r.spans) u v
  ordered : r.deadWindows.Pairwise fun v w => v.2 ≤ w.1
  dead : r.deadSeconds = Sweep.total r.deadWindows ∧ r.deadSeconds ≤ r.spanSeconds
  counted : r.openIntervals = (pairings events).countP fun p => p.2.2
  open_iff : ∀ p ∈ pairings events, ¬ Ends events p.1 → (p.2.2 = true ↔ p.1 ∉ withheldLifecycles events)
  closed : ∀ p ∈ pairings events, Ends events p.1 → p.2.2 = false

theorem pairings_eq {stamp : Rat} {stamps : List Rat} (hstamps : events.filterMap stampOf = stamp :: stamps) :
    pairings events = (events.foldl Book.row {}).paired (greatestOf stamp stamps) := by
  unfold pairings
  rw [hstamps]

theorem origin_eq {stamp : Rat} {stamps : List Rat} (hstamps : events.filterMap stampOf = stamp :: stamps) :
    origin events = leastOf stamp stamps := by
  unfold origin
  rw [hstamps]

section Rows
variable (h : InOrder events)
include h

omit h in
theorem pairings_once : ((pairings events).map Prod.fst).Nodup := by
  cases hstamps : events.filterMap stampOf with
  | nil => simp [pairings, hstamps]
  | cons stamp stamps =>
    rw [pairings_eq hstamps, (keys_paired _).nodup_iff]
    exact (events.foldl Book.row {}).starts.nodup

theorem mem_pairings : lc ∈ (pairings events).map Prod.fst ↔ Starts events lc := by
  have hstarts : Starts events lc ↔ .started ∈ (history events lc).map Prod.fst := (mem_kinds_iff h).symm
  rw [hstarts]
  cases hstamps : events.filterMap stampOf with
  | nil =>
    simp only [pairings, hstamps, List.map_nil, List.not_mem_nil, false_iff]
    intro hmem
    obtain ⟨r, hr, -⟩ := List.mem_map.mp hmem
    obtain ⟨row, hrow, -, hstamp⟩ := mem_history.mp hr
    have : r.2 ∈ events.filterMap stampOf := List.mem_filterMap.mpr ⟨row, hrow, hstamp⟩
    simp [hstamps] at this
  | cons stamp stamps =>
    rw [pairings_eq hstamps, (keys_paired _).mem_iff, Dict.mem_keys, (Book.reads_events events).starts]
    exact not_iff_comm.mp firstOf_eq_none.symm

theorem pairing_consecutive {stamp : Rat} {stamps : List Rat} (hstamps : events.filterMap stampOf = stamp :: stamps)
    {p : Lifecycle × List (Rat × Rat) × Bool} (hp : p ∈ pairings events) :
    Consecutive (leastOf stamp stamps) (greatestOf stamp stamps) p.2.1 := by
  rw [pairings_eq hstamps] at hp
  obtain ⟨start, hstart, heq⟩ := mem_paired hp
  rw [heq]
  exact stretches_consecutive h hstamps hstart

theorem pairing_apart {p : Lifecycle × List (Rat × Rat) × Bool} (hp : p ∈ pairings events) :
    Sweep.WellFormed p.2.1 ∧ p.2.1.Pairwise fun s t => s.2 ≤ t.1 := by
  cases hstamps : events.filterMap stampOf with
  | nil => simp [pairings, hstamps] at hp
  | cons stamp stamps =>
    have hspec := pairing_consecutive h hstamps hp
    exact ⟨hspec.wellFormed, hspec.apart⟩

theorem pairing_open_iff {p : Lifecycle × List (Rat × Rat) × Bool} (hp : p ∈ pairings events) :
    p.2.2 = true ↔ ¬ Ends events p.1 ∧ p.1 ∉ withheldLifecycles events := by
  cases hstamps : events.filterMap stampOf with
  | nil => simp [pairings, hstamps] at hp
  | cons stamp stamps =>
    rw [pairings_eq hstamps] at hp
    obtain ⟨start, hstart, heq⟩ := mem_paired hp
    rw [heq]
    exact counted_iff h hstart

omit h in
theorem pairing_ne_nil {p : Lifecycle × List (Rat × Rat) × Bool} (hp : p ∈ pairings events) (hopen : p.2.2 = true) :
    p.2.1 ≠ [] := by
  cases hstamps : events.filterMap stampOf with
  | nil => simp [pairings, hstamps] at hp
  | cons stamp stamps =>
    rw [pairings_eq hstamps] at hp
    obtain ⟨start, hstart, heq⟩ := mem_paired hp
    rw [heq] at hopen ⊢
    exact ne_nil_of_counted hstamps hstart hopen

end Rows

theorem no_gap_of_nil {u v : Rat} : ¬ Sweep.MaximalGap (Sweep.Covered ([] : List (Rat × Rat))) u v := by
  rintro ⟨⟨-, -, ⟨x, -, s, hs, -⟩, -⟩, -⟩
  cases hs

theorem conserves_of_nil (h : InOrder events) {r : Report} (hnone : ∀ p ∈ pairings events, p.2.1 = [])
    (hintervals : r.intervals = []) (hwindows : r.deadWindows = []) (hdead : r.deadSeconds = 0)
    (hspan : r.spanSeconds = 0) (hopen : r.openIntervals = 0) : Conserves events r where
  once := pairings_once
  paired _ := mem_pairings h
  reported := by
    rw [hintervals]
    symm
    apply List.flatMap_eq_nil_iff.mpr
    intro p hp
    rw [hnone p hp, List.map_nil]
  apart _ hp := pairing_apart h hp
  seconds hne := absurd hintervals hne
  weighted hne := absurd hintervals hne
  windows u v := by
    rw [hwindows, Report.spans, hintervals]
    exact iff_of_false List.not_mem_nil no_gap_of_nil
  ordered := by
    rw [hwindows]
    exact List.Pairwise.nil
  dead := by
    rw [hwindows, hdead, hspan]
    exact ⟨rfl, le_rfl⟩
  counted := by
    rw [hopen]
    symm
    apply List.countP_eq_zero.mpr
    intro p hp hcounted
    exact pairing_ne_nil hp hcounted (hnone p hp)
  open_iff p hp hend := (pairing_open_iff h hp).trans (and_iff_right hend)
  closed p hp hend := by
    rw [← Bool.not_eq_true, pairing_open_iff h hp]
    exact fun hopen => hopen.1 hend

section Report
variable {stamp : Rat} {stamps : List Rat} {first : Rat × Rat} {rest : List (Rat × Rat)}

theorem evalOccupancy_of_nil (width : Option Int) (hstamps : events.filterMap stampOf = stamp :: stamps)
    (hspans : (pairings events).flatMap (fun p => p.2.1) = []) :
    evalOccupancy events width =
      { runSeconds := greatestOf stamp stamps - leastOf stamp stamps
        bootstrapSeconds := greatestOf stamp stamps - leastOf stamp stamps
        width } := by
  rw [pairings_eq hstamps] at hspans
  unfold evalOccupancy
  rw [hstamps]
  simp only [List.map_flatMap, List.map_map, Function.comp_def, Prod.mk.eta, List.map_id', hspans]

theorem evalOccupancy_of_cons (width : Option Int) (hstamps : events.filterMap stampOf = stamp :: stamps)
    (hspans : (pairings events).flatMap (fun p => p.2.1) = first :: rest) :
    evalOccupancy events width =
      let t0 := leastOf stamp stamps
      let last := greatestOf stamp stamps
      let span := last - leastOf first.1 (rest.map Prod.fst)
      let deadWindows := (Sweep.gaps (Sweep.merge ((first :: rest).mergeSort pairLe))).map fun w => (w.1 - t0, w.2 - t0)
      { runSeconds := last - t0
        bootstrapSeconds := leastOf first.1 (rest.map Prod.fst) - t0
        spanSeconds := span
        deadSeconds := Sweep.total deadWindows
        deadShare := if 0 < span then Sweep.total deadWindows / span else 0
        deadWindows
        concurrency := concurrencyOf width (first :: rest) (pointsOf (first :: rest) t0 last)
        intervals := (pairings events).flatMap fun p => p.2.1.map fun s => (s.1 - t0, s.2 - t0, p.1.1)
        openIntervals := (pairings events).countP fun p => p.2.2
        width } := by
  rw [pairings_eq hstamps] at hspans ⊢
  unfold evalOccupancy
  rw [hstamps]
  simp only [List.map_flatMap, List.map_map, Function.comp_def, Prod.mk.eta, List.map_id', hspans]

theorem covered_shift (spans : List (Rat × Rat)) (t x : Rat) :
    Sweep.Covered (spans.map fun s => (s.1 - t, s.2 - t)) x ↔ Sweep.Covered spans (x + t) := by
  constructor
  · rintro ⟨s, hs, hlo, hhi⟩
    obtain ⟨r, hr, rfl⟩ := List.mem_map.mp hs
    exact ⟨r, hr, sub_le_iff_le_add.mp hlo, le_sub_iff_add_le.mp hhi⟩
  · rintro ⟨r, hr, hlo, hhi⟩
    exact ⟨_, List.mem_map_of_mem hr, sub_le_iff_le_add.mpr hlo, le_sub_iff_add_le.mpr hhi⟩

theorem total_shift (spans : List (Rat × Rat)) (t : Rat) :
    Sweep.total (spans.map fun s => (s.1 - t, s.2 - t)) = Sweep.total spans := by
  unfold Sweep.total
  rw [List.map_map]
  apply congrArg List.sum
  apply List.map_congr_left
  intro s _
  exact sub_sub_sub_cancel_right _ _ _

theorem dead_le_span {spans : List (Rat × Rat)} {last : Rat} (hspans : spans = first :: rest)
    (hwithin : ∀ s ∈ spans, s.1 ≤ s.2 ∧ s.2 ≤ last) :
    Sweep.total (Sweep.gaps (Sweep.merge (spans.mergeSort pairLe))) ≤ last - leastOf first.1 (rest.map Prod.fst) := by
  obtain ⟨hsep, hwf, hcover⟩ := merged_spec fun s hs => (hwithin s hs).1
  have hstart (s : Rat × Rat) (hs : s ∈ spans) : leastOf first.1 (rest.map Prod.fst) ≤ s.1 := by
    apply leastOf_le
    rw [← List.map_cons (f := Prod.fst), ← hspans]
    exact List.mem_map_of_mem hs
  have hbusy (x : Rat) (hx : Sweep.Covered (Sweep.merge (spans.mergeSort pairLe)) x) :
      leastOf first.1 (rest.map Prod.fst) ≤ x ∧ x ≤ last := by
    obtain ⟨s, hs, hlo, hhi⟩ := (hcover x).mp hx
    exact ⟨(hstart s hs).trans hlo, hhi.trans (hwithin s hs).2⟩
  have hends (s : Rat × Rat) (hs : s ∈ Sweep.merge (spans.mergeSort pairLe)) :
      leastOf first.1 (rest.map Prod.fst) ≤ s.2 ∧ s.2 ≤ last :=
    hbusy s.2 ⟨s, hs, hwf s hs, le_rfl⟩
  cases hmerged : Sweep.merge (spans.mergeSort pairLe) with
  | nil =>
    have hfirst : first ∈ spans := hspans ▸ List.mem_cons_self
    have hlast := (hstart first hfirst).trans ((hwithin first hfirst).1.trans (hwithin first hfirst).2)
    exact sub_nonneg.mpr hlast
  | cons m ms =>
    rw [hmerged] at hsep hwf hends
    apply (Sweep.total_gaps_le hsep hwf fun t ht => (hends t ht).2).trans
    exact sub_le_sub_left (hends m List.mem_cons_self).1 _

end Report

/-- Over rows whose finite stamps never fall, the occupancy report conserves time. -/
theorem occupancy_conserves_time (events : List Row) (width : Option Int) (h : InOrder events) :
    Conserves events (evalOccupancy events width) := by
  cases hstamps : events.filterMap stampOf with
  | nil =>
    have hreport : evalOccupancy events width = { width } := by
      unfold evalOccupancy
      rw [hstamps]
    rw [hreport]
    apply conserves_of_nil h
    · simp [pairings, hstamps]
    all_goals rfl
  | cons stamp stamps =>
    cases hspans : (pairings events).flatMap fun p => p.2.1 with
    | nil =>
      rw [evalOccupancy_of_nil width hstamps hspans]
      apply conserves_of_nil h (List.flatMap_eq_nil_iff.mp hspans)
      all_goals rfl
    | cons first rest =>
      have hwithin : ∀ s ∈ first :: rest,
          leastOf stamp stamps ≤ s.1 ∧ s.1 ≤ s.2 ∧ s.2 ≤ greatestOf stamp stamps := by
        intro s hs
        obtain ⟨p, hp, hsp⟩ := List.mem_flatMap.mp (hspans ▸ hs)
        have hspec := pairing_consecutive h hstamps hp
        exact ⟨(hspec.within s hsp).1, hspec.wellFormed s hsp, (hspec.within s hsp).2⟩
      have hrun : leastOf stamp stamps ≤ greatestOf stamp stamps := by
        obtain ⟨hlo, hmid, hhi⟩ := hwithin first List.mem_cons_self
        exact hlo.trans (hmid.trans hhi)
      obtain ⟨hsep, hwf, hcover⟩ := merged_spec fun s hs => (hwithin s hs).2.1
      rw [evalOccupancy_of_cons width hstamps hspans]
      have hreported : (((pairings events).flatMap fun p => p.2.1.map fun s =>
          (s.1 - leastOf stamp stamps, s.2 - leastOf stamp stamps, p.1.1)).map fun i => (i.1, i.2.1)) =
          (first :: rest).map fun s => (s.1 - leastOf stamp stamps, s.2 - leastOf stamp stamps) := by
        rw [← hspans]
        simp only [List.map_flatMap, List.map_map, Function.comp_def]
      refine ⟨pairings_once, fun _ => mem_pairings h, ?_, fun _ hp => pairing_apart h hp, fun _ => ?_,
        fun _ hwidth => ?_, fun u v => ?_, ?_, ⟨rfl, ?_⟩, rfl, fun p hp hend => ?_, fun p hp hend => ?_⟩
      · rw [origin_eq hstamps]
      · exact seconds_eq hwithin hrun width
      · obtain rfl : width = none := hwidth
        apply (weighted_eq hwithin).trans
        rw [← total_shift _ (leastOf stamp stamps), ← hreported]
        rfl
      · have hmem : (u, v) ∈ (Sweep.gaps (Sweep.merge ((first :: rest).mergeSort pairLe))).map
            (fun w => (w.1 - leastOf stamp stamps, w.2 - leastOf stamp stamps)) ↔
            (u + leastOf stamp stamps, v + leastOf stamp stamps) ∈
              Sweep.gaps (Sweep.merge ((first :: rest).mergeSort pairLe)) := by
          constructor
          · intro hm
            obtain ⟨w, hw, heq⟩ := List.mem_map.mp hm
            obtain ⟨rfl, rfl⟩ := Prod.mk.inj heq
            rwa [sub_add_cancel, sub_add_cancel]
          · intro hm
            apply List.mem_map.mpr ⟨_, hm, ?_⟩
            rw [add_sub_cancel_right, add_sub_cancel_right]
        apply (hmem.trans (Sweep.mem_gaps_iff hsep hwf)).trans
        rw [Sweep.maximalGap_congr hcover]
        refine (Sweep.maximalGap_sub fun x => ?_).symm
        exact (iff_of_eq (congrArg (Sweep.Covered · x) hreported)).trans (covered_shift _ _ x)
      · apply List.pairwise_map.mpr
        apply (Sweep.pairwise_gaps hsep hwf).imp
        intro a b hab
        exact sub_le_sub_right hab _
      · dsimp only
        rw [total_shift]
        exact dead_le_span rfl fun s hs => (hwithin s hs).2
      · exact (pairing_open_iff h hp).trans (and_iff_right hend)
      · rw [← Bool.not_eq_true, pairing_open_iff h hp]
        exact fun hopen => hopen.1 hend

/-- An evaluation withheld and taken up again beside one that is never ended. -/
def resumedRun : List Row :=
  let row (ts : Rat) (type : String) (node : Int) : Row := ⟨.float ts, .str type, .obj [("node_id", .int node)], .null⟩
  [row 0 "run_started" 0, row 1 "node_eval_started" 0, row 3 "eval_attempt_withheld" 0,
    row 6 "eval_canary_started" 0, row 8 "node_evaluated" 0, row 9 "node_eval_started" 2, row 11 "run_paused" 0]

theorem resumedRun_conserves : InOrder resumedRun ∧ Conserves resumedRun (evalOccupancy resumedRun (some 2)) := by
  have hstamped : ∀ row ∈ resumedRun, (stampOf row).isSome = true := by decide +kernel
  have hsorted : (resumedRun.filterMap stampOf).Pairwise (· ≤ ·) := by decide +kernel
  exact ⟨⟨hstamped, hsorted⟩, occupancy_conserves_time resumedRun (some 2) ⟨hstamped, hsorted⟩⟩

end LoopLab.Engine.EvalOccupancy
