import LoopLab.Ledger.Status

/-!
# A verdict and what it rests on

The verdict looks for a gain among the setters of records, what it rests on among the holders they beat.
-/

set_option autoImplicit false

namespace LoopLab
open Lib

/-! ## The order of measurements -/

theorem outranks_iff {direction : String} {a b : Node} : outranks direction a b = true ↔
    (direction = "max" ∧ b.measured < a.measured) ∨ (direction ≠ "max" ∧ a.measured < b.measured) := by
  unfold outranks ledgerBetter
  split <;> simp_all

theorem strictWeak_outranks (direction : String) : StrictWeak (outranks direction) := by
  constructor
  · intro n
    rw [← Bool.not_eq_true, outranks_iff]
    simp
  · intro a b c hab hbc
    rw [outranks_iff] at *
    rcases hab with ⟨hmax, hab⟩ | ⟨hmin, hab⟩
    · rcases hbc with ⟨-, hbc⟩ | ⟨hmin, -⟩
      · exact Or.inl ⟨hmax, hbc.trans hab⟩
      · exact absurd hmax hmin
    · rcases hbc with ⟨hmax, -⟩ | ⟨-, hbc⟩
      · exact absurd hmax hmin
      · exact Or.inr ⟨hmin, hab.trans hbc⟩
  · intro a c b hac
    simp only [outranks_iff] at *
    rcases hac with ⟨hmax, hlt⟩ | ⟨hmin, hlt⟩
    · rcases lt_or_ge b.measured a.measured with hb | hb
      · exact Or.inl (Or.inl ⟨hmax, hb⟩)
      · exact Or.inr (Or.inl ⟨hmax, hlt.trans_le hb⟩)
    · rcases lt_or_ge a.measured b.measured with hb | hb
      · exact Or.inl (Or.inr ⟨hmin, hb⟩)
      · exact Or.inr (Or.inr ⟨hmin, hb.trans_lt hlt⟩)

theorem bestOf_map (direction : String) (ps : List Node) :
    bestOf direction (ps.map Node.measured) = (leader (outranks direction) none ps).map Node.measured := by
  have hrun (lead : Node) (ps : List Node) :
      some ((ps.map Node.measured).foldl (fun a b => if ledgerBetter direction b a then b else a) lead.measured) =
        (leader (outranks direction) (some lead) ps).map Node.measured := by
    induction ps generalizing lead with
    | nil => rfl
    | cons p ps ih =>
      have hstep : leader (outranks direction) (some lead) (p :: ps) =
          leader (outranks direction) (some (if outranks direction p lead then p else lead)) ps := by
        unfold leader
        rw [List.foldl_cons, Option.all_some]
        split <;> rfl
      rw [hstep, ← ih, List.map_cons, List.foldl_cons]
      unfold outranks
      split <;> rfl
  cases ps with
  | nil => rfl
  | cons p ps => exact hrun p ps

section Gains
variable {st : RunState} {n p h : Node}

theorem parentBase_eq : parentBase st n =
    (leader (outranks st.direction) none (measuredParents st n)).map Node.measured := by
  rw [← bestOf_map]
  unfold parentBase measuredParents
  rw [List.map_filterMap]
  congr 2
  funext i
  cases st.nodes.get i with
  | none => rfl
  | some p =>
    cases hm : p.metric.finiteMetric <;> cases hf : p.feasible <;> simp [Option.filter, hm, hf, Node.measured]

/-- The best of a node's parents: the first that beats all before it and that none after it beats. -/
def BestParent (st : RunState) (n p : Node) : Prop := IsLeader (outranks st.direction) p (measuredParents st n)

/-- The node broke the record the other held when it came: that of the eligible nodes before it. -/
structure Broke (st : RunState) (n h : Node) : Prop where
  mem : n ∈ contenders st
  holder : h ∈ contenders st
  earlier : h.id < n.id
  set : ∀ m ∈ contenders st, m.id < h.id → outranks st.direction h m = true
  held : ∀ m ∈ contenders st, m.id < n.id → outranks st.direction m h = false
  broken : outranks st.direction n h = true

/-- A gain that counts as support. -/
inductive Gain (st : RunState) : Node → Node → Prop
  | parent {n p : Node} : BestParent st n p → outranks st.direction n p = true → Gain st n p
  | record {n h : Node} : Broke st n h → Gain st n h

/-! ## Records -/

theorem ordered_contenders (st : RunState) : (contenders st).Pairwise fun a b => a.id < b.id := by
  apply List.Pairwise.filter
  have hle : st.sortedNodes.Pairwise fun a b => a.id ≤ b.id := by
    have hsorted := @List.pairwise_mergeSort Node (fun a b => decide (a.id ≤ b.id))
      (fun a b c hab hbc => decide_eq_true ((of_decide_eq_true hab).trans (of_decide_eq_true hbc)))
      (fun a b => by simpa using le_total a.id b.id) st.nodes.rows
    exact hsorted.imp of_decide_eq_true
  have hne : st.sortedNodes.Pairwise fun a b => a.id ≠ b.id := by
    have hnodup : (st.sortedNodes.map Node.id).Nodup :=
      ((List.mergeSort_perm st.nodes.rows _).map Node.id).nodup_iff.mpr st.nodes.nodup
    exact List.pairwise_map.mp hnodup
  exact hle.imp₂ (fun _ _ hab hne => lt_of_le_of_ne hab hne) hne

theorem nodup_contenders (st : RunState) : ((contenders st).map Node.id).Nodup :=
  List.pairwise_map.mpr ((ordered_contenders st).imp ne_of_lt)

theorem mem_contenders : n ∈ contenders st ↔ n ∈ st.nodes.rows ∧ sotaEligible st n = true := by
  unfold contenders RunState.sortedNodes
  rw [List.mem_filter, List.mem_mergeSort]

theorem eq_of_contenders {m : Node} (hn : n ∈ contenders st) (hm : m ∈ contenders st) (hid : n.id = m.id) : n = m :=
  List.inj_on_of_nodup_map (nodup_contenders st) hn hm hid

theorem broke_iff : Broke st n h ↔ ∃ before after, contenders st = before ++ n :: after ∧
    leader (outranks st.direction) none before = some h ∧ outranks st.direction n h = true := by
  have hsplit {before after : List Node} (heq : contenders st = before ++ n :: after) :
      (∀ m ∈ before, m.id < n.id) ∧ ∀ m ∈ contenders st, m.id < n.id → m ∈ before := by
    have hord := heq ▸ ordered_contenders st
    obtain ⟨-, hafter, hbefore⟩ := List.pairwise_append.mp hord
    refine ⟨fun m hm => hbefore m hm n List.mem_cons_self, fun m hm hlt => ?_⟩
    rw [heq] at hm
    rcases List.mem_append.mp hm with hm | hm
    · exact hm
    · rcases List.mem_cons.mp hm with rfl | hm
      · exact absurd hlt (lt_irrefl _)
      · exact absurd (hlt.trans ((List.pairwise_cons.mp hafter).1 m hm)) (lt_irrefl _)
  constructor
  · rintro ⟨hn, hh, hlt, hset, hheld, hbroken⟩
    obtain ⟨before, after, heq⟩ := List.append_of_mem hn
    obtain ⟨hearlier, hbefore⟩ := hsplit heq
    refine ⟨before, after, heq, ?_, hbroken⟩
    rw [leader_iff (strictWeak_outranks st.direction)]
    obtain ⟨b, c, rfl⟩ := List.append_of_mem (hbefore h hh hlt)
    have hmem {m : Node} (hm : m ∈ b ++ h :: c) : m ∈ contenders st := heq ▸ List.mem_append_left _ hm
    have hord : (b ++ h :: c).Pairwise fun a b => a.id < b.id := by
      have hall := ordered_contenders st
      rw [heq] at hall
      exact (List.pairwise_append.mp hall).1
    refine ⟨b, c, rfl, ?_, ?_⟩
    · intro m hm
      exact hset m (hmem (List.mem_append_left _ hm)) ((List.pairwise_append.mp hord).2.2 m hm h List.mem_cons_self)
    · intro m hm
      have hin : m ∈ b ++ h :: c := List.mem_append_right b (List.mem_cons_of_mem h hm)
      exact hheld m (hmem hin) (hearlier m hin)
  · rintro ⟨before, after, heq, hlead, hbroken⟩
    obtain ⟨hearlier, hbefore⟩ := hsplit heq
    have hn : n ∈ contenders st := by
      rw [heq]
      simp
    obtain ⟨b, c, rfl, hb, hc⟩ := leader_spec (strictWeak_outranks st.direction) hlead
    have hh : h ∈ b ++ h :: c := by simp
    have hord : (b ++ h :: c).Pairwise fun a b => a.id < b.id := by
      have hall := ordered_contenders st
      rw [heq] at hall
      exact (List.pairwise_append.mp hall).1
    refine ⟨hn, heq ▸ List.mem_append_left _ hh, hearlier h hh, fun m hm hlt => ?_, fun m hm hlt => ?_, hbroken⟩
    · rcases List.mem_append.mp (hbefore m hm (hlt.trans (hearlier h hh))) with hm | hm
      · exact hb m hm
      · rcases List.mem_cons.mp hm with rfl | hm
        · exact absurd hlt (lt_irrefl _)
        · have hafter := (List.pairwise_cons.mp (List.pairwise_append.mp hord).2.1).1 m hm
          exact absurd (hlt.trans hafter) (lt_irrefl _)
    · rcases List.mem_append.mp (hbefore m hm hlt) with hm | hm
      · exact IsLeader.not_beaten (strictWeak_outranks st.direction) ⟨b, c, rfl, hb, hc⟩ (List.mem_append_left _ hm)
      · exact IsLeader.not_beaten (strictWeak_outranks st.direction) ⟨b, c, rfl, hb, hc⟩ (List.mem_append_right _ hm)

end Gains

/-! ## What the two functions find -/

theorem leader_cons {direction : String} (lead : Option Node) (n : Node) (ns : List Node) :
    leader (outranks direction) lead (n :: ns) =
      leader (outranks direction) (if lead.all (outranks direction n) then some n else lead) ns := rfl

theorem mem_settersFrom {direction : String} {ns : List Node} {lead : Option Node} {i : Int} :
    i ∈ settersFrom direction (lead.map Node.measured) ns ↔ ∃ before n after, ns = before ++ n :: after ∧ n.id = i ∧
      (leader (outranks direction) lead before).all (outranks direction n) = true := by
  induction ns generalizing lead with
  | nil => simp [settersFrom]
  | cons n ns ih =>
    have hbeats : (lead.map Node.measured).all (ledgerBetter direction n.measured) =
        lead.all (outranks direction n) := by
      cases lead <;> rfl
    -- a split of the members is at the first, or behind it
    have hsplit (P : List Node → Node → Prop) : (∃ before m after, n :: ns = before ++ m :: after ∧ P before m) ↔
        P [] n ∨ ∃ before m after, ns = before ++ m :: after ∧ P (n :: before) m := by
      constructor
      · rintro ⟨before, m, after, heq, hP⟩
        cases before with
        | nil =>
          obtain ⟨rfl, -⟩ := List.cons.inj heq
          exact Or.inl hP
        | cons x before =>
          obtain ⟨rfl, hrest⟩ := List.cons.inj heq
          exact Or.inr ⟨before, m, after, hrest, hP⟩
      · rintro (hP | ⟨before, m, after, rfl, hP⟩)
        · exact ⟨[], n, ns, rfl, hP⟩
        · exact ⟨n :: before, m, after, rfl, hP⟩
    rw [hsplit fun before m => m.id = i ∧ (leader (outranks direction) lead before).all (outranks direction m) = true,
      settersFrom, hbeats]
    simp only [leader_cons]
    have hfirst : leader (outranks direction) lead [] = lead := rfl
    rw [hfirst]
    split
    · rename_i hset
      have hlead := @ih (some n)
      rw [Option.map_some] at hlead
      rw [List.mem_cons, hlead, eq_comm]
      simp [hset]
    · rename_i hkept
      rw [ih]
      simp [hkept]

theorem get_recordBases {direction : String} {ns : List Node} (hnodup : (ns.map Node.id).Nodup) :
    (ns.foldl (recordStep direction) (Table.empty, none)).2 = leader (outranks direction) none ns ∧ ∀ i j,
      ((ns.foldl (recordStep direction) (Table.empty, none)).1.get i = some j ↔ ∃ before n after h,
        ns = before ++ n :: after ∧ n.id = i ∧ leader (outranks direction) none before = some h ∧
          outranks direction n h = true ∧ h.id = j) := by
  induction ns using List.reverseRecOn with
  | nil =>
    refine ⟨rfl, fun i j => ⟨fun h => (by cases h), ?_⟩⟩
    rintro ⟨before, n, after, h, heq, -⟩
    exact absurd heq.symm (by simp)
  | append_singleton ns m ih =>
    rw [List.map_append, List.map_singleton, List.nodup_append] at hnodup
    obtain ⟨hns, -, hfresh⟩ := hnodup
    obtain ⟨hlead, hget⟩ := ih hns
    -- a split of the members is at the last, or before it
    have hsplit (i j : Int) : (∃ before n after h, ns ++ [m] = before ++ n :: after ∧ n.id = i ∧
          leader (outranks direction) none before = some h ∧ outranks direction n h = true ∧ h.id = j) ↔
        (∃ h, m.id = i ∧ leader (outranks direction) none ns = some h ∧ outranks direction m h = true ∧ h.id = j) ∨
          ∃ before n after h, ns = before ++ n :: after ∧ n.id = i ∧
            leader (outranks direction) none before = some h ∧ outranks direction n h = true ∧ h.id = j := by
      constructor
      · rintro ⟨before, n, after, h, heq, hP⟩
        rcases List.eq_nil_or_concat after with rfl | ⟨after, x, rfl⟩
        · obtain ⟨rfl, hm⟩ := List.append_inj' heq rfl
          obtain ⟨rfl, -⟩ := List.cons.inj hm
          exact Or.inl ⟨h, hP⟩
        · rw [List.concat_eq_append, ← List.cons_append, ← List.append_assoc] at heq
          exact Or.inr ⟨before, n, after, h, (List.append_inj' heq rfl).1, hP⟩
      · rintro (⟨h, hP⟩ | ⟨before, n, after, h, rfl, hP⟩)
        · exact ⟨ns, m, [], h, rfl, hP⟩
        · exact ⟨before, n, after ++ [m], h, by simp, hP⟩
    have hlast : (ns ++ [m]).foldl (recordStep direction) (Table.empty, none) =
        recordStep direction (ns.foldl (recordStep direction) (Table.empty, none)) m := by
      rw [List.foldl_append]
      rfl
    rw [hlast, leader_concat]
    generalize ns.foldl (recordStep direction) (Table.empty, none) = s at hlead hget
    obtain ⟨bases, holder⟩ := s
    simp only at hlead hget
    subst hlead
    unfold recordStep
    cases hh : leader (outranks direction) none ns with
    | none =>
      refine ⟨rfl, fun i j => ?_⟩
      rw [hsplit, hh, ← hget]
      simp
    | some h =>
      simp only [Option.all_some]
      by_cases hbeat : outranks direction m h = true
      · rw [if_pos hbeat, if_pos hbeat]
        refine ⟨rfl, fun i j => ?_⟩
        rw [hsplit, hh, ← hget, Dict.get_set]
        by_cases hi : i = m.id
        · have hnone : bases.get i = none := by
            rw [Option.eq_none_iff_forall_ne_some]
            intro j hj
            obtain ⟨before, n, after, -, rfl, hn, -⟩ := (hget i j).mp hj
            exact hfresh n.id (by simp) m.id (List.mem_singleton_self _) (hn.trans hi)
          rw [if_pos hi, hnone]
          simp [hi, hbeat]
        · rw [if_neg hi]
          simp [Ne.symm hi]
      · rw [if_neg hbeat, if_neg hbeat]
        refine ⟨rfl, fun i j => ?_⟩
        rw [hsplit, hh, ← hget]
        simp [hbeat]

section Found
variable {st : RunState} {n p h : Node}

theorem get_of_contenders (hn : n ∈ contenders st) : st.nodes.get n.id = some n :=
  Table.get_of_mem (mem_contenders.mp hn).1

theorem base_iff (hn : n ∈ contenders st) :
    ((recordBases st).get n.id).bind st.nodes.get = some h ↔ Broke st n h := by
  obtain ⟨-, hget⟩ := @get_recordBases st.direction _ (nodup_contenders st)
  rw [broke_iff, Option.bind_eq_some_iff]
  constructor
  · rintro ⟨j, hj, hnode⟩
    obtain ⟨before, m, after, k, heq, hid, hlead, hbeat, rfl⟩ := (hget n.id j).mp hj
    have hm : m ∈ contenders st := by
      rw [heq]
      simp
    have hk : k ∈ contenders st := by
      rw [heq]
      exact List.mem_append_left _ (leader_spec (strictWeak_outranks _) hlead).mem
    obtain rfl := eq_of_contenders hm hn hid
    rw [get_of_contenders hk] at hnode
    obtain rfl := Option.some.inj hnode
    exact ⟨before, after, heq, hlead, hbeat⟩
  · rintro ⟨before, after, heq, hlead, hbeat⟩
    have hh : h ∈ contenders st := by
      rw [heq]
      exact List.mem_append_left _ (leader_spec (strictWeak_outranks _) hlead).mem
    exact ⟨h.id, (hget n.id h.id).mpr ⟨before, n, after, h, heq, rfl, hlead, hbeat, rfl⟩, get_of_contenders hh⟩

theorem setter_iff (hn : n ∈ contenders st) :
    n.id ∈ recordSetterIds st ∧ recordEstablisherId st ≠ some n.id ↔ ∃ h, Broke st n h := by
  have hset := @mem_settersFrom st.direction (contenders st) none n.id
  rw [Option.map_none] at hset
  unfold recordSetterIds recordEstablisherId
  rw [hset]
  constructor
  · rintro ⟨⟨before, m, after, heq, hid, hbeat⟩, hfirst⟩
    have hm : m ∈ contenders st := by
      rw [heq]
      simp
    obtain rfl := eq_of_contenders hm hn hid
    cases hlead : leader (outranks st.direction) none before with
    | none =>
      rw [leader_eq_none.mp hlead] at heq
      rw [heq] at hfirst
      exact absurd rfl hfirst
    | some h =>
      rw [hlead] at hbeat
      exact ⟨h, broke_iff.mpr ⟨before, after, heq, hlead, by simpa using hbeat⟩⟩
  · rintro ⟨h, hbroke⟩
    obtain ⟨before, after, heq, hlead, hbeat⟩ := broke_iff.mp hbroke
    refine ⟨⟨before, n, after, heq, rfl, by rw [hlead]; exact hbeat⟩, ?_⟩
    -- the first of all came before the record that was broken
    intro hfirst
    obtain ⟨m, hm, hid⟩ := Option.map_eq_some_iff.mp hfirst
    have hord := ordered_contenders st
    obtain ⟨rest, hrest⟩ : ∃ rest, contenders st = m :: rest := List.head?_eq_some_iff.mp hm
    have hle : m.id ≤ h.id := by
      have hh := hbroke.holder
      rw [hrest] at hh hord
      rcases List.mem_cons.mp hh with rfl | hh
      · exact le_rfl
      · exact le_of_lt ((List.pairwise_cons.mp hord).1 h hh)
    exact absurd (hbroke.earlier.trans_le (hid ▸ hle)) (lt_irrefl _)

theorem mem_beaten (hn : n ∈ contenders st) : p ∈ beaten st n ↔ Gain st n p := by
  unfold beaten
  rw [List.mem_append, Option.mem_toList, Option.mem_toList, base_iff hn, Option.filter_eq_some_iff,
    leader_iff (strictWeak_outranks st.direction)]
  constructor
  · rintro (⟨hlead, hbeat⟩ | hbroke)
    · exact .parent hlead hbeat
    · exact .record hbroke
  · rintro (⟨hlead, hbeat⟩ | hbroke)
    · exact Or.inl ⟨hlead, hbeat⟩
    · exact Or.inr hbroke

theorem supports_iff (hn : n ∈ contenders st) : supports st n = true ↔ ∃ p, Gain st n p := by
  have hparent : (parentBase st n).any (ledgerBetter st.direction n.measured) = true ↔
      ∃ p, BestParent st n p ∧ outranks st.direction n p = true := by
    rw [parentBase_eq, Option.any_map, Option.any_eq_true]
    simp only [leader_iff (strictWeak_outranks st.direction)]
    rfl
  unfold supports
  rw [Bool.or_eq_true, hparent, Bool.and_eq_true, decide_eq_true_eq, List.contains_iff_mem, setter_iff hn]
  constructor
  · rintro (⟨p, hbest, hbeat⟩ | ⟨h, hbroke⟩)
    · exact ⟨p, .parent hbest hbeat⟩
    · exact ⟨h, .record hbroke⟩
  · rintro ⟨p, ⟨hbest, hbeat⟩ | hbroke⟩
    · exact Or.inl ⟨p, hbest, hbeat⟩
    · exact Or.inr ⟨p, hbroke⟩

theorem contends_of_usable {untested evidence : List Int} (h : n ∈ usableEvidence st untested evidence) :
    n ∈ contenders st := by
  unfold usableEvidence presentEvidence at h
  obtain ⟨hpresent, hok⟩ := List.mem_filter.mp h
  obtain ⟨i, -, hget⟩ := List.mem_filterMap.mp (List.mem_filter.mp hpresent).1
  exact mem_contenders.mpr ⟨Table.mem_of_get hget, (Bool.and_eq_true_iff.mp hok).1⟩

end Found

/-! ## The strongest level -/

/-- The place of a level among `supportLevels`: the strongest has the least. -/
def SupportLevel.place (level : SupportLevel) : Nat := supportLevels.idxOf level

theorem find?_strongest {found : List SupportLevel} {level : SupportLevel} :
    supportLevels.find? (found.contains ·) = some level ↔ level ∈ found ∧ ∀ l ∈ found, level.place ≤ l.place := by
  have hall : ∀ l : SupportLevel, l ∈ supportLevels := by
    intro l
    cases l <;> decide
  have hplaces : supportLevels.Pairwise fun a b => a.place < b.place := by decide
  rw [List.find?_eq_some_iff_append]
  constructor
  · rintro ⟨hlevel, before, after, heq, hbefore⟩
    refine ⟨List.contains_iff_mem.mp hlevel, fun l hl => ?_⟩
    rw [heq] at hplaces
    have hmem := hall l
    rw [heq] at hmem
    rcases List.mem_append.mp hmem with hmem | hmem
    · have hnot := hbefore l hmem
      rw [List.contains_iff_mem.mpr hl] at hnot
      cases hnot
    · rcases List.mem_cons.mp hmem with rfl | hmem
      · exact le_rfl
      · exact le_of_lt ((List.pairwise_cons.mp (List.pairwise_append.mp hplaces).2.1).1 l hmem)
  · rintro ⟨hlevel, hleast⟩
    obtain ⟨before, after, heq⟩ := List.append_of_mem (hall level)
    refine ⟨List.contains_iff_mem.mpr hlevel, before, after, heq, fun l hl => ?_⟩
    rw [heq] at hplaces
    have hlt := (List.pairwise_append.mp hplaces).2.2 l hl level List.mem_cons_self
    rw [Bool.not_eq_true', ← Bool.not_eq_true, List.contains_iff_mem]
    exact fun hmem => absurd (hleast l hmem) (Nat.not_le.mpr hlt)

theorem find?_isSome {found : List SupportLevel} :
    (supportLevels.find? (found.contains ·)).isSome = true ↔ found ≠ [] := by
  rw [List.find?_isSome]
  constructor
  · rintro ⟨l, -, hl⟩ rfl
    cases hl
  · intro hne
    obtain ⟨l, hl⟩ := List.exists_mem_of_ne_nil found hne
    refine ⟨l, ?_, List.contains_iff_mem.mpr hl⟩
    cases l <;> decide

theorem find?_perm {found found' : List SupportLevel} (h : found.Perm found') :
    supportLevels.find? (found.contains ·) = supportLevels.find? (found'.contains ·) := by
  congr 1
  funext level
  exact h.contains_eq

/-! ## Other orders -/

section Order
variable {st : RunState} {nodes : Table Node.id} {untested evidence evidence' : List Int}

theorem sortedNodes_perm (h : nodes.rows.Perm st.nodes.rows) :
    RunState.sortedNodes { st with nodes } = st.sortedNodes := by
  have hord (rows : List Node) :
      (rows.mergeSort fun a b => decide (a.id ≤ b.id)).Pairwise fun a b => decide (a.id ≤ b.id) = true :=
    List.pairwise_mergeSort (fun a b c hab hbc => decide_eq_true ((of_decide_eq_true hab).trans (of_decide_eq_true hbc)))
      (fun a b => by simpa using le_total a.id b.id) rows
  unfold RunState.sortedNodes
  apply List.Perm.eq_of_pairwise ?_ (hord _) (hord _)
  · exact ((List.mergeSort_perm _ _).trans h).trans (List.mergeSort_perm _ _).symm
  · intro a b ha hb hab hba
    rw [List.mem_mergeSort] at ha hb
    exact List.inj_on_of_nodup_map st.nodes.nodup (h.mem_iff.mp ha) hb
      (le_antisymm (of_decide_eq_true hab) (of_decide_eq_true hba))

theorem beaten_perm (h : nodes.rows.Perm st.nodes.rows) :
    beaten { st with nodes } = beaten st ∧ supports { st with nodes } = supports st ∧
      (fun fl => delta { st with nodes } fl) = delta st ∧
      ∀ untested evidence, usableEvidence { st with nodes } untested evidence = usableEvidence st untested evidence ∧
        presentEvidence { st with nodes } evidence = presentEvidence st evidence := by
  have hget : nodes.get = st.nodes.get := by
    funext i
    exact Table.get_perm h i
  have hcontenders : contenders { st with nodes } = contenders st := by
    unfold contenders
    rw [sortedNodes_perm h]
    rfl
  have hbase : parentBase { st with nodes } = parentBase st := by
    funext n
    unfold parentBase
    rw [hget]
  have hpresent (evidence : List Int) : presentEvidence { st with nodes } evidence = presentEvidence st evidence := by
    unfold presentEvidence
    rw [hget]
  refine ⟨?_, ?_, ?_, fun untested evidence => ⟨?_, hpresent evidence⟩⟩
  · funext n
    unfold beaten recordBases measuredParents
    rw [hcontenders, hget]
  · funext n
    unfold supports recordSetterIds recordEstablisherId
    rw [hbase, hcontenders]
  · funext fl n
    unfold delta
    rw [hbase]
  · unfold usableEvidence
    rw [hpresent]
    rfl

theorem strictWeak_greater : StrictWeak fun a b : Extended => b.lt a := by
  constructor
  · intro a
    cases a <;> simp [Extended.lt]
  · intro a b c hab hbc
    cases a <;> cases b <;> cases c <;> simp_all [Extended.lt]
    exact hbc.trans hab
  · intro a c b hac
    cases a <;> cases b <;> cases c <;> simp_all [Extended.lt]
    rename_i q r s
    exact (lt_or_ge r q).imp_right hac.trans_le

theorem bestDelta_perm {fl : Floats} {usable usable' : List Node} (h : usable.Perm usable') :
    bestDelta st fl usable = bestDelta st fl usable' := by
  have hleader (ns : List Node) :
      bestDelta st fl ns = leader (fun a b : Extended => b.lt a) none (ns.filterMap (delta st fl)) := by
    have hrun (ds : List Extended) (d : Extended) :
        some (ds.foldl Extended.greatest d) = leader (fun a b : Extended => b.lt a) (some d) ds := by
      induction ds generalizing d with
      | nil => rfl
      | cons e ds ih =>
        rw [List.foldl_cons, ih]
        unfold leader Extended.greatest
        rw [List.foldl_cons, Option.all_some]
        split <;> rfl
    unfold bestDelta
    cases ns.filterMap (delta st fl) with
    | nil => rfl
    | cons d ds => exact hrun ds d
  rw [hleader, hleader]
  apply leader_perm strictWeak_greater ?_ (h.filterMap _)
  intro a b hab hba
  cases a <;> cases b <;> simp_all [Extended.lt]
  exact le_antisymm hab hba

theorem presentEvidence_perm (h : evidence.Perm evidence') :
    (presentEvidence st evidence).Perm (presentEvidence st evidence') := (h.filterMap _).filter _

end Order

/-- A level is named exactly where the evidence supports the card, it is the strongest of the gains that made it
supported, and neither the level nor the verdict depends on the order of the nodes or of the evidence. -/
theorem verdict_support_agrees (st : RunState) (fl : NoiseFloats) (floor : Obj) (untested evidence : List Int)
    (abandoned : Bool) :
    ((verdictSupport st fl floor untested evidence).isSome = true ↔
      (verdictOf st fl.toFloats untested evidence abandoned).supported = true) ∧
    ((verdictOf st fl.toFloats untested evidence abandoned).supported = true ↔
      ∃ n ∈ usableEvidence st untested evidence, ∃ p, Gain st n p) ∧
    (∀ level, verdictSupport st fl floor untested evidence = some level ↔
      (∃ n ∈ usableEvidence st untested evidence, ∃ p, Gain st n p ∧ gainSupport fl st.direction floor n p = level) ∧
        ∀ n ∈ usableEvidence st untested evidence, ∀ p, Gain st n p →
          level.place ≤ (gainSupport fl st.direction floor n p).place) ∧
    ∀ (nodes : Table Node.id) (evidence' : List Int), nodes.rows.Perm st.nodes.rows → evidence'.Perm evidence →
      verdictSupport { st with nodes } fl floor untested evidence' = verdictSupport st fl floor untested evidence ∧
      verdictOf { st with nodes } fl.toFloats untested evidence' abandoned =
        verdictOf st fl.toFloats untested evidence abandoned := by
  have hsupported : (verdictOf st fl.toFloats untested evidence abandoned).supported = true ↔
      ∃ n ∈ usableEvidence st untested evidence, ∃ p, Gain st n p := by
    unfold verdictOf
    rw [List.any_eq_true]
    constructor
    · rintro ⟨n, hn, hsupports⟩
      exact ⟨n, hn, (supports_iff (contends_of_usable hn)).mp hsupports⟩
    · rintro ⟨n, hn, hgain⟩
      exact ⟨n, hn, (supports_iff (contends_of_usable hn)).mpr hgain⟩
  have hfound (level : SupportLevel) : level ∈ ((usableEvidence st untested evidence).flatMap fun n =>
        (beaten st n).map (gainSupport fl st.direction floor n)) ↔
      ∃ n ∈ usableEvidence st untested evidence, ∃ p, Gain st n p ∧ gainSupport fl st.direction floor n p = level := by
    rw [List.mem_flatMap]
    constructor
    · rintro ⟨n, hn, hlevel⟩
      obtain ⟨p, hp, heq⟩ := List.mem_map.mp hlevel
      exact ⟨n, hn, p, (mem_beaten (contends_of_usable hn)).mp hp, heq⟩
    · rintro ⟨n, hn, p, hgain, heq⟩
      exact ⟨n, hn, List.mem_map.mpr ⟨p, (mem_beaten (contends_of_usable hn)).mpr hgain, heq⟩⟩
  refine ⟨?_, hsupported, fun level => ?_, fun nodes evidence' hnodes hevidence => ?_⟩
  · rw [hsupported, verdictSupport, find?_isSome]
    constructor
    · intro hne
      obtain ⟨level, hlevel⟩ := List.exists_mem_of_ne_nil _ hne
      obtain ⟨n, hn, p, hgain, -⟩ := (hfound level).mp hlevel
      exact ⟨n, hn, p, hgain⟩
    · rintro ⟨n, hn, p, hgain⟩
      exact List.ne_nil_of_mem ((hfound _).mpr ⟨n, hn, p, hgain, rfl⟩)
  · rw [verdictSupport, find?_strongest, hfound]
    apply and_congr_right
    intro _
    constructor
    · intro hleast n hn p hgain
      exact hleast _ ((hfound _).mpr ⟨n, hn, p, hgain, rfl⟩)
    · intro hleast l hl
      obtain ⟨n, hn, p, hgain, rfl⟩ := (hfound l).mp hl
      exact hleast n hn p hgain
  · obtain ⟨hbeaten, hsupports, hdelta, hevid⟩ := beaten_perm hnodes
    have hpresent := @presentEvidence_perm st _ _ hevidence
    have husable : (usableEvidence st untested evidence').Perm (usableEvidence st untested evidence) :=
      hpresent.filter _
    constructor
    · unfold verdictSupport
      rw [hbeaten, (hevid untested evidence').1]
      exact find?_perm (husable.flatMap_right _)
    · have hbest : bestDelta { st with nodes } fl.toFloats = bestDelta st fl.toFloats := by
        funext ns
        unfold bestDelta
        rw [show delta { st with nodes } fl.toFloats = delta st fl.toFloats from congrFun hdelta fl.toFloats]
      unfold verdictOf evidenceVerdict
      dsimp only
      rw [hbest, hsupports, (hevid untested evidence').1, (hevid untested evidence').2, bestDelta_perm husable,
        husable.any_eq, hpresent.any_eq, hpresent.isEmpty_eq, husable.isEmpty_eq]

end LoopLab
