import LoopLab.Llm.Extract
import LoopLab.Lib.Front

/-!
# The extracted answer is the first object of the highest rank

The objects of a text are listed in reading order, each after the end of the one before.
-/

set_option autoImplicit false

namespace LoopLab.Llm.Extract
open Lib

section Ranks
variable {δ : Type} {readers : Readers δ} {keySets : KeySets} {r s : Rank} {obj : δ}

theorem above_iff : r.above s = true ↔ s.required < r.required ∨ (s.required = r.required ∧
    ((s.answers = false ∧ r.answers = true) ∨ (s.answers = r.answers ∧ s.standing < r.standing))) := by
  simp [Rank.above]

/-- One object ranks above another. -/
def outranks (readers : Readers δ) (keySets : KeySets) (a b : δ) : Bool :=
  (rank readers keySets a).above (rank readers keySets b)

theorem above_strictWeak : StrictWeak Rank.above where
  irrefl r := by
    rw [← Bool.not_eq_true, above_iff]
    rintro (h | ⟨-, ⟨h, h'⟩ | ⟨-, h⟩⟩)
    · exact lt_irrefl _ h
    · rw [h] at h'
      cases h'
    · exact lt_irrefl _ h
  trans {x y z} hxy hyz := by
    rw [above_iff] at hxy hyz ⊢
    grind
  cotrans {x z} y hxz := by
    rw [above_iff] at hxz ⊢
    rw [above_iff]
    grind

theorem outranks_strictWeak (readers : Readers δ) (keySets : KeySets) : StrictWeak (outranks readers keySets) where
  irrefl a := above_strictWeak.irrefl _
  trans := above_strictWeak.trans
  cotrans b hac := above_strictWeak.cotrans (rank readers keySets b) hac

/-- An object carries a name of the schema. -/
def Carries (readers : Readers δ) (keySets : KeySets) (obj : δ) : Prop :=
  ∃ k, some k ∈ readers.names obj ∧ readers.lower k ∈ keySets.required ∪ keySets.declared

theorem carries_iff :
    Carries readers keySets obj ↔ (rank readers keySets obj).required ≠ 0 ∨ (rank readers keySets obj).answers = true := by
  unfold Carries rank schemaFit
  dsimp only
  rw [Finset.card_ne_zero, decide_eq_true_iff]
  constructor
  · rintro ⟨k, hk, hmem⟩
    have hkey : readers.lower k ∈ ((readers.names obj).filterMap fun key => key.map readers.lower).toFinset := by
      rw [List.mem_toFinset, List.mem_filterMap]
      exact ⟨some k, hk, rfl⟩
    rcases Finset.mem_union.mp hmem with h | h
    · exact Or.inl ⟨_, Finset.mem_inter.mpr ⟨hkey, h⟩⟩
    · exact Or.inr ⟨_, Finset.mem_inter.mpr ⟨hkey, h⟩⟩
  · have hfrom {set : Finset String} (hset : set ⊆ keySets.required ∪ keySets.declared)
        (h : (((readers.names obj).filterMap fun key => key.map readers.lower).toFinset ∩ set).Nonempty) :
        ∃ k, some k ∈ readers.names obj ∧ readers.lower k ∈ keySets.required ∪ keySets.declared := by
      obtain ⟨name, hname⟩ := h
      obtain ⟨hkey, hin⟩ := Finset.mem_inter.mp hname
      rw [List.mem_toFinset, List.mem_filterMap] at hkey
      obtain ⟨key, hk, hlower⟩ := hkey
      obtain ⟨k, rfl, rfl⟩ := Option.map_eq_some_iff.mp hlower
      exact ⟨k, hk, hset hin⟩
    rintro (h | h)
    · exact hfrom Finset.subset_union_left h
    · exact hfrom Finset.subset_union_right h

theorem standing_of_carries (h : Carries readers keySets obj) : (rank readers keySets obj).standing = 2 := by
  rw [carries_iff] at h
  exact if_pos h

theorem rank_bound (readers : Readers δ) (keySets : KeySets) (obj : δ) :
    (rank readers keySets obj).required ≤ keySets.required.card ∧
      ((rank readers keySets obj).answers = true → keySets.declared.Nonempty) ∧
      (rank readers keySets obj).standing ≤ 2 := by
  refine ⟨?_, ?_, ?_⟩
  · have hsub := @Finset.inter_subset_right _ _
      ((readers.names obj).filterMap fun key => key.map readers.lower).toFinset keySets.required
    exact Finset.card_le_card hsub
  · intro h
    obtain ⟨name, hname⟩ := of_decide_eq_true h
    exact ⟨name, (Finset.mem_inter.mp hname).2⟩
  · show standing readers obj _ ≤ 2
    unfold standing
    split
    · exact le_rfl
    · split
      · omega
      · split <;> omega

theorem perfect_top (hnames : ¬(keySets.declared = ∅ ∧ keySets.required = ∅))
    (hperfect : (perfect keySets).above (rank readers keySets obj) = false) :
    Carries readers keySets obj ∧ ∀ other, outranks readers keySets other obj = false := by
  obtain ⟨hrequired, hanswers, -⟩ := rank_bound readers keySets obj
  rw [← Bool.not_eq_true, above_iff] at hperfect
  push Not at hperfect
  obtain ⟨hge, heq⟩ := hperfect
  have hcard : (rank readers keySets obj).required = keySets.required.card := le_antisymm hrequired hge
  have hdeclared : (rank readers keySets obj).answers = decide keySets.declared.Nonempty := by
    by_cases hd : keySets.declared.Nonempty
    · have hnot := (heq hcard).1
      cases ha : (rank readers keySets obj).answers with
      | true => exact (decide_eq_true hd).symm
      | false => exact absurd (decide_eq_true hd) (hnot ha)
    · cases ha : (rank readers keySets obj).answers with
      | true => exact absurd (hanswers ha) hd
      | false => exact (decide_eq_false hd).symm
  have hcarries : Carries readers keySets obj := by
    rw [carries_iff, hcard, hdeclared, decide_eq_true_iff, Finset.card_ne_zero]
    by_contra h
    push Not at h
    apply hnames
    simpa [Finset.not_nonempty_iff_eq_empty, and_comm] using h
  refine ⟨hcarries, fun other => ?_⟩
  obtain ⟨hrequired', hanswers', hstanding'⟩ := rank_bound readers keySets other
  have hstanding := standing_of_carries hcarries
  unfold outranks
  rw [← Bool.not_eq_true, above_iff]
  rintro (h | ⟨-, ⟨h, h'⟩ | ⟨-, h⟩⟩)
  · omega
  · rw [hdeclared] at h
    exact absurd (hanswers' h') (of_decide_eq_false h)
  · omega

end Ranks

/-! ## The objects of a text -/

section Objects
variable {δ : Type} (readers : Readers δ) (keySets : KeySets) (text : List Char)

/-- The first outermost objects decodable from a place on, and whether a decode raised before they were found. -/
def outermost (n i : Nat) : List δ × Bool :=
  match n with
  | 0 => ([], false)
  | n + 1 =>
    match _h : find '\x7b' text i with
    | none => ([], false)
    | some j =>
      match readers.rawDecode text j with
      | .error => ([], true)
      | .malformed => outermost (n + 1) (j + 1)
      | .value (none, stop) => outermost (n + 1) (max stop (j + 1))
      | .value (some obj, stop) =>
        let rest := outermost n (max stop (j + 1))
        (obj :: rest.1, rest.2)
termination_by text.length - i
decreasing_by
  all_goals
    have hfind := find_lt _h
    omega

def weigh (raised : Bool) (best : Option (δ × Rank)) : List δ → Scanned δ
  | [] => if raised then .error else .ended best
  | obj :: rest =>
    let best := better readers keySets best obj
    if !(perfect keySets).above best.2 then .returned best.1 else weigh raised (some best) rest

variable {readers keySets text} {n i j : Nat}

theorem outermost_end (hfind : find '\x7b' text i = none) : outermost readers text (n + 1) i = ([], false) := by
  rw [outermost]
  split
  · rfl
  · rename_i h
    rw [hfind] at h
    cases h

theorem outermost_found (hfind : find '\x7b' text i = some j) :
    outermost readers text (n + 1) i =
      match readers.rawDecode text j with
      | .error => ([], true)
      | .malformed => outermost readers text (n + 1) (j + 1)
      | .value (none, stop) => outermost readers text (n + 1) (max stop (j + 1))
      | .value (some obj, stop) =>
        (obj :: (outermost readers text n (max stop (j + 1))).1, (outermost readers text n (max stop (j + 1))).2) := by
  rw [outermost]
  split
  · rename_i h
    rw [hfind] at h
    cases h
  · rename_i h
    rw [hfind] at h
    obtain rfl := Option.some.inj h
    rfl

theorem scan_eq_weigh (hnames : ¬(keySets.declared = ∅ ∧ keySets.required = ∅)) (best : Option (δ × Rank))
    (seen i : Nat) (hseen : seen + (n + 1) = jsonCandidateCap) :
    scan readers keySets text best seen i =
      weigh readers keySets (outermost readers text (n + 1) i).2 best (outermost readers text (n + 1) i).1 := by
  fun_induction scan readers keySets text best seen i generalizing n with
  | case1 best seen i hfind =>
    rw [outermost_end hfind]
    rfl
  | case2 best seen i j hfind hdecode =>
    rw [outermost_found hfind, hdecode]
    rfl
  | case3 best seen i j hfind hdecode ih =>
    rw [outermost_found hfind, hdecode]
    exact ih hseen
  | case4 best seen i j hfind stop hdecode ih =>
    rw [outermost_found hfind, hdecode]
    exact ih hseen
  | case5 best seen i j hfind obj stop hdecode hnone =>
    exact absurd hnone hnames
  | case6 best seen i j hfind obj stop hdecode _ best' =>
    rename_i hperfect
    rw [outermost_found hfind, hdecode]
    exact (if_pos hperfect).symm
  | case7 best seen i j hfind obj stop hdecode _ best' =>
    rename_i hperfect hcap
    have hn : n = 0 := by omega
    subst hn
    have hnil : outermost readers text 0 (max stop (j + 1)) = ([], false) := by rw [outermost]
    rw [outermost_found hfind, hdecode]
    simp only [hnil, weigh]
    rw [if_neg hperfect]
    rfl
  | case8 best seen i j hfind obj stop hdecode _ best' =>
    rename_i hperfect hcap ih
    obtain ⟨m, rfl⟩ : ∃ m, n = m + 1 := Nat.exists_eq_succ_of_ne_zero (by omega)
    rw [outermost_found hfind, hdecode, @ih m (by omega)]
    exact (if_neg hperfect).symm

theorem scan_of_no_names (hnames : keySets.declared = ∅ ∧ keySets.required = ∅) (best : Option (δ × Rank))
    (seen i : Nat) {obj : δ} (hhead : (outermost readers text (n + 1) i).1.head? = some obj) :
    scan readers keySets text best seen i = .returned obj := by
  fun_induction scan readers keySets text best seen i generalizing n with
  | case1 best seen i hfind =>
    rw [outermost_end hfind] at hhead
    cases hhead
  | case2 best seen i j hfind hdecode =>
    rw [outermost_found hfind, hdecode] at hhead
    cases hhead
  | case3 best seen i j hfind hdecode ih =>
    rw [outermost_found hfind, hdecode] at hhead
    exact ih hhead
  | case4 best seen i j hfind stop hdecode ih =>
    rw [outermost_found hfind, hdecode] at hhead
    exact ih hhead
  | case5 best seen i j hfind first stop hdecode _ =>
    rw [outermost_found hfind, hdecode] at hhead
    obtain rfl := Option.some.inj hhead
    rfl
  | case6 best seen i j hfind obj stop hdecode hsome => exact absurd hnames hsome
  | case7 best seen i j hfind obj stop hdecode hsome => exact absurd hnames hsome
  | case8 best seen i j hfind obj stop hdecode hsome => exact absurd hnames hsome

def Standing (readers : Readers δ) (keySets : KeySets) (before : List δ) (best : Option (δ × Rank)) : Prop :=
  (∀ x ∈ before, (perfect keySets).above (rank readers keySets x) = true) ∧
    best = (leader (outranks readers keySets) none before).map fun obj => (obj, rank readers keySets obj)

theorem better_eq {before : List δ} {best : Option (δ × Rank)} (h : Standing readers keySets before best) (obj : δ) :
    some (better readers keySets best obj) =
      (leader (outranks readers keySets) none (before ++ [obj])).map fun x => (x, rank readers keySets x) := by
  rw [leader_concat, h.2]
  cases leader (outranks readers keySets) none before with
  | none => rfl
  | some lead =>
    simp only [better, Option.map_some, Option.all_some]
    show some (if outranks readers keySets obj lead = true then _ else _) = _
    split <;> rfl

theorem better_cases {before : List δ} {best : Option (δ × Rank)} (h : Standing readers keySets before best) (obj : δ) :
    better readers keySets best obj = (obj, rank readers keySets obj) ∨
      ∃ lead ∈ before, better readers keySets best obj = (lead, rank readers keySets lead) ∧
        outranks readers keySets obj lead = false := by
  rw [h.2]
  cases hlead : leader (outranks readers keySets) none before with
  | none => exact Or.inl rfl
  | some lead =>
    simp only [better, Option.map_some]
    by_cases hout : (rank readers keySets obj).above (rank readers keySets lead) = true
    · exact Or.inl (if_pos hout)
    · refine Or.inr ⟨lead, (leader_spec (outranks_strictWeak readers keySets) hlead).mem, if_neg hout, ?_⟩
      rwa [← Bool.not_eq_true]

theorem outranks_of_perfect {x : δ} {obj : δ} (hx : (perfect keySets).above (rank readers keySets x) = true)
    (hperfect : (perfect keySets).above (rank readers keySets obj) = false) : outranks readers keySets obj x = true := by
  rcases above_strictWeak.cotrans (rank readers keySets obj) hx with h | h
  · rw [hperfect] at h
    cases h
  · exact h

theorem weigh_spec (hnames : ¬(keySets.declared = ∅ ∧ keySets.required = ∅)) {raised : Bool} {before objs : List δ}
    {best : Option (δ × Rank)} (h : Standing readers keySets before best) :
    (∃ obj, weigh readers keySets raised best objs = .returned obj ∧ obj ∈ objs ∧ Carries readers keySets obj ∧
      (perfect keySets).above (rank readers keySets obj) = false ∧
      IsLeader (outranks readers keySets) obj (before ++ objs)) ∨
    ((∀ x ∈ objs, (perfect keySets).above (rank readers keySets x) = true) ∧
      weigh readers keySets raised best objs = if raised then .error else
        .ended ((leader (outranks readers keySets) none (before ++ objs)).map fun obj => (obj, rank readers keySets obj))) := by
  induction objs generalizing before best with
  | nil =>
    refine Or.inr ⟨by simp, ?_⟩
    rw [List.append_nil, ← h.2]
    rfl
  | cons obj rest ih =>
    by_cases hperfect : (perfect keySets).above (rank readers keySets obj) = true
    · -- it can be beaten, and so can the better of the two
      have hbetter : (perfect keySets).above (better readers keySets best obj).2 = true := by
        rcases better_cases h obj with heq | ⟨lead, hmem, heq, -⟩
        · rw [heq]
          exact hperfect
        · rw [heq]
          exact h.1 lead hmem
      have hstanding : Standing readers keySets (before ++ [obj]) (some (better readers keySets best obj)) := by
        refine ⟨fun x hx => ?_, better_eq h obj⟩
        rcases List.mem_append.mp hx with hx | hx
        · exact h.1 x hx
        · rw [List.mem_singleton.mp hx]
          exact hperfect
      have hweigh : weigh readers keySets raised best (obj :: rest) =
          weigh readers keySets raised (some (better readers keySets best obj)) rest := by
        simp only [weigh]
        rw [hbetter]
        rfl
      have hrest := ih hstanding
      rw [List.append_assoc, List.singleton_append] at hrest
      rw [hweigh]
      rcases hrest with ⟨x, hx, hmem, hcarries, htop, hlead⟩ | ⟨hall, heq⟩
      · exact Or.inl ⟨x, hx, List.mem_cons_of_mem obj hmem, hcarries, htop, hlead⟩
      · refine Or.inr ⟨?_, heq⟩
        rintro x hx
        rcases List.mem_cons.mp hx with rfl | hx
        · exact hperfect
        · exact hall x hx
    · have htop : (perfect keySets).above (rank readers keySets obj) = false := by rwa [← Bool.not_eq_true]
      have hbetter : better readers keySets best obj = (obj, rank readers keySets obj) := by
        rcases better_cases h obj with heq | ⟨lead, hmem, -, hout⟩
        · exact heq
        · rw [outranks_of_perfect (h.1 lead hmem) htop] at hout
          cases hout
      obtain ⟨hcarries, hnone⟩ := perfect_top hnames htop
      refine Or.inl ⟨obj, ?_, List.mem_cons_self, hcarries, htop, ?_⟩
      · simp only [weigh, hbetter, htop]
        rfl
      · exact ⟨before, rest, rfl, fun x hx => outranks_of_perfect (h.1 x hx) htop, fun x _ => hnone x⟩

end Objects

/-! ## The extracted answer -/

section Extract
variable {δ : Type} (readers : Readers δ) (text : List Char) (schema : Json)

/-- The first sixteen outermost objects of a reply without its thinking. -/
def candidates : List δ × Bool := outermost readers (stripThink text) jsonCandidateCap 0

theorem answers_iff {keySets : KeySets} {obj : δ} :
    answers readers obj ⟨(rank readers keySets obj).required, (rank readers keySets obj).answers⟩ = true ↔
      readers.names obj = [] ∨ Carries readers keySets obj := by
  rw [carries_iff]
  simp only [answers, Bool.or_eq_true, decide_eq_true_iff, List.isEmpty_iff]
  tauto

variable {readers text schema}

theorem carries_of_leader {keySets : KeySets} {obj x : δ} {objs : List δ}
    (hlead : IsLeader (outranks readers keySets) obj objs) (hx : x ∈ objs) (hcarries : Carries readers keySets x) :
    Carries readers keySets obj := by
  have hbeaten := hlead.not_beaten (outranks_strictWeak readers keySets) hx
  unfold outranks at hbeaten
  rw [← Bool.not_eq_true, above_iff] at hbeaten
  rw [carries_iff] at hcarries ⊢
  grind

theorem outranks_iff {keySets : KeySets} {a b : δ} :
    outranks readers keySets a b = true ↔
      (rank readers keySets b).required < (rank readers keySets a).required ∨
      ((rank readers keySets b).required = (rank readers keySets a).required ∧
        (rank readers keySets b).answers = false ∧ (rank readers keySets a).answers = true) ∨
      (¬Carries readers keySets a ∧ ¬Carries readers keySets b ∧
        (rank readers keySets b).standing < (rank readers keySets a).standing) := by
  unfold outranks
  rw [above_iff]
  have htwo {obj : δ} (h : Carries readers keySets obj) := standing_of_carries h
  have hbound := (rank_bound readers keySets a).2.2
  constructor
  · rintro (h | ⟨heq, h | ⟨hsame, hlt⟩⟩)
    · exact Or.inl h
    · exact Or.inr (Or.inl ⟨heq, h⟩)
    · have hb : ¬Carries readers keySets b := fun hb => by
        have hstanding := htwo hb
        omega
      refine Or.inr (Or.inr ⟨?_, hb, hlt⟩)
      rw [carries_iff] at hb ⊢
      rwa [← heq, ← hsame]
  · rintro (h | ⟨heq, h⟩ | ⟨ha, hb, hlt⟩)
    · exact Or.inl h
    · exact Or.inr ⟨heq, Or.inl h⟩
    · rw [carries_iff] at ha hb
      push Not at ha hb
      refine Or.inr ⟨hb.1.trans ha.1.symm, Or.inr ⟨?_, hlt⟩⟩
      grind

/-- With every required name, and a declared one where there are any. -/
def Complete (readers : Readers δ) (keySets : KeySets) (obj : δ) : Prop :=
  (perfect keySets).above (rank readers keySets obj) = false

/-- Without names the first object is the answer. With names it is the first of the highest rank, unless that one
holds names and none of the schema's; an object without a name of the schema never stands before one with. Where a
decode raises, the answer is a complete object read before it or that error. -/
theorem extractJson_first_of_highest_rank (readers : Readers δ) (text : List Char) (schema : Json) :
    (∀ a b, outranks readers (schemaKeySets readers schema) a b = true ↔
      (rank readers (schemaKeySets readers schema) b).required <
        (rank readers (schemaKeySets readers schema) a).required ∨
      ((rank readers (schemaKeySets readers schema) b).required =
          (rank readers (schemaKeySets readers schema) a).required ∧
        (rank readers (schemaKeySets readers schema) b).answers = false ∧
        (rank readers (schemaKeySets readers schema) a).answers = true) ∨
      (¬Carries readers (schemaKeySets readers schema) a ∧ ¬Carries readers (schemaKeySets readers schema) b ∧
        (rank readers (schemaKeySets readers schema) b).standing <
          (rank readers (schemaKeySets readers schema) a).standing)) ∧
    ((schemaKeySets readers schema).declared = ∅ ∧ (schemaKeySets readers schema).required = ∅ →
      ∀ obj, (candidates readers text).1.head? = some obj → extractJson readers text schema = .answer obj) ∧
    (¬((schemaKeySets readers schema).declared = ∅ ∧ (schemaKeySets readers schema).required = ∅) →
      ((candidates readers text).2 = false → (candidates readers text).1 ≠ [] →
        ∃ obj, IsLeader (outranks readers (schemaKeySets readers schema)) obj (candidates readers text).1 ∧
          (∀ x ∈ (candidates readers text).1, Carries readers (schemaKeySets readers schema) x →
            Carries readers (schemaKeySets readers schema) obj) ∧
          (readers.names obj = [] ∨ Carries readers (schemaKeySets readers schema) obj →
            extractJson readers text schema = .answer obj) ∧
          (¬(readers.names obj = [] ∨ Carries readers (schemaKeySets readers schema) obj) →
            extractJson readers text schema = .parseError "no JSON object in the text answers the schema")) ∧
      ((candidates readers text).2 = true →
        (∃ obj, Complete readers (schemaKeySets readers schema) obj ∧
          Carries readers (schemaKeySets readers schema) obj ∧
          IsLeader (outranks readers (schemaKeySets readers schema)) obj (candidates readers text).1 ∧
          extractJson readers text schema = .answer obj) ∨
        (∀ x ∈ (candidates readers text).1, ¬Complete readers (schemaKeySets readers schema) x) ∧
          extractJson readers text schema = .error)) := by
  refine ⟨fun a b => outranks_iff, ?_, ?_⟩
  · intro hnames obj hhead
    have hscan := @scan_of_no_names _ readers _ (stripThink text) 15 hnames none 0 0 obj hhead
    exact congrArg (conclude readers (schemaKeySets readers schema) (stripThink text)) hscan
  · intro hnames
    have hstanding : Standing readers (schemaKeySets readers schema) [] none := ⟨by simp, rfl⟩
    have hscan := @scan_eq_weigh _ readers _ (stripThink text) 15 hnames none 0 0 rfl
    have hspec := @weigh_spec _ readers _ hnames (candidates readers text).2 [] (candidates readers text).1 none hstanding
    rw [List.nil_append] at hspec
    have hextract : extractJson readers text schema = conclude readers (schemaKeySets readers schema) (stripThink text)
        (weigh readers (schemaKeySets readers schema) (candidates readers text).2 none (candidates readers text).1) :=
      congrArg (conclude readers (schemaKeySets readers schema) (stripThink text)) hscan
    rcases hspec with ⟨obj, heq, hmem, hcarries, htop, hlead⟩ | ⟨hall, heq⟩
    · rw [heq] at hextract
      constructor
      · intro _ _
        exact ⟨obj, hlead, fun _ _ _ => hcarries, fun _ => hextract, fun h => absurd (Or.inr hcarries) h⟩
      · intro _
        exact Or.inl ⟨obj, htop, hcarries, hlead, hextract⟩
    · rw [heq] at hextract
      constructor
      · intro hraised hne
        rw [hraised, if_neg (by decide)] at hextract
        cases hleader : leader (outranks readers (schemaKeySets readers schema)) none (candidates readers text).1 with
        | none => exact absurd (leader_eq_none.mp hleader) hne
        | some obj =>
          have hlead := leader_spec (outranks_strictWeak readers (schemaKeySets readers schema)) hleader
          rw [hleader] at hextract
          refine ⟨obj, hlead, fun x hx hcarries => carries_of_leader hlead hx hcarries, ?_, ?_⟩
          · intro h
            rw [hextract]
            exact if_pos ((answers_iff readers).mpr h)
          · intro h
            rw [hextract]
            exact if_neg fun hanswers => h ((answers_iff readers).mp hanswers)
      · intro hraised
        rw [hraised, if_pos rfl] at hextract
        refine Or.inr ⟨fun x hx hcomplete => ?_, hextract⟩
        have htop := hall x hx
        rw [hcomplete] at htop
        cases htop

end Extract

/-- Dictionaries by their names, read where a list of places says they stand. -/
def readersAt (objs : List (Nat × List String × Nat)) : Readers (List String) where
  names obj := obj.map some
  rawDecode _ i := match objs.find? (·.1 = i) with
    | some (_, obj, stop) => .value (some obj, stop)
    | none => .malformed
  literalEval _ := .malformed
  lower := id

/-- Asked for no schema, an object with a name is returned: nothing judges it. -/
theorem object_without_schema_names_is_returned :
    ¬∀ (δ : Type) (readers : Readers δ) (text : List Char) (schema : Json),
      (candidates readers text).2 = false → (candidates readers text).1 ≠ [] →
        ∃ obj, IsLeader (outranks readers (schemaKeySets readers schema)) obj (candidates readers text).1 ∧
          (extractJson readers text schema = .answer obj ↔
            readers.names obj = [] ∨ Carries readers (schemaKeySets readers schema) obj) := by
  intro h
  have hcandidates : candidates (readersAt [(0, ["foo"], 10)]) "\x7b\"foo\": 1\x7d".toList = ([["foo"]], false) := by
    decide +kernel
  have hhead : (candidates (readersAt [(0, ["foo"], 10)]) "\x7b\"foo\": 1\x7d".toList).1.head? = some ["foo"] := by
    rw [hcandidates]
    rfl
  have hscan := @scan_of_no_names _ (readersAt [(0, ["foo"], 10)]) ⟨∅, ∅⟩ _ 15 ⟨rfl, rfl⟩ none 0 0 _ hhead
  have hextract : extractJson (readersAt [(0, ["foo"], 10)]) "\x7b\"foo\": 1\x7d".toList .null = .answer ["foo"] :=
    congrArg (conclude _ _ _) hscan
  obtain ⟨obj, hlead, hiff⟩ := h (List String) (readersAt [(0, ["foo"], 10)]) "\x7b\"foo\": 1\x7d".toList .null
    (by rw [hcandidates]) (by rw [hcandidates]; exact List.cons_ne_nil _ _)
  rw [hcandidates] at hlead
  obtain rfl := List.mem_singleton.mp hlead.mem
  rcases hiff.mp hextract with hnil | ⟨k, -, hk⟩
  · cases hnil
  · exact absurd hk (Finset.notMem_empty _)

/-- The schema's echo before the answer. -/
def echoedReply : List Char := "\x7b\"type\": \"object\"\x7d \x7b\"a\": 1\x7d".toList

def echoedReaders : Readers (List String) := readersAt [(0, ["type"], 18), (19, ["a"], 27)]

def echoedSchema : Json := .obj [("type", .str "object"), ("properties", .obj [("a", .obj [])])]

theorem echoedReply_answer : extractJson echoedReaders echoedReply echoedSchema = .answer ["a"] := by
  have hcandidates : candidates echoedReaders echoedReply = ([["type"], ["a"]], false) := by decide +kernel
  have hlead : IsLeader (outranks echoedReaders (schemaKeySets echoedReaders echoedSchema)) ["a"] [["type"], ["a"]] :=
    ⟨[["type"]], [], rfl, by decide, by simp⟩
  obtain ⟨obj, hobj, -, hanswer, -⟩ :=
    ((extractJson_first_of_highest_rank echoedReaders echoedReply echoedSchema).2.2 (by decide)).1
      (by rw [hcandidates]) (by rw [hcandidates]; exact List.cons_ne_nil _ _)
  rw [hcandidates] at hobj
  obtain rfl := hobj.unique hlead
  exact hanswer (Or.inr ⟨"a", List.mem_cons_self, by decide⟩)

end LoopLab.Llm.Extract
