import Mathlib.Data.List.Induction
import Mathlib.Data.List.Basic

/-!
# Logs and who writes them

A log that only one writer adds to, and a log whose every append is checked against what it holds.
-/

set_option autoImplicit false

/-!
## Guarded logs

A log each entry of which was let in by what stood before it.
-/

namespace LoopLab.Lib

universe u
variable {α : Type u} {ok : List α → α → Bool} {rows seen : List α} {a : α}

def Guarded (ok : List α → α → Bool) (rows : List α) : Prop :=
  ∀ before a after, rows = before ++ a :: after → ok before a = true

namespace Guarded

def check (ok : List α → α → Bool) : List α → List α → Bool
  | _, [] => true
  | seen, a :: rest => ok seen a && check ok (seen ++ [a]) rest

theorem nil : Guarded ok [] := by
  intro before a after h
  cases before <;> cases h

theorem snoc_iff : Guarded ok (rows ++ [a]) ↔ Guarded ok rows ∧ ok rows a = true := by
  constructor
  · intro h
    refine ⟨?_, h rows a [] rfl⟩
    intro before b after hrows
    exact h before b (after ++ [a]) (by rw [hrows, List.append_assoc, List.cons_append])
  · rintro ⟨hrows, ha⟩ before b after heq
    rcases List.eq_nil_or_concat after with rfl | ⟨init, last, rfl⟩
    · obtain ⟨rfl, hlast⟩ := List.append_inj' heq rfl
      obtain rfl : a = b := (List.cons.inj hlast).1
      exact ha
    · have heq : rows ++ [a] = (before ++ b :: init) ++ [last] := by
        rw [heq, List.concat_eq_append, List.append_assoc, List.cons_append]
      exact hrows before b init (List.append_inj' heq rfl).1

theorem check_iff (hseen : Guarded ok seen) : check ok seen rows = true ↔ Guarded ok (seen ++ rows) := by
  induction rows generalizing seen with
  | nil => simpa [check] using hseen
  | cons a rest ih =>
    rw [check, Bool.and_eq_true, List.append_cons seen a rest]
    constructor
    · rintro ⟨ha, hrest⟩
      exact (ih (snoc_iff.mpr ⟨hseen, ha⟩)).mp hrest
    · intro h
      have ha : ok seen a = true := h seen a rest (List.append_cons ..).symm
      exact ⟨ha, (ih (snoc_iff.mpr ⟨hseen, ha⟩)).mpr h⟩

theorem pairwise {R : α → α → Prop} (h : Guarded ok rows) (hR : ∀ before a, ok before a = true → ∀ b ∈ before, R b a) :
    rows.Pairwise R := by
  induction rows using List.reverseRecOn with
  | nil => exact .nil
  | append_singleton rows a ih =>
    obtain ⟨hrows, ha⟩ := snoc_iff.mp h
    rw [List.pairwise_append]
    refine ⟨ih hrows, List.pairwise_singleton R a, ?_⟩
    intro b hb c hc
    obtain rfl := List.mem_singleton.mp hc
    exact hR rows c ha b hb

end Guarded

end LoopLab.Lib

/-!
## A log with one writer's own rows

Several writers append to one log. A journal is the log beside the rows one of them put there, each with the prefix
it landed on.
-/

namespace LoopLab.Lib

universe u v

structure Journal (ε : Type u) where
  log : List ε
  own : List (List ε × ε) := []

inductive Planned (ε : Type u) (α : Type v) where
  | ends (a : α)
  | adds (e : ε) (a : α)

namespace Journal
variable {ε : Type u} {α : Type v}

def others (j : Journal ε) (rows : List ε) : Journal ε := { j with log := j.log ++ rows }

def append (j : Journal ε) (e : ε) : Journal ε where
  log := j.log ++ [e]
  own := j.own ++ [(j.log, e)]

/-- `moves` has what the others append while each try plans. -/
def retry (plan : List ε → Planned ε α) : Nat → List (List ε) → Journal ε → Option α × Journal ε
  | 0, _, j => (none, j)
  | tries + 1, moves, j =>
    match plan j.log with
    | .ends a => (some a, j)
    | .adds e a =>
      match moves with
      | (r :: rows) :: moves => retry plan tries moves (j.others (r :: rows))
      | _ => (some a, j.append e)

def Quiet (moves : List (List ε)) : Prop := ∀ rows rest, moves = rows :: rest → rows = []

def Lost (plan : List ε → Planned ε α) : List (List ε) → List ε → Prop
  | [], _ => True
  | rows :: lost, log => rows ≠ [] ∧ (∃ e a, plan log = .adds e a) ∧ Lost plan lost (log ++ rows)

variable {plan : List ε → Planned ε α} {tries : Nat} {moves lost rest : List (List ε)} {j : Journal ε}

@[simp] theorem others_log (rows : List ε) : (j.others rows).log = j.log ++ rows := rfl
@[simp] theorem others_own (rows : List ε) : (j.others rows).own = j.own := rfl
@[simp] theorem append_log (e : ε) : (j.append e).log = j.log ++ [e] := rfl
@[simp] theorem append_own (e : ε) : (j.append e).own = j.own ++ [(j.log, e)] := rfl

theorem others_nil : j.others [] = j := by
  unfold others
  rw [List.append_nil]

theorem others_others (xs ys : List ε) : (j.others xs).others ys = j.others (xs ++ ys) := by
  unfold others
  rw [List.append_assoc]

theorem retry_lost (h : Lost plan lost j.log) : retry plan (lost.length + tries) (lost ++ rest) j =
    retry plan tries rest (j.others lost.flatten) := by
  induction lost generalizing j with
  | nil => rw [List.length_nil, Nat.zero_add, List.nil_append, List.flatten_nil, others_nil]
  | cons rows lost ih =>
    obtain ⟨hrows, ⟨e, a, hplan⟩, hlost⟩ := h
    obtain ⟨r, rows, rfl⟩ := List.exists_cons_of_ne_nil hrows
    rw [List.length_cons, Nat.add_right_comm, List.cons_append, List.flatten_cons, ← others_others]
    conv_lhs => unfold retry
    rw [hplan]
    exact ih hlost

theorem retry_ends {a : α} (h : Lost plan lost j.log) (hlt : lost.length < tries)
    (hplan : plan (j.log ++ lost.flatten) = .ends a) :
    retry plan tries (lost ++ rest) j = (some a, j.others lost.flatten) := by
  obtain ⟨n, rfl⟩ := Nat.exists_eq_add_of_lt hlt
  rw [Nat.add_assoc, retry_lost h]
  unfold retry
  rw [others_log, hplan]

theorem retry_adds {e : ε} {a : α} (h : Lost plan lost j.log) (hlt : lost.length < tries)
    (hplan : plan (j.log ++ lost.flatten) = .adds e a) (hquiet : Quiet rest) :
    retry plan tries (lost ++ rest) j = (some a, (j.others lost.flatten).append e) := by
  obtain ⟨n, rfl⟩ := Nat.exists_eq_add_of_lt hlt
  rw [Nat.add_assoc, retry_lost h]
  unfold retry
  rw [others_log, hplan]
  dsimp only
  split
  · next r rows moves => cases hquiet _ _ rfl
  · rfl

theorem retry_spent (h : Lost plan lost j.log) (hlength : lost.length = tries) :
    retry plan tries (lost ++ rest) j = (none, j.others lost.flatten) := by
  rw [← hlength, ← Nat.add_zero lost.length, retry_lost h]
  rfl

def Decides (plan : List ε → Planned ε α) (tries : Nat) (log : List ε) (lost rest : List (List ε)) : Prop :=
  lost.length = tries ∨ lost.length < tries ∧ ((∃ a, plan (log ++ lost.flatten) = .ends a) ∨
    (∃ e a, plan (log ++ lost.flatten) = .adds e a) ∧ Quiet rest)

theorem retry_cases (plan : List ε → Planned ε α) (tries : Nat) (moves : List (List ε)) (log : List ε) :
    ∃ lost rest, moves = lost ++ rest ∧ Lost plan lost log ∧ Decides plan tries log lost rest := by
  induction tries generalizing moves log with
  | zero => exact ⟨[], moves, rfl, trivial, .inl rfl⟩
  | succ tries ih =>
    cases hplan : plan log with
    | ends a =>
      refine ⟨[], moves, rfl, trivial, .inr ⟨Nat.succ_pos _, .inl ⟨a, ?_⟩⟩⟩
      rw [List.flatten_nil, List.append_nil, hplan]
    | adds e a =>
      by_cases hquiet : Quiet moves
      · refine ⟨[], moves, rfl, trivial, .inr ⟨Nat.succ_pos _, .inr ⟨⟨e, a, ?_⟩, hquiet⟩⟩⟩
        rw [List.flatten_nil, List.append_nil, hplan]
      · unfold Quiet at hquiet
        push Not at hquiet
        obtain ⟨rows, later, rfl, hrows⟩ := hquiet
        obtain ⟨lost, rest, rfl, hlost, hends⟩ := ih later (log ++ rows)
        refine ⟨rows :: lost, rest, rfl, ⟨hrows, ⟨e, a, hplan⟩, hlost⟩, ?_⟩
        unfold Decides at hends ⊢
        rw [List.flatten_cons, ← List.append_assoc, List.length_cons]
        rcases hends with hlength | ⟨hlt, hends⟩
        · exact .inl (by omega)
        · exact .inr ⟨by omega, hends⟩

theorem Lost.at {rows : List ε} {log : List ε} (h : Lost plan (lost ++ rows :: rest) log) :
    rows ≠ [] ∧ ∃ e a, plan (log ++ lost.flatten) = .adds e a := by
  induction lost generalizing log with
  | nil =>
    rw [List.flatten_nil, List.append_nil]
    exact ⟨h.1, h.2.1⟩
  | cons first lost ih =>
    rw [List.flatten_cons, ← List.append_assoc]
    exact ih h.2.2

theorem Decides.length_le {log : List ε} {lost' rest' : List (List ε)} (h : Decides plan tries log lost rest)
    (hmoves : lost ++ rest = lost' ++ rest') (hlost : Lost plan lost' log) (hle : lost'.length ≤ tries) :
    lost'.length ≤ lost.length := by
  by_contra hlt
  rw [Nat.not_le] at hlt
  obtain ⟨more, rfl, hrest⟩ : ∃ more, lost' = lost ++ more ∧ rest = more ++ rest' := by
    rcases List.append_eq_append_iff.mp hmoves with ⟨more, hlost, hrest⟩ | ⟨more, hlost, -⟩
    · exact ⟨more, hlost, hrest⟩
    · rw [hlost, List.length_append] at hlt
      omega
  cases more with
  | nil =>
    rw [List.append_nil] at hlt
    exact Nat.lt_irrefl _ hlt
  | cons rows more =>
    obtain ⟨hrows, e, a, hplan⟩ := hlost.at
    rcases h with hlength | ⟨-, ⟨b, hends⟩ | ⟨-, hquiet⟩⟩
    · omega
    · rw [hplan] at hends
      cases hends
    · exact hrows (hquiet rows (more ++ rest') hrest)

theorem Decides.unique {log : List ε} {lost' rest' : List (List ε)} (h : Decides plan tries log lost rest)
    (h' : Decides plan tries log lost' rest') (hmoves : lost ++ rest = lost' ++ rest')
    (hlost : Lost plan lost log) (hlost' : Lost plan lost' log) : lost' = lost ∧ rest' = rest := by
  have hbound : lost.length ≤ tries := h.elim Nat.le_of_eq fun h => Nat.le_of_lt h.1
  have hbound' : lost'.length ≤ tries := h'.elim Nat.le_of_eq fun h => Nat.le_of_lt h.1
  have hle := h.length_le hmoves hlost' hbound'
  have hle' := h'.length_le hmoves.symm hlost hbound
  obtain ⟨rfl, rfl⟩ := List.append_inj hmoves (by omega)
  exact ⟨rfl, rfl⟩

end Journal

end LoopLab.Lib
