import Mathlib.Data.List.Basic

/-!
# Patterns over characters

Backtracking patterns as scripting languages have them: an alternative tries its first branch first, a repetition
takes as much as it can and gives back what the rest needs.
-/

set_option autoImplicit false

namespace LoopLab.Lib

/-- Where a pattern is tried: what stands before, the nearest character first, what follows, and the
groups matched so far. -/
structure Cursor where
  before : List Char
  after : List Char
  groups : List (Nat × List Char) := []

namespace Cursor

def advance (s : Cursor) (c : Char) (rest : List Char) : Cursor :=
  { s with before := c :: s.before, after := rest }

def since (t s : Cursor) : List Char := (t.before.take (t.before.length - s.before.length)).reverse

end Cursor

inductive Pattern where
  | empty
  | char (p : Char → Bool)
  | seq (p q : Pattern)
  | alt (p q : Pattern)
  | many (p : Pattern)
  | group (n : Nat) (p : Pattern)
  | check (look : List Char → List Char → Bool)

namespace Pattern

abbrev Rest := Cursor → Option Cursor

def repeated (step : Cursor → Rest → Option Cursor) : Nat → Cursor → Rest → Option Cursor
  | 0, s, k => k s
  | n + 1, s, k =>
    match step s fun t => if t.after.length < s.after.length then repeated step n t k else none with
    | some t => some t
    | none => k s

def run : Pattern → Cursor → Rest → Option Cursor
  | empty, s, k => k s
  | char p, s, k =>
    match s.after with
    | [] => none
    | c :: rest => if p c then k (s.advance c rest) else none
  | seq p q, s, k => run p s fun t => run q t k
  | alt p q, s, k =>
    match run p s k with
    | some t => some t
    | none => run q s k
  | many p, s, k => repeated (run p) s.after.length s k
  | group n p, s, k => run p s fun t => k { t with groups := (n, t.since s) :: t.groups }
  | check look, s, k => if look s.before s.after then k s else none

/-! ## Common shapes -/

def ofChars (same : Char → Char → Bool) : List Char → Pattern
  | [] => empty
  | c :: cs => seq (char (same c)) (ofChars same cs)

def lit (s : String) : Pattern := ofChars (fun c d => c = d) s.toList

def oneOf : List Pattern → Pattern
  | [] => check fun _ _ => false
  | [p] => p
  | p :: ps => alt p (oneOf ps)

def opt (p : Pattern) : Pattern := alt p empty

def plus (p : Pattern) : Pattern := seq p (many p)

def exactly (p : Pattern) : Nat → Pattern
  | 0 => empty
  | n + 1 => seq p (exactly p n)

def atLeast (n : Nat) (p : Pattern) : Pattern := seq (exactly p n) (many p)

def all : List Pattern → Pattern
  | [] => empty
  | [p] => p
  | p :: ps => seq p (all ps)

def notBehind (p : Char → Bool) : Pattern := check fun before _ => !(before.head?.any p)

def behind (s : String) : Pattern := check fun before _ => s.toList.reverse.isPrefixOf before

def boundary (word : Char → Bool) : Pattern :=
  check fun before after => before.head?.any word != after.head?.any word

end Pattern

/-! ## Replacing -/

structure Match where
  whole : List Char
  groups : List (Nat × List Char)

def Match.get (m : Match) (n : Nat) : List Char := (m.groups.lookup n).getD []

namespace Pattern
variable (p : Pattern)

def matchAt (s : Cursor) : Option (Match × Cursor) :=
  (p.run s some).map fun t => ({ whole := t.since s, groups := t.groups }, t)

/-- `re.sub`, for patterns that take a character at least. -/
def subFrom (repl : Match → List Char) : Nat → List Char → List Char → List Char
  | 0, _, after => after
  | n + 1, before, after =>
    match (p.matchAt { before, after }).filter fun m => m.2.after.length < after.length with
    | some (m, t) => repl m ++ subFrom repl n t.before t.after
    | none =>
      match after with
      | [] => []
      | c :: rest => c :: subFrom repl n (c :: before) rest

def sub (repl : Match → List Char) (text : List Char) : List Char :=
  p.subFrom repl text.length [] text

/-- `re.finditer`, the texts of the matches. -/
def findFrom : Nat → List Char → List Char → List (List Char)
  | 0, _, _ => []
  | n + 1, before, after =>
    match (p.matchAt { before, after }).filter fun m => m.2.after.length < after.length with
    | some (m, t) => m.whole :: findFrom n t.before t.after
    | none =>
      match after with
      | [] => []
      | c :: rest => findFrom n (c :: before) rest

def findAll (text : List Char) : List (List Char) := p.findFrom text.length [] text

/-- `re.finditer` -/
def matchesFrom : Nat → List Char → List Char → List Match
  | 0, _, _ => []
  | n + 1, before, after =>
    match (p.matchAt { before, after }).filter fun m => m.2.after.length < after.length with
    | some (m, t) => m :: matchesFrom n t.before t.after
    | none =>
      match after with
      | [] => []
      | c :: rest => matchesFrom n (c :: before) rest

def finditer (text : List Char) : List Match := p.matchesFrom text.length [] text

/-- `re.search` finds something. -/
def found (text : List Char) : Bool :=
  text.tails.any fun rest => (p.run { before := (text.take (text.length - rest.length)).reverse, after := rest } some).isSome

end Pattern

/-! ## What a match takes -/

/-- `taken` lies between the two cursors. -/
def Cursor.Leads (s : Cursor) (taken : List Char) (u : Cursor) : Prop :=
  u.before = taken.reverse ++ s.before ∧ s.after = taken ++ u.after

/-- The same place in a longer text. -/
def Cursor.within (s : Cursor) (a b : List Char) : Cursor := { s with before := s.before ++ a, after := s.after ++ b }

section Leads
variable {s t u : Cursor} {xs ys a b : List Char}

theorem Cursor.Leads.refl (s : Cursor) : s.Leads [] s := ⟨rfl, rfl⟩

theorem Cursor.Leads.trans (h : s.Leads xs t) (h' : t.Leads ys u) : s.Leads (xs ++ ys) u := by
  obtain ⟨hbefore, hafter⟩ := h
  obtain ⟨hbefore', hafter'⟩ := h'
  constructor
  · rw [hbefore', hbefore, List.reverse_append, List.append_assoc]
  · rw [hafter, hafter', List.append_assoc]

theorem Cursor.leads_advance {c : Char} {rest : List Char} (h : s.after = c :: rest) : s.Leads [c] (s.advance c rest) := ⟨rfl, h⟩

theorem Cursor.since_within : (t.within a b).since (s.within a b) = t.since s := by
  unfold Cursor.since Cursor.within
  dsimp only
  rw [List.length_append, List.length_append, Nat.add_sub_add_right, List.take_append_of_le_length (Nat.sub_le _ _)]

end Leads

namespace Pattern

/-- The characters that a match can take. -/
def takes : Pattern → Char → Bool
  | empty, _ => false
  | char p, c => p c
  | seq p q, c => p.takes c || q.takes c
  | alt p q, c => p.takes c || q.takes c
  | many p, c => p.takes c
  | group _ p, c => p.takes c
  | check _, _ => false

/-- No part of the pattern looks beyond what it takes. -/
def plain : Pattern → Bool
  | empty => true
  | char _ => true
  | seq p q => p.plain && q.plain
  | alt p q => p.plain && q.plain
  | many p => p.plain
  | group _ p => p.plain
  | check _ => false

/-- No match of the pattern is empty. -/
def needs : Pattern → Bool
  | empty => false
  | char _ => true
  | seq p q => p.needs || q.needs
  | alt p q => p.needs && q.needs
  | many _ => false
  | group _ p => p.needs
  | check _ => false

section Run
variable {p q : Pattern} {s t : Cursor} {k k' : Rest} {a b : List Char}

theorem repeated_takes {step : Cursor → Rest → Option Cursor} {ok : Char → Bool}
    (hstep : ∀ {s k t}, step s k = some t → ∃ taken u, s.Leads taken u ∧ (∀ c ∈ taken, ok c = true) ∧ k u = some t) (n : Nat)
    (s : Cursor) (h : repeated step n s k = some t) :
    ∃ taken u, s.Leads taken u ∧ (∀ c ∈ taken, ok c = true) ∧ k u = some t := by
  induction n generalizing s with
  | zero => exact ⟨[], s, .refl s, nofun, h⟩
  | succ n ih =>
    unfold repeated at h
    split at h
    · rename_i found hfound
      cases h
      obtain ⟨taken, u, hlead, htaken, hu⟩ := hstep hfound
      split at hu
      · obtain ⟨more, v, hlead', hmore, hv⟩ := ih u hu
        exact ⟨taken ++ more, v, hlead.trans hlead', List.forall_mem_append.mpr ⟨htaken, hmore⟩, hv⟩
      · cases hu
    · exact ⟨[], s, .refl s, nofun, h⟩

/-- A match takes a piece of what follows, and goes on behind it. -/
theorem run_takes (h : p.run s k = some t) : ∃ taken u, s.Leads taken u ∧ (∀ c ∈ taken, p.takes c = true) ∧
    (p.needs = true → taken ≠ []) ∧ k u = some t := by
  induction p generalizing s k t with
  | empty => exact ⟨[], s, .refl s, nofun, nofun, h⟩
  | char ok =>
    unfold run at h
    split at h
    · cases h
    · rename_i c rest hafter
      split at h
      · rename_i hok
        exact ⟨[c], _, Cursor.leads_advance hafter, List.forall_mem_singleton.mpr hok, fun _ => List.cons_ne_nil c [], h⟩
      · cases h
  | seq p q ihp ihq =>
    obtain ⟨taken, u, hlead, htaken, hneeds, hu⟩ := ihp h
    obtain ⟨more, v, hlead', hmore, hneeds', hv⟩ := ihq hu
    refine ⟨taken ++ more, v, hlead.trans hlead', ?_, ?_, hv⟩
    · intro c hc
      unfold takes
      rcases List.mem_append.mp hc with hc | hc
      · rw [htaken c hc, Bool.true_or]
      · rw [hmore c hc, Bool.or_true]
    · intro hone hnil
      obtain ⟨hleft, hright⟩ := List.append_eq_nil_iff.mp hnil
      rcases Bool.or_eq_true_iff.mp hone with hp | hq
      · exact hneeds hp hleft
      · exact hneeds' hq hright
  | alt p q ihp ihq =>
    unfold run at h
    split at h
    · rename_i found hfound
      cases h
      obtain ⟨taken, u, hlead, htaken, hneeds, hu⟩ := ihp hfound
      exact ⟨taken, u, hlead, fun c hc => by rw [takes, htaken c hc, Bool.true_or],
        fun hboth => hneeds (Bool.and_eq_true_iff.mp hboth).1, hu⟩
    · obtain ⟨taken, u, hlead, htaken, hneeds, hu⟩ := ihq h
      exact ⟨taken, u, hlead, fun c hc => by rw [takes, htaken c hc, Bool.or_true],
        fun hboth => hneeds (Bool.and_eq_true_iff.mp hboth).2, hu⟩
  | many p ih =>
    have hstep {s : Cursor} {k : Rest} {t : Cursor} (h : p.run s k = some t) :
        ∃ taken u, s.Leads taken u ∧ (∀ c ∈ taken, p.takes c = true) ∧ k u = some t := by
      obtain ⟨taken, u, hlead, htaken, -, hu⟩ := ih h
      exact ⟨taken, u, hlead, htaken, hu⟩
    obtain ⟨taken, u, hlead, htaken, hu⟩ := repeated_takes hstep _ s h
    exact ⟨taken, u, hlead, htaken, nofun, hu⟩
  | group n p ih =>
    obtain ⟨taken, u, hlead, htaken, hneeds, hu⟩ := ih h
    exact ⟨taken, { u with groups := (n, u.since s) :: u.groups }, hlead, htaken, hneeds, hu⟩
  | check look =>
    unfold run at h
    split at h
    · exact ⟨[], s, .refl s, nofun, nofun, h⟩
    · cases h

theorem run_none (p : Pattern) (s : Cursor) : p.run s (fun _ => none) = none := by
  cases h : p.run s (fun _ => none) with
  | none => rfl
  | some t =>
    obtain ⟨-, -, -, -, -, hnone⟩ := run_takes h
    cases hnone

theorem within_shorter (u s : Cursor) : (u.within a b).after.length < (s.within a b).after.length ↔ u.after.length < s.after.length := by
  unfold Cursor.within
  rw [List.length_append, List.length_append, Nat.add_lt_add_iff_right]

theorem repeated_within (hp : ∀ {s : Cursor} {k k' : Rest}, (∀ u, k' (u.within a b) = (k u).map (·.within a b)) →
      p.run (s.within a b) k' = (p.run s k).map (·.within a b))
    (hk : ∀ u, k' (u.within a b) = (k u).map (·.within a b)) (n m : Nat) (s : Cursor) (hn : s.after.length ≤ n) (hm : n ≤ m) :
    repeated p.run m (s.within a b) k' = (repeated p.run n s k).map (·.within a b) := by
  induction n generalizing s m with
  | zero =>
    cases m with
    | zero => exact hk s
    | succ m =>
      have hstep := @hp s (fun _ => none) (fun t => if t.after.length < (s.within a b).after.length then
        repeated p.run m t k' else none) (by
          intro u
          rw [if_neg]
          · rfl
          · rw [within_shorter]
            omega)
      rw [run_none] at hstep
      unfold repeated
      rw [hstep]
      exact hk s
  | succ n ih =>
    obtain ⟨m, rfl⟩ : ∃ j, m = j + 1 := ⟨m - 1, by omega⟩
    have hstep := @hp s (fun t => if t.after.length < s.after.length then repeated p.run n t k else none)
      (fun t => if t.after.length < (s.within a b).after.length then repeated p.run m t k' else none) (by
        intro u
        by_cases hless : u.after.length < s.after.length
        · rw [if_pos ((within_shorter u s).mpr hless), if_pos hless]
          exact ih m u (by omega) (by omega)
        · rw [if_neg fun h => hless ((within_shorter u s).mp h), if_neg hless]
          rfl)
    unfold repeated
    rw [hstep]
    cases p.run s fun t => if t.after.length < s.after.length then repeated p.run n t k else none with
    | none => exact hk s
    | some t => rfl

/-- A plain pattern does not see what stands around a text, where it cannot go on behind it. -/
theorem run_within (hplain : p.plain = true) (hb : ∀ c ∈ b.head?, p.takes c = false)
    (hk : ∀ u, k' (u.within a b) = (k u).map (·.within a b)) :
    p.run (s.within a b) k' = (p.run s k).map (·.within a b) := by
  induction p generalizing s k k' with
  | empty => exact hk s
  | char ok =>
    unfold run
    cases hafter : s.after with
    | nil =>
      unfold Cursor.within
      rw [hafter, List.nil_append]
      cases b with
      | nil => rfl
      | cons c b =>
        dsimp only
        have hc : ok c = false := hb c rfl
        rw [hc]
        rfl
    | cons c rest =>
      have hnext : (s.within a b).after = c :: (rest ++ b) := by
        unfold Cursor.within
        rw [hafter]
        rfl
      rw [hnext]
      dsimp only
      split
      · exact hk (s.advance c rest)
      · rfl
  | seq p q ihp ihq =>
    obtain ⟨hplainp, hplainq⟩ := Bool.and_eq_true_iff.mp hplain
    have hb' (c : Char) (hc : c ∈ b.head?) : p.takes c = false ∧ q.takes c = false := Bool.or_eq_false_iff.mp (hb c hc)
    exact ihp hplainp (fun c hc => (hb' c hc).1) fun u => ihq hplainq (fun c hc => (hb' c hc).2) hk
  | alt p q ihp ihq =>
    obtain ⟨hplainp, hplainq⟩ := Bool.and_eq_true_iff.mp hplain
    have hb' (c : Char) (hc : c ∈ b.head?) : p.takes c = false ∧ q.takes c = false := Bool.or_eq_false_iff.mp (hb c hc)
    have hfirst := ihp (s := s) hplainp (fun c hc => (hb' c hc).1) hk
    have hsecond := ihq (s := s) hplainq (fun c hc => (hb' c hc).2) hk
    unfold run
    rw [hfirst, hsecond]
    cases p.run s k with
    | none => rfl
    | some t => rfl
  | many p ih =>
    apply repeated_within (fun hk => ih hplain hb hk) hk
    · exact Nat.le_refl _
    · unfold Cursor.within
      rw [List.length_append]
      exact Nat.le_add_right _ _
  | group n p ih =>
    apply ih hplain hb
    intro u
    rw [Cursor.since_within]
    exact hk { u with groups := (n, u.since s) :: u.groups }
  | check look => cases hplain

/-- A repetition of characters takes all that it can, where the rest goes on behind them. -/
theorem run_many_char {ok : Char → Bool} {xs rest before : List Char} {groups : List (Nat × List Char)}
    (hxs : ∀ c ∈ xs, ok c = true) (hrest : ∀ c ∈ rest.head?, ok c = false)
    (hk : k ⟨xs.reverse ++ before, rest, groups⟩ = some t) : (many (char ok)).run ⟨before, xs ++ rest, groups⟩ k = some t := by
  have hall (n : Nat) (hn : xs.length ≤ n) : repeated (char ok).run n ⟨before, xs ++ rest, groups⟩ k = some t := by
    induction xs generalizing before n with
    | nil =>
      cases n with
      | zero => exact hk
      | succ n =>
        unfold repeated run
        cases rest with
        | nil => exact hk
        | cons c rest =>
          dsimp only [List.nil_append]
          rw [hrest c rfl]
          exact hk
    | cons c xs ih =>
      obtain ⟨n, rfl⟩ : ∃ j, n = j + 1 := ⟨n - 1, by simp at hn; omega⟩
      have hnext : repeated (char ok).run n ⟨c :: before, xs ++ rest, groups⟩ k = some t := by
        apply ih (List.forall_mem_cons.mp hxs).2 ?_ n (by simpa using hn)
        rw [List.reverse_cons, List.append_assoc] at hk
        exact hk
      unfold repeated run Cursor.advance
      dsimp only [List.cons_append]
      have hless : (xs ++ rest).length < (c :: (xs ++ rest)).length := Nat.lt_succ_self _
      rw [(List.forall_mem_cons.mp hxs).1, if_pos rfl, if_pos hless, hnext]
  apply hall
  dsimp only
  rw [List.length_append]
  exact Nat.le_add_right _ _

theorem run_ofChars {same : Char → Char → Bool} {cs xs rest before : List Char} {groups : List (Nat × List Char)}
    (h : List.Forall₂ (fun c x => same c x = true) cs xs) :
    (ofChars same cs).run ⟨before, xs ++ rest, groups⟩ k = k ⟨xs.reverse ++ before, rest, groups⟩ := by
  induction h generalizing before with
  | nil => rfl
  | @cons c x cs xs hc _ ih =>
    unfold ofChars run
    unfold run
    dsimp only [List.cons_append]
    rw [if_pos hc]
    exact (ih).trans (by rw [List.reverse_cons, List.append_assoc]; rfl)

/-- What a text spells is taken character by character. -/
theorem ofChars_takes {same : Char → Char → Bool} {cs : List Char} (h : (ofChars same cs).run s k = some t) :
    ∃ xs u, List.Forall₂ (fun c x => same c x = true) cs xs ∧ s.Leads xs u ∧ u.groups = s.groups ∧ k u = some t := by
  induction cs generalizing s with
  | nil => exact ⟨[], s, .nil, .refl s, rfl, h⟩
  | cons c cs ih =>
    unfold ofChars run at h
    unfold run at h
    split at h
    · cases h
    · rename_i x rest hafter
      split at h
      · rename_i hsame
        obtain ⟨xs, u, hall, hlead, hgroups, hu⟩ := ih h
        exact ⟨x :: xs, u, .cons hsame hall, (Cursor.leads_advance hafter).trans hlead, hgroups, hu⟩
      · cases h

theorem many_char_takes {ok : Char → Bool} (h : (many (char ok)).run s k = some t) :
    ∃ xs u, (∀ c ∈ xs, ok c = true) ∧ s.Leads xs u ∧ u.groups = s.groups ∧ k u = some t := by
  have hall (n : Nat) (s : Cursor) (h : repeated (char ok).run n s k = some t) :
      ∃ xs u, (∀ c ∈ xs, ok c = true) ∧ s.Leads xs u ∧ u.groups = s.groups ∧ k u = some t := by
    induction n generalizing s with
    | zero => exact ⟨[], s, nofun, .refl s, rfl, h⟩
    | succ n ih =>
      unfold repeated at h
      split at h
      · rename_i found hfound
        cases h
        unfold run at hfound
        split at hfound
        · cases hfound
        · rename_i c rest hafter
          split at hfound
          · rename_i hok
            dsimp only at hfound
            split at hfound
            · obtain ⟨xs, u, hxs, hlead, hgroups, hu⟩ := ih _ hfound
              exact ⟨c :: xs, u, List.forall_mem_cons.mpr ⟨hok, hxs⟩, (Cursor.leads_advance hafter).trans hlead, hgroups, hu⟩
            · cases hfound
          · cases hfound
      · exact ⟨[], s, nofun, .refl s, rfl, h⟩
  exact hall _ s h

end Run

section Finditer
variable {p : Pattern} {m : Match} {t : Cursor} {before after u v : List Char}

theorem matchAt_leads {s : Cursor} (h : p.matchAt s = some (m, t)) : ∃ taken, s.Leads taken t ∧ ∀ c ∈ taken, p.takes c = true := by
  obtain ⟨x, hx, heq⟩ := Option.map_eq_some_iff.mp h
  obtain ⟨taken, u, hlead, htaken, -, hu⟩ := run_takes hx
  obtain rfl := Option.some.inj hu
  cases heq
  exact ⟨taken, hlead, htaken⟩

theorem mem_matchesFrom {n : Nat} (h : m ∈ p.matchesFrom n before after) :
    ∃ u v t, after = u ++ v ∧ p.matchAt ⟨u.reverse ++ before, v, []⟩ = some (m, t) ∧ t.after.length < v.length := by
  induction n generalizing before after with
  | zero => cases h
  | succ n ih =>
    unfold matchesFrom at h
    split at h
    · rename_i m' t' hfound
      obtain ⟨hmatch, hshorter⟩ := Option.filter_eq_some_iff.mp hfound
      rcases List.mem_cons.mp h with rfl | h
      · exact ⟨[], after, t', rfl, hmatch, of_decide_eq_true hshorter⟩
      · obtain ⟨taken, ⟨hbefore, hafter⟩, -⟩ := matchAt_leads hmatch
        obtain ⟨u, v, t, hsplit, hm, ht⟩ := ih h
        refine ⟨taken ++ u, v, t, ?_, ?_, ht⟩
        · dsimp only at hafter
          rw [hafter, hsplit, List.append_assoc]
        · rw [List.reverse_append, List.append_assoc, ← hbefore]
          exact hm
    · cases after with
      | nil => cases h
      | cons c rest =>
        obtain ⟨u, v, t, hsplit, hm, ht⟩ := ih h
        refine ⟨c :: u, v, t, congrArg (c :: ·) hsplit, ?_, ht⟩
        rw [List.reverse_cons, List.append_assoc]
        exact hm

/-- Where the pattern matches, `finditer` has a match that starts there, or one that started before and reaches it. -/
theorem matchesFrom_covers {n : Nat} (hn : after.length ≤ n) (hsplit : after = u ++ v)
    (hm : p.matchAt ⟨u.reverse ++ before, v, []⟩ = some (m, t)) (ht : t.after.length < v.length) :
    ∃ u₀ v₀ m₀ t₀, after = u₀ ++ v₀ ∧ u₀.length ≤ u.length ∧ p.matchAt ⟨u₀.reverse ++ before, v₀, []⟩ = some (m₀, t₀) ∧
      t₀.after.length < v.length ∧ m₀ ∈ p.matchesFrom n before after := by
  induction n generalizing before after u with
  | zero =>
    rw [hsplit, List.length_append] at hn
    omega
  | succ n ih =>
    unfold matchesFrom
    cases hfound : (p.matchAt ⟨before, after, []⟩).filter fun m => decide (m.2.after.length < after.length) with
    | some found =>
      obtain ⟨m₀, t₀⟩ := found
      obtain ⟨hmatch, hshorter⟩ := Option.filter_eq_some_iff.mp hfound
      have hless : t₀.after.length < after.length := of_decide_eq_true hshorter
      dsimp only
      by_cases hreach : t₀.after.length < v.length
      · exact ⟨[], after, m₀, t₀, rfl, Nat.zero_le _, hmatch, hreach, List.mem_cons_self⟩
      · obtain ⟨taken, ⟨hbefore, hafter⟩, -⟩ := matchAt_leads hmatch
        dsimp only at hbefore hafter
        obtain ⟨u', hu', hv'⟩ : ∃ u', u = taken ++ u' ∧ t₀.after = u' ++ v := by
          rcases List.append_eq_append_iff.mp (hafter.symm.trans hsplit) with ⟨u', hu, hv⟩ | ⟨u', htaken, hv⟩
          · exact ⟨u', hu, hv⟩
          · have hlength := congrArg List.length hv
            rw [List.length_append] at hlength
            have hnil : u' = [] := List.length_eq_zero_iff.mp (by omega)
            rw [hnil, List.append_nil] at htaken
            rw [hnil, List.nil_append] at hv
            exact ⟨[], by rw [List.append_nil, htaken], hv.symm⟩
        have hm' : p.matchAt ⟨u'.reverse ++ t₀.before, v, []⟩ = some (m, t) := by
          rw [hbefore, ← List.append_assoc, ← List.reverse_append, ← hu']
          exact hm
        obtain ⟨u₁, v₁, m₁, t₁, hsplit₁, hle, hmatch₁, hreach₁, hmem⟩ := ih (by omega) hv' hm'
        refine ⟨taken ++ u₁, v₁, m₁, t₁, ?_, ?_, ?_, hreach₁, List.mem_cons_of_mem _ hmem⟩
        · rw [hafter, hsplit₁, List.append_assoc]
        · rw [hu', List.length_append, List.length_append]
          omega
        · rw [List.reverse_append, List.append_assoc, ← hbefore]
          exact hmatch₁
    | none =>
      dsimp only
      cases u with
      | nil =>
        obtain rfl := hsplit
        have hm' : p.matchAt ⟨before, after, []⟩ = some (m, t) := hm
        rw [hm', Option.filter_some, if_pos (decide_eq_true ht)] at hfound
        cases hfound
      | cons c u =>
        obtain rfl := hsplit
        have hm' : p.matchAt ⟨u.reverse ++ c :: before, v, []⟩ = some (m, t) := by
          rw [List.reverse_cons, List.append_assoc] at hm
          exact hm
        obtain ⟨u₁, v₁, m₁, t₁, hsplit₁, hle, hmatch₁, hreach₁, hmem⟩ := ih (Nat.le_of_succ_le_succ hn) rfl hm'
        refine ⟨c :: u₁, v₁, m₁, t₁, congrArg (c :: ·) hsplit₁, Nat.succ_le_succ hle, ?_, hreach₁, hmem⟩
        rw [List.reverse_cons, List.append_assoc]
        exact hmatch₁

end Finditer

end Pattern

end LoopLab.Lib
