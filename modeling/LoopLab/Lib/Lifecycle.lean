import LoopLab.Lib.Table
import Mathlib.Data.List.Infix
import Mathlib.Logic.Relation
import Mathlib.Tactic.Ring

/-!
# Boards of numbered lifecycles

Every entity of a board runs through numbered lifecycles. A lifecycle is pending until it is settled
once, as done or failed; a renewal opens the next one. The board counts the failures that still
count, keeps the lifecycles whose cost was charged, and books costs by kind. `Evolve` lists what a
single change may do; `May` says which entities may be built anew, renewed, written or extended.

Proved of every run of changes: the failure count is the number of counted failures, the total is
the sum over kinds and never falls, a settled lifecycle stays settled, a ledger only grows unless
its entity is rebuilt and only if its entity may be extended, an attempt changes only by a renewal,
and a fresh record stays fresh until it is written.
-/

set_option autoImplicit false

namespace LoopLab.Lib

universe u v w x

inductive Phase where
  | pending
  | done
  | failed (benign : Bool)
  deriving DecidableEq

structure Life (κ : Type u) (ρ : Type v) (μ : Type w) where
  id : κ
  attempt : Nat
  phase : Phase
  deleted : Bool
  ledger : List ρ
  record : μ

structure Tally where
  count : Int
  level : Int

def Tally.of (n : Int) : Tally := ⟨n, n / 3⟩

structure Board (κ : Type u) (ρ : Type v) (μ : Type w) (σ : Type x) [DecidableEq κ]
    [DecidableEq σ] where
  lives : Table (Life.id : Life κ ρ μ → κ)
  aborted : List κ
  failures : Tally
  settled : List (κ × Nat)
  total : Rat
  byKind : Dict σ Rat

def Dict.sum {σ : Type u} [DecidableEq σ] (d : Dict σ Rat) : Rat := (d.rows.map Prod.snd).sum

theorem Dict.sum_set {σ : Type u} [DecidableEq σ] (d : Dict σ Rat) (k : σ) (s : Rat) :
    (d.set k ((d.get k).getD 0 + s)).sum = d.sum + s := by
  obtain ⟨rows, nodup⟩ := d
  simp only [sum, set, Table.put, get, Table.get]
  induction rows with
  | nil => simp [Table.putRow]
  | cons r rs ih =>
    unfold Table.putRow
    by_cases hk : r.1 = k
    · simp only [hk, decide_true, List.find?_cons_of_pos, Option.map_some, Option.getD_some,
        if_true, List.map_cons, List.sum_cons]
      ring
    · have := ih (List.nodup_cons.mp nodup).2
      rw [List.find?_cons_of_neg (by simpa using hk), if_neg hk]
      simp only [List.map_cons, List.sum_cons, this]
      ring

namespace Board

variable {κ : Type u} {ρ : Type v} {μ : Type w} {σ : Type x} [DecidableEq κ] [DecidableEq σ]

def counts (aborted : List κ) (l : Life κ ρ μ) : Bool :=
  !l.deleted && !aborted.contains l.id && l.phase == .failed false

theorem counts_congr {aborted : List κ} {l m : Life κ ρ μ} (hid : l.id = m.id)
    (hd : l.deleted = m.deleted) (hp : l.phase = m.phase) : counts aborted l = counts aborted m := by
  simp only [counts, hid, hd, hp]

theorem counts_of_not_failed {aborted : List κ} {l : Life κ ρ μ} (h : l.phase ≠ .failed false) :
    counts aborted l = false := by
  simp [counts, h]

def ledger (b : Board κ ρ μ σ) (id : κ) : List ρ := ((b.lives.get id).map Life.ledger).getD []

def dropFailure (pred : Int → Int) (b : Board κ ρ μ σ) (old : Option (Life κ ρ μ)) : Tally :=
  if old.any (counts b.aborted) then .of (pred b.failures.count) else b.failures

def addFailure (b : Board κ ρ μ σ) (new : Life κ ρ μ) : Tally :=
  if counts b.aborted new then .of (b.failures.count + 1) else b.failures

/-- The entities whose pending lifecycle may be built anew, whose next lifecycle may open, whose
record may stop being fresh and whose ledger may be extended. -/
structure May (κ : Type u) where
  rebuilds : κ → Prop
  renews : κ → Prop
  writes : κ → Prop
  grows : κ → Prop

def May.nothing : May κ := ⟨fun _ => False, fun _ => False, fun _ => False, fun _ => False⟩

section Evolve
variable (pred : Int → Int) (fresh : μ → Prop) (may : May κ)

structure Touch (old new : Life κ ρ μ) : Prop where
  id : new.id = old.id
  attempt : new.attempt = old.attempt
  phase : new.phase = old.phase
  deleted : new.deleted = old.deleted
  ledger : new.ledger = old.ledger ∨ (may.grows old.id ∧ old.ledger <+: new.ledger)
  record : may.writes old.id ∨ (fresh old.record → fresh new.record)

structure Renewal (old new : Life κ ρ μ) : Prop where
  id : new.id = old.id
  attempt : new.attempt = old.attempt + 1
  phase : new.phase = .pending
  deleted : new.deleted = old.deleted
  ledger : new.ledger = old.ledger
  record : fresh old.record → fresh new.record

structure Blank (l : Life κ ρ μ) : Prop where
  phase : l.phase = .pending
  deleted : l.deleted = false
  ledger : l.ledger = []
  record : fresh l.record

inductive Evolve : Board κ ρ μ σ → Board κ ρ μ σ → Prop where
  | spend (b : Board κ ρ μ σ) (k : σ) (s : Rat) (hs : 0 ≤ s) :
      Evolve b { b with total := b.total + s, byKind := b.byKind.set k ((b.byKind.get k).getD 0 + s) }
  | mark (b : Board κ ρ μ σ) (key : κ × Nat) : Evolve b { b with settled := key :: b.settled }
  | place (b : Board κ ρ μ σ) (l : Life κ ρ μ) (hnone : b.lives.get l.id = none)
      (hl : Blank fresh l) : Evolve b { b with lives := b.lives.put l }
  | rebuild (b : Board κ ρ μ σ) (old l : Life κ ρ μ) (hget : b.lives.get l.id = some old)
      (hmay : may.rebuilds l.id) (hold : old.phase = .pending) (hdel : old.deleted = false)
      (hatt : l.attempt = old.attempt) (hl : Blank fresh l) :
      Evolve b { b with lives := b.lives.put l }
  | touch (b : Board κ ρ μ σ) (old l : Life κ ρ μ) (hget : b.lives.get l.id = some old)
      (ht : Touch fresh may old l) : Evolve b { b with lives := b.lives.put l }
  | sweep (b : Board κ ρ μ σ) (f : Life κ ρ μ → Life κ ρ μ) (hid : ∀ l, (f l).id = l.id)
      (hf : ∀ l ∈ b.lives.rows, Touch fresh may l (f l) ∨
        (l.phase = .done ∧ may.renews l.id ∧ Renewal fresh l (f l))) :
      Evolve b { b with lives := b.lives.mapRows f hid }
  | settle (b : Board κ ρ μ σ) (old l : Life κ ρ μ) (hget : b.lives.get l.id = some old)
      (hold : old.phase = .pending) (hnew : l.phase ≠ .pending) (hatt : l.attempt = old.attempt)
      (hdel : l.deleted = old.deleted) (hled : l.ledger = old.ledger) (hwrite : may.writes l.id)
      (hkey : (l.id, l.attempt) ∈ b.settled) :
      Evolve b { b with
        lives := b.lives.put l
        failures := b.addFailure l }
  | renew (b : Board κ ρ μ σ) (old l : Life κ ρ μ) (hget : b.lives.get l.id = some old)
      (hmay : may.renews l.id) (hl : Renewal fresh old l) :
      Evolve b { b with
        lives := b.lives.put l
        failures := b.dropFailure pred (some old)
        aborted := b.aborted.filter (· ≠ l.id) }
  | delete (b : Board κ ρ μ σ) (old l : Life κ ρ μ) (hget : b.lives.get l.id = some old)
      (hatt : l.attempt = old.attempt) (hphase : l.phase = old.phase) (hdel : l.deleted = true)
      (hled : l.ledger = old.ledger) (hrec : fresh old.record → fresh l.record) :
      Evolve b { b with
        lives := b.lives.put l
        failures := b.dropFailure pred (some old) }
  | abort (b : Board κ ρ μ σ) (id : κ) (hnew : id ∉ b.aborted) :
      Evolve b { b with
        failures := b.dropFailure pred (b.lives.get id)
        aborted := b.aborted ++ [id] }

abbrev Evolves : Board κ ρ μ σ → Board κ ρ μ σ → Prop :=
  Relation.ReflTransGen (Evolve pred fresh may)

end Evolve

section Invariants
variable {pred : Int → Int} {fresh : μ → Prop} {may : May κ}
variable {b b' : Board κ ρ μ σ}

theorem Evolves.preserves {P : Board κ ρ μ σ → Prop}
    (hstep : ∀ {b b'}, Evolve pred fresh may b b' → P b → P b')
    (h : Evolves pred fresh may b b') (hb : P b) : P b' := by
  induction h with
  | refl => exact hb
  | tail _ hlast ih => exact hstep hlast ih

/-! ## The failure count -/

def Counted (b : Board κ ρ μ σ) : Prop :=
  b.failures.count = (b.lives.rows.countP (counts b.aborted) : Nat)

def Levelled (b : Board κ ρ μ σ) : Prop := b.failures = .of b.failures.count

theorem Evolve.levelled (h : Evolve pred fresh may b b') (hl : Levelled b) :
    Levelled b' := by
  have hdrop (old : Option (Life κ ρ μ)) :
      b.dropFailure pred old = .of (b.dropFailure pred old).count := by
    unfold dropFailure
    split
    · rfl
    · exact hl
  cases h with
  | settle old l =>
    show b.addFailure l = .of (b.addFailure l).count
    unfold addFailure
    split
    · rfl
    · exact hl
  | renew old => exact hdrop (some old)
  | delete old => exact hdrop (some old)
  | abort id => exact hdrop (b.lives.get id)
  | _ => exact hl

theorem Evolves.levelled (h : Evolves pred fresh may b b') (hl : Levelled b) :
    Levelled b' :=
  Evolves.preserves (fun h hl => Evolve.levelled h hl) h hl

theorem counted_put_of_eq {old l : Life κ ρ μ} (hget : b.lives.get l.id = some old)
    (hc : counts b.aborted l = counts b.aborted old) (h : Counted b) :
    Counted { b with lives := b.lives.put l } := by
  have hput := Table.countP_put_of_get (counts b.aborted) hget
  rw [hc] at hput
  unfold Counted at h ⊢
  show b.failures.count = _
  have : (b.lives.put l).rows.countP (counts b.aborted) = b.lives.rows.countP (counts b.aborted) := by
    omega
  rw [this]
  exact h

theorem one_le_failures {k : κ} {l : Life κ ρ μ} (h : Counted b) (hget : b.lives.get k = some l)
    (hc : counts b.aborted l = true) : 1 ≤ b.failures.count := by
  have := Table.countP_pos_of_get (counts b.aborted) hget hc
  unfold Counted at h
  omega

theorem dropFailure_eq (hpred : ∀ c, 1 ≤ c → pred c = c - 1) {k : κ} {old : Life κ ρ μ}
    (h : Counted b) (hget : b.lives.get k = some old) :
    (b.dropFailure pred (some old)).count =
      b.failures.count - if counts b.aborted old then 1 else 0 := by
  unfold dropFailure
  simp only [Option.any_some]
  split
  · rename_i hc
    exact hpred _ (one_le_failures h hget hc)
  · omega

theorem counted_drop (hpred : ∀ c, 1 ≤ c → pred c = c - 1) {old l : Life κ ρ μ}
    (hget : b.lives.get l.id = some old) (hl : counts b.aborted l = false) (h : Counted b) :
    Counted { b with lives := b.lives.put l, failures := b.dropFailure pred (some old) } := by
  have hput := Table.countP_put_of_get (counts b.aborted) hget
  have hdrop := dropFailure_eq hpred h hget
  unfold Counted at h ⊢
  show (b.dropFailure pred (some old)).count = _
  rw [hdrop, h]
  cases hc : counts b.aborted old <;> simp only [hc, hl] at hput ⊢ <;> simp at hput ⊢ <;> omega

theorem countP_unabort {t : Table (Life.id : Life κ ρ μ → κ)} {l : Life κ ρ μ}
    (aborted : List κ) (hget : t.get l.id = some l) (hp : l.phase = .pending) :
    t.rows.countP (counts (aborted.filter (· ≠ l.id))) = t.rows.countP (counts aborted) := by
  apply List.countP_congr
  intro m hm
  by_cases hid : m.id = l.id
  · have : m = l := by
      have hg := Table.get_of_mem hm
      rw [hid, hget] at hg
      exact (Option.some.inj hg).symm
    subst this
    simp [counts, hp]
  · simp [counts, hid]

theorem counted_sweep {f : Life κ ρ μ → Life κ ρ μ} {hid : ∀ l, (f l).id = l.id}
    (hf : ∀ l ∈ b.lives.rows, Touch fresh may l (f l) ∨
      (l.phase = .done ∧ may.renews l.id ∧ Renewal fresh l (f l))) (h : Counted b) :
    Counted { b with lives := b.lives.mapRows f hid } := by
  unfold Counted at h ⊢
  simp only [Table.rows_mapRows, List.countP_map]
  rw [h]
  congr 1
  apply List.countP_congr
  intro l hl
  have : counts b.aborted (f l) = counts b.aborted l := by
    rcases hf l hl with ht | ⟨hdone, -, hr⟩
    · exact counts_congr ht.id ht.deleted ht.phase
    · rw [counts_of_not_failed (by rw [hr.phase]; exact nofun),
        counts_of_not_failed (by rw [hdone]; exact nofun)]
  rw [Function.comp_apply, this]

theorem counted_abort (hpred : ∀ c, 1 ≤ c → pred c = c - 1) {id : κ} (h : Counted b) :
    Counted { b with
      failures := b.dropFailure pred (b.lives.get id)
      aborted := b.aborted ++ [id] } := by
  have split_counts (l : Life κ ρ μ) :
      counts (b.aborted ++ [id]) l = (counts b.aborted l && decide (l.id ≠ id)) := by
    simp only [counts, List.contains_append, List.contains_cons, List.contains_nil]
    by_cases hid : l.id = id
    · simp [hid]
    · have hbeq : (l.id == id) = false := by simpa using hid
      simp [hid, hbeq]
  have hfun : counts (b.aborted ++ [id]) =
      fun l : Life κ ρ μ => counts b.aborted l && decide (l.id ≠ id) := funext split_counts
  unfold Counted at h ⊢
  show (b.dropFailure pred (b.lives.get id)).count = _
  simp only [hfun]
  cases hget : b.lives.get id with
  | none =>
    have : b.lives.rows.countP (fun l => counts b.aborted l && decide (l.id ≠ id)) =
        b.lives.rows.countP (counts b.aborted) := by
      apply List.countP_congr
      intro l hl
      simp [Table.get_eq_none.mp hget l hl]
    rw [this, ← h]
    rfl
  | some old =>
    have hkey := Table.key_of_get hget
    subst hkey
    -- Count the board with that life turned pending: there the abort changes nothing.
    have hput := Table.countP_put_of_get (b := { old with phase := .pending })
      (counts b.aborted) hget
    have hoff := Table.countP_put_of_get (b := { old with phase := .pending })
      (fun l => counts b.aborted l && decide (l.id ≠ old.id)) hget
    have hsame : (b.lives.put { old with phase := .pending }).rows.countP
        (fun l => counts b.aborted l && decide (l.id ≠ old.id)) =
        (b.lives.put { old with phase := .pending }).rows.countP (counts b.aborted) := by
      apply List.countP_congr
      intro l hl
      by_cases hid : l.id = old.id
      · have hg := Table.get_of_mem hl
        rw [hid] at hg
        have := (Table.get_put_self b.lives { old with phase := .pending }).symm.trans hg
        rw [← Option.some.inj this]
        simp [counts]
      · simp [hid]
    have hpend : counts b.aborted { old with phase := Phase.pending } = false :=
      counts_of_not_failed (by intro h; cases h)
    have hdrop := dropFailure_eq hpred (b := b) h hget
    rw [hdrop, h]
    simp only [ne_eq, not_true_eq_false, decide_false, Bool.and_false] at hoff
    rw [hsame] at hoff
    cases hc : counts b.aborted old <;> simp only [hc, hpend] at hput ⊢ <;> simp at hput hoff ⊢ <;>
      omega

theorem Evolve.counted (hpred : ∀ c, 1 ≤ c → pred c = c - 1)
    (h : Evolve pred fresh may b b') (hc : Counted b) : Counted b' := by
  cases h with
  | spend => exact hc
  | mark => exact hc
  | place l hnone hl =>
    have hput := Table.countP_put_of_none (counts b.aborted) hnone
    rw [counts_of_not_failed (by rw [hl.phase]; exact nofun)] at hput
    unfold Counted at hc ⊢
    rw [show (b.lives.put l).rows.countP (counts b.aborted) = b.lives.rows.countP _ from by
      simpa using hput]
    exact hc
  | rebuild old l hget _ hold _ _ hl =>
    refine counted_put_of_eq hget ?_ hc
    rw [counts_of_not_failed (by rw [hl.phase]; exact nofun),
      counts_of_not_failed (by rw [hold]; exact nofun)]
  | touch old l hget ht => exact counted_put_of_eq hget (counts_congr ht.id ht.deleted ht.phase) hc
  | sweep f hid hf => exact counted_sweep hf hc
  | settle old l hget hold =>
    have hput := Table.countP_put_of_get (counts b.aborted) hget
    rw [counts_of_not_failed (l := old) (by rw [hold]; exact nofun)] at hput
    unfold Counted at hc ⊢
    show (b.addFailure l).count = ((b.lives.put l).rows.countP (counts b.aborted) : Nat)
    unfold addFailure
    cases hl : counts b.aborted l <;> simp only [hl, Tally.of] at hput ⊢ <;> simp at hput ⊢ <;>
      omega
  | renew old l hget _ hl =>
    have hdrop := counted_drop hpred hget
      (counts_of_not_failed (by rw [hl.phase]; exact nofun)) hc
    have hun := countP_unabort b.aborted (Table.get_put_self b.lives l) hl.phase
    unfold Counted at hdrop ⊢
    rw [hun]
    exact hdrop
  | delete old l hget hatt hphase hdel =>
    exact counted_drop hpred hget (by simp [counts, hdel]) hc
  | abort id => exact counted_abort hpred hc

theorem Evolves.counted (hpred : ∀ c, 1 ≤ c → pred c = c - 1)
    (h : Evolves pred fresh may b b') (hc : Counted b) : Counted b' :=
  Evolves.preserves (fun h hc => Evolve.counted hpred h hc) h hc

/-! ## The books -/

def Balanced (b : Board κ ρ μ σ) : Prop := b.total = b.byKind.sum

theorem Evolve.balanced (h : Evolve pred fresh may b b') (hb : Balanced b) :
    Balanced b' := by
  cases h with
  | spend k s hs =>
    unfold Balanced at hb ⊢
    rw [Dict.sum_set, ← hb]
  | _ => exact hb

theorem Evolves.balanced (h : Evolves pred fresh may b b') (hb : Balanced b) :
    Balanced b' :=
  Evolves.preserves (fun h hb => Evolve.balanced h hb) h hb

theorem Evolves.total_le (h : Evolves pred fresh may b b') : b.total ≤ b'.total := by
  induction h with
  | refl => exact le_refl _
  | tail _ hlast ih =>
    refine le_trans ih ?_
    cases hlast with
    | spend k s hs => exact le_add_of_nonneg_right hs
    | _ => exact le_refl _

/-! ## One life -/

inductive LifeStep (fresh : μ → Prop) (may : May κ) (old new : Life κ ρ μ) : Prop where
  | same (h : new = old)
  | rebuild (hmay : may.rebuilds old.id) (hold : old.phase = .pending)
      (hatt : new.attempt = old.attempt) (hl : Blank fresh new)
  | touch (h : Touch fresh may old new)
  | renew (hmay : may.renews old.id) (h : Renewal fresh old new)
  | settle (hnew : new.phase ≠ .pending) (hatt : new.attempt = old.attempt)
      (hled : new.ledger = old.ledger) (hmay : may.writes old.id)
  | delete (hatt : new.attempt = old.attempt) (hphase : new.phase = old.phase)
      (hled : new.ledger = old.ledger) (hrec : fresh old.record → fresh new.record)

theorem lifeStep_put {id : κ} {old m l : Life κ ρ μ} (hm : b.lives.get id = some m)
    (hget : b.lives.get l.id = some old) (h : LifeStep fresh may old l) :
    ∃ n, (b.lives.put l).get id = some n ∧ LifeStep fresh may m n := by
  by_cases hid : id = l.id
  · have : m = old := by
      rw [hid, hget] at hm
      exact (Option.some.inj hm).symm
    exact ⟨l, by rw [hid]; exact Table.get_put_self _ _, this ▸ h⟩
  · exact ⟨m, by rw [Table.get_put_ne hid]; exact hm, .same rfl⟩

theorem Evolve.life {id : κ} {m : Life κ ρ μ} (h : Evolve pred fresh may b b')
    (hm : b.lives.get id = some m) :
    ∃ n, b'.lives.get id = some n ∧ LifeStep fresh may m n := by
  cases h with
  | spend => exact ⟨m, hm, .same rfl⟩
  | mark => exact ⟨m, hm, .same rfl⟩
  | abort => exact ⟨m, hm, .same rfl⟩
  | place l hnone =>
    have hne : id ≠ l.id := by
      intro he
      rw [he, hnone] at hm
      cases hm
    exact ⟨m, by rw [Table.get_put_ne hne]; exact hm, .same rfl⟩
  | rebuild old l hget hmay hold _ hatt hl =>
    have hkey := Table.key_of_get hget
    exact lifeStep_put hm hget (.rebuild (hkey ▸ hmay) hold hatt hl)
  | touch old l hget ht => exact lifeStep_put hm hget (.touch ht)
  | sweep f hid hf =>
    refine ⟨f m, by rw [Table.get_mapRows, hm]; rfl, ?_⟩
    rcases hf m (Table.mem_of_get hm) with ht | ⟨-, hmay, hr⟩
    · exact .touch ht
    · exact .renew hmay hr
  | settle old l hget hold hnew hatt _ hled hwrite =>
    have hkey := Table.key_of_get hget
    exact lifeStep_put hm hget (.settle hnew hatt hled (hkey ▸ hwrite))
  | renew old l hget hmay hl =>
    have hkey := Table.key_of_get hget
    exact lifeStep_put hm hget (.renew (hkey ▸ hmay) hl)
  | delete old l hget hatt hphase _ hled hrec =>
    exact lifeStep_put hm hget (.delete hatt hphase hled hrec)

theorem newcomer_put {id : κ} {old l : Life κ ρ μ} (hnone : b.lives.get id = none)
    (hget : b.lives.get l.id = some old) : (b.lives.put l).get id = none := by
  have hne : id ≠ l.id := by
    intro he
    rw [← he, hnone] at hget
    cases hget
  rw [Table.get_put_ne hne]
  exact hnone

theorem Evolve.newcomer {id : κ} {n : Life κ ρ μ} (h : Evolve pred fresh may b b')
    (hnone : b.lives.get id = none) (hn : b'.lives.get id = some n) : Blank fresh n := by
  have absent {o : Option (Life κ ρ μ)} (ho : o = none) (hn : o = some n) : Blank fresh n := by
    rw [ho] at hn
    cases hn
  cases h with
  | spend => exact absent hnone hn
  | mark => exact absent hnone hn
  | abort => exact absent hnone hn
  | place l _ hl =>
    by_cases hid : id = l.id
    · have hput := Table.get_put_self b.lives l
      rw [← hid, hn] at hput
      exact Option.some.inj hput ▸ hl
    · exact absent (by rw [Table.get_put_ne hid]; exact hnone) hn
  | sweep f hid hf => exact absent (by rw [Table.get_mapRows, hnone]; rfl) hn
  | rebuild old l hget => exact absent (newcomer_put hnone hget) hn
  | touch old l hget => exact absent (newcomer_put hnone hget) hn
  | settle old l hget => exact absent (newcomer_put hnone hget) hn
  | renew old l hget => exact absent (newcomer_put hnone hget) hn
  | delete old l hget => exact absent (newcomer_put hnone hget) hn

/-- `id` is on the board and its life has the property. -/
def HoldsAt (P : Life κ ρ μ → Prop) (b : Board κ ρ μ σ) (id : κ) : Prop :=
  ∃ l, b.lives.get id = some l ∧ P l

theorem Evolves.holdsAt {P : Life κ ρ μ → Prop} {id : κ}
    (hstep : ∀ {old new : Life κ ρ μ}, old.id = id → LifeStep fresh may old new → P old → P new)
    (h : Evolves pred fresh may b b') (hb : HoldsAt P b id) : HoldsAt P b' id := by
  refine Evolves.preserves (P := fun b => HoldsAt P b id) (fun h hb => ?_) h hb
  obtain ⟨l, hl, hp⟩ := hb
  obtain ⟨n, hn, hs⟩ := Evolve.life h hl
  exact ⟨n, hn, hstep (Table.key_of_get hl) hs hp⟩

/-! ## Settled lifecycles -/

/-- Lifecycle `g` is settled or superseded. -/
def Ended (g : Nat) (l : Life κ ρ μ) : Prop := g < l.attempt ∨ (g = l.attempt ∧ l.phase ≠ .pending)

/-- Lifecycle `g` of `id` is over and its cost was charged. -/
structure Settled (b : Board κ ρ μ σ) (id : κ) (g : Nat) : Prop where
  charged : (id, g) ∈ b.settled
  ended : HoldsAt (Ended g) b id

omit [DecidableEq κ] in
theorem LifeStep.ended {g : Nat} {old new : Life κ ρ μ} (h : LifeStep fresh may old new)
    (ho : Ended g old) : Ended g new := by
  unfold Ended at ho ⊢
  cases h with
  | same h => exact h ▸ ho
  | rebuild _ hold hatt =>
    rw [hatt]
    exact ho.imp (fun h => h) fun h => absurd hold h.2
  | touch h =>
    rw [h.attempt, h.phase]
    exact ho
  | renew _ h =>
    rw [h.attempt]
    omega
  | settle hnew hatt =>
    rw [hatt]
    exact ho.imp (fun h => h) fun h => ⟨h.1, hnew⟩
  | delete hatt hphase =>
    rw [hatt, hphase]
    exact ho

theorem Evolves.charged {key : κ × Nat} (h : Evolves pred fresh may b b') (hk : key ∈ b.settled) :
    key ∈ b'.settled := by
  refine Evolves.preserves (P := fun b => key ∈ b.settled) (fun h hk => ?_) h hk
  cases h with
  | mark _ => exact List.mem_cons_of_mem _ hk
  | _ => exact hk

theorem Evolves.settled {id : κ} {g : Nat} (h : Evolves pred fresh may b b')
    (hs : Settled b id g) : Settled b' id g where
  charged := Evolves.charged h hs.charged
  ended := Evolves.holdsAt (fun _ hs ho => hs.ended ho) h hs.ended

/-! ## Attempts, ledgers and records -/

omit [DecidableEq κ] in
theorem LifeStep.attempt {old new : Life κ ρ μ} (h : LifeStep fresh may old new)
    (hid : ¬ may.renews old.id) : new.attempt = old.attempt := by
  cases h with
  | same h => rw [h]
  | rebuild _ _ hatt => exact hatt
  | touch h => exact h.attempt
  | renew hmay => exact absurd hmay hid
  | settle _ hatt => exact hatt
  | delete hatt => exact hatt

theorem Evolves.attempt {id : κ} {l : Life κ ρ μ} (h : Evolves pred fresh may b b')
    (hid : ¬ may.renews id) (hl : b.lives.get id = some l) :
    HoldsAt (fun n => n.attempt = l.attempt) b' id :=
  Evolves.holdsAt (fun hk hs hatt => (hs.attempt (hk ▸ hid)).trans hatt) h ⟨l, hl, rfl⟩

omit [DecidableEq κ] in
theorem Touch.ledger_prefix {old new : Life κ ρ μ} (h : Touch fresh may old new) :
    old.ledger <+: new.ledger := by
  rcases h.ledger with heq | ⟨-, hp⟩
  · rw [heq]
  · exact hp

omit [DecidableEq κ] in
theorem LifeStep.ledger {old new : Life κ ρ μ} (h : LifeStep fresh may old new)
    (hid : ¬ may.rebuilds old.id) : old.ledger <+: new.ledger := by
  cases h with
  | same h => exact h ▸ List.prefix_refl _
  | rebuild hmay => exact absurd hmay hid
  | touch h => exact h.ledger_prefix
  | renew _ h => exact h.ledger ▸ List.prefix_refl _
  | settle _ _ hled => exact hled ▸ List.prefix_refl _
  | delete _ _ hled => exact hled ▸ List.prefix_refl _

omit [DecidableEq κ] in
theorem LifeStep.ledger_le {old new : Life κ ρ μ} (h : LifeStep fresh may old new)
    (hid : ¬ may.grows old.id) : new.ledger = old.ledger ∨ new.ledger = [] := by
  cases h with
  | same h => exact .inl (by rw [h])
  | rebuild _ _ _ hl => exact .inr hl.ledger
  | touch h => exact .inl (h.ledger.resolve_right fun hx => hid hx.1)
  | renew _ h => exact .inl h.ledger
  | settle _ _ hled => exact .inl hled
  | delete _ _ hled => exact .inl hled

theorem ledger_of_get {id : κ} {l : Life κ ρ μ} (h : b.lives.get id = some l) :
    b.ledger id = l.ledger := by
  unfold Board.ledger
  rw [h]
  rfl

theorem ledger_of_none {id : κ} (h : b.lives.get id = none) : b.ledger id = [] := by
  unfold Board.ledger
  rw [h]
  rfl

theorem Evolves.ledger {id : κ} (h : Evolves pred fresh may b b')
    (hid : ¬ may.rebuilds id) : b.ledger id <+: b'.ledger id := by
  cases hget : b.lives.get id with
  | none =>
    rw [ledger_of_none hget]
    exact List.nil_prefix
  | some l =>
    obtain ⟨n, hn, hp⟩ := Evolves.holdsAt (P := fun n => l.ledger <+: n.ledger)
      (fun hk hs hp => hp.trans (hs.ledger (hk ▸ hid))) h ⟨l, hget, List.prefix_refl _⟩
    rw [ledger_of_get hget, ledger_of_get hn]
    exact hp

theorem Evolves.ledger_nil {id : κ} (h : Evolves pred fresh may b b') (hid : ¬ may.grows id)
    (hnil : b.ledger id = []) : b'.ledger id = [] := by
  refine Evolves.preserves (P := fun b => b.ledger id = []) (fun {b b'} h hnil => ?_) h hnil
  cases hget' : b'.lives.get id with
  | none => exact ledger_of_none hget'
  | some n =>
    rw [ledger_of_get hget']
    cases hget : b.lives.get id with
    | none => exact (Evolve.newcomer h hget hget').ledger
    | some l =>
      obtain ⟨m, hm, hs⟩ := Evolve.life h hget
      rw [hget'] at hm
      cases hm
      rw [ledger_of_get hget] at hnil
      rcases hs.ledger_le (Table.key_of_get hget ▸ hid) with heq | heq
      · rw [heq, hnil]
      · exact heq

omit [DecidableEq κ] in
theorem LifeStep.freshRecord {old new : Life κ ρ μ} (h : LifeStep fresh may old new)
    (hid : ¬ may.writes old.id) (hf : fresh old.record) : fresh new.record := by
  cases h with
  | same h => exact h ▸ hf
  | rebuild _ _ _ hl => exact hl.record
  | touch h => exact h.record.resolve_left hid hf
  | renew _ h => exact h.record hf
  | settle _ _ _ hmay => exact absurd hmay hid
  | delete _ _ _ hrec => exact hrec hf

theorem Evolves.freshAt {id : κ} (h : Evolves pred fresh may b b') (hid : ¬ may.writes id)
    (hf : HoldsAt (fun l => fresh l.record) b id) : HoldsAt (fun l => fresh l.record) b' id :=
  Evolves.holdsAt (fun hk hs hf => hs.freshRecord (hk ▸ hid) hf) h hf

end Invariants
end Board
end LoopLab.Lib
