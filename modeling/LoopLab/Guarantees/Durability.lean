import LoopLab.Log.Appends
import LoopLab.Log.Printer

/-!
# What the log keeps across writers and crashes

Stores over one file append in any order, and any call may be the last of its process.
-/

set_option autoImplicit false

namespace LoopLab
open Lib

/-- Every store of the world and a store constructed now read exactly `log`. -/
def World.Reads (c : Codec) (w : World) (log : List Event) : Prop :=
  (∀ i s, w.stores i = some s → (s.readAll c w.disk).cache = log) ∧
    ((EventStore.new c w.disk).readAll c w.disk).cache = log

/-- A call on a log `log`: it returns all its records or raises, and it is bound by the sequence
number it names. -/
structure CallSpec (c : Codec) (disk : Disk) (log : List Event) (call : Call) (r : Ended) : Prop where
  records : ∀ evs, r.outcome = .returned evs →
    evs.map (fun e => (e.type, e.data)) = call.request.records
  expected : ∀ n evs, call.expectedLastSeq = some n → r.outcome = .returned evs → evs ≠ [] →
    n = lastSeq log ∧ evs.head?.map Event.seq = some (n + 1)
  conflict : ∀ n, call.expectedLastSeq = some n → call.request.records ≠ [] → n ≠ lastSeq log →
    ∃ why, r.outcome = .raised why
  raised : ∀ why, r.outcome = .raised why →
    r.disk.content = disk.content ∨ r.disk.content = healTornTail disk.content

variable {c : Codec} {w : World} {log : List Event}

theorem World.Sound.reads (h : w.Sound c log) : w.Reads c log := by
  constructor
  · intro i s hs
    exact ((h.follows i s hs).readAll h.intact.toAccepted).2
  · exact ((Follows.new h.intact.toAccepted).readAll h.intact.toAccepted).2

theorem dense_seqs (h : Dense log) :
    log.map Event.seq = (List.range log.length).map fun i : Nat => (i : Int) := by
  have := (countsFrom_iff 0 log).mp h
  simpa using this

theorem call_spec {disk : Disk} {s : EventStore} (hf : Follows c disk log s)
    (h : Intact c disk log) {i : Nat} {m : Moment} {call : Call} {fate : Fate}
    (hfate : ¬ (Op.call i m call fate).Fails) :
    CallSpec c disk log call (s.call c m call fate disk) := by
  rcases call_cases hf h m call fate with ⟨s', disk', why, heq, hd, _, _⟩ | ⟨hnil, heq⟩ |
    ⟨s', text, last, events, hexp, _, hl, hf', heq⟩
  · rw [heq]
    refine ⟨?_, ?_, fun _ _ _ _ => ⟨why, rfl⟩, ?_⟩
    · intro _ he
      cases he
    · intro _ _ _ he
      cases he
    · intro _ _
      rcases hd with rfl | rfl
      · exact .inl rfl
      · exact .inr (disk.heal_content m)
  · rw [heq]
    refine ⟨?_, ?_, fun _ _ hne => absurd hnil hne, ?_⟩
    · intro evs he
      cases he
      exact hnil.symm
    · intro n evs _ he hne
      cases he
      exact absurd rfl hne
    · intro _ he
      cases he
  · have hn (n : Int) (hcas : call.expectedLastSeq = some n) : n = lastSeq log := by
      by_contra hne
      rw [hcas, Option.filter_some_pos (by simpa using hne)] at hexp
      cases hexp
    have hconflict : ∀ n, call.expectedLastSeq = some n → call.request.records ≠ [] →
        n ≠ lastSeq log → ∃ why, (s'.write c m (disk.heal m) (text ++ [newline]) last events
          fate).outcome = .raised why := fun n hcas _ hne => absurd (hn n hcas) hne
    rw [heq]
    cases fate with
    | lands =>
      refine ⟨?_, ?_, hconflict, ?_⟩
      · intro evs he
        cases he
        exact hl.records_eq
      · intro n evs hcas he hne
        cases he
        refine ⟨hn n hcas, ?_⟩
        obtain ⟨e, es, rfl⟩ := List.exists_cons_of_ne_nil hne
        have hcount := hl.counts
        rw [countsFrom, Bool.and_eq_true, beq_iff_eq] at hcount
        rw [List.head?_cons, Option.map_some, hcount.1, hn n hcas]
      · intro _ he
        cases he
    | dies k =>
      refine ⟨?_, ?_, hconflict, ?_⟩
      · intro _ he
        cases he
      · intro _ _ _ he
        cases he
      · intro _ he
        cases he
    | fails stage k => exact absurd trivial hfate

/-- In every run without failing writes, whatever process dies in the middle of its payload: all
stores read the events of the calls that returned, in the order of the lock, numbered from zero, and
every further call keeps to its specification. -/
theorem log_durable (c : Codec) (ops : List Op) (hops : ∀ op ∈ ops, ¬ op.Fails) :
    ((World.run c {} ops).1).Reads c (World.run c {} ops).2 ∧
      (World.run c {} ops).2.map Event.seq =
        (List.range (World.run c {} ops).2.length).map (fun i : Nat => (i : Int)) ∧
      ∀ i s m call fate, (World.run c {} ops).1.stores i = some s →
        ¬ (Op.call i m call fate).Fails →
        CallSpec c (World.run c {} ops).1.disk (World.run c {} ops).2 call
          (s.call c m call fate (World.run c {} ops).1.disk) := by
  obtain ⟨extra, hsound, _, hdone⟩ :=
    World.Sound.start.run (World.safeRun_of_not_fails (c := c) hops)
  rw [List.nil_append] at hsound
  rw [hdone hops]
  refine ⟨hsound.reads, dense_seqs hsound.intact.dense, ?_⟩
  intro i s m call fate hs hfate
  exact call_spec (hsound.follows i s hs) hsound.intact hfate

/-- The rows of a small run: a single event, a batch of two and a single event. -/
def smallTable : TextTable where
  values := [.obj (Event.dump { seq := 0, type := "a" }),
    .obj (physicalEnvelope (batchEnvelope (none, none)
      [{ seq := 1, type := "b" }, { seq := 2, type := "c" }])),
    .obj (Event.dump { seq := 3, type := "d" })]
  ok := by decide +kernel

/-- Three stores: the first appends, the second dies in the middle of a batch, the third writes that
batch behind the row it expects, and the first, stale by then, appends again. -/
def smallRun : List Op :=
  let batch : Request := .appendMany [("b", []), ("c", [])]
  [.new 0, .call 0 {} { request := .append "a" [] } .lands, .new 1,
    .call 1 {} { request := batch } (.dies 40), .new 2,
    .call 2 {} { request := batch, expectedLastSeq := some 0 } .lands,
    .call 0 {} { request := .append "d" [] } .lands]

theorem log_durable_small :
    (∀ op ∈ smallRun, ¬ op.Fails) ∧
      ((World.run smallTable.codec {} smallRun).1).Reads smallTable.codec
        (World.run smallTable.codec {} smallRun).2 ∧
      (World.run smallTable.codec {} smallRun).2.map Event.seq = [0, 1, 2, 3] := by
  have hops : ∀ op ∈ smallRun, ¬ op.Fails := by simp [smallRun, Op.Fails]
  refine ⟨hops, (log_durable smallTable.codec smallRun hops).1, ?_⟩
  decide +kernel

end LoopLab

/-!
## What a failed append leaves to its store

After a write whose flush or sync failed, a store looks at the file and sets the lost sequence number aside if the
file ends in the middle of a line.
-/

namespace LoopLab
open Lib

/-- Nothing that went wrong so far shows: no thread is stuck; every store, and a new one, reads one
dense log with the events of every call that returned, and reports no divergence; and no call is
refused for a divergence. -/
structure World.Unpoisoned (c : Codec) (w : World) (done : List Event) : Prop where
  free : w.blocked = false
  visible : ∃ log, w.Reads c log ∧ Dense log ∧ List.Sublist done log
  sound : ∀ i s, w.stores i = some s → (s.readAll c w.disk).divergence = none
  sound_new : (EventStore.new c w.disk).divergence = none
  accepted : ∀ i s m call fate d, w.stores i = some s →
    (s.call c m call fate w.disk).outcome ≠ .raised (.corruption d)

variable {c : Codec} {w : World} {log : List Event}

theorem write_not_corruption {s : EventStore} {m : Moment} {disk : Disk} {payload : Bytes}
    {last : Int} {events : List Event} {fate : Fate} {d : Divergence} :
    (s.write c m disk payload last events fate).outcome ≠ .raised (.corruption d) := by
  intro h
  cases fate with
  | lands => cases h
  | dies k => cases h
  | fails stage k =>
    cases stage with
    | write => cases h
    | publish => cases h
    | sync =>
      simp only [EventStore.write] at h
      split at h <;> cases h

theorem World.Sound.unpoisoned (h : w.Sound c log) {done : List Event}
    (hd : List.Sublist done log) : w.Unpoisoned c done := by
  refine ⟨h.free, ⟨log, h.reads, h.intact.dense, hd⟩, ?_, (Follows.new h.intact.toAccepted).sound, ?_⟩
  · intro i s hs
    exact ((h.follows i s hs).readAll h.intact.toAccepted).1.sound
  · intro i s m call fate d hs
    rcases call_cases (h.follows i s hs) h.intact m call fate with
      ⟨s', disk', why, heq, _, _, hwhy⟩ | ⟨_, heq⟩ | ⟨s', text, last, events, _, _, _, _, heq⟩
    · rw [heq]
      intro hout
      exact hwhy d (by injection hout)
    · rw [heq]
      exact nofun
    · rw [heq]
      exact write_not_corruption

/-- In every run whose failed syncs are harmless, no failure shows in any state reached. -/
theorem failed_appends_harmless (c : Codec) (ops : List Op) (h : World.SafeRun c {} ops) :
    ((World.run c {} ops).1).Unpoisoned c (World.run c {} ops).2 := by
  obtain ⟨extra, hsound, hsub, _⟩ := World.Sound.start.run h
  rw [List.nil_append] at hsound
  exact hsound.unpoisoned hsub

/-- Single events in a row, and one that takes the number of a lost one. -/
def failedTable : TextTable where
  values := [.obj (Event.dump { seq := 0, type := "a" }), .obj (Event.dump { seq := 1, type := "b" }),
    .obj (Event.dump { seq := 1, type := "c" }), .obj (Event.dump { seq := 2, type := "c" })]
  ok := by decide +kernel

/-- One store: an append, an append whose sync fails after `k` bytes, and another append. -/
def failedRun (k : Nat) : List Op :=
  [.new 0, .call 0 {} { request := .append "a" [] } .lands,
    .call 0 {} { request := .append "b" [] } (.fails .sync k),
    .call 0 {} { request := .append "c" [] } .lands]

theorem failed_appends_harmless_nothing :
    World.SafeRun failedTable.codec {} (failedRun 0) ∧
      ((World.run failedTable.codec {} (failedRun 0)).1).Unpoisoned failedTable.codec
        (World.run failedTable.codec {} (failedRun 0)).2 := by
  have h : World.SafeRun failedTable.codec {} (failedRun 0) := by
    refine ⟨trivial, trivial, ?_, trivial, trivial⟩
    intro payload last events _
    refine ⟨.inl rfl, ?_⟩
    rw [List.take_zero]
    decide +kernel
  exact ⟨h, failed_appends_harmless failedTable.codec (failedRun 0) h⟩

/-- Ten bytes of the line reach the file: the next append returns, and nobody reads its event. -/
theorem torn_append_poisons :
    ¬ ∀ ops, ((World.run failedTable.codec {} ops).1).Unpoisoned failedTable.codec
      (World.run failedTable.codec {} ops).2 := by
  intro h
  obtain ⟨log, ⟨hreads, _⟩, _, hsub⟩ := (h (failedRun 10)).visible
  have hdone : (World.run failedTable.codec {} (failedRun 10)).2.length = 2 := by decide +kernel
  have hseen : ((World.run failedTable.codec {} (failedRun 10)).1.stores 0).map (fun s =>
      (s.readAll failedTable.codec (World.run failedTable.codec {} (failedRun 10)).1.disk).cache.length)
      = some 1 := by decide +kernel
  obtain ⟨s, hs, hone⟩ := Option.map_eq_some_iff.mp hseen
  rw [hreads 0 s hs] at hone
  have := hsub.length_le
  omega

end LoopLab
