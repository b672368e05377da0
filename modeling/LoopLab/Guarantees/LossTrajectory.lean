import LoopLab.Engine.LossTrajectory
import Mathlib.Data.List.Infix

/-!
# The tracker and the whole run

The tracker has the newest windows since its last reset. Its summary is that of all of them just where the windows that
it dropped are not needed.
-/

set_option autoImplicit false

namespace LoopLab.Engine.LossTrajectory

/-- What is done with one tracker. -/
inductive Call
  | observe (text : List Char)
  | reset

def Tracker.step (t : Tracker) : Call → Tracker
  | .observe text => t.observe text
  | .reset => t.reset

def Tracker.run (t : Tracker) (calls : List Call) : Tracker := calls.foldl Tracker.step t

def addWindow (rows : List LossWindow) : Call → List LossWindow
  | .observe text => rows ++ (summarizeLossWindow text).toList
  | .reset => []

/-- The windows of the texts since the last reset. -/
def observed (calls : List Call) : List LossWindow := calls.foldl addWindow []

/-- The facts that are asked of a summary. -/
structure Agrees (a b : Trajectory) : Prop where
  direction : a.direction = b.direction
  first : a.first = b.first
  net : a.net = b.net
  anomaly : a.anomaly = b.anomaly

/-- Without the dropped windows that have numbers the curve opens alike, moves to the same side of its noise, and explodes
if it did with them. -/
def OpensAlike (dropped kept : List LossWindow) : Prop :=
  ∃ a rest b more, numericOf dropped = a :: rest ∧ numericOf kept = b :: more ∧ more ≠ [] ∧ b.first = a.first ∧
    b.median = a.median ∧
    directionOf (a.median - (more.getLastD b).median) (floorOf a.median (numericOf (dropped ++ kept))) =
      directionOf (a.median - (more.getLastD b).median) (floorOf a.median (numericOf kept)) ∧
    (anyNonfinite kept = false → exploded a.median (numericOf dropped) = true → exploded a.median (numericOf kept) = true)

/-- Nothing that a verdict needs was in the dropped windows. -/
def NothingNeeded (dropped kept : List LossWindow) : Prop :=
  (anyNonfinite dropped = true → anyNonfinite kept = true) ∧ (numericOf dropped = [] ∨ OpensAlike dropped kept)

section Tracker
variable {t : Tracker} {calls : List Call} {dropped kept rows : List LossWindow} {w : LossWindow} {n : Nat}

theorem drop_append_singleton : ((rows.drop (rows.length - n)) ++ [w]).drop
    ((rows.drop (rows.length - n) ++ [w]).length - n) = (rows ++ [w]).drop ((rows ++ [w]).length - n) := by
  have hsplit : rows.drop (rows.length - n) ++ [w] = (rows ++ [w]).drop (rows.length - n) := by
    rw [List.drop_append_of_le_length (Nat.sub_le _ _)]
  rw [hsplit, List.drop_drop, List.length_drop, List.length_append, List.length_singleton]
  congr 1
  omega

theorem observe_eq {text : List Char} (h : t.windows = rows.drop (rows.length - t.maxlen)) :
    (t.observe text).windows = (rows ++ (summarizeLossWindow text).toList).drop
        ((rows ++ (summarizeLossWindow text).toList).length - t.maxlen) ∧ (t.observe text).maxlen = t.maxlen := by
  unfold Tracker.observe
  cases summarizeLossWindow text with
  | none =>
    rw [Option.toList_none, List.append_nil]
    exact ⟨h, rfl⟩
  | some w =>
    refine ⟨?_, rfl⟩
    dsimp only
    rw [h, drop_append_singleton]
    rfl

/-- The tracker has the newest of the windows observed. -/
theorem run_windows (maxWindows : Int) (calls : List Call) :
    (Tracker.run (.new maxWindows) calls).windows =
      (observed calls).drop ((observed calls).length - (max 2 maxWindows).toNat) := by
  have hrun : ∀ (t : Tracker) (rows : List LossWindow), t.windows = rows.drop (rows.length - t.maxlen) →
      (t.run calls).windows =
        (calls.foldl addWindow rows).drop ((calls.foldl addWindow rows).length - t.maxlen) := by
    induction calls with
    | nil => exact fun _ _ h => h
    | cons call calls ih =>
      intro t rows h
      cases call with
      | observe text =>
        obtain ⟨hwindows, hmaxlen⟩ := observe_eq h
        have hnext := ih (t.observe text) _ (hmaxlen.symm ▸ hwindows)
        rw [hmaxlen] at hnext
        exact hnext
      | reset => exact ih t.reset [] List.drop_nil.symm
  exact hrun (.new maxWindows) [] List.drop_nil.symm

/-! ## Summaries -/

theorem numericOf_append : numericOf (dropped ++ kept) = numericOf dropped ++ numericOf kept := List.filterMap_append

theorem anyNonfinite_append : anyNonfinite (dropped ++ kept) = (anyNonfinite dropped || anyNonfinite kept) :=
  List.any_append

theorem exploded_append (opening : Rat) (xs ys : List Readings) :
    exploded opening (xs ++ ys) = (exploded opening xs || exploded opening ys) := List.any_append

theorem first_summary : (summarizeTrajectory rows).first = (numericOf rows).head?.map Readings.first := by
  unfold summarizeTrajectory
  dsimp only
  cases numericOf rows with
  | nil => rfl
  | cons a rest =>
    dsimp only
    split <;> rfl

theorem anomaly_summary : (summarizeTrajectory rows).anomaly = anomalyOf rows (numericOf rows) := by
  unfold summarizeTrajectory
  dsimp only
  cases numericOf rows with
  | nil => rfl
  | cons a rest =>
    dsimp only
    split <;> rfl

theorem net_summary {a : Readings} {rest : List Readings} (h : numericOf rows = a :: rest) (hrest : rest ≠ []) :
    (summarizeTrajectory rows).net = some (a.median - (rest.getLastD a).median) ∧
      (summarizeTrajectory rows).direction =
        directionOf (a.median - (rest.getLastD a).median) (floorOf a.median (numericOf rows)) := by
  unfold summarizeTrajectory
  rw [h]
  dsimp only
  rw [if_neg hrest]
  exact ⟨rfl, rfl⟩

theorem net_short (h : (numericOf rows).length < 2) :
    (summarizeTrajectory rows).net = none ∧ (summarizeTrajectory rows).direction = .unknown := by
  unfold summarizeTrajectory
  cases hrows : numericOf rows with
  | nil => exact ⟨rfl, rfl⟩
  | cons a rest =>
    rw [hrows, List.length_cons] at h
    have hnil : rest = [] := List.length_eq_zero_iff.mp (by omega)
    dsimp only
    rw [if_pos hnil]
    exact ⟨rfl, rfl⟩

theorem getLastD_append_cons (xs : List Readings) (a b : Readings) (more : List Readings) :
    (xs ++ b :: more).getLastD a = more.getLastD b := by
  simp only [List.getLastD_eq_getLast?, List.getLast?_append, List.getLast?_cons]
  rfl

theorem net_congr {rows' : List LossWindow} (h : numericOf rows = numericOf rows') :
    (summarizeTrajectory rows).direction = (summarizeTrajectory rows').direction ∧
      (summarizeTrajectory rows).net = (summarizeTrajectory rows').net := by
  by_cases hshort : (numericOf rows).length < 2
  · obtain ⟨hnet, hdirection⟩ := net_short hshort
    obtain ⟨hnet', hdirection'⟩ := net_short (h ▸ hshort)
    exact ⟨hdirection.trans hdirection'.symm, hnet.trans hnet'.symm⟩
  · cases hrows : numericOf rows with
    | nil => exact absurd (by rw [hrows]; exact Nat.zero_lt_two) hshort
    | cons a rest =>
      have hrest : rest ≠ [] := by
        rintro rfl
        exact hshort (by rw [hrows]; exact Nat.lt_succ_self 1)
      obtain ⟨hnet, hdirection⟩ := net_summary hrows hrest
      obtain ⟨hnet', hdirection'⟩ := net_summary (h.symm.trans hrows) hrest
      rw [hdirection, hdirection', hnet, hnet', h]
      exact ⟨rfl, rfl⟩

theorem anomaly_same_iff {numeric : List Readings} :
    anomalyOf kept numeric = anomalyOf (dropped ++ kept) numeric ↔
      (anyNonfinite dropped = true → anyNonfinite kept = true) := by
  unfold anomalyOf
  rw [anyNonfinite_append]
  cases numeric with
  | nil => cases anyNonfinite dropped <;> cases anyNonfinite kept <;> simp
  | cons a rest =>
    dsimp only
    cases anyNonfinite dropped <;> cases anyNonfinite kept <;> cases exploded a.median (a :: rest) <;> simp

theorem anomaly_alike_iff {a b : Readings} {rest more : List Readings} (hdropped : numericOf dropped = a :: rest)
    (hkept : numericOf kept = b :: more) (hmedian : b.median = a.median) :
    anomalyOf kept (numericOf kept) = anomalyOf (dropped ++ kept) (numericOf (dropped ++ kept)) ↔
      (anyNonfinite dropped = true → anyNonfinite kept = true) ∧ (anyNonfinite kept = false →
        exploded a.median (numericOf dropped) = true → exploded a.median (numericOf kept) = true) := by
  unfold anomalyOf
  rw [anyNonfinite_append, numericOf_append, hdropped, List.cons_append]
  dsimp only
  rw [← List.cons_append, ← hdropped, exploded_append, hkept]
  dsimp only
  rw [hmedian, ← hkept]
  cases anyNonfinite dropped <;> cases anyNonfinite kept <;> cases exploded a.median (numericOf dropped) <;>
    cases exploded a.median (numericOf kept) <;> simp

theorem summary_agrees_iff (dropped kept : List LossWindow) :
    Agrees (summarizeTrajectory kept) (summarizeTrajectory (dropped ++ kept)) ↔ NothingNeeded dropped kept := by
  cases hdropped : numericOf dropped with
  | nil =>
    have hnumeric : numericOf (dropped ++ kept) = numericOf kept := by
      rw [numericOf_append, hdropped, List.nil_append]
    constructor
    · intro h
      have hanomaly := h.anomaly
      rw [anomaly_summary, anomaly_summary, hnumeric, anomaly_same_iff] at hanomaly
      exact ⟨hanomaly, Or.inl hdropped⟩
    · rintro ⟨hnonfinite, -⟩
      obtain ⟨hdirection, hnet⟩ := net_congr hnumeric
      refine ⟨hdirection.symm, ?_, hnet.symm, ?_⟩
      · rw [first_summary, first_summary, hnumeric]
      · rw [anomaly_summary, anomaly_summary, hnumeric, anomaly_same_iff]
        exact hnonfinite
  | cons a rest =>
    cases hkept : numericOf kept with
    | nil =>
      apply iff_of_false
      · intro h
        have hfirst := h.first
        rw [first_summary, first_summary, numericOf_append, hdropped, hkept] at hfirst
        cases hfirst
      · rintro ⟨-, hnone | ⟨_, _, b, more, -, hsome, -⟩⟩
        · rw [hdropped] at hnone
          cases hnone
        · rw [hkept] at hsome
          cases hsome
    | cons b more =>
      have hall : numericOf (dropped ++ kept) = a :: (rest ++ b :: more) := by
        rw [numericOf_append, hdropped, hkept, List.cons_append]
      obtain ⟨hnetAll, hdirectionAll⟩ := net_summary hall (by simp)
      rw [getLastD_append_cons] at hnetAll hdirectionAll
      have hfirst : (summarizeTrajectory kept).first = (summarizeTrajectory (dropped ++ kept)).first ↔
          b.first = a.first := by
        rw [first_summary, first_summary, hall, hkept]
        exact Option.some_inj
      by_cases hmore : more = []
      · have hshort : (numericOf kept).length < 2 := by
          rw [hkept, hmore]
          exact Nat.lt_succ_self 1
        apply iff_of_false
        · intro h
          have hnet := h.net
          rw [(net_short hshort).1, hnetAll] at hnet
          cases hnet
        · rintro ⟨-, hnone | ⟨_, _, _, more', -, hsome, hne, -⟩⟩
          · rw [hdropped] at hnone
            cases hnone
          · obtain ⟨-, rfl⟩ := List.cons.inj (hkept.symm.trans hsome)
            exact hne hmore
      · obtain ⟨hnet, hdirection⟩ := net_summary hkept hmore
        constructor
        · intro h
          have hsame : b.median = a.median := by
            have heq := h.net
            rw [hnet, hnetAll] at heq
            exact sub_left_injective (Option.some.inj heq)
          have hanomaly := h.anomaly
          rw [anomaly_summary, anomaly_summary, anomaly_alike_iff hdropped hkept hsame] at hanomaly
          have hside := h.direction
          rw [hdirection, hdirectionAll, hsame] at hside
          exact ⟨hanomaly.1, Or.inr ⟨a, rest, b, more, hdropped, hkept, hmore, hfirst.mp h.first, hsame, hside.symm,
            hanomaly.2⟩⟩
        · rintro ⟨hnonfinite, hnone | ⟨a', rest', b', more', ha, hb, -, hopen, hsame, hside, hexploded⟩⟩
          · rw [hdropped] at hnone
            cases hnone
          · obtain ⟨rfl, rfl⟩ := List.cons.inj (hdropped.symm.trans ha)
            obtain ⟨rfl, rfl⟩ := List.cons.inj (hkept.symm.trans hb)
            refine ⟨?_, hfirst.mpr hopen, ?_, ?_⟩
            · rw [hdirection, hdirectionAll, hsame]
              exact hside.symm
            · rw [hnet, hnetAll, hsame]
            · rw [anomaly_summary, anomaly_summary, anomaly_alike_iff hdropped hkept hsame]
              exact ⟨hnonfinite, hexploded⟩

end Tracker

def windowOf (loss : Rat) : LossWindow := ⟨some (readingsOf loss []), 0⟩

/-- A log that starts at a high loss and stays at a low one. -/
def longRun : List Call := .observe "loss: 9".toList :: List.replicate 512 (.observe "loss: 1".toList)

theorem observed_longRun : observed longRun = windowOf 9 :: List.replicate 512 (windowOf 1) := by
  have hfirst : summarizeLossWindow "loss: 9".toList = some (windowOf 9) := by decide +kernel
  have hrest : summarizeLossWindow "loss: 1".toList = some (windowOf 1) := by decide +kernel
  have hrepeat (n : Nat) (rows : List LossWindow) :
      (List.replicate n (Call.observe "loss: 1".toList)).foldl addWindow rows =
        rows ++ List.replicate n (windowOf 1) := by
    induction n generalizing rows with
    | zero => exact (List.append_nil rows).symm
    | succ n ih =>
      rw [List.replicate_succ, List.foldl_cons, ih, addWindow, hrest, List.replicate_succ, List.append_assoc]
      rfl
  rw [observed, longRun, List.foldl_cons, hrepeat, addWindow, hfirst]
  rfl

end LoopLab.Engine.LossTrajectory
