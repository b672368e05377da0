import LoopLab.Log.Scanning
import LoopLab.Log.Writer

/-!
# What decoding a record gives

An event's own row decodes to the event; a batch envelope decodes to the events it was built from;
and whatever record a reader accepts, its raw `seq`, where it is a number, is the sequence number of
its last event.
-/

set_option autoImplicit false

namespace LoopLab
open Lib

namespace Json

theorem pyEq_obj {xs ys : Obj} :
    (obj xs).pyEq (obj ys) = (xs.length == ys.length && pyEqFields xs ys) := by
  rw [pyEq]

theorem pyEq_arr {xs ys : List Json} : (arr xs).pyEq (arr ys) = pyEqList xs ys := by
  rw [pyEq]

theorem pyEq_int_left {i : Int} {v : Json} (h : (int i).pyEq v = true) : v.toInt = some i := by
  cases v with
  | int j =>
    have hj : i = j := by simpa [pyEq, num?] using h
    rw [hj, toInt]
  | bool b => cases b <;> simp_all [pyEq, num?, toInt]
  | float q =>
    have hq : (i : Rat) = q := by simpa [pyEq, num?] using h
    subst q
    simp [toInt]
  | _ => simp [pyEq, num?] at h

theorem pyEqFields_lookup {xs ys : Obj} {k : String} {v : Json} (h : pyEqFields xs ys = true)
    (hv : (k, v) ∈ xs) : ∃ w, ys.lookup k = some w ∧ v.pyEq w = true := by
  induction xs with
  | nil => cases hv
  | cons x xs ih =>
    obtain ⟨j, u⟩ := x
    rw [pyEqFields, Bool.and_eq_true] at h
    rcases List.mem_cons.mp hv with heq | hv
    · cases heq
      cases hl : ys.lookup k with
      | none => simp [hl] at h
      | some w => exact ⟨w, rfl, by simpa [hl] using h.1⟩
    · exact ih h.2 hv

theorem pyEqList_refl {xs : List Json} (h : pyEqList xs xs = true) : ∀ x ∈ xs, x.pyEq x = true := by
  intro x hx
  induction xs with
  | nil => cases hx
  | cons y ys ih =>
    rw [pyEqList, Bool.and_eq_true] at h
    rcases List.mem_cons.mp hx with rfl | hx
    · exact h.1
    · exact ih h.2 hx

end Json

theorem lookup_mem {o : Obj} {k : String} {v : Json} (h : o.lookup k = some v) : (k, v) ∈ o := by
  obtain ⟨l, r, rfl, _⟩ := List.lookup_eq_some_iff.mp h
  simp

theorem isEventBatchRecord_dump (e : Event) :
    isEventBatchRecord e.dump = (e.type == eventBatchType) := by
  simp [isEventBatchRecord, Obj.get, Obj.getD, Event.dump, List.lookup_cons, Json.eqStr, Json.str?,
    Json.pyEq, eventBatchGuardType, Json.num?]

namespace Codec
variable {c : Codec}

/-! ## A single event -/

theorem decodeEventRecord_dump {e : Event} (hv : e.v = 1) (ht : e.type ≠ eventBatchType) :
    c.decodeEventRecord e.dump = some [e] := by
  have hb : isEventBatchRecord e.dump = false := by
    rw [isEventBatchRecord_dump]
    exact beq_false_of_ne ht
  have hraw : e.dump.getD "v" (.int 1) = .int e.v := by
    simp [Obj.getD, Event.dump]
  simp [decodeEventRecord, hb, c.validate_dump, hraw, Json.isBool, hv,
    supportedEventEnvelopeVersions]

/-! ## Members of an envelope -/

theorem decodeMember_some {seq : Int} {raw : Json} {e : Event}
    (h : c.decodeMember seq raw = some e) :
    e.v = 1 ∧ e.type ≠ eventBatchType ∧ e.seq = seq := by
  simp only [decodeMember, Option.bind_eq_bind, Option.bind_eq_some_iff, Option.pure_def] at h
  obtain ⟨o, _, _, _, event, _, _, hg, he⟩ := h
  cases he
  simp only [Option.guard_eq_some', Bool.and_eq_true, beq_iff_eq, bne_iff_ne] at hg
  exact ⟨hg.1.1.2, hg.1.2, hg.2⟩

theorem decodeMembers_some {seq : Int} {raws : List Json} {es : List Event}
    (h : c.decodeMembers seq raws = some es) :
    es.length = raws.length ∧ countsFrom seq es = true ∧
      ∀ e ∈ es, e.v = 1 ∧ e.type ≠ eventBatchType := by
  induction raws generalizing seq es with
  | nil =>
    cases h
    exact ⟨rfl, rfl, fun e he => absurd he List.not_mem_nil⟩
  | cons raw raws ih =>
    simp only [decodeMembers, Option.bind_eq_bind, Option.bind_eq_some_iff, Option.pure_def] at h
    obtain ⟨e, he, rest, hr, heq⟩ := h
    cases heq
    obtain ⟨hlen, hcount, hall⟩ := ih hr
    obtain ⟨hv, ht, hs⟩ := decodeMember_some he
    refine ⟨by rw [List.length_cons, List.length_cons, hlen], ?_, ?_⟩
    · rw [countsFrom, hs, beq_self_eq_true, Bool.true_and]
      exact hcount
    · exact List.forall_mem_cons.mpr ⟨⟨hv, ht⟩, hall⟩

theorem decodeMember_dump {e : Event} (hv : e.v = 1) (ht : e.type ≠ eventBatchType)
    (hself : (Json.obj e.dump).pyEq (.obj e.dump) = true) :
    c.decodeMember e.seq (.obj e.dump) = some e := by
  have hkeys : Obj.hasExactly e.dump eventFields = true := by
    simp [Obj.hasExactly, Obj.has, eventFields, Event.dump, List.lookup_cons]
  simp [decodeMember, Json.obj?, hkeys, c.validate_dump, hself, hv, ht]

theorem decodeMembers_dump {es : List Event} {seq : Int} (hcount : countsFrom seq es = true)
    (hes : ∀ e ∈ es, e.v = 1 ∧ e.type ≠ eventBatchType)
    (hself : ∀ e ∈ es, (Json.obj e.dump).pyEq (.obj e.dump) = true) :
    c.decodeMembers seq (es.map fun e => .obj e.dump) = some es := by
  induction es generalizing seq with
  | nil => rfl
  | cons e es ih =>
    rw [countsFrom, Bool.and_eq_true, beq_iff_eq] at hcount
    obtain ⟨rfl, hcount⟩ := hcount
    obtain ⟨⟨hv, ht⟩, hes⟩ := List.forall_mem_cons.mp hes
    obtain ⟨hse, hself⟩ := List.forall_mem_cons.mp hself
    simp [decodeMembers, decodeMember_dump hv ht hse, ih hcount hes hself]

/-! ## The envelope -/

theorem decodeBatchEnvelope_some {o : Obj} {es : List Event}
    (h : c.decodeBatchEnvelope o = some es) :
    es ≠ [] ∧ (∀ e ∈ es, e.v = 1 ∧ e.type ≠ eventBatchType) ∧
      ∃ v, o.lookup "seq" = some v ∧ v.toInt = some (lastSeq es) := by
  simp only [decodeBatchEnvelope, Option.bind_eq_bind, Option.bind_eq_some_iff,
    Option.guard_eq_some', Bool.and_eq_true, beq_iff_eq, decide_eq_true_eq] at h
  obtain ⟨_, _, outer, _, _, hself, _, _, _, _, count, _, _, hcount, first, _, last, _, _, hseq,
    members, _, _, hlen, _, _, _, _, hm⟩ := h
  obtain ⟨hes, hnum, hall⟩ := decodeMembers_some hm
  have hne : es ≠ [] := by
    rintro rfl
    simp only [List.length_nil] at hes
    omega
  refine ⟨hne, hall, ?_⟩
  rw [Json.pyEq_obj, Bool.and_eq_true] at hself
  obtain ⟨v, hv, heq⟩ := Json.pyEqFields_lookup hself.2
    (show ("seq", Json.int outer.seq) ∈ outer.dump by simp [Event.dump])
  refine ⟨v, ?_, ?_⟩
  · rwa [Obj.lookup_set_ne (by decide)] at hv
  · rw [Json.pyEq_int_left heq, lastSeq_of_countsFrom hnum hne]
    congr 1
    omega

theorem dump_self {e : Event} (h : (Json.obj e.data).pyEq (.obj e.data) = true) :
    (Json.obj e.dump).pyEq (.obj e.dump) = true := by
  have hid : ∀ s, (Event.optStr s).pyEq (Event.optStr s) = true := by
    rintro (_ | s) <;> simp [Event.optStr, Json.pyEq]
  simp [Event.dump, Json.pyEqFields, List.lookup_cons, Json.pyEq, Json.num?, hid]
  rwa [Json.pyEq_obj, Bool.and_eq_true, beq_self_eq_true, and_iff_right rfl] at h

theorem head_seq_of_countsFrom {n : Int} {es : List Event} (h : countsFrom n es = true)
    (hne : es ≠ []) : (es.head?.map Event.seq).getD 0 = n := by
  obtain ⟨e, es, rfl⟩ := List.exists_cons_of_ne_nil hne
  rw [countsFrom, Bool.and_eq_true, beq_iff_eq] at h
  simpa using h.1

theorem physicalEnvelope_lookup_data (e : Event) :
    (physicalEnvelope e).lookup "data" = some (.obj e.data) := by
  rw [physicalEnvelope, Obj.lookup_set_ne (by decide)]
  rfl

theorem physicalEnvelope_set (ids : Option String × Option String) (es : List Event) :
    (physicalEnvelope (batchEnvelope ids es)).set "type" (.str eventBatchType) =
      (batchEnvelope ids es).dump := by
  simp [physicalEnvelope, batchEnvelope, Event.dump, Obj.set]

theorem isEventBatchRecord_physicalEnvelope (e : Event) :
    isEventBatchRecord (physicalEnvelope e) = true := by
  simp [isEventBatchRecord, physicalEnvelope, Event.dump, Obj.set, Obj.get, Obj.getD, List.lookup_cons,
    eventBatchGuardType, Json.pyEq, Json.pyEqList]

theorem batchEnvelope_data (ids : Option String × Option String) (es : List Event) :
    let data := (batchEnvelope ids es).data
    (data.get "schema").eqStr eventBatchSchema = true ∧
      (data.get "count").int? = some (es.length : Int) ∧
      (data.get "first_seq").int? = some ((es.head?.map Event.seq).getD 0) ∧
      (data.get "last_seq").int? = some (lastSeq es) ∧
      (data.get "events").arr? = some (es.map fun e => .obj e.dump) := by
  simp [batchEnvelope, Obj.get, Obj.getD, List.lookup_cons, Json.eqStr, Json.str?, Json.int?, Json.arr?]

theorem envelope_self {ids : Option String × Option String} {es : List Event} {text : Bytes}
    (h : c.dumps (.obj (physicalEnvelope (batchEnvelope ids es))) = some text) :
    (Json.obj (batchEnvelope ids es).data).pyEq (.obj (batchEnvelope ids es).data) = true ∧
      ∀ e ∈ es, (Json.obj e.dump).pyEq (.obj e.dump) = true := by
  have hself := c.dumps_self h
  rw [Json.pyEq_obj, Bool.and_eq_true] at hself
  obtain ⟨w, hw, hdata⟩ := Json.pyEqFields_lookup hself.2
    (lookup_mem (physicalEnvelope_lookup_data _))
  rw [physicalEnvelope_lookup_data] at hw
  cases hw
  refine ⟨hdata, ?_⟩
  rw [Json.pyEq_obj, Bool.and_eq_true] at hdata
  obtain ⟨w, hw, harr⟩ := Json.pyEqFields_lookup hdata.2
    (show ("events", Json.arr (es.map fun e => .obj e.dump)) ∈ _ by simp [batchEnvelope])
  have hw' : w = .arr (es.map fun e => .obj e.dump) := by
    simpa [batchEnvelope, List.lookup_cons] using hw.symm
  rw [hw', Json.pyEq_arr] at harr
  intro e he
  exact Json.pyEqList_refl harr _ (List.mem_map.mpr ⟨e, he, rfl⟩)

theorem decodeEventRecord_batch {ids : Option String × Option String} {es : List Event} {n : Int}
    {text : Bytes} (hne : es ≠ []) (hcount : countsFrom n es = true) (hn : 0 ≤ n)
    (hes : ∀ e ∈ es, e.v = 1 ∧ e.type ≠ eventBatchType)
    (hlen : es.length ≤ maxEventBatchMembers)
    (ht : c.dumps (.obj (physicalEnvelope (batchEnvelope ids es))) = some text)
    (hsize : text.length + 1 ≤ maxEventBatchBytes) :
    c.decodeEventRecord (physicalEnvelope (batchEnvelope ids es)) = some es := by
  obtain ⟨hdata, hself⟩ := envelope_self ht
  have hlast := lastSeq_of_countsFrom hcount hne
  have hfirst := head_seq_of_countsFrom hcount hne
  have hpos : 0 < es.length := List.length_pos_iff.mpr hne
  have hkeys : (physicalEnvelope (batchEnvelope ids es)).hasExactly eventFields = true := by
    simp [physicalEnvelope, Obj.hasExactly, Obj.has, eventFields, Event.dump, Obj.set, List.lookup_cons]
  have hdkeys : (batchEnvelope ids es).data.hasExactly eventBatchDataFields = true := by
    simp [batchEnvelope, Obj.hasExactly, Obj.has, eventBatchDataFields, List.lookup_cons]
  have hmembers : c.decodeMembers n (es.map fun e => .obj e.dump) = some es :=
    decodeMembers_dump hcount hes hself
  have hdump := dump_self hdata
  obtain ⟨hschema, hget, hfst, hlst, hevs⟩ := batchEnvelope_data ids es
  rw [decodeEventRecord, if_pos (isEventBatchRecord_physicalEnvelope _), decodeBatchEnvelope]
  simp only [hkeys, isEventBatchRecord_physicalEnvelope, physicalEnvelope_set, c.validate_dump, ht]
  have hmin : (1 : Int) ≤ es.length := by omega
  have hlow : lastSeq es - es.length + 1 = n := by omega
  have hseq : (batchEnvelope ids es).seq = lastSeq es := rfl
  have hv : (batchEnvelope ids es).v = 1 := rfl
  have hsize' : text.length < maxEventBatchBytes := hsize
  simp [hdump, hdkeys, hschema, hget, hfst, hlst, hevs, hfirst, hmin, hlen, hn, hlow, hseq, hv,
    Nat.add_one_le_iff, hsize', hmembers]

/-! ## Sequence numbers of records -/

theorem decodeEventRecord_seq {o : Obj} {es : List Event} {n : Int}
    (h : c.decodeEventRecord o = some es) (hs : eventSequenceContinues es n = true) (hn : 0 ≤ n) :
    ∃ v, o.lookup "seq" = some v ∧ ∀ i, v.toInt = some i → i = lastSeq es := by
  rw [decodeEventRecord] at h
  split at h
  · obtain ⟨_, _, v, hv, hi⟩ := decodeBatchEnvelope_some h
    refine ⟨v, hv, ?_⟩
    intro i h'
    rw [hi] at h'
    exact (Option.some.inj h').symm
  · simp only [Option.bind_eq_bind, Option.bind_eq_some_iff, Option.pure_def] at h
    obtain ⟨e, he, _, _, heq⟩ := h
    cases heq
    have hseq : e.seq = n := by simpa [countsFrom] using continues_countsFrom hs
    cases hv : o.lookup "seq" with
    | none =>
      have := c.validate_no_seq he hv
      omega
    | some v =>
      refine ⟨v, rfl, ?_⟩
      intro i hi
      rw [lastSeq, List.getLast?_singleton, ← c.validate_seq he hv hi]

end Codec

end LoopLab
