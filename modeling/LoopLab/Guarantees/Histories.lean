import LoopLab.Lib.JsonText
import LoopLab.Llm.History
import Mathlib.Data.List.Forall2

/-!
# A bounded history is the same conversation

A conversation is made of single messages and of turns with the replies to their calls.
-/

set_option autoImplicit false

namespace LoopLab.Llm
open Lib

/-! ## Conversations -/

/-- Every run of tool messages follows the turn that called them, and answers each of its calls once. -/
inductive Legal : List Message → Prop
  | nil : Legal []
  | single {m : Message} {rest : List Message} (hrole : m.role ≠ .tool) (hcalls : m.toolCalls = []) (h : Legal rest) :
      Legal (m :: rest)
  | turn {m : Message} {replies rest : List Message} (hrole : m.role = .assistant) (hcalls : m.toolCalls ≠ [])
      (hreplies : ∀ r ∈ replies, r.role = .tool)
      (hanswered : (replies.map Message.toolCallId).Perm (m.toolCalls.map fun c => some c.id)) (h : Legal rest) :
      Legal (m :: (replies ++ rest))

def StartsTurn (messages : List Message) : Prop := ∀ m ∈ messages.head?, m.role ≠ .tool

namespace Legal

variable {a b messages : List Message} {m : Message}

theorem startsTurn (h : Legal messages) : StartsTurn messages := by
  intro m hm
  cases h with
  | nil => cases hm
  | single hrole _ _ =>
    cases hm
    exact hrole
  | turn hrole _ _ _ _ =>
    cases hm
    rw [hrole]
    exact Role.noConfusion

theorem append (ha : Legal a) (hb : Legal b) : Legal (a ++ b) := by
  induction ha with
  | nil => exact hb
  | single hrole hcalls _ ih => exact .single hrole hcalls ih
  | turn hrole hcalls hreplies hanswered _ ih =>
    rw [List.cons_append, List.append_assoc]
    exact .turn hrole hcalls hreplies hanswered ih

theorem split (h : Legal messages) (hsplit : messages = a ++ b) (hb : StartsTurn b) : Legal a ∧ Legal b := by
  induction h generalizing a with
  | nil =>
    obtain ⟨rfl, rfl⟩ := List.append_eq_nil_iff.mp hsplit.symm
    exact ⟨.nil, .nil⟩
  | @single m rest hrole hcalls h ih =>
    cases a with
    | nil =>
      rw [List.nil_append] at hsplit
      exact ⟨.nil, hsplit ▸ .single hrole hcalls h⟩
    | cons x a =>
      obtain ⟨rfl, hrest⟩ := List.cons.inj hsplit
      obtain ⟨hfront, hback⟩ := ih hrest
      exact ⟨.single hrole hcalls hfront, hback⟩
  | @turn m replies rest hrole hcalls hreplies hanswered h ih =>
    cases a with
    | nil =>
      rw [List.nil_append] at hsplit
      exact ⟨.nil, hsplit ▸ .turn hrole hcalls hreplies hanswered h⟩
    | cons x a =>
      obtain ⟨rfl, hrest⟩ := List.cons.inj hsplit
      rcases List.append_eq_append_iff.mp hrest with ⟨mid, ha, hmid⟩ | ⟨mid, hreply, hbs⟩
      · obtain ⟨hfront, hback⟩ := ih hmid
        rw [ha]
        exact ⟨.turn hrole hcalls hreplies hanswered hfront, hback⟩
      · cases mid with
        | nil =>
          rw [List.append_nil] at hreply
          rw [List.nil_append] at hbs
          rw [← hreply, hbs]
          have hfront := Legal.turn hrole hcalls hreplies hanswered .nil
          rw [List.append_nil] at hfront
          exact ⟨hfront, h⟩
        | cons r mid =>
          -- the cut would fall inside the replies of the turn
          have hr := hreplies r (hreply ▸ List.mem_append_right _ List.mem_cons_self)
          exact absurd hr (hb r (by rw [hbs]; rfl))

theorem toolCalls_eq_nil (h : Legal messages) (hm : m ∈ messages) (hrole : m.role = .user) : m.toolCalls = [] := by
  induction h with
  | nil => cases hm
  | single _ hcalls _ ih =>
    rcases List.mem_cons.mp hm with rfl | hm
    · exact hcalls
    · exact ih hm
  | turn hassistant _ hreplies _ _ ih =>
    rcases List.mem_cons.mp hm with rfl | hm
    · rw [hassistant] at hrole
      cases hrole
    · rcases List.mem_append.mp hm with hm | hm
      · rw [hreplies m hm] at hrole
        cases hrole
      · exact ih hm

theorem startsTurn_of_plain (h : Legal (a ++ b)) (ha : ∀ m ∈ a, m.role = .system ∨ m.role = .user) : StartsTurn b := by
  induction a with
  | nil => exact h.startsTurn
  | cons x a ih =>
    have hx := ha x List.mem_cons_self
    apply ih ?_ fun m hm => ha m (List.mem_cons_of_mem x hm)
    rw [List.cons_append] at h
    generalize hmessages : x :: (a ++ b) = messages at h
    cases h with
    | nil => cases hmessages
    | single _ _ hrest =>
      obtain ⟨-, rfl⟩ := List.cons.inj hmessages
      exact hrest
    | turn hassistant _ _ _ _ =>
      obtain ⟨rfl, -⟩ := List.cons.inj hmessages
      rw [hassistant] at hx
      rcases hx with hx | hx
      · cases hx
      · cases hx

end Legal

structure SameShape (m m' : Message) : Prop where
  role : m'.role = m.role
  calls : m'.toolCalls.map Call.id = m.toolCalls.map Call.id
  reply : m'.toolCallId = m.toolCallId

theorem SameShape.refl (m : Message) : SameShape m m := ⟨rfl, rfl, rfl⟩

theorem SameShape.calls_eq_nil {m m' : Message} (h : SameShape m m') : m'.toolCalls = [] ↔ m.toolCalls = [] := by
  rw [← List.map_eq_nil_iff (f := Call.id), h.calls, List.map_eq_nil_iff]

theorem forall₂_append_left {α β : Type} {R : α → β → Prop} {as bs : List α} {cs : List β}
    (h : List.Forall₂ R (as ++ bs) cs) :
    ∃ front back, cs = front ++ back ∧ List.Forall₂ R as front ∧ List.Forall₂ R bs back := by
  induction as generalizing cs with
  | nil => exact ⟨[], cs, rfl, .nil, h⟩
  | cons a as ih =>
    cases h with
    | @cons _ c _ _ hac hrest =>
      obtain ⟨front, back, rfl, hfront, hback⟩ := ih hrest
      exact ⟨c :: front, back, rfl, .cons hac hfront, hback⟩

theorem Legal.of_sameShape {messages messages' : List Message} (h : Legal messages)
    (hsame : List.Forall₂ SameShape messages messages') : Legal messages' := by
  induction h generalizing messages' with
  | nil =>
    cases hsame
    exact .nil
  | @single m rest hrole hcalls _ ih =>
    cases hsame with
    | cons hm hrest => exact .single (hm.role ▸ hrole) (hm.calls_eq_nil.mpr hcalls) (ih hrest)
  | @turn m replies rest hrole hcalls hreplies hanswered _ ih =>
    cases hsame with
    | @cons _ m' _ tail hm htail =>
      obtain ⟨replies', rest', hsplit, hreplies', hrest'⟩ := forall₂_append_left htail
      rw [hsplit]
      apply Legal.turn (hm.role.trans hrole) (fun hnil => hcalls (hm.calls_eq_nil.mp hnil)) ?_ ?_ (ih hrest')
      · clear hanswered htail hsplit
        induction hreplies' with
        | nil => exact fun r hr => absurd hr List.not_mem_nil
        | @cons r r' _ _ hr _ ihr =>
          intro q hq
          rcases List.mem_cons.mp hq with rfl | hq
          · exact hr.role.trans (hreplies r List.mem_cons_self)
          · exact ihr (fun p hp => hreplies p (List.mem_cons_of_mem r hp)) q hq
      · have hids : replies'.map Message.toolCallId = replies.map Message.toolCallId := by
          clear hanswered htail hsplit hreplies
          induction hreplies' with
          | nil => rfl
          | cons hr _ ihr => rw [List.map_cons, List.map_cons, hr.reply, ihr]
        have hcallIds : (m'.toolCalls.map fun c => some c.id) = m.toolCalls.map fun c => some c.id := by
          have hsome := congrArg (List.map some) hm.calls
          rwa [List.map_map, List.map_map] at hsome
        rw [hids, hcallIds]
        exact hanswered

/-! ## What is protected -/

section Protected
variable {messages front back : List Message} {t m : Message} {maxChars : Int}

theorem systemHead_le : (messages.takeWhile (·.role = .system)).length ≤ protectedHead messages maxChars := by
  unfold protectedHead
  dsimp only
  split
  · split
    · omega
    · exact Nat.le_refl _
  · exact Nat.le_refl _

theorem length_le_of_systems (h : messages = front ++ back) (hfront : ∀ m ∈ front, m.role = .system) :
    front.length ≤ (messages.takeWhile (·.role = .system)).length := by
  rw [h, List.takeWhile_append_of_pos fun m hm => decide_eq_true (hfront m hm), List.length_append]
  omega

theorem length_lt_of_task (h : messages = front ++ t :: back) (hfront : ∀ m ∈ front, m.role = .system)
    (ht : t.role = .user) (hfits : 2 * (totalChars (front ++ [t]) : Int) ≤ maxChars) :
    front.length < protectedHead messages maxChars := by
  have hwhile : messages.takeWhile (·.role = .system) = front := by
    have htail : (t :: back).takeWhile (·.role = .system) = [] := by
      simp [ht]
    rw [h, List.takeWhile_append_of_pos fun m hm => decide_eq_true (hfront m hm), htail, List.append_nil]
  have hget : messages[front.length]? = some t := by
    rw [h, List.getElem?_append_right (Nat.le_refl _), Nat.sub_self]
    rfl
  have htake : messages.take (front.length + 1) = front ++ [t] := by
    rw [h, List.take_append, List.take_of_length_le (Nat.le_succ _), Nat.add_sub_cancel_left]
    rfl
  unfold protectedHead
  dsimp only
  rw [hwhile, hget]
  dsimp only
  rw [htake, if_pos ⟨ht, hfits⟩]
  exact Nat.lt_succ_self _

theorem role_of_head (hm : m ∈ messages.take (protectedHead messages maxChars)) : m.role = .system ∨ m.role = .user := by
  have hsystem {m : Message} (hm : m ∈ messages.take (messages.takeWhile (·.role = .system)).length) : m.role = .system := by
    rw [← List.prefix_iff_eq_take.mp (List.takeWhile_prefix _)] at hm
    simpa using List.mem_takeWhile_imp hm
  unfold protectedHead at hm
  dsimp only at hm
  split at hm
  · rename_i task htask
    split at hm
    · rename_i hok
      rw [List.take_add_one, htask] at hm
      rcases List.mem_append.mp hm with hm | hm
      · exact Or.inl (hsystem hm)
      · rw [Option.toList_some, List.mem_singleton] at hm
        exact Or.inr (hm ▸ hok.1)
    · exact Or.inl (hsystem hm)
  · exact Or.inl (hsystem hm)

end Protected

/-- A message that stays as it is. -/
def isPinned (messages : List Message) (maxChars : Int) (keepLast : Nat) (keep : Option Message) (i : Nat) : Bool :=
  i < protectedHead messages maxChars || messages.length ≤ i + keepLast ||
    pinnedRequest messages maxChars (protectedHead messages maxChars) keep = some i

/-- The messages at the positions that pass. -/
def atPositions (p : Nat → Bool) (i : Nat) (messages : List Message) : List Message :=
  ((messages.zipIdx i).filter fun q => p q.2).map Prod.fst

section Positions
variable {p : Nat → Bool} {i j : Nat} {messages out a b : List Message} {m : Message}

theorem atPositions_sublist : (atPositions p i messages).Sublist messages := by
  have hsub := (List.filter_sublist (l := messages.zipIdx i) (p := fun q => p q.2)).map Prod.fst
  rwa [List.zipIdx_map_fst] at hsub

theorem atPositions_append : atPositions p i (a ++ b) = atPositions p i a ++ atPositions p (i + a.length) b := by
  unfold atPositions
  rw [List.zipIdx_append, List.filter_append, List.map_append]

theorem atPositions_eq_nil (h : ∀ j, i ≤ j → j < i + messages.length → p j = false) : atPositions p i messages = [] := by
  unfold atPositions
  rw [List.map_eq_nil_iff, List.filter_eq_nil_iff]
  rintro ⟨m, j⟩ hm
  obtain ⟨hle, hlt, -⟩ := List.mem_zipIdx hm
  simp [h j hle hlt]

theorem mem_atPositions (h : messages[j]? = some m) (hp : p j = true) : m ∈ atPositions p 0 messages := by
  unfold atPositions
  apply List.mem_map.mpr
  refine ⟨(m, j), List.mem_filter.mpr ⟨?_, hp⟩, rfl⟩
  rw [List.mem_zipIdx_iff_getElem?]
  exact h

theorem atPositions_congr (hlen : messages.length = out.length)
    (h : ∀ j, p (i + j) = true → out[j]? = messages[j]?) : atPositions p i messages = atPositions p i out := by
  induction messages generalizing out i with
  | nil => rw [List.length_eq_zero_iff.mp hlen.symm]
  | cons m messages ih =>
    cases out with
    | nil => cases hlen
    | cons o out =>
      have hrest := ih (i := i + 1) (Nat.succ.inj hlen) fun j hj => by
        have hnext := h (j + 1) (by rwa [Nat.add_assoc, Nat.add_comm 1] at hj)
        rwa [List.getElem?_cons_succ, List.getElem?_cons_succ] at hnext
      unfold atPositions at hrest ⊢
      rw [List.zipIdx_cons, List.zipIdx_cons, List.filter_cons, List.filter_cons]
      dsimp only
      split
      · rename_i hp
        have hfirst := h 0 hp
        rw [List.getElem?_cons_zero, List.getElem?_cons_zero] at hfirst
        rw [List.map_cons, List.map_cons, hrest, Option.some.inj hfirst]
      · exact hrest

end Positions

/-- What stays as it is, and in order. -/
structure Unchanged (messages out : List Message) (maxChars : Int) (keepLast : Nat) (keep : Option Message) : Prop where
  systems : ∀ front back, messages = front ++ back → (∀ m ∈ front, m.role = .system) → front <+: out
  task : ∀ front t back, messages = front ++ t :: back → (∀ m ∈ front, m.role = .system) → t.role = .user →
    2 * (totalChars (front ++ [t]) : Int) ≤ maxChars → front ++ [t] <+: out
  request : ∀ request, keep = some request → (∃ m ∈ messages, m.same request = true) →
    2 * ((totalChars (messages.take (protectedHead messages maxChars)) : Int) + msgChars request) ≤ maxChars →
      request ∈ out
  recent : messages.drop (messages.length - keepLast) <:+ out
  order : (atPositions (isPinned messages maxChars keepLast keep) 0 messages).Sublist out

/-- A conversation, and the request that its loop was handed: a user message, which alone is itself. -/
structure Conversation (messages : List Message) (keep : Option Message) : Prop where
  legal : Legal messages
  asked : ∀ request, keep = some request → request.role = .user
  objects : ∀ request, keep = some request → ∀ m ∈ messages, m.same request = true → m = request

section Unchanged
variable {messages out : List Message} {maxChars : Int} {keepLast : Nat} {keep : Option Message}

theorem Unchanged.refl (h : Conversation messages keep) : Unchanged messages messages maxChars keepLast keep := by
  refine ⟨?_, ?_, ?_, List.drop_suffix _ _, atPositions_sublist⟩
  · rintro front back rfl -
    exact List.prefix_append _ _
  · rintro front t back rfl - - -
    exact ⟨back, by simp⟩
  · rintro request hkeep ⟨m, hm, hsame⟩ -
    exact h.objects request hkeep m hm hsame ▸ hm

theorem unchanged_of_head (h : Conversation messages keep)
    (hhead : messages.take (protectedHead messages maxChars) <+: out)
    (hrecent : messages.drop (messages.length - keepLast) <:+ out)
    (horder : (atPositions (isPinned messages maxChars keepLast keep) 0 messages).Sublist out) :
    Unchanged messages out maxChars keepLast keep := by
  have hcut {front back : List Message} (hsplit : messages = front ++ back)
      (hle : front.length ≤ protectedHead messages maxChars) : front <+: out := by
    have hfront : front = messages.take front.length := by
      rw [hsplit, List.take_left]
    apply List.IsPrefix.trans ?_ hhead
    rw [hfront]
    exact List.take_prefix_take_left hle
  refine ⟨?_, ?_, ?_, hrecent, horder⟩
  · intro front back hsplit hsystem
    exact hcut hsplit ((length_le_of_systems hsplit hsystem).trans systemHead_le)
  · intro front t back hsplit hsystem ht hfits
    have hlt := length_lt_of_task hsplit hsystem ht hfits
    apply @hcut (front ++ [t]) back (by simpa using hsplit)
    rw [List.length_append, List.length_singleton]
    exact hlt
  · rintro request hkeep ⟨m, hm, hsame⟩ hfits
    cases hfind : messages.findIdx? (·.same request) with
    | none =>
      have hnone := List.findIdx?_eq_none_iff.mp hfind m hm
      rw [hsame] at hnone
      cases hnone
    | some idx =>
      obtain ⟨hlt, hidx, -⟩ := List.findIdx?_eq_some_iff_getElem.mp hfind
      have hmem : messages[idx] ∈ messages := List.getElem_mem hlt
      have heq := h.objects request hkeep _ hmem hidx
      by_cases hin : idx < protectedHead messages maxChars
      · apply hhead.subset
        rw [← heq]
        apply List.mem_take_iff_getElem.mpr
        exact ⟨idx, by omega, rfl⟩
      · apply horder.subset
        apply mem_atPositions (j := idx)
        · rw [List.getElem?_eq_getElem hlt, heq]
        · have hpinned : pinnedRequest messages maxChars (protectedHead messages maxChars) keep = some idx := by
            unfold pinnedRequest
            rw [hkeep]
            dsimp only
            rw [hfind]
            dsimp only
            rw [if_neg hin, if_neg (by omega)]
          unfold isPinned
          rw [hpinned]
          simp

end Unchanged

/-! ## Truncation -/

/-- What a message gives when it is truncated. -/
def saving (perMsgCap : Nat) (m : Message) : Nat := msgChars m - msgChars (shrunk perMsgCap m)

/-- What the messages from a position on give, those spared nothing. -/
def savings (spared : Nat → Message → Bool) (perMsgCap : Nat) (i : Nat) (messages : List Message) : List Nat :=
  (messages.zipIdx i).map fun q => if spared q.2 q.1 then 0 else saving perMsgCap q.1

inductive Truncated (perMsgCap : Nat) (m : Message) : Message → Prop
  | same : Truncated perMsgCap m m
  | shrunk (h : msgChars (shrunk perMsgCap m) < msgChars m) : Truncated perMsgCap m (shrunk perMsgCap m)

section Truncation
variable {spared : Nat → Message → Bool} {perMsgCap i j : Nat} {maxChars total : Int} {messages out : List Message}
variable {m m' : Message}

theorem truncateFrom_truncated (spared : Nat → Message → Bool) (perMsgCap : Nat) (maxChars : Int) (i : Nat) (total : Int)
    (messages : List Message) :
    List.Forall₂ (Truncated perMsgCap) messages (truncateFrom spared perMsgCap maxChars i total messages) := by
  induction messages generalizing i total with
  | nil => exact .nil
  | cons m messages ih =>
    unfold truncateFrom
    dsimp only
    split
    · exact .cons .same (ih _ _)
    · split
      · exact .cons .same (ih _ _)
      · rename_i hlt
        exact .cons (.shrunk (not_le.mp hlt)) (ih _ _)

theorem getElem?_truncateFrom : (truncateFrom spared perMsgCap maxChars i total messages)[j]? =
    messages[j]?.map fun m =>
      if spared (i + j) m = true ∨ total ≤ maxChars + (((savings spared perMsgCap i messages).take j).sum : Nat) ∨
        saving perMsgCap m = 0 then m else shrunk perMsgCap m := by
  induction messages generalizing i j total with
  | nil => rfl
  | cons m messages ih =>
    have hsavings : savings spared perMsgCap i (m :: messages) =
        (if spared i m then 0 else saving perMsgCap m) :: savings spared perMsgCap (i + 1) messages := rfl
    have hindex (j : Nat) : i + 1 + j = i + (j + 1) := by omega
    unfold truncateFrom
    dsimp only
    by_cases hkeep : (spared i m || decide (total ≤ maxChars)) = true
    · rw [if_pos hkeep]
      rw [Bool.or_eq_true, decide_eq_true_eq] at hkeep
      cases j with
      | zero =>
        rw [List.getElem?_cons_zero, List.getElem?_cons_zero, Option.map_some, if_pos]
        rcases hkeep with hspared | htotal
        · exact Or.inl hspared
        · exact Or.inr (Or.inl (by simpa using htotal))
      | succ j =>
        rw [List.getElem?_cons_succ, List.getElem?_cons_succ, ih, hsavings, hindex, List.take_succ_cons, List.sum_cons]
        congr 1
        funext m'
        rcases hkeep with hspared | htotal
        · rw [if_pos hspared, Nat.zero_add]
        · rw [if_pos (Or.inr (Or.inl (by omega))), if_pos (Or.inr (Or.inl (by rw [Int.natCast_add]; omega)))]
    · rw [if_neg hkeep]
      rw [Bool.or_eq_true, decide_eq_true_eq, not_or] at hkeep
      by_cases hgives : msgChars m ≤ msgChars (shrunk perMsgCap m)
      · have hzero : saving perMsgCap m = 0 := Nat.sub_eq_zero_of_le hgives
        rw [if_pos hgives]
        cases j with
        | zero => rw [List.getElem?_cons_zero, List.getElem?_cons_zero, Option.map_some, if_pos (Or.inr (Or.inr hzero))]
        | succ j =>
          rw [List.getElem?_cons_succ, List.getElem?_cons_succ, ih, hsavings, hindex, List.take_succ_cons, List.sum_cons,
            if_neg hkeep.1, hzero, Nat.zero_add]
      · have hsome : saving perMsgCap m ≠ 0 := by
          unfold saving
          omega
        rw [if_neg hgives]
        cases j with
        | zero =>
          rw [List.getElem?_cons_zero, List.getElem?_cons_zero, Option.map_some, if_neg]
          rintro (hspared | htotal | hzero)
          · exact hkeep.1 hspared
          · exact hkeep.2 (by simpa using htotal)
          · exact hsome hzero
        | succ j =>
          rw [List.getElem?_cons_succ, List.getElem?_cons_succ, ih, hsavings, hindex, List.take_succ_cons, List.sum_cons,
            if_neg hkeep.1]
          congr 1
          funext m'
          have hless : (saving perMsgCap m : Int) = msgChars m - msgChars (shrunk perMsgCap m) := by
            unfold saving
            omega
          have htotal : total - (msgChars m - msgChars (shrunk perMsgCap m)) ≤
              maxChars + (((savings spared perMsgCap (i + 1) messages).take j).sum : Nat) ↔
            total ≤ maxChars + ((saving perMsgCap m + ((savings spared perMsgCap (i + 1) messages).take j).sum : Nat) : Int) := by
            push_cast
            omega
          simp only [htotal]

theorem Truncated.sameShape (h : Truncated perMsgCap m m') : SameShape m m' := by
  cases h with
  | same => exact SameShape.refl m
  | shrunk _ =>
    refine ⟨rfl, ?_, rfl⟩
    change (m.toolCalls.map _).map Call.id = _
    rw [List.map_map]
    rfl

theorem Truncated.le (h : Truncated perMsgCap m m') : msgChars m' ≤ msgChars m := by
  cases h with
  | same => exact Nat.le_refl _
  | shrunk h => exact Nat.le_of_lt h

theorem object_elidedArguments (n : Nat) : JsonText.Object (elidedArguments n).toList := by
  have hname : JsonText.Chars "__elided_arguments_chars__".toList := JsonText.chars_of_all (by decide)
  have hobject := JsonText.object_of_value hname (JsonText.value_toDigits n)
  have htext : (elidedArguments n).toList =
      '\x7b' :: '"' :: "__elided_arguments_chars__".toList ++ '"' :: ':' :: ' ' :: Nat.toDigits 10 n ++ ['\x7d'] := by
    unfold elidedArguments
    rw [String.toList_append, String.toList_append, Nat.toString_eq_repr, Nat.toList_repr]
    rfl
  rw [htext]
  exact hobject

/-- Arguments are as they were, or an object. -/
def ArgumentsKept (m m' : Message) : Prop :=
  List.Forall₂ (fun c c' : Call => c'.arguments = c.arguments ∨ JsonText.Object c'.arguments.toList) m.toolCalls m'.toolCalls

theorem ArgumentsKept.refl (m : Message) : ArgumentsKept m m := by
  unfold ArgumentsKept
  induction m.toolCalls with
  | nil => exact .nil
  | cons c calls ih => exact .cons (Or.inl rfl) ih

theorem Truncated.argumentsKept (h : Truncated perMsgCap m m') : ArgumentsKept m m' := by
  cases h with
  | same => exact ArgumentsKept.refl m
  | shrunk _ =>
    unfold ArgumentsKept
    change List.Forall₂ _ m.toolCalls (m.toolCalls.map _)
    induction m.toolCalls with
    | nil => exact .nil
    | cons c calls ih =>
      refine .cons ?_ ih
      dsimp only
      unfold shortArguments
      split
      · exact Or.inr (object_elidedArguments _)
      · exact Or.inl rfl

theorem totalChars_le (h : List.Forall₂ (Truncated perMsgCap) messages out) : totalChars out ≤ totalChars messages := by
  unfold totalChars
  induction h with
  | nil => exact Nat.le_refl _
  | cons hm _ ih =>
    rw [List.map_cons, List.map_cons, List.sum_cons, List.sum_cons]
    exact Nat.add_le_add hm.le ih

end Truncation

/-- A truncated history is the conversation with shorter texts. -/
structure TruncateSound (messages : List Message) (maxChars : Int) (keepLast perMsgCap : Nat) (keep : Option Message) :
    Prop where
  legal : Legal (truncateHistory messages maxChars keepLast perMsgCap keep)
  unchanged : Unchanged messages (truncateHistory messages maxChars keepLast perMsgCap keep) maxChars keepLast keep
  smaller : totalChars (truncateHistory messages maxChars keepLast perMsgCap keep) ≤ totalChars messages
  arguments : List.Forall₂ ArgumentsKept messages (truncateHistory messages maxChars keepLast perMsgCap keep)
  within : (totalChars messages : Int) ≤ maxChars → truncateHistory messages maxChars keepLast perMsgCap keep = messages

section TruncateHistory
variable {messages out : List Message} {maxChars : Int} {keepLast perMsgCap j : Nat} {keep : Option Message}

theorem truncateHistory_truncated :
    List.Forall₂ (Truncated perMsgCap) messages (truncateHistory messages maxChars keepLast perMsgCap keep) := by
  have hsame : List.Forall₂ (Truncated perMsgCap) messages messages := List.forall₂_same.mpr fun m _ => .same
  unfold truncateHistory
  split
  · exact hsame
  · split
    · exact hsame
    · exact truncateFrom_truncated _ _ _ _ _ _

theorem truncateHistory_within (h : maxChars ≤ 0 ∨ (totalChars messages : Int) ≤ maxChars) :
    truncateHistory messages maxChars keepLast perMsgCap keep = messages := by
  unfold truncateHistory
  split
  · rfl
  · rename_i hoff
    rw [if_pos (h.resolve_left hoff)]

theorem getElem?_truncateHistory (hon : 0 < maxChars) (hover : maxChars < totalChars messages) :
    (truncateHistory messages maxChars keepLast perMsgCap keep)[j]? = messages[j]?.map fun m =>
      if isSpared messages maxChars keepLast keep j m = true ∨ (totalChars messages : Int) ≤
          maxChars + (((savings (isSpared messages maxChars keepLast keep) perMsgCap 0 messages).take j).sum : Nat) ∨
        saving perMsgCap m = 0 then m else shrunk perMsgCap m := by
  unfold truncateHistory
  rw [if_neg (by omega), if_neg (by omega), getElem?_truncateFrom, Nat.zero_add]

theorem isSpared_of_pinned (h : isPinned messages maxChars keepLast keep j = true) (m : Message) :
    isSpared messages maxChars keepLast keep j m = true := by
  unfold isPinned at h
  unfold isSpared
  simp only [Bool.or_eq_true] at h ⊢
  tauto

theorem getElem?_of_pinned (h : isPinned messages maxChars keepLast keep j = true) :
    (truncateHistory messages maxChars keepLast perMsgCap keep)[j]? = messages[j]? := by
  by_cases hwithin : maxChars ≤ 0 ∨ (totalChars messages : Int) ≤ maxChars
  · rw [truncateHistory_within hwithin]
  · rw [not_or, not_le, not_le] at hwithin
    rw [getElem?_truncateHistory hwithin.1 hwithin.2]
    cases messages[j]? with
    | none => rfl
    | some m => rw [Option.map_some, if_pos (Or.inl (isSpared_of_pinned h m))]

theorem unchanged_of_pinned (h : Conversation messages keep) (hlen : messages.length = out.length)
    (hpinned : ∀ j, isPinned messages maxChars keepLast keep j = true → out[j]? = messages[j]?) :
    Unchanged messages out maxChars keepLast keep := by
  apply unchanged_of_head h
  · have htake : messages.take (protectedHead messages maxChars) = out.take (protectedHead messages maxChars) := by
      apply List.ext_getElem?
      intro j
      rw [List.getElem?_take, List.getElem?_take]
      split
      · rename_i hj
        rw [hpinned j]
        unfold isPinned
        simp [hj]
      · rfl
    rw [htake]
    exact List.take_prefix _ _
  · have hdrop : messages.drop (messages.length - keepLast) = out.drop (messages.length - keepLast) := by
      apply List.ext_getElem?
      intro j
      rw [List.getElem?_drop, List.getElem?_drop, hpinned]
      have hlate : messages.length ≤ messages.length - keepLast + j + keepLast := by omega
      unfold isPinned
      simp [hlate]
    rw [hdrop]
    exact List.drop_suffix _ _
  · rw [atPositions_congr hlen fun j hj => hpinned j (by rwa [Nat.zero_add] at hj)]
    exact atPositions_sublist

theorem length_truncateHistory : (truncateHistory messages maxChars keepLast perMsgCap keep).length = messages.length :=
  truncateHistory_truncated.length_eq.symm

theorem truncateHistory_sound (h : Conversation messages keep) : TruncateSound messages maxChars keepLast perMsgCap keep where
  legal := h.legal.of_sameShape (truncateHistory_truncated.imp fun _ _ => Truncated.sameShape)
  unchanged := unchanged_of_pinned h length_truncateHistory.symm fun _ => getElem?_of_pinned
  smaller := totalChars_le truncateHistory_truncated
  arguments := truncateHistory_truncated.imp fun _ _ => Truncated.argumentsKept
  within hwithin := truncateHistory_within (Or.inr hwithin)

end TruncateHistory

/-! ## Summaries -/

section Summaries
variable {messages : List Message} {maxChars : Int} {keepLast head tail start i : Nat} {keep : Option Message} {m : Message}

theorem protectedHead_le : protectedHead messages maxChars ≤ messages.length := by
  have hle : (messages.takeWhile (·.role = .system)).length ≤ messages.length := (List.takeWhile_sublist _).length_le
  unfold protectedHead
  dsimp only
  split
  · rename_i m hm
    have hlt := (List.getElem?_eq_some_iff.mp hm).1
    split
    · exact hlt
    · exact hle
  · exact hle

theorem pullBack_spec (hstart : head ≤ start) (hin : start ≤ head ∨ start < messages.length) :
    ∃ tail, pullBack messages head start = some tail ∧ head ≤ tail ∧ tail ≤ start ∧
      (head < tail → ∃ m, messages[tail]? = some m ∧ m.role ≠ .tool) := by
  induction start with
  | zero => exact ⟨0, rfl, hstart, Nat.le_refl _, fun hlt => absurd hlt (by omega)⟩
  | succ start ih =>
    unfold pullBack
    by_cases hlt : head < start + 1
    · have hget : start + 1 < messages.length := by omega
      rw [if_pos hlt, List.getElem?_eq_getElem hget]
      dsimp only
      split
      · obtain ⟨tail, htail, hle, hback, hrole⟩ := ih (by omega) (Or.inr (by omega))
        exact ⟨tail, htail, hle, by omega, hrole⟩
      · rename_i hrole
        exact ⟨start + 1, rfl, hstart, Nat.le_refl _, fun _ => ⟨_, List.getElem?_eq_getElem hget, hrole⟩⟩
    · rw [if_neg hlt]
      exact ⟨start + 1, rfl, hstart, Nat.le_refl _, fun hgt => absurd hgt hlt⟩

theorem pullBack_past_end (hlt : head < messages.length) : pullBack messages head messages.length = none := by
  obtain ⟨n, hn⟩ := Nat.exists_eq_succ_of_ne_zero (by omega : messages.length ≠ 0)
  rw [hn]
  unfold pullBack
  rw [if_pos (by omega), List.getElem?_eq_none (by omega)]

theorem legal_of_head (h : Legal messages) : Legal (messages.take (protectedHead messages maxChars)) ∧
    Legal (messages.drop (protectedHead messages maxChars)) := by
  have hsplit := (List.take_append_drop (protectedHead messages maxChars) messages).symm
  exact h.split hsplit (Legal.startsTurn_of_plain (hsplit ▸ h) fun m => role_of_head)

theorem legal_of_tail (h : Legal messages) (htail : protectedHead messages maxChars ≤ tail)
    (hrole : protectedHead messages maxChars < tail → ∃ m, messages[tail]? = some m ∧ m.role ≠ .tool) :
    Legal (messages.drop tail) := by
  rcases Nat.eq_or_lt_of_le htail with heq | hlt
  · exact heq ▸ (legal_of_head h).2
  · obtain ⟨m, hm, hnot⟩ := hrole hlt
    apply (h.split (List.take_append_drop tail messages).symm ?_).2
    intro first hfirst
    rw [List.head?_drop, hm] at hfirst
    cases hfirst
    exact hnot

theorem pinnedRequest_spec (h : Conversation messages keep) (hrequest : pinnedRequest messages maxChars head keep = some i) :
    head ≤ i ∧ ∃ request, keep = some request ∧ messages[i]? = some request := by
  unfold pinnedRequest at hrequest
  split at hrequest
  · cases hrequest
  · rename_i request
    split at hrequest
    · cases hrequest
    · rename_i idx hfind
      split at hrequest
      · cases hrequest
      · rename_i hle
        split at hrequest
        · cases hrequest
        · cases hrequest
          obtain ⟨hlt, hsame, -⟩ := List.findIdx?_eq_some_iff_getElem.mp hfind
          refine ⟨not_lt.mp hle, request, rfl, ?_⟩
          rw [List.getElem?_eq_getElem hlt, h.objects request rfl _ (List.getElem_mem hlt) hsame]

theorem kept_spec (h : Conversation messages keep) (hle : protectedHead messages maxChars ≤ tail)
    (htail : tail ≤ max (protectedHead messages maxChars) (messages.length - keepLast)) :
    Legal (staleMiddle messages maxChars keep (protectedHead messages maxChars) tail).1 ∧
      (atPositions (isPinned messages maxChars keepLast keep) (protectedHead messages maxChars)
        ((messages.take tail).drop (protectedHead messages maxChars))).Sublist
          (staleMiddle messages maxChars keep (protectedHead messages maxChars) tail).1 := by
  generalize hhead : protectedHead messages maxChars = head at hle htail
  have hfree (j : Nat) (hj : head ≤ j) (hlt : j < tail)
      (hother : pinnedRequest messages maxChars head keep ≠ some j) : isPinned messages maxChars keepLast keep j = false := by
    unfold isPinned
    rw [hhead]
    simp only [Bool.or_eq_false_iff, decide_eq_false_iff_not]
    refine ⟨⟨by omega, by omega⟩, hother⟩
  have hmiddle {i j : Nat} (hi : head ≤ i) (hj : j ≤ tail)
      (hother : ∀ l, i ≤ l → l < j → pinnedRequest messages maxChars head keep ≠ some l) :
      atPositions (isPinned messages maxChars keepLast keep) i ((messages.take j).drop i) = [] := by
    apply atPositions_eq_nil
    intro l hl hlt
    rw [List.length_drop, List.length_take] at hlt
    exact hfree l (by omega) (by omega) (hother l hl (by omega))
  unfold staleMiddle
  cases hrequest : pinnedRequest messages maxChars head keep with
  | none =>
    refine ⟨.nil, ?_⟩
    have hnone (l : Nat) : pinnedRequest messages maxChars head keep ≠ some l := by
      rw [hrequest]
      exact (Option.some_ne_none l).symm
    rw [hmiddle (Nat.le_refl _) (Nat.le_refl _) fun l _ _ => hnone l]
  | some r =>
    dsimp only
    by_cases hlt : r < tail
    · obtain ⟨hr, request, hkeep, hget⟩ := pinnedRequest_spec h hrequest
      rw [if_pos hlt, hget]
      have huser := h.asked request hkeep
      constructor
      · apply Legal.single ?_ (h.legal.toolCalls_eq_nil (List.mem_of_getElem? hget) huser) .nil
        rw [huser]
        exact Role.noConfusion
      · have hlen : r < messages.length := (List.getElem?_eq_some_iff.mp hget).1
        have hsplit : (messages.take tail).drop head =
            (messages.take r).drop head ++ ([request] ++ (messages.take tail).drop (r + 1)) := by
          have hfirst : messages.take tail = messages.take r ++ ([request] ++ (messages.take tail).drop (r + 1)) := by
            have hat : (messages.take tail)[r]? = some request := by
              rw [List.getElem?_take_of_lt hlt, hget]
            obtain ⟨hbound, hvalue⟩ := List.getElem?_eq_some_iff.mp hat
            have hdrop := List.drop_eq_getElem_cons hbound
            rw [hvalue] at hdrop
            calc messages.take tail = (messages.take tail).take r ++ (messages.take tail).drop r :=
                  (List.take_append_drop r _).symm
              _ = messages.take r ++ ([request] ++ (messages.take tail).drop (r + 1)) := by
                  rw [List.take_take, Nat.min_eq_left (Nat.le_of_lt hlt), hdrop, List.singleton_append]
          have hshort : head ≤ (messages.take r).length := by
            rw [List.length_take]
            omega
          calc (messages.take tail).drop head
              = (messages.take r ++ ([request] ++ (messages.take tail).drop (r + 1))).drop head := by rw [← hfirst]
            _ = _ := List.drop_append_of_le_length hshort
        have hindex : head + ((messages.take r).drop head).length = r := by
          rw [List.length_drop, List.length_take]
          omega
        have hother (l : Nat) (hne : l ≠ r) : pinnedRequest messages maxChars head keep ≠ some l := by
          rw [hrequest]
          exact fun heq => hne (Option.some.inj heq).symm
        rw [hsplit, atPositions_append, atPositions_append, hindex,
          hmiddle (Nat.le_refl _) (Nat.le_of_lt hlt) fun l _ hl => hother l (by omega), List.length_singleton,
          hmiddle (by omega) (Nat.le_refl _) fun l hl _ => hother l (by omega), List.nil_append, List.append_nil]
        exact atPositions_sublist
    · rw [if_neg hlt]
      refine ⟨.nil, ?_⟩
      have hother (l : Nat) (hl : l < tail) : pinnedRequest messages maxChars head keep ≠ some l := by
        rw [hrequest]
        intro heq
        have hsame := Option.some.inj heq
        omega
      rw [hmiddle (Nat.le_refl _) (Nat.le_refl _) fun l _ hl => hother l hl]

end Summaries

/-- A compacted history is a conversation in which what is protected is as it was; it only fails with its summariser. -/
structure CompactSound (s : Summarizer) (messages : List Message) (maxChars : Int) (keepLast : Nat) (label : String)
    (keep : Option Message) : Prop where
  returns : ∀ raised, compactHistory s messages maxChars keepLast label keep = .error raised →
    raised = .budgetExceeded ∧ ∃ text, s.summarize text = .stopped
  legal : ∀ out, compactHistory s messages maxChars keepLast label keep = .ok out → Legal out
  unchanged : ∀ out, compactHistory s messages maxChars keepLast label keep = .ok out →
    Unchanged messages out maxChars keepLast keep
  within : (totalChars messages : Int) ≤ maxChars → compactHistory s messages maxChars keepLast label keep = .ok messages

/-- There is too little to summarise, or the summary is empty. -/
def FallsBack (s : Summarizer) (messages : List Message) (maxChars : Int) (keepLast : Nat) (keep : Option Message) : Prop :=
  ∃ tail, pullBack messages (protectedHead messages maxChars)
      (max (protectedHead messages maxChars) (messages.length - keepLast)) = some tail ∧
    ((staleMiddle messages maxChars keep (protectedHead messages maxChars) tail).2.length < 2 ∨
      s.summary (staleMiddle messages maxChars keep (protectedHead messages maxChars) tail).2 = some "")

/-- Truncating spares each of the last messages, or it gives nothing, or those before it give enough. -/
def RecentSpared (messages : List Message) (maxChars : Int) (keepLast : Nat) (keep : Option Message) : Prop :=
  ∀ i m, messages[i]? = some m → messages.length ≤ i + keepLast →
    isSpared messages maxChars TRUNCATE_KEEP_LAST keep i m = true ∨ (totalChars messages : Int) ≤
        maxChars + (((savings (isSpared messages maxChars TRUNCATE_KEEP_LAST keep) TRUNCATE_PER_MSG_CAP 0
          messages).take i).sum : Nat) ∨
      saving TRUNCATE_PER_MSG_CAP m = 0

/-- Past the budget some message is kept, and the fallback keeps as many as the caller asked for. -/
def FallbackKeeps (s : Summarizer) (messages : List Message) (maxChars : Int) (keepLast : Nat) (keep : Option Message) :
    Prop :=
  0 < maxChars → maxChars < totalChars messages →
    (keepLast = 0 → messages.length ≤ protectedHead messages maxChars) ∧
      (FallsBack s messages maxChars keepLast keep → RecentSpared messages maxChars keepLast keep)

section Compact
variable {s : Summarizer} {messages out : List Message} {maxChars : Int} {keepLast : Nat} {label : String}
variable {keep : Option Message}

theorem shrunk_ne {perMsgCap : Nat} {m : Message} (h : saving perMsgCap m ≠ 0) : shrunk perMsgCap m ≠ m := by
  intro heq
  unfold saving at h
  rw [heq] at h
  omega

theorem recent_fallback_iff (hon : 0 < maxChars) (hover : maxChars < totalChars messages) :
    messages.drop (messages.length - keepLast) <:+
        truncateHistory messages maxChars TRUNCATE_KEEP_LAST TRUNCATE_PER_MSG_CAP keep ↔
      RecentSpared messages maxChars keepLast keep := by
  generalize hout : truncateHistory messages maxChars TRUNCATE_KEEP_LAST TRUNCATE_PER_MSG_CAP keep = out
  have hlen : out.length = messages.length := hout ▸ length_truncateHistory
  have hget (j : Nat) := @getElem?_truncateHistory _ _ TRUNCATE_KEEP_LAST TRUNCATE_PER_MSG_CAP j keep hon hover
  rw [hout] at hget
  have hsuffix : messages.drop (messages.length - keepLast) <:+ out ↔
      messages.drop (messages.length - keepLast) = out.drop (messages.length - keepLast) := by
    constructor
    · intro h
      have hdrop := List.suffix_iff_eq_drop.mp h
      rw [List.length_drop, hlen] at hdrop
      have hcount : messages.length - (messages.length - (messages.length - keepLast)) = messages.length - keepLast := by
        omega
      rwa [hcount] at hdrop
    · intro h
      rw [h]
      exact List.drop_suffix _ _
  rw [hsuffix]
  constructor
  · intro h i m hm hlast
    by_contra hnot
    have hi := congrArg (fun l : List Message => l[i - (messages.length - keepLast)]?) h
    rw [List.getElem?_drop, List.getElem?_drop, Nat.add_sub_cancel' (by omega), hget, hm, Option.map_some, if_neg hnot] at hi
    rw [not_or, not_or] at hnot
    exact shrunk_ne hnot.2.2 (Option.some.inj hi).symm
  · intro h
    apply List.ext_getElem?
    intro j
    rw [List.getElem?_drop, List.getElem?_drop, hget]
    cases hm : messages[messages.length - keepLast + j]? with
    | none => rfl
    | some m => rw [Option.map_some, if_pos (h _ m hm (by omega))]

theorem unchanged_fallback (h : Conversation messages keep)
    (hrecent : messages.drop (messages.length - keepLast) <:+
      truncateHistory messages maxChars TRUNCATE_KEEP_LAST TRUNCATE_PER_MSG_CAP keep) :
    Unchanged messages (truncateHistory messages maxChars TRUNCATE_KEEP_LAST TRUNCATE_PER_MSG_CAP keep) maxChars
      keepLast keep := by
  apply unchanged_of_pinned h length_truncateHistory.symm
  intro j hj
  by_cases hlast : messages.length ≤ j + keepLast
  · obtain ⟨front, hfront⟩ := hrecent
    have hcount := congrArg List.length hfront
    rw [List.length_append, List.length_drop, length_truncateHistory] at hcount
    have hgoal : (front ++ messages.drop (messages.length - keepLast))[j]? = messages[j]? := by
      rw [List.getElem?_append_right (by omega), List.getElem?_drop]
      congr 1
      omega
    rw [← hfront]
    exact hgoal
  · apply getElem?_of_pinned
    unfold isPinned at hj ⊢
    simp only [hlast, decide_false, Bool.or_false] at hj
    rw [Bool.or_eq_true] at hj ⊢
    rcases hj with hj | hj
    · rw [hj]
      simp
    · exact Or.inr hj

variable (s messages maxChars keepLast label keep) in
theorem compactHistory_cases (hon : 0 < maxChars) (hover : maxChars < totalChars messages) :
    pullBack messages (protectedHead messages maxChars)
          (max (protectedHead messages maxChars) (messages.length - keepLast)) = none ∧
        compactHistory s messages maxChars keepLast label keep = .error .indexError ∨
      FallsBack s messages maxChars keepLast keep ∧ compactHistory s messages maxChars keepLast label keep =
        .ok (truncateHistory messages maxChars TRUNCATE_KEEP_LAST TRUNCATE_PER_MSG_CAP keep) ∨
      (∃ text, s.summarize text = .stopped) ∧
        compactHistory s messages maxChars keepLast label keep = .error .budgetExceeded ∨
      ∃ tail text, pullBack messages (protectedHead messages maxChars)
            (max (protectedHead messages maxChars) (messages.length - keepLast)) = some tail ∧
          ¬(staleMiddle messages maxChars keep (protectedHead messages maxChars) tail).2.length < 2 ∧
        compactHistory s messages maxChars keepLast label keep =
          .ok (messages.take (protectedHead messages maxChars) ++ [s.note label text] ++
            (staleMiddle messages maxChars keep (protectedHead messages maxChars) tail).1 ++ messages.drop tail) := by
  unfold compactHistory
  rw [if_neg (by omega), if_neg (by omega)]
  dsimp only
  cases hpull : pullBack messages (protectedHead messages maxChars)
      (max (protectedHead messages maxChars) (messages.length - keepLast)) with
  | none => exact Or.inl ⟨rfl, rfl⟩
  | some tail =>
    right
    dsimp only
    by_cases hshort : (staleMiddle messages maxChars keep (protectedHead messages maxChars) tail).2.length < 2
    · rw [if_pos hshort]
      exact Or.inl ⟨⟨tail, hpull, Or.inl hshort⟩, rfl⟩
    · rw [if_neg hshort]
      cases hsummary : s.summary (staleMiddle messages maxChars keep (protectedHead messages maxChars) tail).2 with
      | none =>
        refine Or.inr (Or.inl
          ⟨⟨s.body (staleMiddle messages maxChars keep (protectedHead messages maxChars) tail).2, ?_⟩, rfl⟩)
        unfold Summarizer.summary at hsummary
        split at hsummary
        · cases hsummary
        · cases hsummary
        · assumption
      | some text =>
        dsimp only
        by_cases hempty : text = ""
        · rw [if_pos hempty]
          exact Or.inl ⟨⟨tail, hpull, Or.inr (hempty ▸ hsummary)⟩, rfl⟩
        · rw [if_neg hempty]
          exact Or.inr (Or.inr ⟨tail, text, rfl, hshort, rfl⟩)

theorem summarised_sound (h : Conversation messages keep) {tail : Nat} {text : String}
    (hpull : pullBack messages (protectedHead messages maxChars)
      (max (protectedHead messages maxChars) (messages.length - keepLast)) = some tail)
    (hmiddle : ¬(staleMiddle messages maxChars keep (protectedHead messages maxChars) tail).2.length < 2)
    (hlast : keepLast = 0 → messages.length ≤ protectedHead messages maxChars) :
    Legal (messages.take (protectedHead messages maxChars) ++ [s.note label text] ++
        (staleMiddle messages maxChars keep (protectedHead messages maxChars) tail).1 ++ messages.drop tail) ∧
      Unchanged messages (messages.take (protectedHead messages maxChars) ++ [s.note label text] ++
        (staleMiddle messages maxChars keep (protectedHead messages maxChars) tail).1 ++ messages.drop tail) maxChars
          keepLast keep := by
  have hhead := @protectedHead_le messages maxChars
  obtain ⟨tail', hpull', hle, hback, hrole⟩ := @pullBack_spec messages _ _ (Nat.le_max_left
    (protectedHead messages maxChars) (messages.length - keepLast)) (by omega)
  obtain rfl := Option.some.inj (hpull.symm.trans hpull')
  obtain ⟨hkept, hpinned⟩ := kept_spec h hle hback
  have hfar : tail ≤ messages.length - keepLast := by
    by_contra hnot
    have heq : tail = protectedHead messages maxChars := by omega
    apply hmiddle
    unfold staleMiddle
    rw [heq]
    have hnil : (messages.take (protectedHead messages maxChars)).drop (protectedHead messages maxChars) = [] := by
      rw [List.drop_eq_nil_iff, List.length_take]
      omega
    split
    · rw [hnil]
      exact Nat.zero_lt_two
    · rename_i r hr
      have hge := (pinnedRequest_spec h hr).1
      rw [if_neg (by omega), hnil]
      exact Nat.zero_lt_two
  constructor
  · apply Legal.append
    · apply Legal.append
      · apply (legal_of_head h.legal).1.append
        exact .single Role.noConfusion rfl .nil
      · exact hkept
    · exact legal_of_tail h.legal hle hrole
  · apply unchanged_of_head h
    · rw [List.append_assoc, List.append_assoc]
      exact List.prefix_append _ _
    · apply List.IsSuffix.trans ?_ (List.suffix_append _ _)
      have hmore : messages.drop (messages.length - keepLast) =
          (messages.drop tail).drop (messages.length - keepLast - tail) := by
        rw [List.drop_drop]
        congr 1
        omega
      rw [hmore]
      exact List.drop_suffix _ _
    · have hsplit : messages = messages.take (protectedHead messages maxChars) ++
          ((messages.take tail).drop (protectedHead messages maxChars) ++ messages.drop tail) := by
        have hfront : messages.take tail = messages.take (protectedHead messages maxChars) ++
            (messages.take tail).drop (protectedHead messages maxChars) := by
          have htake := List.take_append_drop (protectedHead messages maxChars) (messages.take tail)
          rw [List.take_take, Nat.min_eq_left hle] at htake
          exact htake.symm
        rw [← List.append_assoc, ← hfront, List.take_append_drop]
      have hlength : 0 + (messages.take (protectedHead messages maxChars)).length = protectedHead messages maxChars := by
        rw [List.length_take]
        omega
      have horder : atPositions (isPinned messages maxChars keepLast keep) 0 messages =
          atPositions (isPinned messages maxChars keepLast keep) 0 (messages.take (protectedHead messages maxChars)) ++
          (atPositions (isPinned messages maxChars keepLast keep) (protectedHead messages maxChars)
            ((messages.take tail).drop (protectedHead messages maxChars)) ++
          atPositions (isPinned messages maxChars keepLast keep)
            (protectedHead messages maxChars + ((messages.take tail).drop (protectedHead messages maxChars)).length)
              (messages.drop tail)) := by
        have hall := @atPositions_append (isPinned messages maxChars keepLast keep) 0
          (messages.take (protectedHead messages maxChars))
          ((messages.take tail).drop (protectedHead messages maxChars) ++ messages.drop tail)
        rwa [← hsplit, hlength, atPositions_append] at hall
      rw [horder, List.append_assoc, List.append_assoc]
      apply List.Sublist.append atPositions_sublist
      apply List.Sublist.trans ?_ (List.sublist_append_right _ _)
      exact hpinned.append atPositions_sublist

variable (s messages maxChars keepLast label keep) in
/-- Truncating always keeps the conversation, and compacting exactly where the fallback keeps as many messages as the
caller asked for. -/
theorem history_sound_iff (h : Conversation messages keep) (truncateBudget : Int) (truncateKeepLast perMsgCap : Nat) :
    TruncateSound messages truncateBudget truncateKeepLast perMsgCap keep ∧
        CompactSound s messages maxChars keepLast label keep ↔
      FallbackKeeps s messages maxChars keepLast keep := by
  constructor
  · rintro ⟨-, hsound⟩ hon hover
    constructor
    · intro hzero
      by_contra hlt
      have hstart : max (protectedHead messages maxChars) (messages.length - keepLast) = messages.length := by
        omega
      rcases compactHistory_cases s messages maxChars keepLast label keep hon hover with
        ⟨-, hraised⟩ | ⟨⟨tail, hpull, -⟩, -⟩ | ⟨-, hraised⟩ | ⟨tail, text, hpull, -⟩
      · cases (hsound.returns _ hraised).1
      · rw [hstart, pullBack_past_end (by omega)] at hpull
        cases hpull
      · have hnone := @pullBack_past_end messages (protectedHead messages maxChars) (by omega)
        unfold compactHistory at hraised
        rw [if_neg (by omega), if_neg (by omega)] at hraised
        dsimp only at hraised
        rw [hstart, hnone] at hraised
        cases hraised
      · rw [hstart, pullBack_past_end (by omega)] at hpull
        cases hpull
    · rintro ⟨tail, hpull, hback⟩
      rw [← recent_fallback_iff hon hover]
      apply (hsound.unchanged _ ?_).recent
      unfold compactHistory
      rw [if_neg (by omega), if_neg (by omega)]
      dsimp only
      rw [hpull]
      dsimp only
      by_cases hshort : (staleMiddle messages maxChars keep (protectedHead messages maxChars) tail).2.length < 2
      · rw [if_pos hshort]
      · rw [if_neg hshort, hback.resolve_left hshort]
        exact if_pos rfl
  · intro hkeeps
    refine ⟨truncateHistory_sound h, ?_⟩
    by_cases hwithin : maxChars ≤ 0 ∨ (totalChars messages : Int) ≤ maxChars
    · have hsame : compactHistory s messages maxChars keepLast label keep = .ok messages := by
        unfold compactHistory
        split
        · rfl
        · rename_i hoff
          rw [if_pos (hwithin.resolve_left hoff)]
      refine ⟨?_, ?_, ?_, fun _ => hsame⟩
      · intro raised hraised
        rw [hsame] at hraised
        cases hraised
      · intro out hout
        rw [hsame] at hout
        cases hout
        exact h.legal
      · intro out hout
        rw [hsame] at hout
        cases hout
        exact .refl h
    · rw [not_or, not_le, not_le] at hwithin
      obtain ⟨hon, hover⟩ := hwithin
      obtain ⟨hlast, hspared⟩ := hkeeps hon hover
      rcases compactHistory_cases s messages maxChars keepLast label keep hon hover with
        ⟨hnone, -⟩ | ⟨hback, hrun⟩ | ⟨hstop, hrun⟩ | ⟨tail, text, hpull, hmiddle, hrun⟩
      · have hhead := @protectedHead_le messages maxChars
        obtain ⟨tail, hpull, -⟩ := @pullBack_spec messages _ _ (Nat.le_max_left
          (protectedHead messages maxChars) (messages.length - keepLast)) (by omega)
        rw [hnone] at hpull
        cases hpull
      · refine ⟨?_, ?_, ?_, fun hin => absurd hin (by omega)⟩
        · intro raised hraised
          rw [hrun] at hraised
          cases hraised
        · intro out hout
          rw [hrun] at hout
          cases hout
          exact (truncateHistory_sound h).legal
        · intro out hout
          rw [hrun] at hout
          cases hout
          exact unchanged_fallback h ((recent_fallback_iff hon hover).mpr (hspared hback))
      · refine ⟨?_, ?_, ?_, fun hin => absurd hin (by omega)⟩
        · intro raised hraised
          rw [hrun] at hraised
          cases hraised
          exact ⟨rfl, hstop⟩
        · intro out hout
          rw [hrun] at hout
          cases hout
        · intro out hout
          rw [hrun] at hout
          cases hout
      · obtain ⟨hlegal, hunchanged⟩ := summarised_sound (s := s) h hpull hmiddle hlast
        refine ⟨?_, ?_, ?_, fun hin => absurd hin (by omega)⟩
        · intro raised hraised
          rw [hrun] at hraised
          cases hraised
        · intro out hout
          rw [hrun] at hout
          cases hout
          exact hlegal
        · intro out hout
          rw [hrun] at hout
          cases hout
          exact hunchanged

theorem recentSpared_of_le (h : keepLast ≤ TRUNCATE_KEEP_LAST) : RecentSpared messages maxChars keepLast keep := by
  intro i m _ hlast
  left
  unfold isSpared
  simp only [Bool.or_eq_true, decide_eq_true_eq]
  left; right
  omega

end Compact

/-! ## A loop -/

/-- A turn with one call. -/
def calling (id arguments : String) : Message :=
  { object := none, role := .assistant, content := none, toolCalls := [⟨id, "read", arguments⟩], toolCallId := none }

def answering (id text : String) : Message :=
  { object := none, role := .tool, content := some text, toolCalls := [], toolCallId := some id }

def asking (object : Nat) (text : String) : Message :=
  { object := some object, role := .user, content := some text, toolCalls := [], toolCallId := none }

/-- A task, and two files that were read for it. -/
def readingLoop : List Message :=
  [asking 0 "fit", calling "a" "data.csv", answering "a" "x,y", calling "b" "notes.md", answering "b" "all fine"]

theorem readingLoop_legal : Legal readingLoop := by
  have hlast : Legal ([calling "b" "notes.md", answering "b" "all fine"] ++ []) := by
    apply Legal.turn rfl (List.cons_ne_nil _ _) ?_ (.refl _) .nil
    intro r hr
    cases List.mem_singleton.mp hr
    rfl
  apply Legal.single Role.noConfusion rfl
  apply @Legal.turn _ [answering "a" "x,y"] _ rfl (List.cons_ne_nil _ _) ?_ (.refl _) hlast
  intro r hr
  cases List.mem_singleton.mp hr
  rfl

theorem readingLoop_conversation : Conversation readingLoop (some (asking 0 "fit")) where
  legal := readingLoop_legal
  asked := by
    rintro request ⟨⟩
    rfl
  objects := by
    rintro request ⟨⟩ m hm hsame
    unfold readingLoop at hm
    simp only [List.mem_cons, List.not_mem_nil, or_false] at hm
    rcases hm with rfl | rfl | rfl | rfl | rfl
    · rfl
    all_goals cases hsame

/-- A summariser that answers the same to everything. -/
def answeringWith (summary : Summary) : Summarizer := ⟨fun text _ => text, fun _ => summary⟩

theorem readingLoop_sound :
    TruncateSound readingLoop 20 2 400 (some (asking 0 "fit")) ∧
      CompactSound (answeringWith (.text "read both")) readingLoop 20 2 "" (some (asking 0 "fit")) := by
  apply (history_sound_iff _ _ _ _ _ _ readingLoop_conversation 20 2 400).mpr
  intro _ _
  exact ⟨fun h => absurd h (by decide), fun _ => recentSpared_of_le (Nat.le_refl 2)⟩

/-- The caller keeps three messages. There is nothing to summarise before them, and the truncation shortens the first. -/
theorem fallback_shortens_recent : ¬∀ (s : Summarizer) (messages : List Message) (maxChars : Int) (keepLast : Nat)
    (label : String) (keep : Option Message) (truncateBudget : Int) (truncateKeepLast perMsgCap : Nat),
    Conversation messages keep → TruncateSound messages truncateBudget truncateKeepLast perMsgCap keep ∧
      CompactSound s messages maxChars keepLast label keep := by
  intro h
  have hsound := (h (answeringWith (.text "read both")) readingLoop 20 3 "" (some (asking 0 "fit")) 20 2 400
    readingLoop_conversation).2
  have hrecent := (hsound.unchanged _ rfl).recent
  have hspared := (recent_fallback_iff (by decide +kernel) (by decide +kernel)).mp hrecent 2 (answering "a" "x,y") rfl
    (by decide)
  revert hspared
  decide +kernel

end LoopLab.Llm
