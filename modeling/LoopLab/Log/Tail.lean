import LoopLab.Log.Cache
import LoopLab.Log.Envelope

/-!
# The end of the file

An append looks at the end of the file twice: it cuts off a torn tail, and it takes the sequence number of the last
row in sight.
-/

set_option autoImplicit false

namespace LoopLab
open Lib

/-! ## Healing -/

theorem healTornTail_eq (content : Bytes) :
    healTornTail content = join newline (cut newline content).1 := rdropWhile_sep content

namespace Disk
variable (disk : Disk) (m : Moment)

theorem heal_content : (disk.heal m).content = healTornTail disk.content := by
  cases disk with
  | none => rfl
  | some f =>
    simp only [heal, content, Option.map_some, Option.getD_some, File.heal]
    split
    · rename_i h
      exact h.symm
    · rfl

theorem heal_whole : (disk.heal m).content = join newline disk.complete := by
  rw [heal_content, healTornTail_eq]
  rfl

theorem heal_complete : (disk.heal m).complete = disk.complete := by
  have h := cut_join (t := []) disk.unbroken List.not_mem_nil
  rw [List.append_nil] at h
  rw [complete, heal_whole, h]

theorem heal_eq (h : disk.content = join newline disk.complete) : disk.heal m = disk := by
  cases disk with
  | none => rfl
  | some f =>
    have hf : healTornTail f.content = f.content := by
      rw [healTornTail_eq]
      exact h.symm
    simp [heal, File.heal, hf]

theorem written_content (bytes : Bytes) :
    (disk.written m bytes).content = disk.content ++ bytes := rfl

theorem written_line {text : Bytes} (ht : newline ∉ text)
    (h : disk.content = join newline disk.complete) :
    (disk.written m (text ++ [newline])).complete = disk.complete ++ [text] ∧
      (disk.written m (text ++ [newline])).content =
        join newline (disk.written m (text ++ [newline])).complete := by
  have hu : Unbroken newline (disk.complete ++ [text]) :=
    unbroken_append.mpr ⟨disk.unbroken, unbroken_cons.mpr ⟨ht, unbroken_nil⟩⟩
  have hcontent : (disk.written m (text ++ [newline])).content =
      join newline (disk.complete ++ [text]) := by
    rw [written_content, h, join_append]
    simp
  have hcomplete : (disk.written m (text ++ [newline])).complete = disk.complete ++ [text] := by
    have := cut_join (t := []) hu List.not_mem_nil
    rw [List.append_nil] at this
    rw [complete, hcontent, this]
  exact ⟨hcomplete, by rw [hcomplete, hcontent]⟩

theorem written_torn {torn : Bytes} (ht : newline ∉ torn)
    (h : disk.content = join newline disk.complete) :
    (disk.written m torn).complete = disk.complete := by
  rw [complete, written_content, h, cut_join disk.unbroken ht]

end Disk

/-! ## The row in sight -/

namespace Codec
variable {c : Codec}

theorem rowSeq_drop {line : Bytes} {o : Obj} (h : c.loads (stripBytes line) = some (.obj o))
    (k : Nat) : c.rowSeq (line.drop k) = none ∨ c.rowSeq (line.drop k) = o.lookup "seq" := by
  rcases c.loads_drop k h with hk | hk
  · left
    rw [rowSeq, hk]
  · right
    rw [rowSeq, hk]

theorem tailSeq_mem {content : Bytes} {v : Json} (h : c.tailSeq content = some v) :
    ∃ l ∈ pieces newline content, ∃ k, c.rowSeq (l.drop k) = some v ∧ stripBytes (l.drop k) ≠ [] := by
  obtain ⟨raw, hraw, hv⟩ := List.exists_of_findSome?_eq_some h
  rw [List.mem_reverse, tailLines, List.mem_filter] at hraw
  obtain ⟨hmem, hblank⟩ := hraw
  have hne : stripBytes raw ≠ [] := by simpa using hblank
  obtain ⟨before, l, after, k, hp, hd⟩ := pieces_drop newline
    (content.length - tailWindow) content
  rw [hd] at hmem
  rw [hp]
  rcases List.mem_cons.mp hmem with rfl | hmem
  · exact ⟨l, by simp, k, hv, hne⟩
  · exact ⟨raw, by simp [hmem], 0, hv, hne⟩

theorem tailSeq_last {content line : Bytes} {lines after : List Bytes} {v : Json}
    (hp : pieces newline content = lines ++ line :: after) (hafter : after = [] ∨ after = [[]])
    (hline : stripBytes line ≠ []) (hv : c.rowSeq line = some v)
    (hdrop : ∀ k, c.rowSeq (line.drop k) = none ∨ c.rowSeq (line.drop k) = some v) :
    c.tailSeq content = none ∨ c.tailSeq content = some v := by
  have hblank : after.filter (fun l => !(stripBytes l).isEmpty) = [] := by
    rcases hafter with rfl | rfl <;> rfl
  obtain ⟨before, l, rest, k, hp', hd⟩ := pieces_drop newline
    (content.length - tailWindow) content
  rw [tailSeq, tailLines, hd]
  rw [hp] at hp'
  have hkeep : (!(stripBytes line).isEmpty) = true := by simpa using hline
  rcases List.append_eq_append_iff.mp hp' with ⟨as, hb, hs⟩ | ⟨bs, hb, hs⟩
  · cases as with
    | nil =>
      -- The window begins inside the last row.
      cases hs
      rw [List.filter_cons, hblank]
      split
      · rcases hdrop k with hn | hs
        · left
          simp [hn]
        · right
          simp [hs]
      · exact .inl rfl
    | cons a as =>
      -- The window holds only what follows the last row.
      injection hs with _ hs
      have hrest : rest.filter (fun l => !(stripBytes l).isEmpty) = [] ∧ l = [] := by
        rcases hafter with rfl | rfl
        · simp at hs
        · cases as with
          | nil =>
            cases hs
            exact ⟨rfl, rfl⟩
          | cons b as => simp at hs
      rw [hrest.2, List.drop_nil, List.filter_cons, hrest.1]
      exact .inl rfl
  · cases bs with
    | nil =>
      cases hs
      rw [List.filter_cons, hblank]
      split
      · rcases hdrop k with hn | hs
        · left
          simp [hn]
        · right
          simp [hs]
      · exact .inl rfl
    | cons b bs =>
      -- The window begins before the last row.
      injection hs with _ hs
      have hs' : rest = bs ++ line :: after := hs
      have hmine : (line :: after).filter (fun l => !(stripBytes l).isEmpty) = [line] := by
        rw [List.filter_cons, if_pos hkeep, hblank]
      right
      rw [hs', ← List.cons_append, List.filter_append, hmine, List.reverse_append,
        List.findSome?_append]
      simp [hv]

/-- A line that an append printed: an object with an integer `seq`. -/
def Printed (c : Codec) (line : Bytes) (seq : Int) : Prop :=
  ∃ o, c.dumps (.obj o) = some line ∧ o.lookup "seq" = some (.int seq)

variable {line : Bytes} {seq : Int}

theorem Printed.loads (h : Printed c line seq) :
    ∃ o, c.loads line = some (.obj o) ∧ stripBytes line = line ∧ line ≠ [] ∧
      o.lookup "seq" = some (.int seq) := by
  obtain ⟨o, ht, hs⟩ := h
  exact ⟨o, c.loads_dumps ht, c.dumps_strip ht, c.dumps_ne_nil ht, hs⟩

theorem Printed.unbroken (h : Printed c line seq) : newline ∉ line := by
  obtain ⟨o, ht, _⟩ := h
  exact c.dumps_newline ht

theorem Printed.diskLastSeq {disk : Disk} (lines after : List Bytes) (h : Printed c line seq)
    (hp : pieces newline disk.content = lines ++ line :: after)
    (hafter : after = [] ∨ after = [[]]) :
    c.diskLastSeq disk = .seq seq ∨ c.diskLastSeq disk = .unseen := by
  obtain ⟨o, hl, hstrip, hne, hs⟩ := h.loads
  have hrow : c.rowSeq line = some (.int seq) := by rw [rowSeq, hl, ← hs]
  have hdrop (k : Nat) : c.rowSeq (line.drop k) = none ∨ c.rowSeq (line.drop k) = some (.int seq) := by
    rw [← hs]
    exact rowSeq_drop (by rw [hstrip, hl]) k
  have hcontent : disk.content ≠ [] := by
    intro h0
    rw [h0] at hp
    have hp' : [([] : Bytes)] = lines ++ line :: after := hp
    have hmem : line ∈ [([] : Bytes)] := by rw [hp']; simp
    exact hne (List.mem_singleton.mp hmem)
  rw [Codec.diskLastSeq, if_neg hcontent]
  rcases tailSeq_last hp hafter (by rwa [hstrip]) hrow hdrop with hn | hs
  · right
    rw [hn]
  · left
    rw [hs]
    rfl

end Codec

end LoopLab
