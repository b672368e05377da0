import LoopLab.Lib.Checks
import LoopLab.Log.Printer
import LoopLab.Stages.StageKey

/-!
# What equal stage keys say

Two calls with one key agree in the entry of their stage and in all that the walk of the workdir takes in.
-/

set_option autoImplicit false

namespace LoopLab.Stages
open Lib

/-! ## What the walk takes in -/

section Walk
variable (env : KeyEnv) (exclude : List String)

/-- What the walk keys a node by, where it can be read. -/
def keyedText : FsNode → Option String
  | .link _ target _ => target.map ("symlink:" ++ ·)
  | .file st bytes => bytes.map fun bytes => digestText (digestOf env st.size bytes)
  | _ => none

def keyedPair (e : List String × FsNode) : Option (String × String) :=
  let rel := normalizeDeclaredPath (relName e.1)
  if skipped exclude rel then none else (keyedText env e.2).map (rel, ·)

def contentOf (root : FsNode) : Dict String String :=
  ((walk [] root).filterMap (keyedPair env exclude)).foldl (fun d e => d.set e.1 e.2) Table.empty

def Readable : FsNode → Prop
  | .unstatable => False
  | .link _ target _ => target ≠ none
  | .file _ bytes => bytes ≠ none
  | _ => True

end Walk

section Content
variable {env : KeyEnv} {exclude : List String}

theorem keyName_fresh {s s' : Keyed} {e : List String × FsNode} (hmemo : s.digests = none)
    (h : keyName env exclude s e = .ok s') : s'.digests = none ∧
      s'.out = (keyedPair env exclude e).toList.foldl (fun d e => d.set e.1 e.2) s.out ∧
      (skipped exclude (normalizeDeclaredPath (relName e.1)) = false → Readable e.2) := by
  obtain ⟨p, node⟩ := e
  have hforget (rel : String) (st : FileStat) : s.remembered rel st = none := by
    unfold Keyed.remembered
    rw [hmemo]
    rfl
  unfold keyName at h
  unfold keyedPair
  dsimp only at h ⊢
  cases hskip : skipped exclude (normalizeDeclaredPath (relName p)) with
  | true =>
    rw [hskip, if_pos rfl] at h
    cases h
    exact ⟨hmemo, rfl, by simp⟩
  | false =>
    rw [hskip, if_neg Bool.false_ne_true] at h
    split at h
    · cases h
    · cases node with
      | unstatable => cases h
      | special =>
        dsimp only at h
        split at h
        · cases h
        · cases h
          exact ⟨hmemo, rfl, fun _ => trivial⟩
      | dir listed names child =>
        dsimp only at h
        split at h
        · cases h
        · cases h
          exact ⟨hmemo, rfl, fun _ => trivial⟩
      | link size target toDir =>
        dsimp only at h
        split at h
        · cases h
        · cases target with
          | none => cases h
          | some target =>
            cases h
            exact ⟨hmemo, rfl, fun _ => Option.some_ne_none target⟩
      | file st bytes =>
        dsimp only at h
        split at h
        · cases h
        · rw [hforget] at h
          cases bytes with
          | none => cases h
          | some bytes =>
            cases h
            refine ⟨?_, rfl, fun _ => Option.some_ne_none bytes⟩
            rw [hmemo]
            rfl

theorem keyNames_fresh {es : List (List String × FsNode)} {s s' : Keyed} (hmemo : s.digests = none)
    (h : es.foldlM (keyName env exclude) s = .ok s') :
    s'.out = (es.filterMap (keyedPair env exclude)).foldl (fun d e => d.set e.1 e.2) s.out ∧
      ∀ e ∈ es, skipped exclude (normalizeDeclaredPath (relName e.1)) = false → Readable e.2 := by
  induction es generalizing s with
  | nil =>
    cases h
    exact ⟨rfl, List.forall_mem_nil _⟩
  | cons e es ih =>
    rw [List.foldlM_cons] at h
    obtain ⟨t, ht, h⟩ := bind_ok.mp h
    obtain ⟨htmemo, htout, hread⟩ := keyName_fresh hmemo ht
    obtain ⟨hout, hrest⟩ := ih htmemo h
    refine ⟨?_, List.forall_mem_cons.mpr ⟨hread, hrest⟩⟩
    rw [hout, htout]
    cases hpair : keyedPair env exclude e with
    | none =>
      rw [List.filterMap_cons_none hpair]
      rfl
    | some pair =>
      rw [List.filterMap_cons_some hpair]
      rfl

theorem get_foldl_set {α : Type} (pairs : List (String × α)) (d : Dict String α) (k : String) :
    Dict.get (pairs.foldl (fun d e => d.set e.1 e.2) d) k =
      ((pairs.filter (·.1 = k)).getLast?.map Prod.snd).or (d.get k) := by
  induction pairs using List.reverseRecOn with
  | nil => rfl
  | append_singleton pairs e ih =>
    rw [List.foldl_append, List.foldl_cons, List.foldl_nil, Dict.get_set, List.filter_append]
    by_cases hk : k = e.1
    · simp [hk]
    · simp [hk, ih, Ne.symm hk]

theorem mem_keyedPairs {root : FsNode} {rel text : String} :
    (rel, text) ∈ (walk [] root).filterMap (keyedPair env exclude) ↔ ∃ q n, reach root q = some n ∧
      normalizeDeclaredPath (relName q) = rel ∧ skipped exclude rel = false ∧
        keyedText env n = some text := by
  rw [List.mem_filterMap]
  constructor
  · rintro ⟨⟨q, n⟩, hmem, hpair⟩
    obtain ⟨_, rfl, hreach⟩ := mem_walk.mp hmem
    unfold keyedPair at hpair
    dsimp only at hpair
    split at hpair
    · cases hpair
    · rename_i hskip
      obtain ⟨t, ht, heq⟩ := Option.map_eq_some_iff.mp hpair
      cases heq
      exact ⟨_, n, hreach, rfl, eq_false_of_ne_true hskip, ht⟩
  · rintro ⟨q, n, hreach, rfl, hskip, htext⟩
    refine ⟨(q, n), mem_walk.mpr ⟨q, rfl, hreach⟩, ?_⟩
    unfold keyedPair
    dsimp only
    rw [hskip, if_neg Bool.false_ne_true, htext]
    rfl

theorem get_contentOf {root : FsNode} {rel text : String}
    (h : (rel, text) ∈ (walk [] root).filterMap (keyedPair env exclude))
    (hall : ∀ t, (rel, t) ∈ (walk [] root).filterMap (keyedPair env exclude) → t = text) :
    (contentOf env exclude root).get rel = some text := by
  unfold contentOf
  rw [get_foldl_set]
  cases hlast : (((walk [] root).filterMap (keyedPair env exclude)).filter (·.1 = rel)).getLast? with
  | none =>
    have hnil := List.getLast?_eq_none_iff.mp hlast
    have hmem : (rel, text) ∈ ((walk [] root).filterMap (keyedPair env exclude)).filter (·.1 = rel) :=
      List.mem_filter.mpr ⟨h, decide_eq_true rfl⟩
    rw [hnil] at hmem
    cases hmem
  | some e =>
    obtain ⟨k, t⟩ := e
    obtain ⟨hmem, hk⟩ := List.mem_filter.mp (List.mem_of_getLast? hlast)
    cases of_decide_eq_true hk
    cases hall t hmem
    rfl

theorem contentOf_absent {root : FsNode} {rel : String}
    (hnone : ∀ t, (rel, t) ∉ (walk [] root).filterMap (keyedPair env exclude)) :
    (contentOf env exclude root).get rel = none := by
  unfold contentOf
  rw [get_foldl_set]
  cases hlast : (((walk [] root).filterMap (keyedPair env exclude)).filter (·.1 = rel)).getLast? with
  | none => rfl
  | some e =>
    obtain ⟨k, t⟩ := e
    obtain ⟨hmem, hk⟩ := List.mem_filter.mp (List.mem_of_getLast? hlast)
    cases of_decide_eq_true hk
    exact absurd hmem (hnone t)

theorem contentOf_single {root node : FsNode} {p : List String} {rel : String}
    (hnode : reach root p = some node) (hrel : normalizeDeclaredPath (relName p) = rel)
    (honly : ∀ q n, reach root q = some n → normalizeDeclaredPath (relName q) = rel → q = p) :
    (contentOf env exclude root).get rel = if skipped exclude rel then none else keyedText env node := by
  have hmem (t : String) (ht : (rel, t) ∈ (walk [] root).filterMap (keyedPair env exclude)) :
      skipped exclude rel = false ∧ keyedText env node = some t := by
    obtain ⟨q, n, hreach, hq, hskip, htext⟩ := mem_keyedPairs.mp ht
    cases honly q n hreach hq
    cases hnode.symm.trans hreach
    exact ⟨hskip, htext⟩
  cases hskip : skipped exclude rel with
  | true =>
    rw [if_pos rfl]
    apply contentOf_absent
    intro t ht
    rw [(hmem t ht).1] at hskip
    cases hskip
  | false =>
    rw [if_neg Bool.false_ne_true]
    cases htext : keyedText env node with
    | none =>
      apply contentOf_absent
      intro t ht
      rw [(hmem t ht).2] at htext
      cases htext
    | some text =>
      apply get_contentOf
      · exact mem_keyedPairs.mpr ⟨p, node, hnode, hrel, hskip, htext⟩
      · intro t ht
        exact Option.some.inj ((hmem t ht).2.symm.trans htext)

end Content

/-! ## What two keys say -/

/-- What a file or a link of the workdir is. -/
inductive EntryFact where
  | file (digest : Option (DigestMode × String))
  | link (target : Option String)
  deriving DecidableEq

section Facts
variable (env : KeyEnv)

def entryFact : FsNode → Option EntryFact
  | .file st bytes => some (.file (bytes.map (digestOf env st.size)))
  | .link _ target _ => some (.link target)
  | _ => none

/-- What opening a path gives, if there is anything. -/
def diskFact : OnDisk → Option (Option (DigestMode × String))
  | .missing => none
  | .file st bytes => some (bytes.map (digestOf env st.size))
  | .other => some none

/-- No directory on the way is one of those the walk skips. -/
def steppedInto (node : FsNode) (p : List String) : Bool :=
  (if node.isDir then p else p.dropLast).all (!SKIP_DIRS.contains ·)

/-- The path is none of a Python file, a sidecar, a log or an output of the stage or a later one. -/
def keyedName (call : KeyCall) (p : List String) : Bool :=
  !skipped (declaredOutputs call.stages call.index) (relName p) && !endsWith (relName p) ".py"

/-- The file or the link at a path, where it counts among the other inputs. -/
def otherEntry (call : KeyCall) (p : List String) : Option EntryFact :=
  (entryAt call.workdir.root p).bind fun node =>
    if steppedInto node p && keyedName call p then entryFact env node else none

/-- The inputs of two calls are the same. -/
structure SameInputs (a b : KeyCall) : Prop where
  entry : ∃ s t, a.stages[a.index]? = some s ∧ b.stages[b.index]? = some t ∧ s.name = t.name ∧
    s.command = t.command ∧ s.needs = t.needs ∧
    s.expect.map (fun o => (Json.obj o).sortKeys) = t.expect.map (fun o => (Json.obj o).sortKeys) ∧
    s.env.map (fun o => (Json.obj o).sortKeys) = t.env.map (fun o => (Json.obj o).sortKeys)
  closure : ∃ fs gs, a.reachable = some fs ∧ b.reachable = some gs ∧ ∀ f, f ∈ fs ↔ f ∈ gs
  modules : ∀ fs, a.reachable = some fs → ∀ f ∈ fs,
    diskFact env (a.workdir.stat f) = diskFact env (b.workdir.stat f)
  entries : ∀ p, otherEntry env a p = otherEntry env b p

/-- The walk reads the name as it stands, and takes no other name for it. -/
def OwnName (call : KeyCall) (p : List String) : Prop :=
  normalizeDeclaredPath (relName p) = relName p ∧ ∀ q n, reach call.workdir.root q = some n →
    normalizeDeclaredPath (relName q) = relName p → q = p

/-- The walk takes in whatever counts at the path. -/
structure EntrySeen (call : KeyCall) (p : List String) : Prop where
  own : OwnName call p
  reached : otherEntry env call p ≠ none → reach call.workdir.root p ≠ none

/-- The contents have what opening the module gives: a regular file, or nothing. -/
def ModuleSeen (call : KeyCall) (f : String) : Prop :=
  (∃ p st bytes, relName p = f ∧ reach call.workdir.root p = some (.file st bytes) ∧ OwnName call p ∧
    skipped (declaredOutputs call.stages call.index) f = false) ∨
  call.workdir.stat f = .missing ∧ ∀ q n, reach call.workdir.root q = some n →
    normalizeDeclaredPath (relName q) = f →
      skipped (declaredOutputs call.stages call.index) f = true ∨ keyedText env n = none

/-- The two workdirs are alike wherever the walk of either leaves something out. -/
structure UnseenAlike (a b : KeyCall) : Prop where
  modules : ∀ fs, a.reachable = some fs → ∀ f ∈ fs, ¬ ModuleSeen env a f ∨ ¬ ModuleSeen env b f →
    diskFact env (a.workdir.stat f) = diskFact env (b.workdir.stat f)
  entries : ∀ p, ¬ EntrySeen env a p ∨ ¬ EntrySeen env b p →
    otherEntry env a p = otherEntry env b p

/-- The text of a value tells it, and no two texts have one digest. -/
structure KeyEnv.Injective : Prop where
  dumps : ∀ u v text, env.dumps u = some text → env.dumps v = some text → u = v
  sha256 : ∀ u v s t, env.dumps u = some s → env.dumps v = some t → env.sha256 s = env.sha256 t → s = t

end Facts

/-! ## Reading a digest back -/

section Sorted

theorem sortKeys_sorted {fields : Obj} (h : (fields.map Prod.fst).Pairwise fun a b => a ≤ b) :
    (Json.obj fields).sortKeys = .obj (fields.map fun e => (e.1, e.2.sortKeys)) := by
  rw [Json.sortKeys_obj]
  have hkeys : (fields.map fun e => (e.1, e.2.sortKeys)).Pairwise fun a b => a.1 ≤ b.1 :=
    List.pairwise_map.mpr (List.pairwise_map.mp h)
  exact congrArg Json.obj hkeys.insertionSort_eq

theorem sortKeys_strs {rows rows' : List (String × String)}
    (h : (strFields rows).sortKeys = (strFields rows').sortKeys) (e : String × String) :
    e ∈ rows ↔ e ∈ rows' := by
  have hmem (rows : List (String × String)) : e ∈ rows ↔ (e.1, Json.str e.2) ∈
      ((rows.map fun e => (e.1, Json.str e.2)).map fun e => (e.1, e.2.sortKeys)).insertionSort
        fun a b => a.1 ≤ b.1 := by
    rw [List.mem_insertionSort, List.map_map, List.mem_map]
    constructor
    · intro he
      exact ⟨e, he, Prod.ext rfl (Json.sortKeys_str e.2)⟩
    · rintro ⟨x, hx, heq⟩
      obtain ⟨h₁, h₂⟩ := Prod.mk.inj heq
      dsimp only at h₂
      rw [Json.sortKeys_str] at h₂
      have hsame : x = e := Prod.ext h₁ (Json.str.inj h₂)
      rwa [← hsame]
  unfold strFields at h
  rw [Json.sortKeys_obj, Json.sortKeys_obj] at h
  rw [hmem rows, Json.obj.inj h, ← hmem rows']

theorem sortKeys_arr_strs (xs : List String) :
    (Json.arr (xs.map .str)).sortKeys = .arr (xs.map .str) := by
  rw [Json.sortKeys_arr, List.map_map]
  rfl

theorem strs_inj {xs ys : List String} (h : Json.arr (xs.map .str) = .arr (ys.map .str)) : xs = ys := by
  apply List.map_injective_iff.mpr _ (Json.arr.inj h)
  intro x y hxy
  exact Json.str.inj hxy

def objOrNull : Option Obj → Json
  | some o => .obj o
  | none => .null

theorem objOrNull_same {o o' : Option Obj} (h : (objOrNull o).sortKeys = (objOrNull o').sortKeys) :
    o.map (fun o => (Json.obj o).sortKeys) = o'.map (fun o => (Json.obj o).sortKeys) := by
  cases o with
  | none =>
    cases o' with
    | none => rfl
    | some o' =>
      unfold objOrNull at h
      rw [Json.sortKeys_null, Json.sortKeys_obj] at h
      cases h
  | some o =>
    cases o' with
    | none =>
      unfold objOrNull at h
      rw [Json.sortKeys_null, Json.sortKeys_obj] at h
      cases h
    | some o' => exact congrArg some h

theorem needs_same {xs ys : List String}
    (h : (if xs = [] then Json.null else .arr (xs.map .str)).sortKeys =
      (if ys = [] then Json.null else .arr (ys.map .str)).sortKeys) : xs = ys := by
  split at h
  · rename_i hx
    split at h
    · rename_i hy
      rw [hx, hy]
    · rw [Json.sortKeys_null, Json.sortKeys_arr] at h
      cases h
  · split at h
    · rw [Json.sortKeys_null, Json.sortKeys_arr] at h
      cases h
    · rw [sortKeys_arr_strs, sortKeys_arr_strs] at h
      exact strs_inj h

theorem stageEntry_same {s t : Stage} (h : (stageEntry s).sortKeys = (stageEntry t).sortKeys) :
    s.name = t.name ∧ s.command = t.command ∧ s.needs = t.needs ∧
      s.expect.map (fun o => (Json.obj o).sortKeys) = t.expect.map (fun o => (Json.obj o).sortKeys) ∧
      s.env.map (fun o => (Json.obj o).sortKeys) = t.env.map (fun o => (Json.obj o).sortKeys) := by
  unfold stageEntry at h
  rw [sortKeys_sorted (by simp only [List.map_cons, List.map_nil]; decide),
    sortKeys_sorted (by simp only [List.map_cons, List.map_nil]; decide)] at h
  simp only [List.map_cons, List.map_nil, Json.obj.injEq, List.cons.injEq, Prod.mk.injEq, true_and,
    and_true] at h
  obtain ⟨hcommand, henv, hexpect, hname, hneeds⟩ := h
  rw [sortKeys_arr_strs, sortKeys_arr_strs] at hcommand
  rw [Json.sortKeys_str, Json.sortKeys_str] at hname
  exact ⟨Json.str.inj hname, strs_inj hcommand, needs_same hneeds, objOrNull_same hexpect,
    objOrNull_same henv⟩

end Sorted

section Keys
variable {env : KeyEnv}

structure KeyOf (env : KeyEnv) (call : KeyCall) (key : String) where
  stage : Stage
  reachable : List String
  text : Bytes
  stage_eq : call.stages[call.index]? = some stage
  reachable_eq : call.reachable = some reachable
  dumps_eq : env.dumps (preimage stage call.scope reachable
    (contentOf env (declaredOutputs call.stages call.index) call.workdir.root)).sortKeys = some text
  key_eq : key = "stage1:" ++ env.sha256 text
  readable : ∀ p node, reach call.workdir.root p = some node →
    skipped (declaredOutputs call.stages call.index) (normalizeDeclaredPath (relName p)) = false →
      Readable node

theorem keyOf_stageInputKey {call : KeyCall} {key : String}
    (h : (stageInputKey env call none).1 = .ok key) : Nonempty (KeyOf env call key) := by
  unfold stageInputKey at h
  split at h
  · cases h
  · rename_i stage hstage
    split at h
    · cases h
    · split at h
      · cases h
      · rename_i reachable hreachable
        split at h
        · cases h
        · split at h
          · cases h
          · rename_i s hcontent
            obtain ⟨hout, hread⟩ := keyNames_fresh rfl hcontent
            split at h
            · cases h
            · rename_i hdigest
              cases h
              obtain ⟨text, htext, hkey⟩ := Option.map_eq_some_iff.mp hdigest
              refine ⟨⟨stage, reachable, text, hstage, hreachable, ?_, hkey.symm, ?_⟩⟩
              · rw [hout] at htext
                exact htext
              · intro p node hnode
                exact hread (p, node) (mem_walk.mpr ⟨p, rfl, hnode⟩)

def closureValue (env : KeyEnv) (call : KeyCall) (f : String) : String :=
  ((contentOf env (declaredOutputs call.stages call.index) call.workdir.root).get f).getD "absent"

structure KeysAgree (env : KeyEnv) (a b : KeyCall) (s t : Stage) (fs gs : List String) : Prop where
  entry : (stageEntry s).sortKeys = (stageEntry t).sortKeys
  closure : ∀ f, f ∈ fs ↔ f ∈ gs
  values : ∀ f ∈ fs, closureValue env a f = closureValue env b f
  content : ∀ rel, endsWith rel ".py" = false →
    (contentOf env (declaredOutputs a.stages a.index) a.workdir.root).get rel =
      (contentOf env (declaredOutputs b.stages b.index) b.workdir.root).get rel

theorem mem_rows_iff {d : Dict String String} {k v : String} : (k, v) ∈ d.rows ↔ d.get k = some v := by
  constructor
  · intro h
    unfold Dict.get
    rw [Table.get_of_mem h]
    rfl
  · intro h
    obtain ⟨e, he, rfl⟩ := Option.map_eq_some_iff.mp h
    have hkey : e.1 = k := Table.key_of_get he
    rw [← hkey]
    exact Table.mem_of_get he

theorem keysAgree {a b : KeyCall} {key : String} (henv : env.Injective) (ka : KeyOf env a key)
    (kb : KeyOf env b key) : KeysAgree env a b ka.stage kb.stage ka.reachable kb.reachable := by
  have hsha : env.sha256 ka.text = env.sha256 kb.text := by
    apply (String.append_right_inj "stage1:").mp
    rw [← ka.key_eq, ← kb.key_eq]
  have htext := henv.sha256 _ _ _ _ ka.dumps_eq kb.dumps_eq hsha
  have hdumps := kb.dumps_eq
  rw [← htext] at hdumps
  have hsame := henv.dumps _ _ _ ka.dumps_eq hdumps
  unfold preimage at hsame
  rw [sortKeys_sorted (by simp only [List.map_cons, List.map_nil]; decide),
    sortKeys_sorted (by simp only [List.map_cons, List.map_nil]; decide)] at hsame
  simp only [List.map_cons, List.map_nil, Json.obj.injEq, List.cons.injEq, Prod.mk.injEq, true_and,
    and_true] at hsame
  obtain ⟨hclosure, hcontent, -, hentry⟩ := hsame
  have hvalues (f v : String) : f ∈ ka.reachable ∧ closureValue env a f = v ↔
      f ∈ kb.reachable ∧ closureValue env b f = v := by
    have hmem (c : KeyCall) (fs : List String) : (f, v) ∈ (sortedNames fs.eraseDups).map
        (fun f => (f, closureValue env c f)) ↔ f ∈ fs ∧ closureValue env c f = v := by
      rw [List.mem_map]
      constructor
      · rintro ⟨g, hg, heq⟩
        cases heq
        exact ⟨List.mem_eraseDups.mp (mem_sortedNames.mp hg), rfl⟩
      · rintro ⟨hf, rfl⟩
        exact ⟨f, mem_sortedNames.mpr (List.mem_eraseDups.mpr hf), rfl⟩
    rw [← hmem a, ← hmem b]
    exact sortKeys_strs hclosure (f, v)
  refine ⟨hentry, ?_, ?_, ?_⟩
  · intro f
    exact ⟨fun hf => ((hvalues f _).mp ⟨hf, rfl⟩).1, fun hf => ((hvalues f _).mpr ⟨hf, rfl⟩).1⟩
  · intro f hf
    exact ((hvalues f _).mp ⟨hf, rfl⟩).2.symm
  · intro rel hrel
    apply Option.ext
    intro v
    have hmem (d : Dict String String) :
        (rel, v) ∈ d.rows.filter (fun e => !endsWith e.1 ".py") ↔ d.get rel = some v := by
      rw [List.mem_filter, hrel, mem_rows_iff]
      simp
    rw [← hmem, ← hmem]
    exact sortKeys_strs hcontent (rel, v)

end Keys

/-! ## What is seen and what is not -/

section Seen
variable {env : KeyEnv}

def EntryFact.text : EntryFact → Option String
  | .file digest => digest.map digestText
  | .link target => target.map ("symlink:" ++ ·)

theorem digestText_toList (d : DigestMode × String) : (digestText d).toList =
    ['s', 'h', 'a', '2', '5', '6'] ++ (match d.1 with
      | .full => ':' :: d.2.toList
      | .sampled => "-sampled:".toList ++ d.2.toList) := by
  obtain ⟨m, x⟩ := d
  unfold digestText
  rw [String.toList_append, String.toList_append]
  cases m with
  | full =>
    have hname : DigestMode.full.name.toList ++ ":".toList = ['s', 'h', 'a', '2', '5', '6', ':'] := by
      decide
    rw [hname]
    rfl
  | sampled =>
    have hname : DigestMode.sampled.name.toList ++ ":".toList =
        ['s', 'h', 'a', '2', '5', '6'] ++ "-sampled:".toList := by decide
    rw [hname, List.append_assoc]

theorem digestText_inj {d e : DigestMode × String} (h : digestText d = digestText e) : d = e := by
  have hchars := congrArg String.toList h
  rw [digestText_toList, digestText_toList] at hchars
  have hrest := List.append_cancel_left hchars
  obtain ⟨m, x⟩ := d
  obtain ⟨n, y⟩ := e
  cases m with
  | full =>
    cases n with
    | full => exact congrArg _ (String.toList_inj.mp (List.cons.inj hrest).2)
    | sampled => exact absurd (List.cons.inj hrest).1 (by decide)
  | sampled =>
    cases n with
    | full => exact absurd (List.cons.inj hrest).1 (by decide)
    | sampled => exact congrArg _ (String.toList_inj.mp (List.append_cancel_left hrest))

theorem digestText_ne_link (d : DigestMode × String) (target : String) :
    digestText d ≠ "symlink:" ++ target := by
  intro h
  have hchars := congrArg String.toList h
  rw [digestText_toList, String.toList_append] at hchars
  exact absurd (List.cons.inj (List.cons.inj hchars).2).1 (by decide)

theorem EntryFact.text_inj {x y : EntryFact} {t : String} (hx : x.text = some t) (hy : y.text = some t) :
    x = y := by
  cases x with
  | file dx =>
    obtain ⟨d, rfl, rfl⟩ := Option.map_eq_some_iff.mp hx
    cases y with
    | file dy =>
      obtain ⟨e, rfl, heq⟩ := Option.map_eq_some_iff.mp hy
      rw [digestText_inj heq]
    | link ty =>
      obtain ⟨target, -, heq⟩ := Option.map_eq_some_iff.mp hy
      exact absurd heq.symm (digestText_ne_link d target)
  | link tx =>
    obtain ⟨target, rfl, rfl⟩ := Option.map_eq_some_iff.mp hx
    cases y with
    | file dy =>
      obtain ⟨e, -, heq⟩ := Option.map_eq_some_iff.mp hy
      exact absurd heq (digestText_ne_link e target)
    | link ty =>
      obtain ⟨target', rfl, heq⟩ := Option.map_eq_some_iff.mp hy
      rw [(String.append_right_inj "symlink:").mp heq]

theorem steppedInto_of_reach {root node : FsNode} {p : List String} (h : reach root p = some node) :
    p.dropLast.all (!SKIP_DIRS.contains ·) = true := by
  induction root generalizing p with
  | dir listed names child ih =>
    cases listed with
    | false => simp [reach] at h
    | true =>
      cases p with
      | nil => rfl
      | cons n rest =>
        simp only [reach] at h
        split at h
        · cases h
        · split at h
          · split at h
            · cases h
            · rename_i hskip
              cases rest with
              | nil => rfl
              | cons m rest =>
                rw [List.dropLast_cons_cons, List.all_cons, eq_false_of_ne_true hskip, ih n h]
                rfl
          · split at h
            · rename_i hrest
              rw [hrest]
              rfl
            · cases h
  | file st bytes => simp [reach] at h
  | link size target toDir => simp [reach] at h
  | special => simp [reach] at h
  | unstatable => simp [reach] at h

theorem keyedText_eq (node : FsNode) : (entryFact env node).bind EntryFact.text = keyedText env node := by
  cases node with
  | file st bytes =>
    cases bytes with
    | none => rfl
    | some bytes => rfl
  | link size target toDir => rfl
  | special => rfl
  | unstatable => rfl
  | dir listed names child => rfl

theorem content_seen {call : KeyCall} {p : List String} (h : EntrySeen env call p)
    (hpy : endsWith (relName p) ".py" = false) :
    (contentOf env (declaredOutputs call.stages call.index) call.workdir.root).get (relName p) =
      (otherEntry env call p).bind EntryFact.text := by
  obtain ⟨⟨hown, honly⟩, hreached⟩ := h
  cases hreach : reach call.workdir.root p with
  | none =>
    have hother : otherEntry env call p = none := by
      by_contra hne
      exact hreached hne hreach
    rw [hother, Option.bind_none]
    apply contentOf_absent
    intro t ht
    obtain ⟨q, n, hq, hrel, -⟩ := mem_keyedPairs.mp ht
    cases honly q n hq hrel
    rw [hreach] at hq
    cases hq
  | some node =>
    obtain ⟨hat, hfile⟩ := entryAt_of_reach hreach
    rw [contentOf_single hreach hown honly]
    unfold otherEntry steppedInto keyedName
    rw [hat, Option.bind_some, hfile, if_neg Bool.false_ne_true, steppedInto_of_reach hreach, hpy,
      Bool.true_and, Bool.not_false, Bool.and_true]
    cases skipped (declaredOutputs call.stages call.index) (relName p) with
    | true => rfl
    | false =>
      rw [if_neg Bool.false_ne_true, Bool.not_false, if_pos rfl]
      exact (keyedText_eq node).symm

theorem otherEntry_text {call : KeyCall} {key : String} (k : KeyOf env call key) {p : List String}
    (h : EntrySeen env call p) {x : EntryFact} (hx : otherEntry env call p = some x) :
    ∃ t, x.text = some t := by
  have hreached := h.reached (by rw [hx]; simp)
  obtain ⟨node, hnode⟩ := Option.ne_none_iff_exists'.mp hreached
  obtain ⟨hat, -⟩ := entryAt_of_reach hnode
  unfold otherEntry at hx
  rw [hat, Option.bind_some] at hx
  split at hx
  · rename_i hcounts
    obtain ⟨-, hname⟩ := Bool.and_eq_true_iff.mp hcounts
    obtain ⟨hskip, -⟩ := Bool.and_eq_true_iff.mp hname
    have hskip : skipped (declaredOutputs call.stages call.index) (relName p) = false := by
      simpa using hskip
    have hread : Readable node := by
      apply k.readable p node hnode
      rw [h.own.1]
      exact hskip
    cases node with
    | file st bytes =>
      cases hx
      cases bytes with
      | none => exact absurd rfl hread
      | some bytes => exact ⟨_, rfl⟩
    | link size target toDir =>
      cases hx
      cases target with
      | none => exact absurd rfl hread
      | some target => exact ⟨_, rfl⟩
    | special => cases hx
    | unstatable => cases hx
    | dir listed names child => cases hx
  · cases hx

theorem entries_seen {a b : KeyCall} {key : String} (henv : env.Injective) (ka : KeyOf env a key)
    (kb : KeyOf env b key) {p : List String} (ha : EntrySeen env a p) (hb : EntrySeen env b p) :
    otherEntry env a p = otherEntry env b p := by
  cases hpy : endsWith (relName p) ".py" with
  | true =>
    have hnone (c : KeyCall) : otherEntry env c p = none := by
      unfold otherEntry keyedName
      rw [hpy]
      simp
    rw [hnone, hnone]
  | false =>
    have hsame := (keysAgree henv ka kb).content (relName p) hpy
    rw [content_seen ha hpy, content_seen hb hpy] at hsame
    cases hx : otherEntry env a p with
    | none =>
      cases hy : otherEntry env b p with
      | none => rfl
      | some y =>
        obtain ⟨t, ht⟩ := otherEntry_text kb hb hy
        rw [hx, hy, Option.bind_none, Option.bind_some, ht] at hsame
        cases hsame
    | some x =>
      obtain ⟨t, ht⟩ := otherEntry_text ka ha hx
      rw [hx, Option.bind_some, ht] at hsame
      obtain ⟨y, hy, hyt⟩ := Option.bind_eq_some_iff.mp hsame.symm
      rw [hy, EntryFact.text_inj ht hyt]

theorem digestText_ne_absent (d : DigestMode × String) : digestText d ≠ "absent" := by
  intro h
  have hchars := congrArg String.toList h
  rw [digestText_toList] at hchars
  exact absurd (List.cons.inj hchars).1 (by decide)

theorem closureValue_seen {call : KeyCall} {key : String} (k : KeyOf env call key) {f : String}
    (h : ModuleSeen env call f) :
    (∃ d, diskFact env (call.workdir.stat f) = some (some d) ∧ closureValue env call f = digestText d) ∨
      diskFact env (call.workdir.stat f) = none ∧ closureValue env call f = "absent" := by
  unfold closureValue
  rcases h with ⟨p, st, bytes, rfl, hreach, hown, hskip⟩ | ⟨hmissing, hnone⟩
  · have hread : Readable (.file st bytes) := by
      apply k.readable p _ hreach
      rw [hown.1]
      exact hskip
    obtain ⟨bytes, rfl⟩ := Option.ne_none_iff_exists'.mp hread
    refine .inl ⟨digestOf env st.size bytes, ?_, ?_⟩
    · rw [call.workdir.stat_file p st _ (entryAt_of_reach hreach).1]
      rfl
    · rw [contentOf_single hreach hown.1 hown.2, hskip]
      rfl
  · refine .inr ⟨by rw [hmissing]; rfl, ?_⟩
    rw [contentOf_absent]
    · rfl
    · intro t ht
      obtain ⟨q, n, hq, hrel, hskip, htext⟩ := mem_keyedPairs.mp ht
      rcases hnone q n hq hrel with hout | hout
      · rw [hskip] at hout
        cases hout
      · rw [htext] at hout
        cases hout

theorem modules_seen {a b : KeyCall} {key f : String} (ka : KeyOf env a key) (kb : KeyOf env b key)
    (ha : ModuleSeen env a f) (hb : ModuleSeen env b f)
    (hsame : closureValue env a f = closureValue env b f) :
    diskFact env (a.workdir.stat f) = diskFact env (b.workdir.stat f) := by
  rcases closureValue_seen ka ha with ⟨d, hd, hvalue⟩ | ⟨hd, hvalue⟩
  · rcases closureValue_seen kb hb with ⟨e, he, hvalue'⟩ | ⟨-, hvalue'⟩
    · rw [hvalue, hvalue'] at hsame
      rw [hd, he, digestText_inj hsame]
    · rw [hvalue, hvalue'] at hsame
      exact absurd hsame (digestText_ne_absent d)
  · rcases closureValue_seen kb hb with ⟨e, -, hvalue'⟩ | ⟨he, -⟩
    · rw [hvalue, hvalue'] at hsame
      exact absurd hsame.symm (digestText_ne_absent e)
    · rw [hd, he]

theorem sameInputs_iff {a b : KeyCall} {key : String} (henv : env.Injective)
    (ha : (stageInputKey env a none).1 = .ok key) (hb : (stageInputKey env b none).1 = .ok key) :
    SameInputs env a b ↔ UnseenAlike env a b := by
  obtain ⟨ka⟩ := keyOf_stageInputKey ha
  obtain ⟨kb⟩ := keyOf_stageInputKey hb
  have hagree := keysAgree henv ka kb
  constructor
  · intro h
    refine ⟨?_, ?_⟩
    · intro fs hfs f hf _
      exact h.modules fs hfs f hf
    · intro p _
      exact h.entries p
  · intro h
    refine ⟨⟨ka.stage, kb.stage, ka.stage_eq, kb.stage_eq, stageEntry_same hagree.entry⟩,
      ⟨ka.reachable, kb.reachable, ka.reachable_eq, kb.reachable_eq, hagree.closure⟩, ?_, ?_⟩
    · intro fs hfs f hf
      by_cases hseen : ModuleSeen env a f ∧ ModuleSeen env b f
      · cases ka.reachable_eq.symm.trans hfs
        exact modules_seen ka kb hseen.1 hseen.2 (hagree.values f hf)
      · exact h.modules fs hfs f hf (not_and_or.mp hseen)
    · intro p
      by_cases hseen : EntrySeen env a p ∧ EntrySeen env b p
      · exact entries_seen henv ka kb hseen.1 hseen.2
      · exact h.entries p (not_and_or.mp hseen)

end Seen

/-! ## The shared memo -/

section Memo
variable {env : KeyEnv}

def MemoTrue (env : KeyEnv) (files : FileStat → Option Bytes → Prop) (memo : Option DigestMemo) : Prop :=
  ∀ d rel e, memo = some d → Dict.get d rel = some e → ∃ st bytes, files st (some bytes) ∧
    e.1 = fileIdentity st ∧ e.2 = digestText (digestOf env st.size bytes)

/-- A file's identity changes whenever its bytes do. -/
def IdentityTells (files : FileStat → Option Bytes → Prop) : Prop :=
  ∀ st bytes st' bytes', files st bytes → files st' bytes' → fileIdentity st = fileIdentity st' →
    bytes = bytes'

def SameWalk (env : KeyEnv) (files : FileStat → Option Bytes → Prop) :
    Except Unkeyed Keyed → Except Unkeyed Keyed → Prop
  | .ok s, .ok t => s.out = t.out ∧ s.total = t.total ∧ t.digests = none ∧ MemoTrue env files s.digests
  | .error x, .error y => x.1 = y.1 ∧ MemoTrue env files x.2
  | _, _ => False

theorem memoTrue_set {files : FileStat → Option Bytes → Prop} {memo : Option DigestMemo}
    (h : MemoTrue env files memo) (rel : String) {st : FileStat} {bytes : Bytes}
    (hfile : files st (some bytes)) : MemoTrue env files
      (memo.map fun d => d.set rel (fileIdentity st, digestText (digestOf env st.size bytes))) := by
  intro d rel' e hd he
  obtain ⟨d', hd', rfl⟩ := Option.map_eq_some_iff.mp hd
  rw [Dict.get_set] at he
  split at he
  · cases he
    exact ⟨st, bytes, hfile, rfl, rfl⟩
  · exact h d' rel' e hd' he

theorem remembered_true {files : FileStat → Option Bytes → Prop} (htells : IdentityTells files)
    {s : Keyed} (hs : MemoTrue env files s.digests) {rel text : String} {st : FileStat}
    {bytes : Option Bytes} (hfile : files st bytes) (h : s.remembered rel st = some text) :
    ∃ b, bytes = some b ∧ text = digestText (digestOf env st.size b) := by
  obtain ⟨e, he, heq⟩ := Option.bind_eq_some_iff.mp h
  obtain ⟨d, hd, he⟩ := Option.bind_eq_some_iff.mp he
  obtain ⟨st', b, hfile', hid, htext⟩ := hs d rel e hd he
  split at heq
  · rename_i hsame
    cases heq
    have hidentity : fileIdentity st' = fileIdentity st := hid.symm.trans hsame
    have hsize : st'.size = st.size := by
      unfold fileIdentity at hidentity
      simp only [List.cons.injEq] at hidentity
      exact Int.ofNat.inj hidentity.2.2.1
    refine ⟨b, (htells st' (some b) st bytes hfile' hfile hidentity).symm, ?_⟩
    rw [htext, hsize]
  · cases heq

theorem keyName_memo {files : FileStat → Option Bytes → Prop} (htells : IdentityTells files)
    (exclude : List String) {s t : Keyed} {e : List String × FsNode} (hout : s.out = t.out)
    (htotal : s.total = t.total) (ht : t.digests = none) (hs : MemoTrue env files s.digests)
    (he : ∀ st bytes, e.2 = .file st bytes → files st bytes) :
    SameWalk env files (keyName env exclude s e) (keyName env exclude t e) := by
  obtain ⟨p, node⟩ := e
  have hforget (rel : String) (st : FileStat) : t.remembered rel st = none := by
    unfold Keyed.remembered
    rw [ht]
    rfl
  unfold keyName
  dsimp only
  rw [hout, htotal]
  split
  · exact ⟨hout, htotal, ht, hs⟩
  · split
    · exact ⟨rfl, hs⟩
    · cases node with
      | unstatable => exact ⟨rfl, hs⟩
      | special =>
        dsimp only
        split
        · exact ⟨rfl, hs⟩
        · exact ⟨rfl, rfl, ht, hs⟩
      | dir listed names child =>
        dsimp only
        split
        · exact ⟨rfl, hs⟩
        · exact ⟨rfl, rfl, ht, hs⟩
      | link size target toDir =>
        dsimp only
        split
        · exact ⟨rfl, hs⟩
        · cases target with
          | none => exact ⟨rfl, hs⟩
          | some target => exact ⟨rfl, rfl, ht, hs⟩
      | file st bytes =>
        have hfile := he st bytes rfl
        dsimp only
        rw [hforget]
        split
        · exact ⟨rfl, hs⟩
        · cases hrem : s.remembered (normalizeDeclaredPath (relName p)) st with
          | some text =>
            obtain ⟨b, rfl, rfl⟩ := remembered_true htells hs hfile hrem
            exact ⟨rfl, rfl, by rw [ht]; rfl, hs⟩
          | none =>
            cases bytes with
            | none => exact ⟨rfl, hs⟩
            | some b => exact ⟨rfl, rfl, by rw [ht]; rfl, memoTrue_set hs _ hfile⟩

theorem keyNames_memo {files : FileStat → Option Bytes → Prop} (htells : IdentityTells files)
    {exclude : List String} {es : List (List String × FsNode)} {s t : Keyed} (hout : s.out = t.out)
    (htotal : s.total = t.total) (ht : t.digests = none) (hs : MemoTrue env files s.digests)
    (he : ∀ e ∈ es, ∀ st bytes, e.2 = .file st bytes → files st bytes) :
    SameWalk env files (es.foldlM (keyName env exclude) s) (es.foldlM (keyName env exclude) t) := by
  induction es generalizing s t with
  | nil => exact ⟨hout, htotal, ht, hs⟩
  | cons e es ih =>
    have hstep := keyName_memo htells exclude hout htotal ht hs (he e List.mem_cons_self)
    rw [List.foldlM_cons, List.foldlM_cons]
    cases hx : keyName env exclude s e with
    | error x =>
      cases hy : keyName env exclude t e with
      | error y =>
        rw [hx, hy] at hstep
        exact hstep
      | ok t' =>
        rw [hx, hy] at hstep
        exact absurd hstep id
    | ok s' =>
      cases hy : keyName env exclude t e with
      | error y =>
        rw [hx, hy] at hstep
        exact absurd hstep id
      | ok t' =>
        rw [hx, hy] at hstep
        obtain ⟨hout', htotal', ht', hs'⟩ := hstep
        exact ih hout' htotal' ht' hs' fun e' he' => he e' (List.mem_cons_of_mem e he')

/-- The files of a workdir. -/
def Workdir.Has (w : Workdir) (st : FileStat) (bytes : Option Bytes) : Prop :=
  ∃ p, entryAt w.root p = some (.file st bytes)

theorem stageInputKey_memo {files : FileStat → Option Bytes → Prop} (htells : IdentityTells files)
    {call : KeyCall} {memo : Option DigestMemo} (hmemo : MemoTrue env files memo)
    (hfiles : ∀ st bytes, call.workdir.Has st bytes → files st bytes) :
    (stageInputKey env call memo).1 = (stageInputKey env call none).1 ∧
      MemoTrue env files (stageInputKey env call memo).2 := by
  have hwalk : SameWalk env files
      (workdirContent env call.workdir.root (declaredOutputs call.stages call.index) memo)
      (workdirContent env call.workdir.root (declaredOutputs call.stages call.index) none) := by
    unfold workdirContent
    have hstart : MemoTrue env files ({ digests := memo } : Keyed).digests := hmemo
    apply keyNames_memo htells (s := { digests := memo }) (t := {}) rfl rfl rfl hstart
    rintro ⟨p, node⟩ he st bytes rfl
    obtain ⟨q, -, hreach⟩ := mem_walk.mp he
    exact hfiles st bytes ⟨q, (entryAt_of_reach hreach).1⟩
  unfold stageInputKey
  cases call.stages[call.index]? with
  | none => exact ⟨rfl, hmemo⟩
  | some stage =>
    dsimp only
    split
    · exact ⟨rfl, hmemo⟩
    · cases call.reachable with
      | none => exact ⟨rfl, hmemo⟩
      | some reachable =>
        dsimp only
        split
        · exact ⟨rfl, hmemo⟩
        · cases hx : workdirContent env call.workdir.root (declaredOutputs call.stages call.index) memo with
          | error x =>
            cases hy : workdirContent env call.workdir.root
                (declaredOutputs call.stages call.index) none with
            | error y =>
              rw [hx, hy] at hwalk
              obtain ⟨hwhy, htrue⟩ := hwalk
              exact ⟨congrArg Except.error hwhy, htrue⟩
            | ok t =>
              rw [hx, hy] at hwalk
              exact absurd hwalk id
          | ok s =>
            cases hy : workdirContent env call.workdir.root
                (declaredOutputs call.stages call.index) none with
            | error y =>
              rw [hx, hy] at hwalk
              exact absurd hwalk id
            | ok t =>
              rw [hx, hy] at hwalk
              obtain ⟨hout, -, -, htrue⟩ := hwalk
              dsimp only
              rw [hout]
              cases canonicalJsonDigest env (preimage stage call.scope reachable t.out) "stage1:" with
              | none => exact ⟨rfl, htrue⟩
              | some key => exact ⟨rfl, htrue⟩

/-- The keys of calls that share a memo. -/
def keysWithMemo (env : KeyEnv) : DigestMemo → List KeyCall → List (Except KeyReason String)
  | _, [] => []
  | memo, call :: calls =>
    let (key, memo') := stageInputKey env call (some memo)
    key :: keysWithMemo env (memo'.getD memo) calls

theorem keysWithMemo_eq {files : FileStat → Option Bytes → Prop} (htells : IdentityTells files)
    {calls : List KeyCall} {memo : DigestMemo} (hmemo : MemoTrue env files (some memo))
    (hfiles : ∀ call ∈ calls, ∀ st bytes, call.workdir.Has st bytes → files st bytes) :
    keysWithMemo env memo calls = calls.map fun call => (stageInputKey env call none).1 := by
  induction calls generalizing memo with
  | nil => rfl
  | cons call calls ih =>
    obtain ⟨hcall, hrest⟩ := List.forall_mem_cons.mp hfiles
    obtain ⟨hkey, htrue⟩ := stageInputKey_memo htells hmemo hcall
    unfold keysWithMemo
    dsimp only
    rw [List.map_cons, hkey, ih _ hrest]
    cases hleft : (stageInputKey env call (some memo)).2 with
    | none => exact hmemo
    | some memo' =>
      rw [hleft] at htrue
      exact htrue

end Memo

/-! ## Reading a key -/

/-- Under one key the inputs are the same just where the unseen is alike, and a shared memo changes no
key. -/
theorem stage_keys_tell {env : KeyEnv} (henv : env.Injective) :
    (∀ a b key, (stageInputKey env a none).1 = .ok key → (stageInputKey env b none).1 = .ok key →
      (SameInputs env a b ↔ UnseenAlike env a b)) ∧
    ∀ calls : List KeyCall,
      (IdentityTells fun st bytes => ∃ call ∈ calls, call.workdir.Has st bytes) →
      keysWithMemo env Table.empty calls = calls.map fun call => (stageInputKey env call none).1 := by
  constructor
  · intro a b key ha hb
    exact sameInputs_iff henv ha hb
  · intro calls htells
    apply keysWithMemo_eq htells
    · intro d rel e hd he
      cases hd
      cases he
    · intro call hcall st bytes hhas
      exact ⟨call, hcall, hhas⟩

def passText : Bytes := Json.ascii "pass" ++ [10]

def passStat : FileStat := { dev := 1, ino := 7, size := 5, mtimeNs := 0, ctimeNs := 0 }

/-- A workdir whose data directory is a link. -/
def linkedWorkdir (target : String) : Workdir where
  root := .dir true ["data", "train.py"] fun n =>
    if n = "train.py" then .file passStat (some passText) else .link target.length (some target) true
  stat f := if f = "train.py" then .file passStat (some passText)
    else if f = "data" then .other else .missing
  stat_file := by
    intro p st bytes h
    cases p with
    | nil => cases h
    | cons n rest =>
      unfold entryAt at h
      split at h
      · dsimp only at h
        by_cases hn : n = "train.py"
        · rw [if_pos hn] at h
          cases rest with
          | nil =>
            cases h
            rw [hn]
            rfl
          | cons m rest => cases h
        · rw [if_neg hn] at h
          cases rest with
          | nil => cases h
          | cons m rest => cases h
      · cases h

def trainStage : Stage := { name := "train", command := ["python", "train.py"] }

def linkedCall (target : String) : KeyCall where
  stages := [trainStage]
  index := 0
  workdir := linkedWorkdir target
  scope := "s"
  reachable := some ["train.py"]

def passDigest : String := "9f56e761d79bfdb34304a012586cb04d16b435ef6130091a97702e559260a2f2"

def linkedPreimage : Json :=
  preimage trainStage "s" ["train.py"] (Dict.set Table.empty "train.py" ("sha256:" ++ passDigest))

def linkedEnv : KeyEnv where
  dumps v := if v.same linkedPreimage.sortKeys then some v.print else none
  sha256 text :=
    if text = passText then passDigest
    else "717dbbe7bf275588e36b213875b4c20a161add709e9b699b2edf7ba347095bbb"

theorem linkedEnv_dumps {v : Json} {text : Bytes} (h : linkedEnv.dumps v = some text) :
    v = linkedPreimage.sortKeys := by
  unfold linkedEnv at h
  dsimp only at h
  split at h
  · rename_i hsame
    exact Json.eq_of_same hsame
  · cases h

theorem linkedEnv_injective : linkedEnv.Injective := by
  constructor
  · intro u v text hu hv
    rw [linkedEnv_dumps hu, linkedEnv_dumps hv]
  · intro u v s t hu hv _
    rw [linkedEnv_dumps hu] at hu
    rw [linkedEnv_dumps hv] at hv
    exact Option.some.inj (hu.symm.trans hv)

def linkedKey : String := "stage1:717dbbe7bf275588e36b213875b4c20a161add709e9b699b2edf7ba347095bbb"

theorem linked_key : (stageInputKey linkedEnv (linkedCall "v1") none).1 = .ok linkedKey ∧
    (stageInputKey linkedEnv (linkedCall "v2") none).1 = .ok linkedKey := by
  constructor <;> rfl

theorem linked_entry (target : String) :
    otherEntry linkedEnv (linkedCall target) ["data"] = some (.link (some target)) := by
  rfl

theorem linked_tells : IdentityTells fun st bytes =>
    ∃ call ∈ [linkedCall "v1", linkedCall "v2"], call.workdir.Has st bytes := by
  have hone (target : String) (st : FileStat) (bytes : Option Bytes)
      (h : (linkedWorkdir target).Has st bytes) : bytes = some passText := by
    obtain ⟨p, hp⟩ := h
    have hstat := (linkedWorkdir target).stat_file p st bytes hp
    unfold linkedWorkdir at hstat
    dsimp only at hstat
    split at hstat
    · cases hstat
      rfl
    · split at hstat
      · cases hstat
      · cases hstat
  have hall (st : FileStat) (bytes : Option Bytes)
      (h : ∃ call ∈ [linkedCall "v1", linkedCall "v2"], call.workdir.Has st bytes) :
      bytes = some passText := by
    obtain ⟨call, hcall, hhas⟩ := h
    rcases List.mem_cons.mp hcall with rfl | hcall
    · exact hone "v1" st bytes hhas
    · cases List.mem_singleton.mp hcall
      exact hone "v2" st bytes hhas
  intro st bytes st' bytes' h h' _
  rw [hall st bytes h, hall st' bytes' h']

/-- Two workdirs whose data directories are links to different places have one key. -/
theorem linked_directories_share_key :
    linkedEnv.Injective ∧ (linkedCall "v1").scope = (linkedCall "v2").scope ∧
      (stageInputKey linkedEnv (linkedCall "v1") none).1 = .ok linkedKey ∧
      (stageInputKey linkedEnv (linkedCall "v2") none).1 = .ok linkedKey ∧
      ¬ SameInputs linkedEnv (linkedCall "v1") (linkedCall "v2") := by
  refine ⟨linkedEnv_injective, rfl, linked_key.1, linked_key.2, ?_⟩
  intro h
  have hentry := h.entries ["data"]
  rw [linked_entry, linked_entry] at hentry
  exact absurd hentry (by decide)

theorem stage_keys_tell_linked :
    (SameInputs linkedEnv (linkedCall "v1") (linkedCall "v2") ↔
      UnseenAlike linkedEnv (linkedCall "v1") (linkedCall "v2")) ∧
    keysWithMemo linkedEnv Table.empty [linkedCall "v1", linkedCall "v2"] =
      [.ok linkedKey, .ok linkedKey] := by
  obtain ⟨htell, hmemo⟩ := stage_keys_tell linkedEnv_injective
  constructor
  · exact htell _ _ linkedKey linked_key.1 linked_key.2
  · rw [hmemo _ linked_tells, List.map_cons, List.map_cons, List.map_nil, linked_key.1, linked_key.2]

end LoopLab.Stages
