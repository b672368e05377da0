import LoopLab.Log.Codec
import Mathlib.Data.List.Sort
import Mathlib.Data.List.SplitOn

/-!
# The key of a stage

A node's workdir, and the key that names what a stage would run on.
-/

set_option autoImplicit false

/-!
## A node's workdir

A tree of names as `os.walk` finds it: it steps into the directories it can list, follows no link, and hands out
the rest as files.
-/

namespace LoopLab.Stages

/-- What `os.lstat` says of a file. -/
structure FileStat where
  dev : Int
  ino : Int
  size : Nat
  mtimeNs : Int
  ctimeNs : Int
  attributes : Int := 0
  deriving DecidableEq, Repr

def fileIdentity (st : FileStat) : List Int :=
  [st.dev, st.ino, st.size, st.mtimeNs, st.ctimeNs, st.attributes]

/-- What a name stands for. A file that will not be read has no bytes and a link that will not be read
no target; `toDir` says that following the link ends at a directory. A directory that will not be
listed has its names all the same. -/
inductive FsNode where
  | file (st : FileStat) (bytes : Option Bytes)
  | link (size : Nat) (target : Option String) (toDir : Bool)
  | special
  | unstatable
  | dir (listed : Bool) (names : List String) (child : String → FsNode)

namespace FsNode

/-- `entry.is_dir()` -/
def isDir : FsNode → Bool
  | .dir .. => true
  | .link _ _ toDir => toDir
  | _ => false

/-- `st_size` of `os.lstat` -/
def lstatSize : FsNode → Nat
  | .file st _ => st.size
  | .link size .. => size
  | _ => 0

end FsNode

def SKIP_DIRS : List String :=
  ["__pycache__", ".git", ".hg", ".svn", "node_modules", ".venv", "venv", ".mypy_cache",
   ".pytest_cache", ".ruff_cache"]

/-- `sorted(names)` -/
def sortedNames (names : List String) : List String := names.insertionSort (· ≤ ·)

/-- The file names of `os.walk`, in its order: those of a directory before those of the directories in
it. -/
def walk (path : List String) : FsNode → List (List String × FsNode)
  | .dir true names child =>
    (sortedNames (names.filter fun n => !(child n).isDir)).map (fun n => (path ++ [n], child n)) ++
      (sortedNames (names.filter fun n => (child n).isDir && !SKIP_DIRS.contains n)).flatMap
        fun n => walk (path ++ [n]) (child n)
  | _ => []

def reach : FsNode → List String → Option FsNode
  | .dir true names child, n :: rest =>
    if !names.contains n then none
    else if (child n).isDir then
      if SKIP_DIRS.contains n then none else reach (child n) rest
    else if rest = [] then some (child n) else none
  | _, _ => none

def entryAt : FsNode → List String → Option FsNode
  | node, [] => some node
  | .dir _ names child, n :: rest => if names.contains n then entryAt (child n) rest else none
  | _, _ :: _ => none

theorem mem_sortedNames {names : List String} {n : String} : n ∈ sortedNames names ↔ n ∈ names :=
  List.mem_insertionSort _

theorem mem_walk {root node : FsNode} {path p : List String} :
    (p, node) ∈ walk path root ↔ ∃ q, p = path ++ q ∧ reach root q = some node := by
  induction root generalizing path p with
  | dir listed names child ih =>
    cases listed with
    | false => simp [walk, reach]
    | true =>
      unfold walk
      rw [List.mem_append, List.mem_map, List.mem_flatMap]
      simp only [mem_sortedNames, List.mem_filter]
      constructor
      · rintro (⟨n, ⟨hn, hfile⟩, heq⟩ | ⟨n, ⟨hn, hdir⟩, hmem⟩)
        · cases heq
          refine ⟨[n], rfl, ?_⟩
          simp only [Bool.not_eq_true'] at hfile
          simp [reach, hn, hfile]
        · obtain ⟨hdir, hskip⟩ := Bool.and_eq_true_iff.mp hdir
          obtain ⟨q, rfl, hq⟩ := (ih n).mp hmem
          refine ⟨n :: q, by simp, ?_⟩
          simp only [Bool.not_eq_true', List.contains_eq_mem, decide_eq_false_iff_not] at hskip
          simp [reach, hn, hdir, hskip, hq]
      · rintro ⟨q, rfl, hq⟩
        cases q with
        | nil => simp [reach] at hq
        | cons n rest =>
          simp only [reach] at hq
          split at hq
          · cases hq
          · rename_i hn
            have hn : n ∈ names := by simpa using hn
            split at hq
            · rename_i hdir
              split at hq
              · cases hq
              · rename_i hskip
                have hkept : ((child n).isDir && !SKIP_DIRS.contains n) = true := by
                  rw [hdir, eq_false_of_ne_true hskip]
                  rfl
                exact .inr ⟨n, ⟨hn, hkept⟩, (ih n).mpr ⟨rest, by simp, hq⟩⟩
            · rename_i hfile
              split at hq
              · rename_i hrest
                cases hq
                refine .inl ⟨n, ⟨hn, by simpa using hfile⟩, by rw [hrest]⟩
              · cases hq
  | file st bytes => simp [walk, reach]
  | link size target toDir => simp [walk, reach]
  | special => simp [walk, reach]
  | unstatable => simp [walk, reach]

theorem entryAt_of_reach {root node : FsNode} {p : List String} (h : reach root p = some node) :
    entryAt root p = some node ∧ node.isDir = false := by
  induction root generalizing p with
  | dir listed names child ih =>
    cases listed with
    | false => simp [reach] at h
    | true =>
      cases p with
      | nil => simp [reach] at h
      | cons n rest =>
        simp only [reach] at h
        split at h
        · cases h
        · rename_i hn
          have hn : names.contains n = true := by simpa using hn
          split at h
          · split at h
            · cases h
            · obtain ⟨hat, hfile⟩ := ih n h
              refine ⟨?_, hfile⟩
              unfold entryAt
              rw [if_pos hn]
              exact hat
          · rename_i hfile
            split at h
            · rename_i hrest
              cases h
              refine ⟨?_, by simpa using hfile⟩
              rw [hrest]
              unfold entryAt
              rw [if_pos hn]
              unfold entryAt
              rfl
            · cases h
  | file st bytes => simp [reach] at h
  | link size target toDir => simp [reach] at h
  | special => simp [reach] at h
  | unstatable => simp [reach] at h

/-! ## Declared paths -/

/-- Leading `./` dropped as often as it stands there. -/
def dropHere : List Char → List Char
  | '.' :: '/' :: rest => dropHere rest
  | rel => rel

def normalizeDeclaredPath (path : String) : String :=
  let rel := dropHere ((Py.stripChars path.toList).map fun c => if c = '\\' then '/' else c)
  let segments := rel.splitOn '/'
  if rel = [] ∨ rel.contains (Char.ofNat 0) then String.ofList rel
  else if rel.head? = some '/' ∨ rel[1]? = some ':' ∨ segments.contains ['.', '.'] then String.ofList rel
  else String.ofList (List.intercalate ['/'] (segments.filter fun s => s ≠ [] && s ≠ ['.']))

/-- `str(full.relative_to(root))` -/
def relName (p : List String) : String := String.intercalate "/" p

/-! ## Opening a path -/

inductive OnDisk where
  | missing
  | file (st : FileStat) (bytes : Option Bytes)
  | other

structure Workdir where
  root : FsNode
  stat : String → OnDisk
  stat_file : ∀ p st bytes, entryAt root p = some (.file st bytes) → stat (relName p) = .file st bytes

/-- `(Path(workdir) / rel).exists()` -/
def Workdir.present (w : Workdir) (rel : String) : Bool :=
  match w.stat rel with
  | .missing => false
  | _ => true

end LoopLab.Stages

/-!
## The key of a stage

A stage's key is a digest of its manifest entry, of what its import closure holds on disk and of every other file
of the workdir.
-/

namespace LoopLab

namespace Json

mutual
/-- The value as `sort_keys` writes it: every object in the order of its keys. -/
def sortKeys : Json → Json
  | .arr xs => .arr (sortKeysList xs)
  | .obj fields => .obj ((sortKeysFields fields).insertionSort fun a b => a.1 ≤ b.1)
  | v => v
def sortKeysList : List Json → List Json
  | [] => []
  | x :: xs => sortKeys x :: sortKeysList xs
def sortKeysFields : Obj → Obj
  | [] => []
  | (k, x) :: fields => (k, sortKeys x) :: sortKeysFields fields
end

theorem sortKeysFields_eq (fields : Obj) :
    sortKeysFields fields = fields.map fun e => (e.1, e.2.sortKeys) := by
  induction fields with
  | nil => rfl
  | cons e fields ih => rw [sortKeysFields, ih, List.map_cons]

theorem sortKeysList_eq (xs : List Json) : sortKeysList xs = xs.map sortKeys := by
  induction xs with
  | nil => rfl
  | cons x xs ih => rw [sortKeysList, ih, List.map_cons]

theorem sortKeys_obj (fields : Obj) : (obj fields).sortKeys =
    .obj ((fields.map fun e => (e.1, e.2.sortKeys)).insertionSort fun a b => a.1 ≤ b.1) := by
  rw [sortKeys, sortKeysFields_eq]

theorem sortKeys_arr (xs : List Json) : (arr xs).sortKeys = .arr (xs.map sortKeys) := by
  rw [sortKeys, sortKeysList_eq]

theorem sortKeys_str (s : String) : (str s).sortKeys = .str s := rfl

theorem sortKeys_null : null.sortKeys = null := rfl

end Json

namespace Stages
open Lib

/-- What a key takes from outside: the text of a value whose keys are sorted, and the digests. -/
structure KeyEnv where
  dumps : Json → Option Bytes
  sha256 : Bytes → String

def canonicalJsonDigest (env : KeyEnv) (value : Json) (label : String) : Option String :=
  (env.dumps value.sortKeys).map fun encoded => label ++ env.sha256 encoded

/-- `KEY_REASONS` -/
inductive KeyReason where
  | noStage | opaqueEntry | unresolvedEntry | nonDefaultCwd | unreadableWorkdir | tooManyFiles
  | tooManyBytes | unencodable
  deriving DecidableEq, Repr

def KEY_SCHEMA : String := "stage-input-key/v1"

def ENGINE_SIDECARS : List String :=
  [".looplab-manifest", ".looplab-metrics-attempt.json", ".looplab-run-fence", "looplab_stages.json"]

def SKIP_SUFFIXES : List String := [".log", ".pyc", ".pyo"]

def MAX_KEYED_FILES : Nat := 20000
def MAX_KEYED_BYTES : Nat := 4 * 1024 * 1024 * 1024
def SAMPLE_ABOVE : Nat := 256 * 1024 * 1024
def SAMPLE_BYTES : Nat := 1024 * 1024

/-- `s.endswith(suffix)` -/
def endsWith (s suffix : String) : Bool := suffix.toList.isSuffixOf s.toList

/-! ## The manifest -/

structure Stage where
  name : String
  command : List String
  expect : Option Obj := none
  needs : List String := []
  env : Option Obj := none

/-- The paths of `expect.files`. -/
def Stage.outputs (s : Stage) : List String :=
  (((s.expect.getD []).get "files").arr?.getD []).filterMap Json.str?

def declaredOutputs (stages : List Stage) (start : Nat) : List String :=
  (stages.drop start).flatMap fun s => s.outputs.map normalizeDeclaredPath

/-- `stage_entry`, its keys in order -/
def stageEntry (s : Stage) : Json :=
  .obj
    [("command", .arr (s.command.map .str)),
     ("env", match s.env with | some env => .obj env | none => .null),
     ("expect", match s.expect with | some expect => .obj expect | none => .null),
     ("name", .str s.name),
     ("needs", if s.needs = [] then .null else .arr (s.needs.map .str))]

/-! ## The contents of the workdir -/

inductive DigestMode where
  | full | sampled
  deriving DecidableEq, Repr

/-- `DIGEST_FULL`, `DIGEST_SAMPLED` -/
def DigestMode.name : DigestMode → String
  | .full => "sha256"
  | .sampled => "sha256-sampled"

/-- `_sha256` of a file of a size -/
def digestOf (env : KeyEnv) (size : Nat) (bytes : Bytes) : DigestMode × String :=
  if size ≤ SAMPLE_ABOVE then (.full, env.sha256 bytes)
  else (.sampled, env.sha256 ((toString size).toUTF8.toList ++ bytes.take SAMPLE_BYTES ++
    (bytes.drop (size - SAMPLE_BYTES)).take SAMPLE_BYTES))

def digestText (d : DigestMode × String) : String := d.1.name ++ ":" ++ d.2

/-- The digests of an attempt, by path, each with the identity of the file it was taken of. -/
abbrev DigestMemo := Dict String (List Int × String)

/-- `workdir_content` under way -/
structure Keyed where
  out : Dict String String := Table.empty
  total : Nat := 0
  digests : Option DigestMemo := none

def skipped (exclude : List String) (rel : String) : Bool :=
  rel = "" || ENGINE_SIDECARS.contains rel || exclude.contains rel || SKIP_SUFFIXES.any (endsWith rel)

section Content
variable (env : KeyEnv)

def Keyed.remembered (s : Keyed) (rel : String) (st : FileStat) : Option String :=
  (s.digests.bind fun memo => Dict.get memo rel).bind fun e =>
    if e.1 = fileIdentity st then some e.2 else none

abbrev Unkeyed := KeyReason × Option DigestMemo

/-- One name of the walk of `workdir_content`. -/
def keyName (exclude : List String) (s : Keyed) (e : List String × FsNode) : Except Unkeyed Keyed :=
  let rel := normalizeDeclaredPath (relName e.1)
  let total := s.total + min e.2.lstatSize SAMPLE_ABOVE
  if skipped exclude rel then .ok s
  else if MAX_KEYED_FILES ≤ s.out.rows.length then .error (.tooManyFiles, s.digests)
  else match e.2 with
    | .unstatable => .error (.unreadableWorkdir, s.digests)
    | .link _ target _ =>
      if MAX_KEYED_BYTES < total then .error (.tooManyBytes, s.digests)
      else match target with
        | none => .error (.unreadableWorkdir, s.digests)
        | some target => .ok { s with total, out := s.out.set rel ("symlink:" ++ target) }
    | .file st bytes =>
      if MAX_KEYED_BYTES < total then .error (.tooManyBytes, s.digests)
      else match s.remembered rel st with
        | some text => .ok { s with total, out := s.out.set rel text }
        | none =>
          match bytes with
          | none => .error (.unreadableWorkdir, s.digests)
          | some bytes =>
            let text := digestText (digestOf env st.size bytes)
            .ok { out := s.out.set rel text
                  total
                  digests := s.digests.map fun memo => memo.set rel (fileIdentity st, text) }
    | _ => if MAX_KEYED_BYTES < total then .error (.tooManyBytes, s.digests) else .ok { s with total }

/-- `workdir_content`, with what it leaves in the memo -/
def workdirContent (root : FsNode) (exclude : List String) (digests : Option DigestMemo) :
    Except Unkeyed Keyed :=
  (walk [] root).foldlM (keyName env exclude) { digests }

/-! ## The key -/

def strFields (rows : List (String × String)) : Json := .obj (rows.map fun e => (e.1, .str e.2))

def preimage (stage : Stage) (scope : String) (reachable : List String) (content : Dict String String) :
    Json :=
  .obj
    [("closure", strFields ((sortedNames reachable.eraseDups).map fun f =>
        (f, (content.get f).getD "absent"))),
     ("content", strFields (content.rows.filter fun e => !endsWith e.1 ".py")),
     ("schema", .str KEY_SCHEMA),
     ("scope", .str scope),
     ("stage", stageEntry stage)]

/-- What a call of `stage_input_key` is handed. -/
structure KeyCall where
  stages : List Stage
  index : Nat
  workdir : Workdir
  scope : String
  reachable : Option (List String)
  cwd : Option String := none

/-- `stage_input_key`: the key, or why there is none, and the memo it leaves. -/
def stageInputKey (call : KeyCall) (digests : Option DigestMemo) :
    Except KeyReason String × Option DigestMemo :=
  match call.stages[call.index]? with
  | none => (.error .noStage, digests)
  | some stage =>
    if (call.cwd.filter fun cwd => cwd ≠ "" ∧ cwd ≠ ".").isSome then (.error .nonDefaultCwd, digests)
    else match call.reachable with
    | none => (.error .opaqueEntry, digests)
    | some reachable =>
      if !reachable.any call.workdir.present then (.error .unresolvedEntry, digests)
      else match workdirContent env call.workdir.root (declaredOutputs call.stages call.index) digests with
        | .error (why, digests) => (.error why, digests)
        | .ok s =>
          match canonicalJsonDigest env (preimage stage call.scope reachable s.out) "stage1:" with
          | none => (.error .unencodable, s.digests)
          | some key => (.ok key, s.digests)

end Content

end Stages

end LoopLab
