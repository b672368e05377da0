import LoopLab.Lib.Sorted
import LoopLab.Tools.Patch
import Mathlib.Data.List.Infix

/-!
# What the gate in front of a diff covers

`git apply` reads names from three kinds of lines, and the gate from two.
-/

set_option autoImplicit false

namespace LoopLab.Tools
open Lib

/-- The lines up to the first `diff --git` line, and the blocks behind them. -/
def splitBlocks : List String → List String × List (String × List String)
  | [] => ([], [])
  | line :: lines =>
    let (before, blocks) := splitBlocks lines
    if startsWith line "diff --git " then ([], (line, before) :: blocks) else (line :: before, blocks)

/-- A line the gate reads a name from, wherever it stands. -/
def namesFile (line : String) : Bool := startsWith line "+++ " || startsWith line "--- "

/-! ## What git makes of a diff -/

/-- How `git apply` reads the name behind `---` or `+++`, the name behind the words of a rename or copy,
and the two names of a `diff --git` line; whether a line makes its file a symbolic link; and whether the
diff fits the files and nothing else is wrong with it. -/
structure GitApply where
  written : String → String
  moved : String → String
  pair : String → Option (String × String)
  linkMode : String → Bool
  applies : String → Bool

section Git
variable (git : GitApply)

/-- A path without its first component, as `-p1` has it. -/
def withoutFirst (p : String) : String := String.ofList (p.toList.dropWhile (· ≠ '/')).tail

/-- The file a header line names; `/dev/null` is none. -/
def GitApply.fileOf (line : String) : Option String :=
  let name := git.written (dropFront 4 line)
  if name = "/dev/null" then none else some (withoutFirst name)

def GitApply.oldNames (header : List String) : List (Option String) :=
  header.filterMap fun line =>
    if startsWith line "--- " then some (git.fileOf line)
    else if startsWith line "rename from " then some (some (git.moved (dropFront 12 line)))
    else if startsWith line "copy from " then some (some (git.moved (dropFront 10 line)))
    else none

def GitApply.newNames (header : List String) : List (Option String) :=
  header.filterMap fun line =>
    if startsWith line "+++ " then some (git.fileOf line)
    else if startsWith line "rename to " then some (some (git.moved (dropFront 10 line)))
    else if startsWith line "copy to " then some (some (git.moved (dropFront 8 line)))
    else none

/-- The lines of a block in front of its first hunk. -/
def headerOf (lines : List String) : List String := lines.takeWhile (!startsWith · "@@ -")

def agree (names : List (Option String)) : Bool := names.all (· = names.headD none)

/-- The paths of a block, none where its names contradict each other. -/
def GitApply.blockPaths (block : String × List String) : Option (List String) :=
  let olds := git.oldNames (headerOf block.2)
  let news := git.newNames (headerOf block.2)
  if olds.isEmpty && news.isEmpty then do
    let (a, b) ← git.pair block.1
    if withoutFirst a = withoutFirst b then some [withoutFirst a] else none
  else if agree olds && agree news then some ((olds ++ news).filterMap id)
  else none

def gitBlocks (diffText : String) : List (String × List String) :=
  (splitBlocks ((pieces '\n' diffText.toList).map String.ofList)).2

/-- The paths a diff creates, changes, deletes, reads or writes; none where it is not applied. -/
def GitApply.touched (diffText : String) : Option (List String) :=
  if git.applies diffText then ((gitBlocks diffText).mapM git.blockPaths).map List.flatten else none

/-- A path of the diff becomes a symbolic link. -/
def GitApply.links (diffText : String) : Bool :=
  (gitBlocks diffText).any fun block => (headerOf block.2).any git.linkMode

end Git

/-! ## What the gate reads -/

section Gate
variable (u : Unicode) {p q : String}

/-- The name stands on a `---` or `+++` line, or is a word of the `diff --git` line of a block that has
no such line. -/
def Named (lines : List String) (q : String) : Prop :=
  (∃ line ∈ lines, namesFile line = true ∧ headerName u line ≠ "/dev/null" ∧
    q = withoutSide (headerName u line)) ∨
  ∃ block ∈ (splitBlocks lines).2, block.2.all (!namesFile ·) = true ∧ q ∈ fallbackNames u block.1

/-- The gate lets no surface pass: it reads no name, a name that escapes, or a symbolic link. -/
def Refused (diffText : String) : Prop :=
  (∀ q, ¬ Named u (Py.splitlines diffText) q) ∨
  (∃ q, Named u (Py.splitlines diffText) q ∧ escapes q = true) ∨ symlinkPaths u diffText ≠ []

theorem splitBlocks_of_block {line : String} (lines : List String)
    (h : startsWith line "diff --git " = true) :
    splitBlocks (line :: lines) = ([], (line, (splitBlocks lines).1) :: (splitBlocks lines).2) := by
  simp only [splitBlocks]
  rw [if_pos h]

theorem splitBlocks_of_inner {line : String} (lines : List String)
    (h : startsWith line "diff --git " = false) :
    splitBlocks (line :: lines) = (line :: (splitBlocks lines).1, (splitBlocks lines).2) := by
  simp only [splitBlocks, h]
  rfl

theorem namesFile_of_block {line : String} (h : startsWith line "diff --git " = true) :
    namesFile line = false := by
  obtain ⟨rest, hrest⟩ := List.isPrefixOf_iff_prefix.mp h
  unfold namesFile startsWith
  rw [← hrest]
  rfl

theorem named_of_block {line : String} {lines : List String} (h : startsWith line "diff --git " = true) :
    Named u (line :: lines) q ↔
      ((splitBlocks lines).1.all (!namesFile ·) = true ∧ q ∈ fallbackNames u line) ∨ Named u lines q := by
  unfold Named
  rw [splitBlocks_of_block lines h]
  simp only [List.mem_cons, exists_eq_or_imp, namesFile_of_block h]
  constructor
  · rintro ((hfile | hfile) | hblock | hblock)
    · exact absurd hfile.1 Bool.false_ne_true
    · exact .inr (.inl hfile)
    · exact .inl hblock
    · exact .inr (.inr hblock)
  · rintro (hblock | hfile | hblock)
    · exact .inr (.inl hblock)
    · exact .inl (.inr hfile)
    · exact .inr (.inr hblock)

theorem named_of_inner {line : String} {lines : List String} (h : startsWith line "diff --git " = false) :
    Named u (line :: lines) q ↔
      (namesFile line = true ∧ headerName u line ≠ "/dev/null" ∧ q = withoutSide (headerName u line)) ∨
        Named u lines q := by
  unfold Named
  rw [splitBlocks_of_inner lines h]
  simp only [List.mem_cons, exists_eq_or_imp, or_assoc]

theorem mem_flush_foldl (lines : List String) (s : Scan) :
    q ∈ (lines.foldl (Scan.line u) s).flush ↔
      q ∈ s.paths ∨
      (s.blockHasHeader = false ∧ (splitBlocks lines).1.all (!namesFile ·) = true ∧ q ∈ s.gitFallback) ∨
      Named u lines q := by
  induction lines generalizing s with
  | nil =>
    unfold Scan.flush Named
    cases hheader : s.blockHasHeader <;> simp [splitBlocks, hheader]
  | cons line lines ih =>
    rw [List.foldl_cons, ih]
    cases hblock : startsWith line "diff --git " with
    | true =>
      rw [named_of_block u hblock, splitBlocks_of_block lines hblock]
      unfold Scan.line Scan.flush
      rw [if_pos hblock]
      cases hheader : s.blockHasHeader <;> simp [or_assoc]
    | false =>
      rw [named_of_inner u hblock, splitBlocks_of_inner lines hblock]
      cases hfile : namesFile line with
      | false =>
        have hkeep : Scan.line u s line = s := by
          unfold Scan.line
          rw [if_neg (by simp [hblock]), if_neg (by simpa [namesFile] using hfile)]
        rw [hkeep]
        simp [hfile]
      | true =>
        unfold Scan.line
        rw [if_neg (by simp [hblock]), if_pos (by simpa [namesFile] using hfile)]
        dsimp only
        by_cases hnull : headerName u line = "/dev/null"
        · rw [if_pos hnull]
          simp [hnull, hfile]
        · rw [if_neg hnull]
          simp [hnull, hfile, or_assoc]

theorem mem_changedPaths {diffText : String} :
    q ∈ changedPaths u diffText ↔ Named u (Py.splitlines diffText) q := by
  refine mem_sortedSet.trans ((mem_flush_foldl u _ _).trans ?_)
  simp

/-! ## What a policy tells apart -/

theorem toList_slashed (p : String) : (slashed p).toList = p.toList.map slash := String.toList_ofList

theorem slash_slash (c : Char) : slash (slash c) = slash c := by
  unfold slash
  by_cases hc : c = '\\'
  · rw [hc]
    rfl
  · simp only [if_neg hc]

theorem slashed_slashed (p : String) : slashed (slashed p) = slashed p := by
  apply String.toList_inj.mp
  rw [toList_slashed, toList_slashed, List.map_map]
  exact List.map_congr_left fun c _ => slash_slash c

theorem slash_eq {c d : Char} (h : slash c = d) (hd : d ≠ '/') : c = d := by
  unfold slash at h
  by_cases hc : c = '\\'
  · rw [if_pos hc] at h
    exact absurd h.symm hd
  · rwa [if_neg hc] at h

theorem hasDrive_cons (c d : Char) (cs : List Char) :
    hasDrive (c :: d :: cs) = (decide (d = ':') && c.isAlpha) := by
  by_cases hd : d = ':'
  · subst hd
    rfl
  · unfold hasDrive
    split
    · rename_i heq
      cases heq
      exact absurd rfl hd
    · simp [hd]

theorem hasDrive_slash (cs : List Char) : hasDrive (cs.map slash) = hasDrive cs := by
  match cs with
  | [] | [_] => rfl
  | c :: d :: cs =>
    rw [List.map_cons, List.map_cons, hasDrive_cons, hasDrive_cons]
    congr 1
    · apply decide_eq_decide.mpr
      constructor
      · exact fun h => slash_eq h (by decide)
      · rintro rfl
        rfl
    · by_cases hc : c = '\\'
      · subst hc
        rfl
      · rw [slash, if_neg hc]

theorem escapes_slashed (p : String) : escapes (slashed p) = escapes p := by
  have habsolute : startsWith p "/" = true → startsWith (slashed p) "/" = true := by
    unfold startsWith
    rw [toList_slashed]
    intro h
    obtain ⟨rest, hrest⟩ := List.isPrefixOf_iff_prefix.mp h
    rw [← hrest]
    rfl
  have hdrive : hasDrive (slashed p).toList = hasDrive p.toList := by
    rw [toList_slashed, hasDrive_slash]
  unfold escapes
  dsimp only
  rw [slashed_slashed, hdrive]
  cases hslash : startsWith (slashed p) "/" with
  | true => simp
  | false =>
    have hfalse : startsWith p "/" = false := by
      cases h : startsWith p "/" with
      | false => rfl
      | true => exact absurd ((habsolute h).symm.trans hslash) (by decide)
    rw [hfalse]

theorem check_congr (policy : SurfacePolicy) (h : slashed p = slashed q) :
    policy.check u p = policy.check u q := by
  have hescapes : escapes p = escapes q := by rw [← escapes_slashed p, h, escapes_slashed]
  unfold SurfacePolicy.check SurfacePolicy.isProtected inSurface ci
  rw [hescapes, h]

def only (q : String) : String := String.ofList (Glob.escape (slashed q).toList)

theorem not_hasText_escape (cs : List Char) : hasText "**/".toList (Glob.escape cs) = false := by
  apply Bool.eq_false_iff.mpr
  intro h
  obtain ⟨t, ht, hbegins⟩ := List.any_eq_true.mp h
  exact Glob.not_prefix_of_suffix_escape ((List.mem_tails _ _).mp ht) (List.isPrefixOf_iff_prefix.mp hbegins)

theorem surfaceMatch_only : surfaceMatch (slashed p) (only q) = true ↔ slashed p = slashed q := by
  have htext := not_hasText_escape (slashed q).toList
  have hbegins : "**/".toList.isPrefixOf (Glob.escape (slashed q).toList) = false := by
    apply Bool.eq_false_iff.mpr
    intro h
    exact Glob.not_prefix_of_suffix_escape List.suffix_rfl (List.isPrefixOf_iff_prefix.mp h)
  unfold surfaceMatch only
  dsimp only
  rw [String.toList_ofList, htext, hbegins]
  simp only [Bool.false_and, Bool.or_false]
  rw [Glob.fnmatch_escape, String.toList_inj]

def onlyThese (paths : List String) : SurfacePolicy := SurfacePolicy.ofLists u (paths.map only) [] [] []

theorem check_onlyThese {paths : List String} :
    (onlyThese u paths).check u p = none ↔ escapes p = false ∧ ∃ q ∈ paths, slashed p = slashed q := by
  have hsurface : inSurface p (paths.map only) [] = true ↔ ∃ q ∈ paths, slashed p = slashed q := by
    unfold inSurface
    simp [List.any_map, surfaceMatch_only]
  unfold SurfacePolicy.check onlyThese SurfacePolicy.ofLists SurfacePolicy.isProtected
  cases hescapes : escapes p with
  | true => simp
  | false =>
    cases hin : inSurface p (paths.map only) [] with
    | true => simp [hin, hsurface.mp hin]
    | false =>
      have hno : ¬ ∃ q ∈ paths, slashed p = slashed q := fun h =>
        absurd ((hsurface.mpr h).symm.trans hin) (by decide)
      simp only [List.map_nil, hin]
      exact iff_of_false (by simp) fun h => hno h.2

theorem applyPatch_ok_iff {diffText : String} {allow protect prefixes exceptions : List String} :
    (∃ g, applyPatch u diffText allow protect prefixes exceptions = .ok g) ↔
      (∃ q, Named u (Py.splitlines diffText) q) ∧
      (∀ q, Named u (Py.splitlines diffText) q →
        (SurfacePolicy.ofLists u allow protect prefixes exceptions).check u q = none) ∧
      symlinkPaths u diffText = [] := by
  simp only [← mem_changedPaths]
  have hok : (gate u diffText allow protect prefixes exceptions).ok = true ↔
      (∃ q, q ∈ changedPaths u diffText) ∧ ∀ q ∈ changedPaths u diffText,
        (SurfacePolicy.ofLists u allow protect prefixes exceptions).check u q = none := by
    unfold gate
    simp only [Bool.and_eq_true, Bool.not_eq_true', List.isEmpty_eq_false_iff_exists_mem,
      List.isEmpty_iff, List.filter_eq_nil_iff, Bool.not_eq_true, Option.isSome_eq_false_iff,
      Option.isNone_iff_eq_none]
  unfold applyPatch
  dsimp only
  cases hgate : (gate u diffText allow protect prefixes exceptions).ok with
  | false =>
    rw [hgate] at hok
    refine iff_of_false ?_ fun h => Bool.false_ne_true (hok.mpr ⟨h.1, h.2.1⟩)
    rintro ⟨g, hg⟩
    cases hg
  | true =>
    obtain ⟨hsome, hall⟩ := hok.mp hgate
    by_cases hlinks : symlinkPaths u diffText = []
    · exact iff_of_true ⟨_, by rw [hlinks]; rfl⟩ ⟨hsome, hall, hlinks⟩
    · refine iff_of_false ?_ fun h => hlinks h.2.2
      rintro ⟨g, hg⟩
      rw [if_neg (by simp), if_neg (by simpa using hlinks)] at hg
      cases hg

/-- For every edit surface, what the gate hands to `git apply` touches editable paths alone and makes no
symbolic link, if and only if no path of the diff is missing from what the gate reads and no line git
reads a link's mode from is there, or the gate lets no surface pass, or git applies nothing. -/
theorem gate_covers_iff (git : GitApply) (diffText : String) :
    (∀ allow protect prefixes exceptions g,
      applyPatch u diffText allow protect prefixes exceptions = .ok g →
      ∀ paths, git.touched diffText = some paths → git.links diffText = false ∧
        ∀ p ∈ paths, (SurfacePolicy.ofLists u allow protect prefixes exceptions).check u p = none) ↔
    (Refused u diffText ∨ ∀ paths, git.touched diffText = some paths → git.links diffText = false ∧
      ∀ p ∈ paths, ∃ q, Named u (Py.splitlines diffText) q ∧ slashed q = slashed p) := by
  constructor
  · intro hcovers
    by_cases hrefused : Refused u diffText
    · exact .inl hrefused
    · refine .inr fun paths hpaths => ?_
      unfold Refused at hrefused
      push Not at hrefused
      obtain ⟨hsome, hescape, hlinks⟩ := hrefused
      -- the surface of what the gate reads passes, and tells every other path apart
      have hok := (applyPatch_ok_iff u).mpr ⟨hsome, fun q hq => (check_onlyThese u).mpr
        ⟨Bool.eq_false_iff.mpr (hescape q hq), q, (mem_changedPaths u).mpr hq, rfl⟩, hlinks⟩
      obtain ⟨g, hg⟩ := hok
      obtain ⟨hnolink, hcheck⟩ := hcovers _ _ _ _ g hg paths hpaths
      refine ⟨hnolink, fun p hp => ?_⟩
      obtain ⟨-, q, hq, heq⟩ := (check_onlyThese u).mp (hcheck p hp)
      exact ⟨q, (mem_changedPaths u).mp hq, heq.symm⟩
  · intro hcondition allow protect prefixes exceptions g hg paths hpaths
    obtain ⟨⟨q₀, hq₀⟩, hcheck, hlinks⟩ := (applyPatch_ok_iff u).mp ⟨g, hg⟩
    rcases hcondition with (hnone | ⟨q, hq, hescapes⟩ | hlink) | hcovered
    · exact absurd hq₀ (hnone q₀)
    · have hnull := hcheck q hq
      unfold SurfacePolicy.check at hnull
      rw [if_pos hescapes] at hnull
      cases hnull
    · exact absurd hlinks hlink
    · obtain ⟨hnolink, hnamed⟩ := hcovered paths hpaths
      refine ⟨hnolink, fun p hp => ?_⟩
      obtain ⟨q, hq, heq⟩ := hnamed p hp
      rw [← check_congr u _ heq]
      exact hcheck q hq

/-- What git writes about a grader under a prefix of its own. -/
def prefixed : String :=
  "diff --git x/grader.py x/grader.py\n--- x/grader.py\n+++ x/grader.py\n@@ -1 +1 @@\n-0\n+1\n"

/-- `git apply`, as it reads names that are neither quoted nor followed by a tab. -/
def plainGit : GitApply where
  written := id
  moved := id
  pair line := match wordsOf line with
    | [_, _, a, b] => some (a, b)
    | _ => none
  linkMode line := symlinkModeLine line
  applies _ := true

/-- A diff with a prefix of its own changes a protected grader that the gate has not seen. -/
theorem gate_covers_prefixed : ∃ g paths,
    applyPatch {} prefixed ["**/*.py"] ["grader.py"] [] [] = .ok g ∧
      plainGit.touched prefixed = some paths ∧ "grader.py" ∈ paths ∧
      (SurfacePolicy.ofLists {} ["**/*.py"] ["grader.py"] [] []).check {} "grader.py" ≠ none := by
  have hpaths : plainGit.touched prefixed = some ["grader.py", "grader.py"] := by decide +kernel
  have hok : (applyPatch {} prefixed ["**/*.py"] ["grader.py"] [] []).isOk = true := by decide +kernel
  cases hg : applyPatch {} prefixed ["**/*.py"] ["grader.py"] [] [] with
  | error refusal =>
    rw [hg] at hok
    cases hok
  | ok g => exact ⟨g, _, rfl, hpaths, by decide, by decide +kernel⟩

end Gate

end LoopLab.Tools
