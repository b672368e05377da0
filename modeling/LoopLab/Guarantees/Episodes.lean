import LoopLab.Lib.Paging
import LoopLab.Trace.Bands

/-!
# Paging the episode map

A page ends before the first band that answers to its cursor.
-/

set_option autoImplicit false

namespace LoopLab.Trace
open LoopLab.Lib Redact

/-- Redaction on plain text without secrets or cut texts. -/
def plainEnv : TextEnv where
  nfkc := id
  control := fun ch => ch.toNat < 32 || ch.toNat = 127
  word := fun ch => isAlnum ch || Redact.among ['_'] ch
  lower := fun cs => cs.map Py.lowerChar
  sha256 := fun _ => []
  entropic := fun _ => false
  secrets := []
  render := fun _ => ""

section Walks
variable (env : TextEnv) (stages : List Episode) (cap : Nat)

/-- The pages from a cursor back to the first band, under one snapshot. -/
inductive OlderPages (snapshot : Option String) : String → List EpisodePage → Prop
  | last {before : String} {page : EpisodePage} (h : episodesPage env stages cap (some before) snapshot = some page)
    (hnext : page.nextBefore = none) : OlderPages snapshot before [page]
  | older {before cursor : String} {page : EpisodePage} {pages : List EpisodePage}
    (h : episodesPage env stages cap (some before) snapshot = some page) (hnext : page.nextBefore = some cursor)
    (rest : OlderPages snapshot cursor pages) : OlderPages snapshot before (page :: pages)

/-- The walk of a reader: the newest page, and the older ones under its snapshot as long as there is a
cursor. -/
def MapWalk (pages : List EpisodePage) : Prop :=
  ∃ first, episodesPage env stages cap none none = some first ∧
    match first.nextBefore with
    | none => pages = [first]
    | some cursor => ∃ older, pages = first :: older ∧ OlderPages env stages cap first.snapshot cursor older

/-- Every band at its place on exactly one page, in order. -/
def ShowsOnce (pages : List EpisodePage) : Prop :=
  (pages.reverse.flatMap fun page => List.range' page.olderEpisodes page.episodes.length) = List.range stages.length ∧
    pages.reverse.flatMap (·.episodes) = stages

/-- The page before the id of the band at a place ends at that band. -/
def OpensOwnPage (bounded : List Episode) (i : Nat) : Prop :=
  ∃ stage, stages[i]? = some stage ∧ pageEnd env bounded (some stage.band) = some i

/-- If there is more than one page, the snapshot is known, and among the bands it keeps every band that opens
a page but the oldest is the first that answers to its id. -/
def MapClear : Prop :=
  cap < stages.length → ∃ bounded,
    (snapshotStages env stages (stages.getLast?.bind cursorOf)).map Prod.fst = some bounded ∧
      ∀ k, 0 < k → k * cap < stages.length → OpensOwnPage env stages bounded (stages.length - k * cap)

end Walks

section Pages
variable {env : TextEnv} {stages bounded : List Episode} {cap : Nat} {snapshot : Option String}

def pageOf (bounded : List Episode) (snapshot : Option String) (p : Nat × Nat) : EpisodePage :=
  { episodes := (bounded.take p.2).drop p.1
    snapshot
    nextBefore := if 0 < p.1 then (((bounded.take p.2).drop p.1).head?.bind cursorOf).filter (· ≠ "") else none
    olderEpisodes := p.1
    newerEpisodes := bounded.length - p.2
    totalEpisodes := bounded.length }

theorem episodesPage_eq {before snap : Option String} {e : Nat} (hsnap : snapshotStages env stages snap = some (bounded, snapshot))
    (hend : pageEnd env bounded before = some e) :
    episodesPage env stages cap before snap = some (pageOf bounded snapshot (e - cap, e)) := by
  unfold episodesPage
  rw [hsnap]
  dsimp only [Option.bind_eq_bind, Option.bind_some]
  rw [hend]
  rfl

theorem of_episodesPage {before snap : Option String} {page : EpisodePage} (h : episodesPage env stages cap before snap = some page) :
    ∃ bounded snapshot e, snapshotStages env stages snap = some (bounded, snapshot) ∧ pageEnd env bounded before = some e ∧
      page = pageOf bounded snapshot (e - cap, e) := by
  unfold episodesPage at h
  obtain ⟨⟨bounded, snapshot⟩, hsnap, h⟩ := Option.bind_eq_some_iff.mp h
  dsimp only at h
  obtain ⟨e, hend, h⟩ := Option.bind_eq_some_iff.mp h
  exact ⟨bounded, snapshot, e, hsnap, hend, (Option.some.inj h).symm⟩

theorem snapshotStages_none : snapshotStages env stages none = some (stages, stages.getLast?.bind cursorOf) := rfl

theorem pageEnd_none : pageEnd env bounded none = some bounded.length := rfl

theorem snapshotStages_take {snap : Option String} (h : snapshotStages env stages snap = some (bounded, snapshot)) :
    ∃ m, m ≤ stages.length ∧ bounded = stages.take m := by
  unfold snapshotStages at h
  split at h
  · cases h
  · split at h
    · next cursor _ =>
      obtain ⟨i, hi, h⟩ := Option.map_eq_some_iff.mp h
      obtain ⟨rfl, -⟩ := Prod.mk.inj h
      obtain ⟨hlt, -⟩ := List.findIdx?_eq_some_iff_getElem.mp hi
      exact ⟨i + 1, hlt, rfl⟩
    · obtain ⟨rfl, -⟩ := Prod.mk.inj (Option.some.inj h)
      exact ⟨stages.length, le_rfl, (List.take_length).symm⟩

theorem pageEnd_le {before : Option String} {e : Nat} (h : pageEnd env bounded before = some e) : e ≤ bounded.length := by
  unfold pageEnd at h
  split at h
  · cases h
  · split at h
    · obtain ⟨hlt, -⟩ := List.findIdx?_eq_some_iff_getElem.mp h
      exact Nat.le_of_lt hlt
    · exact Nat.le_of_eq (Option.some.inj h).symm

def stopOf (env : TextEnv) (stages bounded : List Episode) (s : Nat) : Option Nat :=
  (stages[s]?).bind fun stage => pageEnd env bounded (some stage.band)

theorem opensOwnPage_iff {i : Nat} : OpensOwnPage env stages bounded i ↔ stopOf env stages bounded i = some i :=
  Option.bind_eq_some_iff.symm

theorem nextBefore_pageOf (hnames : ∀ stage ∈ bounded, stage.band ≠ "") (hcap : 0 < cap) {e : Nat} (he : e ≤ bounded.length)
    (hlt : cap < e) :
    ∃ stage, bounded[e - cap]? = some stage ∧ (pageOf bounded snapshot (e - cap, e)).nextBefore = some stage.band := by
  have hplace : e - cap < bounded.length := by omega
  have hnamed : (bounded[e - cap]).band ≠ "" := hnames _ (List.getElem_mem hplace)
  have hhead : ((bounded.take e).drop (e - cap)).head? = some bounded[e - cap] := by
    rw [List.head?_drop, List.getElem?_take_of_lt (by omega), List.getElem?_eq_getElem hplace]
  refine ⟨bounded[e - cap], List.getElem?_eq_getElem hplace, ?_⟩
  have hopen : 0 < e - cap := by omega
  unfold pageOf
  dsimp only
  rw [if_pos hopen, hhead, Option.bind_some]
  unfold cursorOf
  rw [if_pos hnamed]
  simp [hnamed]

theorem nextBefore_oldest {e : Nat} (hle : e ≤ cap) : (pageOf bounded snapshot (e - cap, e)).nextBefore = none := by
  have hzero : ¬ 0 < e - cap := by omega
  unfold pageOf
  exact if_neg hzero

theorem getElem?_of_snapshot {snap : Option String} (h : snapshotStages env stages snap = some (bounded, snapshot)) {i : Nat}
    {stage : Episode} (hi : bounded[i]? = some stage) : stages[i]? = some stage := by
  obtain ⟨m, -, rfl⟩ := snapshotStages_take h
  rw [List.getElem?_take] at hi
  split at hi
  · exact hi
  · cases hi

theorem OlderPages.walk (hnames : ∀ stage ∈ bounded, stage.band ≠ "") (hcap : 0 < cap) {snap : Option String}
    (hsnap : snapshotStages env stages snap = some (bounded, snapshot)) {before : String} {pages : List EpisodePage}
    (h : OlderPages env stages cap snap before pages) :
    ∃ e ps, pageEnd env bounded (some before) = some e ∧ Lib.Walk cap (stopOf env stages bounded) e ps ∧
      pages = ps.map (pageOf bounded snapshot) := by
  induction h with
  | @last before page h hnext =>
    obtain ⟨_, _, e, hsame, hend, rfl⟩ := of_episodesPage h
    rw [hsnap] at hsame
    obtain ⟨rfl, rfl⟩ := Prod.mk.inj (Option.some.inj hsame)
    have hle : e ≤ cap := by
      by_contra hlt
      obtain ⟨stage, -, hcursor⟩ := nextBefore_pageOf hnames hcap (pageEnd_le hend) (Nat.lt_of_not_le hlt)
      rw [hcursor] at hnext
      cases hnext
    have hzero : e - cap = 0 := by omega
    exact ⟨e, [(0, e)], hend, .last hle, by rw [hzero]; rfl⟩
  | @older before cursor page pages h hnext rest ih =>
    obtain ⟨_, _, e, hsame, hend, rfl⟩ := of_episodesPage h
    rw [hsnap] at hsame
    obtain ⟨rfl, rfl⟩ := Prod.mk.inj (Option.some.inj hsame)
    obtain ⟨e', ps, hend', hwalk, rfl⟩ := ih
    rcases Nat.lt_or_ge cap e with hlt | hle
    · obtain ⟨stage, hstage, hcursor⟩ := nextBefore_pageOf hnames hcap (pageEnd_le hend) hlt
      rw [hcursor] at hnext
      obtain rfl := Option.some.inj hnext
      refine ⟨e, (e - cap, e) :: ps, hend, .older hlt ?_ hwalk, rfl⟩
      unfold stopOf
      rw [getElem?_of_snapshot hsnap hstage]
      exact hend'
    · rw [nextBefore_oldest hle] at hnext
      cases hnext

theorem walk_olderPages (hnames : ∀ stage ∈ bounded, stage.band ≠ "") (hcap : 0 < cap) {snap : Option String}
    (hsnap : snapshotStages env stages snap = some (bounded, snapshot)) {e : Nat} {ps : List (Nat × Nat)}
    (h : Lib.Walk cap (stopOf env stages bounded) e ps) :
    ∀ before, pageEnd env bounded (some before) = some e →
      OlderPages env stages cap snap before (ps.map (pageOf bounded snapshot)) := by
  induction h with
  | @last e hle =>
    intro before hend
    have hzero : e - cap = 0 := by omega
    have hpage := @episodesPage_eq _ _ _ cap _ _ _ _ hsnap hend
    have hnext := @nextBefore_oldest bounded _ snapshot _ hle
    rw [hzero] at hpage hnext
    exact .last hpage hnext
  | @older e e' ps hlt hstop rest ih =>
    intro before hend
    obtain ⟨stage, hstage, hcursor⟩ := nextBefore_pageOf hnames hcap (pageEnd_le hend) hlt
    unfold stopOf at hstop
    rw [getElem?_of_snapshot hsnap hstage] at hstop
    exact .older (episodesPage_eq hsnap hend) hcursor (ih _ hstop)

theorem length_episodes {p : Nat × Nat} (h : p.2 ≤ bounded.length) :
    (pageOf bounded snapshot p).episodes.length = p.2 - p.1 := by
  show ((bounded.take p.2).drop p.1).length = p.2 - p.1
  rw [List.length_drop, List.length_take, Nat.min_eq_left h]

theorem shows_pages {m : Nat} {first : Option String} {ps : List (Nat × Nat)} (hm : m ≤ stages.length)
    (hends : ∀ p ∈ ps, p.1 ≤ p.2 ∧ p.2 ≤ m) {p : Nat × Nat} (hp : p.2 ≤ stages.length) :
    let pages := pageOf stages first p :: ps.map (pageOf (stages.take m) snapshot)
    (pages.reverse.flatMap fun page => List.range' page.olderEpisodes page.episodes.length) = positions (p :: ps) ∧
      pages.reverse.flatMap (·.episodes) = shown stages (p :: ps) := by
  have hlength : (stages.take m).length = m := by rw [List.length_take, Nat.min_eq_left hm]
  dsimp only
  constructor
  · unfold positions
    rw [List.reverse_cons, List.reverse_cons, List.flatMap_append, List.flatMap_append, ← List.map_reverse, List.flatMap_map]
    congr 1
    · apply List.flatMap_congr
      intro q hq
      have hq' := (hends q (List.mem_reverse.mp hq)).2
      rw [length_episodes (by rw [hlength]; exact hq')]
      rfl
    · simp only [List.flatMap_cons, List.flatMap_nil, List.append_nil]
      rw [length_episodes hp]
      rfl
  · unfold shown
    rw [List.reverse_cons, List.reverse_cons, List.flatMap_append, List.flatMap_append, ← List.map_reverse, List.flatMap_map]
    congr 1
    apply List.flatMap_congr
    intro q hq
    show ((stages.take m).take q.2).drop q.1 = (stages.take q.2).drop q.1
    rw [List.take_take, Nat.min_eq_left (hends q (List.mem_reverse.mp hq)).2]

theorem first_page : episodesPage env stages cap none none =
    some (pageOf stages (stages.getLast?.bind cursorOf) (stages.length - cap, stages.length)) :=
  episodesPage_eq snapshotStages_none pageEnd_none

theorem stopOf_le {m s e : Nat} (hm : m ≤ stages.length) (h : stopOf env stages (stages.take m) s = some e) : e ≤ m := by
  obtain ⟨stage, -, hend⟩ := Option.bind_eq_some_iff.mp h
  have := pageEnd_le hend
  rwa [List.length_take, Nat.min_eq_left hm] at this

theorem MapWalk.clear (hnames : ∀ stage ∈ stages, stage.band ≠ "") (hcap : 0 < cap) (hlt : cap < stages.length)
    {pages : List EpisodePage} (h : MapWalk env stages cap pages) (hall : ShowsOnce stages pages) :
    ∃ bounded, (snapshotStages env stages (stages.getLast?.bind cursorOf)).map Prod.fst = some bounded ∧
      ∀ k, 0 < k → k * cap < stages.length → OpensOwnPage env stages bounded (stages.length - k * cap) := by
  obtain ⟨opens, hopens, hcursor⟩ := nextBefore_pageOf hnames hcap le_rfl hlt
  obtain ⟨first, hpage, hrest⟩ := h
  rw [first_page] at hpage
  obtain rfl := Option.some.inj hpage
  rw [hcursor] at hrest
  obtain ⟨older, rfl, holder⟩ := hrest
  have hsome : ∃ bounded snapshot, snapshotStages env stages (stages.getLast?.bind cursorOf) = some (bounded, snapshot) := by
    cases holder with
    | last h _ | older h _ _ =>
      obtain ⟨bounded, snapshot, _, hsnap, -⟩ := of_episodesPage h
      exact ⟨bounded, snapshot, hsnap⟩
  obtain ⟨bounded, snapshot, hsnap⟩ := hsome
  obtain ⟨m, hm, rfl⟩ := snapshotStages_take hsnap
  have hnamed : ∀ stage ∈ stages.take m, stage.band ≠ "" := fun stage hstage => hnames stage (List.mem_of_mem_take hstage)
  obtain ⟨e, ps, hend, hwalk, rfl⟩ := holder.walk hnamed hcap hsnap
  have he : e ≤ m := by
    have := pageEnd_le hend
    rwa [List.length_take, Nat.min_eq_left hm] at this
  have hplaces := hall.1
  rw [(shows_pages hm (hwalk.ends he fun _ _ => stopOf_le hm) le_rfl).1] at hplaces
  have hstep : stopOf env stages (stages.take m) (stages.length - cap) = some e := by
    unfold stopOf
    rw [hopens]
    exact hend
  refine ⟨stages.take m, by rw [hsnap]; rfl, fun k hk hklt => opensOwnPage_iff.mpr ?_⟩
  exact (Lib.Walk.older hlt hstep hwalk).resolved hcap hplaces k hk hklt

theorem MapClear.walk (hnames : ∀ stage ∈ stages, stage.band ≠ "") (hcap : 0 < cap) (hlt : cap < stages.length)
    (h : MapClear env stages cap) : ∃ pages, MapWalk env stages cap pages ∧ ShowsOnce stages pages := by
  obtain ⟨opens, hopens, hcursor⟩ := nextBefore_pageOf hnames hcap le_rfl hlt
  obtain ⟨bounded, hbounded, hown⟩ := h hlt
  obtain ⟨⟨_, snapshot⟩, hsnap, rfl⟩ := Option.map_eq_some_iff.mp hbounded
  dsimp only at hsnap hown
  obtain ⟨m, hm, rfl⟩ := snapshotStages_take hsnap
  obtain ⟨ps, hwalk, hplaces⟩ := Lib.Walk.exists_of_resolved hcap stages.length fun k hk hklt => opensOwnPage_iff.mp (hown k hk hklt)
  cases hwalk with
  | last hle => omega
  | @older _ e ps _ hstep rest =>
    have hstop := hstep
    unfold stopOf at hstop
    rw [hopens, Option.bind_some] at hstop
    have hnamed : ∀ stage ∈ stages.take m, stage.band ≠ "" := fun stage hstage => hnames stage (List.mem_of_mem_take hstage)
    obtain ⟨hshown, hbands⟩ := shows_pages hm
      (rest.ends (stopOf_le hm hstep) fun _ _ => stopOf_le hm) (p := (stages.length - cap, stages.length)) le_rfl
    refine ⟨_, ⟨_, first_page, ?_⟩, hshown.trans hplaces, hbands.trans (shown_all stages hplaces)⟩
    rw [hcursor]
    exact ⟨_, rfl, walk_olderPages hnamed hcap hsnap rest _ hstop⟩

theorem mapWalk_iff (hnames : ∀ stage ∈ stages, stage.band ≠ "") (hcap : 0 < cap) :
    (∃ pages, MapWalk env stages cap pages ∧ ShowsOnce stages pages) ↔ MapClear env stages cap := by
  rcases Nat.lt_or_ge cap stages.length with hlt | hle
  · constructor
    · rintro ⟨pages, hwalk, hall⟩ _
      exact hwalk.clear hnames hcap hlt hall
    · exact MapClear.walk hnames hcap hlt
  · constructor
    · intro _ hlt
      omega
    · intro _
      have hplaces : positions [(stages.length - cap, stages.length)] = List.range stages.length := by
        rw [Nat.sub_eq_zero_of_le hle, Lib.Walk.positions_cons, List.range_eq_range']
        rfl
      obtain ⟨hshown, hbands⟩ := @shows_pages _ none _ (stages.getLast?.bind cursorOf) [] le_rfl
        (fun _ h => absurd h List.not_mem_nil) (stages.length - cap, stages.length) le_rfl
      refine ⟨_, ⟨_, first_page, ?_⟩, hshown.trans hplaces, hbands.trans (shown_all stages hplaces)⟩
      rw [nextBefore_oldest hle]
      rfl

end Pages

/-- Over the bands of any rows, there is a walk that ends and shows every band once just if every band that
opens a page is the first that answers to its id. -/
theorem episode_map_walk (env : TextEnv) (rows : List Obj) (nodeId : String) {cap : Nat} (hcap : 0 < cap) :
    (∃ pages, MapWalk env (nodeBands env rows nodeId) cap pages ∧ ShowsOnce (nodeBands env rows nodeId) pages) ↔
      MapClear env (nodeBands env rows nodeId) cap :=
  mapWalk_iff (nodeBands_named rows nodeId) hcap

/-- One turn of a phase whose operation is not on record yet. -/
def liveTurn (trace span phase : String) (start : Int) : Obj :=
  [("trace_id", .str trace), ("span_id", .str span), ("parent_id", .str "open"), ("name", .str "generation"),
    ("kind", .str "generation"), ("start", .int start), ("attributes", .obj [("node_id", .int 1), ("phase", .str phase)])]

def twoPhases : List Obj := [liveTurn "first" "a" "propose" 1, liveTurn "second" "b" "implement" 2]

theorem episode_map_walk_two_phases :
    ∃ pages, MapWalk plainEnv (nodeBands plainEnv twoPhases "1") 1 pages ∧ ShowsOnce (nodeBands plainEnv twoPhases "1") pages := by
  refine (episode_map_walk plainEnv twoPhases "1" Nat.one_pos).mpr fun _ => ?_
  have hlength : (nodeBands plainEnv twoPhases "1").length = 2 := by decide +kernel
  have hsnap : ((snapshotStages plainEnv (nodeBands plainEnv twoPhases "1")
      ((nodeBands plainEnv twoPhases "1").getLast?.bind cursorOf)).bind fun b =>
        stopOf plainEnv (nodeBands plainEnv twoPhases "1") b.1 1) = some 1 := by decide +kernel
  obtain ⟨⟨bounded, snapshot⟩, hbounded, hstop⟩ := Option.bind_eq_some_iff.mp hsnap
  refine ⟨bounded, by rw [hbounded]; rfl, fun k hk hlt => ?_⟩
  have hone : k = 1 := by omega
  rw [hone, hlength]
  exact opensOwnPage_iff.mpr hstop

/-- The same phase in two traces: both bands have one id, and the older band is on no page. -/
def samePhase : List Obj := [liveTurn "first" "a" "propose" 1, liveTurn "second" "b" "propose" 2]

theorem same_phase_lost :
    ¬ ∃ pages, MapWalk plainEnv (nodeBands plainEnv samePhase "1") 1 pages ∧ ShowsOnce (nodeBands plainEnv samePhase "1") pages := by
  rw [mapWalk_iff (nodeBands_named samePhase "1") Nat.one_pos]
  intro hclear
  have hlength : (nodeBands plainEnv samePhase "1").length = 2 := by decide +kernel
  have hsnap : ((snapshotStages plainEnv (nodeBands plainEnv samePhase "1")
      ((nodeBands plainEnv samePhase "1").getLast?.bind cursorOf)).bind fun b =>
        stopOf plainEnv (nodeBands plainEnv samePhase "1") b.1 1) = some 0 := by decide +kernel
  obtain ⟨bounded, hbounded, hown⟩ := hclear (by omega)
  obtain ⟨⟨_, snapshot⟩, hstages, rfl⟩ := Option.map_eq_some_iff.mp hbounded
  rw [hstages, Option.bind_some] at hsnap
  have hopen := opensOwnPage_iff.mp (hown 1 Nat.one_pos (by omega))
  rw [hlength] at hopen
  cases hsnap.symm.trans hopen

end LoopLab.Trace
