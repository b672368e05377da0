import LoopLab.Guarantees.QueueRows

/-!
# A build request is paid for once and closed for the reason that is true

The service lets a result go ahead of some of its closes. Where other writers win every try of such a close, the
request is left open with a receipt nobody in the process answers for, and the next turn takes it for a dead
process's, or buys the build again.
-/

set_option autoImplicit false

namespace LoopLab.Engine.Speculation
open Lib

/-! ## The invariant -/

/-- What the queue, the process at work and the positions started say of each other; `before` has the
receipts the process found. -/
structure Orderly (b : Builds) (shop : Workshop) (starts before : List Nat) : Prop where
  once : starts.Nodup
  receipts : b.attempts.map BuildAttempt.index = starts
  placed : ∀ a ∈ b.attempts, b.requests[a.index]? = some a.toBuildRequest
  unique : ∀ {p q key key'}, IsOpen b p key → IsOpen b q key' → key.cardId = key'.cardId → p = q
  found : ∀ p ∈ before, p ∈ starts
  running : ∀ key producer, shop.inflight.get key = some producer → b.requests[producer.position]? = some key ∧
    producer.position ∈ starts ∧ producer.position ∉ before ∧ producer.position ∉ shop.ended.map Prod.fst ∧
    (producer.cancelled = false → IsOpen b producer.position key)
  finished : ∀ key result, shop.builds.get key = some result → shop.inflight.get key = none ∧
    ∃ p, IsOpen b p key ∧ p ∉ before ∧ ((result.position = p ∧ (p, result.success) ∈ shop.ended) ∨
      (result.success = true ∧ p ∉ starts))
  kept : ∀ key result, shop.reusable.get key = some result → result.success = true
  endedOnce : (shop.ended.map Prod.fst).Nodup
  endedHere : ∀ e ∈ shop.ended, e.1 ∈ starts ∧ e.1 ∉ before
  idle : ∀ p key, IsOpen b p key → p ∈ before → shop.inflight.get key = none
  backed : ∀ p key, IsOpen b p key → p ∈ starts →
    (∃ producer, shop.inflight.get key = some producer ∧ producer.position = p ∧ producer.cancelled = false) ∨
      (shop.builds.get key).isSome = true ∨ shop.ceilingHeld = true ∨ (p ∈ before ∧ p ∉ shop.met)

namespace Orderly
variable {b b' : Builds} {shop shop' : Workshop} {starts before : List Nat} {key : BuildRequest} {p : Nat}

theorem started_placed (h : Orderly b shop starts before) (hp : p ∈ starts) : p < b.requests.length := by
  rw [← h.receipts] at hp
  obtain ⟨a, ha, rfl⟩ := List.mem_map.mp hp
  exact (List.getElem?_eq_some_iff.mp (h.placed a ha)).1

theorem not_found_of_finished (h : Orderly b shop starts before) (hopen : IsOpen b p key) {result : Finished}
    (hget : shop.builds.get key = some result) : p ∉ before := by
  obtain ⟨-, q, hq, hbefore, -⟩ := h.finished key result hget
  rw [h.unique hopen hq rfl]
  exact hbefore

theorem nobody_of_found (h : Orderly b shop starts before) (hopen : IsOpen b p key) (hp : p ∈ before) :
    shop.inflight.get key = none ∧ shop.builds.get key = none := by
  refine ⟨h.idle p key hopen hp, ?_⟩
  cases hget : shop.builds.get key with
  | none => rfl
  | some result => exact absurd hp (h.not_found_of_finished hopen hget)

theorem found_of_orphan (h : Orderly b shop starts before) (hopen : IsOpen b p key) (hp : p ∈ starts)
    (hinflight : shop.inflight.get key = none) (hbuilds : shop.builds.get key = none)
    (hheld : shop.ceilingHeld = false) : p ∈ before ∧ p ∉ shop.met := by
  rcases h.backed p key hopen hp with ⟨producer, hget, -⟩ | hsome | hceiling | hfound
  · rw [hinflight] at hget
    cases hget
  · rw [hbuilds] at hsome
    cases hsome
  · rw [hheld] at hceiling
    cases hceiling
  · exact hfound

theorem meet (h : Orderly b shop starts before)
    (hp : ∀ key, IsOpen b p key → p ∈ before → shop.ceilingHeld = true) :
    Orderly b { shop with met := shop.met ++ [p] } starts before where
  __ := h
  backed := by
    intro q key hopen hq
    rcases h.backed q key hopen hq with hproducer | hbuild | hheld | ⟨hbefore, hmet⟩
    · exact .inl hproducer
    · exact .inr (.inl hbuild)
    · exact .inr (.inr (.inl hheld))
    · by_cases hpq : q = p
      · subst hpq
        exact .inr (.inr (.inl (hp key hopen hbefore)))
      · refine .inr (.inr (.inr ⟨hbefore, fun hmem => ?_⟩))
        rcases List.mem_append.mp hmem with hmem | hmem
        · exact hmet hmem
        · exact hpq (List.mem_singleton.mp hmem)

/-! ### A close -/

structure Closed (b b' : Builds) (p : Nat) : Prop where
  requests : b'.requests = b.requests
  attempts : b'.attempts = b.attempts
  closed : ∀ q, b'.window.IsClosed q ↔ b.window.IsClosed q ∨ q = p

theorem Closed.open_iff (h : Closed b b' p) {q : Nat} : IsOpen b' q key ↔ IsOpen b q key ∧ q ≠ p := by
  unfold IsOpen
  rw [h.requests, h.closed, not_or, and_assoc]

structure Released (key : BuildRequest) (shop shop' : Workshop) : Prop where
  others : ∀ k, k ≠ key → shop'.inflight.get k = shop.inflight.get k
  stopped : ∀ producer', shop'.inflight.get key = some producer' →
    ∃ producer, shop.inflight.get key = some producer ∧ producer'.position = producer.position ∧
      producer'.cancelled = true
  builds : ∀ k, shop'.builds.get k = if k = key then none else shop.builds.get k
  kept : ∀ k result, shop'.reusable.get k = some result → result.success = true
  ended : shop'.ended = shop.ended
  met : shop'.met = shop.met
  held : shop'.ceilingHeld = shop.ceilingHeld

theorem close (h : Orderly b shop starts before) (hopen : IsOpen b p key) (hclosed : Closed b b' p)
    (hreleased : Released key shop shop') : Orderly b' shop' starts before where
  once := h.once
  receipts := by
    rw [hclosed.attempts]
    exact h.receipts
  placed := by
    rw [hclosed.attempts, hclosed.requests]
    exact h.placed
  unique hp hq := h.unique (hclosed.open_iff.mp hp).1 (hclosed.open_iff.mp hq).1
  found := h.found
  running := by
    intro k producer' hget
    rw [hclosed.requests, hreleased.ended]
    by_cases hk : k = key
    · subst hk
      obtain ⟨producer, hold, hposition, hcancelled⟩ := hreleased.stopped producer' hget
      obtain ⟨hreq, hstart, hbefore, hended, -⟩ := h.running k producer hold
      rw [hposition]
      refine ⟨hreq, hstart, hbefore, hended, fun hlive => ?_⟩
      rw [hcancelled] at hlive
      cases hlive
    · rw [hreleased.others k hk] at hget
      obtain ⟨hreq, hstart, hbefore, hended, hlive⟩ := h.running k producer' hget
      refine ⟨hreq, hstart, hbefore, hended, fun hcancelled => ?_⟩
      refine hclosed.open_iff.mpr ⟨hlive hcancelled, fun hp => hk ?_⟩
      rw [hp, hopen.1] at hreq
      exact (Option.some.inj hreq).symm
  finished := by
    intro k result hget
    rw [hreleased.builds] at hget
    split at hget
    · cases hget
    · rename_i hk
      obtain ⟨hinflight, q, hq, hbefore, hwhere⟩ := h.finished k result hget
      rw [hreleased.others k hk, hreleased.ended]
      refine ⟨hinflight, q, hclosed.open_iff.mpr ⟨hq, fun hqp => hk ?_⟩, hbefore, hwhere⟩
      have hreq := hq.1
      rw [hqp, hopen.1] at hreq
      exact (Option.some.inj hreq).symm
  kept := hreleased.kept
  endedOnce := by
    rw [hreleased.ended]
    exact h.endedOnce
  endedHere := by
    rw [hreleased.ended]
    exact h.endedHere
  idle := by
    intro q k hq hbefore
    obtain ⟨hq, hne⟩ := hclosed.open_iff.mp hq
    have hk : k ≠ key := by
      rintro rfl
      exact hne (h.unique hq hopen rfl)
    rw [hreleased.others k hk]
    exact h.idle q k hq hbefore
  backed := by
    intro q k hq hstart
    obtain ⟨hq, hne⟩ := hclosed.open_iff.mp hq
    have hk : k ≠ key := by
      rintro rfl
      exact hne (h.unique hq hopen rfl)
    rw [hreleased.others k hk, hreleased.builds, if_neg hk, hreleased.held, hreleased.met]
    exact h.backed q k hq hstart

theorem letGo (h : Orderly b shop starts before) (hopen : IsOpen b p key)
    (hback : (shop.inflight.get key).isSome = true ∨ shop.ceilingHeld = true ∨ p ∉ starts) :
    Orderly b (dropResult key shop) starts before where
  __ := h
  finished := by
    intro k result hget
    unfold dropResult at hget
    rw [Dict.get_erase] at hget
    split at hget
    · cases hget
    · exact h.finished k result hget
  backed := by
    intro q k hq hstart
    by_cases hk : k = key
    · subst hk
      have hqp := h.unique hq hopen rfl
      subst hqp
      rcases hback with hsome | hheld | hnever
      · rcases h.backed q k hq hstart with hproducer | hbuild | hheld | ⟨hbefore, -⟩
        · exact .inl hproducer
        · obtain ⟨result, hget⟩ := Option.isSome_iff_exists.mp hbuild
          rw [(h.finished k result hget).1] at hsome
          cases hsome
        · exact .inr (.inr (.inl hheld))
        · rw [h.idle q k hq hbefore] at hsome
          cases hsome
      · exact .inr (.inr (.inl hheld))
      · exact absurd hstart hnever
    · unfold dropResult
      dsimp only
      rw [Dict.get_erase, if_neg hk]
      exact h.backed q k hq hstart

/-! ### The other steps of the engine -/

theorem request (h : Orderly b shop starts before) (hcard : ∀ q k, IsOpen b q k → k.cardId ≠ key.cardId)
    (hnew : ¬ b.window.IsClosed b.requests.length) :
    Orderly { b with requests := b.requests ++ [key] } shop starts before := by
  have hopen_iff {q : Nat} {k : BuildRequest} : IsOpen { b with requests := b.requests ++ [key] } q k ↔
      IsOpen b q k ∨ (q = b.requests.length ∧ k = key) := by
    unfold IsOpen
    dsimp only
    constructor
    · rintro ⟨hget, hopen⟩
      rcases Nat.lt_or_ge q b.requests.length with hlt | hge
      · rw [List.getElem?_append_left hlt] at hget
        exact .inl ⟨hget, hopen⟩
      · have hq : q = b.requests.length := by
          have hlen := (List.getElem?_eq_some_iff.mp hget).1
          rw [List.length_append, List.length_singleton] at hlen
          omega
        subst hq
        rw [List.getElem?_append_right (Nat.le_refl _), Nat.sub_self] at hget
        exact .inr ⟨rfl, (Option.some.inj hget).symm⟩
    · rintro (⟨hget, hopen⟩ | ⟨rfl, rfl⟩)
      · exact ⟨by rw [List.getElem?_append_left (List.getElem?_eq_some_iff.mp hget).1]; exact hget, hopen⟩
      · exact ⟨by simp, hnew⟩
  have hold {q : Nat} (hq : q ∈ starts) : q ≠ b.requests.length := Nat.ne_of_lt (h.started_placed hq)
  exact {
    once := h.once
    receipts := h.receipts
    placed := by
      intro a ha
      have hget := h.placed a ha
      dsimp only
      rw [List.getElem?_append_left (List.getElem?_eq_some_iff.mp hget).1]
      exact hget
    unique := by
      intro p q k k' hp hq hsame
      rcases hopen_iff.mp hp with hp' | ⟨hp', hk⟩
      · rcases hopen_iff.mp hq with hq' | ⟨-, hk'⟩
        · exact h.unique hp' hq' hsame
        · rw [hk'] at hsame
          exact absurd hsame (hcard p k hp')
      · rcases hopen_iff.mp hq with hq' | ⟨hq', -⟩
        · rw [hk] at hsame
          exact absurd hsame.symm (hcard q k' hq')
        · rw [hp', hq']
    found := h.found
    running := by
      intro k producer hget
      obtain ⟨hreq, hstart, hbefore, hended, hlive⟩ := h.running k producer hget
      refine ⟨?_, hstart, hbefore, hended, fun hcancelled => hopen_iff.mpr (.inl (hlive hcancelled))⟩
      dsimp only
      rw [List.getElem?_append_left (List.getElem?_eq_some_iff.mp hreq).1]
      exact hreq
    finished := by
      intro k result hget
      obtain ⟨hinflight, q, hq, hwhere⟩ := h.finished k result hget
      exact ⟨hinflight, q, hopen_iff.mpr (.inl hq), hwhere⟩
    kept := h.kept
    endedOnce := h.endedOnce
    endedHere := h.endedHere
    idle := by
      intro q k hq hbefore
      rcases hopen_iff.mp hq with hq | ⟨rfl, -⟩
      · exact h.idle q k hq hbefore
      · exact absurd rfl (hold (h.found _ hbefore))
    backed := by
      intro q k hq hstart
      rcases hopen_iff.mp hq with hq | ⟨rfl, -⟩
      · exact h.backed q k hq hstart
      · exact absurd rfl (hold hstart) }

theorem start (h : Orderly b shop starts before) (hopen : IsOpen b p key) (hnever : p ∉ starts)
    (hinflight : shop.inflight.get key = none) (hbuilds : shop.builds.get key = none)
    (builders : Dict BuildRequest Nat) :
    Orderly { b with attempts := b.attempts ++ [⟨key, p⟩] }
      { shop with inflight := shop.inflight.set key { position := p }, requestBuilder := builders }
      (starts ++ [p]) before where
  once := by
    apply List.nodup_append.mpr
    refine ⟨h.once, List.nodup_singleton p, fun a ha q hq => ?_⟩
    rw [List.mem_singleton.mp hq]
    rintro rfl
    exact hnever ha
  receipts := by
    dsimp only
    rw [List.map_append, h.receipts]
    rfl
  placed := by
    intro a ha
    rcases List.mem_append.mp ha with ha | ha
    · exact h.placed a ha
    · rw [List.mem_singleton.mp ha]
      exact hopen.1
  unique hp hq := h.unique hp hq
  found q hq := List.mem_append_left _ (h.found q hq)
  running := by
    intro k producer hget
    rw [Dict.get_set] at hget
    split at hget
    · rename_i hk
      subst hk
      cases hget
      refine ⟨hopen.1, List.mem_append_right _ List.mem_cons_self, fun hbefore => hnever (h.found p hbefore),
        fun hended => ?_, fun _ => hopen⟩
      obtain ⟨e, he, rfl⟩ := List.mem_map.mp hended
      exact hnever (h.endedHere e he).1
    · obtain ⟨hreq, hstart, hrest⟩ := h.running k producer hget
      exact ⟨hreq, List.mem_append_left _ hstart, hrest⟩
  finished := by
    intro k result hget
    obtain ⟨hnone, q, hq, hbefore, hwhere⟩ := h.finished k result hget
    have hk : k ≠ key := by
      rintro rfl
      rw [hbuilds] at hget
      cases hget
    have hqp : q ≠ p := by
      rintro rfl
      have hreq := hq.1
      rw [hopen.1] at hreq
      exact hk (Option.some.inj hreq).symm
    rw [Dict.get_set, if_neg hk]
    refine ⟨hnone, q, hq, hbefore, hwhere.imp_right fun ⟨hsuccess, hq'⟩ => ⟨hsuccess, fun hmem => ?_⟩⟩
    rcases List.mem_append.mp hmem with hmem | hmem
    · exact hq' hmem
    · exact hqp (List.mem_singleton.mp hmem)
  kept := h.kept
  endedOnce := h.endedOnce
  endedHere e he := ⟨List.mem_append_left _ (h.endedHere e he).1, (h.endedHere e he).2⟩
  idle := by
    intro q k hq hbefore
    have hk : k ≠ key := by
      rintro rfl
      rw [h.unique hq hopen rfl] at hbefore
      exact hnever (h.found p hbefore)
    rw [Dict.get_set, if_neg hk]
    exact h.idle q k hq hbefore
  backed := by
    intro q k hq hstart
    dsimp only
    rw [Dict.get_set]
    by_cases hk : k = key
    · subst hk
      rw [if_pos rfl]
      exact .inl ⟨_, rfl, (h.unique hq hopen rfl).symm, rfl⟩
    · rw [if_neg hk]
      rcases List.mem_append.mp hstart with hstart | hstart
      · exact h.backed q k hq hstart
      · rw [List.mem_singleton.mp hstart] at hq
        have hreq := hq.1
        rw [hopen.1] at hreq
        exact absurd (Option.some.inj hreq).symm hk

theorem reuse (h : Orderly b shop starts before) (hopen : IsOpen b p key) (hnever : p ∉ starts)
    (hinflight : shop.inflight.get key = none) {result : Finished} (hsuccess : result.success = true) :
    Orderly b { shop with builds := shop.builds.set key result } starts before where
  __ := h
  finished := by
    intro k r hget
    rw [Dict.get_set] at hget
    split at hget
    · rename_i hk
      subst hk
      cases hget
      exact ⟨hinflight, p, hopen, fun hbefore => hnever (h.found p hbefore), .inr ⟨hsuccess, hnever⟩⟩
    · exact h.finished k r hget
  backed := by
    intro q k hq hstart
    dsimp only
    rw [Dict.get_set]
    split
    · exact .inr (.inl rfl)
    · exact h.backed q k hq hstart

theorem forgetKept (h : Orderly b shop starts before) (reusable : Dict BuildRequest Finished)
    (hkept : ∀ k result, reusable.get k = some result → result.success = true) :
    Orderly b { shop with reusable } starts before where
  __ := h
  kept := hkept

theorem finish (h : Orderly b shop starts before) {producer : Producer}
    (hget : shop.inflight.get key = some producer) (how : Ended) :
    Orderly b (finishProducer key how producer shop) starts before := by
  obtain ⟨hreq, hstart, hbefore, hended, hlive⟩ := h.running key producer hget
  have hrest (k : BuildRequest) (producer' : Producer) (hk : Dict.get (shop.inflight.erase key) k = some producer') :
      k ≠ key ∧ shop.inflight.get k = some producer' := by
    rw [Dict.get_erase] at hk
    split at hk
    · cases hk
    · exact ⟨‹_›, hk⟩
  have hnone (k : BuildRequest) (hk : shop.inflight.get k = none) : Dict.get (shop.inflight.erase key) k = none := by
    rw [Dict.get_erase, hk, ite_self]
  cases how with
  | ceiling => exact {
      once := h.once
      receipts := h.receipts
      placed := h.placed
      unique := h.unique
      found := h.found
      running := fun k producer' hk => h.running k producer' (hrest k producer' hk).2
      finished := fun k result hk => ⟨hnone k (h.finished k result hk).1, (h.finished k result hk).2⟩
      kept := h.kept
      endedOnce := h.endedOnce
      endedHere := h.endedHere
      idle := fun q k hq hbefore => hnone k (h.idle q k hq hbefore)
      backed := fun _ _ _ _ => .inr (.inr (.inl rfl)) }
  | returned success =>
    have hother (k : BuildRequest) (producer' : Producer) (hk : Dict.get (shop.inflight.erase key) k = some producer') :
        producer'.position ≠ producer.position := by
      intro hsame
      have hreq' := (h.running k producer' (hrest k producer' hk).2).1
      rw [hsame, hreq] at hreq'
      exact (hrest k producer' hk).1 (Option.some.inj hreq').symm
    have hfinished (k : BuildRequest) (result : Finished) (hk : shop.builds.get k = some result) :
        Dict.get (shop.inflight.erase key) k = none ∧ ∃ p, IsOpen b p k ∧ p ∉ before ∧
          ((result.position = p ∧ (p, result.success) ∈ shop.ended ++ [(producer.position, success)]) ∨
            (result.success = true ∧ p ∉ starts)) := by
      obtain ⟨hinflight, q, hq, hq', hwhere⟩ := h.finished k result hk
      exact ⟨hnone k hinflight, q, hq, hq', hwhere.imp_left fun hpos => ⟨hpos.1, List.mem_append_left _ hpos.2⟩⟩
    have hbase : Orderly b { shop with
        inflight := shop.inflight.erase key, ended := shop.ended ++ [(producer.position, success)]
        builds := if producer.cancelled then shop.builds
          else shop.builds.set key { position := producer.position, success } } starts before := {
      once := h.once
      receipts := h.receipts
      placed := h.placed
      unique := h.unique
      found := h.found
      running := by
        intro k producer' hk
        obtain ⟨hreq', hstart', hbefore', hended', hlive'⟩ := h.running k producer' (hrest k producer' hk).2
        refine ⟨hreq', hstart', hbefore', fun hmem => ?_, hlive'⟩
        rw [List.map_append] at hmem
        rcases List.mem_append.mp hmem with hmem | hmem
        · exact hended' hmem
        · exact hother k producer' hk (List.mem_singleton.mp hmem)
      finished := by
        intro k result hk
        dsimp only at hk ⊢
        split at hk
        · exact hfinished k result hk
        · rename_i hcancelled
          rw [Dict.get_set] at hk
          split at hk
          · rename_i hkey
            subst hkey
            cases hk
            exact ⟨by rw [Dict.get_erase, if_pos rfl], producer.position, hlive (by simpa using hcancelled), hbefore,
              .inl ⟨rfl, List.mem_append_right _ List.mem_cons_self⟩⟩
          · exact hfinished k result hk
      kept := h.kept
      endedOnce := by
        dsimp only
        rw [List.map_append]
        refine List.nodup_append.mpr ⟨h.endedOnce, List.nodup_singleton _, fun a ha q hq => ?_⟩
        rw [List.mem_singleton.mp hq]
        rintro rfl
        exact hended ha
      endedHere := by
        intro e he
        rcases List.mem_append.mp he with he | he
        · exact h.endedHere e he
        · rw [List.mem_singleton.mp he]
          exact ⟨hstart, hbefore⟩
      idle := fun q k hq hbefore => hnone k (h.idle q k hq hbefore)
      backed := by
        intro q k hq hq'
        dsimp only
        rw [Dict.get_erase]
        rcases h.backed q k hq hq' with ⟨producer', hk, hpos, hcancelled⟩ | hbuild | hheld | hfound
        · by_cases hkey : k = key
          · subst hkey
            rw [hget] at hk
            cases hk
            refine .inr (.inl ?_)
            rw [if_neg (by simp [hcancelled]), Dict.get_set, if_pos rfl]
            rfl
          · rw [if_neg hkey]
            exact .inl ⟨producer', hk, hpos, hcancelled⟩
        · refine .inr (.inl ?_)
          split
          · exact hbuild
          · rw [Dict.get_set]
            split
            · rfl
            · exact hbuild
        · exact .inr (.inr (.inl hheld))
        · exact .inr (.inr (.inr hfound)) }
    unfold finishProducer
    dsimp only
    split
    · rename_i hcancelled
      rw [if_pos hcancelled] at hbase
      exact hbase
    · rename_i hcancelled
      rw [if_neg hcancelled] at hbase
      exact hbase

theorem swap (h : Orderly b shop starts before) : Orderly b (dropProducerPool shop) starts before where
  __ := h
  kept := by
    intro k result hget
    cases hget

theorem restart (h : Orderly b shop starts before) (entry : List Event) :
    Orderly b { entry := entry } starts starts where
  __ := h
  found _ hp := hp
  running := by
    intro k producer hget
    cases hget
  finished := by
    intro k result hget
    cases hget
  kept := by
    intro k result hget
    cases hget
  endedOnce := List.nodup_nil
  endedHere := by
    intro e he
    cases he
  idle _ _ _ _ := rfl
  backed _ _ _ hp := .inr (.inr (.inr ⟨hp, List.not_mem_nil⟩))

end Orderly

section Sweep
variable {b : Builds} {shop : Workshop} {starts before : List Nat} {key : BuildRequest}

theorem inflight_cancel (key k : BuildRequest) (shop : Workshop) :
    (cancelBuildProducer key shop).inflight.get k = if k = key then
      (shop.inflight.get key).map fun producer => { producer with cancelled := true }
    else shop.inflight.get k := by
  unfold cancelBuildProducer
  cases hget : shop.inflight.get key with
  | none =>
    dsimp only
    split
    · rename_i hk
      rw [hk, hget]
      rfl
    · rfl
  | some producer =>
    dsimp only
    rw [Dict.get_set]
    rfl

theorem cancel_rest (key : BuildRequest) (shop : Workshop) :
    (cancelBuildProducer key shop).builds = shop.builds ∧ (cancelBuildProducer key shop).reusable = shop.reusable ∧
      (cancelBuildProducer key shop).ended = shop.ended ∧ (cancelBuildProducer key shop).met = shop.met ∧
      (cancelBuildProducer key shop).ceilingHeld = shop.ceilingHeld ∧
      (cancelBuildProducer key shop).entry = shop.entry := by
  unfold cancelBuildProducer
  split <;> exact ⟨rfl, rfl, rfl, rfl, rfl, rfl⟩

theorem Orderly.cancel (h : Orderly b shop starts before) (hclosed : ∀ p, ¬ IsOpen b p key) :
    Orderly b (cancelBuildProducer key shop) starts before := by
  obtain ⟨hbuilds, hreusable, hended, hmet, hheld, -⟩ := cancel_rest key shop
  exact {
    once := h.once
    receipts := h.receipts
    placed := h.placed
    unique := h.unique
    found := h.found
    running := by
      intro k producer hget
      rw [inflight_cancel] at hget
      rw [hended]
      split at hget
      · rename_i hk
        subst hk
        obtain ⟨old, hold, rfl⟩ := Option.map_eq_some_iff.mp hget
        obtain ⟨hreq, hstart, hbefore, hnever, -⟩ := h.running k old hold
        exact ⟨hreq, hstart, hbefore, hnever, fun hlive => by cases hlive⟩
      · exact h.running k producer hget
    finished := by
      intro k result hget
      rw [hbuilds] at hget
      rw [inflight_cancel, hended]
      obtain ⟨hnone, hrest⟩ := h.finished k result hget
      refine ⟨?_, hrest⟩
      split
      · rename_i hk
        rw [← hk, hnone]
        rfl
      · exact hnone
    kept := by
      rw [hreusable]
      exact h.kept
    endedOnce := by
      rw [hended]
      exact h.endedOnce
    endedHere := by
      rw [hended]
      exact h.endedHere
    idle := by
      intro p k hopen hbefore
      rw [inflight_cancel, if_neg (by rintro rfl; exact hclosed p hopen)]
      exact h.idle p k hopen hbefore
    backed := by
      intro p k hopen hstart
      rw [inflight_cancel, if_neg (by rintro rfl; exact hclosed p hopen), hbuilds, hheld, hmet]
      exact h.backed p k hopen hstart }

theorem get_of_keep {α : Type} {d : Dict BuildRequest α} {keep : BuildRequest × α → Bool} {a : α}
    (h : Dict.get (Table.keep d keep) key = some a) : d.get key = some a := by
  unfold Dict.get at h ⊢
  obtain ⟨row, hrow, rfl⟩ := Option.map_eq_some_iff.mp h
  have hkey := Table.key_of_get hrow
  have hmem := (List.mem_filter.mp (Table.mem_of_get hrow)).1
  rw [← hkey, Table.get_of_mem hmem]
  rfl

theorem Orderly.sweep {env : LedgerEnv} {s : BuildService} (h : Orderly (queueOf env s.log) s.shop starts before) :
    Orderly (queueOf env s.log) (discardOrphanedSpecResults env s) starts before ∧
      (discardOrphanedSpecResults env s).entry = s.shop.entry := by
  unfold discardOrphanedSpecResults
  dsimp only
  have hcancelled (keys : List BuildRequest) (shop : Workshop) (h : Orderly (queueOf env s.log) shop starts before) :
      Orderly (queueOf env s.log) (keys.foldl (fun shop key =>
        if (outstandingRequests env s.log).contains key then shop else cancelBuildProducer key shop) shop)
        starts before ∧ (keys.foldl (fun shop key =>
        if (outstandingRequests env s.log).contains key then shop else cancelBuildProducer key shop) shop).entry =
          shop.entry := by
    induction keys generalizing shop with
    | nil => exact ⟨h, rfl⟩
    | cons key keys ih =>
      rw [List.foldl_cons]
      split
      · exact ih shop h
      · rename_i hout
        have hclosed (p : Nat) : ¬ IsOpen (queueOf env s.log) p key := by
          intro hopen
          apply hout
          rw [List.contains_iff_mem]
          exact mem_outstanding.mpr ⟨p, hopen⟩
        obtain ⟨hkeys, hentry⟩ := ih _ (h.cancel hclosed)
        exact ⟨hkeys, hentry.trans (cancel_rest key shop).2.2.2.2.2⟩
  obtain ⟨hsound, hentry⟩ := hcancelled (s.shop.inflight.rows.map Prod.fst) s.shop h
  refine ⟨?_, hentry⟩
  have hbuilds := Table.keep_eq_self (t := (List.foldl (fun shop key =>
      if (outstandingRequests env s.log).contains key then shop else cancelBuildProducer key shop) s.shop
      (s.shop.inflight.rows.map Prod.fst)).builds) (p := fun r => (outstandingRequests env s.log).contains r.1)
    (fun row hrow => by
      have hget := Table.get_of_mem hrow
      obtain ⟨-, p, hopen, -⟩ := hsound.finished row.1 row.2 (by unfold Dict.get; rw [hget]; rfl)
      rw [List.contains_iff_mem]
      exact mem_outstanding.mpr ⟨p, hopen⟩)
  rw [hbuilds]
  exact hsound.forgetKept _ fun k result hget => hsound.kept k result (get_of_keep hget)

end Sweep

/-! ## One service -/

section Service
variable {env : LedgerEnv} {key : BuildRequest} {t : Turn} {s : BuildService} {starts before : List Nat} {p : Nat}

structure Decided (key : BuildRequest) (shop : Workshop) (closing : Closing) (release : Release) : Prop where
  unbuilt : release = .nothing → shop.builds.get key = none
  built : release = .after → ∃ result, shop.builds.get key = some result ∧ result.success = true
  alone : ∀ id, closing = .node id → shop.inflight.get key = none

def told (key : BuildRequest) (closing : Closing) (shop : Workshop) : Workshop :=
  if closing.skips && (shop.inflight.get key).isSome then cancelBuildProducer key shop else shop

theorem told_rest (closing : Closing) (shop : Workshop) :
    (told key closing shop).builds = shop.builds ∧ (told key closing shop).reusable = shop.reusable ∧
      (told key closing shop).ended = shop.ended ∧ (told key closing shop).met = shop.met ∧
      (told key closing shop).ceilingHeld = shop.ceilingHeld ∧ (told key closing shop).entry = shop.entry := by
  unfold told
  split
  · exact cancel_rest key shop
  · exact ⟨rfl, rfl, rfl, rfl, rfl, rfl⟩

theorem told_inflight {closing : Closing} {shop : Workshop}
    (halone : ∀ id, closing = .node id → shop.inflight.get key = none) (k : BuildRequest) :
    (told key closing shop).inflight.get k = if k = key then
      (shop.inflight.get key).map fun producer => { producer with cancelled := true }
    else shop.inflight.get k := by
  unfold told
  split
  · exact inflight_cancel key k shop
  · rename_i hlive
    split
    · rename_i hk
      rw [hk]
      cases hget : shop.inflight.get key with
      | none => rfl
      | some producer =>
        rw [hget] at hlive
        cases closing with
        | node id =>
          rw [halone id rfl] at hget
          cases hget
        | skip word reason => exact absurd rfl hlive
    · rfl

theorem told_drop (closing : Closing) (shop : Workshop) :
    told key closing (dropResult key shop) = dropResult key (told key closing shop) := by
  unfold told dropResult cancelBuildProducer
  dsimp only
  split
  · cases shop.inflight.get key <;> rfl
  · rfl

def landedShop (key : BuildRequest) (t : Turn) (closing : Closing) (release : Release) (shop : Workshop) : Workshop :=
  releaseLanded key t closing
    (told key closing (if release = .before ∨ release = .replaced then dropResult key shop else shop)) release

theorem reusable_keepForReuse (closing : Closing) (shop : Workshop) :
    keepForReuse key t closing shop = { shop with reusable := (keepForReuse key t closing shop).reusable } := by
  unfold keepForReuse
  split
  · split <;> rfl
  · rfl

theorem landedShop_eq (closing : Closing) (release : Release) (shop : Workshop) :
    ∃ builders reusable, landedShop key t closing release shop =
        { (if release = .nothing then told key closing shop else dropResult key (told key closing shop)) with
          requestBuilder := builders, reusable } ∧
      (reusable = shop.reusable ∨
        release = .after ∧ reusable = (keepForReuse key t closing (told key closing shop)).reusable) := by
  have hreusable := (@told_rest key closing shop).2.1
  unfold landedShop releaseLanded
  cases release with
  | nothing => exact ⟨_, _, rfl, .inl hreusable⟩
  | before =>
    rw [if_pos (.inl rfl), told_drop]
    exact ⟨_, _, rfl, .inl hreusable⟩
  | replaced =>
    rw [if_pos (.inr rfl), told_drop]
    exact ⟨_, _, rfl, .inl hreusable⟩
  | after =>
    rw [if_neg (by decide)]
    dsimp only
    rw [reusable_keepForReuse]
    exact ⟨_, _, rfl, .inr ⟨rfl, rfl⟩⟩

theorem kept_keepForReuse {shop : Workshop} (hkept : ∀ k result, shop.reusable.get k = some result → result.success = true)
    (closing : Closing) {built : Finished} (hbuilt : shop.builds.get key = some built) (hsuccess : built.success = true)
    (k : BuildRequest) (result : Finished) (hget : (keepForReuse key t closing shop).reusable.get k = some result) :
    result.success = true := by
  unfold keepForReuse at hget
  split at hget
  · rename_i kept hold
    rw [hbuilt] at hold
    cases hold
    split at hget
    · rw [Dict.get_set] at hget
      split at hget
      · cases hget
        exact hsuccess
      · exact hkept k result hget
    · exact hkept k result hget
  · exact hkept k result hget

theorem released_landed {b : Builds} {closing : Closing} {release : Release}
    (h : Orderly b s.shop starts before) (hdecided : Decided key s.shop closing release) :
    Orderly.Released key s.shop (landedShop key t closing release s.shop) ∧
      (landedShop key t closing release s.shop).entry = s.shop.entry := by
  obtain ⟨builders, reusable, hshop, hreusable⟩ := landedShop_eq (t := t) closing release s.shop
  obtain ⟨hbuilds, hkept, hended, hmet, hheld, hentry⟩ := told_rest closing s.shop
  have hinflight (k : BuildRequest) : (landedShop key t closing release s.shop).inflight.get k =
      (told key closing s.shop).inflight.get k := by
    rw [hshop]
    split <;> rfl
  rw [hshop] at hinflight ⊢
  constructor
  · constructor
    · intro k hk
      rw [hinflight, told_inflight hdecided.alone, if_neg hk]
    · intro producer' hproducer
      rw [hinflight, told_inflight hdecided.alone, if_pos rfl] at hproducer
      obtain ⟨producer, hold, rfl⟩ := Option.map_eq_some_iff.mp hproducer
      exact ⟨producer, hold, rfl, rfl⟩
    · intro k
      split
      · rename_i hnothing
        dsimp only
        rw [hbuilds]
        split
        · rename_i hk
          rw [hk, hdecided.unbuilt hnothing]
        · rfl
      · unfold dropResult
        dsimp only
        rw [Dict.get_erase, hbuilds]
    · intro k result hget
      change reusable.get k = some result at hget
      rcases hreusable with rfl | ⟨hafter, rfl⟩
      · exact h.kept k result hget
      · obtain ⟨built, hbuilt, hsuccess⟩ := hdecided.built hafter
        rw [← hbuilds] at hbuilt
        refine kept_keepForReuse (fun k result hget => ?_) closing hbuilt hsuccess k result hget
        rw [hkept] at hget
        exact h.kept k result hget
    · split
      · exact hended
      · exact hended
    · split
      · exact hmet
      · exact hmet
    · split
      · exact hheld
      · exact hheld
  · split
    · exact hentry
    · exact hentry

theorem closeRequest_cases (closing : Closing) (release : Release) (hpos : requestPosition env key s.log = some p)
    (hmoves : t.moves.all foreign = true) :
    ∃ rows, foreign rows = true ∧
      ((Raced t.moves ∧ closeRequest env key t s closing release = { s with
          log := s.log ++ rows
          shop := if release = .before ∨ release = .replaced then dropResult key s.shop else s.shop }) ∨
        (rows = landedRows t.moves ∧ ∃ live, closeRequest env key t s closing release = { s with
          log := s.log ++ rows ++ [queueRow t.ts (s.log ++ rows) "card_build_done"
            (doneRow env key (s.log ++ rows) p live closing)]
          shop := landedShop key t closing release s.shop })) := by
  unfold closeRequest
  generalize hshop : (if release = .before ∨ release = .replaced then dropResult key s.shop else s.shop) = shop
  obtain ⟨rows, hrows, ⟨hraced, heq⟩ | ⟨-, hlanded, heq⟩⟩ :=
    append_cases closing t.ts (s := { s with shop }) hpos hmoves
  · refine ⟨rows, hrows, .inl ⟨hraced, ?_⟩⟩
    dsimp only
    rw [heq]
    rfl
  · refine ⟨rows, hrows, .inr ⟨hlanded, closing.skips && (shop.inflight.get key).isSome, ?_⟩⟩
    dsimp only
    rw [heq]
    unfold landedShop told
    rw [hshop]
    rfl

end Service

/-! ## The condition -/

section Condition
variable (env : LedgerEnv) (key : BuildRequest) (t : Turn) (s : BuildService)

/-- The close a service comes to, with the log it was decided on. -/
def closeOf : Option (List Event × Closing × Release) :=
  match exitOf env key t s with
  | .closes closing release => some (s.log, closing, release)
  | .claims draining =>
    match afterClaim draining t.answer with
    | .closes closing release => some (s.log ++ t.claimRows, closing, release)
    | _ => none
  | _ => none

/-- Where other writers win every try of a close, a producer still runs, the result is still in hand, a
ceiling is held, or no producer was ever started for the position. -/
def Backed : Prop := Raced t.moves → ∀ log closing release, closeOf env key t s = some (log, closing, release) →
  release = .after ∨ (s.shop.inflight.get key).isSome = true ∨ s.shop.ceilingHeld = true ∨
    ∀ p, requestPosition env key s.log = some p → p ∉ s.starts

/-- A close by a node is of a request nobody builds any more, and the node is still the one the request
was for where the row lands. -/
def Linked : Prop := ∀ log id release, closeOf env key t s = some (log, .node id, release) →
  s.shop.inflight.get key = none ∧ Answers env key (log ++ landedRows t.moves) id

/-- No close of a paid build comes to nothing. -/
def Settles (env : LedgerEnv) (s : BuildService) : Act → Prop
  | .serve key t => Backed env key t s ∧ Linked env key t s
  | _ => True

end Condition

section Exits
variable {env : LedgerEnv} {key : BuildRequest} {t : Turn} {s : BuildService} {p : Nat}

theorem attempt_of_started {before : List Nat} (h : Orderly (queueOf env s.log) s.shop s.starts before)
    (hpos : requestPosition env key s.log = some p) (hp : p ∈ s.starts) :
    headHasUnreconciledAttempt env key s.log = true := by
  have hopen := requestPosition_open hpos
  rw [← h.receipts] at hp
  obtain ⟨a, ha, hindex⟩ := List.mem_map.mp hp
  have hreq := h.placed a ha
  rw [hindex, hopen.1] at hreq
  unfold headHasUnreconciledAttempt
  rw [hpos]
  simp only [Option.getD_some, List.any_eq_true, Bool.and_eq_true, decide_eq_true_eq]
  exact ⟨a, ha, hindex, (Option.some.inj hreq).symm⟩

theorem exitOf_cases (env : LedgerEnv) (key : BuildRequest) (t : Turn) (s : BuildService) :
    (∃ id, exitOf env key t s = .closes (.node id) .before) ∨
    (∃ why, exitOf env key t s = .closes (.skip "stale" (some why)) .before) ∨
    (exitOf env key t s = .leaves ∧ ((s.shop.inflight.get key).isSome = true ∨ (s.shop.builds.get key).isSome = true)) ∨
    (s.shop.builds.get key = none ∧ (s.shop.ceilingHeld = true → t.allowCommit = true) ∧
      ((∃ why, s.shop.inflight.get key = none ∧ headHasUnreconciledAttempt env key s.log = true ∧
          exitOf env key t s = .closes (.skip "producer_failed" why) .nothing) ∨
        (¬ (s.shop.inflight.get key = none ∧ headHasUnreconciledAttempt env key s.log = true) ∧
          ((∃ why, exitOf env key t s = .closes (.skip "stale" (some why)) .nothing) ∨
            exitOf env key t s = .leaves)))) ∨
    (∃ result, s.shop.builds.get key = some result ∧
      (exitOf env key t s = .closes (.skip "stale" (some "builder_replaced")) .replaced ∨
        (result.success = false ∧ exitOf env key t s = .closes (.skip "producer_failed" none) .before) ∨
        (result.success = true ∧ ∃ draining, exitOf env key t s = .claims draining))) := by
  unfold exitOf
  dsimp only
  split
  · exact .inl ⟨_, rfl⟩
  · right
    split
    · rename_i hleaves
      simp only [Bool.and_eq_true, Bool.or_eq_true] at hleaves
      exact .inr (.inl ⟨rfl, hleaves.2⟩)
    · rename_i hleaves
      split
      · exact .inl ⟨_, rfl⟩
      · rename_i hmoved
        right
        right
        have hallow : s.shop.ceilingHeld = true → t.allowCommit = true := by
          intro hheld
          rw [hheld] at hmoved
          simp only [Bool.not_true, Bool.and_false, Bool.not_false, Bool.and_true, Bool.or_eq_true, not_or] at hmoved
          simpa using hmoved.2
        cases hbuilds : s.shop.builds.get key with
        | none =>
          refine .inl ⟨rfl, hallow, ?_⟩
          dsimp only
          split
          · rename_i hattempt
            simp only [Bool.and_eq_true, Bool.not_eq_true', Option.isSome_eq_false_iff, Option.isNone_iff_eq_none] at hattempt
            exact .inl ⟨_, hattempt.1, hattempt.2, rfl⟩
          · rename_i hattempt
            right
            constructor
            · rintro ⟨hnone, hhas⟩
              apply hattempt
              rw [hnone, hhas]
              rfl
            · split
              · exact .inl ⟨_, rfl⟩
              · split
                · exact .inl ⟨_, rfl⟩
                · exact .inr rfl
        | some result =>
          refine .inr ⟨result, rfl, ?_⟩
          dsimp only
          split
          · exact .inl rfl
          · split
            · rename_i hfailed
              exact .inr (.inl ⟨by simpa using hfailed, rfl⟩)
            · rename_i hok
              exact .inr (.inr ⟨by simpa using hok, _, rfl⟩)

end Exits

section Serve
variable {env : LedgerEnv} {key : BuildRequest} {t : Turn} {s : BuildService} {before : List Nat} {p : Nat}

theorem canonical_of_open (h : IsOpen (queueOf env s.log) p key) : Canonical env.toEnv key :=
  canonical_requests env s.log key (List.mem_of_getElem? h.1)

/-- What a service leaves of a position it met; `closing` closes it, if it is closed. -/
structure Served (env : LedgerEnv) (s s' : BuildService) (before : List Nat) (p : Nat) (outcome : Option String) :
    Prop where
  orderly : Orderly (queueOf env s'.log) s'.shop s'.starts before
  starts : s'.starts = s.starts
  entry : s'.shop.entry = s.shop.entry
  met : ∀ key, IsOpen (queueOf env s'.log) p key → p ∈ before → s'.shop.ceilingHeld = true
  closes : closes env.toEnv s'.log = closes env.toEnv s.log ∨
    ∃ word, outcome = some word ∧ closes env.toEnv s'.log = closes env.toEnv s.log ++ [(p, word)]

theorem served_close {closing : Closing} {release : Release} (h : Orderly (queueOf env s.log) s.shop s.starts before)
    (hpos : requestPosition env key s.log = some p) (hmoves : t.moves.all foreign = true)
    (hdecided : Decided key s.shop closing release) (hsound : Sound env key (s.log ++ landedRows t.moves) closing)
    (hback : Raced t.moves → release = .after ∨ (s.shop.inflight.get key).isSome = true ∨
      s.shop.ceilingHeld = true ∨ p ∉ s.starts) :
    Served env s (closeRequest env key t s closing release) before p (some closing.outcome) := by
  have hopen := requestPosition_open hpos
  obtain ⟨rows, hrows, ⟨hraced, heq⟩ | ⟨rfl, live, heq⟩⟩ := closeRequest_cases (t := t)
    closing release hpos hmoves
  · have hsame := @sameQueue_foreign env _ s.log hrows
    have horderly : Orderly (queueOf env (s.log ++ rows))
        (if release = .before ∨ release = .replaced then dropResult key s.shop else s.shop) s.starts before := by
      rw [hsame.queue]
      split
      · rename_i hdrops
        apply h.letGo hopen
        rcases hback hraced with rfl | hrest
        · simp at hdrops
        · exact hrest
      · exact h
    rw [heq]
    refine ⟨horderly, rfl, by dsimp only; split <;> rfl, ?_, .inl hsame.closes⟩
    intro k hk hbefore
    have hheld : s.shop.ceilingHeld = true := by
      rcases hback hraced with rfl | hrunning | hheld | hnever
      · obtain ⟨result, hget, -⟩ := hdecided.built rfl
        exact absurd hbefore (h.not_found_of_finished hopen hget)
      · rw [(h.nobody_of_found hopen hbefore).1] at hrunning
        cases hrunning
      · exact hheld
      · exact absurd (h.found p hbefore) hnever
    dsimp only
    split <;> exact hheld
  · have hsame := @sameQueue_foreign env _ s.log hrows
    have hopen' : IsOpen (queueOf env (s.log ++ landedRows t.moves)) p key := by
      rw [hsame.queue]
      exact hopen
    have hclosed := @closesAt_done _ _ _ _ t.ts live _ (canonical_of_open hopen) hopen' hsound
    obtain ⟨hreleased, hentry⟩ := released_landed (t := t) h hdecided
    have hqueue : Orderly.Closed (queueOf env s.log) (queueOf env (s.log ++ landedRows t.moves ++
        [queueRow t.ts (s.log ++ landedRows t.moves) "card_build_done"
          (doneRow env key (s.log ++ landedRows t.moves) p live closing)])) p := by
      constructor
      · rw [hclosed.requests, hsame.queue]
      · rw [hclosed.attempts, hsame.queue]
      · intro q
        rw [hclosed.closed, hsame.queue]
    rw [heq]
    refine ⟨h.close hopen hqueue hreleased, rfl, hentry, ?_, .inr ⟨_, rfl, ?_⟩⟩
    · intro k hk
      exact absurd rfl (hqueue.open_iff.mp hk).2
    · rw [hclosed.closes, hsame.closes]

theorem Orderly.same {b b' : Builds} {shop : Workshop} {starts before : List Nat} (h : Orderly b shop starts before)
    (heq : b' = b) : Orderly b' shop starts before := heq ▸ h

theorem served_left {rows : List Event} (h : Orderly (queueOf env s.log) s.shop s.starts before)
    (hrows : foreign rows = true) (hmet : ∀ key, IsOpen (queueOf env s.log) p key → p ∈ before → s.shop.ceilingHeld = true) :
    Served env s { s with log := s.log ++ rows } before p none := by
  have hsame := @sameQueue_foreign env _ s.log hrows
  refine ⟨h.same hsame.queue, rfl, rfl, ?_, .inl hsame.closes⟩
  intro k hk
  dsimp only at hk
  rw [hsame.queue] at hk
  exact hmet k hk

theorem not_both {shop : Workshop} (h : (shop.ended.map Prod.fst).Nodup) (hfalse : (p, false) ∈ shop.ended) :
    (p, true) ∉ shop.ended := by
  intro htrue
  have := List.inj_on_of_nodup_map h hfalse htrue rfl
  cases this

theorem stale_ne : "stale" ≠ "producer_failed" := by decide

theorem committed_ne : "committed" ≠ "producer_failed" := by decide

theorem not_failed {word : String} {P : Prop} (h : word ≠ "producer_failed") (hword : some word = some "producer_failed") :
    P := absurd (Option.some.inj hword) h

theorem served (h : Orderly (queueOf env s.log) s.shop s.starts before)
    (hpos : requestPosition env key s.log = some p) (hrows : foreign t.claimRows = true)
    (hmoves : t.moves.all foreign = true) (hanswer : answered env key (s.log ++ t.claimRows) t.answer = true)
    (hheld : s.shop.ceilingHeld = true → t.allowCommit = false ∨ (s.shop.builds.get key).isSome = true)
    (hsettles : Settles env s (.serve key t)) :
    ∃ outcome, Served env s (serveCardBuilds env key t s) before p outcome ∧
      (outcome = some "producer_failed" →
        ((p, false) ∈ s.shop.ended ∨ p ∈ before) ∧ (p, true) ∉ s.shop.ended) := by
  obtain ⟨hbacked, hlinked⟩ := hsettles
  have hopen := requestPosition_open hpos
  have hback (log : List Event) (closing : Closing) (release : Release)
      (hclose : closeOf env key t s = some (log, closing, release)) (hraced : Raced t.moves) :
      release = .after ∨ (s.shop.inflight.get key).isSome = true ∨ s.shop.ceilingHeld = true ∨ p ∉ s.starts :=
    (hbacked hraced log closing release hclose).imp_right (Or.imp_right (Or.imp_right fun hnever => hnever p hpos))
  have hclosed {closing : Closing} {release : Release} (hexit : exitOf env key t s = .closes closing release) :
      closeOf env key t s = some (s.log, closing, release) ∧
        serveCardBuilds env key t s = closeRequest env key t s closing release := by
    constructor
    · unfold closeOf
      rw [hexit]
    · unfold serveCardBuilds
      rw [hexit]
      rfl
  have hleft (hexit : exitOf env key t s = .leaves) : serveCardBuilds env key t s = { s with log := s.log ++ [] } := by
    unfold serveCardBuilds
    rw [hexit, List.append_nil]
    rfl
  rcases exitOf_cases env key t s with ⟨id, hexit⟩ | ⟨why, hexit⟩ | ⟨hexit, hsomebody⟩ | ⟨hbuilds, hallow, hcase⟩ |
    ⟨result, hbuilds, hcase⟩
  · obtain ⟨hclose, hserve⟩ := hclosed hexit
    obtain ⟨hnone, hanswers⟩ := hlinked s.log id .before hclose
    rw [hserve]
    exact ⟨_, served_close h hpos hmoves ⟨nofun, nofun, fun _ _ => hnone⟩ hanswers (hback _ _ _ hclose), not_failed committed_ne⟩
  · obtain ⟨hclose, hserve⟩ := hclosed hexit
    rw [hserve]
    exact ⟨_, served_close h hpos hmoves ⟨nofun, nofun, nofun⟩ (.inr rfl) (hback _ _ _ hclose), not_failed stale_ne⟩
  · rw [hleft hexit]
    refine ⟨none, served_left h rfl fun k hk hbefore => ?_, nofun⟩
    have hkey := hk.1
    rw [hopen.1] at hkey
    obtain rfl := Option.some.inj hkey
    obtain ⟨hinflight, hbuilds⟩ := h.nobody_of_found hopen hbefore
    rw [hinflight, hbuilds] at hsomebody
    simp at hsomebody
  · rcases hcase with ⟨why, hinflight, hattempt, hexit⟩ | ⟨hno, ⟨why, hexit⟩ | hexit⟩
    · obtain ⟨hclose, hserve⟩ := hclosed hexit
      have hfree : s.shop.ceilingHeld = false := by
        cases hc : s.shop.ceilingHeld with
        | false => rfl
        | true =>
          rcases hheld hc with hallow' | hsome
          · rw [hallow hc] at hallow'
            cases hallow'
          · rw [hbuilds] at hsome
            cases hsome
      have hstart : p ∈ s.starts := by
        unfold headHasUnreconciledAttempt at hattempt
        rw [hpos] at hattempt
        simp only [Option.getD_some, List.any_eq_true, Bool.and_eq_true, decide_eq_true_eq] at hattempt
        obtain ⟨a, ha, hindex, -⟩ := hattempt
        rw [← h.receipts]
        exact List.mem_map.mpr ⟨a, ha, hindex⟩
      obtain ⟨hbefore, -⟩ := h.found_of_orphan hopen hstart hinflight hbuilds hfree
      rw [hserve]
      refine ⟨_, served_close h hpos hmoves ⟨fun _ => hbuilds, nofun, nofun⟩ (.inl rfl) (hback _ _ _ hclose),
        fun _ => ⟨.inr hbefore, fun htrue => (h.endedHere _ htrue).2 hbefore⟩⟩
    · obtain ⟨hclose, hserve⟩ := hclosed hexit
      rw [hserve]
      exact ⟨_, served_close h hpos hmoves ⟨fun _ => hbuilds, nofun, nofun⟩ (.inr rfl) (hback _ _ _ hclose), not_failed stale_ne⟩
    · rw [hleft hexit]
      refine ⟨none, served_left h rfl fun k hk hbefore => absurd ⟨?_, attempt_of_started h hpos (h.found p hbefore)⟩ hno,
        nofun⟩
      exact (h.nobody_of_found hopen hbefore).1
  · have hinflight := (h.finished key result hbuilds).1
    have hbefore := h.not_found_of_finished hopen hbuilds
    rcases hcase with hexit | ⟨hfailed, hexit⟩ | ⟨hsuccess, draining, hexit⟩
    · obtain ⟨hclose, hserve⟩ := hclosed hexit
      rw [hserve]
      exact ⟨_, served_close h hpos hmoves ⟨nofun, nofun, nofun⟩ (.inr rfl) (hback _ _ _ hclose), not_failed stale_ne⟩
    · obtain ⟨hclose, hserve⟩ := hclosed hexit
      obtain ⟨-, q, hq, -, ⟨-, hended⟩ | ⟨hsuccess, -⟩⟩ := h.finished key result hbuilds
      · rw [h.unique hq hopen rfl, hfailed] at hended
        rw [hserve]
        exact ⟨_, served_close h hpos hmoves ⟨nofun, nofun, nofun⟩ (.inl rfl) (hback _ _ _ hclose),
          fun _ => ⟨.inl hended, not_both h.endedOnce hended⟩⟩
      · rw [hfailed] at hsuccess
        cases hsuccess
    · have hsame := @sameQueue_foreign env _ s.log hrows
      have hpos' : requestPosition env key (s.log ++ t.claimRows) = some p := by
        rw [requestPosition_same hsame]
        exact hpos
      have hclaimed {closing : Closing} (hafter : afterClaim draining t.answer = .closes closing .after)
          (hsound : Sound env key (s.log ++ t.claimRows ++ landedRows t.moves) closing) (hword : closing.outcome ≠ "producer_failed") :
          ∃ outcome, Served env s (serveCardBuilds env key t s) before p outcome ∧
            (outcome = some "producer_failed" →
              ((p, false) ∈ s.shop.ended ∨ p ∈ before) ∧ (p, true) ∉ s.shop.ended) := by
        have hserve : serveCardBuilds env key t s =
            closeRequest env key t { s with log := s.log ++ t.claimRows } closing .after := by
          unfold serveCardBuilds
          rw [hexit]
          dsimp only
          rw [hafter]
          rfl
        rw [hserve]
        have hdecided : Decided key s.shop closing .after :=
          ⟨nofun, fun _ => ⟨result, hbuilds, hsuccess⟩, fun _ _ => hinflight⟩
        have hserved := served_close (s := { s with log := s.log ++ t.claimRows }) (h.same hsame.queue) hpos' hmoves
          hdecided hsound (fun _ => .inl rfl)
        refine ⟨_, ⟨hserved.orderly, hserved.starts, hserved.entry, hserved.met, ?_⟩,
          fun h => absurd (Option.some.inj h) hword⟩
        rw [← hsame.closes]
        exact hserved.closes
      have hleaves (hafter : afterClaim draining t.answer = .leaves) :
          Served env s (serveCardBuilds env key t s) before p none := by
        have hserve : serveCardBuilds env key t s = { s with log := s.log ++ t.claimRows } := by
          unfold serveCardBuilds
          rw [hexit]
          dsimp only
          rw [hafter]
          rfl
        rw [hserve]
        exact served_left h hrows fun k _ hfound => absurd hfound hbefore
      cases hans : t.answer with
      | closed =>
        rw [hans] at hanswer
        unfold answered at hanswer
        rw [hpos'] at hanswer
        cases hanswer
      | budget =>
        cases hd : draining with
        | true => exact @hclaimed (.skip "stale" (some "run_is_stopping")) (by rw [hans, hd]; rfl) (.inr rfl) stale_ne
        | false => exact ⟨none, hleaves (by rw [hans, hd]; rfl), nofun⟩
      | retry => exact ⟨none, hleaves (by rw [hans]; rfl), nofun⟩
      | producerFailed => exact @hclaimed (.skip "stale" none) (by rw [hans]; rfl) (.inr rfl) stale_ne
      | stale why => exact @hclaimed (.skip "stale" (some why)) (by rw [hans]; rfl) (.inr rfl) stale_ne
      | created id =>
        have hclose : closeOf env key t s = some (s.log ++ t.claimRows, .node id, .after) := by
          unfold closeOf
          rw [hexit]
          dsimp only
          rw [hans]
          rfl
        exact @hclaimed (.node id) (by rw [hans]; rfl) (hlinked _ id _ hclose).2 committed_ne

end Serve

/-! ## Every run -/

section Run
variable {env : LedgerEnv} {key : BuildRequest} {s s' : BuildService} {p : Nat}

/-- The positions the process found started. -/
def found (env : LedgerEnv) (s : BuildService) : List Nat :=
  (queueOf env s.shop.entry).attempts.map BuildAttempt.index

def InOrder (env : LedgerEnv) (s : BuildService) : Prop :=
  Orderly (queueOf env s.log) s.shop s.starts (found env s)

/-- The producer of the position gave up in this process, or the process found it started; and none of the
process had success with it. -/
def Justified (env : LedgerEnv) (s : BuildService) (p : Nat) : Prop :=
  ((p, false) ∈ s.shop.ended ∨ p ∈ found env s) ∧ (p, true) ∉ s.shop.ended

/-- What a step closes `producer_failed` it closes for a reason that is true. -/
def ClosedTruly (env : LedgerEnv) (s s' : BuildService) : Prop :=
  ∀ p, (p, "producer_failed") ∈ closes env.toEnv s'.log →
    (p, "producer_failed") ∈ closes env.toEnv s.log ∨ Justified env s p

theorem closedTruly_same (h : closes env.toEnv s'.log = closes env.toEnv s.log) : ClosedTruly env s s' := by
  intro p hp
  rw [h] at hp
  exact .inl hp

theorem inOrder_empty (env : LedgerEnv) : InOrder env {} := by
  have hqueue : queueOf env ([] : List Event) = {} := rfl
  unfold InOrder found
  rw [hqueue]
  exact {
    once := List.nodup_nil
    receipts := rfl
    placed := fun _ ha => nomatch ha
    unique := fun hp => nomatch hp.1
    found := fun _ hp => nomatch hp
    running := fun _ _ hget => nomatch hget
    finished := fun _ _ hget => nomatch hget
    kept := fun _ _ hget => nomatch hget
    endedOnce := List.nodup_nil
    endedHere := fun _ he => nomatch he
    idle := fun _ _ hopen => nomatch hopen.1
    backed := fun _ _ hopen => nomatch hopen.1 }

theorem step_others {rows : List Event} (h : InOrder env s) (hrows : foreign rows = true) :
    InOrder env { s with log := s.log ++ rows } ∧ ClosedTruly env s { s with log := s.log ++ rows } := by
  have hsame := @sameQueue_foreign env _ s.log hrows
  exact ⟨Orderly.same h hsame.queue, closedTruly_same hsame.closes⟩

theorem step_elect {cardId : String} {ts : Rat} (h : InOrder env s)
    (hcard : cardReplayId env.toEnv (.str cardId) = some cardId)
    (hfree : ∀ q k, IsOpen (queueOf env s.log) q k → k.cardId ≠ cardId) (epoch : Int) :
    let log := s.log ++ [queueRow ts s.log "card_build_requested" (keyData ⟨cardId, epoch⟩)]
    let s' := { s with log, shop := { s.shop with
      met := s.shop.met ++ (requestPosition env ⟨cardId, epoch⟩ log).toList } }
    InOrder env s' ∧ ClosedTruly env s s' := by
  intro log s'
  obtain ⟨hcloses, hqueue⟩ := @queueOf_requested _ ⟨cardId, epoch⟩ s.log ts hcard
  refine ⟨?_, closedTruly_same hcloses⟩
  have hlog : Orderly (queueOf env log) s.shop s.starts (found env s) := by
    rcases hqueue with hqueue | hqueue
    · exact Orderly.same h hqueue
    · rw [hqueue]
      refine Orderly.request h hfree fun hclosed => ?_
      rw [queueOf_eq] at hclosed
      exact Nat.lt_irrefl _ ((queueHolds_replayLog env.toEnv s.log).within _ hclosed)
  unfold InOrder
  cases hpos : requestPosition env ⟨cardId, epoch⟩ log with
  | none =>
    have hmet : s'.shop = s.shop := by
      change { s.shop with met := s.shop.met ++ (requestPosition env ⟨cardId, epoch⟩ log).toList } = s.shop
      rw [hpos, Option.toList_none, List.append_nil]
    unfold found
    rw [hmet]
    exact hlog
  | some p =>
    have hmet : s'.shop = { s.shop with met := s.shop.met ++ [p] } := by
      change { s.shop with met := s.shop.met ++ (requestPosition env ⟨cardId, epoch⟩ log).toList } = _
      rw [hpos]
      rfl
    unfold found
    rw [hmet]
    refine hlog.meet fun k hk hbefore => ?_
    have hopen := requestPosition_open hpos
    rcases hqueue with hqueue | hqueue
    · rw [hqueue] at hopen
      exact absurd rfl (hfree p _ hopen)
    · have hlt := Orderly.started_placed h (Orderly.found h p hbefore)
      rw [hqueue] at hopen
      have hget := hopen.1
      rw [List.getElem?_append_left hlt] at hget
      exact absurd rfl (hfree p _ ⟨hget, hopen.2⟩)

theorem close_unstarted {b b' : Builds} {shop : Workshop} {starts before : List Nat} (h : Orderly b shop starts before)
    (hopen : IsOpen b p key) (hinflight : shop.inflight.get key = none) (hbuilds : shop.builds.get key = none)
    (hclosed : Orderly.Closed b b' p) : Orderly b' shop starts before := by
  refine h.close hopen hclosed ⟨fun _ _ => rfl, ?_, ?_, h.kept, rfl, rfl, rfl⟩
  · intro producer' hget
    rw [hinflight] at hget
    cases hget
  · intro k
    split
    · rename_i hk
      rw [hk, hbuilds]
    · rfl

theorem step_refuse {ts : Rat} {moves : List (List Event)} (h : InOrder env s)
    (hpos : requestPosition env key s.log = some p) (hmoves : moves.all foreign = true)
    (hinflight : s.shop.inflight.get key = none) (hbuilds : s.shop.builds.get key = none) (why : String) :
    let s' := (appendCardBuildDone env key (.skip "stale" (some why)) ts moves s).2
    InOrder env s' ∧ ClosedTruly env s s' := by
  intro s'
  have hopen := requestPosition_open hpos
  obtain ⟨rows, hrows, ⟨-, heq⟩ | ⟨-, -, heq⟩⟩ :=
    append_cases (.skip "stale" (some why)) ts (s := s) hpos hmoves
  · have hs' : s' = { s with log := s.log ++ rows } := congrArg Prod.snd heq
    rw [hs']
    exact step_others h hrows
  · have hsame := @sameQueue_foreign env _ s.log hrows
    rw [hinflight] at heq
    have hs' := congrArg Prod.snd heq
    change s' = _ at hs'
    have hopen' : IsOpen (queueOf env (s.log ++ rows)) p key := by
      rw [hsame.queue]
      exact hopen
    have hclosed := @closesAt_done _ _ _ _ ts false (.skip "stale" (some why)) (canonical_of_open hopen)
      hopen' (.inr rfl)
    have hcloses : closes env.toEnv s'.log = closes env.toEnv s.log ++ [(p, "stale")] := by
      rw [hs', ← hsame.closes]
      exact hclosed.closes
    constructor
    · rw [hs']
      refine close_unstarted h hopen hinflight hbuilds ⟨?_, ?_, fun q => ?_⟩
      · exact hclosed.requests.trans (congrArg Builds.requests hsame.queue)
      · exact hclosed.attempts.trans (congrArg Builds.attempts hsame.queue)
      · rw [← hsame.queue]
        exact hclosed.closed q
    · intro q hq
      rw [hcloses] at hq
      rcases List.mem_append.mp hq with hq | hq
      · exact .inl hq
      · exact absurd (congrArg Prod.snd (List.mem_singleton.mp hq)).symm stale_ne

theorem step_start {pair : Pair} {ts : Rat} {moves : List (List Event)} (h : InOrder env s)
    (hpos : requestPosition env key s.log = some p) (hmoves : moves.all foreign = true)
    (hfree : s.shop.ceilingHeld = false) (hmet : p ∈ s.shop.met) :
    InOrder env (startRequestProducer env key ts moves s p pair) ∧
      ClosedTruly env s (startRequestProducer env key ts moves s p pair) := by
  have hopen := requestPosition_open hpos
  unfold startRequestProducer
  split
  · exact ⟨h, closedTruly_same rfl⟩
  · rename_i hidle
    simp only [Bool.or_eq_true, Option.isSome_iff_ne_none, not_or, not_not] at hidle
    obtain ⟨hinflight, hbuilds⟩ := hidle
    have hnever : p ∉ s.starts := by
      intro hstart
      exact (Orderly.found_of_orphan h hopen hstart hinflight hbuilds hfree).2 hmet
    have hrest : InOrder env { s with shop := { s.shop with reusable := s.shop.reusable.erase key } } := by
      refine Orderly.forgetKept h _ fun k result hget => ?_
      rw [Dict.get_erase] at hget
      split at hget
      · cases hget
      · exact Orderly.kept h k result hget
    dsimp only
    split
    · rename_i result hkept
      have hsuccess := Orderly.kept h key result (Option.filter_eq_some_iff.mp hkept).1
      exact ⟨Orderly.reuse hrest hopen hnever hinflight hsuccess,
        closedTruly_same rfl⟩
    · cases pair with
      | refused => exact step_refuse hrest hpos hmoves hinflight hbuilds "plan_refused"
      | spent => exact step_refuse hrest hpos hmoves hinflight hbuilds "producer_unavailable"
      | missing => exact ⟨hrest, closedTruly_same rfl⟩
      | ready =>
        obtain ⟨hcloses, hqueue⟩ := queueOf_attempted (p := p) (canonical_of_open hopen)
        refine ⟨?_, closedTruly_same hcloses⟩
        have hstarted := Orderly.start hrest hopen hnever hinflight hbuilds
          (s.shop.requestBuilder.set key s.shop.builderGeneration)
        exact Orderly.same hstarted hqueue

theorem step_keeps {a : Act} (h : InOrder env s) (hsettles : Settles env s a) (hstep : step env s a = some s') :
    InOrder env s' ∧ ClosedTruly env s s' := by
  cases a with
  | others rows =>
    unfold step at hstep
    dsimp only at hstep
    split at hstep
    · rename_i hrows
      cases hstep
      exact step_others h hrows
    · cases hstep
  | elect cardId ts =>
    unfold step at hstep
    dsimp only at hstep
    split at hstep
    · rename_i hguard
      cases hstep
      simp only [Bool.and_eq_true, decide_eq_true_eq, Bool.not_eq_true', List.any_eq_false] at hguard
      exact step_elect h hguard.1 (fun q k hopen => hguard.2 k (mem_outstanding.mpr ⟨q, hopen⟩)) _
    · cases hstep
  | serve key t =>
    unfold step at hstep
    dsimp only at hstep
    cases hpos : requestPosition env key s.log with
    | none =>
      rw [hpos] at hstep
      cases hstep
    | some p =>
      rw [hpos] at hstep
      dsimp only at hstep
      split at hstep
      · rename_i hguard
        cases hstep
        simp only [Bool.and_eq_true, Bool.or_eq_true, Bool.not_eq_true'] at hguard
        obtain ⟨⟨⟨hrows, hmoves⟩, hanswer⟩, hheld⟩ := hguard
        obtain ⟨outcome, hserved, hjust⟩ := served h hpos hrows hmoves hanswer
          (fun hc => by rw [hc] at hheld; simpa using hheld) hsettles
        constructor
        · have hfound : found env (serveCardBuilds env key t s) = found env s := by
            unfold found
            rw [hserved.entry]
          have hmet := hserved.orderly.meet hserved.met
          rw [← hfound] at hmet
          exact hmet
        · intro q hq
          rcases hserved.closes with hcloses | ⟨word, hword, hcloses⟩
          · rw [hcloses] at hq
            exact .inl hq
          · rw [hcloses] at hq
            rcases List.mem_append.mp hq with hq | hq
            · exact .inl hq
            · obtain ⟨rfl, rfl⟩ := Prod.mk.inj (List.mem_singleton.mp hq)
              exact .inr (hjust hword)
      · cases hstep
  | start key pair ts moves =>
    unfold step at hstep
    dsimp only at hstep
    cases hpos : requestPosition env key s.log with
    | none =>
      rw [hpos] at hstep
      cases hstep
    | some p =>
      rw [hpos] at hstep
      dsimp only at hstep
      split at hstep
      · rename_i hguard
        cases hstep
        simp only [Bool.and_eq_true, Bool.not_eq_true', List.contains_iff_mem] at hguard
        exact step_start h hpos hguard.1.1 hguard.1.2 hguard.2
      · cases hstep
  | finish key how =>
    obtain ⟨producer, hget, rfl⟩ := Option.map_eq_some_iff.mp hstep
    refine ⟨?_, closedTruly_same rfl⟩
    have hfinish := Orderly.finish h hget how
    unfold InOrder found
    dsimp only
    rw [show (finishProducer key how producer s.shop).entry = s.shop.entry by
      unfold finishProducer
      cases how with
      | ceiling => rfl
      | returned success =>
        dsimp only
        split <;> rfl]
    exact hfinish
  | swap =>
    cases hstep
    exact ⟨Orderly.swap h, closedTruly_same rfl⟩
  | sweep =>
    cases hstep
    obtain ⟨hsweep, hentry⟩ := Orderly.sweep h
    refine ⟨?_, closedTruly_same rfl⟩
    unfold InOrder found
    dsimp only
    rw [hentry]
    exact hsweep
  | restart =>
    cases hstep
    refine ⟨?_, closedTruly_same rfl⟩
    unfold InOrder found
    dsimp only
    rw [Orderly.receipts h]
    exact Orderly.restart h s.log

/-- What the engine comes to where no close of a paid build comes to nothing. -/
inductive Reached (env : LedgerEnv) : BuildService → Prop where
  | empty : Reached env {}
  | step {s s' : BuildService} {a : Act} : Reached env s → Settles env s a → step env s a = some s' → Reached env s'

theorem reached_inOrder (h : Reached env s) : InOrder env s := by
  induction h with
  | empty => exact inOrder_empty env
  | step _ hsettles hstep ih => exact (step_keeps ih hsettles hstep).1

/-- A speculative node of the log was created for the card of the request in its epoch. -/
def CreatedFor (env : LedgerEnv) (log : List Event) (key : BuildRequest) : Prop :=
  ∃ id n, (replayLog env.toEnv log).run.st.nodes.get id = some n ∧ n.idea.cardId = some key.cardId ∧
    n.speculative = true ∧ n.cardBuildGeneration = some key.generation

theorem created_of_committed {log : List Event} {e : Event}
    (hp : p ∈ newlyClosed env.toEnv (replayLog env.toEnv log) e) (hword : statedOutcome e.data = "committed") :
    ∃ key, (queueOf env log).requests[p]? = some key ∧ CreatedFor env log key := by
  have hholds := queueHolds_replayLog env.toEnv log
  rw [queueOf_eq]
  rcases logStep_builds env.toEnv (replayLog env.toEnv log) e with ⟨hw, -⟩ | ⟨hrow, q, key, hreq, -, hw⟩
  · rw [newlyClosed_nothing hw] at hp
    cases hp
  · rw [newlyClosed_done hholds hreq hw] at hp
    rw [List.mem_singleton.mp hp]
    refine ⟨key, (closedRequest_spec hreq).2.1, ?_⟩
    have hopen := (closed_by_done (e := e) hholds hreq).2.1
    cases hend : buildEnd (replayLog env.toEnv log).run.st key e.data with
    | none =>
      have hsame : (logStep env.toEnv (replayLog env.toEnv log) e).builds = (replayLog env.toEnv log).builds := by
        rw [logStep_row hrow]
        change onCardBuildDone env.toEnv _ _ e = _
        unfold onCardBuildDone
        rw [hreq]
        dsimp only
        rw [hend]
      rw [hsame] at hw
      have hclosed := (closed_by_done (e := e) hholds hreq).2.2 q
      rw [← hw] at hclosed
      exact absurd (hclosed.mpr (.inr rfl)) hopen
    | some ending =>
      have hout := buildEnd_outcome hend
      rw [hword] at hout
      unfold buildEnd at hend
      split at hend
      · rename_i word hskipped
        cases hend
        have hmem := (Option.filter_eq_some_iff.mp hskipped).2
        change word = "committed" at hout
        rw [hout] at hmem
        exact absurd hmem (by decide)
      · obtain ⟨n, hn, -⟩ := Option.map_eq_some_iff.mp hend
        unfold committedNode at hn
        split at hn
        · cases hn
        · simp only [Option.bind_eq_bind, Option.bind_eq_some_iff] at hn
          obtain ⟨m, ⟨id, -, hget⟩, hn⟩ := hn
          split at hn
          · rename_i hnode
            simp only [Bool.and_eq_true, decide_eq_true_eq] at hnode
            exact ⟨id, m, hget, hnode.1.1, hnode.1.2, hnode.2⟩
          · cases hn

end Run

/-! ## Two closes that come to nothing -/

section Examples

def cardZero : BuildRequest := ⟨"card-0", 0⟩

def startedRun : List Act :=
  [.others [{ seq := 0, type := "card_added", data := [("id", .str "card-0")] }], .elect "card-0" 0,
   .start cardZero .ready 0 []]

def busy : Turn where
  moves := List.replicate 64 [{ type := "llm_usage" }]

/-- The build succeeds, the Developer backend is swapped, and the close as `builder_replaced` is lost. -/
def blamedRun : List Act := startedRun ++ [.finish cardZero (.returned true), .swap, .serve cardZero busy]

def boughtAgainRun : List Act := startedRun ++ [.restart, .serve cardZero busy, .start cardZero .ready 0 []]

structure Summary where
  closed : List (Nat × String)
  ended : List (Nat × Bool)
  found : List Nat
  starts : List Nat
  deriving DecidableEq

def summary (s : BuildService) : Summary where
  closed := closes LedgerEnv.plain.toEnv s.log
  ended := s.shop.ended
  found := found LedgerEnv.plain s
  starts := s.starts

def runOf (acts : List Act) : Option BuildService := acts.foldlM (step LedgerEnv.plain) {}

end Examples

end LoopLab.Engine.Speculation
