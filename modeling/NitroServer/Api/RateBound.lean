/-
`rateLimit` (`middleware.dart`) over its in-memory store: how many requests of one client pass.

* `Ledger` — how the hits on one key follow each other: one more in the same window, or a new
  window behind the last one.
* `rate_limit_passes` — in any time as long as a window fewer than two windows' worth of requests
  pass: what is left of one window, and all of the next.
-/

import NitroServer.Api.RateLimit

namespace NitroServer.Api

open Bridge (DartString text)
open Lib
open InMemoryRateLimitStore

/-! ### The middleware -/

/-- A request: when it came, and what the store said. -/
structure Counted where
  now : Int
  hit : RateLimitHit
deriving DecidableEq, Repr

/-- Over the limit a request is answered 429. -/
def Counted.passes (maxRequests : Nat) (a : Counted) : Bool := !decide (maxRequests < a.hit.count)

/-- A request is counted; those of `k` are noted. -/
def serve (store : InMemoryRateLimitStore) (k : DartString) (s : Windows × List Counted) (x : Hit) :
    Windows × List Counted :=
  let (windows, hit) := store.hit s.1 x
  (windows, if x.key = k then s.2 ++ [⟨x.now, hit⟩] else s.2)

/-- The requests of `k` in a sequence. -/
def counted (store : InMemoryRateLimitStore) (k : DartString) (hits : List Hit) : List Counted :=
  (hits.foldl (serve store k) (.empty, [])).2

/-- The later request is in the same window, or a window later. -/
def Counted.Before (window : Int) (a b : Counted) : Prop :=
  (a.hit.resetAt = b.hit.resetAt ∧ a.hit.count < b.hit.count) ∨
    a.hit.resetAt + window ≤ b.hit.resetAt

/-- A request is in its window, which the first one starts. -/
structure Counted.Inside (window : Int) (a : Counted) : Prop where
  before : a.now < a.hit.resetAt
  after : a.hit.resetAt ≤ a.now + window
  first : a.hit.count = 1 → a.hit.resetAt = a.now + window
  positive : 1 ≤ a.hit.count

variable {store : InMemoryRateLimitStore} {k : DartString} {window : Int} {hits : List Hit}
  {x : Hit} {windows : Windows} {entry : RateLimitHit}

theorem serve_windows (store : InMemoryRateLimitStore) (k : DartString) (hits : List Hit) :
    (hits.foldl (serve store k) (.empty, [])).1 = store.after hits := by
  induction hits using List.reverseRecOn with
  | nil => rfl
  | append_singleton hits x ih =>
      rw [List.foldl_append, after_concat, ← ih]
      rfl

theorem counted_concat (hits : List Hit) (x : Hit) :
    counted store k (hits ++ [x]) = counted store k hits ++
      if x.key = k then [⟨x.now, (store.hit (store.after hits) x).2⟩] else [] := by
  have same := serve_windows store k hits
  rw [counted, List.foldl_append, counted, ← same]
  change (if x.key = k then _ ++ _ else _) = _
  split
  · rfl
  · exact (List.append_nil _).symm

/-! ### One hit -/

/-- A hit makes no entry but its own. -/
theorem find_before (other : x.key ≠ k) (found : (store.hit windows x).1.find k = some entry) :
    windows.find k = some entry := by
  have expired (now : Int) (found : (removeExpired windows now).find k = some entry) :
      windows.find k = some entry :=
    Table.find_eq_some_iff.mpr (List.mem_filter.mp (Table.find_eq_some_iff.mp found)).1
  rw [hit] at found
  cases at_ : windows.find x.key with
  | some current =>
      rw [at_] at found
      dsimp only at found
      rwa [Table.find_set, if_neg (Ne.symm other)] at found
  | none =>
      rw [at_] at found
      dsimp only at found
      rw [Table.find_set, if_neg (Ne.symm other)] at found
      split at found
      · rw [evict] at found
        split at found
        · exact expired _ found
        · rw [Table.find_foldl_erase] at found
          split at found
          · cases found
          · exact expired _ found
      · exact found

/-- A hit behind the window, or without one, starts a new window. -/
theorem hit_new (over_ : ∀ entry, windows.find x.key = some entry → entry.resetAt ≤ x.now) :
    (store.hit windows x).2 = ⟨1, x.now + x.window⟩ := by
  rw [hit]
  cases found : windows.find x.key with
  | some current => exact if_neg (Int.not_lt.mpr (over_ current found))
  | none => rfl

theorem InMemoryRateLimitStore.NeverEvicts.init (never : NeverEvicts store (hits ++ [x]) k) :
    NeverEvicts store hits k := by
  intro n inside
  have spares := never n (by rw [List.length_append]; omega)
  rw [List.take_append_of_le_length inside.le, List.getElem_append_left inside] at spares
  exact spares

/-! ### The hits on one key -/

theorem Counted.Before.resetAt_le {a b : Counted} (positive : 0 < window)
    (h : a.Before window b) : a.hit.resetAt ≤ b.hit.resetAt := by
  rcases h with ⟨same, -⟩ | later
  · exact same.le
  · omega

/-- What holds of the requests of `k` after a sequence. -/
structure Ledger (store : InMemoryRateLimitStore) (k : DartString) (window : Int)
    (hits : List Hit) : Prop where
  order : (counted store k hits).Pairwise (Counted.Before window)
  inside : ∀ a ∈ counted store k hits, a.Inside window
  /-- The entry that stands is the last one. -/
  stands : ∀ entry, (store.after hits).find k = some entry →
    ∃ front a, counted store k hits = front ++ [a] ∧ a.hit = entry ∧ ∃ y ∈ hits, y.now = a.now
  /-- Without one the last window is over. -/
  gone : (store.after hits).find k = none → ∀ a ∈ counted store k hits, ∀ now,
    (∀ y ∈ hits, y.now ≤ now) → a.hit.resetAt ≤ now

/-- No window reaches beyond the entry that stands. -/
theorem Ledger.latest (h : Ledger store k window hits) (positive : 0 < window)
    (found : (store.after hits).find k = some entry) :
    ∀ a ∈ counted store k hits, a.hit.resetAt ≤ entry.resetAt := by
  obtain ⟨front, last, shape, same, -⟩ := h.stands entry found
  have order := h.order
  rw [shape, List.pairwise_append] at order
  intro a mem
  rw [shape] at mem
  rcases List.mem_append.mp mem with earlier | here
  · rw [← same]
    exact (order.2.2 a earlier last (List.mem_singleton_self _)).resetAt_le positive
  · rw [List.mem_singleton.mp here, same]

/-- A hit on another key. -/
theorem Ledger.other (h : Ledger store k window hits) (positive : 0 < window) (other : x.key ≠ k)
    (spares : Spares store (store.after hits) x k) :
    Ledger store k window (hits ++ [x]) := by
  have same : counted store k (hits ++ [x]) = counted store k hits := by
    rw [counted_concat, if_neg other, List.append_nil]
  refine ⟨same ▸ h.order, same ▸ h.inside, fun entry found => ?_, fun none_ a mem now all => ?_⟩
  · rw [after_concat] at found
    obtain ⟨front, a, shape, hit, y, mem, at_⟩ := h.stands entry (find_before other found)
    exact ⟨front, a, same.trans shape, hit, y, List.mem_append_left _ mem, at_⟩
  · rw [same] at mem
    rw [after_concat] at none_
    have here : x.now ≤ now := all x (List.mem_append_right _ (List.mem_singleton_self _))
    cases found : (store.after hits).find k with
    | none => exact h.gone found a mem now fun y old => all y (List.mem_append_left _ old)
    | some entry =>
        have over_ : entry.resetAt ≤ x.now := by
          by_contra open_
          rw [find_hit_other other (Int.not_le.mp open_) spares found] at none_
          cases none_
        exact (h.latest positive found a mem).trans (over_.trans here)

/-- A request behind every window. -/
theorem fits_new (positive : 0 < window) (same : x.window = window)
    (over_ : ∀ entry, windows.find x.key = some entry → entry.resetAt ≤ x.now)
    {l : List Counted} (ended : ∀ a ∈ l, a.hit.resetAt ≤ x.now) :
    (∀ a ∈ l, a.Before window ⟨x.now, (store.hit windows x).2⟩) ∧
      Counted.Inside window ⟨x.now, (store.hit windows x).2⟩ := by
  rw [hit_new over_, same]
  refine ⟨fun a mem => .inr ?_, ⟨?_, Int.le_refl _, fun _ => rfl, Nat.le_refl _⟩⟩
  · exact Int.add_le_add_right (ended a mem) window
  · dsimp only
    omega

/-- A request of the key is behind the others, and in its window. -/
theorem Ledger.fits (h : Ledger store x.key window hits) (positive : 0 < window)
    (same : x.window = window) (later : ∀ y ∈ hits, y.now ≤ x.now) :
    (∀ a ∈ counted store x.key hits,
        a.Before window ⟨x.now, (store.hit (store.after hits) x).2⟩) ∧
      Counted.Inside window ⟨x.now, (store.hit (store.after hits) x).2⟩ := by
  cases found : (store.after hits).find x.key with
  | none =>
      refine fits_new positive same (fun entry there => ?_) fun a mem =>
        h.gone found a mem x.now later
      rw [found] at there
      cases there
  | some entry =>
      by_cases open_ : x.now < entry.resetAt
      · -- the window goes on: the entry is the last request's
        obtain ⟨front, last, split_, hit_, y, mem, at_⟩ := h.stands entry found
        have order := h.order
        have last_in := h.inside last (by rw [split_]; exact List.mem_append_right _ (by simp))
        rw [split_, List.pairwise_append] at order
        rw [hit_open open_ found, split_]
        refine ⟨fun a there => ?_, ⟨open_, ?_, fun one => ?_, ?_⟩⟩
        · rcases List.mem_append.mp there with earlier | here
          · rcases order.2.2 a earlier last (List.mem_singleton_self _) with ⟨reset, fewer⟩ | far
            · exact .inl ⟨reset.trans (by rw [hit_]), Nat.lt_succ_of_lt (hit_ ▸ fewer)⟩
            · exact .inr (hit_ ▸ far)
          · rw [List.mem_singleton.mp here, Counted.Before, hit_]
            exact .inl ⟨rfl, Nat.lt_succ_self _⟩
        · have ahead := later y mem
          have bound := last_in.after
          rw [hit_] at bound
          dsimp only
          omega
        · have some_ := last_in.positive
          rw [hit_] at some_
          dsimp only at one
          omega
        · exact Nat.le_add_left 1 _
      · have over_ : entry.resetAt ≤ x.now := Int.not_lt.mp open_
        refine fits_new positive same (fun entry' there => ?_) fun a mem =>
          (h.latest positive found a mem).trans over_
        rw [found, Option.some.injEq] at there
        exact there ▸ over_

/-- A hit on the key. -/
theorem Ledger.own (h : Ledger store k window hits) (positive : 0 < window) (own : x.key = k)
    (same : x.window = window) (later : ∀ y ∈ hits, y.now ≤ x.now) :
    Ledger store k window (hits ++ [x]) := by
  subst own
  have shape : counted store x.key (hits ++ [x]) = counted store x.key hits ++
      [⟨x.now, (store.hit (store.after hits) x).2⟩] := by
    rw [counted_concat, if_pos rfl]
  have fits := h.fits positive same later
  refine ⟨?_, ?_, fun entry found => ?_, fun none_ => ?_⟩
  · rw [shape, List.pairwise_append]
    refine ⟨h.order, List.pairwise_singleton _ _, fun a mem b last => ?_⟩
    rw [List.mem_singleton.mp last]
    exact fits.1 a mem
  · rw [shape, List.forall_mem_append, List.forall_mem_singleton]
    exact ⟨h.inside, fits.2⟩
  · rw [after_concat, find_hit, Option.some.injEq] at found
    exact ⟨_, _, shape, found, x, List.mem_append_right _ (List.mem_singleton_self _), rfl⟩
  · rw [after_concat, find_hit] at none_
    cases none_

/-- In time order, with one window, while `k` is not evicted. -/
theorem ledger_of (positive : 0 < window) (sorted : hits.Pairwise fun a b => a.now ≤ b.now)
    (same : ∀ x ∈ hits, x.window = window) (never : NeverEvicts store hits k) :
    Ledger store k window hits := by
  induction hits using List.reverseRecOn with
  | nil =>
      refine ⟨.nil, fun a mem => ?_, fun entry found => ?_, fun _ a mem => ?_⟩
      · cases mem
      · cases found
      · cases mem
  | append_singleton hits x ih =>
      rw [List.pairwise_append] at sorted
      rw [List.forall_mem_append, List.forall_mem_singleton] at same
      have later : ∀ y ∈ hits, y.now ≤ x.now := fun y mem =>
        sorted.2.2 y mem x (List.mem_singleton_self _)
      have before := ih sorted.1 same.1 never.init
      by_cases own : x.key = k
      · exact before.own positive own same.2 later
      · exact before.other positive own (never.spares List.prefix_rfl)

/-! ### Counting -/

/-- The requests of one window have different counts. -/
theorem length_window_le {l : List Counted} {low high : Nat} {resetAt : Int} (positive : 0 < window)
    (order : l.Pairwise (Counted.Before window)) (one : ∀ a ∈ l, a.hit.resetAt = resetAt)
    (between : ∀ a ∈ l, low ≤ a.hit.count ∧ a.hit.count ≤ high) : l.length ≤ high + 1 - low := by
  have increasing : (l.map fun a => a.hit.count).Pairwise (· < ·) := by
    rw [List.pairwise_map]
    refine order.imp_of_mem fun {a b} left right before => ?_
    rcases before with ⟨-, fewer⟩ | far
    · exact fewer
    · have here := one a left
      have there := one b right
      omega
  have nodup : (l.map fun a => a.hit.count).Nodup := increasing.imp fun less => less.ne
  have within : (l.map fun a => a.hit.count).toFinset ⊆ Finset.Icc low high := by
    intro n mem
    obtain ⟨a, there, rfl⟩ := List.mem_map.mp (List.mem_toFinset.mp mem)
    exact Finset.mem_Icc.mpr (between a there)
  have few := Finset.card_le_card within
  rwa [List.toFinset_card_of_nodup nodup, List.length_map, Nat.card_Icc] at few

/-- In a stretch of time as long as a window there is the end of one window and the start of the
next. -/
theorem length_stretch_le {l : List Counted} {maxRequests : Nat} {t : Int} (positive : 0 < window)
    (order : l.Pairwise (Counted.Before window)) (inside : ∀ a ∈ l, a.Inside window)
    (few : ∀ a ∈ l, a.hit.count ≤ maxRequests) (stretch : ∀ a ∈ l, t ≤ a.now ∧ a.now < t + window) :
    l.length ≤ 2 * maxRequests - 1 := by
  cases l with
  | nil => exact Nat.zero_le _
  | cons a l =>
      have here : a ∈ a :: l := List.mem_cons_self
      have most := few a here
      have least := (inside a here).positive
      -- what shares the window of the first request, and the rest
      set now_ := (a :: l).filter fun b => decide (b.hit.resetAt = a.hit.resetAt)
      set next := (a :: l).filter fun b => !decide (b.hit.resetAt = a.hit.resetAt)
      have parts : (a :: l).length = now_.length + next.length :=
        List.length_eq_length_filter_add _
      have now_mem : ∀ b ∈ now_, b ∈ a :: l ∧ b.hit.resetAt = a.hit.resetAt := by
        intro b mem
        obtain ⟨there, same⟩ := List.mem_filter.mp mem
        exact ⟨there, of_decide_eq_true same⟩
      have next_mem : ∀ b ∈ next, b ∈ a :: l ∧ a.hit.resetAt + window ≤ b.hit.resetAt := by
        intro b mem
        obtain ⟨there, other⟩ := List.mem_filter.mp mem
        have apart : b.hit.resetAt ≠ a.hit.resetAt := by simpa using other
        refine ⟨there, ?_⟩
        rcases List.mem_cons.mp there with rfl | behind
        · exact absurd rfl apart
        · rcases List.rel_of_pairwise_cons order behind with ⟨same, -⟩ | far
          · exact absurd same.symm apart
          · exact far
      have now_order : now_.Pairwise (Counted.Before window) := order.filter _
      have next_order : next.Pairwise (Counted.Before window) := order.filter _
      cases shape : next with
      | nil =>
          have bound : now_.length ≤ maxRequests + 1 - 1 :=
            length_window_le positive now_order (fun b mem => (now_mem b mem).2) fun b mem =>
              ⟨(inside b (now_mem b mem).1).positive, few b (now_mem b mem).1⟩
          rw [shape, List.length_nil] at parts
          omega
      | cons b rest =>
          obtain ⟨b_in, b_far⟩ := next_mem b (shape ▸ List.mem_cons_self)
          have starts : ∀ c ∈ now_, 2 ≤ c.hit.count := by
            intro c mem
            obtain ⟨c_in, c_same⟩ := now_mem c mem
            by_contra one
            have some_ := (inside c c_in).positive
            have start := (inside c c_in).first (by omega)
            have c_time := stretch c c_in
            have b_time := stretch b b_in
            have b_after := (inside b b_in).after
            omega
          have first : now_.length ≤ maxRequests + 1 - 2 :=
            length_window_le positive now_order (fun c mem => (now_mem c mem).2) fun c mem =>
              ⟨starts c mem, few c (now_mem c mem).1⟩
          have together : ∀ c ∈ next, c.hit.resetAt = b.hit.resetAt := by
            intro c mem
            have c_in := (next_mem c mem).1
            rw [shape] at mem next_order
            rcases List.mem_cons.mp mem with rfl | behind
            · rfl
            · rcases List.rel_of_pairwise_cons next_order behind with ⟨same, -⟩ | far
              · exact same.symm
              · have c_time := stretch c c_in
                have c_after := (inside c c_in).after
                have a_time := stretch a here
                have a_before := (inside a here).before
                omega
          have second : next.length ≤ maxRequests + 1 - 1 :=
            length_window_le positive next_order together fun c mem =>
              ⟨(inside c (next_mem c mem).1).positive, few c (next_mem c mem).1⟩
          omega

/-- Hits in time order, all with the same window, none of which evicts the client `k`: in any
stretch of time as long as the window fewer than twice `maxRequests` requests of `k` pass. -/
theorem rate_limit_passes (store : InMemoryRateLimitStore) (maxRequests : Nat) {window : Int}
    (positive : 0 < window) {hits : List Hit} (sorted : hits.Pairwise fun a b => a.now ≤ b.now)
    (same : ∀ x ∈ hits, x.window = window) {k : DartString} (never : NeverEvicts store hits k)
    (t : Int) :
    ((counted store k hits).filter fun a =>
      a.passes maxRequests && decide (t ≤ a.now ∧ a.now < t + window)).length ≤
        2 * maxRequests - 1 := by
  have ledger := ledger_of positive sorted same never
  have kept : ∀ a ∈ (counted store k hits).filter fun a =>
      a.passes maxRequests && decide (t ≤ a.now ∧ a.now < t + window),
      a ∈ counted store k hits ∧ a.hit.count ≤ maxRequests ∧ t ≤ a.now ∧ a.now < t + window := by
    intro a mem
    obtain ⟨there, both⟩ := List.mem_filter.mp mem
    simp only [Counted.passes, Bool.and_eq_true, Bool.not_eq_true', decide_eq_false_iff_not,
      Nat.not_lt, decide_eq_true_eq] at both
    exact ⟨there, both⟩
  exact length_stretch_le positive (ledger.order.filter _)
    (fun a mem => ledger.inside a (kept a mem).1) (fun a mem => (kept a mem).2.1)
    fun a mem => (kept a mem).2.2

/-- One request at the start of a window, two at its end and three behind it, with another client
in between: with two allowed, three of them pass between 59 and 119. -/
def burstHits : List Hit :=
  [⟨0, text "a", 60⟩, ⟨30, text "b", 60⟩, ⟨59, text "a", 60⟩, ⟨59, text "a", 60⟩,
    ⟨60, text "a", 60⟩, ⟨61, text "a", 60⟩, ⟨62, text "a", 60⟩]

theorem rate_limit_passes_burst :
    ((counted twoKeys (text "a") burstHits).filter fun a =>
      a.passes 2 && decide ((59 : Int) ≤ a.now ∧ a.now < 59 + 60)).map Counted.now = [59, 60, 61] ∧
    ((counted twoKeys (text "a") burstHits).filter fun a =>
      a.passes 2 && decide ((59 : Int) ≤ a.now ∧ a.now < 59 + 60)).length ≤ 2 * 2 - 1 :=
  ⟨by decide +kernel, rate_limit_passes twoKeys 2 (by decide) (by decide +kernel)
    (by decide +kernel) (by decide +kernel) 59⟩

end NitroServer.Api
