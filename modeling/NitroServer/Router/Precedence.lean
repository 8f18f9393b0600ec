/-
The documented precedence of routes, and when `match` follows it.

The order in the router's header comment goes level by level from the left: a static
segment beats `:param`, which beats `*`; at one pattern the entry of the request's own
method beats the `All` entry. `match` ranks candidates by one accumulated score instead.

* `candidates_pairwise`, `hasFirst_candidates` — the order of the candidates.
* `match_precedence` — `match` returns the documented first route exactly when that route
  also has the highest score.
* `score_outranks_level` — a history for which it does not.
-/

import NitroServer.Router.Match

namespace NitroServer.Routing

open NitroServer.Engine NitroServer.Lib

/-! ### The documented order -/

/-- One pattern goes before another, from the left: at the first segment where they
differ a literal beats `:param` and both beat `*`; a pattern that ends beats a `*`. -/
def precedes : Slot → Slot → Bool
  | .lit s :: p, .lit t :: q => s == t && precedes p q
  | .param :: p, .param :: q => precedes p q
  | .wild :: p, .wild :: q => precedes p q
  | .lit _ :: _, .param :: _ => true
  | .lit _ :: _, .wild :: _ => true
  | .param :: _, .wild :: _ => true
  | [], .wild :: _ => true
  | _, _ => false

theorem precedes_asymm {p q : Slot} (h : precedes p q = true) : precedes q p = false := by
  induction p generalizing q with
  | nil =>
      match q, h with
      | .wild :: q, _ => rfl
  | cons e p ih =>
      match e, q, h with
      | .lit s, .lit t :: q, h =>
          simp only [precedes, Bool.and_eq_true, beq_iff_eq] at h
          simp [precedes, h.1, ih h.2]
      | .lit _, .param :: _, _ => rfl
      | .lit _, .wild :: _, _ => rfl
      | .param, .param :: q, h => exact ih h
      | .param, .wild :: _, _ => rfl
      | .wild, .wild :: q, h => exact ih h

theorem precedes_append (p q r : Slot) : precedes (p ++ q) (p ++ r) = precedes q r := by
  induction p with
  | nil => rfl
  | cons e p ih =>
      cases e with
      | lit s => simp [precedes, ih]
      | param => simpa [precedes] using ih
      | wild => simpa [precedes] using ih

/-- A registered route that answers and goes before every other one that does. -/
structure First (calls : List Call) (method : Method) (custom path : Bytes) (e : RouteEntry) :
    Prop where
  registered : e ∈ registered calls
  answers : Answers e method custom path
  before : ∀ e' ∈ Routing.registered calls, Answers e' method custom path → e' ≠ e →
    precedes (slotOf e.pattern) (slotOf e'.pattern) = true ∨
      (slotOf e.pattern = slotOf e'.pattern ∧
        methodRank e method custom < methodRank e' method custom)

/-- No route that answers scores more than `b`, nor as much with a method of its own
where `b` is an `All` route. -/
def Outscores (calls : List Call) (method : Method) (custom path : Bytes) (b : RouteEntry) : Prop :=
  ∀ e ∈ registered calls, Answers e method custom path →
    score (slotOf e.pattern) < score (slotOf b.pattern) ∨
      (score (slotOf e.pattern) = score (slotOf b.pattern) ∧ (b.method = .all → e.method = .all))

/-! ### The order of the candidates -/

section Candidates

variable {picks : Slot → Option RouteEntry} {names : Slot → Bytes}

theorem slot_of_mem {c : Candidate} {segs : List Bytes} {p : Slot} {params : List RouteParam}
    {spec : Nat} (h : c ∈ candidates picks names segs p params spec) :
    ∃ q, c.slot = p ++ q ∧ c.spec = spec + score q := by
  obtain ⟨-, q, hs, -, hspec, -⟩ := mem_candidates.mp h
  exact ⟨q, hs, hspec⟩

/-- Candidates are met in the documented order, except that a `*` is met before what has
a higher score. -/
theorem candidates_pairwise (segs : List Bytes) (p : Slot) (params : List RouteParam) (spec : Nat) :
    (candidates picks names segs p params spec).Pairwise fun a b =>
      precedes a.slot b.slot = true ∨ a.spec < b.spec := by
  have single : ∀ p params spec, (candidateAt picks p params spec).Pairwise fun a b =>
      precedes a.slot b.slot = true ∨ a.spec < b.spec := by
    intro p params spec
    rw [candidateAt]
    cases picks p <;> simp
  induction segs generalizing p params spec with
  | nil =>
      rw [candidates, List.pairwise_append]
      refine ⟨single _ _ _, single _ _ _, fun a ha b hb => .inl ?_⟩
      rw [mem_candidateAt] at ha hb
      rw [ha.2.1, hb.2.1]
      simpa [precedes] using precedes_append p [] [.wild]
  | cons seg rest ih =>
      rw [candidates, List.pairwise_append, List.pairwise_append]
      refine ⟨single _ _ _, ⟨ih _ _ _, ih _ _ _, fun a ha b hb => .inl ?_⟩,
        fun a ha b hb => .inr ?_⟩
      · obtain ⟨q, hq, -⟩ := slot_of_mem ha
        obtain ⟨r, hr, -⟩ := slot_of_mem hb
        rw [hq, hr, List.append_assoc, List.append_assoc, precedes_append]
        rfl
      · rw [mem_candidateAt] at ha
        have hspec : a.spec = spec := ha.2.2.1
        rcases List.mem_append.mp hb with hb | hb
        · obtain ⟨q, -, hq⟩ := slot_of_mem hb
          omega
        · obtain ⟨q, -, hq⟩ := slot_of_mem hb
          omega

/-- One of the candidates goes before all the others, if there are any. -/
def HasFirst (cs : List Candidate) : Prop :=
  cs ≠ [] → ∃ c ∈ cs, ∀ d ∈ cs, d.slot = c.slot ∨ precedes c.slot d.slot = true

theorem hasFirst_candidateAt (p : Slot) (params : List RouteParam) (spec : Nat) :
    HasFirst (candidateAt picks p params spec) := by
  intro some_one
  obtain ⟨c, hc⟩ := List.exists_mem_of_ne_nil _ some_one
  refine ⟨c, hc, fun d hd => .inl ?_⟩
  rw [mem_candidateAt] at hc hd
  rw [hc.2.1, hd.2.1]

theorem HasFirst.append {as bs : List Candidate} (ha : HasFirst as) (hb : HasFirst bs)
    (before : ∀ a ∈ as, ∀ b ∈ bs, precedes a.slot b.slot = true) : HasFirst (as ++ bs) := by
  intro some_one
  by_cases none_left : as = []
  · rw [none_left] at some_one ⊢
    exact hb some_one
  · obtain ⟨c, hc, first⟩ := ha none_left
    refine ⟨c, List.mem_append_left _ hc, fun d hd => ?_⟩
    rcases List.mem_append.mp hd with hd | hd
    · exact first d hd
    · exact .inr (before c hc d hd)

theorem HasFirst.perm {as bs : List Candidate} (ha : HasFirst as) (perm : as.Perm bs) :
    HasFirst bs := by
  intro some_one
  obtain ⟨c, hc, first⟩ := ha fun h => some_one (List.nil_perm.mp (h ▸ perm))
  exact ⟨c, perm.mem_iff.mp hc, fun d hd => first d (perm.mem_iff.mpr hd)⟩

/-- The static child's candidates go first, then the parameter's, then the `*`. -/
theorem hasFirst_candidates (segs : List Bytes) (p : Slot) (params : List RouteParam) (spec : Nat) :
    HasFirst (candidates picks names segs p params spec) := by
  induction segs generalizing p params spec with
  | nil =>
      rw [candidates]
      refine (hasFirst_candidateAt _ _ _).append (hasFirst_candidateAt _ _ _) fun a ha b hb => ?_
      rw [mem_candidateAt] at ha hb
      rw [ha.2.1, hb.2.1]
      simpa [precedes] using precedes_append p [] [.wild]
  | cons seg rest ih =>
      rw [candidates]
      refine HasFirst.perm ?_ List.perm_append_comm
      have children := (ih (p ++ [.lit seg]) params (spec + 2)).append
        (ih (p ++ [.param]) (params ++ capture (names p) seg) (spec + 1)) (by
          intro a ha b hb
          obtain ⟨q, hq, -⟩ := slot_of_mem ha
          obtain ⟨r, hr, -⟩ := slot_of_mem hb
          rw [hq, hr, List.append_assoc, List.append_assoc, precedes_append]
          rfl)
      refine children.append (hasFirst_candidateAt _ _ _) fun a ha b hb => ?_
      rw [mem_candidateAt] at hb
      rw [hb.2.1]
      rcases List.mem_append.mp ha with ha | ha
      · obtain ⟨q, hq, -⟩ := slot_of_mem ha
        rw [hq, List.append_assoc, precedes_append]
        rfl
      · obtain ⟨q, hq, -⟩ := slot_of_mem ha
        rw [hq, List.append_assoc, precedes_append]
        rfl

end Candidates

/-! ### When `match` follows the order -/

section Follows

variable {calls : List Call} {method : Method} {custom path : Bytes}

/-- The candidate of the first slot holds the documented first route. -/
theorem first_of_candidate {c : Candidate} (hc : c ∈ found calls method custom path)
    (first : ∀ d ∈ found calls method custom path, d.slot = c.slot ∨ precedes c.slot d.slot = true) :
    First calls method custom path c.entry := by
  obtain ⟨mem, slot, answers, -, -, ranked⟩ := mem_found hc
  refine ⟨mem, answers, fun e he ha hne => ?_⟩
  obtain ⟨d, hd, hslot⟩ := found_of_answers he ha
  rw [slot, ← hslot]
  rcases first d hd with same | before
  · exact .inr ⟨same.symm, ranked e he (hslot.symm.trans same) ha.2 hne⟩
  · exact .inl before

theorem First.unique {a b : RouteEntry} (ha : First calls method custom path a)
    (hb : First calls method custom path b) : a = b := by
  by_contra hne
  rcases ha.before b hb.registered hb.answers (Ne.symm hne) with h | ⟨hs, h⟩
  · rcases hb.before a ha.registered ha.answers hne with h' | ⟨hs', -⟩
    · rw [precedes_asymm h] at h'
      cases h'
    · rw [hs'] at h
      exact absurd (precedes_asymm h) (by rw [h]; decide)
  · rcases hb.before a ha.registered ha.answers hne with h' | ⟨-, h'⟩
    · rw [hs] at h'
      exact absurd (precedes_asymm h') (by rw [h']; decide)
    · omega

/-- The documented first route is the entry of a candidate. -/
theorem First.candidate {b : RouteEntry} (hb : First calls method custom path b) :
    ∃ c ∈ found calls method custom path, c.entry = b ∧
      ∀ d ∈ found calls method custom path, d.slot = c.slot ∨ precedes c.slot d.slot = true := by
  obtain ⟨d, hd, -⟩ := found_of_answers hb.registered hb.answers
  obtain ⟨c, hc, first⟩ := hasFirst_candidates _ _ _ _ (List.ne_nil_of_mem hd)
  exact ⟨c, hc, (first_of_candidate hc first).unique hb, first⟩

/-- The rank of a candidate, against the documented condition. -/
theorem rank_le_iff {c d : Candidate} :
    c.rank ≤ d.rank ↔
      c.spec < d.spec ∨ (c.spec = d.spec ∧ (d.entry.method = .all → c.entry.method = .all)) := by
  simp only [Candidate.rank]
  by_cases hc : c.entry.method = .all
  · by_cases hd : d.entry.method = .all
    · simp only [hc, hd, if_true, forall_const, and_true]
      omega
    · simp only [hc, hd, if_true, if_false, false_implies, and_true]
      omega
  · by_cases hd : d.entry.method = .all
    · simp only [hc, hd, if_true, if_false, forall_const, and_false, or_false]
      omega
    · simp only [hc, hd, if_false, false_implies, and_true]
      omega

/-- Where the entry picked at a slot is an `All` route, so is every accepted one. -/
theorem all_of_picked_all {c : Candidate} (hc : c ∈ found calls method custom path)
    (hall : c.entry.method = .all) {e : RouteEntry} (he : e ∈ registered calls)
    (hslot : slotOf e.pattern = c.slot) (accepts : Accepts e method custom) : e.method = .all := by
  by_contra hne
  have ranked := (mem_found hc).2.2.2.2.2 e he hslot accepts fun h => hne (h ▸ hall)
  have low : methodRank e method custom ≤ 1 := by
    rw [methodRank]
    rcases accepts with same | ⟨hg, -⟩ | ⟨ha, -⟩
    · rw [if_pos same]
      omega
    · rw [if_pos hg]
      split <;> omega
    · exact absurd ha hne
  have same : sameMethod c.entry.method c.entry.customMethod method custom := by
    by_contra other
    rw [methodRank, if_neg other, if_neg (by rw [hall]; decide)] at ranked
    omega
  have hm : method = .all := same.1.symm.trans hall
  rcases accepts with same' | ⟨-, hh⟩ | ⟨ha, -⟩
  · exact hne (same'.1.trans hm)
  · rw [hm] at hh
    cases hh
  · exact hne ha

/-- A candidate of the highest rank outscores every route that answers, and conversely. -/
theorem outscores_iff {c : Candidate} (hc : c ∈ found calls method custom path) :
    Outscores calls method custom path c.entry ↔
      ∀ d ∈ found calls method custom path, d.rank ≤ c.rank := by
  obtain ⟨-, cslot, -, cspec, -⟩ := mem_found hc
  constructor
  · intro h d hd
    obtain ⟨mem, dslot, answers, dspec, -⟩ := mem_found hd
    have better := h d.entry mem answers
    rw [dslot, cslot, ← dspec, ← cspec] at better
    exact rank_le_iff.mpr better
  · intro h e he answers
    obtain ⟨d, hd, dslot⟩ := found_of_answers he answers
    obtain ⟨-, -, -, dspec, -⟩ := mem_found hd
    rw [cslot, ← dslot, ← dspec, ← cspec]
    rcases rank_le_iff.mp (h d hd) with less | ⟨same, all⟩
    · exact .inl less
    · exact .inr ⟨same, fun hb => all_of_picked_all hd (all hb) he dslot.symm answers.2⟩

/-- Of two candidates of one rank, `argmax` returns the one the documented order puts
first. -/
theorem argmax_before {m c : Candidate}
    (hm : (found calls method custom path).argmax Candidate.rank = some m)
    (hc : c ∈ found calls method custom path) (rank : m.rank = c.rank) (hne : m ≠ c) :
    precedes m.slot c.slot = true := by
  have mem : m ∈ found calls method custom path := List.argmax_mem hm
  have index := List.index_of_argmax hm hc (Nat.le_of_eq rank)
  have distinct : (found calls method custom path).idxOf m ≠
      (found calls method custom path).idxOf c := fun h => hne (List.idxOf_inj mem |>.mp h)
  have pairs : (found calls method custom path).Pairwise fun a b =>
      precedes a.slot b.slot = true ∨ a.spec < b.spec := candidates_pairwise _ _ _ _
  have ordered := List.pairwise_iff_getElem.mp pairs _ _
    (List.idxOf_lt_length_iff.mpr mem) (List.idxOf_lt_length_iff.mpr hc)
    (Nat.lt_of_le_of_ne index distinct)
  have spec : ¬ m.spec < c.spec := by
    rcases rank_le_iff.mp (Nat.le_of_eq rank.symm) with h | h <;> omega
  have at_m := List.getElem_idxOf (List.idxOf_lt_length_iff.mpr mem)
  have at_c := List.getElem_idxOf (List.idxOf_lt_length_iff.mpr hc)
  rw [at_m, at_c] at ordered
  exact ordered.resolve_right spec

end Follows

/-- `match` returns the route the documented order puts first exactly when no route that
answers has a higher score than that one, nor as high a score with a method of its own
where that one is an `All` route. -/
theorem match_precedence (calls : List Call) (method : Method) (custom path : Bytes) :
    (∀ e, ((run calls).match method custom path).route = some e →
      First calls method custom path e) ↔
    ∀ b, First calls method custom path b → Outscores calls method custom path b := by
  constructor
  · intro follows b hb
    obtain ⟨c, hc, -⟩ := hb.candidate
    cases hm : (found calls method custom path).argmax Candidate.rank with
    | none => exact absurd (List.argmax_eq_none.mp hm) (List.ne_nil_of_mem hc)
    | some m =>
        have first := follows m.entry (by rw [match_of_argmax hm])
        rw [hb.unique first]
        exact (outscores_iff (List.argmax_mem hm)).mpr fun d hd => List.le_of_mem_argmax hd hm
  · intro outscores e he
    obtain ⟨m, hm, rfl, -⟩ := argmax_of_route he
    have mem : m ∈ found calls method custom path := List.argmax_mem hm
    obtain ⟨c, hc, first⟩ := hasFirst_candidates _ _ _ _ (List.ne_nil_of_mem mem)
    have hb := first_of_candidate hc first
    have top := (outscores_iff hc).mp (outscores _ hb)
    have rank : m.rank = c.rank := Nat.le_antisymm (top m mem) (List.le_of_mem_argmax hc hm)
    by_cases same : m = c
    · rw [same]
      exact hb
    · have before := argmax_before hm hc rank same
      rcases first m mem with slot | after
      · rw [slot] at before
        exact absurd (precedes_asymm before) (by rw [before]; decide)
      · rw [precedes_asymm before] at after
        cases after

/-- The patterns `/a/:x/:y` and `/:p/b/c`, in this order, both for GET. -/
def levelCalls : List Call :=
  [.add { pattern := ascii "/a/:x/:y" }, .add { pattern := ascii "/:p/b/c" }]

/-- For `/a/b/c` the level rule prefers the static first segment of `/a/:x/:y`; the score
of `/:p/b/c` is higher and `match` returns that one. -/
theorem score_outranks_level :
    ∃ e, ((run levelCalls).match .get [] (ascii "/a/b/c")).route = some e ∧
      ¬ First levelCalls .get [] (ascii "/a/b/c") e := by
  refine ⟨{ pattern := ascii "/:p/b/c" }, by decide +kernel, fun h => ?_⟩
  have before := h.before { pattern := ascii "/a/:x/:y" } (by decide +kernel)
    ⟨by decide +kernel, .inl ⟨rfl, fun _ => rfl⟩⟩ (by decide +kernel)
  revert before
  decide +kernel

end NitroServer.Routing
