/-
A pooled writer belongs to one response and its copies, until it is given back.

The guard of `release` is a flag on the writer, which the next `checkout` clears. So the guard
catches a second release only until then; a response that is used again after its writer was
given back (`cached_response_corrupted`: a handler that returns a cached one) reads, and
releases, what is by then another response's writer. `Fresh` is the condition that no response
is.

* `Kept` — the invariant: a writer not given back holds what its build function wrote, and
  neither the free list nor another build has it.
* `fresh_kept` — every fresh step keeps it.
* `writers_not_shared` — every fresh run; and, copies apart, no two open responses share.
-/

import NitroServer.Writers.Pool
import NitroServer.Lib.Snoc

namespace NitroServer.Writers

open Engine (Bytes)
open Lib

variable {s t : Isolate} {w r : Nat} {bytes : Bytes} {response : Response} {a : Act}

/-! ### The condition -/

/-- The response that an act uses. -/
def Act.uses : Act → Option Nat
  | .construct _ _ => none
  | .copyWith r => some r
  | .deliver r _ => some r
  | .release r => some r

/-- The writer of the response that is used was not given back. -/
def Fresh (s : Isolate) (a : Act) : Prop :=
  ∀ response ∈ a.uses.bind (s.responses[·]?), response.build ∉ s.spent

instance : Decidable (Fresh s a) := by
  unfold Fresh
  infer_instance

/-- The same, and no response is copied. -/
def Uncopied (s : Isolate) (a : Act) : Prop := Fresh s a ∧ ∀ r, a ≠ .copyWith r

/-! ### The invariant -/

structure Kept (s : Isolate) : Prop where
  clean : Clean s
  /-- A response and its copies have the writer of their build. -/
  traced : ∀ response ∈ s.responses, ∃ bytes, s.builds[response.build]? =
    some ⟨response.bodyWriter, bytes⟩
  held : ∀ i b, s.builds[i]? = some b → i ∉ s.spent → s.writers[b.writer]? =
    some ⟨b.bytes, false, false⟩
  apart : ∀ i j b c, s.builds[i]? = some b → s.builds[j]? = some c → i ∉ s.spent → j ∉ s.spent →
    b.writer = c.writer → i = j
  handed : ∀ e ∈ s.handed, ∃ response b, s.responses[e.1]? = some response ∧
    s.builds[response.build]? = some b ∧ e.2 = some b.bytes

theorem kept_empty : Kept {} where
  clean := ⟨fun w none => (by cases none), List.nodup_nil⟩
  traced response none := by cases none
  held i b none := by cases none
  apart i j b c none := by cases none
  handed e none := by cases none

/-- What a held writer shows the engine. -/
theorem Kept.buffer (k : Kept s) (hr : s.responses[r]? = some response)
    (unspent : response.build ∉ s.spent) : ∃ b, s.builds[response.build]? = some b ∧
      b.writer = response.bodyWriter ∧ bufferOf response.bodyWriter s = some b.bytes := by
  obtain ⟨bytes, hb⟩ := k.traced response (List.mem_of_getElem? hr)
  refine ⟨_, hb, rfl, ?_⟩
  rw [bufferOf, k.held _ _ hb unspent]
  rfl

/-! ### Steps -/

/-- A free writer is not one that is held. -/
theorem Kept.not_held (k : Kept s) (free : ∀ x, s.writers[w]? = some x → x.pooled = true)
    {i : Nat} {b : Build} (hb : s.builds[i]? = some b) (unspent : i ∉ s.spent) : b.writer ≠ w := by
  rintro rfl
  have used := free _ (k.held i b hb unspent)
  cases used

/-- A build function that throws: the writer comes back at once. -/
theorem Kept.thrown (k : Kept s) (took : Took s w bytes t) : Kept (release w t) := by
  have gave := release_gave took.own
  have same := gave.history
  have held : ∀ i b, s.builds[i]? = some b → i ∉ s.spent →
      (release w t).writers[b.writer]? = some ⟨b.bytes, false, false⟩ := by
    intro i b hb unspent
    have other := k.not_held took.free hb unspent
    rw [gave.others _ other]
    exact took.others _ _ other (k.held i b hb unspent)
  exact
    { clean := (k.clean.took took).gave took.own gave
      traced := by
        rw [same.responses, same.builds, took.history.responses, took.history.builds]
        exact k.traced
      held := by
        rw [same.builds, same.spent, took.history.builds, took.history.spent]
        exact held
      apart := by
        rw [same.builds, same.spent, took.history.builds, took.history.spent]
        exact k.apart
      handed := by
        rw [same.handed, same.responses, same.builds, took.history.handed, took.history.responses,
          took.history.builds]
        exact k.handed }

/-- A new response with the writer that its build function took. -/
theorem Kept.built (k : Kept s) (took : Took s w bytes t) :
    Kept { t with
      responses := t.responses ++ [⟨w, t.builds.length⟩]
      builds := t.builds ++ [⟨w, bytes⟩] } where
  clean := ⟨(k.clean.took took).cleared, (k.clean.took took).nodup⟩
  traced response hr := by
    dsimp only at hr ⊢
    rw [took.history.responses, took.history.builds, List.mem_append, List.mem_singleton] at hr
    rw [took.history.builds]
    rcases hr with hr | rfl
    · obtain ⟨b, hb⟩ := k.traced response hr
      exact ⟨b, getElem?_append_some hb _⟩
    · exact ⟨bytes, List.getElem?_concat_length⟩
  held i b hb unspent := by
    dsimp only at hb unspent ⊢
    rw [took.history.builds] at hb
    rw [took.history.spent] at unspent
    rcases getElem?_snoc hb with hb | ⟨-, rfl⟩
    · have other := k.not_held took.free hb unspent
      exact took.others _ _ other (k.held i b hb unspent)
    · exact took.own
  apart i j b c hb hc hi hj same := by
    dsimp only at hb hc hi hj
    rw [took.history.builds] at hb hc
    rw [took.history.spent] at hi hj
    rcases getElem?_snoc hb with hb | ⟨rfl, rfl⟩
    · rcases getElem?_snoc hc with hc | ⟨rfl, rfl⟩
      · exact k.apart i j b c hb hc hi hj same
      · exact absurd same (k.not_held took.free hb hi)
    · rcases getElem?_snoc hc with hc | ⟨rfl, rfl⟩
      · exact absurd same.symm (k.not_held took.free hc hj)
      · rfl
  handed e he := by
    dsimp only at he ⊢
    rw [took.history.handed] at he
    obtain ⟨response, b, hr, hb, given⟩ := k.handed e he
    rw [took.history.responses, took.history.builds]
    exact ⟨response, b, getElem?_append_some hr _, getElem?_append_some hb _, given⟩

theorem Kept.copied (k : Kept s) (hr : s.responses[r]? = some response) :
    Kept { s with responses := s.responses ++ [response] } where
  clean := ⟨k.clean.cleared, k.clean.nodup⟩
  traced other hother := by
    rcases List.mem_append.mp hother with old | new
    · exact k.traced other old
    · rw [List.mem_singleton.mp new]
      exact k.traced response (List.mem_of_getElem? hr)
  held := k.held
  apart := k.apart
  handed e he := by
    obtain ⟨other, b, found, hb, given⟩ := k.handed e he
    exact ⟨other, b, getElem?_append_some found _, hb, given⟩

/-- A writer that its response gives back, whether or not it was read before. -/
theorem Kept.givenBack (k : Kept s) (hr : s.responses[r]? = some response)
    (unspent : response.build ∉ s.spent) : Kept (giveBack r response s) := by
  obtain ⟨bytes, hb⟩ := k.traced response (List.mem_of_getElem? hr)
  have found := k.held _ _ hb unspent
  have gave := release_gave found
  have same := gave.history
  exact
    { clean := ⟨(k.clean.gave found gave).cleared, (k.clean.gave found gave).nodup⟩
      traced := by
        dsimp only [giveBack]
        rw [same.responses, same.builds]
        exact k.traced
      held := by
        intro i b hi hspent
        dsimp only [giveBack] at hi hspent ⊢
        rw [same.spent, List.mem_cons, not_or] at hspent
        rw [same.builds] at hi
        have other : b.writer ≠ response.bodyWriter := by
          intro shared
          exact hspent.1 (k.apart i _ b _ hi hb hspent.2 unspent shared)
        rw [gave.others _ other]
        exact k.held i b hi hspent.2
      apart := by
        intro i j b c hi hj hi' hj'
        dsimp only [giveBack] at hi hj hi' hj'
        rw [same.builds] at hi hj
        rw [same.spent, List.mem_cons, not_or] at hi' hj'
        exact k.apart i j b c hi hj hi'.2 hj'.2
      handed := by
        dsimp only [giveBack]
        rw [same.handed, same.responses, same.builds]
        exact k.handed }

/-- The engine reads a held writer. -/
theorem Kept.read (k : Kept s) (hr : s.responses[r]? = some response)
    (unspent : response.build ∉ s.spent) :
    Kept { s with handed := s.handed ++ [(r, bufferOf response.bodyWriter s)] } where
  clean := ⟨k.clean.cleared, k.clean.nodup⟩
  traced := k.traced
  held := k.held
  apart := k.apart
  handed e he := by
    rcases List.mem_append.mp he with old | new
    · exact k.handed e old
    · obtain ⟨b, hb, -, given⟩ := k.buffer hr unspent
      rw [List.mem_singleton.mp new]
      exact ⟨response, b, hr, hb, given⟩

theorem fresh_kept (k : Kept s) (fresh : Fresh s a) (step : perform s a = some t) : Kept t := by
  cases a with
  | construct bytes throws =>
      have took := construct_took k.clean bytes
      cases step
      rw [construct]
      cases throws with
      | true => exact k.thrown took
      | false => exact k.built took
  | copyWith r =>
      obtain ⟨response, hr, rfl⟩ := Option.map_eq_some_iff.mp step
      exact k.copied hr
  | deliver r ending =>
      obtain ⟨response, hr, rfl⟩ := Option.map_eq_some_iff.mp step
      have unspent := fresh response hr
      cases ending with
      | sent => exact (k.read hr unspent).givenBack hr unspent
      | late => exact k.givenBack hr unspent
      | rejected => exact ⟨⟨k.clean.cleared, k.clean.nodup⟩, k.traced, k.held, k.apart, k.handed⟩
      | closed => exact ⟨⟨k.clean.cleared, k.clean.nodup⟩, k.traced, k.held, k.apart, k.handed⟩
  | release r =>
      obtain ⟨response, hr, rfl⟩ := Option.map_eq_some_iff.mp step
      exact k.givenBack hr (fresh response hr)

/-! ### Without copies -/

/-- Each response has a build of its own, and is done with once its writer is given back. -/
structure Sole (s : Isolate) : Prop where
  length : s.builds.length = s.responses.length
  own : ∀ i (response : Response), s.responses[i]? = some response → response.build = i
  spent : ∀ i ∈ s.spent, i ∈ s.done

theorem Sole.givenBack (k : Kept s) (sole : Sole s) (hr : s.responses[r]? = some response)
    (unspent : response.build ∉ s.spent) : Sole (giveBack r response s) := by
  obtain ⟨bytes, hb⟩ := k.traced response (List.mem_of_getElem? hr)
  have same := (release_gave (k.held _ _ hb unspent)).history
  refine ⟨?_, ?_, ?_⟩
  · dsimp only [giveBack]
    rw [same.builds, same.responses]
    exact sole.length
  · dsimp only [giveBack]
    rw [same.responses]
    exact sole.own
  · intro i hi
    dsimp only [giveBack] at hi ⊢
    rw [same.spent] at hi
    rw [same.done]
    rcases List.mem_cons.mp hi with rfl | hi
    · rw [sole.own r response hr]
      exact List.mem_cons_self
    · exact List.mem_cons_of_mem r (sole.spent i hi)

theorem Sole.thrown (sole : Sole s) (took : Took s w bytes t) : Sole (release w t) := by
  have gave := (release_gave took.own).history
  have same := took.history
  refine ⟨?_, ?_, ?_⟩
  · rw [gave.builds, gave.responses, same.builds, same.responses]
    exact sole.length
  · rw [gave.responses, same.responses]
    exact sole.own
  · rw [gave.spent, gave.done, same.spent, same.done]
    exact sole.spent

theorem Sole.built (sole : Sole s) (took : Took s w bytes t) :
    Sole { t with
      responses := t.responses ++ [⟨w, t.builds.length⟩]
      builds := t.builds ++ [⟨w, bytes⟩] } := by
  have same := took.history
  refine ⟨?_, ?_, ?_⟩
  · dsimp only
    rw [List.length_append, List.length_append, same.builds, same.responses, sole.length]
    rfl
  · intro i response hi
    dsimp only at hi
    rcases getElem?_snoc hi with old | ⟨rfl, rfl⟩
    · rw [same.responses] at old
      exact sole.own i response old
    · dsimp only
      rw [same.builds, same.responses, sole.length]
  · dsimp only
    rw [same.spent, same.done]
    exact sole.spent

theorem uncopied_sole (k : Kept s) (sole : Sole s) (ok : Uncopied s a)
    (step : perform s a = some t) : Sole t := by
  cases a with
  | construct bytes throws =>
      have took := construct_took k.clean bytes
      cases step
      rw [construct]
      cases throws with
      | true => exact sole.thrown took
      | false => exact sole.built took
  | copyWith r => exact absurd rfl (ok.2 r)
  | deliver r ending =>
      obtain ⟨response, hr, rfl⟩ := Option.map_eq_some_iff.mp step
      have unspent := ok.1 response hr
      cases ending with
      | sent => exact Sole.givenBack (k.read hr unspent) ⟨sole.length, sole.own, sole.spent⟩ hr unspent
      | late => exact sole.givenBack k hr unspent
      | rejected =>
          exact ⟨sole.length, sole.own, fun i hi => List.mem_cons_of_mem r (sole.spent i hi)⟩
      | closed =>
          exact ⟨sole.length, sole.own, fun i hi => List.mem_cons_of_mem r (sole.spent i hi)⟩
  | release r =>
      obtain ⟨response, hr, rfl⟩ := Option.map_eq_some_iff.mp step
      exact sole.givenBack k hr (ok.1 response hr)

/-! ### Runs -/

theorem kept_of_reaches (run : Reaches (stepOf perform) Fresh {} s) : Kept s :=
  run.invariant kept_empty fun _ _ _ k fresh step => fresh_kept k fresh step

theorem sole_of_reaches (run : Reaches (stepOf perform) Uncopied {} s) : Kept s ∧ Sole s := by
  have sole_empty : Sole {} := ⟨rfl, fun i response none => (by cases none), fun i none => (by cases none)⟩
  apply run.invariant (I := fun s => Kept s ∧ Sole s) ⟨kept_empty, sole_empty⟩
  rintro s a t ⟨k, sole⟩ ok step
  exact ⟨fresh_kept k ok.1 step, uncopied_sole k sole ok step⟩

/-- A response whose writer was not given back has it to itself and its copies. -/
theorem Kept.not_pooled (k : Kept s) (hr : response ∈ s.responses)
    (unspent : response.build ∉ s.spent) : response.bodyWriter ∉ s.pool := by
  intro pooled
  obtain ⟨bytes, hb⟩ := k.traced response hr
  have cleared := k.clean.cleared _ pooled
  rw [k.held _ _ hb unspent] at cleared
  cases cleared

theorem Kept.same_build (k : Kept s) {q : Response} (hq : q ∈ s.responses)
    (hr : response ∈ s.responses) (hq' : q.build ∉ s.spent) (hr' : response.build ∉ s.spent)
    (same : q.bodyWriter = response.bodyWriter) : q.build = response.build := by
  obtain ⟨_, hb⟩ := k.traced q hq
  obtain ⟨_, hc⟩ := k.traced response hr
  exact k.apart _ _ _ _ hb hc hq' hr' same

/-- In every run that uses no response again after its writer was given back, the engine is
handed what the build functions wrote, and a writer that was not given back is neither in the
free list nor with a response of another build. If no response is copied either, two responses
that are not done with never have one writer. -/
theorem writers_not_shared (s : Isolate) :
    (Reaches (stepOf perform) Fresh {} s →
      (∀ r given, (r, given) ∈ s.handed → ∃ response b, s.responses[r]? = some response ∧
        s.builds[response.build]? = some b ∧ given = some b.bytes) ∧
      ∀ q ∈ s.responses, q.build ∉ s.spent → q.bodyWriter ∉ s.pool ∧
        ∀ r ∈ s.responses, r.build ∉ s.spent → q.bodyWriter = r.bodyWriter → q.build = r.build) ∧
    (Reaches (stepOf perform) Uncopied {} s →
      ∀ i q, s.responses[i]? = some q → i ∉ s.done → q.bodyWriter ∉ s.pool ∧
        ∀ j r, s.responses[j]? = some r → j ∉ s.done → q.bodyWriter = r.bodyWriter → i = j) := by
  constructor
  · intro run
    have k := kept_of_reaches run
    refine ⟨fun r given he => k.handed (r, given) he, ?_⟩
    intro q hq unspent
    exact ⟨k.not_pooled hq unspent, fun r hr hr' same => k.same_build hq hr unspent hr' same⟩
  · intro run i q hi open_
    obtain ⟨k, sole⟩ := sole_of_reaches run
    have unspent : ∀ i q, s.responses[i]? = some q → i ∉ s.done → q.build ∉ s.spent := by
      intro i q hi open_ spent
      rw [sole.own i q hi] at spent
      exact open_ (sole.spent i spent)
    have hq := List.mem_of_getElem? hi
    refine ⟨k.not_pooled hq (unspent i q hi open_), ?_⟩
    intro j r hj open' same
    rw [← sole.own i q hi, ← sole.own j r hj]
    exact k.same_build hq (List.mem_of_getElem? hj) (unspent i q hi open_) (unspent j r hj open') same

instance : Decidable (Uncopied s a) :=
  match a with
  | .construct _ _ => decidable_of_iff (Fresh s _) ⟨fun h => ⟨h, by simp⟩, And.left⟩
  | .deliver _ _ => decidable_of_iff (Fresh s _) ⟨fun h => ⟨h, by simp⟩, And.left⟩
  | .release _ => decidable_of_iff (Fresh s _) ⟨fun h => ⟨h, by simp⟩, And.left⟩
  | .copyWith r => isFalse fun h => h.2 r rfl

/-- Two requests, one after the other, and a third whose answer is still to come. -/
def threeRequests : List Act :=
  [.construct [1] false, .deliver 0 .sent, .construct [2] false, .construct [3] false,
    .deliver 1 .sent]

theorem writers_not_shared_three : ∃ s : Isolate,
    ((∀ r given, (r, given) ∈ s.handed → ∃ response b, s.responses[r]? = some response ∧
        s.builds[response.build]? = some b ∧ given = some b.bytes) ∧
      ∀ q ∈ s.responses, q.build ∉ s.spent → q.bodyWriter ∉ s.pool ∧
        ∀ r ∈ s.responses, r.build ∉ s.spent → q.bodyWriter = r.bodyWriter → q.build = r.build) ∧
    (∀ i q, s.responses[i]? = some q → i ∉ s.done → q.bodyWriter ∉ s.pool ∧
      ∀ j r, s.responses[j]? = some r → j ∉ s.done → q.bodyWriter = r.bodyWriter → i = j) ∧
    s.handed = [(0, some [1]), (1, some [2])] ∧ s.pool = [0] := by
  obtain ⟨s, run, same⟩ := exec_any (f := guarded Uncopied perform) (s := {})
    (p := fun s => s.handed = [(0, some [1]), (1, some [2])] ∧ s.pool = [0])
    (show (exec _ threeRequests _).any _ = true by decide +kernel)
  have uncopied := exec_guarded run
  have fresh : Reaches (stepOf perform) Fresh {} s :=
    uncopied.map (f := id) trivial (fun _ _ _ _ _ _ => trivial)
      fun _ _ _ _ ok step => .single ok.1 step
  exact ⟨s, (writers_not_shared s).1 fresh, (writers_not_shared s).2 uncopied, same⟩

/-- A handler returns a response that it keeps, twice, with another request in between. -/
def cachedTwice : List Act :=
  [.construct [1] false, .deliver 0 .sent, .construct [2] false, .deliver 0 .sent]

/-- The second time the engine is handed the body of the other request's response, whose
writer then goes back to the free list before that response is delivered. -/
theorem cached_response_corrupted : ∃ s : Isolate,
    exec perform cachedTwice {} = some s ∧
    s.handed = [(0, some [1]), (0, some [2])] ∧ s.builds = [⟨0, [1]⟩, ⟨0, [2]⟩] ∧
    s.responses = [⟨0, 0⟩, ⟨0, 1⟩] ∧ s.pool = [0] ∧ 1 ∉ s.done := by
  obtain ⟨s, run, same⟩ := exec_any (f := perform) (s := {})
    (p := fun s => s.handed = [(0, some [1]), (0, some [2])] ∧ s.builds = [⟨0, [1]⟩, ⟨0, [2]⟩] ∧
      s.responses = [⟨0, 0⟩, ⟨0, 1⟩] ∧ s.pool = [0] ∧ 1 ∉ s.done)
    (show (exec _ cachedTwice _).any _ = true by decide +kernel)
  exact ⟨s, run, same⟩

end NitroServer.Writers
