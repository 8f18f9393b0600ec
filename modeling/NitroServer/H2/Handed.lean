/-
A request that was handed over, until its stream closes.

* `Handed.step` — its stream stays open and keeps the request's id and method.
* `Handed.respond` — an answer under that id goes to that stream, unless `sweep` has
  returned the id.
-/

import NitroServer.H2.Responses

namespace NitroServer.H2

open Engine Lib

variable {cfg : Setup} {s s' : Session} {st st' : Stream} {sid j id : Nat} {m : Method}
  {w w' : World} {ev : Event}

/-! ### The stream -/

/-- The stream was handed over under `id`, with method `m`, and is open. -/
def Session.Handed (s : Session) (sid id : Nat) (m : Method) : Prop :=
  ∃ st, s.streams.find sid = some st ∧ st.emitted = true ∧ st.requestId = id ∧ st.method = m

namespace Session.Handed

theorem serves (h : s.Handed sid id m) : s.serves sid id := by
  obtain ⟨st, hst, emitted, requestId, -⟩ := h
  exact ⟨st, hst, emitted, requestId⟩

theorem congr (h : s.Handed sid id m) (same : s'.streams.find sid = s.streams.find sid) :
    s'.Handed sid id m := by
  obtain ⟨st, hst, rest⟩ := h
  exact ⟨st, same.trans hst, rest⟩

/-- Another stream, or this one with the same id and method, is stored. -/
theorem put (h : s.Handed sid id m) (hst : s.streams.find j = some st)
    (streams : s'.streams = s.streams.set j st') (emitted : st'.emitted = st.emitted)
    (requestId : st'.requestId = st.requestId) (method : st'.method = st.method) :
    s'.Handed sid id m := by
  obtain ⟨x, hx, rest⟩ := h
  by_cases here : sid = j
  · subst here
    rw [hst] at hx
    cases hx
    refine ⟨st', by rw [streams]; simp, ?_⟩
    rwa [emitted, requestId, method]
  · refine ⟨x, ?_, rest⟩
    rw [streams, Table.find_set, if_neg here]
    exact hx

/-- A stream that is not handed over is another one. -/
theorem ne (h : s.Handed sid id m) (hst : s.streams.find j = some st)
    (new : st.emitted = false) : sid ≠ j := by
  rintro rfl
  obtain ⟨x, hx, emitted, -⟩ := h
  rw [hst] at hx
  cases hx
  rw [new] at emitted
  cases emitted

end Session.Handed

/-- A field of the request, while the header block is incomplete. -/
theorem new_of_header {name value : Bytes} {a a' : Arrived} (follows : Follows a st)
    (ha : Wire.onStream a (.header sid .request name value) = some a') : st.emitted = false := by
  simp only [Wire.onStream, Option.ite_none_left_eq_some, Bool.not_eq_true] at ha
  exact (follows.unrouted ha.1).2.2.1

/-- DATA, before the end of the stream. -/
theorem new_of_data {data : Bytes} {now : Int} {a a' : Arrived} (follows : Follows a st)
    (ha : Wire.onStream a (.dataChunk sid data now) = some a') : st.emitted = false := by
  simp only [Wire.onStream, Option.ite_none_right_eq_some, Bool.not_eq_true] at ha
  by_contra emitted
  have ended := follows.ended (by simpa using emitted)
  rw [ha.1.2.1] at ended
  cases ended

/-- No callback but `onStreamClose` changes whom a stream serves. -/
theorem Session.Handed.step (h : w.session.Handed sid id m) (tied : Tied cfg w)
    (below : Below w) (stays : ev ≠ .streamClose sid) (hs : step cfg w ev = some w') :
    w'.session.Handed sid id m := by
  obtain ⟨wire, hw, rfl⟩ := step_cases hs
  cases ev with
  | beginHeaders j cat now =>
      cases cat with
      | headers => exact h
      | request =>
          have other : sid ≠ j := by
            rintro rfl
            obtain ⟨x, hx, -⟩ := h
            rw [fresh_stream tied below hw] at hx
            cases hx
          refine h.congr ?_
          simp [Session.handle, Session.onBeginHeaders, other]
  | header j cat name value =>
      cases cat with
      | headers => exact h
      | request =>
          obtain ⟨a, a', st, ha, hst, follows⟩ := inbound_stream tied hw
          exact h.congr (Session.onHeader_ne (h.ne hst (new_of_header follows ha)))
  | dataChunk j data now =>
      obtain ⟨a, a', st, ha, hst, follows⟩ := inbound_stream tied hw
      exact h.congr (Session.onDataChunk_ne (h.ne hst (new_of_data follows ha)))
  | frame f now admitted =>
      refine onFrameRecv_rule (P := fun s => s.Handed sid id m) tied hw ?_ ?_ h
      · intro st hst new h
        exact h.congr (Session.onRequestHeaders_ne (h.ne hst new))
      · intro _ _ s st hst new h
        exact h.congr (Session.onEndStream_ne (h.ne hst new))
  | streamClose j =>
      have other : sid ≠ j := fun same => stays (same ▸ rfl)
      refine h.congr ?_
      simp only [Session.handle, Session.onStreamClose]
      split
      · rfl
      · simp [other]
  | respond i status headers body =>
      rw [Session.handle]
      rcases Session.respond_cases (s := w.session) with h1 | ⟨j, st, -, hst, h1⟩
      · rw [h1]
        exact h
      · rw [h1]
        exact h.put hst rfl rfl rfl rfl
  | sweep now stall =>
      refine Session.sweep_rule (I := fun s => s.Handed sid id m) ?_ h
      intro s' e _ here h
      rcases Session.sweepStream_cases (s := s') e with h1 | ⟨-, -, -, -, h1⟩ | ⟨-, -, h1⟩
      · rw [h1]
        exact h
      · rw [h1]
        exact h.put here rfl rfl rfl rfl
      · rw [h1]
        exact h.put here rfl rfl rfl rfl
  | goAway =>
      refine h.congr ?_
      simp only [Session.handle, Session.goAway]
      split <;> rfl
  | stop | idsTaken _ => exact h.congr rfl

/-! ### Ids that `sweep` returns, and `stop` -/

theorem expired_onRequestHeaders {endStream : Bool} {now : Int} :
    (s.onRequestHeaders cfg sid endStream now).expired = s.expired ∧
      (s.onRequestHeaders cfg sid endStream now).stopped = s.stopped := by
  unfold Session.onRequestHeaders
  split
  · exact ⟨rfl, rfl⟩
  · unfold Session.reserve Session.refuseDeclared
    repeat' split
    all_goals exact ⟨rfl, rfl⟩

theorem expired_onEndStream {now : Int} {admitted : Bool} :
    (s.onEndStream cfg sid now admitted).expired = s.expired ∧
      (s.onEndStream cfg sid now admitted).stopped = s.stopped := by
  unfold Session.onEndStream
  split
  · exact ⟨rfl, rfl⟩
  · split
    · exact ⟨rfl, rfl⟩
    · unfold Session.emitComplete
      repeat' split
      all_goals exact ⟨rfl, rfl⟩

/-- Only `sweep` returns ids, and only `stop` stops the session. -/
theorem expired_handle (sweeps : ∀ now stall, ev ≠ .sweep now stall) (stops : ev ≠ .stop) :
    (s.handle cfg ev).expired = s.expired ∧ (s.handle cfg ev).stopped = s.stopped := by
  cases ev with
  | beginHeaders sid cat now =>
      simp only [Session.handle, Session.onBeginHeaders]
      split <;> exact ⟨rfl, rfl⟩
  | header sid cat name value =>
      simp only [Session.handle, Session.onHeader]
      repeat' split
      all_goals exact ⟨rfl, rfl⟩
  | dataChunk sid data now =>
      simp only [Session.handle, Session.onDataChunk]
      repeat' split
      all_goals exact ⟨rfl, rfl⟩
  | frame f now admitted =>
      have first : (if f.type = .headers .request then
          s.onRequestHeaders cfg f.streamId f.endStream now else s).expired = s.expired ∧
          (if f.type = .headers .request then
          s.onRequestHeaders cfg f.streamId f.endStream now else s).stopped = s.stopped := by
        split
        · exact expired_onRequestHeaders
        · exact ⟨rfl, rfl⟩
      simp only [Session.handle, Session.onFrameRecv]
      split
      · exact ⟨expired_onEndStream.1.trans first.1, expired_onEndStream.2.trans first.2⟩
      · exact first
  | streamClose sid =>
      simp only [Session.handle, Session.onStreamClose]
      split <;> exact ⟨rfl, rfl⟩
  | respond id status headers body =>
      rw [Session.handle]
      rcases Session.respond_cases (s := s) with h1 | ⟨sid, st, -, -, h1⟩
      · rw [h1]
        exact ⟨rfl, rfl⟩
      · rw [h1]
        exact ⟨rfl, rfl⟩
  | goAway =>
      simp only [Session.handle, Session.goAway]
      split <;> exact ⟨rfl, rfl⟩
  | sweep now stall => exact absurd rfl (sweeps now stall)
  | stop => exact absurd rfl stops
  | idsTaken n => exact ⟨rfl, rfl⟩

theorem sweep_stopped {now stall : Int} : (s.sweep now stall).stopped = s.stopped := by
  refine Session.sweep_rule (I := fun s' => s'.stopped = s.stopped) ?_ rfl
  intro s' e _ _ same
  rcases Session.sweepStream_cases (s := s') e with h1 | ⟨-, -, -, -, h1⟩ | ⟨-, -, h1⟩
  · rw [h1]
    exact same
  · rw [h1]
    exact same
  · rw [h1]
    exact same

/-! ### The answer -/

/-- The answer is submitted on the request's stream; to HEAD, without a body. -/
theorem Session.Handed.respond (h : s.Handed sid id m) (ids : Ids s) (runs : s.stopped = false)
    (waits : id ∉ s.expired) (status : Nat) (headers : List Header) (body : Bytes) :
    ∃ sent, (s.respond id status headers body).submits =
        s.submits ++ [⟨sid, status, headers, sent⟩] ∧ (m = .head → sent = none) := by
  have mapped : s.reqToStream.find id = some sid := (ids.exact id sid).mpr ⟨h.serves, waits⟩
  obtain ⟨st, hst, -, -, method⟩ := h
  simp only [Session.respond, runs, Bool.false_eq_true, if_false, mapped, hst, Session.answer]
  refine ⟨_, rfl, fun head => ?_⟩
  rw [head] at method
  simp [method]

end NitroServer.H2
