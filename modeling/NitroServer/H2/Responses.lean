/-
How often a stream is answered, and which requests `reqToStream_` knows.

`Ids` is what holds of the request ids in every run: `reqToStream_` maps exactly the ids of
the streams that were emitted, are open and were not returned by `sweep`. `Once` counts the
calls of `nghttp2_submit_response` for each stream.

The session does not remember that `respond` has answered a stream. A second `respond` for
the same id, or a `sweep` that finds the stream open past its deadline because flow control
still holds the answer back, submits a second response (`swept_after_answer`). `inTime`
leaves these two out, and then no stream is answered twice (`one_response`).
-/

import NitroServer.H2.Budget

namespace NitroServer.H2

open Engine Lib

variable {cfg : Setup} {s s' : Session} {a : Arrived} {st st' : Stream} {sid j : Nat}
  {w w' : World} {ev : Event}

/-! ### Request ids -/

/-- The stream was emitted under `id`. -/
def Session.serves (s : Session) (sid id : Nat) : Prop :=
  ∃ st, s.streams.find sid = some st ∧ st.emitted = true ∧ st.requestId = id

/-- Ids are positive, from the counter, and belong to one stream each. -/
structure Ids (s : Session) : Prop where
  counter : 0 < s.nextId
  issued : ∀ sid id, s.serves sid id → 0 < id ∧ id < s.nextId
  unique : ∀ sid sid' id, s.serves sid id → s.serves sid' id → sid = sid'
  blank : ∀ sid st, s.streams.find sid = some st → st.emitted = false → st.requestId = 0
  retired : ∀ id ∈ s.expired, id < s.nextId
  exact : ∀ id sid, s.reqToStream.find id = some sid ↔ s.serves sid id ∧ id ∉ s.expired

namespace Ids

theorem init : Ids {} where
  counter := Nat.zero_lt_one
  issued _ _ h := by
    obtain ⟨st, hst, -⟩ := h
    cases hst
  unique _ _ _ h := by
    obtain ⟨st, hst, -⟩ := h
    cases hst
  blank _ _ hst := by cases hst
  retired _ h := by cases h
  exact id sid := by
    constructor
    · intro h
      cases h
    · rintro ⟨⟨st, hst, -⟩, -⟩
      cases hst

/-- Ids depend on which stream serves which id only. -/
theorem congr (h : Ids s) (serves : ∀ sid id, s'.serves sid id ↔ s.serves sid id)
    (blank : ∀ sid st, s'.streams.find sid = some st → st.emitted = false → st.requestId = 0)
    (counter : s.nextId ≤ s'.nextId) (map : s'.reqToStream = s.reqToStream)
    (expired : s'.expired = s.expired) : Ids s' where
  counter := h.counter.trans_le counter
  issued sid id hs := by
    obtain ⟨pos, lt⟩ := h.issued sid id ((serves sid id).mp hs)
    exact ⟨pos, lt.trans_le counter⟩
  unique sid sid' id hs hs' :=
    h.unique sid sid' id ((serves sid id).mp hs) ((serves sid' id).mp hs')
  blank := blank
  retired id hid := (h.retired id (expired ▸ hid)).trans_le counter
  exact id sid := by
    rw [map, expired, serves]
    exact h.exact id sid

/-- An update of an open stream that leaves its id. -/
theorem assign (h : Ids s) (hst : s.streams.find sid = some st)
    (streams : s'.streams = s.streams.set sid st') (emitted : st'.emitted = st.emitted)
    (requestId : st'.requestId = st.requestId) (counter : s'.nextId = s.nextId)
    (map : s'.reqToStream = s.reqToStream) (expired : s'.expired = s.expired) : Ids s' := by
  refine h.congr ?_ ?_ counter.ge map expired
  · intro k id
    simp only [Session.serves, streams, Table.find_set]
    by_cases hk : k = sid
    · subst hk
      simp only [if_true, Option.some.injEq, exists_eq_left', emitted, requestId, hst]
    · simp only [if_neg hk]
  · intro k x hx he
    rw [streams, Table.find_set] at hx
    by_cases hk : k = sid
    · rw [if_pos hk] at hx
      cases hx
      rw [requestId]
      exact h.blank sid st hst (emitted ▸ he)
    · rw [if_neg hk] at hx
      exact h.blank k x hx he

theorem rejectStream {status : Nat} {extra : List Header} (h : Ids s)
    (hst : s.streams.find sid = some st) (emitted : st'.emitted = st.emitted)
    (requestId : st'.requestId = st.requestId) : Ids (s.rejectStream sid st' status extra) :=
  h.assign hst rfl emitted requestId rfl rfl rfl

/-- A new stream serves nothing yet. -/
theorem opened (h : Ids s) (fresh : s.streams.find sid = none) (emitted : st.emitted = false)
    (requestId : st.requestId = 0) : Ids (s.put sid st) := by
  refine h.congr ?_ ?_ le_rfl rfl rfl
  · intro k id
    simp only [Session.serves, Session.find_put]
    by_cases hk : k = sid
    · subst hk
      simp [fresh, emitted]
    · simp only [if_neg hk]
  · intro k x hx he
    rw [Session.find_put] at hx
    by_cases hk : k = sid
    · rw [if_pos hk] at hx
      cases hx
      exact requestId
    · rw [if_neg hk] at hx
      exact h.blank k x hx he

theorem serves_dispatch {now : Int} {k id : Nat} (hst : s.streams.find sid = some st)
    (new : st.emitted = false) :
    (s.dispatch sid st now).serves k id ↔ (k = sid ∧ id = s.nextId) ∨ s.serves k id := by
  simp only [Session.serves, Session.dispatch, Table.find_set]
  by_cases hk : k = sid
  · subst hk
    simp only [if_true, Option.some.injEq, exists_eq_left', true_and, hst, new,
      Bool.false_eq_true, false_and, or_false]
    exact eq_comm
  · simp [hk]

/-- The request gets the next id. -/
theorem dispatch {now : Int} (h : Ids s) (hst : s.streams.find sid = some st)
    (new : st.emitted = false) : Ids (s.dispatch sid st now) where
  counter := Nat.succ_pos _
  issued k id hs := by
    rcases (serves_dispatch hst new).mp hs with ⟨-, rfl⟩ | hs
    · exact ⟨h.counter, Nat.lt_succ_self _⟩
    · exact ⟨(h.issued k id hs).1, (h.issued k id hs).2.trans (Nat.lt_succ_self _)⟩
  unique k k' id hs hs' := by
    rcases (serves_dispatch hst new).mp hs with ⟨rfl, hid⟩ | hs
    · rcases (serves_dispatch hst new).mp hs' with ⟨rfl, -⟩ | hs'
      · rfl
      · exact absurd hid (h.issued k' id hs').2.ne
    · rcases (serves_dispatch hst new).mp hs' with ⟨-, hid⟩ | hs'
      · exact absurd hid (h.issued k id hs).2.ne
      · exact h.unique k k' id hs hs'
  blank k x hx he := by
    simp only [Session.dispatch, Table.find_set] at hx
    by_cases hk : k = sid
    · rw [if_pos hk] at hx
      cases hx
      cases he
    · rw [if_neg hk] at hx
      exact h.blank k x hx he
  retired id hid := (h.retired id hid).trans (Nat.lt_succ_self _)
  exact id k := by
    rw [serves_dispatch hst new]
    change (s.reqToStream.set s.nextId sid).find id = some k ↔ _ ∧ id ∉ s.expired
    rw [Table.find_set]
    by_cases hid : id = s.nextId
    · rw [if_pos hid, Option.some.injEq]
      have notRetired : id ∉ s.expired := fun mem => (h.retired id mem).ne hid
      have unserved : ¬ s.serves k id := fun hs => (h.issued k id hs).2.ne hid
      simp only [hid, and_true, or_false, eq_comm, hid ▸ unserved, hid ▸ notRetired,
        not_false_eq_true]
    · rw [if_neg hid, h.exact id k]
      simp [hid]

/-- A closed stream's id is forgotten. -/
theorem onStreamClose (h : Ids s) (hst : s.streams.find sid = some st) :
    Ids (s.onStreamClose sid) := by
  have left : ∀ k id, (s.onStreamClose sid).serves k id ↔ k ≠ sid ∧ s.serves k id := by
    intro k id
    simp only [Session.serves, Session.onStreamClose, hst, Table.find_erase]
    by_cases hk : k = sid
    · simp [hk]
    · simp [hk]
  constructor
  · simp only [Session.onStreamClose, hst]
    exact h.counter
  · intro k id hs
    simp only [Session.onStreamClose, hst]
    exact h.issued k id ((left k id).mp hs).2
  · intro k k' id hs hs'
    exact h.unique k k' id ((left k id).mp hs).2 ((left k' id).mp hs').2
  · intro k x hx he
    simp only [Session.onStreamClose, hst, Table.find_erase] at hx
    by_cases hk : k = sid
    · rw [if_pos hk] at hx
      cases hx
    · rw [if_neg hk] at hx
      exact h.blank k x hx he
  · simp only [Session.onStreamClose, hst]
    exact h.retired
  · intro id k
    rw [left]
    simp only [Session.onStreamClose, hst, Table.find_erase]
    by_cases hid : id = st.requestId
    · -- the id was this stream's, or the stream had none and the key is 0
      simp only [hid, if_true, reduceCtorEq, false_iff]
      rintro ⟨⟨hk, hs⟩, -⟩
      by_cases he : st.emitted = true
      · exact hk (h.unique k sid _ hs ⟨st, hst, he, rfl⟩)
      · rw [h.blank sid st hst (by simpa using he)] at hs
        exact absurd (h.issued k 0 hs).1 (Nat.lt_irrefl 0)
    · rw [if_neg hid, h.exact id k]
      have other : s.serves k id → k ≠ sid := by
        rintro ⟨x, hx, -, rfl⟩ rfl
        rw [hst] at hx
        cases hx
        exact hid rfl
      constructor
      · rintro ⟨hs, hr⟩
        exact ⟨⟨other hs, hs⟩, hr⟩
      · rintro ⟨⟨-, hs⟩, hr⟩
        exact ⟨hs, hr⟩

/-- An expired request is retired. -/
theorem retire (h : Ids s) (hst : s.streams.find sid = some st) (emitted : st.emitted = true) :
    Ids { s with
      expired := s.expired ++ [st.requestId]
      reqToStream := s.reqToStream.erase st.requestId } where
  counter := h.counter
  issued := h.issued
  unique := h.unique
  blank := h.blank
  retired id hid := by
    rcases List.mem_append.mp hid with hid | hid
    · exact h.retired id hid
    · rw [List.mem_singleton.mp hid]
      exact (h.issued sid _ ⟨st, hst, emitted, rfl⟩).2
  exact id k := by
    change (s.reqToStream.erase st.requestId).find id = some k ↔ s.serves k id ∧ _
    rw [Table.find_erase]
    by_cases hid : id = st.requestId
    · simp [hid]
    · simp [hid, h.exact id k]

end Ids

/-! ### Responses -/

/-- How often a stream was answered. -/
def Session.answers (s : Session) (sid : Nat) : Nat :=
  (s.submits.filter fun sub => sub.streamId = sid).length

/-- No stream is answered twice, and one that waits for its request or for admission is not
answered; `last` is the last stream a client has opened. -/
structure Once (last : Nat) (s : Session) : Prop where
  le : ∀ sid, s.answers sid ≤ 1
  new : ∀ sid, last < sid → s.answers sid = 0
  waiting : ∀ sid st, s.streams.find sid = some st → st.rejected = false →
    st.emitted = false → s.answers sid = 0

namespace Once

variable {last : Nat}

theorem congr (h : Once last s) (streams : s'.streams = s.streams)
    (submits : s'.submits = s.submits) : Once last s' := by
  have same : s'.answers = s.answers := by
    funext sid
    rw [Session.answers, submits]
    rfl
  exact ⟨same ▸ h.le, same ▸ h.new, by rw [streams, same]; exact h.waiting⟩

/-- An update of a stream that does not answer it. -/
theorem assign (h : Once last s) (streams : s'.streams = s.streams.set sid st')
    (submits : s'.submits = s.submits)
    (waiting : st'.rejected = false → st'.emitted = false → s.answers sid = 0) :
    Once last s' := by
  have same : s'.answers = s.answers := by
    funext k
    rw [Session.answers, submits]
    rfl
  refine ⟨same ▸ h.le, same ▸ h.new, ?_⟩
  intro k x hx hr he
  rw [streams, Table.find_set] at hx
  rw [same]
  by_cases hk : k = sid
  · rw [if_pos hk] at hx
    cases hx
    rw [hk]
    exact waiting hr he
  · rw [if_neg hk] at hx
    exact h.waiting k x hx hr he

/-- An answer for an open stream that has none. -/
theorem submit {sub : Submit} (h : Once last s) (streams : s'.streams = s.streams.set sid st')
    (submits : s'.submits = s.submits ++ [sub]) (target : sub.streamId = sid)
    (known : sid ≤ last) (unanswered : s.answers sid = 0)
    (settled : st'.rejected = true ∨ st'.emitted = true) : Once last s' := by
  have here : s'.answers sid = 1 := by
    rw [Session.answers] at unanswered
    rw [Session.answers, submits, List.filter_append, List.length_append, unanswered]
    simp [target]
  have other : ∀ k, k ≠ sid → s'.answers k = s.answers k := by
    intro k hk
    rw [Session.answers, submits, List.filter_append, List.length_append]
    simp [target, Ne.symm hk, Session.answers]
  constructor
  · intro k
    by_cases hk : k = sid
    · rw [hk, here]
    · rw [other k hk]
      exact h.le k
  · intro k hk
    rw [other k (by omega)]
    exact h.new k hk
  · intro k x hx hr he
    rw [streams, Table.find_set] at hx
    by_cases hk : k = sid
    · rw [if_pos hk] at hx
      cases hx
      rcases settled with hr' | he'
      · rw [hr] at hr'
        cases hr'
      · rw [he] at he'
        cases he'
    · rw [if_neg hk] at hx
      rw [other k hk]
      exact h.waiting k x hx hr he

theorem mono {later : Nat} (h : Once last s) (le : last ≤ later) : Once later s :=
  ⟨h.le, fun sid hs => h.new sid (le.trans_lt hs), h.waiting⟩

theorem rejectStream {status : Nat} {extra : List Header} (h : Once last s) (known : sid ≤ last)
    (unanswered : s.answers sid = 0) : Once last (s.rejectStream sid st' status extra) :=
  h.submit rfl rfl rfl known unanswered (.inl rfl)

end Once

/-! ### Frames -/

section Frames

variable {last : Nat}

/-- END_STREAM on a stream that was not handed over yet. -/
theorem onEndStream_ids {now : Int} {admitted : Bool} (hst : s.streams.find sid = some st)
    (new : st.emitted = false) (h : Ids s) : Ids (s.onEndStream cfg sid now admitted) := by
  rcases Session.onEndStream_cases hst with
    ⟨-, h1⟩ | ⟨-, _, _, h1⟩ | ⟨-, h1⟩
  · rw [h1]
    exact h
  · rw [h1]
    exact h.rejectStream hst rfl rfl
  · rw [h1]
    exact h.dispatch hst new

theorem onEndStream_once {now : Int} {admitted : Bool} (hst : s.streams.find sid = some st)
    (new : st.emitted = false) (known : sid ≤ last) (h : Once last s) :
    Once last (s.onEndStream cfg sid now admitted) := by
  rcases Session.onEndStream_cases hst with
    ⟨-, h1⟩ | ⟨live, _, _, h1⟩ | ⟨-, h1⟩
  · rw [h1]
    exact h
  · rw [h1]
    exact h.rejectStream known (h.waiting sid st hst live new)
  · rw [h1]
    exact h.assign rfl rfl fun _ he => by cases he

theorem onRequestHeaders_ids {endStream : Bool} {now : Int} (hst : s.streams.find sid = some st)
    (h : Ids s) : Ids (s.onRequestHeaders cfg sid endStream now) := by
  simp only [Session.onRequestHeaders, hst]
  obtain ⟨-, -, -, -, emitted, requestId⟩ := route_same st now
  obtain ⟨st1, h1, ids⟩ : ∃ st1,
      (s.refuseDeclared sid (Session.route cfg st now)).streams.find sid = some st1 ∧
      Ids (s.refuseDeclared sid (Session.route cfg st now)) := by
    rcases Session.refuseDeclared_cases s _ _ with
      ⟨-, h1⟩ | h1
    · rw [h1]
      exact ⟨_, Table.find_set.trans (if_pos rfl), h.rejectStream hst emitted requestId⟩
    · rw [h1]
      exact ⟨_, Table.find_set.trans (if_pos rfl), h.assign hst rfl emitted requestId rfl rfl rfl⟩
  rcases Session.reserve_cases h1 with
    ⟨-, h2⟩ | ⟨-, _, _, h2⟩ | ⟨-, -, -, -, h2⟩
  · rw [h2]
    exact ids
  · rw [h2]
    exact ids.rejectStream h1 rfl rfl
  · rw [h2]
    exact ids.assign h1 rfl rfl rfl rfl rfl rfl

theorem onRequestHeaders_once {endStream : Bool} {now : Int}
    (hst : s.streams.find sid = some st) (new : st.emitted = false) (known : sid ≤ last)
    (h : Once last s) : Once last (s.onRequestHeaders cfg sid endStream now) := by
  simp only [Session.onRequestHeaders, hst]
  obtain ⟨rejected, -, -, -, emitted, -⟩ := route_same st now
  have unanswered : st.rejected = false → s.answers sid = 0 := fun live =>
    h.waiting sid st hst live new
  obtain ⟨st1, h1, new1, once⟩ : ∃ st1,
      (s.refuseDeclared sid (Session.route cfg st now)).streams.find sid = some st1 ∧
      st1.emitted = false ∧ Once last (s.refuseDeclared sid (Session.route cfg st now)) := by
    rcases Session.refuseDeclared_cases s _ _ with
      ⟨live, h1⟩ | h1
    · rw [h1]
      exact ⟨_, Table.find_set.trans (if_pos rfl), emitted.trans new,
        h.rejectStream known (unanswered (rejected ▸ live))⟩
    · rw [h1]
      exact ⟨_, Table.find_set.trans (if_pos rfl), emitted.trans new,
        h.assign rfl rfl fun live _ => unanswered (rejected ▸ live)⟩
  rcases Session.reserve_cases h1 with
    ⟨-, h2⟩ | ⟨live, _, _, h2⟩ | ⟨live, -, -, -, h2⟩
  · rw [h2]
    exact once
  · rw [h2]
    exact once.rejectStream known (once.waiting sid st1 h1 live new1)
  · rw [h2]
    exact once.assign rfl rfl fun _ _ => once.waiting sid st1 h1 live new1

/-- The rule for `onFrameRecv`: both halves find the stream open and not handed over. -/
theorem onFrameRecv_rule {P : Session → Prop} {f : Frame} {now : Int} {admitted : Bool}
    {wire : Wire} (tied : Tied cfg w) (hw : w.wire.deliver (.frame f now admitted) = some wire)
    (first : ∀ st, w.session.streams.find f.streamId = some st → st.emitted = false →
      P w.session → P (w.session.onRequestHeaders cfg f.streamId f.endStream now))
    (second : ∀ st₀, w.session.streams.find f.streamId = some st₀ → ∀ s st,
      s.streams.find f.streamId = some st → st.emitted = false →
      P s → P (s.onEndStream cfg f.streamId now admitted))
    (init : P w.session) : P (w.session.onFrameRecv cfg f now admitted) := by
  by_cases hf : f.type = .other
  · simpa [Session.onFrameRecv, hf] using init
  · simp only [Wire.deliver, if_neg hf] at hw
    obtain ⟨a, a', ha, ha', -⟩ := update_cases hw
    obtain ⟨st, hst, follows, -⟩ := tied.right ha
    by_cases hr : f.type = .headers .request
    · simp only [Wire.onStream, hr, Option.ite_none_left_eq_some, Bool.not_eq_true] at ha'
      obtain ⟨-, -, new, -, notEnded⟩ := follows.unrouted ha'.1
      obtain ⟨st', hst', routed, -⟩ := Session.onRequestHeaders_follows _ hst follows ha'.1
      have new' : st'.emitted = false := by
        by_contra he
        have ended := routed.ended (by simpa using he)
        dsimp only at ended
        rw [notEnded] at ended
        cases ended
      simp only [Session.onFrameRecv, if_pos hr]
      split
      · exact second st hst _ st' hst' new' (first st hst new init)
      · exact first st hst new init
    · have notEnded : a.ended = false := (onStream_later hr hf ha').2.1
      have new : st.emitted = false := by
        by_contra he
        have ended := follows.ended (by simpa using he)
        rw [notEnded] at ended
        cases ended
      simp only [Session.onFrameRecv, if_neg hr]
      split
      · exact second st hst _ st hst new init
      · exact init

end Frames

/-! ### Steps -/

/-- What comes in on an open stream. -/
theorem inbound_stream {wire : Wire} (tied : Tied cfg w)
    (hw : w.wire.update sid ev = some wire) :
    ∃ a a' st, Wire.onStream a ev = some a' ∧ w.session.streams.find sid = some st ∧
      Follows a st := by
  obtain ⟨a, a', ha, ha', -⟩ := update_cases hw
  obtain ⟨st, hst, follows, -⟩ := tied.right ha
  exact ⟨a, a', st, ha', hst, follows⟩

theorem ids_step (tied : Tied cfg w) (below : Below w) (h : Ids w.session)
    (hs : step cfg w ev = some w') : Ids w'.session := by
  obtain ⟨wire, hw, rfl⟩ := step_cases hs
  cases ev with
  | beginHeaders sid cat now =>
      cases cat with
      | headers => exact h
      | request => exact h.opened (fresh_stream tied below hw) rfl rfl
  | header sid cat name value =>
      cases cat with
      | headers => exact h
      | request =>
          obtain ⟨a, a', st, -, hst, -⟩ := inbound_stream tied hw
          obtain ⟨-, -, -, emitted, -, requestId⟩ := addHeader_same _ name value
          rw [Session.handle]
          rcases Session.onHeader_cases hst with
            ⟨-, h1⟩ | ⟨-, h1⟩ | ⟨-, h1⟩
          · rw [h1]
            exact h
          · rw [h1]
            exact h.rejectStream hst rfl rfl
          · rw [h1]
            exact h.assign hst rfl emitted requestId rfl rfl rfl
  | dataChunk sid data now =>
      obtain ⟨a, a', st, -, hst, -⟩ := inbound_stream tied hw
      rw [Session.handle]
      rcases Session.onDataChunk_cases hst with
        ⟨-, h1⟩ | ⟨-, h1⟩ | ⟨-, -, h1⟩
      · rw [h1]
        exact h
      · rw [h1]
        exact h.rejectStream hst rfl rfl
      · rw [h1]
        exact h.assign hst rfl rfl rfl rfl rfl rfl
  | frame f now admitted =>
      exact onFrameRecv_rule tied hw (fun st hst _ ids => onRequestHeaders_ids hst ids)
        (fun _ _ _ _ hst new ids => onEndStream_ids hst new ids) h
  | streamClose sid =>
      simp only [Wire.deliver, Option.ite_none_right_eq_some] at hw
      obtain ⟨a, ha⟩ := Option.isSome_iff_exists.mp hw.1
      obtain ⟨st, hst, -⟩ := tied.right ha
      exact h.onStreamClose hst
  | respond id status headers body =>
      rw [Session.handle]
      rcases Session.respond_cases (s := w.session)
        with h1 | ⟨sid, st, -, hst, h1⟩
      · rw [h1]
        exact h
      · rw [h1]
        exact h.assign hst rfl rfl rfl rfl rfl rfl
  | sweep now stall =>
      refine Session.sweep_rule (I := Ids) ?_ h
      intro s' e _ here ids
      rcases Session.sweepStream_cases (s := s') e with
        h1 | ⟨-, emitted, -, -, h1⟩ | ⟨-, -, h1⟩
      · rw [h1]
        exact ids
      · rw [h1]
        exact (ids.retire here emitted).rejectStream here rfl rfl
      · rw [h1]
        exact ids.rejectStream here rfl rfl
  | goAway =>
      simp only [Session.handle, Session.goAway]
      split
      · exact h
      · exact h.congr (fun _ _ => Iff.rfl) h.blank le_rfl rfl rfl
  | stop => exact h.congr (fun _ _ => Iff.rfl) h.blank le_rfl rfl rfl
  | idsTaken n => exact h.congr (fun _ _ => Iff.rfl) h.blank (Nat.le_add_right _ n) rfl rfl

/-- The steps that answer no stream a second time: `respond` names a request that was not
answered, and no `sweep` finds an answered stream open past its deadline. -/
def inTime (w : World) : Event → Prop
  | .respond id _ _ _ =>
      w.session.stopped = false → ∀ sid ∈ w.session.reqToStream.find id, w.session.answers sid = 0
  | .sweep now _ =>
      w.session.stopped = false → ∀ e ∈ w.session.streams.entries, e.2.rejected = false →
        e.2.emitted = true → e.2.hasDeadline = true → e.2.deadline ≤ now →
        w.session.answers e.1 = 0
  | _ => True

instance (w : World) : (ev : Event) → Decidable (inTime w ev)
  | .respond id _ _ _ => inferInstanceAs (Decidable (w.session.stopped = false →
      ∀ sid ∈ w.session.reqToStream.find id, w.session.answers sid = 0))
  | .sweep now _ => inferInstanceAs (Decidable (w.session.stopped = false →
      ∀ e ∈ w.session.streams.entries, e.2.rejected = false → e.2.emitted = true →
        e.2.hasDeadline = true → e.2.deadline ≤ now → w.session.answers e.1 = 0))
  | .beginHeaders _ _ _ | .header _ _ _ _ | .dataChunk _ _ _ | .frame _ _ _ | .streamClose _
  | .goAway | .stop | .idsTaken _ => .isTrue trivial

theorem answers_rejectStream {status : Nat} {extra : List Header} (hj : j ≠ sid) :
    (s.rejectStream sid st status extra).answers j = s.answers j := by
  simp [Session.answers, Session.rejectStream, Ne.symm hj]

theorem open_known (tied : Tied cfg w) (below : Below w)
    (hst : w.session.streams.find sid = some st) : sid ≤ w.wire.lastStream := by
  by_contra beyond
  obtain ⟨a, ha, -⟩ := tied.left hst
  rw [below sid (not_le.mp beyond)] at ha
  cases ha

theorem once_sweep {last : Nat} {now stall : Int}
    (known : ∀ sid st, s.streams.find sid = some st → sid ≤ last)
    (late : ∀ e ∈ s.streams.entries, e.2.rejected = false → e.2.emitted = true →
      e.2.hasDeadline = true → e.2.deadline ≤ now → s.answers e.1 = 0)
    (h : Once last s) : Once last (s.sweep now stall) := by
  -- the loop answers a stream only as it rejects it
  have loop : Once last (s.sweep now stall) ∧ ∀ sid st,
      (s.sweep now stall).streams.find sid = some st → st.rejected = false →
        (s.sweep now stall).answers sid = s.answers sid := by
    refine Session.sweep_rule (I := fun s' => Once last s' ∧ ∀ sid st,
      s'.streams.find sid = some st → st.rejected = false → s'.answers sid = s.answers sid)
      ?_ ⟨h, fun _ _ _ _ => rfl⟩
    rintro s' e before here ⟨once, same⟩
    have kept : ∀ s'' : Session, s''.streams = s'.streams → s''.submits = s'.submits →
        ∀ sid st, (s''.rejectStream e.1 e.2 408 []).streams.find sid = some st →
          st.rejected = false →
          (s''.rejectStream e.1 e.2 408 []).answers sid = s.answers sid := by
      intro s'' streams submits sid st hst live
      rw [Session.find_rejectStream] at hst
      by_cases hk : sid = e.1
      · rw [if_pos hk] at hst
        cases hst
        cases live
      · rw [if_neg hk, streams] at hst
        rw [answers_rejectStream hk, Session.answers, submits]
        exact same sid st hst live
    rcases Session.sweepStream_cases (s := s') e with
      h1 | ⟨live, emitted, hasDeadline, passed, h1⟩ | ⟨live, waiting, h1⟩
    · rw [h1]
      exact ⟨once, same⟩
    · rw [h1]
      let s₁ : Session := { s' with
        expired := s'.expired ++ [e.2.requestId]
        reqToStream := s'.reqToStream.erase e.2.requestId }
      have once₁ : Once last s₁ := once.congr rfl rfl
      refine ⟨once₁.rejectStream (known _ _ before) ?_, kept _ rfl rfl⟩
      exact (same e.1 e.2 here live).trans
        (late e (Table.find_eq_some_iff.mp before) live emitted hasDeadline passed)
    · rw [h1]
      exact ⟨once.rejectStream (known _ _ before) (once.waiting e.1 e.2 here live waiting),
        kept _ rfl rfl⟩
  exact loop.1

theorem once_step (tied : Tied cfg w) (below : Below w) (ids : Ids w.session)
    (h : Once w.wire.lastStream w.session) (ok : inTime w ev) (hs : step cfg w ev = some w') :
    Once w'.wire.lastStream w'.session := by
  obtain ⟨wire, hw, rfl⟩ := step_cases hs
  have known : ∀ sid st, w.session.streams.find sid = some st → sid ≤ w.wire.lastStream :=
    fun _ _ hst => open_known tied below hst
  cases ev with
  | beginHeaders sid cat now =>
      cases cat with
      | headers =>
          obtain ⟨_, _, _, _, rfl⟩ := update_cases hw
          exact h
      | request =>
          simp only [Wire.deliver, Option.ite_none_right_eq_some, Option.some.injEq] at hw
          obtain ⟨new, rfl⟩ := hw
          exact (h.mono new.le).assign rfl rfl fun _ _ => h.new sid new
  | header sid cat name value =>
      obtain ⟨a, a', st, ha', hst, follows⟩ := inbound_stream tied hw
      obtain ⟨_, _, _, _, rfl⟩ := update_cases hw
      cases cat with
      | headers => exact h
      | request =>
          simp only [Wire.onStream, Option.ite_none_left_eq_some, Bool.not_eq_true] at ha'
          have new : st.emitted = false := (follows.unrouted ha'.1).2.2.1
          obtain ⟨rejected, -, -, -⟩ := addHeader_same st name value
          rw [Session.handle]
          rcases Session.onHeader_cases hst with
            ⟨-, h1⟩ | ⟨live, h1⟩ | ⟨live, h1⟩
          · rw [h1]
            exact h
          · rw [h1]
            exact h.rejectStream (known sid st hst) (h.waiting sid st hst live new)
          · rw [h1]
            exact h.assign rfl rfl fun _ _ => h.waiting sid st hst live new
  | dataChunk sid data now =>
      obtain ⟨a, a', st, ha', hst, follows⟩ := inbound_stream tied hw
      obtain ⟨_, _, _, _, rfl⟩ := update_cases hw
      simp only [Wire.onStream, Option.ite_none_right_eq_some, Bool.not_eq_true] at ha'
      have new : st.emitted = false := by
        by_contra he
        have ended := follows.ended (by simpa using he)
        rw [ha'.1.2.1] at ended
        cases ended
      rw [Session.handle]
      rcases Session.onDataChunk_cases hst with
        ⟨-, h1⟩ | ⟨live, h1⟩ | ⟨live, -, h1⟩
      · rw [h1]
        exact h
      · rw [h1]
        exact h.rejectStream (known sid st hst) (h.waiting sid st hst live new)
      · rw [h1]
        exact h.assign rfl rfl fun _ _ => h.waiting sid st hst live new
  | frame f now admitted =>
      have last : wire.lastStream = w.wire.lastStream := by
        simp only [Wire.deliver] at hw
        split at hw
        · cases hw
          rfl
        · obtain ⟨_, _, _, _, rfl⟩ := update_cases hw
          rfl
      dsimp only
      rw [last]
      exact onFrameRecv_rule tied hw
        (fun st hst new once => onRequestHeaders_once hst new (known _ st hst) once)
        (fun st₀ hst₀ _ _ hst new once => onEndStream_once hst new (known _ st₀ hst₀) once) h
  | streamClose sid =>
      simp only [Wire.deliver, Option.ite_none_right_eq_some, Option.some.injEq] at hw
      obtain ⟨hopen, rfl⟩ := hw
      obtain ⟨a, ha⟩ := Option.isSome_iff_exists.mp hopen
      obtain ⟨st, hst, -⟩ := tied.right ha
      simp only [Session.handle, Session.onStreamClose, hst]
      refine ⟨h.le, h.new, ?_⟩
      intro k x hx
      dsimp only at hx
      rw [Table.find_erase] at hx
      by_cases hk : k = sid
      · rw [if_pos hk] at hx
        cases hx
      · rw [if_neg hk] at hx
        exact h.waiting k x hx
  | respond id status headers body =>
      cases hw
      rw [Session.handle]
      rcases Session.respond_cases (s := w.session)
        with h1 | ⟨sid, st, hid, hst, h1⟩
      · rw [h1]
        exact h
      · by_cases stopped : w.session.stopped = true
        · rw [Session.respond, if_pos stopped]
          exact h
        · rw [h1]
          obtain ⟨⟨x, hx, emitted, -⟩, -⟩ := (ids.exact id sid).mp hid
          rw [hst] at hx
          cases hx
          exact h.submit rfl rfl rfl (known sid st hst) (ok (by simpa using stopped) sid hid)
            (.inr emitted)
  | sweep now stall =>
      cases hw
      rw [Session.handle]
      by_cases stopped : w.session.stopped = true
      · rw [Session.sweep, if_pos stopped]
        exact h
      · exact once_sweep known (ok (by simpa using stopped)) h
  | goAway =>
      cases hw
      simp only [Session.handle, Session.goAway]
      split
      · exact h
      · exact h.congr rfl rfl
  | stop =>
      cases hw
      exact h.congr rfl rfl
  | idsTaken n =>
      cases hw
      exact h.congr rfl rfl

/-- In every run whose steps are `inTime`, `nghttp2_submit_response` is called at most once
for each stream, and `reqToStream_` maps exactly the ids of the streams that were emitted,
are open and were not retired by `sweep`. -/
theorem one_response (run : Reaches (stepOf (step cfg)) inTime {} w) :
    (∀ sid, (w.session.submits.filter fun sub => sub.streamId = sid).length ≤ 1) ∧
    ∀ id sid, w.session.reqToStream.find id = some sid ↔
      (∃ st, w.session.streams.find sid = some st ∧ st.emitted = true ∧ st.requestId = id) ∧
        id ∉ w.session.expired := by
  have init : Tied cfg {} ∧ Below {} ∧ Ids ({} : World).session ∧ Once 0 ({} : World).session :=
    ⟨Table.Rel.empty, fun _ _ => rfl, Ids.init, fun _ => Nat.zero_le _, fun _ _ => rfl,
      fun _ _ hst => by cases hst⟩
  have reached : Tied cfg w ∧ Below w ∧ Ids w.session ∧ Once w.wire.lastStream w.session := by
    refine Reaches.invariant (I := fun w =>
      Tied cfg w ∧ Below w ∧ Ids w.session ∧ Once w.wire.lastStream w.session) init ?_ run
    rintro w ev w' ⟨tied, below, ids, once⟩ ok hs
    exact ⟨tied_step tied hs, below_step below hs, ids_step tied below ids hs,
      once_step tied below ids once ok hs⟩
  obtain ⟨-, -, ids, once⟩ := reached
  exact ⟨once.le, ids.exact⟩

/-- A session whose handlers have 10 ms. -/
def deadlineSetup : Setup where
  router := ⟨fun _ _ _ => none, fun _ => []⟩
  defaultTimeoutMs := 10

/-- A request that is emitted, answered and, its answer still held back, swept. -/
def answeredThenSwept (now : Int) : List Event :=
  [.beginHeaders 1 .request 0, .header 1 .request (ascii ":path") (ascii "/slow"),
    .frame ⟨.headers .request, 1, true⟩ 0 true, .respond 1 200 [] (ascii "body"), .sweep now 0]

theorem one_response_in_time : ∃ w,
    exec (guarded inTime (step deadlineSetup)) (answeredThenSwept 9) {} = some w ∧
    w.session.submits.length = 1 ∧ w.session.reqToStream.find 1 = some 1 ∧
    1 ∉ w.session.expired := by
  obtain ⟨w, hw, submits, map⟩ := exec_any (f := guarded inTime (step deadlineSetup)) (s := {})
    (p := fun w => w.session.submits.length = 1 ∧ w.session.reqToStream.find 1 = some 1)
    (show (exec _ (answeredThenSwept 9) _).any _ = true by decide +kernel)
  have mapped := (one_response (exec_guarded hw)).2 1 1
  exact ⟨w, hw, submits, map, (mapped.mp map).2⟩

/-- A sweep behind the deadline answers the stream again. -/
theorem swept_after_answer : ∃ w, Reachable deadlineSetup w ∧
    (w.session.submits.filter fun sub => sub.streamId = 1).length = 2 := by
  obtain ⟨w, hw, twice⟩ := exec_any (f := step deadlineSetup) (s := {})
    (p := fun w => (w.session.submits.filter fun sub => sub.streamId = 1).length = 2)
    (show (exec _ (answeredThenSwept 10) _).any _ = true by decide +kernel)
  exact ⟨w, exec_reaches hw, twice⟩

end NitroServer.H2
