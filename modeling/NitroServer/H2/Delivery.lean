/-
The session's streams against what nghttp2 has delivered on them.

`Follows` relates the state of one stream to what has arrived on it: the declared length,
how far the request has come, and how much of its body is buffered and reserved.
`tied_step` shows that every step keeps the two tables of streams in step, and so
`reachable_tied` has it in every reachable state.

Each callback has a case lemma (`onHeader_cases`, `onDataChunk_cases`, …) that lists what it
does to a stream that is open; the later modules argue from those.
-/

import NitroServer.H2.Session

namespace NitroServer.H2

open Engine Lib

variable {cfg : Setup} {s : Session} {a a' : Arrived} {st : Stream} {sid j : Nat}

/-! ### Lookups after an update -/

namespace Session

@[simp] theorem find_put :
    (s.put sid st).streams.find j = if j = sid then some st else s.streams.find j :=
  Table.find_set

@[simp] theorem find_rejectStream {status : Nat} {extra : List Header} :
    (s.rejectStream sid st status extra).streams.find j =
      if j = sid then some { st with rejected := true, body := [] } else s.streams.find j :=
  Table.find_set

/-! ### What the callbacks do -/

theorem onHeader_cases {name value : Bytes} (hst : s.streams.find sid = some st) :
    (st.rejected = true ∧ s.onHeader sid .request name value = s) ∨
    (st.rejected = false ∧
      s.onHeader sid .request name value = s.rejectStream sid st 400 []) ∨
    (st.rejected = false ∧
      s.onHeader sid .request name value = s.put sid (st.addHeader name value)) := by
  simp only [onHeader, ne_eq, not_true_eq_false, if_false, hst]
  by_cases hr : st.rejected = true
  · simp [hr]
  · simp only [hr, Bool.false_eq_true, if_false, false_and, false_or]
    split
    · simp
    · split
      · simp
      · simp

theorem onDataChunk_cases {data : Bytes} {now : Int} (hst : s.streams.find sid = some st) :
    (st.rejected = true ∧ s.onDataChunk sid data now = s) ∨
    (st.rejected = false ∧
      s.onDataChunk sid data now = s.rejectStream sid { st with lastProgress := now } 413 []) ∨
    (st.rejected = false ∧ (0 < st.maxBody → (st.body ++ data).length ≤ st.maxBody) ∧
      s.onDataChunk sid data now =
        s.put sid { st with lastProgress := now, body := st.body ++ data }) := by
  simp only [onDataChunk, hst]
  by_cases hr : st.rejected = true
  · simp [hr]
  · simp only [hr, Bool.false_eq_true, if_false, false_and, false_or]
    split
    · simp
    · rename_i within
      refine .inr ⟨by simp, fun hmax => ?_, rfl⟩
      rw [List.length_append]
      push_cast
      by_contra beyond
      exact within ⟨hmax, by omega⟩

theorem refuseDeclared_cases (s : Session) (sid : Nat) (st : Stream) :
    (st.rejected = false ∧ s.refuseDeclared sid st = s.rejectStream sid st 413 []) ∨
    s.refuseDeclared sid st = s.put sid st := by
  rw [refuseDeclared]
  split
  · rename_i beyond
    exact .inl ⟨by simpa using beyond.1, rfl⟩
  · exact .inr rfl

theorem reserve_cases {endStream : Bool} (hst : s.streams.find sid = some st) :
    ((st.rejected = true ∨ cfg.bodyBudget ≤ 0) ∧ s.reserve cfg sid endStream = s) ∨
    (st.rejected = false ∧
      ∃ status extra, s.reserve cfg sid endStream = s.rejectStream sid st status extra) ∨
    (st.rejected = false ∧ 0 < cfg.bodyBudget ∧
      want cfg st endStream ≤ cfg.bodyBudget ∧
      s.reserved + want cfg st endStream ≤ cfg.bodyBudget ∧
      s.reserve cfg sid endStream =
        { s.put sid { st with reserved := want cfg st endStream } with
          reserved := s.reserved + want cfg st endStream }) := by
  simp only [reserve, hst]
  split
  · rename_i live
    have hr : st.rejected = false := by simpa using live.1
    split
    · exact .inr (.inl ⟨hr, _, _, rfl⟩)
    · rename_i fits
      split
      · exact .inr (.inl ⟨hr, _, _, rfl⟩)
      · rename_i room
        exact .inr (.inr ⟨hr, live.2, not_lt.mp fits, not_lt.mp room, rfl⟩)
  · rename_i dead
    refine .inl ⟨?_, rfl⟩
    by_cases hr : st.rejected = true
    · exact .inl hr
    · exact .inr (not_lt.mp fun hb => dead ⟨by simpa using hr, hb⟩)

theorem onEndStream_cases {now : Int} {admitted : Bool} (hst : s.streams.find sid = some st) :
    (st.rejected = true ∧ s.onEndStream cfg sid now admitted = s) ∨
    (st.rejected = false ∧ ∃ status extra,
      s.onEndStream cfg sid now admitted = s.rejectStream sid st status extra) ∨
    (st.rejected = false ∧ s.onEndStream cfg sid now admitted = s.dispatch sid st now) := by
  simp only [onEndStream, hst]
  by_cases hr : st.rejected = true
  · simp [hr]
  · have live : st.rejected = false := by simpa using hr
    rw [if_neg hr, emitComplete]
    split
    · exact .inr (.inl ⟨live, _, _, rfl⟩)
    · split
      · exact .inr (.inl ⟨live, _, _, rfl⟩)
      · exact .inr (.inr ⟨live, rfl⟩)

end Session

/-! ### One stream -/

/-- The state of an open stream against what has arrived on it. -/
structure Follows (a : Arrived) (st : Stream) : Prop where
  declared : st.rejected = false → st.contentLength = a.declared.elim (-1) fun n => (n : Int)
  fits : ∀ n ∈ a.declared, a.received ≤ n
  unrouted : a.headersDone = false →
    st.body = [] ∧ st.reserved = 0 ∧ st.emitted = false ∧ a.received = 0 ∧ a.ended = false
  pending : st.rejected = false → st.emitted = false → a.ended = false
  ended : st.emitted = true → a.ended = true
  settled : st.rejected = true ∨ st.emitted = true → st.body = []
  within : st.body.length ≤ a.received
  capped : 0 < st.maxBody → (st.body.length : Int) ≤ st.maxBody
  nonneg : 0 ≤ st.reserved

/-- With a budget, a stream whose body may still arrive has reserved all of it. -/
def Booked (cfg : Setup) (a : Arrived) (st : Stream) : Prop :=
  0 < cfg.bodyBudget → a.headersDone = true → st.rejected = false → st.emitted = false →
    st.reserved = Session.want cfg st false ∧ (0 ≤ st.contentLength ∨ 0 < st.maxBody)

theorem addHeader_same (st : Stream) (name value : Bytes) :
    (st.addHeader name value).rejected = st.rejected ∧
    (st.addHeader name value).body = st.body ∧
    (st.addHeader name value).reserved = st.reserved ∧
    (st.addHeader name value).emitted = st.emitted ∧
    (st.addHeader name value).maxBody = st.maxBody ∧
    (st.addHeader name value).requestId = st.requestId := by
  unfold Stream.addHeader
  repeat' split
  all_goals exact ⟨rfl, rfl, rfl, rfl, rfl, rfl⟩

theorem contentLength_addHeader (name value : Bytes) :
    (st.addHeader name value).contentLength =
      if name = ascii "content-length" then contentLengthOf value else st.contentLength := by
  have named : ∀ pseudo, pseudo ≠ ascii "content-length" → name = pseudo →
      name ≠ ascii "content-length" := fun _ ne eq => eq ▸ ne
  unfold Stream.addHeader
  split
  · rename_i hm
    rw [if_neg (named _ (by decide) hm)]
  split
  · rename_i hp
    rw [if_neg (named _ (by decide) hp)]
    split <;> rfl
  split
  · rename_i hs
    rw [if_neg (named _ (by decide) hs)]
  split
  · rename_i ha
    rw [if_neg (named _ (by decide) ha)]
  · rfl

/-- What nghttp2 takes for a length is read as that length. -/
theorem contentLengthOf_eq {v : Bytes} {n : Nat} (h : declaredLength v = some n) :
    contentLengthOf v = n := by
  simp only [declaredLength, Option.ite_none_right_eq_some, Option.some.injEq] at h
  obtain ⟨⟨digits, small⟩, rfl⟩ := h
  unfold contentLengthOf
  split
  · simp [isDigits] at digits
  · rw [if_pos ⟨digits, small⟩]

theorem field_cases {name value : Bytes} (h : Wire.field a name value = some a') :
    (name ≠ ascii "content-length" ∧ a' = a) ∨
    (name = ascii "content-length" ∧
      ∃ n, declaredLength value = some n ∧ a' = { a with declared := some n }) := by
  rw [Wire.field] at h
  split at h
  · rename_i hn
    split at h
    · cases h
    · obtain ⟨n, hv, rfl⟩ := Option.map_eq_some_iff.mp h
      exact .inr ⟨hn, n, hv, rfl⟩
  · rename_i hn
    exact .inl ⟨hn, (Option.some.inj h).symm⟩

theorem route_same (st : Stream) (now : Int) :
    (Session.route cfg st now).rejected = st.rejected ∧
    (Session.route cfg st now).contentLength = st.contentLength ∧
    (Session.route cfg st now).body = st.body ∧
    (Session.route cfg st now).reserved = st.reserved ∧
    (Session.route cfg st now).emitted = st.emitted ∧
    (Session.route cfg st now).requestId = st.requestId := by
  unfold Session.route
  split
  · exact ⟨rfl, rfl, rfl, rfl, rfl, rfl⟩
  · exact ⟨rfl, rfl, rfl, rfl, rfl, rfl⟩

theorem want_nonneg (budget : 0 < cfg.bodyBudget) (st : Stream) (endStream : Bool) :
    0 ≤ Session.want cfg st endStream := by
  unfold Session.want
  repeat' split
  all_goals omega

namespace Follows

theorem opened {maxBody now : Int} :
    Follows {} { maxBody := maxBody, lastProgress := now } where
  declared _ := rfl
  fits _ h := by cases h
  unrouted _ := ⟨rfl, rfl, rfl, rfl, rfl⟩
  pending _ _ := rfl
  ended h := by cases h
  settled _ := rfl
  within := le_rfl
  capped h := h.le
  nonneg := le_rfl

/-- A stream that is refused follows whatever arrives next. -/
theorem reject (h : Follows a st) (fits : ∀ n ∈ a'.declared, a'.received ≤ n)
    (early : a'.headersDone = false → a.headersDone = false ∧ a'.received = 0 ∧ a'.ended = false)
    (ended : a.ended = true → a'.ended = true) :
    Follows a' { st with rejected := true, body := [] } where
  declared live := by cases live
  fits := fits
  unrouted hd := by
    obtain ⟨-, reserved, emitted, -⟩ := h.unrouted (early hd).1
    exact ⟨rfl, reserved, emitted, (early hd).2⟩
  pending live := by cases live
  ended he := ended (h.ended he)
  settled _ := rfl
  within := Nat.zero_le _
  capped hm := hm.le
  nonneg := h.nonneg

/-- A refused stream only follows. -/
theorem ofRejected (h : Follows a st) (rejected : st.rejected = true)
    (fits : ∀ n ∈ a'.declared, a'.received ≤ n)
    (early : a'.headersDone = false → a.headersDone = false ∧ a'.received = 0 ∧ a'.ended = false)
    (ended : a.ended = true → a'.ended = true) : Follows a' st := by
  have same : ({ st with rejected := true, body := [] } : Stream) = st := by
    rw [← rejected, ← h.settled (.inl rejected)]
  exact same ▸ h.reject fits early ended

theorem touch (h : Follows a st) (now : Int) : Follows a { st with lastProgress := now } :=
  ⟨h.declared, h.fits, h.unrouted, h.pending, h.ended, h.settled, h.within, h.capped,
    h.nonneg⟩

/-- What a stream buffers is what it reserved, at most. -/
theorem body_le_reserved (h : Follows a st) (booked : Booked cfg a st)
    (budget : 0 < cfg.bodyBudget) :
    (st.body.length : Int) ≤ st.reserved := by
  have empty : st.body = [] → (st.body.length : Int) ≤ st.reserved := by
    intro hb
    rw [hb]
    exact h.nonneg
  by_cases hd : a.headersDone = true
  · by_cases hr : st.rejected = true
    · exact empty (h.settled (.inl hr))
    by_cases he : st.emitted = true
    · exact empty (h.settled (.inr he))
    · rw [Bool.not_eq_true] at hr he
      obtain ⟨reserved, bounded⟩ := booked budget hd hr he
      rw [reserved, Session.want, if_neg (by simp)]
      split
      · rename_i hcl
        -- nghttp2 delivers no byte beyond the declared length
        rw [h.declared hr] at hcl ⊢
        cases hn : a.declared with
        | none => simp [hn] at hcl
        | some n =>
            have arrived := h.fits n hn
            have buffered := h.within
            simp only [Option.elim_some]
            omega
      · rename_i hcl
        have cap := bounded.resolve_left hcl
        rw [if_pos cap]
        exact h.capped cap
  · rw [Bool.not_eq_true] at hd
    exact empty (h.unrouted hd).1

/-- A field of the request's header block. -/
theorem addHeader (h : Follows a st) {name value : Bytes} (early : a.headersDone = false)
    (hf : Wire.field a name value = some a') : Follows a' (st.addHeader name value) := by
  obtain ⟨rejected, body, reserved, emitted, maxBody, -⟩ := addHeader_same st name value
  have noData : a.received = 0 := (h.unrouted early).2.2.2.1
  have length : st.rejected = false →
      (st.addHeader name value).contentLength = a'.declared.elim (-1) fun n => (n : Int) := by
    intro live
    rw [contentLength_addHeader]
    rcases field_cases hf with ⟨hn, rfl⟩ | ⟨hn, n, hv, rfl⟩
    · rw [if_neg hn, h.declared live]
    · rw [if_pos hn, contentLengthOf_eq hv]
      rfl
  obtain ⟨done, ended, received⟩ : a'.headersDone = a.headersDone ∧ a'.ended = a.ended ∧
      a'.received = a.received := by
    rcases field_cases hf with ⟨-, rfl⟩ | ⟨-, n, -, rfl⟩
    · exact ⟨rfl, rfl, rfl⟩
    · exact ⟨rfl, rfl, rfl⟩
  constructor
  · rwa [rejected]
  · intro n _
    rw [received, noData]
    exact Nat.zero_le n
  · rw [body, reserved, emitted, received, ended, done]
    exact h.unrouted
  · rw [rejected, emitted, ended]
    exact h.pending
  · rw [emitted, ended]
    exact h.ended
  · rw [rejected, emitted, body]
    exact h.settled
  · rw [body, received]
    exact h.within
  · rw [maxBody, body]
    exact h.capped
  · rw [reserved]
    exact h.nonneg

/-- A piece of the body. -/
theorem data (h : Follows a st) {data : Bytes} {now : Int} (live : st.rejected = false)
    (done : a.headersDone = true) (notEnded : a.ended = false)
    (room : ∀ n ∈ a.declared, a.received + data.length ≤ n)
    (cap : 0 < st.maxBody → ((st.body ++ data).length : Int) ≤ st.maxBody) :
    Follows { a with received := a.received + data.length }
      { st with lastProgress := now, body := st.body ++ data } where
  declared := h.declared
  fits := room
  unrouted hd := by
    rw [done] at hd
    cases hd
  pending := h.pending
  ended := h.ended
  settled hs := by
    rcases hs with hr | he
    · rw [live] at hr
      cases hr
    · have ended := h.ended he
      rw [notEnded] at ended
      cases ended
  within := by
    rw [List.length_append]
    exact Nat.add_le_add_right h.within data.length
  capped := cap
  nonneg := h.nonneg

/-- The stream is routed; nothing is reserved yet. -/
theorem route (h : Follows a st) (early : a.headersDone = false) (now : Int) :
    Follows { a with headersDone := true } (Session.route cfg st now) := by
  obtain ⟨noBody, nothing, notEmitted, noData, notEnded⟩ := h.unrouted early
  obtain ⟨rejected, length, body, reserved, emitted, -⟩ := route_same st now
  constructor
  · rw [rejected, length]
    exact h.declared
  · exact h.fits
  · intro hd
    cases hd
  · intro _ _
    exact notEnded
  · rw [emitted]
    exact h.ended
  · rw [body, noBody]
    exact fun _ => rfl
  · rw [body]
    exact h.within
  · intro hm
    rw [body, noBody]
    exact hm.le
  · rw [reserved]
    exact h.nonneg

/-- The stream's share of the budget is set. -/
theorem reserve (h : Follows a st) (done : a.headersDone = true) {share : Int}
    (nonneg : 0 ≤ share) : Follows a { st with reserved := share } where
  declared := h.declared
  fits := h.fits
  unrouted hd := by
    rw [done] at hd
    cases hd
  pending := h.pending
  ended := h.ended
  settled := h.settled
  within := h.within
  capped := h.capped
  nonneg := nonneg

/-- The request is handed over. -/
theorem dispatch (h : Follows a st) (done : a.headersDone = true) (id : Nat)
    (deadline : Int) (hasDeadline : Bool) :
    Follows { a with ended := true }
      { st with
        requestId := id
        emitted := true
        deadline := deadline
        hasDeadline := hasDeadline
        body := [] } where
  declared := h.declared
  fits := h.fits
  unrouted hd := by
    dsimp only at hd
    rw [done] at hd
    cases hd
  pending _ he := by cases he
  ended _ := rfl
  settled _ := rfl
  within := Nat.zero_le _
  capped hm := hm.le
  nonneg := h.nonneg

end Follows

/-! ### Frames -/

namespace Session

theorem onHeader_ne {cat : Category} {name value : Bytes} (hj : j ≠ sid) :
    (s.onHeader sid cat name value).streams.find j = s.streams.find j := by
  unfold onHeader
  repeat' split
  all_goals simp [hj]

theorem onDataChunk_ne {data : Bytes} {now : Int} (hj : j ≠ sid) :
    (s.onDataChunk sid data now).streams.find j = s.streams.find j := by
  unfold onDataChunk
  repeat' split
  all_goals simp [hj]

theorem onRequestHeaders_ne {endStream : Bool} {now : Int} (hj : j ≠ sid) :
    (s.onRequestHeaders cfg sid endStream now).streams.find j = s.streams.find j := by
  unfold onRequestHeaders
  split
  · rfl
  · rename_i st _
    have declared : (s.refuseDeclared sid (route cfg st now)).streams.find j =
        s.streams.find j := by
      rcases refuseDeclared_cases s sid (route cfg st now) with ⟨-, h⟩ | h
      · simp [h, hj]
      · simp [h, hj]
    unfold reserve
    repeat' split
    all_goals simp [hj, declared]

theorem onEndStream_ne {now : Int} {admitted : Bool} (hj : j ≠ sid) :
    (s.onEndStream cfg sid now admitted).streams.find j = s.streams.find j := by
  cases hst : s.streams.find sid with
  | none => simp [onEndStream, hst]
  | some st =>
      rcases onEndStream_cases hst with
        ⟨-, h⟩ | ⟨-, _, _, h⟩ | ⟨-, h⟩
      · rw [h]
      · simp [h, hj]
      · simp [h, dispatch, hj]

/-- The first half of a request's HEADERS frame. -/
theorem onRequestHeaders_follows (endStream : Bool) {now : Int}
    (hst : s.streams.find sid = some st) (h : Follows a st) (early : a.headersDone = false) :
    ∃ st', (s.onRequestHeaders cfg sid endStream now).streams.find sid = some st' ∧
      Follows { a with headersDone := true } st' ∧
      (endStream = false → Booked cfg { a with headersDone := true } st') := by
  simp only [onRequestHeaders, hst]
  have routed : Follows _ (Session.route cfg st now) := h.route early now
  have refused : ∀ {r : Stream}, Follows { a with headersDone := true } r →
      Follows { a with headersDone := true } { r with rejected := true, body := [] } :=
    fun hr => hr.reject hr.fits (fun hd => by cases hd) id
  rcases refuseDeclared_cases s _ _ with ⟨-, h1⟩ | h1
  · -- refused for its declared length: nothing is reserved
    rw [h1]
    have here : (s.rejectStream sid (route cfg st now) 413 []).streams.find sid =
        some { route cfg st now with rejected := true, body := [] } := by simp
    rcases reserve_cases here with
      ⟨-, h2⟩ | ⟨live, -⟩ | ⟨live, -⟩
    · rw [h2]
      exact ⟨_, here, refused routed, fun _ _ _ live => by cases live⟩
    · cases live
    · cases live
  · rw [h1]
    have here : (s.put sid (route cfg st now)).streams.find sid = some (route cfg st now) := by simp
    rcases reserve_cases here with
      ⟨idle, h2⟩ | ⟨live, _, _, h2⟩ | ⟨live, budget, fits, room, h2⟩
    · rw [h2]
      refine ⟨_, here, routed, fun _ budget _ live => ?_⟩
      rcases idle with hr | hb
      · rw [hr] at live
        cases live
      · exact absurd hb (not_le.mpr budget)
    · rw [h2]
      exact ⟨_, by simp, refused routed, fun _ _ _ live => by cases live⟩
    · rw [h2]
      refine ⟨_, Table.find_set.trans (if_pos rfl), routed.reserve rfl (want_nonneg budget _ _), ?_⟩
      intro notEnded _ _ _ _
      subst notEnded
      refine ⟨rfl, ?_⟩
      -- an uncapped, undeclared body wants more than the budget
      by_contra unbounded
      rw [not_or] at unbounded
      dsimp only at unbounded
      rw [want, if_neg (by simp), if_neg unbounded.1, if_neg unbounded.2] at fits
      omega

/-- END_STREAM settles a stream. -/
theorem onEndStream_follows {now : Int} {admitted : Bool} (hst : s.streams.find sid = some st)
    (h : Follows a st) (done : a.headersDone = true) :
    ∃ st', (s.onEndStream cfg sid now admitted).streams.find sid = some st' ∧
      Follows { a with ended := true } st' ∧ Booked cfg { a with ended := true } st' := by
  have routed : ({ a with ended := true } : Arrived).headersDone = false →
      a.headersDone = false ∧ ({ a with ended := true } : Arrived).received = 0 ∧
        ({ a with ended := true } : Arrived).ended = false := by
    intro hd
    dsimp only at hd
    rw [done] at hd
    cases hd
  rcases onEndStream_cases hst with
    ⟨hr, h1⟩ | ⟨-, _, _, h1⟩ | ⟨-, h1⟩
  · rw [h1]
    refine ⟨st, hst, h.ofRejected hr h.fits routed fun _ => rfl, fun _ _ live => ?_⟩
    rw [hr] at live
    cases live
  · rw [h1]
    exact ⟨_, by simp, h.reject h.fits routed fun _ => rfl, fun _ _ live => by cases live⟩
  · rw [h1]
    exact ⟨_, Table.find_set.trans (if_pos rfl), h.dispatch done _ _ _,
      fun _ _ _ he => by cases he⟩

end Session

/-! ### Steps -/

/-- The session's streams are those nghttp2 has open, each as far as it has arrived. -/
def Tied (cfg : Setup) (w : World) : Prop :=
  Table.Rel (fun a st => Follows a st ∧ Booked cfg a st) w.wire.streams w.session.streams

variable {w w' : World} {ev : Event}

theorem step_cases (h : step cfg w ev = some w') :
    ∃ wire, w.wire.deliver ev = some wire ∧ w' = ⟨w.session.handle cfg ev, wire⟩ := by
  rw [step] at h
  split at h
  · cases h
  · obtain ⟨wire, hd, rfl⟩ := Option.map_eq_some_iff.mp h
    exact ⟨wire, hd, rfl⟩

theorem update_cases {wire wire' : Wire} (h : wire.update sid ev = some wire') :
    ∃ a a', wire.streams.find sid = some a ∧ Wire.onStream a ev = some a' ∧
      wire' = { wire with streams := wire.streams.set sid a' } := by
  obtain ⟨a, ha, h⟩ := Option.bind_eq_some_iff.mp h
  obtain ⟨a', ha', h⟩ := Option.bind_eq_some_iff.mp h
  exact ⟨a, a', ha, ha', (Option.some.inj h).symm⟩

/-- The rule for a callback on an open stream: it is enough that the stream follows what
has arrived now. -/
theorem Tied.onStream {wire' : Wire} {s' : Session} (h : Tied cfg w)
    (hw : w.wire.update sid ev = some wire')
    (frame : ∀ j, j ≠ sid → s'.streams.find j = w.session.streams.find j)
    (here : ∀ a a' st, w.wire.streams.find sid = some a → Wire.onStream a ev = some a' →
      w.session.streams.find sid = some st → Follows a st → Booked cfg a st →
      ∃ st', s'.streams.find sid = some st' ∧ Follows a' st' ∧ Booked cfg a' st') :
    Tied cfg ⟨s', wire'⟩ := by
  obtain ⟨a, a', ha, ha', rfl⟩ := update_cases hw
  obtain ⟨st, hst, follows, booked⟩ := h.right ha
  obtain ⟨st', hst', tied⟩ := here a a' st ha ha' hst follows booked
  refine Table.Rel.update (k := sid) h (fun j hj => ?_) frame ?_
  · simp [hj]
  · simp only [Table.find_set, if_true, hst']
    exact .some tied

theorem tied_header {name value : Bytes} {cat : Category} {wire' : Wire} (h : Tied cfg w)
    (hw : w.wire.update sid (.header sid cat name value) = some wire') :
    Tied cfg ⟨w.session.onHeader sid cat name value, wire'⟩ := by
  refine h.onStream hw (fun j hj => Session.onHeader_ne hj) ?_
  intro a a' st _ ha' hst follows booked
  cases cat with
  | headers =>
      simp only [Wire.onStream, Option.ite_none_right_eq_some, Option.some.injEq] at ha'
      obtain ⟨-, rfl⟩ := ha'
      exact ⟨st, hst, follows, booked⟩
  | request =>
      simp only [Wire.onStream, Option.ite_none_left_eq_some, Bool.not_eq_true] at ha'
      obtain ⟨early, field⟩ := ha'
      have read := follows.addHeader early field
      have early' : a'.headersDone = false := by
        rcases field_cases field with ⟨-, rfl⟩ | ⟨-, n, -, rfl⟩
        · exact early
        · exact early
      have unbooked : ∀ st', Booked cfg a' st' := by
        intro st' _ done
        rw [early'] at done
        cases done
      obtain ⟨-, -, -, nothing, notEnded⟩ := read.unrouted early'
      have ended : a.ended = true → a'.ended = true := by
        intro he
        rw [(follows.unrouted early).2.2.2.2] at he
        cases he
      rcases Session.onHeader_cases hst with
        ⟨hr, h1⟩ | ⟨-, h1⟩ | ⟨-, h1⟩
      · rw [h1]
        exact ⟨st, hst,
          follows.ofRejected hr read.fits (fun _ => ⟨early, nothing, notEnded⟩) ended, unbooked _⟩
      · rw [h1]
        exact ⟨_, by simp, follows.reject read.fits (fun _ => ⟨early, nothing, notEnded⟩) ended,
          unbooked _⟩
      · rw [h1]
        exact ⟨_, by simp, read, unbooked _⟩

theorem tied_dataChunk {data : Bytes} {now : Int} {wire' : Wire} (h : Tied cfg w)
    (hw : w.wire.update sid (.dataChunk sid data now) = some wire') :
    Tied cfg ⟨w.session.onDataChunk sid data now, wire'⟩ := by
  refine h.onStream hw (fun j hj => Session.onDataChunk_ne hj) ?_
  intro a a' st _ ha' hst follows booked
  simp only [Wire.onStream, Option.ite_none_right_eq_some, Option.some.injEq] at ha'
  obtain ⟨⟨done, notEnded, room⟩, rfl⟩ := ha'
  rw [Bool.not_eq_true] at notEnded
  have later : ∀ {a' : Arrived}, a'.headersDone = a.headersDone → a'.headersDone = false →
      a.headersDone = false ∧ a'.received = 0 ∧ a'.ended = false := by
    intro a' same hd
    rw [same, done] at hd
    cases hd
  rcases Session.onDataChunk_cases hst with
    ⟨hr, h1⟩ | ⟨-, h1⟩ | ⟨live, cap, h1⟩
  · rw [h1]
    refine ⟨st, hst, follows.ofRejected hr room (later rfl) id, fun _ _ live => ?_⟩
    rw [hr] at live
    cases live
  · rw [h1]
    exact ⟨_, by simp, (follows.touch now).reject room (later rfl) id,
      fun _ _ live => by cases live⟩
  · rw [h1]
    exact ⟨_, Table.find_set.trans (if_pos rfl), follows.data live done notEnded room cap, booked⟩

/-- A later frame on the stream. -/
theorem onStream_later {type : FrameType} {endStream : Bool} {now : Int} {admitted : Bool}
    (hr : type ≠ .headers .request) (hf : type ≠ .other)
    (h : Wire.onStream a (.frame ⟨type, sid, endStream⟩ now admitted) = some a') :
    a.headersDone = true ∧ a.ended = false ∧ a' = { a with ended := endStream } := by
  cases type with
  | headers cat =>
      cases cat with
      | request => exact absurd rfl hr
      | headers =>
          simp only [Wire.onStream, Option.ite_none_right_eq_some, Option.some.injEq,
            Bool.not_eq_true] at h
          exact ⟨h.1.1, h.1.2, h.2.symm⟩
  | data =>
      simp only [Wire.onStream, Option.ite_none_right_eq_some, Option.some.injEq,
        Bool.not_eq_true] at h
      exact ⟨h.1.1, h.1.2, h.2.symm⟩
  | other => exact absurd rfl hf

theorem tied_frame {f : Frame} {now : Int} {admitted : Bool} {wire' : Wire} (h : Tied cfg w)
    (hf : f.type ≠ .other) (hw : w.wire.update f.streamId (.frame f now admitted) = some wire') :
    Tied cfg ⟨w.session.onFrameRecv cfg f now admitted, wire'⟩ := by
  obtain ⟨type, sid, endStream⟩ := f
  refine h.onStream hw ?_ ?_
  · intro j hj
    unfold Session.onFrameRecv
    dsimp only
    split
    · rw [Session.onEndStream_ne hj]
      split
      · exact Session.onRequestHeaders_ne hj
      · rfl
    · split
      · exact Session.onRequestHeaders_ne hj
      · rfl
  · intro a a' st _ ha' hst follows booked
    by_cases hr : type = .headers .request
    · subst hr
      simp only [Wire.onStream, Option.ite_none_left_eq_some, Bool.not_eq_true,
        Option.some.injEq] at ha'
      obtain ⟨early, rfl⟩ := ha'
      obtain ⟨st', hst', routed, booked'⟩ :=
        Session.onRequestHeaders_follows endStream hst follows early
      cases endStream with
      | false =>
          have notEnded : a.ended = false := (follows.unrouted early).2.2.2.2
          have same : ({ a with headersDone := true, ended := false } : Arrived) =
              { a with headersDone := true } := by rw [notEnded]
          simp only [Session.onFrameRecv, if_true, Bool.false_eq_true, and_false, if_false]
          rw [same]
          exact ⟨st', hst', routed, booked' rfl⟩
      | true =>
          simp only [Session.onFrameRecv, if_true, ne_eq, hf, not_false_eq_true, and_self]
          exact Session.onEndStream_follows hst' routed rfl
    · obtain ⟨done, notEnded, rfl⟩ := onStream_later hr hf ha'
      cases endStream with
      | false =>
          have same : ({ a with ended := false } : Arrived) = a := by rw [← notEnded]
          simp only [Session.onFrameRecv, if_neg hr, Bool.false_eq_true, and_false, if_false]
          rw [same]
          exact ⟨st, hst, follows, booked⟩
      | true =>
          simp only [Session.onFrameRecv, if_neg hr, ne_eq, hf, not_false_eq_true, and_self,
            if_true]
          exact Session.onEndStream_follows hst follows done

namespace Session

theorem sweepStream_cases {now stall : Int} (e : Nat × Stream) :
    sweepStream now stall s e = s ∨
    (e.2.rejected = false ∧ e.2.emitted = true ∧ e.2.hasDeadline = true ∧ e.2.deadline ≤ now ∧
      sweepStream now stall s e =
        { s with
          expired := s.expired ++ [e.2.requestId]
          reqToStream := s.reqToStream.erase e.2.requestId }.rejectStream e.1 e.2 408 []) ∨
    (e.2.rejected = false ∧ e.2.emitted = false ∧
      sweepStream now stall s e = s.rejectStream e.1 e.2 408 []) := by
  unfold sweepStream
  dsimp only
  split
  · exact .inl rfl
  · rename_i hr
    rw [Bool.not_eq_true] at hr
    split
    · rename_i he
      split
      · rename_i late
        exact .inr (.inl ⟨hr, he, late.1, late.2, rfl⟩)
      · exact .inl rfl
    · rename_i he
      rw [Bool.not_eq_true] at he
      split
      · exact .inr (.inr ⟨hr, he, rfl⟩)
      · exact .inl rfl

theorem sweepStream_ne {now stall : Int} {e : Nat × Stream} (hj : j ≠ e.1) :
    (sweepStream now stall s e).streams.find j = s.streams.find j := by
  rcases sweepStream_cases (s := s) e with
    h | ⟨-, -, -, -, h⟩ | ⟨-, -, h⟩
  · rw [h]
  · simp [h, hj]
  · simp [h, hj]

/-- The rule for `sweep`: what the loop's body keeps, the sweep keeps. -/
theorem sweep_rule {now stall : Int} {I : Session → Prop}
    (keeps : ∀ s' e, s.streams.find e.1 = some e.2 → s'.streams.find e.1 = some e.2 → I s' →
      I (sweepStream now stall s' e)) (init : I s) : I (s.sweep now stall) := by
  rw [sweep]
  split
  · exact init
  · exact Table.foldl_entries (fun _ _ _ hj => sweepStream_ne hj)
      (fun s' e he here => keeps s' e (Table.find_eq_some_iff.mpr he) here)
      (fun e he => Table.find_eq_some_iff.mpr he) init

theorem respond_cases {id status : Nat} {headers : List Header} {body : Bytes} :
    s.respond id status headers body = s ∨
    ∃ sid st, s.reqToStream.find id = some sid ∧ s.streams.find sid = some st ∧
      s.respond id status headers body = s.answer sid st status headers body := by
  unfold respond
  split
  · exact .inl rfl
  split
  · exact .inl rfl
  split
  · exact .inl rfl
  · rename_i sid hid _ st hst
    exact .inr ⟨sid, st, hid, hst, rfl⟩

end Session

theorem tied_sweep {now stall : Int} (h : Tied cfg w) :
    Tied cfg ⟨w.session.sweep now stall, w.wire⟩ := by
  refine Session.sweep_rule (I := fun s => Tied cfg ⟨s, w.wire⟩) ?_ h
  intro s' e _ here tied
  obtain ⟨a, ha, follows, -⟩ := tied.left here
  have refused : ∀ s'' : Session, (∀ j, s''.streams.find j = s'.streams.find j) →
      Tied cfg ⟨s''.rejectStream e.1 e.2 408 [], w.wire⟩ := by
    intro s'' same
    refine Table.Rel.update (k := e.1) tied (fun _ _ => rfl) (fun j hj => ?_) ?_
    · simp [hj, same]
    · simp only [ha, Session.find_rejectStream, if_true]
      exact .some ⟨follows.reject follows.fits
        (fun hd => ⟨hd, (follows.unrouted hd).2.2.2⟩) id, fun _ _ live => by cases live⟩
  rcases Session.sweepStream_cases (s := s') e with
    h1 | ⟨-, -, -, -, h1⟩ | ⟨-, -, h1⟩
  · rw [h1]
    exact tied
  · rw [h1]
    exact refused _ fun _ => rfl
  · rw [h1]
    exact refused _ fun _ => rfl

theorem tied_respond {id status : Nat} {headers : List Header} {body : Bytes}
    (h : Tied cfg w) : Tied cfg ⟨w.session.respond id status headers body, w.wire⟩ := by
  rcases Session.respond_cases (s := w.session)
    with h1 | ⟨sid, st, -, hst, h1⟩
  · rw [h1]
    exact h
  · rw [h1]
    obtain ⟨a, ha, follows, booked⟩ := h.left hst
    refine Table.Rel.update (k := sid) h (fun _ _ => rfl) (fun j hj => ?_) ?_
    · simp [Session.answer, hj]
    · simp only [ha, Session.answer, Session.find_put, if_true]
      exact .some ⟨⟨follows.declared, follows.fits, follows.unrouted, follows.pending,
        follows.ended, follows.settled, follows.within, follows.capped, follows.nonneg⟩, booked⟩

theorem tied_step (h : Tied cfg w) (hs : step cfg w ev = some w') : Tied cfg w' := by
  obtain ⟨wire, hw, rfl⟩ := step_cases hs
  cases ev with
  | beginHeaders sid cat now =>
      cases cat with
      | request =>
          simp only [Wire.deliver, Option.ite_none_right_eq_some, Option.some.injEq] at hw
          obtain ⟨-, rfl⟩ := hw
          refine Table.Rel.update (k := sid) h (fun j hj => ?_) (fun j hj => ?_) ?_
          · simp [hj]
          · simp [Session.handle, Session.onBeginHeaders, hj]
          · simp only [Table.find_set, if_true, Session.handle, Session.onBeginHeaders, ne_eq,
              not_true_eq_false, if_false, Session.find_put]
            exact .some ⟨Follows.opened, fun _ done => by cases done⟩
      | headers =>
          refine h.onStream hw (fun j _ => rfl) ?_
          intro a a' st _ ha' hst follows booked
          simp only [Wire.onStream, Option.ite_none_right_eq_some, Option.some.injEq] at ha'
          obtain ⟨-, rfl⟩ := ha'
          exact ⟨st, hst, follows, booked⟩
  | header sid cat name value => exact tied_header h hw
  | dataChunk sid data now => exact tied_dataChunk h hw
  | frame f now admitted =>
      by_cases hf : f.type = .other
      · simp only [Wire.deliver, if_pos hf, Option.some.injEq] at hw
        subst hw
        have idle : w.session.onFrameRecv cfg f now admitted = w.session := by
          simp [Session.onFrameRecv, hf]
        rw [Session.handle, idle]
        exact h
      · simp only [Wire.deliver, if_neg hf] at hw
        exact tied_frame h hf hw
  | streamClose sid =>
      simp only [Wire.deliver, Option.ite_none_right_eq_some, Option.some.injEq] at hw
      obtain ⟨hopen, rfl⟩ := hw
      obtain ⟨a, ha⟩ := Option.isSome_iff_exists.mp hopen
      obtain ⟨st, hst, -⟩ := h.right ha
      refine Table.Rel.update (k := sid) h (fun j hj => ?_) (fun j hj => ?_) ?_
      · simp [hj]
      · simp [Session.handle, Session.onStreamClose, hst, hj]
      · simp only [Table.find_erase, if_true, Session.handle, Session.onStreamClose, hst]
        exact .none
  | respond id status headers body =>
      cases hw
      exact tied_respond h
  | sweep now stall =>
      cases hw
      exact tied_sweep h
  | goAway =>
      cases hw
      simp only [Session.handle, Session.goAway]
      split
      · exact h
      · exact h
  | stop =>
      cases hw
      exact h
  | idsTaken n =>
      cases hw
      exact h

theorem reachable_tied (run : Reachable cfg w) : Tied cfg w := by
  refine Reaches.invariant (I := Tied cfg) ?_ (fun _ _ _ h _ hs => tied_step h hs) run
  exact Table.Rel.empty

/-- No stream beyond the last one a client has opened is open. -/
def Below (w : World) : Prop :=
  ∀ sid, w.wire.lastStream < sid → w.wire.streams.find sid = none

theorem below_update {wire wire' : Wire} {s s' : Session} (h : Below ⟨s, wire⟩)
    (hw : wire.update sid ev = some wire') : Below ⟨s', wire'⟩ := by
  obtain ⟨a, a', ha, -, rfl⟩ := update_cases hw
  intro j hj
  have gone := h j hj
  have other : j ≠ sid := by
    rintro rfl
    rw [ha] at gone
    cases gone
  simp [other, gone]

theorem below_step (h : Below w) (hs : step cfg w ev = some w') : Below w' := by
  obtain ⟨wire, hw, rfl⟩ := step_cases hs
  cases ev with
  | beginHeaders sid cat now =>
      cases cat with
      | request =>
          simp only [Wire.deliver, Option.ite_none_right_eq_some, Option.some.injEq] at hw
          obtain ⟨new, rfl⟩ := hw
          intro j hj
          dsimp only at hj
          simp only [Table.find_set, if_neg hj.ne', h j (new.trans hj)]
      | headers => exact below_update h hw
  | header sid cat name value => exact below_update h hw
  | dataChunk sid data now => exact below_update h hw
  | frame f now admitted =>
      simp only [Wire.deliver] at hw
      split at hw
      · cases hw
        exact h
      · exact below_update h hw
  | streamClose sid =>
      simp only [Wire.deliver, Option.ite_none_right_eq_some, Option.some.injEq] at hw
      obtain ⟨-, rfl⟩ := hw
      intro j hj
      simp only [Table.find_erase, h j hj, ite_self]
  | respond _ _ _ _ | sweep _ _ | goAway | stop | idsTaken _ =>
      cases hw
      exact h

theorem reachable_below (run : Reachable cfg w) : Below w :=
  Reaches.invariant (I := Below) (fun _ _ => rfl) (fun _ _ _ h _ hs => below_step h hs) run

/-- A stream that is opened is new to the session. -/
theorem fresh_stream {now : Int} {wire : Wire} (tied : Tied cfg w) (below : Below w)
    (hw : w.wire.deliver (.beginHeaders sid .request now) = some wire) :
    w.session.streams.find sid = none := by
  simp only [Wire.deliver, Option.ite_none_right_eq_some] at hw
  have shut := below sid hw.1
  by_contra some
  obtain ⟨st, hst⟩ := Option.ne_none_iff_exists'.mp some
  obtain ⟨a, ha, -⟩ := tied.left hst
  rw [shut] at ha
  cases ha

end NitroServer.H2
