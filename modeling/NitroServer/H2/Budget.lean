/-
The session's body budget (`bodyBudget_`, `reserved_`).

A stream reserves what it may come to buffer on its HEADERS frame and gives it back when
it closes. `Accounted` says that `reserved_` is what the open streams have reserved, and
never more than the budget; it is kept by every step (`accounted_step`), and with
`Follows.body_le_reserved` it bounds the bodies the session holds (`body_budget`).
-/

import NitroServer.H2.Delivery

namespace NitroServer.H2

open Engine Lib

variable {cfg : Setup} {s : Session} {a : Arrived} {st st' : Stream} {sid : Nat} {w w' : World}
  {ev : Event}

/-- `reserved_` is the sum of the open streams' shares and within the budget. -/
structure Accounted (cfg : Setup) (s : Session) : Prop where
  sum : s.reserved = s.streams.total Stream.reserved
  le : 0 < cfg.bodyBudget → s.reserved ≤ cfg.bodyBudget

namespace Accounted

/-- An update of a stream that leaves its share. -/
theorem assign {s' : Session} (h : Accounted cfg s) (hst : s.streams.find sid = some st)
    (streams : s'.streams = s.streams.set sid st') (reserved : s'.reserved = s.reserved)
    (same : st'.reserved = st.reserved) : Accounted cfg s' where
  sum := by
    rw [reserved, streams, Table.total_set hst, same, ← h.sum]
    omega
  le := by
    rw [reserved]
    exact h.le

/-- Only the streams and `reserved_` matter. -/
theorem congr {s' : Session} (h : Accounted cfg s) (streams : s'.streams = s.streams)
    (reserved : s'.reserved = s.reserved) : Accounted cfg s' :=
  ⟨by rw [reserved, streams, h.sum], by rw [reserved]; exact h.le⟩

theorem rejectStream {status : Nat} {extra : List Header} (h : Accounted cfg s)
    (hst : s.streams.find sid = some st) (same : st'.reserved = st.reserved) :
    Accounted cfg (s.rejectStream sid st' status extra) :=
  h.assign hst rfl rfl same

theorem onEndStream {now : Int} {admitted : Bool} (h : Accounted cfg s) :
    Accounted cfg (s.onEndStream cfg sid now admitted) := by
  cases hst : s.streams.find sid with
  | none =>
      rw [Session.onEndStream, hst]
      exact h
  | some st =>
      rcases Session.onEndStream_cases hst with
        ⟨-, h1⟩ | ⟨-, _, _, h1⟩ | ⟨-, h1⟩
      · rw [h1]
        exact h
      · rw [h1]
        exact h.rejectStream hst rfl
      · rw [h1]
        exact h.assign hst rfl rfl rfl

/-- Nothing is reserved before the HEADERS frame, so the share is added once. -/
theorem onRequestHeaders {endStream : Bool} {now : Int} (h : Accounted cfg s)
    (hst : s.streams.find sid = some st) (nothing : st.reserved = 0) :
    Accounted cfg (s.onRequestHeaders cfg sid endStream now) := by
  simp only [Session.onRequestHeaders, hst]
  have routed : (Session.route cfg st now).reserved = st.reserved := (route_same st now).2.2.2.1
  obtain ⟨st1, h1, share, accounted⟩ : ∃ st1,
      (s.refuseDeclared sid (Session.route cfg st now)).streams.find sid = some st1 ∧
      st1.reserved = 0 ∧ Accounted cfg (s.refuseDeclared sid (Session.route cfg st now)) := by
    rcases Session.refuseDeclared_cases s _ _ with
      ⟨-, h1⟩ | h1
    · rw [h1]
      exact ⟨_, Table.find_set.trans (if_pos rfl), routed.trans nothing, h.rejectStream hst routed⟩
    · rw [h1]
      exact ⟨_, Table.find_set.trans (if_pos rfl), routed.trans nothing,
        h.assign hst rfl rfl routed⟩
  rcases Session.reserve_cases h1 with
    ⟨-, h2⟩ | ⟨-, _, _, h2⟩ | ⟨-, -, -, room, h2⟩
  · rw [h2]
    exact accounted
  · rw [h2]
    exact accounted.rejectStream h1 rfl
  · rw [h2]
    refine ⟨?_, fun _ => room⟩
    have moved := Table.total_set (f := Stream.reserved)
      (v := { st1 with reserved := Session.want cfg st1 endStream }) h1
    rw [Session.put, moved, ← accounted.sum, share]
    dsimp only
    omega

/-- A stream that closes gives its share back. -/
theorem onStreamClose (h : Accounted cfg s) (hst : s.streams.find sid = some st)
    (nonneg : 0 ≤ st.reserved) : Accounted cfg (s.onStreamClose sid) := by
  simp only [Session.onStreamClose, hst]
  refine ⟨?_, fun budget => ?_⟩
  · dsimp only
    rw [Table.total_erase hst, ← h.sum]
  · have := h.le budget
    dsimp only
    omega

end Accounted

theorem accounted_step (tied : Tied cfg w) (below : Below w) (h : Accounted cfg w.session)
    (hs : step cfg w ev = some w') : Accounted cfg w'.session := by
  obtain ⟨wire, hw, rfl⟩ := step_cases hs
  cases ev with
  | beginHeaders sid cat now =>
      cases cat with
      | request =>
          have fresh := fresh_stream tied below hw
          refine ⟨?_, h.le⟩
          simp only [Session.handle, Session.onBeginHeaders, ne_eq, not_true_eq_false, if_false,
            Session.put, Table.total_insert fresh, h.sum, add_zero]
      | headers => exact h
  | header sid cat name value =>
      cases cat with
      | headers => exact h
      | request =>
          obtain ⟨a, -, ha, -⟩ := update_cases hw
          obtain ⟨st, hst, -⟩ := tied.right ha
          rw [Session.handle]
          rcases Session.onHeader_cases hst with
            ⟨-, h1⟩ | ⟨-, h1⟩ | ⟨-, h1⟩
          · rw [h1]
            exact h
          · rw [h1]
            exact h.rejectStream hst rfl
          · rw [h1]
            exact h.assign hst rfl rfl (addHeader_same _ name value).2.2.1
  | dataChunk sid data now =>
      obtain ⟨a, -, ha, -⟩ := update_cases hw
      obtain ⟨st, hst, -⟩ := tied.right ha
      rw [Session.handle]
      rcases Session.onDataChunk_cases hst with
        ⟨-, h1⟩ | ⟨-, h1⟩ | ⟨-, -, h1⟩
      · rw [h1]
        exact h
      · rw [h1]
        exact h.rejectStream hst rfl
      · rw [h1]
        exact h.assign hst rfl rfl rfl
  | frame f now admitted =>
      have first : Accounted cfg
          (if f.type = .headers .request then
            w.session.onRequestHeaders cfg f.streamId f.endStream now
          else w.session) := by
        split
        · rename_i hr
          simp only [Wire.deliver, hr, reduceCtorEq, if_false] at hw
          obtain ⟨a, a', ha, ha', -⟩ := update_cases hw
          obtain ⟨st, hst, follows, -⟩ := tied.right ha
          simp only [Wire.onStream, hr, Option.ite_none_left_eq_some, Bool.not_eq_true] at ha'
          exact h.onRequestHeaders hst (follows.unrouted ha'.1).2.1
        · exact h
      rw [Session.handle, Session.onFrameRecv]
      dsimp only
      split
      · exact first.onEndStream
      · exact first
  | streamClose sid =>
      simp only [Wire.deliver, Option.ite_none_right_eq_some] at hw
      obtain ⟨a, ha⟩ := Option.isSome_iff_exists.mp hw.1
      obtain ⟨st, hst, follows, -⟩ := tied.right ha
      exact h.onStreamClose hst follows.nonneg
  | respond id status headers body =>
      rw [Session.handle]
      rcases Session.respond_cases (s := w.session)
        with h1 | ⟨sid, st, -, hst, h1⟩
      · rw [h1]
        exact h
      · rw [h1]
        exact h.assign hst rfl rfl rfl
  | sweep now stall =>
      refine Session.sweep_rule (I := Accounted cfg) ?_ h
      intro s' e _ here accounted
      rcases Session.sweepStream_cases (s := s') e with
        h1 | ⟨-, -, -, -, h1⟩ | ⟨-, -, h1⟩
      · rw [h1]
        exact accounted
      · rw [h1]
        let s₁ : Session := { s' with
          expired := s'.expired ++ [e.2.requestId]
          reqToStream := s'.reqToStream.erase e.2.requestId }
        have accounted₁ : Accounted cfg s₁ := accounted.congr rfl rfl
        exact accounted₁.rejectStream here rfl
      · rw [h1]
        exact accounted.rejectStream here rfl
  | goAway =>
      simp only [Session.handle, Session.goAway]
      split
      · exact h
      · exact h.congr rfl rfl
  | stop => exact h.congr rfl rfl
  | idsTaken n => exact h.congr rfl rfl

theorem reachable_accounted (run : Reachable cfg w) : Accounted cfg w.session := by
  have init : Tied cfg {} ∧ Below {} ∧ Accounted cfg {} :=
    ⟨Table.Rel.empty, fun _ _ => rfl, rfl, fun budget => budget.le⟩
  refine (Reaches.invariant
    (I := fun w => Tied cfg w ∧ Below w ∧ Accounted cfg w.session) init ?_ run).2.2
  rintro w ev w' ⟨tied, below, accounted⟩ - hs
  exact ⟨tied_step tied hs, below_step below hs, accounted_step tied below accounted hs⟩

theorem reserved_nonneg (run : Reachable cfg w) : 0 ≤ w.session.reserved := by
  rw [(reachable_accounted run).sum]
  refine Table.total_nonneg fun sid st hst => ?_
  obtain ⟨a, -, follows, -⟩ := (reachable_tied run).left hst
  exact follows.nonneg

/-- A session with a budget of 100 bytes and no routes. -/
def sampleSetup : Setup where
  router := ⟨fun _ _ _ => none, fun _ => []⟩
  bodyBudget := 100

/-- An upload that declares 60 bytes and has sent 5. -/
def sampleUpload : List Event :=
  [.beginHeaders 1 .request 0, .header 1 .request (ascii ":path") (ascii "/up"),
    .header 1 .request (ascii "content-length") (ascii "60"),
    .frame ⟨.headers .request, 1, false⟩ 0 true, .dataChunk 1 (ascii "hello") 1]

/-- With a budget below 2^62 no sum of the budget check leaves `int64_t`. -/
theorem reserve_in_range {endStream : Bool} (budget : 0 < cfg.bodyBudget)
    (small : cfg.bodyBudget < 2 ^ 62) (run : Reachable cfg w)
    (fits : Session.want cfg st endStream ≤ cfg.bodyBudget) :
    cfg.bodyBudget + 1 < 2 ^ 63 ∧ 0 ≤ w.session.reserved + Session.want cfg st endStream ∧
      w.session.reserved + Session.want cfg st endStream < 2 ^ 63 := by
  have nonneg := reserved_nonneg run
  have le := (reachable_accounted run).le budget
  have wanted := want_nonneg budget st endStream
  omega

end NitroServer.H2
