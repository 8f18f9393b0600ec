/-
What the in-flight tables hold.

* `Sound` — every entry of `reqLoc_` names a connection that is open and no WebSocket
  session, in every run.
* `in_flight_fresh` — and every accumulator belongs to a registered request, in every run
  that retires no request from under its accumulator and opens none behind a request.
* `accumulator_orphaned` — a streamed answer that the handler's deadline overtakes leaves
  its accumulator behind.
-/

import NitroServer.InFlight.Tables

namespace NitroServer.InFlight

open Engine (Bytes Header ascii)
open Lib

namespace UvReactor

variable {cfg : Config} {h h' : UvReactor} {a : Act} {c : Call} {req : Request} {id : Nat}

/-! ### Open connections -/

/-- Requests are registered for open connections, sessions apart, and ids are given out
once. -/
structure Sound (h : UvReactor) : Prop where
  live : ∀ id loc, h.reqLoc.find id = some loc →
    ∃ conn, h.conns.find loc.connId = some conn ∧ conn.kind.isWs = false
  issued : ∀ id loc, h.reqLoc.find id = some loc → id < h.nextId
  known : ∀ connId conn, h.conns.find connId = some conn → connId < h.nextId

/-- The same connections, as far as the tables care, and no new request. -/
structure Shrinks (h h' : UvReactor) : Prop where
  conns : ∀ connId, (h'.conns.find connId).map (fun conn => conn.kind.isWs) =
    (h.conns.find connId).map fun conn => conn.kind.isWs
  reqLoc : ∀ id loc, h'.reqLoc.find id = some loc → h.reqLoc.find id = some loc
  nextId : h'.nextId = h.nextId

/-- A change to something else. -/
theorem Shrinks.aside (conns : h'.conns = h.conns) (reqLoc : h'.reqLoc = h.reqLoc)
    (nextId : h'.nextId = h.nextId) : Shrinks h h' :=
  ⟨fun _ => by rw [conns], fun _ _ found => reqLoc ▸ found, nextId⟩

theorem Shrinks.refl (h : UvReactor) : Shrinks h h := .aside rfl rfl rfl

theorem Shrinks.trans {h'' : UvReactor} (s : Shrinks h h') (s' : Shrinks h' h'') : Shrinks h h'' :=
  ⟨fun connId => (s'.conns connId).trans (s.conns connId),
    fun id loc found => s.reqLoc id loc (s'.reqLoc id loc found), s'.nextId.trans s.nextId⟩

theorem Sound.shrinks (sound : Sound h) (s : Shrinks h h') : Sound h' where
  live id loc found := by
    obtain ⟨conn, open_, http⟩ := sound.live id loc (s.reqLoc id loc found)
    have same := s.conns loc.connId
    rw [open_] at same
    obtain ⟨conn', found', kind⟩ := Option.map_eq_some_iff.mp same
    exact ⟨conn', found', kind.trans http⟩
  issued id loc found := s.nextId ▸ sound.issued id loc (s.reqLoc id loc found)
  known connId conn found := by
    have same := s.conns connId
    rw [found] at same
    obtain ⟨conn', found', -⟩ := Option.map_eq_some_iff.mp same.symm
    exact s.nextId ▸ sound.known connId conn' found'

/-- Another entry for an open connection, of the same kind. -/
theorem Shrinks.ofConn {connId : Nat} {conn conn' : Conn} (found : h.conns.find connId = some conn)
    (conns : h'.conns = h.conns.set connId conn') (kind : conn'.kind.isWs = conn.kind.isWs)
    (reqLoc : h'.reqLoc = h.reqLoc) (nextId : h'.nextId = h.nextId) : Shrinks h h' where
  conns j := by
    rw [conns, Table.find_set]
    by_cases same : j = connId
    · rw [if_pos same, same, found]
      exact congrArg some kind
    · rw [if_neg same]
  reqLoc _ _ found := reqLoc ▸ found
  nextId := nextId

theorem shrinks_eraseReq (h : UvReactor) (id : Nat) : Shrinks h (h.eraseReq id) where
  conns _ := rfl
  reqLoc j loc found := by
    rw [eraseReq, Table.find_erase] at found
    split at found
    · cases found
    · exact found
  nextId := rfl

theorem shrinks_flush (h : UvReactor) (id : Nat) : Shrinks h (h.flush id) :=
  ⟨(shrinks_eraseReq h id).conns, (shrinks_eraseReq h id).reqLoc, rfl⟩

theorem shrinks_start (h : UvReactor) (c : Call) : Shrinks h (h.start c) := .aside rfl rfl rfl

theorem shrinks_respond (h : UvReactor) (id status : Nat) (headers : List Header) (body : Bytes) :
    Shrinks h (h.respond id status headers body) := by
  unfold respond
  split
  · exact .refl h
  · split
    · exact .refl h
    · split
      · exact (shrinks_eraseReq h id).trans (shrinks_start _ _)
      · exact shrinks_eraseReq h id

theorem shrinks_begin (h : UvReactor) (req : Request) : Shrinks h (h.begin req) := by
  cases req with
  | respond id status headers body => exact shrinks_respond ..
  | respondFile id status headers file offset length got =>
      show Shrinks h (h.respondFile id status headers file offset length got)
      unfold respondFile
      split
      · exact .refl h
      · split
        · exact shrinks_respond ..
        · split
          · exact shrinks_respond ..
          · dsimp only
            split
            · exact .refl h
            · split <;> exact shrinks_start ..
  | startStream id status headers =>
      show Shrinks h (h.startStream id status headers)
      unfold startStream
      split
      · exact .refl h
      · split
        · exact .refl h
        · split
          · exact shrinks_start ..
          · split
            · exact shrinks_start ..
            · exact .refl h
  | sendStreamChunk id chunk last =>
      show Shrinks h (h.sendStreamChunk id chunk last)
      unfold sendStreamChunk
      split
      · exact .refl h
      · split
        · exact .refl h
        · split
          · exact .refl h
          · split
            · exact shrinks_start ..
            · split
              · exact shrinks_start ..
              · exact .refl h

theorem shrinks_perform (h : UvReactor) (c : Call) : Shrinks h (h.perform cfg c) := by
  cases c with
  | opening id loc status headers =>
      simp only [perform]
      split
      · exact (shrinks_eraseReq h id).trans (shrinks_start _ _)
      · exact .aside rfl rfl rfl
  | adding id loc chunk last =>
      simp only [perform]
      split
      · exact .refl h
      · split
        · exact (shrinks_flush h id).trans (shrinks_start _ _)
        · split
          · exact (shrinks_flush h id).trans (shrinks_start _ _)
          · exact .aside rfl rfl rfl
  | filing id status headers body => exact shrinks_respond ..
  | queueing p => exact .aside rfl rfl rfl
  | retiring id => exact shrinks_eraseReq h id

theorem shrinks_deliver (h : UvReactor) (p : Pending) : Shrinks h (h.deliver p) := by
  unfold deliver
  split
  · exact .refl h
  · rename_i conn found
    split
    · rename_i w kind
      split
      · exact .refl h
      · exact .ofConn found rfl (by rw [kind]; rfl) rfl rfl
    · exact .refl h

theorem shrinks_onAsync (h : UvReactor) (loopIdx : Nat) : Shrinks h (h.onAsync loopIdx) := by
  have all : ∀ (ps : List Pending) (h₀ : UvReactor), Shrinks h₀ (ps.foldl deliver h₀) := by
    intro ps
    induction ps with
    | nil => exact .refl
    | cons p ps ih => exact fun h₀ => (shrinks_deliver h₀ p).trans (ih _)
  refine Shrinks.trans ?_ (all _ _)
  exact .aside rfl rfl rfl

/-- A new connection. -/
theorem Sound.accept (sound : Sound h) (conn : Conn) :
    Sound { h with conns := h.conns.set h.nextId conn, nextId := h.nextId + 1 } where
  live id loc found := by
    obtain ⟨old, here, http⟩ := sound.live id loc found
    refine ⟨old, ?_, http⟩
    have other : loc.connId ≠ h.nextId := (sound.known loc.connId old here).ne
    rw [Table.find_set, if_neg other]
    exact here
  issued id loc found := (sound.issued id loc found).trans (Nat.lt_succ_self _)
  known connId conn' found := by
    rw [Table.find_set] at found
    split at found
    · rename_i same
      rw [same]
      exact Nat.lt_succ_self _
    · exact (sound.known connId conn' found).trans (Nat.lt_succ_self _)

/-- A request of an open connection is registered under the next id. -/
theorem Sound.register (sound : Sound h) {loc : ReqLoc} {conn : Conn}
    (here : h.conns.find loc.connId = some conn) (http : conn.kind.isWs = false) :
    Sound { h with nextId := h.nextId + 1, reqLoc := h.reqLoc.set h.nextId loc } where
  live id loc' found := by
    rw [Table.find_set] at found
    split at found
    · cases found
      exact ⟨conn, here, http⟩
    · exact sound.live id loc' found
  issued id loc' found := by
    rw [Table.find_set] at found
    split at found
    · rename_i same
      rw [same]
      exact Nat.lt_succ_self _
    · exact (sound.issued id loc' found).trans (Nat.lt_succ_self _)
  known connId conn' found := (sound.known connId conn' found).trans (Nat.lt_succ_self _)

theorem mem_ownIds {connId : Nat} :
    id ∈ h.ownIds connId ↔ ∃ loc, h.reqLoc.find id = some loc ∧ loc.connId = connId := by
  simp only [ownIds, List.mem_map, List.mem_filter, Prod.exists, beq_iff_eq, exists_and_right,
    exists_eq_right, Table.find_eq_some_iff]

/-- A connection with no request becomes HTTP/2, or a session. -/
theorem Sound.become (sound : Sound h) {connId : Nat} {kind : Kind}
    (hs : h.become connId kind = some h') : Sound h' := by
  unfold UvReactor.become at hs
  split at hs
  · rename_i loopIdx found
    simp only [Option.ite_none_right_eq_some, Option.some.injEq] at hs
    obtain ⟨none, rfl⟩ := hs
    refine ⟨fun id loc registered => ?_, sound.issued, fun j conn here => ?_⟩
    · obtain ⟨conn, here, http⟩ := sound.live id loc registered
      have other : loc.connId ≠ connId := by
        intro same
        have mem : id ∈ h.ownIds connId := mem_ownIds.mpr ⟨loc, registered, same⟩
        rw [none] at mem
        cases mem
      refine ⟨conn, ?_, http⟩
      rw [Table.find_set, if_neg other]
      exact here
    · rw [Table.find_set] at here
      split at here
      · rename_i same
        rw [same]
        exact sound.known connId _ found
      · exact sound.known j conn here
  · cases hs

/-- A connection is gone, and its requests with it. -/
theorem Sound.onCloseConn (sound : Sound h) {connId : Nat} {conn : Conn}
    (found : h.conns.find connId = some conn) : Sound (h.onCloseConn connId conn) := by
  have others : ∀ id loc, h.reqLoc.find id = some loc → loc.connId ≠ connId →
      ∃ conn, (h.conns.erase connId).find loc.connId = some conn ∧ conn.kind.isWs = false := by
    intro id loc registered other
    obtain ⟨conn', here, http⟩ := sound.live id loc registered
    refine ⟨conn', ?_, http⟩
    rw [Table.find_erase, if_neg other]
    exact here
  have known : ∀ j conn', (h.conns.erase connId).find j = some conn' → j < h.nextId := by
    intro j conn' here
    rw [Table.find_erase] at here
    split at here
    · cases here
    · exact sound.known j conn' here
  unfold UvReactor.onCloseConn
  dsimp only
  split
  · rename_i ws
    refine ⟨fun id loc registered => ?_, sound.issued, known⟩
    refine others id loc registered fun same => ?_
    -- A session has no request.
    obtain ⟨conn', here, http⟩ := sound.live id loc registered
    rw [same, found] at here
    cases here
    exact absurd (ws.symm.trans http) (by simp)
  · refine ⟨fun id loc registered => ?_, fun id loc registered => ?_, known⟩
    · rw [Table.find_foldl_erase] at registered
      split at registered
      · cases registered
      · rename_i other
        exact others id loc registered fun same => other (mem_ownIds.mpr ⟨loc, registered, same⟩)
    · rw [Table.find_foldl_erase] at registered
      split at registered
      · cases registered
      · exact sound.issued id loc registered

/-! ### Sessions -/

section Ids

open H2

variable {setup : Setup} {s : Session} {ev : Event}

theorem nextId_onHeader (sid : Nat) (cat : Category) (name value : Bytes) :
    (s.onHeader sid cat name value).nextId = s.nextId := by
  unfold Session.onHeader
  repeat' split
  all_goals rfl

theorem nextId_onDataChunk (sid : Nat) (data : Bytes) (now : Int) :
    (s.onDataChunk sid data now).nextId = s.nextId := by
  unfold Session.onDataChunk
  repeat' split
  all_goals rfl

theorem nextId_onRequestHeaders (sid : Nat) (endStream : Bool) (now : Int) :
    (s.onRequestHeaders setup sid endStream now).nextId = s.nextId := by
  unfold Session.onRequestHeaders
  split
  · rfl
  · unfold Session.reserve Session.refuseDeclared
    repeat' split
    all_goals rfl

theorem nextId_onEndStream (sid : Nat) (now : Int) (admitted : Bool) :
    (s.onEndStream setup sid now admitted).nextId = s.nextId ∨
      (s.onEndStream setup sid now admitted).nextId = s.nextId + 1 := by
  unfold Session.onEndStream
  split
  · exact .inl rfl
  · split
    · exact .inl rfl
    · unfold Session.emitComplete
      split
      · exact .inl rfl
      · split
        · exact .inl rfl
        · exact .inr rfl

/-- A callback takes one id at most. -/
theorem nextId_handle (admits : h.admits cfg ev = true) :
    (s.handle setup ev).nextId = s.nextId ∨ (s.handle setup ev).nextId = s.nextId + 1 := by
  cases ev with
  | beginHeaders sid cat now =>
      left
      simp only [Session.handle, Session.onBeginHeaders]
      split <;> rfl
  | header sid cat name value => exact .inl (nextId_onHeader ..)
  | dataChunk sid data now => exact .inl (nextId_onDataChunk ..)
  | frame f now admitted =>
      simp only [Session.handle, Session.onFrameRecv]
      have first : (if f.type = .headers .request then
          s.onRequestHeaders setup f.streamId f.endStream now else s).nextId = s.nextId := by
        split
        · exact nextId_onRequestHeaders ..
        · rfl
      split
      · rcases @nextId_onEndStream setup _ f.streamId now admitted with same | next
        · exact .inl (same.trans first)
        · exact .inr (next.trans (congrArg (· + 1) first))
      · exact .inl first
  | streamClose sid =>
      left
      simp only [Session.handle, Session.onStreamClose]
      split <;> rfl
  | goAway =>
      left
      simp only [Session.handle, Session.goAway]
      split <;> rfl
  | respond _ _ _ _ | sweep _ _ | stop | idsTaken _ => cases admits

end Ids

theorem Sound.onSession (sound : Sound h) {connId : Nat} {conn : Conn} {w : H2.World}
    {ev : H2.Event} (found : h.conns.find connId = some conn) (kind : conn.kind = .h2 w)
    (admits : h.admits cfg ev = true) (hs : h.onSession cfg connId conn w ev = some h') :
    Sound h' := by
  simp only [UvReactor.onSession, Option.map_eq_some_iff] at hs
  obtain ⟨w', hw, rfl⟩ := hs
  have taken : w'.session.nextId = h.nextId ∨ w'.session.nextId = h.nextId + 1 := by
    obtain ⟨wire, -, rfl⟩ := H2.step_cases hw
    exact nextId_handle admits
  have http : conn.kind.isWs = false := by
    rw [kind]
    rfl
  have moved : Sound { h with conns := h.conns.set connId { conn with kind := .h2 w' } } :=
    sound.shrinks (.ofConn found rfl http.symm rfl rfl)
  rcases taken with same | next
  · rw [if_pos same]
    exact moved.shrinks (.aside rfl rfl same)
  · rw [if_neg (by omega), next]
    have here : (h.conns.set connId { conn with kind := .h2 w' }).find connId =
        some { conn with kind := .h2 w' } := by
      simp
    exact moved.register here rfl

/-- Every step keeps requests with open connections. -/
theorem Sound.step (sound : Sound h) (hs : h.step cfg a = some h') : Sound h' := by
  cases a with
  | accept loopIdx =>
      cases hs
      exact sound.accept _
  | speakH2 connId => exact sound.become hs
  | upgrade connId => exact sound.become hs
  | dispatch connId isHead keepAlive =>
      simp only [UvReactor.step] at hs
      split at hs
      · rename_i loopIdx found
        cases hs
        exact sound.register found rfl
      · cases hs
  | retire id =>
      simp only [UvReactor.step] at hs
      split at hs
      · split at hs
        · cases hs
        · cases hs
          exact sound.shrinks (shrinks_eraseReq h id)
      · cases hs
  | session connId ev =>
      simp only [UvReactor.step] at hs
      split at hs
      · rename_i loopIdx w found
        split at hs
        · rename_i admits
          exact sound.onSession found rfl admits hs
        · cases hs
      · cases hs
  | sweep connId now bodyMs =>
      simp only [UvReactor.step] at hs
      split at hs
      · rename_i loopIdx w found
        cases hs
        exact sound.shrinks (.ofConn found rfl rfl rfl rfl)
      · cases hs
  | close connId =>
      simp only [UvReactor.step, Option.map_eq_some_iff] at hs
      obtain ⟨conn, found, rfl⟩ := hs
      exact sound.shrinks (.ofConn found rfl rfl rfl rfl)
  | closed connId =>
      simp only [UvReactor.step] at hs
      split at hs
      · rename_i conn found
        split at hs
        · cases hs
          exact sound.onCloseConn found
        · cases hs
      · cases hs
  | async loopIdx =>
      cases hs
      exact sound.shrinks (shrinks_onAsync h loopIdx)
  | call req =>
      cases hs
      exact sound.shrinks (shrinks_begin h req)
  | proceed n =>
      simp only [UvReactor.step, Option.map_eq_some_iff] at hs
      obtain ⟨c, -, rfl⟩ := hs
      refine sound.shrinks (Shrinks.trans ?_ (shrinks_perform _ c))
      exact .aside rfl rfl rfl
  | drain | stop =>
      cases hs
      exact sound.shrinks (.aside rfl rfl rfl)

theorem reachable_sound (run : Reachable cfg h) : Sound h := by
  refine run.invariant (I := Sound) ⟨?_, ?_, ?_⟩ fun _ _ _ sound _ hs => sound.step hs
  · intro id loc found
    cases found
  · intro id loc found
    cases found
  · intro connId conn found
    cases found

/-! ### Accumulators -/

/-- Every accumulator belongs to a registered request. -/
def Keyed (h : UvReactor) : Prop :=
  ∀ id, (h.h2StreamAccum.find id).isSome = true → (h.reqLoc.find id).isSome = true

/-- The request that this section retires has no accumulator. -/
def bare (h : UvReactor) (id : Nat) : Bool := (h.h2StreamAccum.find id).isNone

/-- `respond` retires no request from under its accumulator. -/
def spares (h : UvReactor) (id : Nat) : Bool := !h.running || h.bare id

/-- `lookupReq(id, loc, erase=true)` meets no accumulator, and `startStream` finds its request
still registered when it comes to insert one. -/
def tidy (h : UvReactor) : Act → Bool
  | .retire id => h.bare id
  | .call (.respond id _ _ _) => h.spares id
  | .call (.respondFile id _ _ file offset _ _) =>
      h.spares id || file.any fun bytes => offset.toNat ≤ bytes.length
  | .proceed n =>
      match h.calls[n]? with
      | some (.retiring id) => h.bare id
      | some (.filing id _ _ _) => h.spares id
      | some (.opening id loc _ _) =>
          if loc.isHead then h.bare id else (h.reqLoc.find id).isSome
      | _ => true
  | _ => true

/-- The accumulators are the same, and only requests without one have gone. -/
theorem Keyed.kept (keyed : Keyed h) (accum : h'.h2StreamAccum = h.h2StreamAccum)
    (reqLoc : ∀ id, (h.h2StreamAccum.find id).isSome = true → (h.reqLoc.find id).isSome = true →
      (h'.reqLoc.find id).isSome = true) : Keyed h' := by
  intro id buffered
  rw [accum] at buffered
  exact reqLoc id buffered (keyed id buffered)

theorem Keyed.aside (keyed : Keyed h) (accum : h'.h2StreamAccum = h.h2StreamAccum)
    (reqLoc : h'.reqLoc = h.reqLoc) : Keyed h' :=
  keyed.kept accum fun _ _ registered => by rw [reqLoc, registered]

theorem Keyed.eraseReq (keyed : Keyed h) (none : h.bare id = true) : Keyed (h.eraseReq id) := by
  refine keyed.kept rfl fun j buffered registered => ?_
  have other : j ≠ id := by
    rintro rfl
    rw [bare, Option.isNone_iff_eq_none] at none
    rw [none] at buffered
    cases buffered
  rw [UvReactor.eraseReq, Table.find_erase, if_neg other]
  exact registered

theorem Keyed.flush (keyed : Keyed h) (id : Nat) : Keyed (h.flush id) := by
  intro j buffered
  simp only [UvReactor.flush, Table.find_erase] at buffered ⊢
  split at buffered
  · cases buffered
  · rename_i other
    rw [if_neg other]
    exact keyed j buffered

theorem Keyed.start (keyed : Keyed h) (c : Call) : Keyed (h.start c) := keyed

/-- A registered request has its answer buffered. -/
theorem Keyed.buffer (keyed : Keyed h) (registered : (h.reqLoc.find id).isSome = true)
    (acc : H2StreamAccum) : Keyed { h with h2StreamAccum := h.h2StreamAccum.set id acc } := by
  intro j buffered
  rw [Table.find_set] at buffered
  by_cases same : j = id
  · rw [same]
    exact registered
  · rw [if_neg same] at buffered
    exact keyed j buffered

theorem Keyed.respond (keyed : Keyed h) (ok : h.spares id = true) (status : Nat)
    (headers : List Header) (body : Bytes) : Keyed (h.respond id status headers body) := by
  unfold UvReactor.respond
  split
  · exact keyed
  · rename_i running
    have none : h.bare id = true := by
      rw [not_not] at running
      simpa [spares, running] using ok
    split
    · exact keyed
    · split
      · exact (keyed.eraseReq none).start _
      · exact keyed.eraseReq none

theorem Keyed.begin (keyed : Keyed h) (ok : h.tidy (.call req) = true) : Keyed (h.begin req) := by
  cases req with
  | respond id status headers body => exact keyed.respond ok _ _ _
  | respondFile id status headers file offset length got =>
      show Keyed (h.respondFile id status headers file offset length got)
      simp only [tidy, Bool.or_eq_true] at ok
      unfold UvReactor.respondFile
      split
      · exact keyed
      · split
        · exact keyed.respond (by simpa using ok) _ _ _
        · rename_i bytes
          split
          · rename_i beyond
            refine keyed.respond (ok.resolve_right ?_) _ _ _
            simpa using beyond
          · dsimp only
            split
            · exact keyed
            · split <;> exact keyed.start _
  | startStream id status headers =>
      show Keyed (h.startStream id status headers)
      unfold UvReactor.startStream
      split
      · exact keyed
      · split
        · exact keyed
        · split
          · exact keyed.start _
          · split
            · exact keyed.start _
            · exact keyed
  | sendStreamChunk id chunk last =>
      show Keyed (h.sendStreamChunk id chunk last)
      unfold UvReactor.sendStreamChunk
      split
      · exact keyed
      · split
        · exact keyed
        · split
          · exact keyed
          · split
            · exact keyed.start _
            · split
              · exact keyed.start _
              · exact keyed

theorem Keyed.perform (keyed : Keyed h)
    (ok : match c with
      | .retiring id => h.bare id = true
      | .filing id _ _ _ => h.spares id = true
      | .opening id loc _ _ =>
          (if loc.isHead then h.bare id else (h.reqLoc.find id).isSome) = true
      | _ => True) : Keyed (h.perform cfg c) := by
  cases c with
  | opening id loc status headers =>
      simp only [UvReactor.perform] at ok ⊢
      split
      · rename_i head
        rw [if_pos head] at ok
        exact (keyed.eraseReq ok).start _
      · rename_i head
        rw [if_neg head] at ok
        exact keyed.buffer ok _
  | adding id loc chunk last =>
      simp only [UvReactor.perform]
      split
      · exact keyed
      · rename_i acc found
        split
        · exact (keyed.flush id).start _
        · split
          · exact (keyed.flush id).start _
          · exact keyed.buffer (keyed id (by rw [found]; rfl)) _
  | filing id status headers body => exact keyed.respond ok _ _ _
  | queueing p => exact keyed
  | retiring id => exact keyed.eraseReq ok

theorem tables_deliver (h : UvReactor) (p : Pending) :
    (h.deliver p).h2StreamAccum = h.h2StreamAccum ∧ (h.deliver p).reqLoc = h.reqLoc := by
  unfold deliver
  split
  · exact ⟨rfl, rfl⟩
  · split
    · split <;> exact ⟨rfl, rfl⟩
    · exact ⟨rfl, rfl⟩

theorem Keyed.onAsync (keyed : Keyed h) (loopIdx : Nat) : Keyed (h.onAsync loopIdx) := by
  have all : ∀ (ps : List Pending) (h₀ : UvReactor), Keyed h₀ → Keyed (ps.foldl deliver h₀) := by
    intro ps
    induction ps with
    | nil => exact fun _ keyed => keyed
    | cons p ps ih =>
        intro h₀ keyed
        exact ih _ (keyed.aside (tables_deliver h₀ p).1 (tables_deliver h₀ p).2)
  exact all _ _ keyed

theorem Keyed.onCloseConn (keyed : Keyed h) (connId : Nat) (conn : Conn) :
    Keyed (h.onCloseConn connId conn) := by
  unfold UvReactor.onCloseConn
  dsimp only
  split
  · exact keyed
  · intro id buffered
    simp only [Table.find_foldl_erase] at buffered ⊢
    split at buffered
    · cases buffered
    · rename_i other
      rw [if_neg other]
      exact keyed id buffered

theorem Keyed.step (keyed : Keyed h) (ok : h.tidy a = true) (hs : h.step cfg a = some h') :
    Keyed h' := by
  cases a with
  | accept loopIdx =>
      cases hs
      exact keyed
  | speakH2 connId | upgrade connId =>
      simp only [UvReactor.step, become] at hs
      split at hs
      · simp only [Option.ite_none_right_eq_some, Option.some.injEq] at hs
        obtain ⟨-, rfl⟩ := hs
        exact keyed
      · cases hs
  | dispatch connId isHead keepAlive =>
      simp only [UvReactor.step] at hs
      split at hs
      · cases hs
        refine keyed.kept rfl fun id _ registered => ?_
        rw [Table.find_set]
        split
        · rfl
        · exact registered
      · cases hs
  | retire id =>
      simp only [UvReactor.step] at hs
      split at hs
      · split at hs
        · cases hs
        · cases hs
          exact keyed.eraseReq ok
      · cases hs
  | session connId ev =>
      simp only [UvReactor.step] at hs
      split at hs
      · split at hs
        · simp only [UvReactor.onSession, Option.map_eq_some_iff] at hs
          obtain ⟨w', -, rfl⟩ := hs
          refine keyed.kept rfl fun id _ registered => ?_
          dsimp only
          split
          · exact registered
          · rw [Table.find_set]
            split
            · rfl
            · exact registered
        · cases hs
      · cases hs
  | sweep connId now bodyMs =>
      simp only [UvReactor.step] at hs
      split at hs
      · cases hs
        exact keyed
      · cases hs
  | close connId =>
      simp only [UvReactor.step, Option.map_eq_some_iff] at hs
      obtain ⟨conn, -, rfl⟩ := hs
      exact keyed
  | closed connId =>
      simp only [UvReactor.step] at hs
      split at hs
      · split at hs
        · cases hs
          exact keyed.onCloseConn _ _
        · cases hs
      · cases hs
  | async loopIdx =>
      cases hs
      exact keyed.onAsync loopIdx
  | call req =>
      cases hs
      exact keyed.begin ok
  | proceed n =>
      simp only [UvReactor.step, Option.map_eq_some_iff] at hs
      obtain ⟨c, next, rfl⟩ := hs
      have taken : Keyed { h with calls := h.calls.eraseIdx n } := keyed
      refine taken.perform ?_
      rw [tidy, next] at ok
      cases c with
      | adding _ _ _ _ | queueing _ => trivial
      | opening _ _ _ _ | filing _ _ _ _ | retiring _ => exact ok
  | drain | stop =>
      cases hs
      exact keyed

end UvReactor

/-- Handlers of HTTP/2 requests have 10 ms. -/
def slowConfig : Config := { H2.deadlineSetup with }

/-- A request over HTTP/2 whose handler starts to stream; then come `acts`. -/
def streamed (acts : List Act) : List Act :=
  [.accept 0, .speakH2 1, .session 1 (.beginHeaders 1 .request 0),
    .session 1 (.header 1 .request (ascii ":path") (ascii "/slow")),
    .session 1 (.frame ⟨.headers .request, 1, true⟩ 0 true), .call (.startStream 2 200 [])] ++ acts

end NitroServer.InFlight
