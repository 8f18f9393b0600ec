/-
What happens to a session besides its reads.

Completions, queued frames, the timer, answers to other connections' requests: each of
these leaves the session as its decoder sees it (`Reactor.session`) alone, or shuts it.

* `session_step` — one step; a session that is shut by a step not at fault in itself
  (`steady`) has passed the cap of its outbound buffer.
* `readCb_session` — a read hands the bytes to `wsProcess`.
* `wsOpen_upgraded` — the handshake leaves a session that has gathered nothing.
-/

import NitroServer.Ws.Decoder
import NitroServer.Lane.Refine

namespace NitroServer.Engine

open NitroServer.Lib Ws

variable {env : Env}

namespace Reactor

variable {quiet : Bool} {r r' r'' : Reactor}

/-! ### Steps that keep the session -/

/-- The session is as before. -/
structure Kept (quiet : Bool) (r r' : Reactor) : Prop where
  ok : r'.InSession quiet
  same : r'.session = r.session

theorem Kept.trans (h : Kept quiet r r') (h' : Kept quiet r' r'') : Kept quiet r r'' :=
  ⟨h'.ok, h'.same.trans h.same⟩

theorem kept_eraseReq (h : r.InSession quiet) (id : Nat) : Kept quiet r (r.eraseReq id) := by
  refine ⟨⟨h.ws, h.streaming, h.file, fun e he => h.reqs e (List.mem_of_mem_filter he), h.queue,
    h.writes⟩, ?_⟩
  simp [session, eraseReq, shut, gathered, Ev.isWsMessage, Ev.pongs]

/-- An entry joins the inbox. -/
theorem kept_pushWrite (h : r.InSession quiet) {e : Pending}
    (own : e.connId = r.conn.id → e.file = none ∧ e.piece.isPong = false ∧
      (e.finish = true → e.keepAlive = false ∧ quiet = false)) :
    Kept quiet r (r.pushWrite e) := by
  refine ⟨⟨h.ws, h.streaming, h.file, h.reqs, fun e' he' => ?_, h.writes⟩, ?_⟩
  · rcases List.mem_append.mp he' with he' | he'
    · exact h.queue e' he'
    · rw [List.mem_singleton.mp he']
      exact own
  · simp [session, pushWrite, shut, gathered, Ev.isWsMessage, Ev.pongs]

/-- No request of the table is the session's. -/
theorem InSession.findReq (h : r.InSession quiet) {id : Nat} {loc : ReqLoc}
    (found : r.findReq id = some loc) : loc.connId ≠ r.conn.id := by
  obtain ⟨e, he, rfl⟩ := Option.map_eq_some_iff.mp found
  exact h.reqs e (List.mem_of_find?_eq_some he)

theorem kept_respondWith (h : r.InSession quiet) (id status : Nat) (headers : List Header)
    (body : Bytes) (len : Nat) : Kept quiet r (r.respondWith env id status headers body len) := by
  unfold respondWith
  split
  · exact ⟨h, rfl⟩
  · split
    · exact ⟨h, rfl⟩
    · rename_i loc found
      have erased := kept_eraseReq h id
      exact erased.trans (kept_pushWrite erased.ok fun own => absurd own (h.findReq found))

theorem kept_respondFile (h : r.InSession quiet) (id status : Nat) (headers : List Header)
    (size : Option Nat) (offset length : Int) :
    Kept quiet r (r.respondFile env id status headers size offset length) := by
  unfold respondFile
  split
  · exact ⟨h, rfl⟩
  · split
    · exact kept_respondWith h ..
    · dsimp only
      split
      · exact kept_respondWith h ..
      · split
        · exact ⟨h, rfl⟩
        · rename_i loc found
          split
          · exact kept_respondWith h ..
          · have erased := kept_eraseReq h id
            exact erased.trans (kept_pushWrite erased.ok fun own => absurd own (h.findReq found))

theorem kept_startStream (h : r.InSession quiet) (id status : Nat) (headers : List Header) :
    Kept quiet r (r.startStream env id status headers) := by
  unfold startStream
  split
  · exact ⟨h, rfl⟩
  · split
    · exact ⟨h, rfl⟩
    · rename_i loc found
      dsimp only
      split
      · have pushed := kept_pushWrite h (e := ⟨loc.connId, ⟨.request id, .whole,
          uvBuildStreamHead (r.date env) status headers loc.keepAlive
            env.cfg.keepAliveHeaderSecs⟩, loc.keepAlive, true, none⟩)
          fun own => absurd own (h.findReq found)
        exact pushed.trans (kept_eraseReq pushed.ok id)
      · exact kept_pushWrite h fun own => absurd own (h.findReq found)

theorem kept_sendStreamChunk (h : r.InSession quiet) (id : Nat) (bytes : Bytes) (last : Bool) :
    Kept quiet r (r.sendStreamChunk id bytes last) := by
  unfold sendStreamChunk
  split
  · exact ⟨h, rfl⟩
  · split
    · exact ⟨h, rfl⟩
    · split
      · exact ⟨h, rfl⟩
      · rename_i loc found
        dsimp only
        split
        · have erased := kept_eraseReq h id
          exact erased.trans (kept_pushWrite erased.ok fun own => absurd own (h.findReq found))
        · exact kept_pushWrite h fun own => absurd own (h.findReq found)

/-- The handler's frames are no pongs. -/
theorem kept_wsSend (h : r.InSession quiet) (payload : Bytes) (binary compressed : Bool) :
    Kept quiet r (r.wsSend payload binary compressed) := by
  unfold wsSend
  split
  · exact ⟨h, rfl⟩
  · refine kept_pushWrite h fun _ => ⟨rfl, ?_, by simp⟩
    have head := encodeFrame_head (if binary then kBinary else kText) payload true
    cases hf : encodeFrame (if binary then kBinary else kText) payload true with
    | nil => cases compressed <;> rfl
    | cons b rest =>
        rw [hf, List.head?_cons, Option.some.injEq] at head
        cases compressed <;> cases binary <;> subst head <;> rfl

theorem kept_wsClose (h : r.InSession false) (code : Nat) : Kept false r (r.wsClose code) := by
  unfold wsClose
  split
  · exact ⟨h, rfl⟩
  · have left : Kept false r { r with wsConnLoop := r.wsConnLoop.filter (· ≠ r.conn.id) } :=
      ⟨⟨h.ws, h.streaming, h.file, h.reqs, h.queue, h.writes⟩, rfl⟩
    refine left.trans (kept_pushWrite left.ok fun _ => ⟨rfl, ?_, fun _ => ⟨rfl, rfl⟩⟩)
    rw [Piece.isPong, encodeFrame_head]
    rfl

theorem kept_tlsRawWrite (h : r.InSession quiet) (cipher : Bytes) :
    Kept quiet r (r.tlsRawWrite cipher) := by
  unfold tlsRawWrite
  split
  · exact ⟨h, rfl⟩
  · refine ⟨⟨h.ws, h.streaming, h.file, h.reqs, h.queue, fun w hw fin => ?_⟩, ?_⟩
    · rcases List.mem_append.mp hw with hw | hw
      · exact h.writes w hw fin
      · simp [List.mem_singleton.mp hw] at fin
    · simp [session, shut, gathered, Ev.isWsMessage, Ev.pongs]

/-! ### Steps that may shut it -/

theorem closeConn_shut (h : r.InSession quiet) :
    r.closeConn.InSession false ∧ r.closeConn.shut = true := by
  unfold closeConn
  split
  · rename_i closing
    exact ⟨h.relax, by simp [shut, closing]⟩
  · exact ⟨⟨h.ws, h.streaming, h.file, h.reqs, h.relax.queue, h.relax.writes⟩, by simp [shut]⟩

/-- What a group may hold when it is the session's. -/
def groupOk (quiet : Bool) (id : Nat) (g : Pending × List Pending) : Prop :=
  g.1.connId = id → ∀ e ∈ g.1 :: g.2, e.file = none ∧ e.piece.isPong = false ∧
    (e.finish = true → e.keepAlive = false ∧ quiet = false)

theorem writeGroup_leads (h : r.InSession quiet) {g : Pending × List Pending}
    (own : groupOk quiet r.conn.id g) : Leads env quiet r (r.writeGroup env g) r.session := by
  unfold writeGroup
  split
  · exact ⟨List.prefix_rfl, .inl ⟨h, rfl⟩⟩
  · rename_i here
    have entries := own (by
      by_contra other
      exact here (.inl other))
    split
    · rename_i f hf
      exact absurd hf (by simp [(entries g.1 List.mem_cons_self).1])
    · have leads : Leads env quiet r (r.writeAnswer env ((g.1 :: g.2).map Pending.piece) _ _) _ :=
        writeAnswer_leads h (entries _ (List.getLast_mem (List.cons_ne_nil _ _))).2.2
      have none : ((g.1 :: g.2).map Pending.piece).filter Piece.isPong = [] := by
        rw [List.filter_eq_nil_iff]
        intro p hp
        obtain ⟨e, he, rfl⟩ := List.mem_map.mp hp
        simp [(entries e he).2.1]
      rw [none, List.map_nil, List.append_nil] at leads
      exact leads

theorem writeAnswer_id (ps : List Piece) (ka fin : Bool) :
    (r.writeAnswer env ps ka fin).conn.id = r.conn.id := by
  unfold writeAnswer
  dsimp only
  split
  · unfold wsCloseConn
    split <;> rfl
  · split
    · exact closeConn_id _
    · rfl

theorem writeGroup_id (g : Pending × List Pending) :
    (r.writeGroup env g).conn.id = r.conn.id := by
  unfold writeGroup
  split
  · rfl
  · split
    · exact writeAnswer_id (r := r.setConn _) ..
    · exact writeAnswer_id ..

theorem groupOk.relax {id : Nat} {g : Pending × List Pending} (h : groupOk quiet id g) :
    groupOk false id g := fun own e he =>
  ⟨(h own e he).1, (h own e he).2.1, fun fin => ⟨((h own e he).2.2 fin).1, rfl⟩⟩

/-- The groups of a batch go out one after another. -/
theorem writeGroups_leads {gs : List (Pending × List Pending)} (h : r.InSession quiet)
    (own : ∀ g ∈ gs, groupOk quiet r.conn.id g) :
    Leads env quiet r (gs.foldl (writeGroup env) r) r.session := by
  induction gs generalizing r quiet with
  | nil => exact ⟨List.prefix_rfl, .inl ⟨h, rfl⟩⟩
  | cons g gs ih =>
      obtain ⟨trace, first⟩ := writeGroup_leads h (own g List.mem_cons_self)
      have own' : ∀ g' ∈ gs, groupOk quiet (r.writeGroup env g).conn.id g' := fun g' hg' => by
        rw [writeGroup_id]
        exact own g' (List.mem_cons_of_mem _ hg')
      rw [List.foldl_cons]
      rcases first with ⟨ok, same⟩ | ⟨ok, shut, beyond⟩
      · have later := ih ok own'
        rw [same] at later
        exact ⟨trace.trans later.trace, later.result.imp id fun ⟨ok, shut, beyond⟩ =>
          ⟨ok, shut, beyond.of_length trace.length_le⟩⟩
      · have later := ih ok fun g' hg' => (own' g' hg').relax
        refine ⟨trace.trans later.trace, .inr ?_⟩
        rcases later.result with ⟨ok', same⟩ | ⟨ok', shut', -⟩
        · exact ⟨ok', (congrArg Session.shut same).trans shut, beyond.of_prefix later.trace⟩
        · exact ⟨ok', shut', beyond.of_prefix later.trace⟩

theorem onAsync_leads (h : r.InSession quiet) : Leads env quiet r (r.onAsync env) r.session := by
  have empty : InSession quiet { r with queue := [] } :=
    ⟨h.ws, h.streaming, h.file, h.reqs, by simp, h.writes⟩
  have own : ∀ g ∈ groups r.queue, groupOk quiet r.conn.id g := by
    intro g hg own e he
    have queued : e ∈ r.queue := by
      rw [← groups_flatten r.queue]
      exact List.mem_flatMap.mpr ⟨g, hg, he⟩
    refine h.queue e queued ?_
    rcases List.mem_cons.mp he with rfl | more
    · exact own
    · exact ((groups_grouped _ g hg).same e more).1.trans own
  have leads : Leads env quiet _ (r.onAsync env) _ := writeGroups_leads empty own
  exact ⟨leads.trace, leads.result⟩

theorem writeDone_kept (h : r.InSession quiet) {w : WriteCtx} {rest : List WriteCtx}
    (writes : r.conn.writes = w :: rest) : Kept quiet r (r.writeDone w rest) :=
  ⟨⟨h.ws, h.streaming, h.file, h.reqs, h.queue, fun w' hw' =>
    h.writes w' (writes ▸ List.mem_cons_of_mem w hw')⟩, rfl⟩

/-- A sweep that finds the session in time: no write is stalled, its age is not over and
it is not idle for too long. -/
def inTime (env : Env) (r : Reactor) : Bool :=
  !(decide (0 < r.conn.writePending) && r.elapsed r.conn.writeStartedAt (writeMs env)) &&
  !(decide (0 < env.cfg.maxConnectionAgeMs) && !r.conn.ageExpired &&
    r.elapsed r.conn.openedAt env.cfg.maxConnectionAgeMs) &&
  !(decide (0 < env.cfg.wsIdleTimeoutMs) && r.elapsed r.conn.lastActive env.cfg.wsIdleTimeoutMs)

/-- The timer keeps the session, or shuts it. -/
theorem onSweep_session (h : r.InSession quiet) :
    Kept quiet r (r.onSweep env) ∨ (r.onSweep env).InSession false ∧
      (r.onSweep env).shut = true ∧ (r.inTime env = false ∨ Over env r (r.onSweep env)) := by
  have closes : ∀ r₁ : Reactor, r₁.InSession quiet → r.inTime env = false →
      r₁.closeConn.InSession false ∧ r₁.closeConn.shut = true ∧
        (r.inTime env = false ∨ Over env r r₁.closeConn) := fun r₁ ok late =>
    ⟨(closeConn_shut ok).1, (closeConn_shut ok).2, .inl late⟩
  unfold onSweep
  split
  · exact .inl ⟨h, rfl⟩
  · split
    · rename_i stalled
      refine .inr (closes _ ⟨h.ws, h.streaming, h.file, h.reqs, h.queue, h.writes⟩ ?_)
      simp [inTime, stalled]
    · rw [if_pos h.ws]
      split
      · rename_i aged
        obtain ⟨ok, shut, -⟩ := wsCloseConn_shut
          (r := r.setConn { r.conn with ageExpired := true })
          ⟨h.ws, h.streaming, h.file, h.reqs, h.queue, h.writes⟩ 1001
        refine .inr ⟨ok, shut, .inl ?_⟩
        simp only [Bool.and_eq_true, decide_eq_true_eq, Bool.not_eq_true'] at aged
        simp [inTime, aged]
      · unfold sweepWs
        split
        · exact .inl ⟨h, rfl⟩
        · rename_i on
          split
          · rename_i idle
            obtain ⟨ok, shut, -⟩ := wsCloseConn_shut
              (r := r.broadcastEvent .clientError r.conn.id "websocket idle timeout")
              ⟨h.ws, h.streaming, h.file, h.reqs, h.queue, h.writes⟩ 1001
            refine .inr ⟨ok, shut, .inl ?_⟩
            simp [inTime, idle, show 0 < env.cfg.wsIdleTimeoutMs by omega]
          · split
            · have leads : Leads env quiet r (r.writeAnswer env
                  [⟨.session, .raw, encodeFrame kPing [] true⟩] true false) _ :=
                writeAnswer_leads h (by simp)
              have none : [(⟨.session, .raw, encodeFrame kPing [] true⟩ : Piece)].filter
                  Piece.isPong = [] := by decide
              rw [none, List.map_nil, List.append_nil] at leads
              rcases leads.result with ⟨ok, same⟩ | ⟨ok, shut, beyond⟩
              · exact .inl ⟨⟨ok.ws, ok.streaming, ok.file, ok.reqs, ok.queue, ok.writes⟩, same⟩
              · exact .inr ⟨⟨ok.ws, ok.streaming, ok.file, ok.reqs, ok.queue, ok.writes⟩, shut,
                  .inr beyond⟩
            · exact .inl ⟨h, rfl⟩

end Reactor

/-! ### Steps -/

/-- Nothing but the bytes on the wire speaks against the session: writes succeed, the
handler does not close, the client does not leave, and the timer finds it in time. -/
def steady (env : Env) (r : Reactor) : Act → Bool
  | .readEnd | .wsClose _ => false
  | .written ok _ => ok
  | .sweep => r.inTime env
  | _ => true

open Reactor in
/-- A step other than a read keeps the session, or shuts it. -/
theorem session_step {quiet : Bool} {r r' : Reactor} {a : Act} (h : r.InSession quiet)
    (hstep : step env r a = some r') (other : ∀ data, a ≠ .read data)
    (fit : quiet = true → steady env r a = true) :
    Kept quiet r r' ∨ r'.InSession false ∧ r'.shut = true ∧ (quiet = true → Over env r r') := by
  cases a with
  | read data => exact absurd rfl (other data)
  | readEnd =>
      simp only [step, Option.ite_none_right_eq_some, Option.some.injEq] at hstep
      obtain ⟨-, rfl⟩ := hstep
      have ended : (r.setConn { r.conn with eof := true }).InSession quiet :=
        ⟨h.ws, h.streaming, h.file, h.reqs, h.queue, h.writes⟩
      unfold readEnd
      dsimp only
      rw [if_neg (by simp [ended.ws])]
      exact .inr ⟨(closeConn_shut ended).1, (closeConn_shut ended).2, fun hq => absurd (fit hq) Bool.false_ne_true⟩
  | written ok got =>
      simp only [step] at hstep
      split at hstep
      · cases hstep
      · rename_i w rest writes
        simp only [Option.ite_none_left_eq_some, Option.some.injEq] at hstep
        obtain ⟨-, rfl⟩ := hstep
        have done := writeDone_kept h writes
        unfold onWrite
        dsimp only
        cases ok with
        | false =>
            exact .inr ⟨(closeConn_shut done.ok).1, (closeConn_shut done.ok).2,
              fun hq => absurd (fit hq) Bool.false_ne_true⟩
        | true =>
            rw [if_neg (by decide)]
            cases fin : w.finish with
            | false =>
                rw [if_pos (by decide), if_neg (by simp [done.ok.file])]
                exact .inl done
            | true =>
                -- a close frame has landed
                obtain ⟨ka, loud⟩ := h.writes w (by simp [writes]) fin
                rw [if_neg (by decide), onFinished, if_pos (.inl (by simp [ka]))]
                have beyond : ((r.writeDone w rest).requestOver).InSession quiet :=
                  ⟨h.ws, h.streaming, h.file, h.reqs, h.queue, done.ok.writes⟩
                exact .inr ⟨(closeConn_shut beyond).1, (closeConn_shut beyond).2,
                  fun hq => absurd (hq.symm.trans loud) (by decide)⟩
  | async =>
      cases hstep
      rcases (onAsync_leads h).result with ⟨ok, same⟩ | ⟨ok, shut, beyond⟩
      · exact .inl ⟨ok, same⟩
      · exact .inr ⟨ok, shut, fun _ => beyond⟩
  | sweep =>
      simp only [step, Option.ite_none_left_eq_some, Option.some.injEq] at hstep
      obtain ⟨-, rfl⟩ := hstep
      refine (onSweep_session h).imp_right ?_
      rintro ⟨ok, shut, cause⟩
      refine ⟨ok, shut, fun hq => cause.resolve_left fun late => ?_⟩
      exact absurd (late.symm.trans (fit hq)) Bool.false_ne_true
  | closed =>
      simp only [step, Option.ite_none_right_eq_some, Option.some.injEq] at hstep
      obtain ⟨-, rfl⟩ := hstep
      unfold onCloseConn
      dsimp only
      rw [if_pos h.ws]
      refine .inl ⟨⟨h.ws, h.streaming, rfl, h.reqs, h.queue, h.writes⟩, ?_⟩
      simp [session, shut, gathered, Ev.isWsMessage, Ev.pongs]
  | respond id status headers body =>
      cases hstep
      exact .inl (kept_respondWith h ..)
  | respondFile id status headers size offset length =>
      cases hstep
      exact .inl (kept_respondFile h ..)
  | startStream id status headers =>
      cases hstep
      exact .inl (kept_startStream h ..)
  | sendStreamChunk id bytes last =>
      cases hstep
      exact .inl (kept_sendStreamChunk h ..)
  | wsSend payload binary compressed =>
      cases hstep
      exact .inl (kept_wsSend h ..)
  | wsClose code =>
      cases hstep
      obtain rfl : quiet = false := by simpa [steady] using fit
      exact .inl (kept_wsClose h code)
  | tick ms | beginDrain | attach emitter | newId =>
      cases hstep
      exact .inl ⟨⟨h.ws, h.streaming, h.file, h.reqs, h.queue, h.writes⟩, rfl⟩
  | tlsFlight cipher =>
      simp only [step, Option.ite_none_right_eq_some, Option.some.injEq] at hstep
      obtain ⟨-, rfl⟩ := hstep
      exact .inl (kept_tlsRawWrite h cipher)
  | otherRequest loc =>
      simp only [step, Option.ite_none_left_eq_some, Option.some.injEq] at hstep
      obtain ⟨other, rfl⟩ := hstep
      refine .inl ⟨⟨h.ws, h.streaming, h.file, fun e he => ?_, h.queue, h.writes⟩, rfl⟩
      rcases List.mem_append.mp he with he | he
      · exact h.reqs e he
      · rw [List.mem_singleton.mp he]
        exact other
  | otherRetire id =>
      simp only [step] at hstep
      split at hstep
      · simp only [Option.ite_none_left_eq_some, Option.some.injEq] at hstep
        obtain ⟨-, rfl⟩ := hstep
        exact .inl (kept_eraseReq h id)
      · cases hstep
  | otherPush entry =>
      simp only [step, Option.ite_none_left_eq_some, Option.some.injEq] at hstep
      obtain ⟨other, rfl⟩ := hstep
      exact .inl (kept_pushWrite h fun own => absurd own other)

/-! ### Reads and the handshake -/

namespace Reactor

variable {quiet : Bool} {r : Reactor}

/-- A read hands the bytes to `wsProcess`. -/
theorem readCb_session (h : r.InSession quiet) (data : Bytes) :
    r.readCb env data = (r.received data).wsProcess env := by
  have ws : (r.received data).conn.ws = true := h.ws
  have streaming : (r.received data).conn.streamingBody = false := h.streaming
  unfold readCb
  dsimp only
  rw [if_neg (by simp [busyBufferFull, ws]), if_neg (by simp [streaming]), if_pos ws]

theorem received_session (h : r.InSession quiet) (data : Bytes) :
    (r.received data).InSession quiet ∧
      (r.received data).session = { r.session with buf := r.conn.buf ++ data } :=
  ⟨⟨h.ws, h.streaming, h.file, h.reqs, h.queue, h.writes⟩, rfl⟩

/-- A session at its start: open, with nothing gathered and nothing of HTTP under way. -/
structure Upgraded (r : Reactor) : Prop where
  session : r.InSession true
  live : r.shut = false
  gathered : r.gathered = none

/-- An HTTP connection between two requests. -/
structure Idle (r : Reactor) : Prop where
  streaming : r.conn.streamingBody = false
  file : r.conn.file = none
  reqs : ∀ e ∈ r.reqLoc, e.2.connId ≠ r.conn.id
  queue : ∀ e ∈ r.queue, e.connId ≠ r.conn.id
  writes : ∀ w ∈ r.conn.writes, w.finish = false
  ws : r.conn.ws = false ∧ r.conn.wsClosing = false ∧ r.conn.wsMsgOpcode = none

/-- A write of an HTTP connection goes out as it is, unless it closes it. -/
theorem writeAnswer_idle (http : r.conn.ws = false) (ps : List Piece) (ka fin : Bool) :
    (r.writeAnswer env ps ka fin).conn.buf = r.conn.buf ∧
      (r.writeAnswer env ps ka fin).emitter = r.emitter ∧
      ((r.writeAnswer env ps ka fin).conn.closing = false →
        r.writeAnswer env ps ka fin = r.startAnswer env ps ka fin) := by
  have ws : (r.startAnswer env ps ka fin).conn.ws = false := http
  unfold writeAnswer
  dsimp only
  rw [if_neg (by simp [ws])]
  split
  · unfold closeConn
    split
    · rename_i closing
      exact ⟨rfl, rfl, fun h => absurd (closing.symm.trans h) (by decide)⟩
    · exact ⟨rfl, rfl, fun h => by cases h⟩
  · exact ⟨rfl, rfl, fun _ => rfl⟩

theorem Idle.startAnswer (idle : r.Idle) (ps : List Piece) (ka : Bool) :
    (r.startAnswer env ps ka false).Idle := by
  refine ⟨idle.streaming, idle.file, idle.reqs, idle.queue, fun w hw => ?_, idle.ws⟩
  rcases List.mem_append.mp hw with hw | hw
  · exact idle.writes w hw
  · rw [List.mem_singleton.mp hw]

/-- An idle connection becomes a session. -/
theorem Idle.enter (idle : r.Idle) (live : r.conn.closing = false) (sink : Option Nat)
    (evs : Nat → List Ev) : (r.wsEnter.emitTo sink evs).Upgraded where
  session := ⟨rfl, idle.streaming, idle.file, idle.reqs,
    fun e he own => absurd own (idle.queue e he),
    fun w hw fin => absurd fin (by simp [idle.writes w hw])⟩
  live := by
    change (r.conn.closing || r.conn.wsClosing) = false
    rw [live, idle.ws.2.1, Bool.or_false]
  gathered := by
    change r.conn.wsMsgOpcode.map _ = none
    rw [idle.ws.2.2, Option.map_none]

/-- The handshake starts a session on the bytes behind it. The connection can only have
been closed by the write of its 101. -/
theorem wsOpen_upgraded (idle : r.Idle) (head : ParsedHead) (route : RouteEntry)
    (params : List RouteParam) (path query key : Bytes) (protocol : Option Bytes) :
    ∃ r₀ : Reactor, r.wsOpen env head route params path query key protocol = r₀.wsProcess env ∧
      r₀.conn.buf = r.conn.buf ∧ r₀.conn.wsEmitter = r.emitter ∧
      (r₀.conn.closing = false → r₀.Upgraded) := by
  let agreed : Bool := env.cfg.wsCompression &&
    (uvFindHeader head.headers "sec-websocket-extensions").any
      fun e => (findSub (ascii "permessage-deflate") e.value).isSome
  let r₁ := (r.setConn { r.conn with deflate := agreed }).log [.upgrade]
  let shake : List Piece := [⟨.session, .whole, wsShake key agreed protocol⟩]
  have idle₁ : r₁.Idle :=
    ⟨idle.streaming, idle.file, idle.reqs, idle.queue, idle.writes, idle.ws⟩
  obtain ⟨buf, emitter, live⟩ := writeAnswer_idle idle₁.ws.1 shake true false
  refine ⟨_, rfl, buf, emitter, fun closing => ?_⟩
  refine Idle.enter (r := r₁.writeAnswer env shake true false) ?_ closing _ _
  rw [live closing]
  exact idle₁.startAnswer shake true

end Reactor

/-- A session of the sample server; its 101 has landed. -/
def sampleSession : Reactor :=
  { sampleConn with
    conn := { sampleConn.conn with busy := true, ws := true, wsEmitter := some 0 }
    wsConnLoop := [0] }

theorem sampleSession_upgraded : sampleSession.Upgraded where
  session := ⟨by decide +kernel, by decide +kernel, by decide +kernel, by decide +kernel,
    by decide +kernel, by decide +kernel⟩
  live := by decide +kernel
  gathered := by decide +kernel

end NitroServer.Engine
