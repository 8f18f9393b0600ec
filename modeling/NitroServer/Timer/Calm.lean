/-
What the steps of a connection do to the fields its header timer reads.

* `calm_step` — a step that brings no bytes and opens no gate closes the connection, answers
  what there is to answer, or leaves these fields alone.
* `parsed_processConn` — the parser stamps the head at the front of the buffer, takes a
  request off, or does not look.
* `received_readCb` — a read joins its bytes to the buffer, and what then becomes of them.
-/

import NitroServer.Chunked.Grammar
import NitroServer.Outlet.Accounts
import NitroServer.Lane.Wakeup

namespace NitroServer.Engine

open NitroServer.Lib

namespace Reactor

variable (env : Env) {r r' r₁ : Reactor}

/-! ### Between requests -/

/-- No request is dispatched, no answer outstanding and no body being read. -/
structure Waits (r : Reactor) : Prop where
  busy : r.conn.busy = false
  closing : r.conn.closing = false
  bodyPending : r.conn.bodyPending = false
  streaming : r.conn.streamingBody = false
  h2 : r.conn.h2 = false
  ws : r.conn.ws = false

/-- The head at the front of this buffer, or the HTTP/2 preface, is not complete. -/
def headIncomplete (r : Reactor) (buf : Bytes) : Bool :=
  (findSub crlf2 buf).isNone ||
    ((r.setConn { r.conn with buf }).looksH2 env && decide (buf.length < h2Preface.length))

/-- The fields the timer reads on a connection between requests, and the buffer. -/
structure HeadView where
  busy : Bool
  closing : Bool
  bodyPending : Bool
  streaming : Bool
  h2 : Bool
  ws : Bool
  tls : Bool
  buf : Bytes
  headPending : Bool
  headStartedAt : Nat
  lastActive : Nat
  served : Nat

def headView (r : Reactor) : HeadView where
  busy := r.conn.busy
  closing := r.conn.closing
  bodyPending := r.conn.bodyPending
  streaming := r.conn.streamingBody
  h2 := r.conn.h2
  ws := r.conn.ws
  tls := r.conn.tls
  buf := r.conn.buf
  headPending := r.conn.headPending
  headStartedAt := r.conn.headStartedAt
  lastActive := r.conn.lastActive
  served := r.conn.served

/-- There is something to answer. -/
def Answerable (r : Reactor) : Prop :=
  r.conn.busy = true ∨ r.conn.bodyPending = true ∨ (findSub crlf2 r.conn.buf).isSome = true

/-- What an answer leaves alone. -/
def stamps (r : Reactor) : Bool × Bool × Bytes × Bool × Nat :=
  (r.conn.closing, r.conn.ws, r.conn.buf, r.conn.headPending, r.conn.headStartedAt)

/-- A step that brings no bytes and opens no gate closes the connection, answers what there
is to answer, or leaves the timer's fields alone. -/
def Calm (r r' : Reactor) : Prop :=
  r'.conn.closing = true ∨
    (r'.conn.busy = true ∧ r'.stamps = r.stamps ∧ r.Answerable) ∨
    r'.headView = r.headView

theorem stamps_of_view (h : r'.headView = r.headView) : r'.stamps = r.stamps := by
  simp only [headView, HeadView.mk.injEq] at h
  obtain ⟨-, closing, -, -, -, ws, -, buf, pending, started, -⟩ := h
  simp only [stamps, closing, ws, buf, pending, started]

theorem Calm.of_conn (h : r'.conn = r.conn) : Calm r r' :=
  .inr (.inr (by simp only [headView, h]))

theorem writeAnswer_stamps (r : Reactor) (ps : List Piece) (ka fin : Bool) :
    (r.writeAnswer env ps ka fin).conn.closing = true ∨
      (r.writeAnswer env ps ka fin).stamps = r.stamps := by
  unfold writeAnswer
  dsimp only
  split
  · unfold wsCloseConn
    split <;> exact .inr rfl
  · split
    · exact .inl (closeConn_closing _)
    · exact .inr rfl

theorem Calm.congr (h : Calm r r₁) (conn : r'.conn = r₁.conn) : Calm r r' := by
  rcases h with shut | ⟨busy, same, why⟩ | same
  · exact .inl (by rw [conn, shut])
  · refine .inr (.inl ⟨by rw [conn, busy], ?_, why⟩)
    rw [← same]
    simp only [stamps, conn]
  · refine .inr (.inr ?_)
    rw [← same]
    simp only [headView, conn]

theorem Calm.told (h : Calm r r₁) (kind : ServerEventKind) (id : Nat) (why : String) :
    Calm r (r₁.broadcastEvent kind id why) :=
  h.congr rfl

theorem Calm.answers (why : r.Answerable) (same : r₁.stamps = r.stamps)
    (ps : List Piece) (ka fin : Bool) : Calm r (r₁.writeAnswer env ps ka fin) := by
  rcases writeAnswer_stamps env r₁ ps ka fin with shut | kept
  · exact .inl shut
  · exact .inr (.inl ⟨writeAnswer_busy env r₁ ps ka fin, kept.trans same, why⟩)

theorem Calm.refuses (why : r.Answerable) (same : r₁.stamps = r.stamps) (origin : Origin)
    (status : Nat) : Calm r (r₁.refuse env origin status) :=
  .answers env why same _ _ _

theorem Calm.wsCloseConn (busy : r.conn.busy = true) (same : r₁.headView = r.headView)
    (code : Nat) : Calm r (r₁.wsCloseConn env code) := by
  have kept : r₁.stamps = r.stamps := stamps_of_view same
  unfold Reactor.wsCloseConn
  split
  · exact .inr (.inr same)
  · exact .inr (.inl ⟨rfl, kept, .inl busy⟩)

/-! ### The timer -/

theorem calm_timeOut (busy : r.conn.busy = true) (same : r₁.headView = r.headView) (id : Nat)
    (kind : ServerEventKind) (why : String) : Calm r (r₁.timeOut env id kind why) := by
  unfold timeOut
  split
  · exact .inr (.inr same)
  · have kept : r₁.stamps = r.stamps := stamps_of_view same
    dsimp only
    refine Calm.told (Calm.refuses env (.inl busy) ?_ _ _) _ _ _
    exact kept

theorem calm_sweepBusy (busy : r.conn.busy = true) (same : r₁.headView = r.headView) :
    Calm r (r₁.sweepBusy env) := by
  unfold sweepBusy
  split
  · exact .inr (.inr same)
  · split
    · exact calm_timeOut env busy same _ _ _
    · split
      · exact calm_timeOut env busy same _ _ _
      · split
        · exact .inl (closeConn_closing _)
        · exact .inr (.inr same)

theorem calm_sweepIdle (same : r₁.headView = r.headView) : Calm r (r₁.sweepIdle env) := by
  unfold sweepIdle
  split
  · rename_i reading
    split
    · have body : r.conn.bodyPending = true := (congrArg HeadView.bodyPending same).symm.trans reading
      have kept : r₁.stamps = r.stamps := stamps_of_view same
      refine Calm.refuses env (.inr (.inl body)) ?_ _ _
      exact kept
    · exact .inr (.inr same)
  · split
    · exact .inl (closeConn_closing _)
    · split
      · exact .inl (closeConn_closing _)
      · split
        · exact .inl (closeConn_closing _)
        · exact .inr (.inr same)

theorem calm_sweepHttp (same : r₁.headView = r.headView) : Calm r (r₁.sweepHttp env) := by
  unfold sweepHttp
  split
  · rename_i busy
    exact calm_sweepBusy env ((congrArg HeadView.busy same).symm.trans busy) same
  · exact calm_sweepIdle env same

theorem ageOut_view (r : Reactor) : r.ageOut.headView = r.headView := by
  unfold ageOut
  dsimp only
  split
  · split <;> rfl
  · rfl

theorem calm_onSweep (hwf : r.WF) : Calm r (r.onSweep env) := by
  unfold onSweep
  split
  · rename_i shut
    exact .inl shut
  · split
    · exact .inl (closeConn_closing _)
    · dsimp only
      split
      · rename_i ws
        have busy : r.conn.busy = true := (hwf.sound.session ws).2
        split
        · have aged : (r.setConn { r.conn with ageExpired := true }).headView = r.headView := rfl
          exact .wsCloseConn env busy aged 1001
        · unfold sweepWs
          split
          · exact .of_conn rfl
          · split
            · exact .wsCloseConn env busy (by rfl) 1001
            · split
              · rcases Calm.answers env (.inl busy) rfl
                  [⟨.session, .raw, Ws.encodeFrame Ws.kPing [] true⟩] true false with
                  shut | ⟨again, kept, why⟩ | same
                · exact .inl shut
                · exact .inr (.inl ⟨again, kept, why⟩)
                · exact .inr (.inr same)
              · exact .of_conn rfl
      · split
        · exact calm_sweepHttp env (ageOut_view r)
        · exact calm_sweepHttp env rfl

/-! ### The other steps -/

theorem calm_readEnd : Calm r (r.readEnd env) := by
  unfold readEnd
  dsimp only
  split
  · rename_i cut
    refine Calm.refuses env (.inr (.inr cut.2.2.2)) ?_ _ _
    rfl
  · exact .inl (closeConn_closing _)

/-- On a connection with something to answer, writing from the inbox is calm. -/
theorem calm_writeGroups (gs : List (Pending × List Pending)) (busy : r.conn.busy = true)
    (same : Calm r r₁) : Calm r (gs.foldl (writeGroup env) r₁) := by
  induction gs generalizing r₁ with
  | nil => exact same
  | cons g gs ih =>
      refine ih ?_
      unfold writeGroup
      split
      · exact same
      · rename_i live
        have kept : r₁.stamps = r.stamps := by
          rcases same with shut | ⟨-, kept, -⟩ | same
          · exact absurd (.inr (.inr shut)) live
          · exact kept
          · exact stamps_of_view same
        split
        · refine Calm.answers env (.inl busy) ?_ _ _ _
          exact kept
        · exact .answers env (.inl busy) kept _ _ _

/-- Nothing of this connection is in the inbox. -/
theorem writeGroups_other (gs : List (Pending × List Pending))
    (other : ∀ g ∈ gs, g.1.connId ≠ r.conn.id) : gs.foldl (writeGroup env) r = r := by
  induction gs with
  | nil => rfl
  | cons g gs ih =>
      have skipped : r.writeGroup env g = r := by
        unfold writeGroup
        rw [if_pos (.inl (other g List.mem_cons_self))]
      rw [List.foldl_cons, skipped]
      exact ih fun g' mem => other g' (List.mem_cons_of_mem _ mem)

theorem calm_onAsync (hwf : r.WF) : Calm r (r.onAsync env) := by
  by_cases busy : r.conn.busy = true
  · exact calm_writeGroups env _ busy (.of_conn rfl)
  · have empty : r.ownQueue = [] := (hwf.sound.of_open (eq_false_of_ne_true busy)).2.1
    have other : ∀ e ∈ r.queue, e.connId ≠ r.conn.id := by
      intro e mem own
      have mine : e ∈ r.ownQueue := List.mem_filter.mpr ⟨mem, by simpa using own⟩
      rw [empty] at mine
      cases mine
    refine .of_conn ?_
    unfold onAsync
    rw [writeGroups_other]
    intro g mem
    refine other g.1 ?_
    rw [← groups_flatten r.queue]
    exact List.mem_flatMap.mpr ⟨g, mem, List.mem_cons_self⟩

theorem calm_onCloseConn (shut : r.conn.closing = true) : Calm r r.onCloseConn := by
  refine .inl ?_
  unfold onCloseConn
  dsimp only
  split <;> exact shut

/-- The next part of a file answer. -/
theorem calm_continueFileSend (hwf : r.WF) (got : Bytes) (same : r₁.conn = { r.conn with
    writePending := r₁.conn.writePending, writes := r₁.conn.writes }) :
    Calm r (r₁.continueFileSend env got) := by
  have view : r₁.headView = r.headView := by
    rw [headView, same]
    rfl
  unfold continueFileSend
  split
  · exact .inr (.inr view)
  · rename_i f file
    have own : r.conn.file = some f := by
      rw [same] at file
      exact file
    have busy : r.conn.busy = true := (hwf.sound.of_file own).2.2.2.1
    split
    · exact .inr (.inr view)
    · dsimp only
      split
      · exact .inl (closeConn_closing _)
      · have kept : r₁.stamps = r.stamps := stamps_of_view view
        refine Calm.answers env (.inl busy) ?_ _ _ _
        exact kept

/-- A completion that leaves the gate shut: it failed, it does not finish an answer, or the
connection closes with it. -/
theorem calm_onWrite (hwf : r.WF) {w : WriteCtx} {rest : List WriteCtx} {ok : Bool} {got : Bytes}
    (shut : ¬ (ok = true ∧ w.finish = true ∧ w.keepAlive = true ∧ r.conn.closing = false)) :
    Calm r (r.onWrite env w rest ok got) := by
  unfold onWrite
  dsimp only
  split
  · exact .inl (closeConn_closing _)
  · rename_i fine
    split
    · split
      · exact calm_continueFileSend env hwf got rfl
      · exact .inr (.inr rfl)
    · rename_i finish
      unfold onFinished
      rw [if_pos]
      · exact .inl (closeConn_closing _)
      · by_contra go
        rw [not_or, not_not, Bool.not_eq_true] at go
        exact shut ⟨by simpa using fine, by simpa using finish, go.1, go.2⟩

/-- A completion that opens the gate for the next request. -/
def reopens (r : Reactor) : Act → Bool
  | .written ok _ =>
      ok && !r.conn.closing && r.conn.writes.head?.any fun w => w.finish && w.keepAlive
  | _ => false

/-- Every step is calm, reads and reopening completions aside. -/
theorem calm_step (hwf : r.WF) {a : Act} (h : step env r a = some r')
    (deaf : ∀ data, a ≠ .read data) (shut : r.reopens a = false) : Calm r r' := by
  cases a with
  | read data => exact absurd rfl (deaf data)
  | readEnd =>
      simp only [step, Option.ite_none_right_eq_some, Option.some.injEq] at h
      obtain ⟨-, rfl⟩ := h
      exact calm_readEnd env
  | written ok got =>
      simp only [step] at h
      split at h
      · cases h
      · rename_i w rest writes
        simp only [Option.ite_none_left_eq_some, Option.some.injEq] at h
        obtain ⟨-, rfl⟩ := h
        refine calm_onWrite env hwf ?_
        rintro ⟨rfl, fin, ka, closing⟩
        simp [reopens, writes, fin, ka, closing] at shut
  | async =>
      cases h
      exact calm_onAsync env hwf
  | sweep =>
      simp only [step, Option.ite_none_left_eq_some, Option.some.injEq] at h
      obtain ⟨-, rfl⟩ := h
      exact calm_onSweep env hwf
  | closed =>
      simp only [step, Option.ite_none_right_eq_some, Option.some.injEq] at h
      obtain ⟨⟨closing, -⟩, rfl⟩ := h
      exact calm_onCloseConn closing
  | respond id status headers body =>
      cases h
      exact .of_conn (respondWith_conn ..)
  | respondFile id status headers size offset length =>
      cases h
      exact .of_conn (respondFile_conn ..)
  | startStream id status headers =>
      cases h
      exact .of_conn (startStream_conn ..)
  | sendStreamChunk id chunk last =>
      cases h
      exact .of_conn (sendStreamChunk_conn ..)
  | wsSend payload binary compressed =>
      cases h
      unfold wsSend
      split <;> exact .of_conn rfl
  | wsClose code =>
      cases h
      unfold wsClose
      split <;> exact .of_conn rfl
  | tick ms | beginDrain | attach emitter | newId =>
      cases h
      exact .of_conn rfl
  | tlsFlight cipher =>
      simp only [step, Option.ite_none_right_eq_some, Option.some.injEq] at h
      obtain ⟨-, rfl⟩ := h
      unfold tlsRawWrite
      split
      · exact .of_conn rfl
      · exact .inr (.inr rfl)
  | otherRequest loc =>
      simp only [step, Option.ite_none_left_eq_some, Option.some.injEq] at h
      obtain ⟨-, rfl⟩ := h
      exact .of_conn rfl
  | otherRetire id =>
      simp only [step] at h
      split at h
      · simp only [Option.ite_none_left_eq_some, Option.some.injEq] at h
        obtain ⟨-, rfl⟩ := h
        exact .of_conn rfl
      · cases h
  | otherPush entry =>
      simp only [step, Option.ite_none_left_eq_some, Option.some.injEq] at h
      obtain ⟨-, rfl⟩ := h
      exact .of_conn rfl

/-! ### The parser -/

/-- The stamp of a pending head is left alone. -/
def SameMark (r r' : Reactor) : Prop :=
  (r'.conn.headPending, r'.conn.headStartedAt) = (r.conn.headPending, r.conn.headStartedAt)

theorem SameMark.trans {r'' : Reactor} (h : SameMark r r') (h' : SameMark r' r'') :
    SameMark r r'' :=
  Eq.trans h' h

theorem mark_writeAnswer (r : Reactor) (ps : List Piece) (ka fin : Bool) :
    SameMark r (r.writeAnswer env ps ka fin) := by
  unfold writeAnswer
  dsimp only
  split
  · unfold wsCloseConn
    split <;> rfl
  · split
    · unfold closeConn
      split <;> rfl
    · rfl

theorem mark_refuse (r : Reactor) (origin : Origin) (status : Nat) :
    SameMark r (r.refuse env origin status) :=
  mark_writeAnswer ..

theorem mark_refuseText (r : Reactor) (status : Nat) (msg : String) (extra : List Header) :
    SameMark r (r.refuseText env status msg extra) :=
  mark_writeAnswer ..

theorem mark_closeConn (r : Reactor) : SameMark r r.closeConn := by
  unfold closeConn
  split <;> rfl

theorem mark_emitDecoded (r : Reactor) (out : Bytes) : SameMark r (r.emitDecoded out) :=
  congrArg (fun c : Conn => (c.headPending, c.headStartedAt)) (emitDecoded_conn r out)

theorem mark_abort (r : Reactor) : SameMark r (r.abortStreamTooLarge env) := by
  refine SameMark.trans ?_ (mark_refuse ..)
  simp [SameMark, emitTo, log, setConn]

theorem mark_emitStream (r : Reactor) : SameMark r (r.emitStream env) := by
  unfold emitStream
  split
  · unfold emitStreamChunked
    cases scanChunks r.conn.streamMaxBody (r.conn.buf.length + 1) r.chunkScan with
    | mk stop s =>
        cases stop with
        | tooLarge => exact mark_abort env _
        | malformed => exact mark_closeConn _
        | more => exact mark_emitDecoded _ _
        | done => exact mark_emitDecoded _ _
  · obtain ⟨buf, n, same⟩ := takeStreamBytes_conn r
    unfold emitStreamBytes
    split
    · simp [SameMark, endStream, setConn, same]
    · simp [SameMark, same]

theorem mark_sendContinue (r : Reactor) (q : Request) : SameMark r (r.sendContinue env q) := by
  unfold sendContinue
  split
  · split
    · unfold writeRaw
      split <;> rfl
    · rfl
  · rfl

theorem mark_dispatchStream (r : Reactor) (q : Request) (route : RouteEntry)
    (params : List RouteParam) (bodyStart : Nat) :
    SameMark r (r.dispatchStream env q route params bodyStart) := by
  unfold dispatchStream
  split
  · exact mark_refuseText env { r with nextId := r.nextId + 1 } _ _ _
  · exact SameMark.trans rfl (mark_emitStream env _)

theorem ws_wsOpen (r : Reactor) (head : ParsedHead) (route : RouteEntry)
    (params : List RouteParam) (path query key : Bytes) (protocol : Option Bytes) :
    (r.wsOpen env head route params path query key protocol).conn.ws = true := by
  unfold wsOpen
  have free : Admits (anyStep : Lane → Move → Prop) := ⟨fun _ _ _ => trivial, fun _ _ _ => trivial⟩
  exact (tracks_wsProcess env free (by rfl)).ws (by rfl)

/-- The handshake is refused, or the connection is a session. -/
theorem mark_wsHandshake (r : Reactor) (head : ParsedHead) (route : RouteEntry)
    (params : List RouteParam) (path query : Bytes) :
    (r.wsHandshake env head route params path query).conn.ws = true ∨
      SameMark r (r.wsHandshake env head route params path query) := by
  unfold wsHandshake
  split
  · exact .inr (mark_refuse ..)
  split
  · exact .inr (mark_refuse ..)
  split
  · exact .inr (mark_refuseText ..)
  split
  · exact .inl (ws_wsOpen ..)
  split
  · exact .inl (ws_wsOpen ..)
  split
  · exact .inl (ws_wsOpen ..)
  split
  · exact .inr (mark_refuse ..)
  · exact .inl (ws_wsOpen ..)

theorem mark_answerRequest (r : Reactor) (q : Request) (ka : Bool) (body : Bytes) :
    (r.answerRequest env q ka body).1.conn.ws = true ∨
      SameMark r (r.answerRequest env q ka body).1 := by
  unfold answerRequest
  dsimp only
  split
  · split
    · exact .inr (mark_refuseText ..)
    · exact .inr (mark_writeAnswer ..)
  · split
    · split
      · exact .inr (mark_refuseText ..)
      · split
        · exact .inr (mark_refuse ..)
        · exact mark_wsHandshake ..
    · split
      · exact .inr (mark_refuseText ..)
      · split
        · exact .inr (mark_writeAnswer ..)
        · split
          · exact .inr (mark_refuseText ..)
          · exact .inr rfl

theorem mark_processRequest (r : Reactor) (q : Request) (bodyStart : Nat) :
    (r.processRequest env q bodyStart).1.conn.ws = true ∨
      SameMark r (r.processRequest env q bodyStart).1 := by
  have kept := mark_sendContinue env r q
  unfold processRequest
  split
  · exact .inr (mark_refuse ..)
  · dsimp only
    split
    · exact .inr (kept.trans (mark_dispatchStream ..))
    · split
      · exact .inr kept
      · exact .inr (kept.trans (mark_refuse ..))
      · refine (mark_answerRequest env _ q _ _).imp_right fun same => ?_
        exact kept.trans same

/-- A request that is framed shuts the gate, or its body is awaited. -/
theorem processRequest_waits (r : Reactor) (q : Request) (bodyStart : Nat) :
    (r.processRequest env q bodyStart).1.conn.busy = true ∨
      (r.processRequest env q bodyStart).1.conn.bodyPending = true := by
  unfold processRequest
  split
  · exact .inl (refuse_busy ..)
  · dsimp only
    split
    · exact .inl (dispatchStream_shuts ..)
    · split
      · exact .inr rfl
      · exact .inl (refuse_busy ..)
      · exact .inl (answerRequest_shuts ..)

/-- What the parser does to a buffer: it is not looked at, or begins the preface; the
connection closes, or becomes a session; the head at its front is stamped; or a request is
taken off. -/
inductive Parsed (r r' : Reactor) : Prop where
  | left (same : r'.conn = r.conn)
      (why : r'.Waits → r.conn.buf = [] ∨ r.conn.headPending = true ∨ r.conn.served = 0)
  | preface (same : r'.conn = { r.conn with h2 := true })
  | closed (shut : r'.conn.closing = true)
  | session (ws : r'.conn.ws = true)
  | stamped (same : r'.conn = { r.conn with headPending := true, headStartedAt := r.clock })
      (gate : r.conn.busy = false ∧ r.conn.streamingBody = false ∧ r.conn.h2 = false)
      (cut : findSub crlf2 r.conn.buf = none) (mark : r.conn.headPending = false)
  | taken (mark : r'.conn.headPending = false)
      (shut : r'.conn.busy = true ∨ r'.conn.bodyPending = true)

theorem parsed_processHead (busy : r.conn.busy = false) (streaming : r.conn.streamingBody = false)
    (h2 : r.conn.h2 = false) : Parsed r (r.processHead env).1 := by
  unfold processHead
  split
  · rename_i cut
    unfold awaitHead
    split
    · exact .closed (closeConn_closing _)
    · split
      · rename_i begun
        exact .stamped rfl ⟨busy, streaming, h2⟩ cut (by simpa using begun.2)
      · rename_i begun
        refine .left rfl fun _ => ?_
        by_cases empty : r.conn.buf = []
        · exact .inl empty
        · exact .inr (.inl (by simpa [empty] using begun))
  · dsimp only
    split
    · exact .taken (congrArg Prod.fst (mark_refuse env _ _ _)) (.inl (refuse_busy ..))
    · split
      · exact .taken (congrArg Prod.fst (mark_refuse env _ _ _)) (.inl (refuse_busy ..))
      · rcases mark_processRequest env _ _ _ with ws | mark
        · exact .session ws
        · exact .taken (congrArg Prod.fst mark) (processRequest_waits ..)

theorem parsed_processConn (r : Reactor) : Parsed r (r.processConn env) := by
  unfold processConn
  split
  · rename_i streaming
    refine .left rfl fun waits => ?_
    exact absurd (waits.streaming.symm.trans streaming) (by simp)
  · rename_i streaming
    split
    · rename_i h2
      refine .left rfl fun waits => ?_
      exact absurd (waits.h2.symm.trans h2) (by simp)
    · rename_i h2
      split
      · rename_i looks
        split
        · refine .left rfl fun _ => .inr (.inr ?_)
          simp only [looksH2, Bool.and_eq_true, beq_iff_eq] at looks
          exact looks.1.1.1.2
        · exact .preface rfl
      · rw [processLoop_succ]
        split
        · rename_i shut
          refine .left rfl fun waits => ?_
          simp [waits.busy, waits.closing] at shut
        · rename_i go
          obtain ⟨busy, -⟩ := not_or.mp go
          exact parsed_processHead env (eq_false_of_ne_true busy) (eq_false_of_ne_true streaming)
            (eq_false_of_ne_true h2)

/-! ### Uploads -/

/-- The stamp after the parser, against the times of the bytes it left. -/
theorem Parsed.stamp {times : List Nat} (parse : Parsed r r') (closing : r'.conn.closing = false)
    (ws : r'.conn.ws = false) (pending : r'.conn.headPending = true) (clock : r.clock ≤ r'.clock)
    (kept : r'.conn.buf = r.conn.buf → r.conn.headPending = true →
      r.conn.headStartedAt ≤ r.clock ∧ ∀ t ∈ times, r.conn.headStartedAt ≤ t)
    (now : r'.conn.buf = r.conn.buf → r.conn.busy = false → r.conn.streamingBody = false →
      r.conn.headPending = false → findSub crlf2 r.conn.buf = none → ∀ t ∈ times, r.clock ≤ t) :
    r'.conn.headStartedAt ≤ r'.clock ∧ ∀ t ∈ times, r'.conn.headStartedAt ≤ t := by
  cases parse with
  | left same | preface same =>
      simp only [same] at pending kept ⊢
      obtain ⟨before, older⟩ := kept trivial pending
      exact ⟨before.trans clock, older⟩
  | closed shut => exact absurd (shut.symm.trans closing) (by simp)
  | session ws' => exact absurd (ws'.symm.trans ws) (by simp)
  | taken mark => exact absurd (mark.symm.trans pending) (by simp)
  | stamped same gate cut mark =>
      simp only [same] at now ⊢
      exact ⟨clock, now trivial gate.1 gate.2.1 mark cut⟩

/-- Without a stamp, the parser leaves a connection waiting only when it has nothing, or may
yet be HTTP/2. -/
theorem Parsed.bare (parse : Parsed r r') (waits : r'.Waits)
    (unmarked : r'.conn.headPending = false) :
    r'.conn = r.conn ∧ (r.conn.buf = [] ∨ r.conn.served = 0) := by
  cases parse with
  | left same why =>
      rcases why waits with empty | pending | served
      · exact ⟨same, .inl empty⟩
      · exact absurd unmarked (by rw [same, pending]; simp)
      · exact ⟨same, .inr served⟩
  | preface same => exact absurd waits.h2 (by simp [same])
  | closed shut => exact absurd (shut.symm.trans waits.closing) (by simp)
  | session ws => exact absurd (ws.symm.trans waits.ws) (by simp)
  | taken mark shut =>
      rcases shut with busy | body
      · exact absurd (busy.symm.trans waits.busy) (by simp)
      · exact absurd (body.symm.trans waits.bodyPending) (by simp)
  | stamped same => exact absurd unmarked (by simp [same])

/-! ### Reads -/

theorem emitStream_length (r : Reactor) : (r.emitStream env).conn.closing = true ∨
    (r.emitStream env).conn.buf.length ≤ r.conn.buf.length := by
  unfold emitStream
  split
  · have shorter := Chunked.scanChunks_length r.conn.streamMaxBody (r.conn.buf.length + 1) r.chunkScan
    unfold emitStreamChunked
    cases hs : scanChunks r.conn.streamMaxBody (r.conn.buf.length + 1) r.chunkScan with
    | mk stop s =>
        rw [hs] at shorter
        cases stop with
        | tooLarge =>
            refine (writeAnswer_stamps env _ _ _ _).imp_right fun same => ?_
            have buf := congrArg (fun p => p.2.2.1) same
            refine (congrArg List.length buf).le.trans ?_
            simp only [emitTo, log, retireReq_conn, setConn]
            exact shorter
        | malformed => exact .inl (closeConn_closing _)
        | more =>
            refine .inr ?_
            dsimp only
            rw [emitDecoded_conn]
            exact shorter
        | done =>
            refine .inr ?_
            dsimp only [endStream, setConn]
            rw [emitDecoded_conn]
            exact shorter
  · refine .inr ?_
    have taken : r.takeStreamBytes.conn.buf.length ≤ r.conn.buf.length := by
      unfold takeStreamBytes
      dsimp only
      split
      · simp [setConn]
      · exact le_rfl
    unfold emitStreamBytes
    split <;> exact taken

/-- An upload behind an open gate that lets the connection wait has ended, and leaves what is
behind it. -/
theorem emitStream_waits {data : Bytes} (waits : ((r.received data).emitStream env).Waits)
    (streaming : r.conn.streamingBody = true) :
    ∃ rest, r.uploadRest data = some rest ∧
      ((r.received data).emitStream env).conn.buf = rest ∧
      ((r.received data).emitStream env).conn.tls = r.conn.tls ∧
      ((r.received data).emitStream env).conn.served = r.conn.served := by
  revert waits
  have going : ∀ r' : Reactor, r'.conn.streamingBody = true → ¬ r'.Waits := by
    intro r' h waits
    exact absurd (waits.streaming.symm.trans h) (by simp)
  unfold emitStream
  split
  · rename_i chunked
    unfold emitStreamChunked
    cases hs : scanChunks (r.received data).conn.streamMaxBody
        ((r.received data).conn.buf.length + 1) (r.received data).chunkScan with
    | mk stop s =>
        dsimp only
        intro waits
        cases stop with
        | tooLarge => exact absurd waits.busy (by simp [abortStreamTooLarge])
        | malformed => exact absurd waits.closing (by simp)
        | more =>
            refine absurd waits (going _ ?_)
            rw [emitDecoded_conn]
            exact streaming
        | done =>
            refine ⟨s.buf, ?_, ?_, ?_, ?_⟩
            · simp only [uploadRest, if_pos chunked, hs]
            all_goals simp only [endStream, setConn, emitDecoded_conn, received]
  · rename_i chunked
    unfold emitStreamBytes
    obtain ⟨buf, n, hconn⟩ := takeStreamBytes_conn (r.received data)
    split
    · rename_i zero
      intro _
      refine ⟨(r.received data).takeStreamBytes.conn.buf, ?_, rfl, ?_, ?_⟩
      · simp only [uploadRest, if_neg chunked, if_pos zero]
      all_goals
        simp only [endStream, setConn, hconn]
        rfl
    · intro waits
      refine absurd waits (going _ ?_)
      rw [hconn]
      exact streaming

/-- What a read does, besides joining the bytes to the buffer. -/
inductive Received (r : Reactor) (data : Bytes) (r' : Reactor) : Prop where
  | closed (shut : r'.conn.closing = true)
  | session (ws : r.conn.ws = true)
  | dropped (busy : r'.conn.busy = true) (mark : SameMark r r') (empty : r'.conn.buf = [])
  | uploaded (streaming : r.conn.streamingBody = true) (mark : SameMark r r')
      (length : r'.conn.buf.length ≤ (r.conn.buf ++ data).length)
      (busy : r.conn.busy = true → r'.conn.busy = true)
      (ended : r'.Waits → ∃ rest, r.uploadRest data = some rest ∧ r'.conn.buf = rest ∧
        r'.conn.tls = r.conn.tls ∧ r'.conn.served = r.conn.served)
  | parsed (streaming : r.conn.streamingBody = false) (parse : Parsed (r.received data) r')

theorem received_readCb (r : Reactor) (data : Bytes) : Received r data (r.readCb env data) := by
  unfold readCb
  dsimp only
  split
  · rcases writeAnswer_stamps env
      (((r.received data).broadcastEvent .clientError (r.received data).conn.id
        "pipelined bytes exceed the buffer cap").setConn { (r.received data).conn with buf := [] })
      [⟨.guard, .whole, uvBuildHead ((r.received data).date env) 400 [] 0 false (some 0)⟩] false true
      with shut | same
    · exact .closed shut
    · simp only [stamps, Prod.mk.injEq] at same
      obtain ⟨-, -, buf, pending, started⟩ := same
      refine .dropped (writeAnswer_busy ..) ?_ buf
      exact Prod.ext pending started
  · split
    · rename_i streaming
      rcases emitStream_length env (r.received data) with shut | shorter
      · exact .closed shut
      · refine .uploaded streaming ?_ shorter (fun busy => emitStream_busy env busy)
          fun waits => emitStream_waits env waits streaming
        exact SameMark.trans rfl (mark_emitStream env _)
    · rename_i streaming
      split
      · rename_i ws
        exact .session ws
      · exact .parsed (eq_false_of_ne_true streaming) (parsed_processConn env _)

/-! ### The clock -/

theorem clock_of_writes (h : Writes env r r') : r'.clock = r.clock := by
  induction h with
  | aside same => exact congrArg Outlet.clock same
  | issue => rfl
  | trans _ _ first second => exact second.trans first

theorem clock_step (laden : r.Laden) {a : Act} (h : step env r a = some r') :
    r.clock ≤ r'.clock := by
  cases hl : Turn.lands (.act a) with
  | true =>
      obtain ⟨w, rest, -, hw⟩ := turn_lands (a := .act a) hl h
      exact (clock_of_writes env hw).ge
  | false =>
      cases turn_effect (a := .act a) laden hl h with
      | works hw => exact (clock_of_writes env hw).ge
      | empties hw => exact (clock_of_writes env hw).ge
      | queues _ _ same | passes _ same | drains same | flies _ _ _ same =>
          simp only [outlet, Outlet.mk.injEq] at same
          omega

end Reactor

end NitroServer.Engine
