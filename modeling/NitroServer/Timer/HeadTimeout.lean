/-
The header timeout.

`processConn` stamps `headStartedAt` when it finds a head begun and not complete, and the
sweep closes a connection whose stamp is `headTimeoutMs` back. Three places leave bytes of
an incomplete head without a stamp: a PROXY header that is not complete, a beginning of the
HTTP/2 preface, and bytes behind a request that is still being answered (or behind an
upload whose answer has landed). `Front` keeps the arrival time of every byte beside the
connection; bytes are consumed in the order of their arrival.

* `Tended` — no byte waits for longer than the timer knows.
* `header_timeout_absolute` — in a run that lets no byte wait in one of those places, the
  sweep closes every connection that waits too long.
* `header_timeout_trickle` — a PROXY header that arrives byte by byte is waited for.
-/

import NitroServer.Timer.Calm
import NitroServer.Timer.Proxy

namespace NitroServer.Engine

open NitroServer.Lib

/-! ### The connection and the arrival of its bytes -/

/-- A plaintext connection, the PROXY header collected so far, and when each byte arrived. -/
structure Front where
  reactor : Reactor
  proxyBuf : Bytes
  proxyDone : Bool
  arrived : List Nat
deriving DecidableEq

/-- A step of the connection, or a read while the PROXY header is collected; `capped` says
that the client it names is over the cap per address. -/
inductive FrontAct where
  | act (a : Act)
  | header (data : Bytes) (capped : Bool)
deriving DecidableEq, Repr

namespace Front

variable (env : Env) (inet : Inet)

/-- The bytes that nobody has acted on. -/
def unconsumed (s : Front) : Bytes := if s.proxyDone then s.reactor.conn.buf else s.proxyBuf

/-- When they arrived. -/
def times (s : Front) : List Nat := s.arrived.drop (s.arrived.length - s.unconsumed.length)

/-- The PROXY header, the preface or the request head at the front is not complete. -/
def incomplete (s : Front) : Bool :=
  if s.proxyDone then s.reactor.headIncomplete env s.reactor.conn.buf
  else uvParseProxyHeader inet s.proxyBuf == .more

/-- Bytes arrive now. -/
def arrive (s : Front) (data : Bytes) : List Nat :=
  s.arrived ++ List.replicate data.length s.reactor.clock

/-- Progress on the wire. -/
def heard (r : Reactor) : Reactor :=
  r.setConn { r.conn with lastActive := r.clock, wsPingSent := false }

/-- `readCb` while the PROXY header is collected. -/
def readFirst (s : Front) (data : Bytes) (capped : Bool) : Front :=
  let r := heard s.reactor
  let proxyBuf := s.proxyBuf ++ data
  let arrived := s.arrive data
  match uvParseProxyHeader inet proxyBuf with
  | .more => ⟨if 16 + 65535 < proxyBuf.length then r.closeConn else r, proxyBuf, false, arrived⟩
  | .bad =>
      ⟨(r.broadcastEvent .clientError r.conn.id "invalid PROXY protocol header").closeConn,
        proxyBuf, false, arrived⟩
  | .done ip used =>
      if ip ≠ [] ∧ capped then ⟨r.closeConn, proxyBuf, true, arrived⟩
      else if proxyBuf.drop used = [] then ⟨r, [], true, arrived⟩
      else ⟨r.readCb env (proxyBuf.drop used), [], true, arrived⟩

/-- Bytes for the connection's parser. -/
def reads : Act → Bool
  | .read _ => true
  | _ => false

def step (s : Front) : FrontAct → Option Front
  | .act a =>
      if ¬ s.proxyDone ∧ reads a then none
      else (Engine.step env s.reactor a).map fun r =>
        { s with reactor := r, arrived := s.arrive a.data }
  | .header data capped =>
      if ¬ s.proxyDone ∧ s.reactor.reading ∧ data ≠ [] then some (s.readFirst env inet data capped)
      else none

/-- Every byte that waits arrived at this moment. -/
def fresh (s : Front) : Bool := s.times.all (· == s.reactor.clock)

/-- No byte is left waiting without a stamp: bytes of an incomplete PROXY header or preface
come in one read, as do bytes pipelined behind a request that leave no complete head; and an
upload that ends behind its answer ends with the read's bytes or with a complete head. -/
def timely (s : Front) : FrontAct → Bool
  | .header data _ => s.fresh || uvParseProxyHeader inet (s.proxyBuf ++ data) != .more
  | .act (.read data) =>
      let r := s.reactor
      r.conn.busy ||
        if r.conn.streamingBody then
          (r.uploadRest data).all fun rest => rest == [] || !r.headIncomplete env rest
        else r.conn.headPending || s.fresh || !r.headIncomplete env (r.conn.buf ++ data)
  | .act a =>
      !s.reactor.reopens a || s.reactor.conn.streamingBody || s.fresh ||
        (findSub crlf2 s.reactor.conn.buf).isSome

/-! ### What the timer goes by -/

variable {env} {inet} {s s' : Front} {r' : Reactor}

/-- Of bytes appended to a queue of which the front is consumed, what is left arrived before
or just now. -/
theorem mem_times {l : List Nat} {now n k k' t : Nat} (left : k' ≤ k + n)
    (h : t ∈ (l ++ List.replicate n now).drop (l.length + n - k')) :
    t ∈ l.drop (l.length - k) ∨ t = now := by
  rw [List.drop_append] at h
  rcases List.mem_append.mp h with h | h
  · have later : l.length + n - k' = (l.length - k) + (l.length + n - k' - (l.length - k)) := by omega
    rw [later, ← List.drop_drop] at h
    exact .inl (List.mem_of_mem_drop h)
  · exact .inr (List.eq_of_mem_replicate (List.mem_of_mem_drop h))

/-- A connection that has sent no more than a beginning of the PROXY header. -/
structure Untouched (r : Reactor) : Prop where
  busy : r.conn.busy = false
  bodyPending : r.conn.bodyPending = false
  streaming : r.conn.streamingBody = false
  h2 : r.conn.h2 = false
  ws : r.conn.ws = false
  buf : r.conn.buf = []
  headPending : r.conn.headPending = false
  served : r.conn.served = 0

/-- No byte waits for longer than the timer knows: a stamp is older than every byte, and
without one the connection has been silent since the oldest byte and has served nothing. -/
structure Tended (env : Env) (inet : Inet) (s : Front) : Prop where
  wf : s.reactor.WF
  laden : s.reactor.Laden
  stamp : s.reactor.conn.closing = false → s.reactor.conn.ws = false →
    s.reactor.conn.headPending = true → s.reactor.conn.headStartedAt ≤ s.reactor.clock ∧
      ∀ t ∈ s.times, s.reactor.conn.headStartedAt ≤ t
  idle : s.proxyDone = true → s.reactor.Waits →
    s.reactor.headIncomplete env s.reactor.conn.buf = true →
    s.reactor.conn.headPending = false → ∀ t ∈ s.times.head?,
      s.reactor.conn.served = 0 ∧ s.reactor.conn.lastActive ≤ t
  first : s.proxyDone = false → s.reactor.conn.closing = false → Untouched s.reactor ∧
    uvParseProxyHeader inet s.proxyBuf = .more ∧ ∀ t ∈ s.times.head?, s.reactor.conn.lastActive ≤ t

theorem headIncomplete_congr {r r' : Reactor} (buf : Bytes) (tls : r'.conn.tls = r.conn.tls)
    (served : r'.conn.served = r.conn.served) (busy : r'.conn.busy = r.conn.busy) :
    r'.headIncomplete env buf = r.headIncomplete env buf := by
  simp only [Reactor.headIncomplete, Reactor.looksH2, Reactor.setConn, tls, served, busy]
  rfl

/-- The reactor's own part of the invariant. -/
theorem kept_step (h : Tended env inet s) {a : Act} (hs : Engine.step env s.reactor a = some r') :
    r'.WF ∧ r'.Laden ∧ s.reactor.clock ≤ r'.clock ∧
      (s.reactor.conn.ws = true → r'.conn.ws = true) :=
  ⟨h.wf.step env hs, (turn_lasts (a := .act a) h.laden hs).laden h.laden,
    Reactor.clock_step env h.laden hs, ws_of_reaches (step_moves env h.wf hs).1⟩

/-- A calm step leaves the timer what it goes by. -/
theorem Tended.calm (h : Tended env inet s) (calm : Reactor.Calm s.reactor r') (wf : r'.WF)
    (laden : r'.Laden) (clock : s.reactor.clock ≤ r'.clock) :
    Tended env inet { s with reactor := r' } := by
  have sameTimes : r'.conn.buf = s.reactor.conn.buf →
      ({ s with reactor := r' } : Front).times = s.times := by
    intro buf
    simp only [times, unconsumed, buf]
  refine ⟨wf, laden, fun closing ws pending => ?_, fun done waits cut bare => ?_,
    fun waiting closing => ?_⟩
  · have same : r'.stamps = s.reactor.stamps := by
      rcases calm with shut | ⟨-, same, -⟩ | same
      · exact absurd (shut.symm.trans closing) (by simp)
      · exact same
      · exact Reactor.stamps_of_view same
    simp only [Reactor.stamps, Prod.mk.injEq] at same
    obtain ⟨c, w, buf, p, started⟩ := same
    obtain ⟨now, older⟩ := h.stamp (c ▸ closing) (w ▸ ws) (p ▸ pending)
    rw [sameTimes buf]
    dsimp only
    rw [started]
    exact ⟨now.trans clock, older⟩
  · rcases calm with shut | ⟨busy, -⟩ | same
    · exact absurd (shut.symm.trans waits.closing) (by simp)
    · exact absurd (busy.symm.trans waits.busy) (by simp)
    · simp only [Reactor.headView, Reactor.HeadView.mk.injEq] at same
      obtain ⟨busy, closing, body, streaming, h2, ws, tls, buf, pending, -, active, served⟩ := same
      have before : s.reactor.Waits := ⟨busy ▸ waits.busy, closing ▸ waits.closing,
        body ▸ waits.bodyPending, streaming ▸ waits.streaming, h2 ▸ waits.h2, ws ▸ waits.ws⟩
      dsimp only at cut
      rw [headIncomplete_congr _ tls served busy, buf] at cut
      rw [sameTimes buf]
      dsimp only
      rw [active, served]
      exact h.idle done before cut (pending ▸ bare)
  · rcases calm with shut | ⟨-, same, why⟩ | same
    · exact absurd (shut.symm.trans closing) (by simp)
    · simp only [Reactor.stamps, Prod.mk.injEq] at same
      obtain ⟨before, -, -⟩ := h.first waiting (same.1 ▸ closing)
      rcases why with busy | body | head
      · exact absurd (busy.symm.trans before.busy) (by simp)
      · exact absurd (body.symm.trans before.bodyPending) (by simp)
      · rw [before.buf] at head
        cases head
    · simp only [Reactor.headView, Reactor.HeadView.mk.injEq] at same
      obtain ⟨busy, shut, body, streaming, h2, ws, tls, buf, pending, -, active, served⟩ := same
      obtain ⟨before, more, older⟩ := h.first waiting (shut ▸ closing)
      rw [sameTimes buf]
      dsimp only
      rw [active]
      exact ⟨⟨busy.trans before.busy, body.trans before.bodyPending,
        streaming.trans before.streaming, h2.trans before.h2, ws.trans before.ws,
        buf.trans before.buf, pending.trans before.headPending, served.trans before.served⟩,
        more, older⟩

/-- The times after bytes arrive and some are consumed. -/
theorem times_read {data : Bytes} (done : s.proxyDone = true)
    (shorter : r'.conn.buf.length ≤ (s.reactor.conn.buf ++ data).length) :
    ∀ t ∈ ({ s with reactor := r', arrived := s.arrive data } : Front).times,
      t ∈ s.times ∨ t = s.reactor.clock := by
  intro t mem
  simp only [times, unconsumed, arrive, done, if_true, List.length_append,
    List.length_replicate] at mem ⊢
  exact mem_times (by simpa using shorter) mem

theorem times_empty {data : Bytes} (done : s.proxyDone = true) (empty : r'.conn.buf = []) :
    ({ s with reactor := r', arrived := s.arrive data } : Front).times = [] := by
  simp [times, unconsumed, done, empty]

/-- A stamp that a read leaves alone is older than the bytes it brings. -/
theorem stamp_kept {data : Bytes} (h : Tended env inet s) (done : s.proxyDone = true)
    (closing : s.reactor.conn.closing = false) (ws : s.reactor.conn.ws = false)
    (mark : Reactor.SameMark s.reactor r') (pending : r'.conn.headPending = true)
    (clock : s.reactor.clock ≤ r'.clock)
    (shorter : r'.conn.buf.length ≤ (s.reactor.conn.buf ++ data).length) :
    r'.conn.headStartedAt ≤ r'.clock ∧
      ∀ t ∈ ({ s with reactor := r', arrived := s.arrive data } : Front).times,
        r'.conn.headStartedAt ≤ t := by
  obtain ⟨p, started⟩ := Prod.mk.inj mark
  obtain ⟨now, older⟩ := h.stamp closing ws (p ▸ pending)
  rw [started]
  refine ⟨now.trans clock, fun t mem => ?_⟩
  rcases times_read done shorter t mem with before | rfl
  · exact older t before
  · exact now

/-- The bytes of an incomplete head came in the read that is timely, or are stamped. -/
theorem fresh_of_timely {data : Bytes} (ok : s.timely env inet (.act (.read data)) = true)
    (busy : s.reactor.conn.busy = false) (streaming : s.reactor.conn.streamingBody = false)
    (unmarked : s.reactor.conn.headPending = false)
    (cut : s.reactor.headIncomplete env (s.reactor.conn.buf ++ data) = true) :
    ∀ t, t ∈ s.times ∨ t = s.reactor.clock → t = s.reactor.clock := by
  have fresh : s.fresh = true := by simpa [timely, busy, streaming, unmarked, cut] using ok
  rintro t (mem | rfl)
  · exact eq_of_beq (List.all_eq_true.mp fresh t mem)
  · rfl

/-- A read that the timer does not lose track of. -/
theorem Tended.read (h : Tended env inet s) (done : s.proxyDone = true) {data : Bytes}
    (ok : s.timely env inet (.act (.read data)) = true)
    (hs : Engine.step env s.reactor (.read data) = some r') :
    Tended env inet { s with reactor := r', arrived := s.arrive data } := by
  obtain ⟨wf, laden, clock, session⟩ := kept_step h hs
  simp only [Engine.step, Option.ite_none_right_eq_some, Option.some.injEq] at hs
  obtain ⟨⟨reading, -⟩, rfl⟩ := hs
  have opened : s.reactor.conn.closing = false := eq_false_of_ne_true reading.1
  refine ⟨wf, laden, fun closing ws pending => ?_, fun _ waits cut bare => ?_,
    fun waiting => absurd (done.symm.trans waiting) (by simp)⟩
  · have http : s.reactor.conn.ws = false := by
      refine eq_false_of_ne_true fun before => ?_
      exact absurd ((session before).symm.trans ws) (by simp)
    cases Reactor.received_readCb env s.reactor data with
    | closed shut => exact absurd (shut.symm.trans closing) (by simp)
    | session before => exact absurd (before.symm.trans http) (by simp)
    | dropped busy mark empty => exact stamp_kept h done opened http mark pending clock (by simp [empty])
    | uploaded streaming mark length => exact stamp_kept h done opened http mark pending clock length
    | parsed streaming parse =>
        refine parse.stamp closing ws pending clock (fun buf stamped => ?_)
          fun buf idle _ unmarked cut => ?_
        · obtain ⟨before, older⟩ := h.stamp opened http stamped
          refine ⟨before, fun t mem => ?_⟩
          rcases times_read done (congrArg List.length buf).le t mem with mem | rfl
          · exact older t mem
          · exact before
        · have open_head : s.reactor.headIncomplete env (s.reactor.conn.buf ++ data) = true := by
            rw [Reactor.headIncomplete, show findSub crlf2 (s.reactor.conn.buf ++ data) = none from cut]
            rfl
          exact fun t mem => (fresh_of_timely ok idle streaming unmarked open_head t
            (times_read done (congrArg List.length buf).le t mem)).ge
  · cases Reactor.received_readCb env s.reactor data with
    | closed shut => exact absurd (shut.symm.trans waits.closing) (by simp)
    | session before => exact absurd ((session before).symm.trans waits.ws) (by simp)
    | dropped busy => exact absurd (busy.symm.trans waits.busy) (by simp)
    | uploaded streaming mark length shut ended =>
        obtain ⟨rest, left, buf, tls, served⟩ := ended waits
        have idle : s.reactor.conn.busy = false := by
          refine eq_false_of_ne_true fun busy => ?_
          exact absurd ((shut busy).symm.trans waits.busy) (by simp)
        rw [timely, idle, streaming, left] at ok
        dsimp only at cut
        rw [headIncomplete_congr _ tls served (waits.busy.trans idle.symm), buf] at cut
        have empty : rest = [] := by simpa [cut] using ok
        rw [times_empty done (buf.trans empty)]
        simp
    | parsed streaming parse =>
        obtain ⟨same, empty | served⟩ := parse.bare waits bare
        · rw [times_empty done ((congrArg Conn.buf same).trans empty)]
          simp
        · dsimp only at cut
          rw [headIncomplete_congr _ (congrArg Conn.tls same) (congrArg Conn.served same)
            (congrArg Conn.busy same), congrArg Conn.buf same] at cut
          intro t mem
          have now : t = s.reactor.clock := fresh_of_timely ok
            ((congrArg Conn.busy same).symm.trans waits.busy) streaming
            ((congrArg Conn.headPending same).symm.trans bare) cut t
            (times_read done (congrArg (List.length ∘ Conn.buf) same).le t (List.mem_of_mem_head? mem))
          subst now
          exact ⟨(congrArg Conn.served same).trans served, (congrArg Conn.lastActive same).le⟩

/-- A completion that opens the gate, and the timer does not lose track. -/
theorem Tended.reopened (h : Tended env inet s) {a : Act}
    (ok : s.timely env inet (.act a) = true) (reopens : s.reactor.reopens a = true)
    (hs : Engine.step env s.reactor a = some r') : Tended env inet { s with reactor := r' } := by
  obtain ⟨wf, laden, clock, -⟩ := kept_step h hs
  cases a with
  | written success got =>
      simp only [Engine.step] at hs
      split at hs
      · cases hs
      · rename_i w rest writes
        simp only [Option.ite_none_left_eq_some, Option.some.injEq] at hs
        obtain ⟨-, rfl⟩ := hs
        have opens := reopens
        simp only [Reactor.reopens, writes, List.head?_cons, Option.any_some, Bool.and_eq_true,
          Bool.not_eq_true'] at opens
        obtain ⟨⟨rfl, opened⟩, fin, ka⟩ := opens
        have landing : true ∈ s.reactor.lane.finishing := by
          simp [Reactor.lane, finishingOf, writes, fin, ka]
        obtain ⟨-, -, -, -, busy, http⟩ := h.wf.sound.of_landing landing
        have parser : s.reactor.onWrite env w rest true got =
            (s.reactor.writeDone w rest).requestOver.reopen.processConn env := by
          have gate : ¬ (s.reactor.writeDone w rest).conn.closing = true := by
            simp [Reactor.writeDone, Reactor.setConn, opened]
          simp [Reactor.onWrite, Reactor.onFinished, fin, ka, gate]
        rw [parser] at wf laden clock ⊢
        have parse := Reactor.parsed_processConn env (s.reactor.writeDone w rest).requestOver.reopen
        have sameTimes : ∀ r', r'.conn.buf = s.reactor.conn.buf →
            ({ s with reactor := r' } : Front).times = s.times := by
          intro r' buf
          simp only [times, unconsumed, buf]
        refine ⟨wf, laden, fun closing ws pending => ?_, fun done waits cut bare => ?_,
          fun waiting => absurd (busy.symm.trans (h.first waiting opened).1.busy) (by simp)⟩
        · refine parse.stamp closing ws pending clock (fun buf stamped => ?_)
            fun buf _ streaming unmarked cut => ?_
          · rw [sameTimes _ buf]
            exact h.stamp opened http stamped
          · have none : findSub crlf2 s.reactor.conn.buf = none := cut
            have still : s.reactor.conn.streamingBody = false := streaming
            have fresh : s.fresh = true := by simpa [timely, reopens, none, still] using ok
            rw [sameTimes _ buf]
            exact fun t mem => (eq_of_beq (List.all_eq_true.mp fresh t mem)).ge
        · obtain ⟨same, empty | served⟩ := parse.bare waits bare
          · have nothing : s.reactor.conn.buf = [] := empty
            have buf : (Reactor.processConn env
                (s.reactor.writeDone w rest).requestOver.reopen).conn.buf = s.reactor.conn.buf := by
              rw [same]
              rfl
            rw [sameTimes _ buf, times, unconsumed, if_pos done, nothing]
            simp
          · cases served
  | _ => cases reopens

theorem wf_quiet {r r' : Reactor} (wf : r.WF) (quiet : Quiet r r') : r'.WF := by
  have tracks : Tracks anyStep r r' := quiet.tracks
  exact wf.tracks tracks

/-- The wire made progress. -/
theorem wf_heard {r : Reactor} (wf : r.WF) : (heard r).WF :=
  wf_quiet wf ⟨rfl, rfl, rfl⟩

theorem wf_closeConn {r : Reactor} (wf : r.WF) : r.closeConn.WF := by
  have free : Admits (anyStep : Lane → Move → Prop) := ⟨fun _ _ _ => trivial, fun _ _ _ => trivial⟩
  exact wf.tracks (tracks_close free r)

theorem laden_closeConn {r : Reactor} (laden : r.Laden) : r.closeConn.Laden := by
  have writes : Writes ⟨{}, sampleRouter, fun _ => [], fun _ b => b⟩ r r.closeConn :=
    Reactor.writes_closeConn
  exact writes.lasts.laden laden

/-- A closing connection needs no timer. -/
theorem Tended.closed {s : Front} (wf : s.reactor.WF) (laden : s.reactor.Laden)
    (shut : s.reactor.conn.closing = true) : Tended env inet s where
  wf := wf
  laden := laden
  stamp closing := absurd (shut.symm.trans closing) (by simp)
  idle _ waits := absurd (shut.symm.trans waits.closing) (by simp)
  first _ closing := absurd (shut.symm.trans closing) (by simp)

/-- A read while the PROXY header is collected. -/
theorem Tended.readFirst (h : Tended env inet s) (waiting : s.proxyDone = false)
    (reading : s.reactor.reading) {data : Bytes} {capped : Bool}
    (ok : s.timely env inet (.header data capped) = true) :
    Tended env inet (s.readFirst env inet data capped) := by
  have opened : s.reactor.conn.closing = false := eq_false_of_ne_true reading.1
  obtain ⟨before, more, older⟩ := h.first waiting opened
  have wf := wf_heard h.wf
  have laden : (heard s.reactor).Laden := h.laden
  unfold Front.readFirst
  dsimp only
  split
  · rename_i again
    split
    · exact .closed (wf_closeConn wf) (laden_closeConn laden) (Reactor.closeConn_closing _)
    · have fresh : s.fresh = true := by simpa [timely, again] using ok
      refine ⟨wf, laden, fun _ _ pending => ?_, fun done => absurd done (by simp), fun _ _ => ?_⟩
      · exact absurd (before.headPending.symm.trans pending) (by simp)
      · refine ⟨⟨before.busy, before.bodyPending, before.streaming, before.h2, before.ws, before.buf,
          before.headPending, before.served⟩, again, fun t mem => ?_⟩
        have here := List.mem_of_mem_head? mem
        simp only [times, unconsumed, arrive, List.length_append, List.length_replicate] at here
        rcases mem_times (k := s.proxyBuf.length) (by simp) here with old | rfl
        · have mine : t ∈ s.times := by simpa [times, unconsumed, waiting] using old
          exact (eq_of_beq (List.all_eq_true.mp fresh t mine)).ge
        · exact le_rfl
  · exact .closed (wf_closeConn (wf_quiet wf (quiet_broadcast ..)))
      (laden_closeConn laden) (Reactor.closeConn_closing _)
  · rename_i ip used complete
    have beyond := used_beyond more complete
    -- The header taken off, nothing is left of what came before this read.
    have headless : ∀ times, Tended env inet ⟨heard s.reactor, [], true, times⟩ := by
      intro times
      refine ⟨wf, laden, fun _ _ pending => ?_, fun _ _ _ _ => ?_, fun waiting => absurd waiting (by simp)⟩
      · exact absurd (before.headPending.symm.trans pending) (by simp)
      · simp [Front.times, unconsumed, heard, Reactor.setConn, before.buf]
    split
    · exact .closed (wf_closeConn wf) (laden_closeConn laden) (Reactor.closeConn_closing _)
    · split
      · exact headless _
      · rename_i rest
        set carry := (s.proxyBuf ++ data).drop used with hcarry
        have short : carry.length ≤ data.length := by
          rw [hcarry, List.length_drop, List.length_append]
          omega
        set early := s.arrived ++ List.replicate (data.length - carry.length) s.reactor.clock
        have arrival : s.arrive data =
            (Front.mk (heard s.reactor) [] true early).arrive carry := by
          show _ = early ++ List.replicate carry.length s.reactor.clock
          rw [List.append_assoc, ← List.replicate_add, Nat.sub_add_cancel short]
          rfl
        rw [arrival]
        refine (headless early).read rfl ?_ ?_
        · simp [timely, fresh, times, unconsumed, heard, Reactor.setConn, before.buf,
            before.streaming]
        · rw [Engine.step, if_pos ⟨reading, .inl rest⟩]

/-- A step that the timer does not lose track of. -/
theorem Tended.step (h : Tended env inet s) {a : FrontAct} (ok : s.timely env inet a = true)
    (hs : Front.step env inet s a = some s') : Tended env inet s' := by
  cases a with
  | header data capped =>
      simp only [Front.step, Option.ite_none_right_eq_some, Option.some.injEq] at hs
      obtain ⟨⟨waiting, reading, -⟩, rfl⟩ := hs
      exact h.readFirst (eq_false_of_ne_true waiting) reading ok
  | act a =>
      simp only [Front.step, Option.ite_none_left_eq_some, Option.map_eq_some_iff] at hs
      obtain ⟨turn, r', hstep, rfl⟩ := hs
      cases hr : reads a with
      | true =>
          have done : s.proxyDone = true := by
            by_contra waiting
            exact turn ⟨waiting, hr⟩
          cases a with
          | read data => exact h.read done ok hstep
          | _ => cases hr
      | false =>
          have unheard : s.arrive a.data = s.arrived := by
            have quiet : a.data = [] := by
              cases a with
              | read data => cases hr
              | _ => rfl
            rw [arrive, quiet]
            exact List.append_nil _
          rw [unheard]
          by_cases reopens : s.reactor.reopens a = true
          · exact h.reopened ok reopens hstep
          · obtain ⟨wf, laden, clock, -⟩ := kept_step h hstep
            refine h.calm (Reactor.calm_step env h.wf hstep ?_ (eq_false_of_ne_true reopens)) wf laden
              clock
            rintro data rfl
            cases hr

/-- A plaintext connection just accepted; it starts with a PROXY header unless `proxyDone`. -/
structure Accepted (s : Front) : Prop where
  fresh : Fresh s.reactor
  plain : s.reactor.conn.tls = false
  proxyBuf : s.proxyBuf = []
  arrived : s.arrived = []

theorem Accepted.tended (h : Accepted s) : Tended env inet s where
  wf := h.fresh.wf
  laden e mem own := absurd own (h.fresh.queue e mem)
  stamp _ _ pending := by
    rw [h.fresh.conn] at pending
    cases pending
  idle _ _ _ _ := by simp [times, h.arrived]
  first _ _ := by
    refine ⟨?_, ?_, ?_⟩
    · constructor <;> rw [h.fresh.conn] <;> rfl
    · rw [h.proxyBuf]
      rfl
    · simp [times, h.arrived]

/-- The sweep of a connection whose stamp is old, or that has been silent since it opened. -/
theorem sweepIdle_closes {r : Reactor} (armed : 0 < env.cfg.headerTimeoutMs)
    (body : r.conn.bodyPending = false)
    (late : r.conn.headPending = true ∧
        r.elapsed r.conn.headStartedAt env.cfg.headerTimeoutMs = true ∨
      r.conn.served = 0 ∧ r.elapsed r.conn.lastActive env.cfg.headerTimeoutMs = true) :
    (r.sweepIdle env).conn.closing = true := by
  unfold Reactor.sweepIdle
  rw [if_neg (by simp [body])]
  split
  · exact Reactor.closeConn_closing _
  · rename_i unmarked
    split
    · exact Reactor.closeConn_closing _
    · rcases late with ⟨pending, old⟩ | ⟨served, old⟩
      · exact absurd ⟨armed, pending, old⟩ unmarked
      · have idle : r.idleMs env = env.cfg.headerTimeoutMs := if_pos ⟨served, armed⟩
        rw [idle, if_pos ⟨armed, old⟩]
        exact Reactor.closeConn_closing _

/-- The sweep of a connection that waits, when the timer knows since when. -/
theorem Tended.sweeps (h : Tended env inet s) (armed : 0 < env.cfg.headerTimeoutMs)
    (waits : s.reactor.Waits) (cut : s.incomplete env inet = true) {t : Nat}
    (oldest : s.times.head? = some t)
    (old : env.cfg.headerTimeoutMs ≤ (s.reactor.clock : Int) - t) :
    (s.reactor.onSweep env).conn.closing = true := by
  have since : ∀ start ≤ t, s.reactor.elapsed start env.cfg.headerTimeoutMs = true := by
    intro start before
    simp only [Reactor.elapsed, decide_eq_true_eq]
    omega
  have late : s.reactor.conn.headPending = true ∧
        s.reactor.elapsed s.reactor.conn.headStartedAt env.cfg.headerTimeoutMs = true ∨
      s.reactor.conn.served = 0 ∧
        s.reactor.elapsed s.reactor.conn.lastActive env.cfg.headerTimeoutMs = true := by
    cases pending : s.reactor.conn.headPending with
    | true =>
        have stamp := h.stamp waits.closing waits.ws pending
        exact .inl ⟨rfl, since _ (stamp.2 t (List.mem_of_mem_head? oldest))⟩
    | false =>
        right
        cases done : s.proxyDone with
        | true =>
            rw [incomplete, if_pos done] at cut
            obtain ⟨served, silent⟩ := h.idle done waits cut pending t oldest
            exact ⟨served, since _ silent⟩
        | false =>
            obtain ⟨before, -, silent⟩ := h.first done waits.closing
            exact ⟨before.served, since _ (silent t oldest)⟩
  unfold Reactor.onSweep
  rw [if_neg (by simp [waits.closing])]
  split
  · exact Reactor.closeConn_closing _
  · dsimp only
    rw [if_neg (by simp [waits.ws])]
    split
    · have aged : s.reactor.ageOut =
          s.reactor.setConn { s.reactor.conn with ageExpired := true } := by
        unfold Reactor.ageOut
        dsimp only
        split
        · exact if_neg (by simp [Reactor.setConn, waits.busy])
        · rfl
      rw [aged, Reactor.sweepHttp, if_neg (by simp [Reactor.setConn, waits.busy])]
      exact sweepIdle_closes armed waits.bodyPending late
    · rw [Reactor.sweepHttp, if_neg (by simp [waits.busy])]
      exact sweepIdle_closes armed waits.bodyPending late

end Front

/-- The header timeout is absolute in every run that leaves no byte waiting without a stamp:
whatever waits for `headerTimeoutMs` to become a complete head is closed by the sweep. -/
theorem header_timeout_absolute (env : Env) (inet : Inet) (s₀ s : Front)
    (accepted : Front.Accepted s₀) (armed : 0 < env.cfg.headerTimeoutMs)
    (run : Reaches (stepOf (Front.step env inet)) (fun s a => s.timely env inet a = true) s₀ s)
    (waits : s.reactor.Waits) (cut : s.incomplete env inet = true) (t : Nat)
    (oldest : s.times.head? = some t)
    (old : env.cfg.headerTimeoutMs ≤ (s.reactor.clock : Int) - t) :
    (s.reactor.onSweep env).conn.closing = true := by
  have tended : Front.Tended env inet s :=
    run.invariant accepted.tended fun _ _ _ h ok hs => h.step ok hs
  exact tended.sweeps armed waits cut oldest old

/-! ### Runs -/

/-- A server that waits 4 s for a head. -/
def impatientEnv : Env := { sampleEnv with cfg := { headerTimeoutMs := 4000 } }

/-- A socket library that takes every address as it is written. -/
def sampleInet : Inet := ⟨fun _ bytes => bytes, fun _ _ => true⟩

/-- A connection just accepted behind a balancer. -/
def proxied : Front := ⟨sampleConn, [], false, []⟩

theorem proxied_accepted : Front.Accepted proxied := ⟨sampleConn_fresh, rfl, rfl, rfl⟩

instance (r : Reactor) : Decidable r.Waits :=
  decidable_of_iff (r.conn.busy = false ∧ r.conn.closing = false ∧ r.conn.bodyPending = false ∧
    r.conn.streamingBody = false ∧ r.conn.h2 = false ∧ r.conn.ws = false)
    ⟨fun h => ⟨h.1, h.2.1, h.2.2.1, h.2.2.2.1, h.2.2.2.2.1, h.2.2.2.2.2⟩,
      fun h => ⟨h.busy, h.closing, h.bodyPending, h.streaming, h.h2, h.ws⟩⟩

/-- A whole PROXY header, then a request head that trickles in. -/
theorem header_timeout_absolute_request :
    ∃ s, Reaches (stepOf (Front.step impatientEnv sampleInet))
        (fun s a => s.timely impatientEnv sampleInet a = true) proxied s ∧
      s.times.head? = some 1000 ∧ s.reactor.clock = 5000 ∧
      (s.reactor.onSweep impatientEnv).conn.closing = true := by
  obtain ⟨s, run, waits, cut, oldest, now⟩ := exec_any
    (f := guarded (fun s a => Front.timely impatientEnv sampleInet s a = true)
      (Front.step impatientEnv sampleInet)) (s := proxied)
    (p := fun s => s.reactor.Waits ∧ s.incomplete impatientEnv sampleInet = true ∧
      s.times.head? = some 1000 ∧ s.reactor.clock = 5000)
    (show (exec _ [.header (ascii "PROXY UNKNOWN\r\n") false, .act (.tick 1000),
      .act (.read (ascii "GET / HT")), .act (.tick 3000), .act (.read (ascii "TP/1.1\r\n")),
      .act (.tick 1000)] _).any _ = true by decide +kernel)
  refine ⟨s, exec_guarded run, oldest, now, ?_⟩
  refine header_timeout_absolute impatientEnv sampleInet proxied s proxied_accepted (by decide)
    (exec_guarded run) waits cut 1000 oldest ?_
  rw [now]
  decide

/-- A PROXY header that arrives byte by byte is waited for: the idle timer starts again with
every byte. -/
theorem header_timeout_trickle :
    ¬ ∀ env inet s₀ s t, Front.Accepted s₀ → 0 < env.cfg.headerTimeoutMs →
      Reaches (stepOf (Front.step env inet)) anyStep s₀ s → s.reactor.Waits →
      s.incomplete env inet = true → s.times.head? = some t →
      env.cfg.headerTimeoutMs ≤ (s.reactor.clock : Int) - t →
      (s.reactor.onSweep env).conn.closing = true := by
  intro claim
  obtain ⟨s, run, waits, cut, oldest, now, stays⟩ := exec_any
    (f := Front.step impatientEnv sampleInet) (s := proxied)
    (p := fun s => s.reactor.Waits ∧ s.incomplete impatientEnv sampleInet = true ∧
      s.times.head? = some 0 ∧ s.reactor.clock = 6000 ∧
      (s.reactor.onSweep impatientEnv).conn.closing = false)
    (show (exec _ [.header (ascii "P") false, .act (.tick 3000), .header (ascii "R") false,
      .act (.tick 3000)] _).any _ = true by decide +kernel)
  have closes := claim impatientEnv sampleInet proxied s 0 proxied_accepted (by decide)
    (exec_reaches run) waits cut oldest (by rw [now]; decide)
  exact absurd (stays.symm.trans closes) (by simp)

end NitroServer.Engine
