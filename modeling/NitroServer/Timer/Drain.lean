/-
Draining: `beginDrain` and the sweeps after it.

An HTTP/1.1 connection that parses a request while the server drains answers it with
`Connection: close`, so it parses no other. The lane machine carries the argument: once a
request that does not keep the connection is dispatched, the gate stays shut
(`Lane.Shut`). An HTTP/2 connection gets GOAWAY at its next sweep, and is closed as soon
as it has no stream open; until then its streams go on.

* `Lane.Drained` — the invariant of a lane since the drain began.
* `drain_converges` — both kinds of connection.
* `h2_streams_finish` — an HTTP/2 connection may dispatch several requests after GOAWAY.
-/

import NitroServer.Lane.Discipline
import NitroServer.Lane.Wakeup
import NitroServer.Outlet.Accounts
import NitroServer.H2.Session

namespace NitroServer.Engine

open NitroServer.Lib

/-! ### Lanes since the drain began -/

/-- A whole answer the engine makes for a request it does not dispatch. -/
def Piece.isDirect (p : Piece) : Bool :=
  p.part == .whole && (p.origin == .engine || p.origin == .fixed)

def Mark.isDispatch : Mark → Bool
  | .dispatch _ => true
  | _ => false

/-- What is admitted while the server drains: no answer keeps the connection, and the
engine's own say so. -/
def Lane.Closes (_ : Lane) : Move → Prop
  | .answer p keepAlive => keepAlive = false ∧ closeLine <:+: p.bytes
  | .dispatch _ keepAlive => keepAlive = false
  | _ => True

namespace Lane

/-- No answer call puts an engine answer into the inbox. -/
def Indirect (l : Lane) : Prop := ∀ e ∈ l.queue, e.piece.isDirect = false

/-- The request at hand, if any, does not keep the connection. -/
structure Last (l : Lane) : Prop where
  reqs : ∀ e ∈ l.reqs, e.2.keepAlive = false
  queue : ∀ e ∈ l.queue, e.piece.part ≠ .raw → e.keepAlive = false

/-- The marks since the drain began (`base` are those before): the engine's answers say
close, and at most one request was dispatched, after which the gate is shut for good. -/
structure Drained (base : List Mark) (l : Lane) : Prop where
  sound : l.Sound
  inbox : l.Indirect
  since : ∃ new, l.marks = base ++ new ∧
    (∀ p, Mark.piece p ∈ new → p.isDirect = true → closeLine <:+: p.bytes) ∧
    (new.countP Mark.isDispatch = 0 ∨ new.countP Mark.isDispatch = 1 ∧ l.Shut ∧ l.Last)

theorem isDirect_of_shaped {e : Pending} {id : Nat} {loc : ReqLoc}
    (shaped : e.shaped id loc = true) : e.piece.isDirect = false := by
  simp only [Pending.shaped, Bool.and_eq_true, beq_iff_eq] at shaped
  simp [Piece.isDirect, shaped.1.1.1]

theorem Indirect.push {l : Lane} (h : l.Indirect) {e : Pending} (other : e.piece.isDirect = false)
    {l' : Lane} (queue : l'.queue = l.queue ++ [e]) : l'.Indirect := by
  intro e' mem
  rw [queue] at mem
  rcases List.mem_append.mp mem with mem | mem
  · exact h e' mem
  · obtain rfl := List.mem_singleton.mp mem
    exact other

/-- What comes into the inbox is no engine answer. -/
theorem Step.indirect {l l' : Lane} {m : Move} (hstep : l.Step m l') (h : l.Indirect) :
    l'.Indirect := by
  cases hstep with
  | push found shaped => exact h.push (isDirect_of_shaped shaped) rfl
  | pushLast found shaped => exact h.push (isDirect_of_shaped shaped) rfl
  | sessionPush ws part => exact h.push (by simp [Piece.isDirect, part]) rfl
  | drop queue => exact fun e mem => h e (queue ▸ List.mem_cons_of_mem _ mem)
  | drain queue => exact fun e mem => h e (queue ▸ List.mem_cons_of_mem _ mem)
  | drainFile queue => exact fun e mem => h e (queue ▸ List.mem_cons_of_mem _ mem)
  | _ => exact h

theorem Last.shaped {l : Lane} (h : l.Last) {id : Nat} {loc : ReqLoc} {e : Pending}
    (found : l.find id = some loc) (shaped : e.shaped id loc = true) : e.keepAlive = false := by
  obtain ⟨q, mem, rfl⟩ := mem_of_find found
  simp only [Pending.shaped, Bool.and_eq_true, beq_iff_eq] at shaped
  exact shaped.1.2.trans (h.reqs q mem)

theorem Last.push {l l' : Lane} (h : l.Last) {e : Pending}
    (closes : e.piece.part ≠ .raw → e.keepAlive = false) (queue : l'.queue = l.queue ++ [e])
    (reqs : ∀ q ∈ l'.reqs, q ∈ l.reqs) : l'.Last := by
  refine ⟨fun q mem => h.reqs q (reqs q mem), fun e' mem => ?_⟩
  rw [queue] at mem
  rcases List.mem_append.mp mem with mem | mem
  · exact h.queue e' mem
  · obtain rfl := List.mem_singleton.mp mem
    exact closes

/-- A request that closes stays so, and so do its answers. -/
theorem Step.last {l l' : Lane} {m : Move} (hstep : l.Step m l') (h : l.Last) (shut : ¬ l.open) :
    l'.Last := by
  have fewer : ∀ id, ∀ q ∈ (l.erase id).reqs, q ∈ l.reqs :=
    fun id q mem => (List.mem_filter.mp mem).1
  cases hstep with
  | dispatch gate | dispatchStream gate | refuseUpload gate => exact absurd gate.1 shut
  | leave => exact ⟨fun q mem => (List.not_mem_nil mem).elim, h.queue⟩
  | abort => exact ⟨fun q mem => h.reqs q (fewer _ q mem), h.queue⟩
  | timeOut => exact ⟨fun q mem => h.reqs q (fewer _ q mem), h.queue⟩
  | silence => exact ⟨fun q mem => h.reqs q (fewer _ q mem), h.queue⟩
  | flip =>
      refine ⟨fun q mem => ?_, h.queue⟩
      obtain ⟨q', mem', rfl⟩ := List.mem_map.mp mem
      split
      · rfl
      · exact h.reqs q' mem'
  | push found shaped =>
      exact h.push (fun _ => h.shaped found shaped) rfl fun q mem => mem
  | pushLast found shaped =>
      exact h.push (fun _ => h.shaped found shaped) rfl (fewer _)
  | sessionPush ws part => exact h.push (fun other => absurd part other) rfl fun q mem => mem
  | drop queue => exact ⟨h.reqs, fun e mem => h.queue e (queue ▸ List.mem_cons_of_mem _ mem)⟩
  | drain queue => exact ⟨h.reqs, fun e mem => h.queue e (queue ▸ List.mem_cons_of_mem _ mem)⟩
  | drainFile queue =>
      exact ⟨h.reqs, fun e mem => h.queue e (queue ▸ List.mem_cons_of_mem _ mem)⟩
  | _ => exact ⟨h.reqs, h.queue⟩

namespace Drained

variable {base : List Mark} {l l' : Lane} {m : Move}

/-- A move that dispatches nothing. -/
theorem extend {add : List Mark} (h : l.Drained base) (hstep : l.Step m l')
    (marks : l'.marks = l.marks ++ add)
    (told : ∀ p, Mark.piece p ∈ add → p.isDirect = true → closeLine <:+: p.bytes)
    (none : add.countP Mark.isDispatch = 0) : l'.Drained base := by
  obtain ⟨new, since, spoken, once⟩ := h.since
  refine ⟨hstep.sound h.sound, hstep.indirect h.inbox, new ++ add,
    by rw [marks, since, List.append_assoc], fun p mem => ?_, ?_⟩
  · exact (List.mem_append.mp mem).elim (spoken p) (told p)
  · rw [List.countP_append, none, Nat.add_zero]
    refine once.imp_right fun one => ⟨one.1, hstep.shut one.2.1, ?_⟩
    exact hstep.last one.2.2 one.2.1.not_open

/-- A move that writes pieces which are not the engine's. -/
theorem writes {ps : List Piece} (h : l.Drained base) (fin : Option Bool) (hstep : l.Step m l')
    (marks : l'.marks = l.marks ++ (ps.map .piece ++ fin.toList.map .finish))
    (other : ∀ p ∈ ps, p.isDirect = false) : l'.Drained base := by
  refine h.extend hstep marks (fun p mem direct => ?_) ?_
  · simp only [List.mem_append, List.mem_map, Mark.piece.injEq, exists_eq_right, reduceCtorEq,
      and_false, exists_false, or_false] at mem
    exact absurd direct (by simp [other p mem])
  · rw [List.countP_eq_zero]
    intro mark mem
    simp only [List.mem_append, List.mem_map] at mem
    obtain ⟨p, -, rfl⟩ | ⟨ka, -, rfl⟩ := mem <;> simp [Mark.isDispatch]

/-- The marks stay. -/
theorem silent (h : l.Drained base) (hstep : l.Step m l') (marks : l'.marks = l.marks) :
    l'.Drained base :=
  h.extend hstep (marks.trans (List.append_nil _).symm) (by simp) rfl

/-- A request is dispatched at an open gate, and does not keep the connection: the first
since the drain began, and the last. -/
theorem dispatches {add : List Mark} (h : l.Drained base) (hstep : l.Step m l') (gate : l.ready)
    (marks : l'.marks = l.marks ++ Mark.dispatch l.nextId :: add)
    (told : ∀ p, Mark.piece p ∈ add → p.isDirect = false)
    (none : add.countP Mark.isDispatch = 0) (busy : l'.busy = true)
    (reqs : ∀ e ∈ l'.reqs, e ∈ l.reqs ∨ e.2.keepAlive = false) (queue : l'.queue = l.queue)
    (file : l'.file = l.file) (finishing : true ∈ l'.finishing → true ∈ l.finishing) :
    l'.Drained base := by
  obtain ⟨new, since, spoken, once⟩ := h.since
  have zero : new.countP Mark.isDispatch = 0 :=
    once.resolve_right fun one => one.2.1.not_open gate.1
  have parting := h.sound.parting_of_open gate.1.1
  have empty : l.queue = [] := (h.sound.of_open gate.1.1).2.1
  have closing : ∀ e ∈ l'.reqs, e.2.keepAlive = false :=
    fun e mem => (reqs e mem).elim (parting.reqs e) fun off => off
  refine ⟨hstep.sound h.sound, hstep.indirect h.inbox, new ++ Mark.dispatch l.nextId :: add,
    by rw [marks, since, List.append_assoc], fun p mem direct => ?_, .inr ⟨?_, ?_, ?_⟩⟩
  · rcases List.mem_append.mp mem with mem | mem
    · exact spoken p mem direct
    · rcases List.mem_cons.mp mem with same | mem
      · cases same
      · exact absurd direct (by simp [told p mem])
  · rw [List.countP_append, zero, List.countP_cons_of_pos rfl, none]
  · refine .inr ⟨busy, .inr ⟨closing, ?_, ?_, mt finishing parting.finishing⟩⟩
    · rw [queue]
      exact parting.queue
    · rw [file]
      exact parting.file
  · refine ⟨closing, fun e mem => ?_⟩
    rw [queue, empty] at mem
    cases mem

end Drained

/-- Every move admitted while the server drains. -/
theorem Step.drained {base : List Mark} {l l' : Lane} {m : Move} (hstep : l.Step m l')
    (h : l.Drained base) (closes : l.Closes m) : l'.Drained base := by
  have single : ∀ {p : Piece}, p.isDirect = false → ∀ q ∈ [p], q.isDirect = false := by
    intro p other q mem
    rwa [List.mem_singleton.mp mem]
  cases hstep with
  | interim gate part =>
      refine h.writes none (.interim gate part) rfl (single ?_)
      simp [Piece.isDirect, part]
  | @answer p ka gate part origin opens =>
      refine h.extend (.answer gate part origin opens) rfl (fun q mem _ => ?_) rfl
      obtain rfl : q = p := by simpa using mem
      exact closes.2
  | @dispatch isHead ka gate =>
      refine h.dispatches (.dispatch gate) gate rfl (by simp) rfl rfl (fun e mem => ?_) rfl rfl
        fun mem => mem
      refine (List.mem_append.mp mem).imp_right fun mem => ?_
      rw [List.mem_singleton.mp mem]
      exact closes
  | @dispatchStream isHead ka gate =>
      refine h.dispatches (.dispatchStream gate) gate rfl (by simp) rfl rfl (fun e mem => ?_) rfl
        rfl fun mem => mem
      refine (List.mem_append.mp mem).imp_right fun mem => ?_
      rw [List.mem_singleton.mp mem]
      exact closes
  | @refuseUpload p gate part origin opens =>
      refine h.dispatches (.refuseUpload gate part origin opens) gate (List.append_assoc ..)
        (fun q mem => ?_) rfl rfl (fun e mem => ?_) rfl rfl fun mem => ?_
      · obtain rfl : q = p := by simpa using mem
        simp [Piece.isDirect, origin]
      · exact (List.mem_append.mp mem).imp_right fun mem => (List.not_mem_nil mem).elim
      · simpa [Lane.write, Lane.register] using mem
  | @upgrade p gate part origin opens =>
      refine h.extend (.upgrade gate part origin opens) (List.append_assoc ..)
        (fun q mem direct => ?_) rfl
      obtain rfl : q = p := by simpa using mem
      simp [Piece.isDirect, origin] at direct
  | guard busy http part origin opens =>
      refine h.writes (some false) (.guard busy http part origin opens) rfl (single ?_)
      simp [Piece.isDirect, origin]
  | abort upload part origin opens =>
      refine h.writes (some false) (.abort upload part origin opens) rfl (single ?_)
      simp [Piece.isDirect, origin]
  | timeOut inFlight found part origin opens =>
      refine h.writes (some false) (.timeOut inFlight found part origin opens) rfl
        (single ?_)
      simp [Piece.isDirect, origin]
  | push found shaped more =>
      exact h.extend (.push found shaped more) rfl (by simp) rfl
  | pushLast found shaped last =>
      exact h.extend (.pushLast found shaped last) rfl (by simp) rfl
  | @drain e rest queue live gate file =>
      exact h.writes _ (.drain queue live gate file) rfl
        (single (h.inbox e (queue ▸ List.mem_cons_self)))
  | @drainFile e f rest queue live gate file =>
      exact h.writes none (.drainFile queue live gate file) rfl
        (single (h.inbox e (queue ▸ List.mem_cons_self)))
  | fileChunk file gate origin part =>
      refine h.writes none (.fileChunk file gate origin part) rfl (single ?_)
      simp [Piece.isDirect, part]
  | @fileEnd p f file gate origin part =>
      refine h.writes (some f.keepAlive) (.fileEnd file gate origin part) rfl (single ?_)
      simp [Piece.isDirect, part]
  | sessionWrite ws part =>
      refine h.writes none (.sessionWrite ws part) rfl (single ?_)
      simp [Piece.isDirect, part]
  | sessionClose ws part =>
      refine h.writes (some false) (.sessionClose ws part) rfl (single ?_)
      simp [Piece.isDirect, part]
  | sessionPush ws part file closing =>
      exact h.extend (.sessionPush ws part file closing) rfl (by simp) rfl
  | endUpload => exact h.silent .endUpload rfl
  | close => exact h.silent .close rfl
  | leave http shut => exact h.silent (.leave http shut) rfl
  | leaveSession ws shut => exact h.silent (.leaveSession ws shut) rfl
  | silence inFlight => exact h.silent (.silence inFlight) rfl
  | flip => exact h.silent .flip rfl
  | drop queue shut => exact h.silent (.drop queue shut) rfl
  | landed finishing gate => exact h.silent (.landed finishing gate) rfl
  | landedLast finishing shut => exact h.silent (.landedLast finishing shut) rfl
  | lost finishing => exact h.silent (.lost finishing) rfl
  | fileLost => exact h.silent .fileLost rfl
  | skipId => exact h.silent .skipId rfl

end Lane

/-! ### HTTP/1.1 -/

section Runs

variable {env : Env} {r r' t : Reactor} {a : Act}

/-- The answers a draining server starts close. -/
theorem admits_closes : Admits Lane.Closes where
  plain l m plain := by
    cases m with
    | answer p ka => cases plain
    | dispatch isHead ka =>
        cases ka with
        | true => cases plain
        | false => rfl
    | _ => trivial
  closes l p line := ⟨rfl, line⟩

/-- A step of a draining server. -/
theorem step_closes (hwf : r.WF) (on : r.draining = true) (h : step env r a = some r') :
    Reaches Lane.Step Lane.Closes r.lane r'.lane ∧ r'.WF :=
  step_lane env admits_closes hwf
    ⟨fun _ _ _ _ => trivial, fun _ _ _ _ => trivial, fun _ _ _ _ _ _ _ _ => trivial,
      fun _ _ _ _ => trivial, fun _ _ _ _ _ _ => trivial⟩
    (fun off => absurd (on.symm.trans off) (by decide)) h

/-- What holds of a connection from the start. -/
structure Reactor.Watched (r : Reactor) : Prop where
  wf : r.WF
  laden : r.Laden
  inbox : r.lane.Indirect

theorem Reactor.Watched.step (h : r.Watched) (hstep : step env r a = some r') : r'.Watched := by
  obtain ⟨run, wf⟩ := step_moves env h.wf hstep
  have lasts : Lasts r r' := turn_lasts (a := .act a) h.laden hstep
  exact ⟨wf, lasts.laden h.laden,
    run.invariant h.inbox fun _ _ _ hi _ hl => hl.indirect hi⟩

theorem Fresh.kept (h : Fresh r) : r.Watched where
  wf := h.wf
  laden e mem own := absurd own (h.queue e mem)
  inbox := by simp [Lane.Indirect, h.lane]

/-- What holds of it since the drain began. -/
structure Reactor.Drains (base : List Mark) (r : Reactor) : Prop where
  kept : r.Watched
  on : r.draining = true
  lane : r.lane.Drained base

theorem Reactor.Drains.step {base : List Mark} (h : r.Drains base)
    (hstep : Engine.step env r a = some r') : r'.Drains base where
  kept := h.kept.step hstep
  on := (turn_lasts (a := .act a) h.kept.laden hstep).draining h.on
  lane := (step_closes h.kept.wf h.on hstep).1.invariant h.lane
    fun _ _ _ hd closes hl => hl.drained hd closes

theorem Reactor.Watched.drains (h : r.Watched) :
    Reactor.Drains r.lane.marks { r with draining := true } where
  kept := ⟨⟨h.wf.others, h.wf.own, h.wf.session, h.wf.sound⟩, h.laden, h.inbox⟩
  on := rfl
  lane := ⟨h.wf.sound, h.inbox, [], (List.append_nil _).symm, by simp, .inl rfl⟩

/-- An HTTP/1.1 connection after `beginDrain`: at most one request is dispatched, the heads
of its answer say close, and so do the engine's own answers. -/
theorem http1_drains {r₀ : Reactor} (fresh : Fresh r₀)
    (run : Reaches (stepOf (step env)) anyStep r₀ r)
    (drain : step env r .beginDrain = some r')
    (rest : Reaches (stepOf (step env)) anyStep r' t) :
    ∃ new, t.lane.marks = r.lane.marks ++ new ∧ new.countP Mark.isDispatch ≤ 1 ∧
      (∀ p, Mark.piece p ∈ new → p.part = .whole → p.origin = .engine ∨ p.origin = .fixed →
        closeLine <:+: p.bytes) ∧
      (0 < new.countP Mark.isDispatch → ∀ e ∈ t.queue, e.connId = t.conn.id →
        e.piece.part = .whole ∨ e.piece.part = .head →
          e.keepAlive = false ∧ closeLine <:+: e.piece.bytes) := by
  have kept : r.Watched := run.invariant fresh.kept fun _ _ _ h _ hstep => h.step hstep
  obtain rfl : { r with draining := true } = r' := Option.some.inj drain
  have drains : t.Drains r.lane.marks :=
    rest.invariant kept.drains fun _ _ _ h _ hstep => h.step hstep
  obtain ⟨new, since, spoken, once⟩ := drains.lane.since
  refine ⟨new, since, by omega, fun p mem part origin => spoken p mem ?_, fun some e mem own head => ?_⟩
  · simpa [Piece.isDirect, part] using origin
  · obtain ⟨-, -, last⟩ := once.resolve_left some.ne'
    have mine : e ∈ t.lane.queue := List.mem_filter.mpr ⟨mem, by simpa using own⟩
    have closes := last.queue e mine (by rcases head with head | head <;> simp [head])
    exact ⟨closes, (drains.kept.laden e mem own).closes head closes⟩

end Runs

/-! ### HTTP/2 -/

/-- An HTTP/2 connection: the handle and its session. -/
structure H2Conn where
  reactor : Reactor
  session : H2.Session

/-- What the reactor asks of nghttp2: `nghttp2_session_want_read` and
`nghttp2_session_want_write`, and what `pump` has to send after the session went from one
state to another. -/
structure Nghttp2 where
  wantRead : H2.Session → Bool
  wantWrite : H2.Session → Bool
  sends : H2.Session → H2.Session → Bytes

/-- GOAWAY was sent and every stream is handled: nghttp2 is done with the session. -/
def Nghttp2.Finishes (lib : Nghttp2) : Prop :=
  ∀ s : H2.Session, s.goawaySent = true → s.streams.entries = [] →
    lib.wantRead s = false ∧ lib.wantWrite s = false

namespace H2Conn

variable (lib : Nghttp2) (env : Env)

/-- A request whose handler missed its deadline leaves the table. -/
def expire (r : Reactor) (id : Nat) : Reactor :=
  if (r.findReq id).isSome then (r.eraseReq id).broadcastEvent .handlerTimeout id "handler timed out"
  else r

/-- The session, moved on, sends what it has to send. -/
def pump (c : H2Conn) (s : H2.Session) : H2Conn :=
  ⟨c.reactor.writeRaw env (h2Piece (lib.sends c.session s)), s⟩

/-- The sweep, the write timeout and the age limit aside. -/
def sweepSession (c : H2Conn) : H2Conn :=
  let c := if c.reactor.draining then c.pump lib env c.session.goAway else c
  let swept := c.session.sweep c.reactor.clock (Reactor.bodyMs env)
  let expired := swept.expired.drop c.session.expired.length
  let c := c.pump lib env swept
  let r := expired.foldl expire c.reactor
  if !lib.wantRead swept && !lib.wantWrite swept then ⟨r.closeConn, swept⟩
  else if swept.streams.entries ≠ [] then ⟨r, swept⟩
  else if r.conn.ageExpired then ⟨r.closeConn, swept⟩
  else ⟨r.sweepHttp env, swept⟩

/-- `onSweep` on an HTTP/2 connection. -/
def onSweep (c : H2Conn) : H2Conn :=
  let r := c.reactor
  if r.conn.closing then c
  else if 0 < r.conn.writePending ∧ r.elapsed r.conn.writeStartedAt (Reactor.writeMs env) then
    ⟨(r.broadcastEvent .clientError r.conn.id "write timed out").closeConn, c.session⟩
  else if decide (0 < env.cfg.maxConnectionAgeMs) && !r.conn.ageExpired &&
      r.elapsed r.conn.openedAt env.cfg.maxConnectionAgeMs then
    (H2Conn.pump lib env ⟨r.ageOut, c.session⟩ c.session.goAway).sweepSession lib env
  else c.sweepSession lib env

end H2Conn

section H2Sweep

variable {lib : Nghttp2} {env : Env} {c : H2Conn}

theorem goAway_sent {s : H2.Session} (live : s.stopped = false) :
    s.goAway.goawaySent = true ∧ s.goAway.streams = s.streams ∧ s.goAway.stopped = false := by
  unfold H2.Session.goAway
  split
  · rename_i sent
    exact ⟨sent.resolve_right (by simp [live]), rfl, live⟩
  · exact ⟨rfl, rfl, live⟩

/-- A session without a stream is left alone by its own sweep. -/
theorem sweep_empty {s : H2.Session} (empty : s.streams.entries = []) (now stall : Int) :
    s.sweep now stall = s := by
  unfold H2.Session.sweep
  rw [empty]
  split <;> rfl

theorem sweepSession_closes (finishes : lib.Finishes) (draining : c.reactor.draining = true)
    (live : c.session.stopped = false) (empty : c.session.streams.entries = []) :
    (c.sweepSession lib env).reactor.conn.closing = true := by
  obtain ⟨sent, streams, -⟩ := goAway_sent live
  have none : c.session.goAway.streams.entries = [] := by rw [streams, empty]
  obtain ⟨noRead, noWrite⟩ := finishes _ sent none
  unfold H2Conn.sweepSession
  simp only [draining, if_true]
  rw [if_pos]
  · exact Reactor.closeConn_closing _
  · simp only [H2Conn.pump, sweep_empty none, noRead, noWrite, Bool.not_false, Bool.and_self]

/-- The sweep of a draining server closes an HTTP/2 connection without open streams. -/
theorem h2_sweep_closes (finishes : lib.Finishes) (draining : c.reactor.draining = true)
    (live : c.session.stopped = false) (empty : c.session.streams.entries = []) :
    (c.onSweep lib env).reactor.conn.closing = true := by
  unfold H2Conn.onSweep
  dsimp only
  split
  · assumption
  · split
    · exact Reactor.closeConn_closing _
    · split
      · obtain ⟨-, streams, live'⟩ := goAway_sent live
        refine sweepSession_closes finishes ?_ live' (by rw [← empty, ← streams]; rfl)
        have aged : c.reactor.ageOut.draining = c.reactor.draining := by
          unfold Reactor.ageOut
          dsimp only
          split
          · split <;> rfl
          · rfl
        have pumped : Writes env c.reactor.ageOut (c.reactor.ageOut.writeRaw env
            (h2Piece (lib.sends c.session c.session.goAway))) := Reactor.writes_writeRaw _
        exact pumped.frame.2.2.trans (aged.trans draining)
      · exact sweepSession_closes finishes draining live empty

end H2Sweep

/-! ### Both -/

/-- While the server drains, the sweep closes every HTTP/2 connection without open streams.
An HTTP/1.1 connection dispatches at most one more request after `beginDrain`; the heads of
its answer say close, and so do the engine's own answers to what is parsed after it. -/
theorem drain_converges (env : Env) :
    (∀ (lib : Nghttp2) (c : H2Conn), lib.Finishes → c.reactor.draining = true →
      c.session.stopped = false → c.session.streams.entries = [] →
        (c.onSweep lib env).reactor.conn.closing = true) ∧
    ∀ r₀ r r' t : Reactor, Fresh r₀ → Reaches (stepOf (step env)) anyStep r₀ r →
      step env r .beginDrain = some r' → Reaches (stepOf (step env)) anyStep r' t →
      ∃ new, t.lane.marks = r.lane.marks ++ new ∧ new.countP Mark.isDispatch ≤ 1 ∧
        (∀ p, Mark.piece p ∈ new → p.part = .whole → p.origin = .engine ∨ p.origin = .fixed →
          closeLine <:+: p.bytes) ∧
        (0 < new.countP Mark.isDispatch → ∀ e ∈ t.queue, e.connId = t.conn.id →
          e.piece.part = .whole ∨ e.piece.part = .head →
            e.keepAlive = false ∧ closeLine <:+: e.piece.bytes) := by
  refine ⟨fun lib c finishes draining live empty => ?_, fun r₀ r r' t fresh run drain rest => ?_⟩
  · exact h2_sweep_closes finishes draining live empty
  · exact http1_drains fresh run drain rest

/-- nghttp2 on a session without streams: it is done once GOAWAY is out, which takes one
frame. -/
def idleNghttp2 : Nghttp2 where
  wantRead s := !(s.goawaySent && s.streams.entries.isEmpty)
  wantWrite s := !(s.goawaySent && s.streams.entries.isEmpty)
  sends s s' := if !s.goawaySent && s'.goawaySent then [0, 0, 8, 7] ++ List.replicate 13 0 else []

/-- `GET /` after the drain began, answered but not written yet. -/
def lastRequest : List Act :=
  [.read (ascii "GET / HTTP/1.1\r\nHost: a\r\n\r\n"), .respond 1 200 [] (ascii "A")]

theorem drain_converges_last :
    (H2Conn.onSweep idleNghttp2 sampleEnv
      ⟨{ sampleConn with draining := true }, {}⟩).reactor.conn.closing = true ∧
    ∃ t, exec (step sampleEnv) lastRequest { sampleConn with draining := true } = some t ∧
      t.queue.length = 1 ∧
      ∃ new, t.lane.marks = sampleConn.lane.marks ++ new ∧ new.countP Mark.isDispatch ≤ 1 ∧
        (0 < new.countP Mark.isDispatch → ∀ e ∈ t.queue, e.connId = t.conn.id →
          e.piece.part = .whole ∨ e.piece.part = .head →
            e.keepAlive = false ∧ closeLine <:+: e.piece.bytes) := by
  obtain ⟨sweeps, drains⟩ := drain_converges sampleEnv
  refine ⟨sweeps _ _ (fun s sent empty => ?_) rfl rfl rfl, ?_⟩
  · simp [idleNghttp2, sent, empty]
  · obtain ⟨t, run, queued⟩ := exec_any (f := step sampleEnv) (s := { sampleConn with draining := true })
      (p := fun t => t.queue.length = 1)
      (show (exec _ lastRequest _).any _ = true by
        rw [lastRequest]
        repeat rw [ascii_ofList]
        decide +kernel)
    obtain ⟨new, since, once, -, told⟩ := drains sampleConn sampleConn _ t sampleConn_fresh .refl rfl
      (exec_reaches run)
    exact ⟨t, run, queued, new, since, once, told⟩

/-- The requests a session has handed to the emitter. -/
def dispatchedH2 (s : H2.Session) : Nat :=
  s.emits.countP fun
    | .head .. => true
    | _ => false

/-- Two uploads begun before GOAWAY. -/
def twoUploads : List H2.Event :=
  [.beginHeaders 1 .request 0, .header 1 .request (ascii ":method") (ascii "POST"),
    .frame ⟨.headers .request, 1, false⟩ 0 true,
    .beginHeaders 3 .request 0, .header 3 .request (ascii ":method") (ascii "POST"),
    .frame ⟨.headers .request, 3, false⟩ 0 true]

/-- Both end after it, and both are dispatched. -/
def bothEnd : List H2.Event := [.frame ⟨.data, 1, true⟩ 0 true, .frame ⟨.data, 3, true⟩ 0 true]

/-- An HTTP/2 connection dispatches more than one request after the drain began: the streams
open at GOAWAY finish. -/
theorem h2_streams_finish :
    ¬ ∀ (cfg : H2.Setup) (w w₁ t : H2.World), H2.Reachable cfg w →
      H2.step cfg w .goAway = some w₁ → Reaches (stepOf (H2.step cfg)) anyStep w₁ t →
      dispatchedH2 t.session ≤ dispatchedH2 w.session + 1 := by
  intro claim
  obtain ⟨w, opened, none⟩ := exec_any (f := H2.step ⟨sampleRouter, -1, 0, 0⟩) (s := {})
    (p := fun w => dispatchedH2 w.session = 0 ∧
      (exec (H2.step ⟨sampleRouter, -1, 0, 0⟩) (.goAway :: bothEnd) w).any
        (fun t => decide (dispatchedH2 t.session = 2)) = true)
    (show (exec _ twoUploads _).any _ = true by decide +kernel)
  obtain ⟨t, run, two⟩ := exec_any (p := fun t : H2.World => dispatchedH2 t.session = 2) none.2
  obtain ⟨w₁, drain, rest⟩ := Option.bind_eq_some_iff.mp run
  have atMost := claim _ w w₁ t (exec_reaches opened) drain (exec_reaches rest)
  rw [two, none.1] at atMost
  exact absurd atMost (by decide)

end NitroServer.Engine
