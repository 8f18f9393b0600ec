/-
The write timeout.

The sweep closes a connection whose `writeStartedAt` is a write timeout back while bytes
are pending. The stamp is set when the pending count leaves zero and at no other time, so
it is the issue time of the oldest outstanding write only as long as that write is followed
by one of the same moment. `Timed` keeps the issue time of every outstanding write beside
the connection; writes land in the order of their issue.

* `write_timeout_stuck` — in a run where each completion hands over to a write of the same
  moment, or to none, the timeout fires only when an outstanding write is old enough.
* `write_timeout_premature` — otherwise it fires on a stream whose only outstanding write
  is young.
-/

import NitroServer.Outlet.Accounts

namespace NitroServer.Engine

open NitroServer.Lib

/-! ### Issue times -/

/-- A connection, and when each of its outstanding writes was issued. -/
structure Timed where
  reactor : Reactor
  issued : List Nat := []
deriving DecidableEq, Repr

/-- A turn: what it completes leaves the list, what it issues joins with the time of the
turn. -/
def timed (env : Env) (s : Timed) (a : Turn) : Option Timed :=
  (turn env s.reactor a).map fun r =>
    let kept := if a.lands then s.issued.tail else s.issued
    ⟨r, kept ++ List.replicate (r.conn.writes.length - kept.length) s.reactor.clock⟩

/-- The write at hand is followed by one of the same moment, or by none. -/
def sameMoment : List Nat → Bool
  | t :: next :: _ => next == t
  | _ => true

/-- A completion hands over to a write of the same moment. -/
def Timed.handsOver (s : Timed) (a : Turn) : Bool := !a.lands || sameMoment s.issued

/-- `writeStartedAt` is the issue time of the oldest outstanding write. -/
structure Anchored (env : Env) (s : Timed) : Prop where
  accounted : Accounted env s.reactor
  plain : s.reactor.conn.tls = false
  length : s.issued.length = s.reactor.conn.writes.length
  anchor : ∀ t ∈ s.issued.head?, s.reactor.conn.writeStartedAt = t

namespace Anchored

variable {env : Env} {s s' : Timed} {r r' : Reactor} {a : Turn}

theorem issued {kept : List Nat} {new : List WriteCtx} (h : Anchored env ⟨r, kept⟩)
    (laden : r'.Laden) (hi : Issued r r' new) :
    Anchored env ⟨r', kept ++ List.replicate (r'.conn.writes.length - kept.length) r.clock⟩ := by
  have count : r'.conn.writes.length - kept.length = new.length := by
    have := h.length
    simp only [hi.writes, List.length_append] at this ⊢
    omega
  rw [count]
  refine ⟨h.accounted.issued laden hi, hi.tls.trans h.plain, ?_, ?_⟩
  · simp [hi.writes, ← h.length]
  · intro t first
    have zero := h.accounted.zero_iff
    have empty : kept = [] ↔ r.conn.writes = [] := by
      rw [← List.length_eq_zero_iff, ← List.length_eq_zero_iff]
      exact Eq.congr h.length rfl
    have started := hi.started
    cases kept with
    | nil =>
        -- Nothing was outstanding: the first new write is the oldest, and stamps the clock.
        cases new with
        | nil => cases first
        | cons w ws =>
            rw [if_pos ⟨zero.mpr (empty.mp rfl), List.cons_ne_nil w ws⟩] at started
            exact started.trans (Option.some.inj first)
    | cons k ks =>
        rw [if_neg fun both => List.cons_ne_nil k ks (empty.mpr (zero.mp both.1))] at started
        exact started.trans (h.anchor t first)

theorem writes {kept : List Nat} (h : Anchored env ⟨r, kept⟩) (hw : Writes env r r') :
    Anchored env ⟨r', kept ++ List.replicate (r'.conn.writes.length - kept.length) r.clock⟩ := by
  obtain ⟨new, hi⟩ := hw.issued h.accounted.seals
  exact h.issued (hw.lasts.laden h.accounted.laden) hi

/-- The oldest write lands, and the next one is of the same moment. -/
theorem writeDone {w : WriteCtx} {rest : List WriteCtx} (h : Anchored env s)
    (same : sameMoment s.issued = true) (out : s.reactor.conn.writes = w :: rest) :
    Anchored env ⟨s.reactor.writeDone w rest, s.issued.tail⟩ := by
  refine ⟨h.accounted.writeDone out, h.plain, ?_, ?_⟩
  · simp [h.length, out, Reactor.writeDone, Reactor.setConn]
  · intro t first
    have anchor := h.anchor
    obtain ⟨r, times⟩ := s
    cases times with
    | nil => cases first
    | cons old times =>
        cases times with
        | nil => cases first
        | cons next times =>
            obtain rfl : next = t := Option.some.inj first
            have equal : next = old := by simpa [sameMoment] using same
            exact (anchor old rfl).trans equal.symm

/-- A change that leaves the outstanding writes alone. -/
theorem same (h : Anchored env s) (laden : r'.Laden)
    (tls : r'.conn.tls = s.reactor.conn.tls) (writes : r'.conn.writes = s.reactor.conn.writes)
    (pending : r'.conn.writePending = s.reactor.conn.writePending)
    (started : r'.conn.writeStartedAt = s.reactor.conn.writeStartedAt) :
    Anchored env ⟨r', s.issued ++
      List.replicate (r'.conn.writes.length - s.issued.length) s.reactor.clock⟩ := by
  have none : r'.conn.writes.length - s.issued.length = 0 := by
    rw [writes, h.length, Nat.sub_self]
  rw [none, List.replicate_zero, List.append_nil]
  exact ⟨h.accounted.same laden tls writes pending, tls.trans h.plain, by rw [writes]; exact h.length,
    fun t first => started.trans (h.anchor t first)⟩

theorem effect (h : Anchored env s) (he : Effect env s.reactor a r') :
    Anchored env ⟨r', s.issued ++
      List.replicate (r'.conn.writes.length - s.issued.length) s.reactor.clock⟩ := by
  have laden := he.lasts.laden h.accounted.laden
  cases he with
  | works hw => exact h.writes hw
  | empties hw =>
      have drained : Anchored env ⟨{ s.reactor with queue := [] }, s.issued⟩ :=
        ⟨⟨h.accounted.seals, fun e mem => (List.not_mem_nil mem).elim, h.accounted.pending,
          h.accounted.sized⟩, h.plain, h.length, h.anchor⟩
      exact drained.writes hw
  | queues _ _ same | passes _ same | drains same =>
      simp only [Reactor.outlet, Outlet.mk.injEq] at same
      exact h.same laden same.2.1 same.2.2.1 same.2.2.2.1 same.2.2.2.2.1
  | flies _ tls => exact absurd (h.plain.symm.trans tls) Bool.false_ne_true

/-- One turn keeps the stamp exact when its completion hands over. -/
theorem turn (h : Anchored env s) (handed : s.handsOver a = true)
    (ht : timed env s a = some s') : Anchored env s' := by
  simp only [timed, Option.map_eq_some_iff] at ht
  obtain ⟨r', ht, rfl⟩ := ht
  cases hl : a.lands with
  | true =>
      simp only [Timed.handsOver, hl, Bool.not_true, Bool.false_or] at handed
      obtain ⟨w, rest, out, hw⟩ := turn_lands hl ht
      exact (h.writeDone handed out).writes hw
  | false => exact h.effect (turn_effect h.accounted.laden hl ht)

theorem fresh (fresh : Fresh r) (plain : r.conn.tls = false) : Anchored env ⟨r, []⟩ where
  accounted := .fresh fresh fun tls => absurd (plain.symm.trans tls) Bool.false_ne_true
  plain := plain
  length := by
    show 0 = r.conn.writes.length
    rw [fresh.conn]
    rfl
  anchor t first := by cases first

end Anchored

/-! ### What the sweep reports -/

/-- The sweep reports the write timeout and closes. -/
def WriteTimedOut (r r' : Reactor) : Prop :=
  r'.trace = r.trace ++ [.emitEvent .clientError r.conn.id "write timed out", .close]

instance (r r' : Reactor) : Decidable (WriteTimedOut r r') := inferInstanceAs (Decidable (_ = _))

/-- From `r` to `r'` without a report of a write timeout. -/
def Unreported (r r' : Reactor) : Prop :=
  ∃ evs, r'.trace = r.trace ++ evs ∧ ∀ id, Ev.emitEvent .clientError id "write timed out" ∉ evs

namespace Unreported

variable {env : Env} {r r' r'' : Reactor}

theorem same (h : r'.trace = r.trace) : Unreported r r' :=
  ⟨[], by rw [h, List.append_nil], fun _ => List.not_mem_nil⟩

theorem one {e : Ev} (h : r'.trace = r.trace ++ [e])
    (other : ∀ id, Ev.emitEvent .clientError id "write timed out" ≠ e) : Unreported r r' :=
  ⟨[e], h, fun id mem => other id (List.mem_singleton.mp mem)⟩

theorem trans (h : Unreported r r') (h' : Unreported r' r'') : Unreported r r'' := by
  obtain ⟨evs, trace, none⟩ := h
  obtain ⟨evs', trace', none'⟩ := h'
  refine ⟨evs ++ evs', by rw [trace', trace, List.append_assoc], fun id mem => ?_⟩
  exact (List.mem_append.mp mem).elim (none id) (none' id)

theorem not_timedOut (h : Unreported r r') : ¬ WriteTimedOut r r' := by
  obtain ⟨evs, trace, none⟩ := h
  intro reported
  rw [WriteTimedOut, trace] at reported
  refine none r.conn.id ?_
  rw [List.append_cancel_left reported]
  exact List.mem_cons_self

theorem event {kind : ServerEventKind} {id : Nat} {why : String} (other : why ≠ "write timed out") :
    Unreported r (r.broadcastEvent kind id why) :=
  one rfl fun _ same => other (by cases same; rfl)

theorem closeConn : Unreported r r.closeConn := by
  unfold Reactor.closeConn
  split
  · exact same rfl
  · exact one rfl fun _ same => by cases same

theorem startAnswer {ps : List Piece} {ka fin : Bool} :
    Unreported r (r.startAnswer env ps ka fin) :=
  one rfl fun _ same => by cases same

theorem emitTo {sink : Option Nat} {e : Nat → Ev}
    (other : ∀ n id, Ev.emitEvent .clientError id "write timed out" ≠ e n) :
    Unreported r (r.emitTo sink fun n => [e n]) := by
  cases sink with
  | none => exact ⟨[], rfl, fun _ => List.not_mem_nil⟩
  | some n => exact one rfl (other n)

theorem wsCloseConn (code : Nat) : Unreported r (r.wsCloseConn env code) := by
  unfold Reactor.wsCloseConn
  split
  · exact same rfl
  · dsimp only
    have marked : Unreported r { r with
        conn := { r.conn with wsClosing := true }
        wsConnLoop := r.wsConnLoop.filter (· ≠ r.conn.id) } := same rfl
    refine trans (marked.trans ?_) startAnswer
    exact emitTo fun _ _ same => by cases same

theorem writeAnswer {ps : List Piece} {ka fin : Bool} :
    Unreported r (r.writeAnswer env ps ka fin) := by
  unfold Reactor.writeAnswer
  dsimp only
  split
  · exact startAnswer.trans (wsCloseConn 1009)
  · split
    · exact (startAnswer.trans (event (by decide))).trans closeConn
    · exact startAnswer

theorem retireReq (id : Nat) : Unreported r (r.retireReq id) := by
  unfold Reactor.retireReq
  split
  · exact one rfl fun _ same => by cases same
  · exact same rfl

theorem timeOut (id : Nat) {kind : ServerEventKind} {why : String}
    (other : why ≠ "write timed out") : Unreported r (r.timeOut env id kind why) := by
  unfold Reactor.timeOut
  split
  · exact same rfl
  · dsimp only
    have erased : Unreported r (r.eraseReq id) := one rfl fun _ same => by cases same
    have marked : Unreported r ((r.eraseReq id).setConn { (r.eraseReq id).conn with
        hasDeadline := false, reqIdInFlight := none, streamingBody := false }) :=
      erased.trans (same rfl)
    exact (marked.trans writeAnswer).trans (event other)

theorem streamIdle (id : Nat) : Unreported r (r.streamIdle id) := by
  unfold Reactor.streamIdle
  dsimp only
  refine trans ?_ closeConn
  exact ((retireReq id).trans (event (by decide))).trans (same rfl)

theorem sweepBusy : Unreported r (r.sweepBusy env) := by
  unfold Reactor.sweepBusy
  split
  · exact same rfl
  · split
    · exact timeOut _ (by decide)
    · split
      · exact timeOut _ (by decide)
      · split
        · exact streamIdle _
        · exact same rfl

theorem sweepIdle : Unreported r (r.sweepIdle env) := by
  unfold Reactor.sweepIdle
  split
  · split
    · exact (event (by decide)).trans writeAnswer
    · exact same rfl
  · split
    · exact (event (by decide)).trans closeConn
    · split
      · exact closeConn
      · split
        · exact closeConn
        · exact same rfl

theorem sweepHttp : Unreported r (r.sweepHttp env) := by
  unfold Reactor.sweepHttp
  split
  · exact sweepBusy
  · exact sweepIdle

theorem ageOut : Unreported r r.ageOut := by
  unfold Reactor.ageOut
  dsimp only
  split
  · split <;> exact same rfl
  · exact same rfl

theorem sweepWs : Unreported r (r.sweepWs env) := by
  unfold Reactor.sweepWs
  split
  · exact same rfl
  · split
    · exact (event (by decide)).trans (wsCloseConn 1001)
    · split
      · exact writeAnswer.trans (same rfl)
      · exact same rfl

theorem ageOutWs : Unreported r (r.ageOutWs env) := by
  have aged : Unreported r (r.setConn { r.conn with ageExpired := true }) := same rfl
  exact aged.trans (wsCloseConn 1001)

end Unreported

section Reports

variable {env : Env} {r : Reactor}

/-- The sweep reports a write timeout only when bytes are pending and the stamp is old. -/
theorem onSweep_timedOut (h : WriteTimedOut r (r.onSweep env)) :
    0 < r.conn.writePending ∧ r.elapsed r.conn.writeStartedAt (Reactor.writeMs env) = true := by
  by_contra young
  refine Unreported.not_timedOut ?_ h
  unfold Reactor.onSweep
  rw [if_neg young]
  split
  · exact .same rfl
  · dsimp only
    split
    · split
      · exact .ageOutWs
      · exact .sweepWs
    · split
      · exact Unreported.ageOut.trans .sweepHttp
      · exact .sweepHttp

theorem h2Sweep_timedOut {bytes : Bytes} {finished : Bool}
    (h : WriteTimedOut r (r.h2Sweep env bytes finished)) :
    0 < r.conn.writePending ∧ r.elapsed r.conn.writeStartedAt (Reactor.writeMs env) = true := by
  by_contra young
  refine Unreported.not_timedOut ?_ h
  have raw : Unreported r (r.writeRaw env (h2Piece bytes)) := by
    unfold Reactor.writeRaw
    split
    · exact .same rfl
    · exact .one rfl fun _ same => by cases same
  unfold Reactor.h2Sweep
  rw [if_neg young]
  split
  · exact .same rfl
  · dsimp only
    split
    · exact raw.trans .closeConn
    · exact raw

end Reports

/-! ### The timeout -/

/-- The turn is the sweep. -/
def Turn.sweeps : Turn → Bool
  | .act .sweep => true
  | .h2Sweep .. => true
  | _ => false

theorem sweeps_timedOut {env : Env} {r r' : Reactor} {a : Turn} (sweep : a.sweeps = true)
    (h : turn env r a = some r') (reported : WriteTimedOut r r') :
    0 < r.conn.writePending ∧ r.elapsed r.conn.writeStartedAt (Reactor.writeMs env) = true := by
  cases a with
  | act a =>
      cases a with
      | sweep =>
          simp only [turn, step, Option.ite_none_left_eq_some, Option.some.injEq] at h
          obtain ⟨-, rfl⟩ := h
          exact onSweep_timedOut reported
      | _ => cases sweep
  | h2Sweep bytes finished =>
      simp only [turn, Option.ite_none_right_eq_some, Option.some.injEq] at h
      obtain ⟨-, rfl⟩ := h
      exact h2Sweep_timedOut reported
  | _ => cases sweep

/-- On a plaintext connection, in a run in which each completion hands over to a write of the
same moment or to none, a sweep that closes the connection with `write timed out` finds a
write outstanding that was issued at least the write timeout earlier. -/
theorem write_timeout_stuck (env : Env) (r₀ : Reactor) (s s' : Timed) (a : Turn)
    (fresh : Fresh r₀) (plain : r₀.conn.tls = false)
    (run : Reaches (stepOf (timed env)) (fun s a => s.handsOver a = true) ⟨r₀, []⟩ s)
    (sweep : a.sweeps = true) (ht : timed env s a = some s')
    (reported : WriteTimedOut s.reactor s'.reactor) :
    ∃ t ∈ s.issued, Reactor.writeMs env ≤ (s.reactor.clock : Int) - t := by
  have anchored : Anchored env s :=
    run.invariant (.fresh fresh plain) fun _ _ _ h handed ht => h.turn handed ht
  simp only [timed, Option.map_eq_some_iff] at ht
  obtain ⟨r', ht, rfl⟩ := ht
  obtain ⟨pending, old⟩ := sweeps_timedOut sweep ht reported
  obtain ⟨t, first⟩ : ∃ t, s.issued.head? = some t := by
    cases h : s.issued with
    | nil =>
        have empty : s.reactor.conn.writes = [] := by
          rw [← List.length_eq_zero_iff, ← anchored.length, h]
          rfl
        have := anchored.accounted.zero_iff.mpr empty
        omega
    | cons t ts => exact ⟨t, rfl⟩
  refine ⟨t, List.mem_of_head? first, ?_⟩
  have started := anchored.anchor t first
  rw [started] at old
  simpa [Reactor.elapsed] using old

/-- An answer that never lands. -/
theorem write_timeout_stuck_answer :
    ∃ s s', Reaches (stepOf (timed sampleEnv)) (fun s a => s.handsOver a = true) ⟨sampleConn, []⟩ s ∧
      timed sampleEnv s (.act .sweep) = some s' ∧ WriteTimedOut s.reactor s'.reactor ∧
      ∃ t ∈ s.issued, Reactor.writeMs sampleEnv ≤ (s.reactor.clock : Int) - t := by
  obtain ⟨s, run, fires⟩ := exec_any (f := guarded (fun s a => Timed.handsOver s a = true)
      (timed sampleEnv)) (s := ⟨sampleConn, []⟩)
    (p := fun s => ∃ s' ∈ timed sampleEnv s (.act .sweep), WriteTimedOut s.reactor s'.reactor)
    (show (exec _ (oneAnswer ++ [.act (.tick 30000)]) _).any _ = true by decide +kernel)
  obtain ⟨s', ht, reported⟩ := fires
  exact ⟨s, s', exec_guarded run, ht, reported, write_timeout_stuck sampleEnv sampleConn s s' _
    sampleConn_fresh rfl (exec_guarded run) rfl ht reported⟩

/-- A streamed answer: the head lands while a chunk issued 20 s later is on its way, and 10 s
after that chunk the connection is closed for a timeout of 30 s. -/
theorem write_timeout_premature :
    ¬ ∀ env r₀ s s' a, Fresh r₀ → r₀.conn.tls = false →
      Reaches (stepOf (timed env)) anyStep ⟨r₀, []⟩ s → a.sweeps = true →
      timed env s a = some s' → WriteTimedOut s.reactor s'.reactor →
      ∃ t ∈ s.issued, Reactor.writeMs env ≤ (s.reactor.clock : Int) - t := by
  intro claim
  obtain ⟨s, run, fires, young⟩ := exec_any (f := timed sampleEnv) (s := ⟨sampleConn, []⟩)
    (p := fun s => (∃ s' ∈ timed sampleEnv s (.act .sweep), WriteTimedOut s.reactor s'.reactor) ∧
      ∀ t ∈ s.issued, (s.reactor.clock : Int) - t < Reactor.writeMs sampleEnv)
    (show (exec _ [.act (.read (ascii "GET / HTTP/1.1\r\nHost: a\r\n\r\n")),
      .act (.startStream 1 200 []), .act .async, .act (.tick 20000),
      .act (.sendStreamChunk 1 (ascii "a") false), .act .async, .act (.written true []),
      .act (.tick 10000)] _).any _ = true by
      repeat rw [ascii_ofList]
      decide +kernel)
  obtain ⟨s', ht, reported⟩ := fires
  obtain ⟨t, mem, old⟩ := claim sampleEnv sampleConn s s' _ sampleConn_fresh rfl
    (exec_reaches run) rfl ht reported
  have := young t mem
  omega

end NitroServer.Engine
