/-
Outbound streams of the runner (`_answerStream`): the events of a body are gathered and sent
in fewer, larger chunks, on the size threshold, on the next turn, or at the end.

* `OutboundStream` — the closure's variables, the timers that are due, and what was sent.
* `Coalesced` — what was sent and what is gathered are the events so far; bytes that are
  gathered have a timer.
* `stream_coalesced` — that holds in every run, whatever the order of events, timers and the
  end; the last chunk is sent once, behind everything.
-/

import NitroServer.Lib.Run
import NitroServer.Engine.Types

namespace NitroServer.Runner

open Lib
open Engine (Bytes)

/-! ### The closure -/

structure OutboundStream where
  bufferSize : Nat
  pending : Option Bytes
  flushTimer : Option Nat
  /-- The timers that are neither fired nor cancelled. -/
  timers : List Nat
  nextTimer : Nat
  /-- `_closed`. -/
  closed : Bool
  /-- The source stream has ended, or failed and been cancelled. -/
  ended : Bool
  events : List Bytes
  /-- The calls of `sendStreamChunk`: the bytes, and whether they are the last. -/
  sent : List (Bytes × Bool)
deriving DecidableEq

namespace OutboundStream

/-- The stream is opened and listened to. -/
def start (bufferSize : Nat) : OutboundStream where
  bufferSize := bufferSize
  pending := if bufferSize > 0 then some [] else none
  flushTimer := none
  timers := []
  nextTimer := 0
  closed := false
  ended := false
  events := []
  sent := []

def sendChunk (s : OutboundStream) (bytes : Bytes) (last : Bool) : OutboundStream :=
  { s with sent := s.sent ++ [(bytes, last)] }

def flush (s : OutboundStream) : OutboundStream :=
  match s.pending with
  | none => s
  | some acc =>
      if acc ≠ [] ∧ s.closed = false then { s with pending := some [] }.sendChunk acc false else s

/-- `flushTimer?.cancel(); flushTimer = null`. -/
def cancelTimer (s : OutboundStream) : OutboundStream :=
  { s with flushTimer := none, timers := s.flushTimer.elim s.timers s.timers.erase }

/-- `flushTimer ??= Timer(Duration.zero, …)`. -/
def armTimer (s : OutboundStream) : OutboundStream :=
  match s.flushTimer with
  | some _ => s
  | none =>
      { s with
        flushTimer := some s.nextTimer
        timers := s.timers ++ [s.nextTimer]
        nextTimer := s.nextTimer + 1 }

def onEvent (s : OutboundStream) (chunk : Bytes) : OutboundStream :=
  if chunk = [] then s
  else
    match s.pending with
    | none => if s.closed then s else s.sendChunk chunk false
    | some acc =>
        let s := { s with pending := some (acc ++ chunk) }
        if (acc ++ chunk).length ≥ s.bufferSize then s.cancelTimer.flush else s.armTimer

def onTimer (s : OutboundStream) : OutboundStream := { s with flushTimer := none }.flush

def finishStream (s : OutboundStream) : OutboundStream :=
  if s.closed then s else s.sendChunk [] true

def onEnd (s : OutboundStream) : OutboundStream := s.cancelTimer.flush.finishStream

end OutboundStream

/-! ### Runs -/

/-- What happens to a stream: an event of its body, a timer, the end of the body, clean or by
an error, and the end of the runner. -/
inductive StreamAct where
  | event (chunk : Bytes)
  | timer (t : Nat)
  | done
  | close
deriving DecidableEq

namespace OutboundStream

/-- A stream gives no event behind its end, and ends once; a timer fires once. -/
def step (s : OutboundStream) : StreamAct → Option OutboundStream
  | .event chunk =>
      if s.ended then none else some ({ s with events := s.events ++ [chunk] }.onEvent chunk)
  | .timer t =>
      if t ∈ s.timers then some ({ s with timers := s.timers.erase t }.onTimer) else none
  | .done => if s.ended then none else some ({ s with ended := true }.onEnd)
  | .close => some { s with closed := true }

/-- The bytes that are gathered. -/
def gathered (s : OutboundStream) : Bytes := s.pending.getD []

/-- While the runner is open: `chunks` were sent, and the last one if the body has ended. -/
structure Coalesced (s : OutboundStream) (chunks : List Bytes) : Prop where
  sent : s.sent = chunks.map (fun c => (c, false)) ++ (if s.ended then [([], true)] else [])
  nonempty : ∀ c ∈ chunks, c ≠ []
  bytes : chunks.flatten ++ s.gathered = s.events.flatten
  timers : s.timers = s.flushTimer.toList
  armed : s.gathered ≠ [] → s.flushTimer.isSome = true
  finished : s.ended = true → s.gathered = [] ∧ s.flushTimer = none

/-! ### One step -/

/-- A state in the middle of a turn: what is gathered may be without a timer. -/
structure Between (s : OutboundStream) (chunks : List Bytes) : Prop where
  sent : s.sent = chunks.map (fun c => (c, false))
  nonempty : ∀ c ∈ chunks, c ≠ []
  bytes : chunks.flatten ++ s.gathered = s.events.flatten
  timers : s.timers = s.flushTimer.toList

/-- A chunk that is all of what is left to send. -/
theorem sendChunk_between {s : OutboundStream} {chunks : List Bytes} {chunk : Bytes}
    (sent : s.sent = chunks.map (fun c => (c, false))) (nonempty : ∀ c ∈ chunks, c ≠ [])
    (some_ : chunk ≠ []) (bytes : chunks.flatten ++ chunk = s.events.flatten)
    (nothing : s.gathered = []) (timers : s.timers = s.flushTimer.toList) :
    (s.sendChunk chunk false).Between (chunks ++ [chunk]) := by
  have kept : (s.sendChunk chunk false).gathered = [] := nothing
  refine ⟨?_, ?_, ?_, timers⟩
  · rw [sendChunk]
    dsimp only
    rw [sent, List.map_append, List.map_singleton]
  · intro c mem
    rcases List.mem_append.mp mem with mem | mem
    · exact nonempty c mem
    · rwa [List.mem_singleton.mp mem]
  · rw [kept, List.append_nil, List.flatten_append, List.flatten_singleton]
    exact bytes

theorem flush_between {s : OutboundStream} {chunks : List Bytes} (h : s.Between chunks)
    (live : s.closed = false) :
    ∃ chunks, s.flush.Between chunks ∧ s.flush.gathered = [] ∧
      s.flush.flushTimer = s.flushTimer ∧ s.flush.ended = s.ended ∧ s.flush.closed = false := by
  rw [flush]
  cases pending : s.pending with
  | none =>
      have nothing : s.gathered = [] := by rw [gathered, pending, Option.getD_none]
      exact ⟨chunks, h, nothing, rfl, rfl, live⟩
  | some acc =>
      have full : s.gathered = acc := by rw [gathered, pending, Option.getD_some]
      dsimp only
      by_cases some_ : acc = []
      · rw [if_neg fun both => both.1 some_]
        exact ⟨chunks, h, full.trans some_, rfl, rfl, live⟩
      · rw [if_pos ⟨some_, live⟩]
        have bytes := h.bytes
        rw [full] at bytes
        exact ⟨chunks ++ [acc],
          sendChunk_between (s := { s with pending := some [] }) h.sent h.nonempty some_ bytes rfl
            h.timers,
          rfl, rfl, rfl, live⟩

theorem cancelTimer_timers {s : OutboundStream} (timers : s.timers = s.flushTimer.toList) :
    s.cancelTimer.timers = [] := by
  rw [cancelTimer]
  dsimp only
  rw [timers]
  cases s.flushTimer with
  | none => rfl
  | some t => exact List.erase_cons_head (a := t) (l := [])

theorem Between.cancelTimer {s : OutboundStream} {chunks : List Bytes} (h : s.Between chunks) :
    s.cancelTimer.Between chunks :=
  ⟨h.sent, h.nonempty, h.bytes, cancelTimer_timers h.timers⟩

/-- Between turns of a body that has not ended. -/
theorem Coalesced.between {s : OutboundStream} {chunks : List Bytes} (h : s.Coalesced chunks)
    (running : s.ended = false) : s.Between chunks := by
  refine ⟨?_, h.nonempty, h.bytes, h.timers⟩
  rw [h.sent, running, if_neg Bool.false_ne_true, List.append_nil]

theorem Between.coalesced {s : OutboundStream} {chunks : List Bytes} (h : s.Between chunks)
    (running : s.ended = false) (armed : s.gathered ≠ [] → s.flushTimer.isSome = true) :
    s.Coalesced chunks := by
  refine ⟨?_, h.nonempty, h.bytes, h.timers, armed, ?_⟩
  · rw [h.sent, running, if_neg Bool.false_ne_true, List.append_nil]
  · intro ended
    rw [running] at ended
    cases ended

/-- The end of a turn: nothing is gathered, and no timer is due. -/
theorem coalesced_flush {s : OutboundStream} {chunks : List Bytes} (h : s.Between chunks)
    (live : s.closed = false) (running : s.ended = false) :
    ∃ chunks, s.flush.Coalesced chunks := by
  obtain ⟨chunks, between, nothing, -, ended, -⟩ := flush_between h live
  exact ⟨chunks, between.coalesced (ended.trans running) fun gathered => absurd nothing gathered⟩

theorem coalesced_event {s : OutboundStream} {chunks : List Bytes} (h : s.Coalesced chunks)
    (live : s.closed = false) (running : s.ended = false) (chunk : Bytes) :
    ∃ chunks, ({ s with events := s.events ++ [chunk] }.onEvent chunk).Coalesced chunks := by
  have between := h.between running
  have all : (s.events ++ [chunk]).flatten = chunks.flatten ++ (s.gathered ++ chunk) := by
    rw [List.flatten_append, List.flatten_singleton, ← h.bytes, List.append_assoc]
  rw [onEvent]
  by_cases empty : chunk = []
  · rw [if_pos empty]
    refine ⟨chunks, h.sent, h.nonempty, ?_, h.timers, h.armed, h.finished⟩
    rw [empty, List.append_nil] at all
    rw [empty]
    exact all.symm
  · rw [if_neg empty]
    cases pending : s.pending with
    | none =>
        have nothing : s.gathered = [] := by rw [gathered, pending, Option.getD_none]
        dsimp only
        rw [if_neg (by rw [live]; exact Bool.false_ne_true)]
        rw [nothing, List.nil_append] at all
        have sent := sendChunk_between (s := { s with events := s.events ++ [chunk] }) between.sent
          h.nonempty empty all.symm nothing h.timers
        rw [pending] at sent
        exact ⟨chunks ++ [chunk], sent.coalesced running fun gathered => absurd rfl gathered⟩
    | some acc =>
        have full : s.gathered = acc := by rw [gathered, pending, Option.getD_some]
        rw [full] at all
        have grown : Between
            { s with events := s.events ++ [chunk], pending := some (acc ++ chunk) } chunks :=
          ⟨between.sent, h.nonempty, all.symm, h.timers⟩
        dsimp only
        by_cases reached : (acc ++ chunk).length ≥ s.bufferSize
        · rw [if_pos reached]
          exact coalesced_flush grown.cancelTimer live running
        · rw [if_neg reached, armTimer]
          cases timer : s.flushTimer with
          | some t =>
              rw [timer] at grown
              exact ⟨chunks, grown.coalesced running fun _ => rfl⟩
          | none =>
              refine ⟨chunks, Between.coalesced
                ⟨between.sent, h.nonempty, all.symm, ?_⟩ running fun _ => rfl⟩
              dsimp only
              rw [h.timers, timer]
              rfl

/-- The only timer that is due is the one the closure holds. -/
theorem coalesced_timer {s : OutboundStream} {chunks : List Bytes} (h : s.Coalesced chunks)
    (live : s.closed = false) {t : Nat} (due : t ∈ s.timers) :
    ∃ chunks, ({ s with timers := s.timers.erase t }.onTimer).Coalesced chunks := by
  rw [h.timers] at due
  have timer : s.flushTimer = some t := Option.mem_toList.mp due
  have running : s.ended = false := by
    cases ended : s.ended with
    | false => rfl
    | true =>
        rw [(h.finished ended).2] at timer
        cases timer
  have fired : Between { s with timers := s.timers.erase t, flushTimer := none } chunks := by
    refine ⟨(h.between running).sent, h.nonempty, h.bytes, ?_⟩
    have alone := cancelTimer_timers h.timers
    rw [cancelTimer, timer] at alone
    exact alone
  exact coalesced_flush fired live running

theorem coalesced_done {s : OutboundStream} {chunks : List Bytes} (h : s.Coalesced chunks)
    (live : s.closed = false) (running : s.ended = false) :
    ∃ chunks, ({ s with ended := true }.onEnd).Coalesced chunks := by
  have ending : Between { s with ended := true } chunks :=
    ⟨(h.between running).sent, h.nonempty, h.bytes, h.timers⟩
  obtain ⟨chunks, between, nothing, timer, ended, open_⟩ := flush_between ending.cancelTimer live
  refine ⟨chunks, ?_⟩
  rw [onEnd, finishStream, if_neg (by rw [open_]; exact Bool.false_ne_true), sendChunk]
  refine ⟨?_, between.nonempty, between.bytes, between.timers,
    fun gathered => absurd nothing gathered, fun _ => ⟨nothing, timer⟩⟩
  dsimp only
  rw [between.sent, ended]
  rfl

/-! ### Every run -/

/-- Once the runner is closed nothing is sent. -/
theorem step_closed {s s' : OutboundStream} {a : StreamAct} (closed : s.closed = true)
    (step : s.step a = some s') : s'.sent = s.sent ∧ s'.closed = true := by
  have quiet : ∀ u : OutboundStream, u.closed = true → u.flush = u := by
    intro u shut
    rw [flush]
    cases u.pending with
    | none => rfl
    | some acc => exact if_neg fun both => by rw [shut] at both; cases both.2
  have ended : ∀ u : OutboundStream, u.closed = true → u.finishStream = u :=
    fun u shut => if_pos shut
  cases a with
  | event chunk =>
      obtain ⟨-, out⟩ := Option.ite_none_left_eq_some.mp step
      cases out
      rw [onEvent]
      split
      · exact ⟨rfl, closed⟩
      · split
        · exact ⟨rfl, closed⟩
        · dsimp only
          split
          · rw [quiet _ (by exact closed)]
            exact ⟨rfl, closed⟩
          · rw [armTimer]
            split
            · exact ⟨rfl, closed⟩
            · exact ⟨rfl, closed⟩
  | timer t =>
      obtain ⟨-, out⟩ := Option.ite_none_right_eq_some.mp step
      cases out
      rw [onTimer, quiet _ (by exact closed)]
      exact ⟨rfl, closed⟩
  | done =>
      obtain ⟨-, out⟩ := Option.ite_none_left_eq_some.mp step
      cases out
      rw [onEnd, quiet _ (by exact closed), ended _ (by exact closed)]
      exact ⟨rfl, closed⟩
  | close =>
      cases step
      exact ⟨rfl, rfl⟩

theorem coalesced_step {s s' : OutboundStream} {a : StreamAct}
    (h : s.closed = false → ∃ chunks, s.Coalesced chunks) (step : s.step a = some s') :
    s'.closed = false → ∃ chunks, s'.Coalesced chunks := by
  intro open_
  have live : s.closed = false := by
    cases closed : s.closed with
    | false => rfl
    | true =>
        rw [(step_closed closed step).2] at open_
        cases open_
  obtain ⟨chunks, coalesced⟩ := h live
  cases a with
  | event chunk =>
      obtain ⟨running, out⟩ := Option.ite_none_left_eq_some.mp step
      cases out
      exact coalesced_event coalesced live (Bool.eq_false_of_not_eq_true running) chunk
  | timer t =>
      obtain ⟨due, out⟩ := Option.ite_none_right_eq_some.mp step
      cases out
      exact coalesced_timer coalesced live due
  | done =>
      obtain ⟨running, out⟩ := Option.ite_none_left_eq_some.mp step
      cases out
      exact coalesced_done coalesced live (Bool.eq_false_of_not_eq_true running)
  | close =>
      cases step
      cases open_

theorem start_coalesced (bufferSize : Nat) : (start bufferSize).Coalesced [] := by
  have nothing : (start bufferSize).gathered = [] := by
    rw [gathered, start]
    dsimp only
    split
    · rfl
    · rfl
  refine ⟨rfl, fun c mem => absurd mem List.not_mem_nil, ?_, rfl,
    fun gathered => absurd nothing gathered, fun ended => ⟨nothing, rfl⟩⟩
  rw [nothing]
  rfl

/-- In every run: while the runner is open, what was sent is non-empty chunks, which with what
is gathered are the events so far in order, and behind them the last chunk, once, if the body
has ended; then nothing is gathered and no timer is due. A closed runner sends nothing. -/
theorem stream_coalesced {bufferSize : Nat} {s : OutboundStream}
    (run : Reaches (stepOf step) anyStep (start bufferSize) s) :
    (s.closed = false → ∃ chunks, s.Coalesced chunks) ∧
      (s.closed = false → s.ended = true → ∃ chunks : List Bytes,
        s.sent = chunks.map (fun c => (c, false)) ++ [([], true)] ∧ (∀ c ∈ chunks, c ≠ []) ∧
        chunks.flatten = s.events.flatten ∧ s.timers = [] ∧
        ∀ a s', s.step a = some s' → s'.sent = s.sent) ∧
      (s.closed = true → ∀ a s', s.step a = some s' → s'.sent = s.sent) := by
  have coalesced : s.closed = false → ∃ chunks, s.Coalesced chunks :=
    run.invariant (I := fun (s : OutboundStream) => s.closed = false → ∃ chunks, s.Coalesced chunks)
      (fun _ => ⟨[], start_coalesced bufferSize⟩) (fun _ _ _ h _ step => coalesced_step h step)
  refine ⟨coalesced, ?_, fun closed _ _ step => (step_closed closed step).1⟩
  intro live ended
  obtain ⟨chunks, h⟩ := coalesced live
  obtain ⟨nothing, timer⟩ := h.finished ended
  have none_ : s.timers = [] := by rw [h.timers, timer, Option.toList_none]
  have sent := h.sent
  rw [if_pos ended] at sent
  have bytes := h.bytes
  rw [nothing, List.append_nil] at bytes
  refine ⟨chunks, sent, h.nonempty, bytes, none_, ?_⟩
  intro a s' step
  cases a with
  | event chunk => exact absurd ended (Option.ite_none_left_eq_some.mp step).1
  | timer t =>
      have due := (Option.ite_none_right_eq_some.mp step).1
      rw [none_] at due
      cases due
  | done => exact absurd ended (Option.ite_none_left_eq_some.mp step).1
  | close =>
      cases step
      rfl

/-- Two events are gathered and sent by the timer; one more reaches the threshold; one is left
for the end. -/
theorem stream_coalesced_timer : ∃ s : OutboundStream,
    s.sent = [([1, 2], false), ([3, 4, 5, 6], false), ([7], false), ([], true)] ∧
      ∃ chunks : List Bytes, s.sent = chunks.map (fun c => (c, false)) ++ [([], true)] ∧
        chunks.flatten = [1, 2, 3, 4, 5, 6, 7] := by
  obtain ⟨s, run, sent, events, live, ended⟩ := exec_any (f := step) (s := start 4)
    (p := fun s => s.sent = [([1, 2], false), ([3, 4, 5, 6], false), ([7], false), ([], true)] ∧
      s.events.flatten = [1, 2, 3, 4, 5, 6, 7] ∧ s.closed = false ∧ s.ended = true)
    (show (exec _ [.event [1], .event [], .event [2], .timer 0, .event [3], .event [4, 5, 6],
      .event [7], .done] _).any _ = true by decide)
  obtain ⟨chunks, all, -, bytes, -⟩ := (stream_coalesced (exec_reaches run)).2.1 live ended
  exact ⟨s, sent, chunks, all, bytes.trans events⟩

end OutboundStream

end NitroServer.Runner
