/-
One helper isolate and the calls that the main isolate makes on it: `_Helper` and
`_helperMain` (`server.dart`).

A call runs in one turn up to its `await`: it sends its message and asks the queue of replies
for the next one. What comes after is in steps of its own, so that other calls, the helper and
the timers come between: the queue delivers a reply, the timer of `_reply` runs out, `_reply`
goes on. Messages carry the call they belong to, which the source's do not; nothing reads it.

* `pending_step` — the messages under way: a step moves or drops them, only a call adds one.
-/

import NitroServer.Lib.Run

namespace NitroServer.Helper

open Lib

/-! ### State -/

/-- The three calls; `collect` is `collectMetrics`. -/
inductive Kind where
  | collect | reload | close
deriving DecidableEq, Repr

/-- A request on the control port, or the reply to it: a map of metrics, `reloaded`,
`closed`. -/
structure Message where
  kind : Kind
  call : Nat
deriving DecidableEq, Repr

/-- `StreamIterator`: it holds a value (`none` is the helper's hello), it waits for one on
behalf of a call, or the stream has ended. -/
inductive Queue where
  | holding (value : Option Message)
  | waiting (call : Nat)
  | ended
deriving DecidableEq, Repr

/-- Where a call is: at its `await`, behind it with what `moveNext` or the timer said, at its
end with what `collectMetrics` returns, or thrown. -/
inductive Stage where
  | waiting
  | resolved (ok : Bool)
  | returned (reply : Option Message)
  | threw
deriving DecidableEq, Repr

structure Call where
  kind : Kind
  stage : Stage
deriving DecidableEq, Repr

/-- `_helperMain`: at the head of its loop, in `runner.reload`, in `runner.close`, gone. -/
inductive Process where
  | idle
  | reloading (call : Nat)
  | closing (call : Nat)
  | exited
deriving DecidableEq, Repr

structure State where
  alive : Bool := true
  /-- `_closing`. -/
  closing : Bool := false
  /-- `_replies` and `_exits` are open. -/
  repliesOpen : Bool := true
  exitsOpen : Bool := true
  /-- `_queue`. -/
  queue : Queue := .holding none
  /-- On their way to the helper, and on their way back. -/
  control : List Message := []
  replies : List Message := []
  /-- Replies that have reached the port, behind a paused subscription. -/
  buffer : List Message := []
  process : Process := .idle
  calls : List Call := []
  /-- Which call got which reply. -/
  consumed : List (Nat × Message) := []
deriving DecidableEq, Repr

/-! ### The main isolate -/

def setStage (i : Nat) (stage : Stage) (s : State) : State :=
  { s with calls := s.calls.modify i fun c => { c with stage := stage } }

def stageOf (i : Nat) (s : State) : Option Stage := s.calls[i]?.map Call.stage

/-- `_die`. -/
def die (s : State) : State :=
  if s.alive then { s with alive := false, repliesOpen := false, exitsOpen := false } else s

/-- `_queue.moveNext()` by the call `i`: it throws while another one is pending. -/
def moveNext (i : Nat) (s : State) : State :=
  match s.queue with
  | .holding _ => { s with queue := .waiting i }
  | .waiting _ => setStage i .threw s
  | .ended => setStage i (.resolved false) s

/-- A call, up to its `await`. -/
def start (kind : Kind) (s : State) : State :=
  if s.alive then
    let i := s.calls.length
    moveNext i
      { s with
        closing := s.closing || kind == .close
        control := s.control ++ [⟨kind, i⟩]
        calls := s.calls ++ [⟨kind, .waiting⟩] }
  else { s with calls := s.calls ++ [⟨kind, .returned none⟩] }

/-- `_queue.current`. -/
def current (s : State) : Option Message :=
  match s.queue with
  | .holding value => value
  | _ => none

/-- The rest of a call, once `_reply` goes on with `ok`. -/
def goOn (i : Nat) (kind : Kind) (ok : Bool) (s : State) : State :=
  if ok then
    match kind with
    | .collect =>
        setStage i (.returned ((current s).filter fun reply => reply.kind = .collect)) s
    | .reload => setStage i (.returned none) s
    | .close => setStage i (.returned none) { s with repliesOpen := false, exitsOpen := false }
  else setStage i (.returned none) (die s)

/-! ### Acts -/

inductive Act where
  /-- The program makes a call. -/
  | start (kind : Kind)
  /-- The helper takes its next message. -/
  | serve
  /-- `runner.reload` or `runner.close` is done, and the helper replies. -/
  | answer
  /-- The helper dies, or ends after it has closed. -/
  | exit
  /-- A reply reaches the port. -/
  | arrive
  /-- The queue has a value for the call that waits. -/
  | deliver
  /-- The stream ends under the call that waits. -/
  | ended
  /-- The timer of a call runs out. -/
  | timeout (i : Nat)
  /-- A call goes on behind its `await`. -/
  | resume (i : Nat)
  /-- The exit port's listener. -/
  | exitNoticed
deriving DecidableEq, Repr

def serve (s : State) : Option State :=
  match s.process, s.control with
  | .idle, ⟨.collect, i⟩ :: control =>
      some { s with control := control, replies := s.replies ++ [⟨.collect, i⟩] }
  | .idle, ⟨.reload, i⟩ :: control => some { s with control := control, process := .reloading i }
  | .idle, ⟨.close, i⟩ :: control => some { s with control := control, process := .closing i }
  | _, _ => none

def answer (s : State) : Option State :=
  match s.process with
  | .reloading i => some { s with process := .idle, replies := s.replies ++ [⟨.reload, i⟩] }
  | .closing i => some { s with process := .exited, replies := s.replies ++ [⟨.close, i⟩] }
  | _ => none

def arrive (s : State) : Option State :=
  match s.replies with
  | [] => none
  | reply :: replies =>
      some { s with
        replies := replies
        buffer := if s.repliesOpen then s.buffer ++ [reply] else s.buffer }

def deliver (s : State) : Option State :=
  match s.queue, s.buffer with
  | .waiting i, reply :: buffer =>
      let s := { s with queue := .holding (some reply), buffer := buffer }
      some (if stageOf i s = some .waiting then
        setStage i (.resolved true) { s with consumed := s.consumed ++ [(i, reply)] }
      else s)
  | _, _ => none

def ended (s : State) : Option State :=
  match s.queue, s.buffer with
  | .waiting i, [] =>
      if s.repliesOpen then none
      else
        let s := { s with queue := .ended }
        some (if stageOf i s = some .waiting then setStage i (.resolved false) s else s)
  | _, _ => none

def perform (s : State) : Act → Option State
  | .start kind => some (start kind s)
  | .serve => serve s
  | .answer => answer s
  | .exit => if s.process = .exited then none else some { s with process := .exited }
  | .arrive => arrive s
  | .deliver => deliver s
  | .ended => ended s
  | .timeout i =>
      if stageOf i s = some .waiting then some (setStage i (.resolved false) s) else none
  | .resume i =>
      match s.calls[i]? with
      | some ⟨kind, .resolved ok⟩ => some (goOn i kind ok s)
      | _ => none
  | .exitNoticed =>
      if s.process = .exited ∧ s.exitsOpen then
        some (if s.closing || !s.alive then s else die s)
      else none

/-! ### Messages under way -/

def Process.pending : Process → List Message
  | .reloading i => [⟨.reload, i⟩]
  | .closing i => [⟨.close, i⟩]
  | _ => []

/-- Requests that are not answered and replies that nobody has got. -/
def pending (s : State) : List Message := s.control ++ s.process.pending ++ s.replies ++ s.buffer

end NitroServer.Helper
