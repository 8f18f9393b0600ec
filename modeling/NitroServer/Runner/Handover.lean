/-
Body payloads between the engine and the runner: the payload logs of `Pending.Payloads`, the chunk
stream, and the runner of `Runner.Machine`, whose acknowledgements reach the engine one by one.

* `System.step` — the engine tracks and emits a payload, emits an end, or erases the request; the
  runner takes the next chunk or does anything else; an acknowledgement arrives.
* `payloads_kept` — no payload is freed before the runner has copied it.
* `payloads_reclaimed` — every payload of a request is freed once the request is over on both
  sides and all of it was copied in time.
-/

import NitroServer.Pending.Payloads
import NitroServer.Runner.Acks

namespace NitroServer.Runner

open Lib
open NitroServer.Pending (Disciplined History Holding)

variable {U : UserCode} {R P : Type}

/-! ### The system -/

/-- Whether a chunk message carries a payload. -/
def Chunk.carries : Chunk → Bool
  | .end_ => false
  | _ => true

/-- A message of the chunk stream on its way. -/
structure Flight (P : Type) where
  id : Int64
  chunk : Chunk
  payload : Option P
  carried : payload.isSome = chunk.carries

/-- Engine and runner. `acks` are the calls of `ackBody` that the engine is yet to serve. -/
structure System (U : UserCode) (R P : Type) where
  engine : History R P := .new
  flights : List (Flight P) := []
  runner : Machine U := {}
  acks : List (Int64 × Nat) := []

inductive Turn (U : UserCode) (P : Type) where
  | emitPayload (id : Int64) (chunk : Chunk) (ptr : P) (carries : chunk.carries = true)
  | emitEnd (id : Int64)
  | erase (id : Int64)
  | take
  | runner (a : Act U)
  | ack

/-- The call of `ackBody` that an output is. -/
def Output.ack? : Output U → Option (Int64 × Nat)
  | .ack id n => some (id, n)
  | _ => none

namespace System

/-- A call on the payload logs. -/
def call (h : History R P) (c : NitroServer.Pending.Call P) : History R P := (h.step c).getD h

/-- A step of the runner. -/
def runs (host : Host U) (y : System U R P) (a : Act U) : Option (System U R P) :=
  (Machine.step host y.runner a).map fun r => { y with
    runner := r
    acks := y.acks ++ (r.out.drop y.runner.out.length).filterMap Output.ack? }

def step (host : Host U) (y : System U R P) : Turn U P → Option (System U R P)
  | .emitPayload id chunk ptr carries => some { y with
      engine := call y.engine (.track id ptr)
      flights := y.flights ++ [⟨id, chunk, some ptr, carries.symm⟩] }
  | .emitEnd id => some { y with flights := y.flights ++ [⟨id, .end_, none, rfl⟩] }
  | .erase id => some { y with engine := call y.engine (.erase id) }
  | .take =>
      match y.flights with
      | [] => none
      | f :: flights => { y with flights := flights }.runs host (.chunk f.id f.chunk)
  | .runner (.chunk _ _) => none
  | .runner a => y.runs host a
  | .ack =>
      match y.acks with
      | [] => none
      | (id, n) :: acks => some { y with engine := call y.engine (.ack id n), acks := acks }

/-- The payloads of `j` on their way, in order. -/
def inFlight (flights : List (Flight P)) (j : Int64) : List P :=
  flights.filterMap fun f => if f.id = j then f.payload else none

/-- How many payloads of `j` the runner has copied. -/
def copied (y : System U R P) (j : Int64) : Nat := y.runner.out.countP (Output.isTaken j)

/-- The id `j` is a request's, and its payloads are tracked while its log is there: none comes
after the log was reaped. -/
def Proper (j : Int64) (y : System U R P) : Turn U P → Prop
  | .emitPayload id _ _ _ => id = j →
      (y.engine.table.log j).isSome = true ∨ (y.engine.tracked j).isEmpty = true
  | .runner (.wsMessage id _) => id ≠ j
  | _ => True

instance (j : Int64) (y : System U R P) : (a : Turn U P) → Decidable (Proper j y a)
  | .emitPayload id _ _ _ => inferInstanceAs (Decidable (id = j →
      (y.engine.table.log j).isSome = true ∨ (y.engine.tracked j).isEmpty = true))
  | .runner (.wsMessage id _) => inferInstanceAs (Decidable (id ≠ j))
  | .runner (.head _) | .runner (.chunk ..) | .runner (.event ..) | .runner (.answer ..)
  | .runner (.streamEnded _) | .runner (.gateVerdict ..) | .runner (.wsReturned ..)
  | .runner (.wsConsume _) | .runner (.wsClose ..) | .runner (.wsSend ..) | .runner (.call _)
  | .runner .close | .emitEnd _ | .erase _ | .take | .ack => .isTrue trivial

variable {host : Host U} {y z : System U R P} {j : Int64}

/-! ### Steps of the runner -/

theorem call_eq (h : History R P) (c : NitroServer.Pending.Call P) :
    h.step c = some (call h c) := by
  cases c <;> rfl

/-- The runner's own runs. -/
theorem runs_spec {a : Act U} (h : y.runs host a = some z) :
    ∃ r os, Machine.step host y.runner a = some r ∧ r.out = y.runner.out ++ os ∧
      z = { y with runner := r, acks := y.acks ++ os.filterMap Output.ack? } := by
  obtain ⟨r, stepped, rfl⟩ := Option.map_eq_some_iff.mp h
  have grows : ∃ os, r.out = y.runner.out ++ os := by
    obtain ⟨u, first, rest⟩ := Machine.step_moves stepped
    have start : ∃ os, u.out = y.runner.out ++ os := by
      rcases first with rfl | ⟨id, frame, -, take⟩
      · exact ⟨[], (List.append_nil _).symm⟩
      · obtain ⟨os, outs, -⟩ := Machine.take_out take
        exact ⟨_, outs⟩
    clear first stepped h
    induction rest with
    | refl => exact start
    | tail _ move ih =>
        obtain ⟨os, outs⟩ := ih
        obtain ⟨os', outs', -⟩ := Machine.move_out move
        exact ⟨os ++ os', by rw [outs', outs, List.append_assoc]⟩
  obtain ⟨os, outs⟩ := grows
  exact ⟨r, os, stepped, outs, by rw [outs, List.drop_left]⟩

section Counts

variable {s t : Machine U} (j : Int64)

theorem taken_quiet {os : List (Output U)} (none_ : ∀ o ∈ os, o.takes = false) :
    os.countP (Output.isTaken j) = 0 := by
  refine List.countP_eq_zero.mpr fun o mem => ?_
  have silent := none_ o mem
  cases o with
  | received => cases silent
  | receivedFrame => cases silent
  | _ => exact Bool.false_ne_true

theorem taken_moves (moves : Machine.Moves host s t) :
    t.out.countP (Output.isTaken j) = s.out.countP (Output.isTaken j) := by
  induction moves with
  | refl => rfl
  | tail _ move ih =>
      obtain ⟨os, outs, none_⟩ := Machine.move_out move
      rw [outs, List.countP_append, taken_quiet j none_, ih, Nat.add_zero]

theorem taken_take {id : Int64} {payload : Option Frame} (take : Machine.Take host id payload s t) :
    t.out.countP (Output.isTaken j) =
      s.out.countP (Output.isTaken j) + if id = j then 1 else 0 := by
  obtain ⟨os, outs, none_⟩ := Machine.take_out take
  have one : [Output.taking (U := U) id payload].countP (Output.isTaken j) =
      if id = j then 1 else 0 := by
    rw [List.countP_singleton]
    cases payload <;> simp [Output.taking, Output.isTaken]
  rw [outs, ← List.singleton_append, List.countP_append, List.countP_append,
    taken_quiet j none_, one, Nat.add_zero]

/-- A step copies at most the payload that it is about. -/
theorem taken_step {a : Act U} (h : Machine.step host s a = some t) :
    s.out.countP (Output.isTaken j) ≤ t.out.countP (Output.isTaken j) ∧
      t.out.countP (Output.isTaken j) ≤
        s.out.countP (Output.isTaken j) + if a.hands.map Prod.fst = some j then 1 else 0 := by
  obtain ⟨u, first, rest⟩ := Machine.step_moves h
  rw [taken_moves j rest]
  rcases first with rfl | ⟨id, payload, hands, take⟩
  · exact ⟨Nat.le_refl _, Nat.le_add_right _ _⟩
  · rw [taken_take j take, hands]
    simp only [Option.map_some, Option.some.injEq]
    exact ⟨Nat.le_add_right _ _, Nat.le_refl _⟩

/-- An open runner copies the payload of a chunk. -/
theorem taken_chunk {id : Int64} {chunk : Chunk} (open_ : s.closed = false)
    (carries : chunk.carries = true) (h : Machine.step host s (.chunk id chunk) = some t) :
    t.out.countP (Output.isTaken j) =
      s.out.countP (Output.isTaken j) + if id = j then 1 else 0 := by
  have taken : ∃ u, Machine.Take host id none s u ∧ Machine.Moves host u t := by
    cases chunk with
    | data bytes =>
        rw [Machine.step, Machine.onChunk_data open_, Option.some.injEq] at h
        exact h ▸ Machine.moves_onData s id bytes
    | error message =>
        rw [Machine.step, Machine.onChunk_error open_, Option.some.injEq] at h
        exact h ▸ Machine.moves_onError s id message
    | end_ => cases carries
  obtain ⟨u, take, rest⟩ := taken
  rw [taken_moves j rest, taken_take j take]

/-- A frame is taken only when one comes. -/
theorem frames_step {a : Act U} (h : Machine.step host s a = some t)
    (other : ∀ f, a.hands ≠ some (j, some f)) (none_ : ∀ o ∈ s.out, ∀ f, o ≠ .receivedFrame j f) :
    ∀ o ∈ t.out, ∀ f, o ≠ .receivedFrame j f := by
  obtain ⟨u, first, rest⟩ := Machine.step_moves h
  have silent {os : List (Output U)} (quiet : ∀ o ∈ os, o.takes = false) :
      ∀ o ∈ os, ∀ f, o ≠ .receivedFrame j f := by
    intro o mem f same
    have takes := quiet o mem
    rw [same] at takes
    cases takes
  have before : ∀ o ∈ u.out, ∀ f, o ≠ .receivedFrame j f := by
    rcases first with rfl | ⟨id, payload, hands, take⟩
    · exact none_
    · obtain ⟨os, outs, quiet⟩ := Machine.take_out take
      intro o mem f same
      rw [outs] at mem
      rcases List.mem_append.mp mem with mem | mem
      · exact none_ o mem f same
      · rcases List.mem_cons.mp mem with rfl | mem
        · cases payload with
          | none => cases same
          | some frame =>
              rw [Output.taking, Output.receivedFrame.injEq] at same
              exact other frame (same.1 ▸ hands)
        · exact silent quiet o mem f same
  clear first h
  induction rest with
  | refl => exact before
  | tail _ move ih =>
      obtain ⟨os, outs, quiet⟩ := Machine.move_out move
      intro o mem
      rw [outs] at mem
      rcases List.mem_append.mp mem with mem | mem
      · exact ih o mem
      · exact silent quiet o mem

theorem step_closed {a : Act U} (h : Machine.step host s a = some t) (closed : s.closed = true) :
    t.closed = true :=
  Machine.step_keeps (I := fun s => s.closed = true)
    (fun _ _ _ _ closed take => (Machine.take_closed take).trans closed)
    (fun _ _ closed move => Machine.move_closed move closed) h closed

end Counts

/-! ### The payloads of one request -/

section Logs

variable {h h' : History R P}

/-- The log of `j` has numbered all that was ever tracked for it. -/
def Numbered (h : History R P) (j : Int64) : Prop :=
  ∀ log, h.table.log j = some log → log.nextSeq = (h.tracked j).length

/-- How many payloads of `j` are freed. -/
theorem freed_length (kept : Disciplined h j) (numbered : Numbered h j) :
    (h.freed j).length = (h.table.log j).elim (h.tracked j).length fun log => log.acked.toNat := by
  rw [Disciplined] at kept
  cases found : h.table.log j with
  | none =>
      rw [found, Option.elim_none] at kept
      rw [kept, Option.elim_none]
  | some log =>
      rw [found, Option.elim_some] at kept
      obtain ⟨past, cur, holds⟩ := kept
      have all := numbered log found
      have next := holds.nextSeq
      have few := holds.acked
      have tracked := congrArg List.length holds.tracked
      rw [List.length_append] at tracked
      have nothing : past = [] := List.length_eq_zero_iff.mp (by omega)
      rw [Option.elim_some, holds.freed, nothing, List.nil_append, List.length_take]
      omega

theorem freed_first (kept : Disciplined h j) : h.freed j <+: h.tracked j :=
  ⟨_, kept.split.symm⟩

end Logs

/-- What holds of a request's payloads in every run. -/
structure Sound (host : Host U) (j : Int64) (y : System U R P) : Prop where
  disciplined : Disciplined y.engine j
  numbered : Numbered y.engine j
  freed : (y.engine.freed j).length ≤ y.copied j
  flight : ∃ taken, y.engine.tracked j = taken ++ inFlight y.flights j ∧ y.copied j ≤ taken.length ∧
    (y.runner.closed = false → y.copied j = taken.length)
  queued : ∀ n, (j, n) ∈ y.acks → n ≤ y.copied j
  sent : ∀ n, .ack j n ∈ y.runner.out →
    (j, n) ∈ y.acks ∨ n ≤ (y.engine.freed j).length
  frames : ∀ o ∈ y.runner.out, ∀ f, o ≠ .receivedFrame j f
  runner : Reaches (stepOf (Machine.step host)) anyStep {} y.runner

theorem sound_start (j : Int64) : Sound host j ({} : System U R P) :=
  ⟨rfl, nofun, Nat.zero_le _, ⟨[], rfl, Nat.le_refl _, fun _ => rfl⟩, nofun, nofun, nofun, .refl⟩

/-- A call on the logs that is about another id. -/
theorem call_other {h : History R P} {c : NitroServer.Pending.Call P} (other : j ≠ c.id) :
    (call h c).table.log j = h.table.log j ∧ (call h c).tracked j = h.tracked j ∧
      (call h c).freed j = h.freed j :=
  h.step_other (call_eq h c) other

theorem Sound.congr (h : Sound host j y)
    (log : z.engine.table.log j = y.engine.table.log j)
    (tracked : z.engine.tracked j = y.engine.tracked j)
    (freed : z.engine.freed j = y.engine.freed j)
    (flight : inFlight z.flights j = inFlight y.flights j) (runner : z.runner = y.runner)
    (acks : ∀ n, (j, n) ∈ z.acks ↔ (j, n) ∈ y.acks) : Sound host j z := by
  obtain ⟨taken, split, few, all⟩ := h.flight
  have copied : z.copied j = y.copied j := by rw [System.copied, runner, System.copied]
  refine ⟨h.disciplined.congr log tracked freed, fun l found => ?_, ?_, ⟨taken, ?_, ?_, ?_⟩,
    fun n mem => ?_, fun n mem => ?_, runner ▸ h.frames, runner ▸ h.runner⟩
  · rw [tracked]
    exact h.numbered l (log ▸ found)
  · rw [freed, copied]
    exact h.freed
  · rw [tracked, flight, split]
  · rw [copied]
    exact few
  · rw [copied, runner]
    exact all
  · rw [copied]
    exact h.queued n ((acks n).mp mem)
  · rw [freed, acks]
    exact h.sent n (runner ▸ mem)

/-- The runner's acknowledgements name what it has copied. -/
theorem ack_le {s : Machine U} (run : Reaches (stepOf (Machine.step host)) anyStep {} s) {n : Nat}
    (mem : .ack j n ∈ s.out) : n ≤ s.out.countP (Output.isTaken j) := by
  obtain ⟨front, back, shape⟩ := List.append_of_mem mem
  have within := (Machine.reaches_counted run j).within.split shape
  rw [Nat.zero_add] at within
  rw [shape, List.countP_append]
  exact Nat.le_add_right_of_le within

theorem mem_acks {os : List (Output U)} {n : Nat} :
    (j, n) ∈ os.filterMap Output.ack? ↔ .ack j n ∈ os := by
  rw [List.mem_filterMap]
  constructor
  · rintro ⟨o, mem, found⟩
    cases o with
    | ack id m =>
        rw [Output.ack?, Option.some.injEq, Prod.mk.injEq] at found
        rwa [← found.1, ← found.2]
    | _ => cases found
  · intro mem
    exact ⟨_, mem, rfl⟩

/-- The runner takes a step, with the payloads `front` off the stream. -/
theorem Sound.runs (h : Sound host j y) {a : Act U} {flights : List (Flight P)}
    (ran : { y with flights := flights }.runs host a = some z)
    (other : ∀ f, a.hands ≠ some (j, some f))
    (front : List P) (flown : inFlight y.flights j = front ++ inFlight flights j)
    (few : ∀ r, Machine.step host y.runner a = some r →
      r.out.countP (Output.isTaken j) ≤ y.copied j + front.length ∧
        (r.closed = false → r.out.countP (Output.isTaken j) = y.copied j + front.length)) :
    Sound host j z := by
  obtain ⟨r, os, stepped, outs, rfl⟩ := runs_spec ran
  obtain ⟨taken, split, upto, all⟩ := h.flight
  have more : y.copied j ≤ r.out.countP (Output.isTaken j) := (taken_step j stepped).1
  have reached : Reaches (stepOf (Machine.step host)) anyStep {} r := .snoc h.runner trivial stepped
  obtain ⟨upto', all'⟩ := few r stepped
  refine ⟨h.disciplined, h.numbered, h.freed.trans more,
    ⟨taken ++ front, ?_, ?_, fun open_ => ?_⟩, fun n mem => ?_, fun n mem => ?_,
    frames_step j stepped other h.frames, reached⟩
  · rw [List.append_assoc, ← flown]
    exact split
  · rw [List.length_append]
    exact upto'.trans (Nat.add_le_add_right upto _)
  · have before : y.runner.closed = false := by
      cases closed : y.runner.closed with
      | false => rfl
      | true =>
          rw [step_closed stepped closed] at open_
          cases open_
    rw [List.length_append, ← all before]
    exact all' open_
  · rcases List.mem_append.mp mem with old | new
    · exact (h.queued n old).trans more
    · refine ack_le reached ?_
      rw [outs]
      exact List.mem_append_right _ (mem_acks.mp new)
  · dsimp only at mem ⊢
    rw [outs] at mem
    rcases List.mem_append.mp mem with old | new
    · exact (h.sent n old).imp_left (List.mem_append_left _)
    · exact .inl (List.mem_append_right _ (mem_acks.mpr new))

/-! ### The turns -/

theorem inFlight_append (fs gs : List (Flight P)) (j : Int64) :
    inFlight (fs ++ gs) j = inFlight fs j ++ inFlight gs j := List.filterMap_append

theorem Sound.emit (h : Sound host j y) {chunk : Chunk} {ptr : P} (carries : chunk.carries = true)
    (there : (y.engine.table.log j).isSome = true ∨ (y.engine.tracked j).isEmpty = true) :
    Sound host j { y with
      engine := call y.engine (.track j ptr)
      flights := y.flights ++ [⟨j, chunk, some ptr, carries.symm⟩] } := by
  obtain ⟨taken, split, few, all⟩ := h.flight
  have tracked : (call y.engine (.track j ptr)).tracked j = y.engine.tracked j ++ [ptr] :=
    Function.update_self ..
  have one : inFlight [(⟨j, chunk, some ptr, carries.symm⟩ : Flight P)] j = [ptr] := by
    simp [inFlight]
  refine ⟨NitroServer.Pending.disciplined_track h.disciplined (call_eq _ _), fun log found => ?_,
    h.freed, ⟨taken, ?_, few, all⟩, h.queued, h.sent, h.frames, h.runner⟩
  · have logged : (call y.engine (.track j ptr)).table.log j = _ :=
      y.engine.table.log_trackPayload j j ptr
    rw [if_pos rfl] at logged
    dsimp only at found ⊢
    rw [logged, Option.some.injEq] at found
    rw [← found, tracked, List.length_append]
    cases before : y.engine.table.log j with
    | some log => simp [h.numbered log before]
    | none =>
        rw [before] at there
        have empty : y.engine.tracked j = [] := by simpa using there
        rw [empty]
        rfl
  · dsimp only
    rw [tracked, inFlight_append, one, split, List.append_assoc]

theorem Sound.erase (h : Sound host j y) :
    Sound host j { y with engine := call y.engine (.erase j) } := by
  obtain ⟨kept, freed⟩ :=
    NitroServer.Pending.disciplined_erase h.disciplined (call_eq y.engine (.erase j))
  refine ⟨kept, fun log found => ?_, by rw [freed]; exact h.freed, h.flight, h.queued,
    by rw [freed]; exact h.sent, h.frames, h.runner⟩
  have logged : (call y.engine (.erase j)).table.log j = _ := y.engine.table.log_erase j j
  rw [if_pos rfl] at logged
  dsimp only at found
  rw [logged, Option.bind_eq_some_iff] at found
  obtain ⟨old, before, rest⟩ := found
  split at rest
  · cases rest
  · rw [Option.some.injEq] at rest
    rw [← rest]
    exact h.numbered old before

/-- What an acknowledgement of tracked payloads does. -/
theorem ack_spec {e : History R P} (kept : Disciplined e j) (numbered : Numbered e j) {n : Nat}
    (few : n ≤ (e.tracked j).length) :
    Disciplined (call e (.ack j n)) j ∧ Numbered (call e (.ack j n)) j ∧
      ((call e (.ack j n)).freed j).length = max n (e.freed j).length := by
  have bounded : e.Bounded (.ack j n) := by
    rw [NitroServer.Pending.History.Bounded]
    cases found : e.table.log j with
    | none => rfl
    | some log =>
        rw [Option.all_some, decide_eq_true_eq, numbered log found]
        exact_mod_cast few
  have kept' := (NitroServer.Pending.disciplined_ack kept bounded (call_eq _ _)).1
  have logged : (call e (.ack j n)).table.log j = _ := e.table.log_ack j j n
  rw [if_pos rfl] at logged
  have numbered' : Numbered (call e (.ack j n)) j := by
    intro log found
    rw [logged, Option.bind_eq_some_iff] at found
    obtain ⟨old, before, rest⟩ := found
    have next := numbered old before
    split at rest
    · exact Option.some.inj rest ▸ next
    split at rest
    · cases rest
    · exact Option.some.inj rest ▸ next
  refine ⟨kept', numbered', ?_⟩
  have tracked : (call e (.ack j n)).tracked j = e.tracked j := rfl
  rw [freed_length kept' numbered', freed_length kept numbered, logged, tracked]
  cases before : e.table.log j with
  | none => exact (max_eq_right few).symm
  | some log =>
      have next := numbered log before
      rw [Option.bind_some, Option.elim_some]
      split
      · rw [Option.elim_some]
        omega
      split
      · rename_i last
        rw [Option.elim_none]
        omega
      · dsimp only [Option.elim_some]
        omega

/-- An acknowledgement of what was copied arrives. -/
theorem Sound.ack (h : Sound host j y) {n : Nat} {acks : List (Int64 × Nat)}
    (first : y.acks = (j, n) :: acks) :
    Sound host j { y with engine := call y.engine (.ack j n), acks := acks } := by
  obtain ⟨taken, split, few, all⟩ := h.flight
  have copied : n ≤ y.copied j := h.queued n (first ▸ List.mem_cons_self)
  have known : n ≤ (y.engine.tracked j).length := by
    rw [split, List.length_append]
    exact copied.trans (few.trans (Nat.le_add_right _ _))
  obtain ⟨kept, numbered, length⟩ := ack_spec h.disciplined h.numbered known
  refine ⟨kept, numbered, ?_, ⟨taken, split, few, all⟩, fun m mem => ?_, fun m mem => ?_, h.frames,
    h.runner⟩
  · rw [length]
    exact max_le copied h.freed
  · exact h.queued m (first ▸ List.mem_cons_of_mem _ mem)
  · dsimp only
    rw [length]
    rcases h.sent m mem with queued | freed
    · rw [first] at queued
      rcases List.mem_cons.mp queued with same | queued
      · rw [Prod.mk.injEq] at same
        exact .inr (same.2 ▸ le_max_left _ _)
      · exact .inl queued
    · exact .inr (freed.trans (le_max_right _ _))

/-- The runner takes the next message of the stream. -/
theorem Sound.take (h : Sound host j y) {f : Flight P} {flights : List (Flight P)}
    (first : y.flights = f :: flights)
    (ran : { y with flights := flights }.runs host (.chunk f.id f.chunk) = some z) :
    Sound host j z := by
  have other : ∀ g, (Act.chunk (U := U) f.id f.chunk).hands ≠ some (j, some g) := by
    cases f.chunk <;> simp [Act.hands]
  by_cases mine : f.id = j ∧ f.chunk.carries = true
  · obtain ⟨same, carries⟩ := mine
    obtain ⟨p, payload⟩ := Option.isSome_iff_exists.mp (f.carried.trans carries)
    refine h.runs ran other [p] ?_ fun r step => ?_
    · rw [first, inFlight, List.filterMap_cons, if_pos same, payload]
      rfl
    · refine ⟨(taken_step j step).2.trans ?_, fun open_ => ?_⟩
      · refine Nat.add_le_add_left ?_ _
        split
        · exact Nat.le_refl _
        · exact Nat.zero_le _
      · have before : y.runner.closed = false := by
          cases closed : y.runner.closed with
          | false => rfl
          | true =>
              rw [step_closed step closed] at open_
              cases open_
        rw [taken_chunk j before carries step, if_pos same]
        rfl
  · have quiet : (Act.chunk (U := U) f.id f.chunk).hands.map Prod.fst ≠ some j := by
      intro hands
      cases chunk : f.chunk with
      | end_ =>
          rw [chunk] at hands
          cases hands
      | data bytes =>
          rw [chunk] at hands
          exact mine ⟨Option.some.inj hands, by rw [chunk]; rfl⟩
      | error message =>
          rw [chunk] at hands
          exact mine ⟨Option.some.inj hands, by rw [chunk]; rfl⟩
    refine h.runs ran other [] ?_ fun r step => ?_
    · rw [first, inFlight, List.filterMap_cons]
      by_cases same : f.id = j
      · have empty : f.payload = none := by
          rw [← Option.not_isSome_iff_eq_none, f.carried]
          exact fun carries => mine ⟨same, carries⟩
        rw [if_pos same, empty]
        rfl
      · rw [if_neg same]
        rfl
    · obtain ⟨more, few⟩ := taken_step j step
      rw [if_neg quiet] at few
      exact ⟨few, fun _ => Nat.le_antisymm few more⟩

/-- One turn keeps what holds of the payloads of `j`. -/
theorem sound_step {a : Turn U P} (h : Sound host j y) (proper : Proper j y a)
    (stepped : y.step host a = some z) : Sound host j z := by
  cases a with
  | emitPayload id chunk ptr carries =>
      cases stepped
      by_cases same : id = j
      · subst same
        exact h.emit carries (proper rfl)
      · obtain ⟨log, tracked, freed⟩ :=
          call_other (h := y.engine) (c := .track id ptr) (Ne.symm same)
        refine h.congr log tracked freed ?_ rfl fun n => .rfl
        rw [inFlight_append]
        simp [inFlight, same]
  | emitEnd id =>
      cases stepped
      refine h.congr rfl rfl rfl ?_ rfl fun n => .rfl
      rw [inFlight_append]
      simp [inFlight]
  | erase id =>
      cases stepped
      by_cases same : id = j
      · subst same
        exact h.erase
      · obtain ⟨log, tracked, freed⟩ :=
          call_other (h := y.engine) (c := .erase id) (Ne.symm same)
        exact h.congr log tracked freed rfl rfl fun n => .rfl
  | take =>
      rw [step] at stepped
      split at stepped
      · cases stepped
      · rename_i f flights waiting
        exact h.take waiting stepped
  | runner a =>
      by_cases chunk : ∃ id c, a = .chunk id c
      · obtain ⟨id, c, rfl⟩ := chunk
        cases stepped
      · have ran : y.runs host a = some z := by
          cases a with
          | chunk id c => exact absurd ⟨id, c, rfl⟩ chunk
          | _ => exact stepped
        have quiet : a.hands.map Prod.fst ≠ some j := by
          cases a with
          | chunk id c => exact absurd ⟨id, c, rfl⟩ chunk
          | wsMessage id data => exact fun same => proper (Option.some.inj same)
          | _ => simp [Act.hands]
        refine h.runs (y := y) ran (fun f same => quiet (by rw [same]; rfl)) [] rfl fun r step => ?_
        obtain ⟨more, few⟩ := taken_step j step
        rw [if_neg quiet] at few
        exact ⟨few, fun _ => Nat.le_antisymm few more⟩
  | ack =>
      rw [step] at stepped
      split at stepped
      · cases stepped
      · rename_i id n acks first
        cases stepped
        by_cases same : id = j
        · subst same
          exact h.ack first
        · obtain ⟨log, tracked, freed⟩ :=
            call_other (h := y.engine) (c := .ack id n) (Ne.symm same)
          refine h.congr log tracked freed rfl rfl fun m => ?_
          rw [first]
          simp [Ne.symm same]

theorem reaches_sound (run : Reaches (stepOf (System.step host)) (Proper j) {} y) :
    Sound host j y :=
  run.invariant (sound_start j) fun _ _ _ h proper stepped => sound_step h proper stepped

/-! ### What is kept, and what is given back -/

/-- A body of two payloads and its end; the runner takes it all, answers and completes the request,
and the engine erases it before the acknowledgement arrives. -/
def uploaded : List (Turn sampleCode Nat) :=
  [.emitPayload 7 (.data [1]) 10 rfl, .runner (.head (sampleHead 7 true)), .take,
    .emitPayload 7 (.data [2]) 11 rfl, .emitEnd 7, .take, .take,
    .runner (.answer 7 sampleAnswer true), .erase 7, .ack]

theorem received_of_taken {out : List (Output U)}
    (frames : ∀ o ∈ out, ∀ f, o ≠ .receivedFrame j f) :
    out.countP (Output.isTaken j) = Machine.receivedOf j out := by
  refine List.countP_congr fun o mem => ?_
  cases o with
  | receivedFrame id frame =>
      have other : id ≠ j := fun same => frames _ mem frame (same ▸ rfl)
      simp [Output.isTaken, Output.isReceived, other]
  | _ => rfl

/-- A request is over on both sides: the engine has erased it, the runner has completed it and
taken none of its payloads since, and nothing of it is on its way in either direction. Then all its
payloads are freed, and its log is gone. -/
theorem payloads_reclaimed (run : Reaches (stepOf (System.step host)) (Proper j) {} y)
    (open_ : y.runner.closed = false) (erased : ∀ log, y.engine.table.log j = some log →
      log.orphaned = true)
    (completed : ∃ o ∈ y.runner.out, o.isCompleted j = true)
    (early : Machine.receivedOf j (sinceCompleted j y.runner.out) = 0)
    (arrived : inFlight y.flights j = []) (served : ∀ n, (j, n) ∉ y.acks) :
    y.engine.freed j = y.engine.tracked j ∧ y.engine.table.log j = none := by
  have h := reaches_sound run
  have shape := around_completed completed
  have copied : y.copied j = Machine.receivedOf j (beforeCompleted j y.runner.out) := by
    have count := congrArg (Machine.receivedOf j) shape
    rw [Machine.receivedOf, Machine.receivedOf, List.countP_append, List.countP_cons] at count
    rw [Machine.receivedOf] at early
    rw [System.copied, received_of_taken h.frames, Machine.receivedOf, count, early]
    rfl
  have tracked : (y.engine.tracked j).length =
      Machine.receivedOf j (beforeCompleted j y.runner.out) := by
    obtain ⟨taken, split, -, all⟩ := h.flight
    rw [split, arrived, List.append_nil, ← all open_, copied]
  have whole : (y.engine.tracked j).length ≤ (y.engine.freed j).length := by
    rw [tracked]
    rcases Nat.eq_zero_or_pos (Machine.receivedOf j (beforeCompleted j y.runner.out)) with
      none_ | some_
    · rw [none_]
      exact Nat.zero_le _
    · obtain ⟨rest, last⟩ := (Machine.reaches_settles h.runner j).done completed some_
      have since : .ack j (Machine.receivedOf j (beforeCompleted j y.runner.out)) ∈
          sinceCompleted j y.runner.out := last ▸ List.mem_cons_self
      have out := List.mem_append_right (beforeCompleted j y.runner.out)
        (List.mem_cons_of_mem (.completed j) since)
      rw [← shape] at out
      exact (h.sent _ out).resolve_left (served _)
  have freed := (freed_first h.disciplined).eq_of_length_le whole
  refine ⟨freed, ?_⟩
  cases found : y.engine.table.log j with
  | none => rfl
  | some log =>
      have kept := h.disciplined
      have lengths := freed_length h.disciplined h.numbered
      have next := h.numbered log found
      rw [Disciplined, found, Option.elim_some] at kept
      obtain ⟨past, cur, holds⟩ := kept
      have behind := holds.orphaned (erased log found)
      have pos := holds.pos
      rw [found, Option.elim_some, freed] at lengths
      omega

theorem uploaded_reclaimed :
    ∃ y : System sampleCode Unit Nat, y.engine.tracked 7 = [10, 11] ∧
      y.engine.freed 7 = y.engine.tracked 7 ∧ y.engine.table.log 7 = none := by
  obtain ⟨y, run, tracked, open_, erased, completed, early, arrived, served⟩ :=
    exec_any (f := guarded (Proper 7) (System.step sampleHost))
      (s := ({} : System sampleCode Unit Nat))
      (p := fun y => y.engine.tracked 7 = [10, 11] ∧ y.runner.closed = false ∧
        (y.engine.table.log 7).all (·.orphaned) = true ∧
        (∃ o ∈ y.runner.out, o.isCompleted 7 = true) ∧
        Machine.receivedOf 7 (sinceCompleted 7 y.runner.out) = 0 ∧ inFlight y.flights 7 = [] ∧
        y.acks.all (·.1 != 7) = true)
      (show (exec _ uploaded _).any _ = true by decide +kernel)
  refine ⟨y, tracked, payloads_reclaimed (exec_guarded run) open_ ?_ completed early arrived ?_⟩
  · intro log found
    rw [found] at erased
    exact erased
  · intro n mem
    have other := List.all_eq_true.mp served _ mem
    simp at other

end System

end NitroServer.Runner
