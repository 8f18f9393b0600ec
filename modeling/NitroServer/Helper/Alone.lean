/-
Replies carry no id and all calls on a helper share one queue, so a call gets its own reply
only when no other call on the same helper is under way. `Alone` is that condition.

* `Orderly` — the invariant: at most one message is under way, and it is that of the call
  under way.
* `alone_orderly` — every step keeps it, if calls start alone.
* `calls_answered` — every run whose calls start alone: none throws, each can finish by steps
  of its own, and each gets its own reply.
* `overlapping_scrape_throws` — two overlapping calls of `collectMetrics`.
-/

import NitroServer.Helper.Protocol
import NitroServer.Lib.Snoc

namespace NitroServer.Helper

open Lib

variable {s t : State} {i : Nat} {c : Call} {a : Act}

/-- The call has completed. -/
def Stage.isOver : Stage → Bool
  | .returned _ => true
  | .threw => true
  | _ => false

/-- A call starts only when no other call on this helper is under way. -/
def Alone (s : State) (a : Act) : Prop :=
  (∃ kind, a = .start kind) → ∀ c ∈ s.calls, c.stage.isOver = true

/-! ### The invariant -/

structure Orderly (s : State) : Prop where
  /-- Only the last call can be under way. -/
  last : ∀ i c, s.calls[i]? = some c → c.stage.isOver = false → i + 1 = s.calls.length
  quiet : s.alive = true → (∀ c ∈ s.calls, c.stage.isOver = true) →
    pending s = [] ∧ ∀ i, s.queue ≠ .waiting i
  waiting : ∀ i c, s.calls[i]? = some c → c.stage = .waiting →
    s.queue = .waiting i ∧ (pending s).Subperm [⟨c.kind, i⟩]
  resolved : ∀ i c, s.calls[i]? = some c → c.stage = .resolved true →
    s.queue = .holding (some ⟨c.kind, i⟩) ∧ pending s = []
  returned : ∀ i (c : Call) reply, s.calls[i]? = some c → c.stage = .returned reply → c.kind = .collect →
    reply = some ⟨.collect, i⟩ ∨ reply = none ∧ s.alive = false
  threw : ∀ c ∈ s.calls, c.stage ≠ .threw
  consumed : ∀ e ∈ s.consumed, e.2.call = e.1

theorem orderly_empty : Orderly {} where
  last i c none := by cases none
  quiet _ _ := ⟨rfl, fun i waiting => by cases waiting⟩
  waiting i c none := by cases none
  resolved i c none := by cases none
  returned i c reply none := by cases none
  threw c none := by cases none
  consumed e none := by cases none

/-- A step beside the calls and the queue: messages move or are lost, or the helper dies. -/
theorem Orderly.aside (o : Orderly s) (calls : t.calls = s.calls) (queue : t.queue = s.queue)
    (consumed : t.consumed = s.consumed) (alive : t.alive = true → s.alive = true)
    (moved : (pending t).Subperm (pending s)) : Orderly t where
  last := by
    rw [calls]
    exact o.last
  quiet living over_ := by
    rw [calls] at over_
    obtain ⟨none, idle⟩ := o.quiet (alive living) over_
    rw [none, List.subperm_nil] at moved
    rw [queue]
    exact ⟨moved, idle⟩
  waiting i c hi hc := by
    rw [calls] at hi
    rw [queue]
    obtain ⟨waits, own⟩ := o.waiting i c hi hc
    exact ⟨waits, moved.trans own⟩
  resolved i c hi hc := by
    rw [calls] at hi
    rw [queue]
    obtain ⟨holds, none⟩ := o.resolved i c hi hc
    rw [none, List.subperm_nil] at moved
    exact ⟨holds, moved⟩
  returned i c reply hi hc kind := by
    rw [calls] at hi
    rcases o.returned i c reply hi hc kind with own | ⟨none, dead⟩
    · exact Or.inl own
    · exact Or.inr ⟨none, Bool.eq_false_iff.mpr fun living =>
        Bool.eq_false_iff.mp dead (alive living)⟩
  threw := by
    rw [calls]
    exact o.threw
  consumed := by
    rw [consumed]
    exact o.consumed

/-- The call under way comes to its next stage. -/
theorem Orderly.settle (o : Orderly s) {stage : Stage} (hi : s.calls[i]? = some c)
    (busy : c.stage.isOver = false)
    (calls : t.calls = s.calls.modify i fun c => { c with stage := stage })
    (alive : t.alive = true → s.alive = true) (consumed : ∀ e ∈ t.consumed, e.2.call = e.1)
    (behind : stage ≠ .waiting) (calm : stage ≠ .threw)
    (resolved : stage = .resolved true →
      t.queue = .holding (some ⟨c.kind, i⟩) ∧ pending t = [])
    (returned : ∀ reply, stage = .returned reply → c.kind = .collect →
      reply = some ⟨.collect, i⟩ ∨ reply = none ∧ t.alive = false)
    (quiet : stage.isOver = true → t.alive = true → pending t = [] ∧ ∀ j, t.queue ≠ .waiting j) :
    Orderly t := by
  have alone : ∀ j d, s.calls[j]? = some d → j ≠ i → d.stage.isOver = true := by
    intro j d hj apart
    by_contra open_
    have one := o.last i c hi busy
    have two := o.last j d hj (Bool.eq_false_iff.mpr open_)
    omega
  have cases_ : ∀ j d, t.calls[j]? = some d →
      j ≠ i ∧ s.calls[j]? = some d ∨ j = i ∧ d = { c with stage := stage } := by
    intro j d hj
    rw [calls] at hj
    rcases getElem?_modify_cases hj with ⟨apart, old⟩ | ⟨rfl, e, he, rfl⟩
    · exact Or.inl ⟨apart, old⟩
    · rw [hi] at he
      cases he
      exact Or.inr ⟨rfl, rfl⟩
  have mine : t.calls[i]? = some { c with stage := stage } := by
    rw [calls, List.getElem?_modify, hi]
    exact congrArg some (if_pos rfl)
  have length : t.calls.length = s.calls.length := by rw [calls, List.length_modify]
  refine ⟨?_, ?_, ?_, ?_, ?_, ?_, consumed⟩
  · intro j d hj open_
    rcases cases_ j d hj with ⟨apart, old⟩ | ⟨rfl, rfl⟩
    · rw [alone j d old apart] at open_
      cases open_
    · rw [length]
      exact o.last j c hi busy
  · intro living all
    exact quiet (all _ (List.mem_of_getElem? mine)) living
  · intro j d hj waits
    rcases cases_ j d hj with ⟨apart, old⟩ | ⟨rfl, rfl⟩
    · have done := alone j d old apart
      rw [waits] at done
      cases done
    · exact absurd waits behind
  · intro j d hj ok
    rcases cases_ j d hj with ⟨apart, old⟩ | ⟨rfl, rfl⟩
    · have done := alone j d old apart
      rw [ok] at done
      cases done
    · exact resolved ok
  · intro j d reply hj ended kind
    rcases cases_ j d hj with ⟨apart, old⟩ | ⟨rfl, rfl⟩
    · rcases o.returned j d reply old ended kind with own | ⟨none, dead⟩
      · exact Or.inl own
      · exact Or.inr ⟨none, Bool.eq_false_iff.mpr fun living =>
          Bool.eq_false_iff.mp dead (alive living)⟩
    · exact returned reply ended kind
  · intro d hd
    obtain ⟨j, hj⟩ := List.getElem?_of_mem hd
    rcases cases_ j d hj with ⟨_, old⟩ | ⟨rfl, rfl⟩
    · exact o.threw d (List.mem_of_getElem? old)
    · exact calm

/-! ### Messages that move -/

/-- What a step of the helper or of the ports does: messages move, and `dropped` are lost. -/
structure Moves (s t : State) (dropped : List Message) : Prop where
  calls : t.calls = s.calls
  queue : t.queue = s.queue
  consumed : t.consumed = s.consumed
  alive : t.alive = s.alive
  perm : (pending s).Perm (dropped ++ pending t)

theorem Orderly.moves {dropped : List Message} (o : Orderly s) (m : Moves s t dropped) :
    Orderly t := by
  apply o.aside m.calls m.queue m.consumed
  · rw [m.alive]
    exact fun living => living
  · exact (List.sublist_append_right dropped (pending t)).subperm.trans m.perm.symm.subperm

theorem serve_moves (step : serve s = some t) : Moves s t [] := by
  rw [serve] at step
  split at step
  case h_4 => cases step
  all_goals
    rename_i i control idle head
    cases step
    refine ⟨rfl, rfl, rfl, rfl, List.perm_iff_count.mpr fun m => ?_⟩
    simp only [pending, idle, head, Process.pending, List.nil_append, List.count_append,
      List.count_cons, List.count_nil]
    omega

theorem answer_moves (step : answer s = some t) : Moves s t [] := by
  rw [answer] at step
  split at step
  case h_3 => cases step
  all_goals
    rename_i i busy
    cases step
    refine ⟨rfl, rfl, rfl, rfl, List.perm_iff_count.mpr fun m => ?_⟩
    simp only [pending, busy, Process.pending, List.nil_append, List.count_append,
      List.count_cons, List.count_nil]
    omega

theorem exit_moves : Moves s { s with process := .exited } s.process.pending := by
  refine ⟨rfl, rfl, rfl, rfl, List.perm_iff_count.mpr fun m => ?_⟩
  simp only [pending, Process.pending, List.count_append, List.count_nil]
  omega

theorem arrive_moves (step : arrive s = some t) : ∃ dropped, Moves s t dropped := by
  rw [arrive] at step
  split at step
  · cases step
  · rename_i reply replies head
    cases step
    cases open_ : s.repliesOpen with
    | true =>
        refine ⟨[], rfl, rfl, rfl, rfl, List.perm_iff_count.mpr fun m => ?_⟩
        simp only [pending, head, if_true, List.nil_append, List.count_append,
          List.count_cons, List.count_nil]
        omega
    | false =>
        refine ⟨[reply], rfl, rfl, rfl, rfl, List.perm_iff_count.mpr fun m => ?_⟩
        simp only [pending, head, Bool.false_eq_true, if_false, List.count_append, List.count_cons,
          List.count_nil]
        omega

/-- The queue takes the first reply from the port. -/
theorem pending_deliver {reply : Message} {buffer : List Message} (head : s.buffer = reply :: buffer)
    (control : t.control = s.control) (process : t.process = s.process)
    (replies : t.replies = s.replies) (rest : t.buffer = buffer) :
    (pending s).Perm (reply :: pending t) := by
  refine List.perm_iff_count.mpr fun m => ?_
  simp only [pending, control, process, replies, rest, head, List.count_append, List.count_cons]
  omega

/-! ### The calls' steps -/

theorem stageOf_eq {stage : Stage} (h : stageOf i s = some stage) :
    ∃ c, s.calls[i]? = some c ∧ c.stage = stage :=
  Option.map_eq_some_iff.mp h

theorem timeout_orderly (o : Orderly s) (waits : stageOf i s = some .waiting) :
    Orderly (setStage i (.resolved false) s) := by
  obtain ⟨c, hi, hc⟩ := stageOf_eq waits
  exact o.settle hi (by rw [hc]; rfl) rfl (fun living => living) o.consumed (by decide)
    (by decide) (fun never => by cases never) (fun reply never => by cases never)
    (fun never => by cases never)

/-- The queue has something for a call that no longer waits. -/
theorem Orderly.released (o : Orderly s) (waits : s.queue = .waiting i)
    (late : stageOf i s ≠ some .waiting) (calls : t.calls = s.calls) (alive : t.alive = s.alive)
    (consumed : t.consumed = s.consumed) : Orderly t where
  last := by
    rw [calls]
    exact o.last
  quiet living over_ := by
    rw [calls] at over_
    exact absurd waits ((o.quiet (alive ▸ living) over_).2 i)
  waiting j c hj hc := by
    rw [calls] at hj
    have same := (o.waiting j c hj hc).1
    rw [waits] at same
    cases same
    exact absurd (Option.map_eq_some_iff.mpr ⟨c, hj, hc⟩) late
  resolved j c hj hc := by
    rw [calls] at hj
    have holds := (o.resolved j c hj hc).1
    rw [waits] at holds
    cases holds
  returned := by
    rw [calls, alive]
    exact o.returned
  threw := by
    rw [calls]
    exact o.threw
  consumed := by
    rw [consumed]
    exact o.consumed

/-- The only message under way is taken. -/
theorem taken_only {own reply : Message} {rest : List Message} (only : (pending s).Subperm [own])
    (taken : (pending s).Perm (reply :: rest)) : reply = own ∧ rest = [] := by
  have short : rest.length + 1 ≤ 1 := by
    rw [← List.length_cons (a := reply), ← taken.length_eq]
    exact only.length_le
  have mem : reply ∈ [own] := only.subset (taken.symm.subset List.mem_cons_self)
  exact ⟨List.mem_singleton.mp mem, List.length_eq_zero_iff.mp (by omega)⟩

theorem deliver_orderly (o : Orderly s) (step : deliver s = some t) : Orderly t := by
  rw [deliver] at step
  split at step
  case h_2 => cases step
  rename_i i reply buffer waits head
  dsimp only at step
  split at step
  · rename_i open_
    obtain ⟨c, hi, hc⟩ := stageOf_eq (s := s) open_
    cases step
    have taken := taken_only (o.waiting i c hi hc).2
      (pending_deliver (t := { s with queue := .holding (some reply), buffer := buffer })
        head rfl rfl rfl rfl)
    obtain ⟨rfl, none⟩ := taken
    refine o.settle hi (by rw [hc]; rfl) rfl (fun living => living) ?_ (by decide) (by decide)
      (fun _ => ⟨rfl, none⟩) (fun reply never => by cases never) (fun never => by cases never)
    intro e he
    rcases List.mem_append.mp he with old | new
    · exact o.consumed e old
    · rw [List.mem_singleton.mp new]
  · rename_i late
    cases step
    exact o.released waits late rfl rfl rfl

theorem ended_orderly (o : Orderly s) (step : ended s = some t) : Orderly t := by
  rw [ended] at step
  split at step
  case h_2 => cases step
  rename_i i waits empty
  split at step
  · cases step
  dsimp only at step
  split at step
  · rename_i open_
    obtain ⟨c, hi, hc⟩ := stageOf_eq (s := s) open_
    cases step
    exact o.settle hi (by rw [hc]; rfl) rfl (fun living => living) o.consumed (by decide)
      (by decide) (fun never => by cases never) (fun reply never => by cases never)
      (fun never => by cases never)
  · rename_i late
    cases step
    exact o.released waits late rfl rfl rfl

theorem die_alive (s : State) : (die s).alive = false := by
  rw [die]
  split
  · rfl
  · rename_i dead
    exact Bool.eq_false_iff.mpr dead

theorem goOn_orderly (o : Orderly s) {kind : Kind} {ok : Bool}
    (hi : s.calls[i]? = some ⟨kind, .resolved ok⟩) : Orderly (goOn i kind ok s) := by
  have busy : (Stage.resolved ok).isOver = false := rfl
  cases ok with
  | false =>
      have dead : (goOn i kind false s).alive = false := die_alive s
      have calls : (die s).calls = s.calls ∧ (die s).consumed = s.consumed := by
        rw [die]
        split
        · exact ⟨rfl, rfl⟩
        · exact ⟨rfl, rfl⟩
      have result : (goOn i kind false s).calls =
          s.calls.modify i fun c => { c with stage := .returned none } := by
        rw [← calls.1]
        rfl
      refine o.settle hi busy result ?_ (calls.2 ▸ o.consumed) (by decide) (by decide)
        (fun never => by cases never) ?_ ?_
      · rw [dead]
        intro never
        cases never
      · intro reply same _
        cases same
        exact Or.inr ⟨rfl, dead⟩
      · rw [dead]
        intro _ never
        cases never
  | true =>
      obtain ⟨holds, none⟩ := o.resolved i _ hi rfl
      have quiet : ∀ t : State, t.queue = s.queue → pending t = pending s →
          pending t = [] ∧ ∀ j, t.queue ≠ .waiting j := by
        intro t queue same
        rw [queue, same, holds]
        exact ⟨none, fun j waits => (by cases waits)⟩
      have calm : ∀ reply, Stage.returned reply ≠ .waiting ∧ Stage.returned reply ≠ .threw := by
        intro reply
        exact ⟨fun same => (by cases same), fun same => (by cases same)⟩
      cases kind with
      | collect =>
          have result : (current s).filter (fun reply => reply.kind = .collect) =
              some ⟨.collect, i⟩ := by
            rw [current, holds]
            rfl
          refine o.settle hi busy rfl (fun living => living) o.consumed (calm _).1 (calm _).2
            (fun never => by cases never) ?_ (fun _ _ => quiet _ rfl rfl)
          intro reply same _
          cases same
          exact Or.inl result
      | reload =>
          exact o.settle hi busy rfl (fun living => living) o.consumed (calm _).1 (calm _).2
            (fun never => by cases never) (fun _ _ never => by cases never)
            (fun _ _ => quiet _ rfl rfl)
      | close =>
          exact o.settle hi busy rfl (fun living => living) o.consumed (calm _).1 (calm _).2
            (fun never => by cases never) (fun _ _ never => by cases never)
            (fun _ _ => quiet _ rfl rfl)

/-- A call that starts when all others are over. -/
theorem Orderly.begin (o : Orderly s) (over_ : ∀ c ∈ s.calls, c.stage.isOver = true) {kind : Kind}
    {stage : Stage} (calls : t.calls = s.calls ++ [⟨kind, stage⟩]) (alive : t.alive = s.alive)
    (consumed : t.consumed = s.consumed) (calm : stage ≠ .threw) (fresh : stage ≠ .resolved true)
    (waiting : stage = .waiting → t.queue = .waiting s.calls.length ∧
      (pending t).Subperm [⟨kind, s.calls.length⟩])
    (returned : ∀ reply, stage = .returned reply → reply = none ∧ s.alive = false) :
    Orderly t := by
  have cases_ : ∀ j d, t.calls[j]? = some d →
      s.calls[j]? = some d ∧ d.stage.isOver = true ∨ j = s.calls.length ∧ d = ⟨kind, stage⟩ := by
    intro j d hj
    rw [calls] at hj
    rcases getElem?_snoc hj with old | new
    · exact Or.inl ⟨old, over_ d (List.mem_of_getElem? old)⟩
    · exact Or.inr new
  refine ⟨?_, ?_, ?_, ?_, ?_, ?_, consumed ▸ o.consumed⟩
  · intro j d hj open_
    rcases cases_ j d hj with ⟨_, done⟩ | ⟨rfl, _⟩
    · rw [done] at open_
      cases open_
    · rw [calls, List.length_append, List.length_singleton]
  · intro living all
    have done : stage.isOver = true := by
      apply all ⟨kind, stage⟩
      rw [calls]
      exact List.mem_append_right _ List.mem_cons_self
    cases stage with
    | returned reply =>
        obtain ⟨-, dead⟩ := returned reply rfl
        rw [alive, dead] at living
        cases living
    | threw => exact absurd rfl calm
    | waiting => cases done
    | resolved ok => cases done
  · intro j d hj waits
    rcases cases_ j d hj with ⟨_, done⟩ | ⟨rfl, rfl⟩
    · rw [waits] at done
      cases done
    · exact waiting waits
  · intro j d hj ok
    rcases cases_ j d hj with ⟨_, done⟩ | ⟨rfl, rfl⟩
    · rw [ok] at done
      cases done
    · exact absurd ok fresh
  · intro j d reply hj ended kind
    rw [alive]
    rcases cases_ j d hj with ⟨old, _⟩ | ⟨rfl, rfl⟩
    · exact o.returned j d reply old ended kind
    · exact Or.inr (returned reply ended)
  · intro d hd
    obtain ⟨j, hj⟩ := List.getElem?_of_mem hd
    rcases cases_ j d hj with ⟨old, _⟩ | ⟨rfl, rfl⟩
    · exact o.threw d (List.mem_of_getElem? old)
    · exact calm

theorem start_orderly (o : Orderly s) (over_ : ∀ c ∈ s.calls, c.stage.isOver = true) (kind : Kind) :
    Orderly (start kind s) := by
  rw [start]
  split
  · rename_i living
    obtain ⟨none, idle⟩ := o.quiet living over_
    simp only [pending, List.append_eq_nil_iff] at none
    obtain ⟨⟨⟨control, process⟩, replies⟩, buffer⟩ := none
    dsimp only
    rw [moveNext]
    dsimp only
    split
    · refine o.begin over_ rfl rfl rfl (by decide) (by decide) ?_ (fun reply never => by cases never)
      intro _
      refine ⟨rfl, ?_⟩
      rw [pending, control, process, replies, buffer]
      exact List.Subperm.refl _
    · rename_i i waits
      exact absurd waits (idle i)
    · have calls : (s.calls ++ [(⟨kind, .waiting⟩ : Call)]).modify s.calls.length
          (fun c => { c with stage := .resolved false }) = s.calls ++ [⟨kind, .resolved false⟩] :=
        modify_snoc s.calls _ _
      exact o.begin over_ calls rfl rfl (by decide) (by decide) (fun never => by cases never)
        (fun reply never => by cases never)
  · rename_i dead
    refine o.begin over_ rfl rfl rfl (by decide) (by decide) (fun never => by cases never) ?_
    intro reply same
    cases same
    exact ⟨rfl, Bool.eq_false_iff.mpr dead⟩

/-! ### Runs -/

theorem alone_orderly (o : Orderly s) (alone : Alone s a) (step : perform s a = some t) :
    Orderly t := by
  cases a with
  | start kind =>
      cases step
      exact start_orderly o (alone ⟨kind, rfl⟩) kind
  | serve => exact o.moves (serve_moves step)
  | answer => exact o.moves (answer_moves step)
  | exit =>
      rw [perform] at step
      split at step
      · cases step
      · cases step
        exact o.moves exit_moves
  | arrive =>
      obtain ⟨dropped, moves⟩ := arrive_moves step
      exact o.moves moves
  | deliver => exact deliver_orderly o step
  | ended => exact ended_orderly o step
  | timeout i =>
      rw [perform] at step
      split at step
      · rename_i waits
        cases step
        exact timeout_orderly o waits
      · cases step
  | resume i =>
      rw [perform] at step
      split at step
      · rename_i kind ok hi
        cases step
        exact goOn_orderly o hi
      · cases step
  | exitNoticed =>
      rw [perform] at step
      split at step
      · cases step
        split
        · exact o
        · rw [die]
          split
          · exact o.aside rfl rfl rfl (fun never => by cases never) (List.Subperm.refl _)
          · exact o
      · cases step

theorem orderly_of_reaches (run : Reaches (stepOf perform) Alone {} s) : Orderly s :=
  run.invariant orderly_empty fun _ _ _ o alone step => alone_orderly o alone step

theorem stageOf_setStage (hi : s.calls[i]? = some c) (stage : Stage) :
    stageOf i (setStage i stage s) = some stage := by
  simp [stageOf, setStage, hi]

/-- A call behind its `await` goes on. -/
theorem goOn_returned {kind : Kind} {ok : Bool} (hi : s.calls[i]? = some ⟨kind, .resolved ok⟩) :
    ∃ t reply, Reaches (stepOf perform) Alone s t ∧ stageOf i t = some (.returned reply) := by
  have step : perform s (.resume i) = some (goOn i kind ok s) := by
    rw [perform, hi]
  have alone : Alone s (.resume i) := by
    rintro ⟨kind, never⟩
    cases never
  have calls : (die s).calls = s.calls := by
    rw [die]
    split
    · rfl
    · rfl
  have result : ∃ reply, stageOf i (goOn i kind ok s) = some (.returned reply) := by
    cases ok with
    | false => exact ⟨none, stageOf_setStage (s := die s) (calls ▸ hi) _⟩
    | true =>
        cases kind with
        | collect => exact ⟨_, stageOf_setStage hi _⟩
        | reload => exact ⟨none, stageOf_setStage hi _⟩
        | close => exact ⟨none, stageOf_setStage (s := { s with repliesOpen := false, exitsOpen := false }) hi _⟩
  obtain ⟨reply, returned⟩ := result
  exact ⟨_, reply, .single alone step, returned⟩

/-- No call has thrown, so each is over, or at its `await` with a timer, or behind it. -/
theorem Orderly.can_finish (o : Orderly s) (hi : s.calls[i]? = some c) :
    ∃ t reply, Reaches (stepOf perform) Alone s t ∧ stageOf i t = some (.returned reply) := by
  obtain ⟨kind, stage⟩ := c
  cases stage with
  | returned reply => exact ⟨s, reply, .refl, Option.map_eq_some_iff.mpr ⟨_, hi, rfl⟩⟩
  | threw => exact absurd rfl (o.threw _ (List.mem_of_getElem? hi))
  | resolved ok => exact goOn_returned hi
  | waiting =>
      have waits : stageOf i s = some .waiting := Option.map_eq_some_iff.mpr ⟨_, hi, rfl⟩
      have step : perform s (.timeout i) = some (setStage i (.resolved false) s) := if_pos waits
      have alone : Alone s (.timeout i) := by
        rintro ⟨kind, never⟩
        cases never
      have next : (setStage i (.resolved false) s).calls[i]? = some ⟨kind, .resolved false⟩ := by
        simp [setStage, hi]
      obtain ⟨t, reply, run, returned⟩ := goOn_returned next
      exact ⟨t, reply, .head alone step run, returned⟩

/-- In every run whose calls on a helper start alone: no call throws, each can complete by its
own steps, `collectMetrics` returns the map sent for its own request or null from a helper
that is dead, and no call gets a reply meant for another. -/
theorem calls_answered (run : Reaches (stepOf perform) Alone {} s) :
    (∀ i c, s.calls[i]? = some c → c.stage ≠ .threw ∧
      (∃ t reply, Reaches (stepOf perform) Alone s t ∧ stageOf i t = some (.returned reply)) ∧
      ∀ reply, c.kind = .collect → c.stage = .returned reply →
        reply = some ⟨.collect, i⟩ ∨ reply = none ∧ s.alive = false) ∧
    ∀ i reply, (i, reply) ∈ s.consumed → reply.call = i := by
  have o := orderly_of_reaches run
  constructor
  · intro i c hi
    exact ⟨o.threw c (List.mem_of_getElem? hi), o.can_finish hi,
      fun reply kind ended => o.returned i c reply hi ended kind⟩
  · intro i reply he
    exact o.consumed (i, reply) he

/-- A scrape, a hot reload and a close, one after the other. -/
def oneAfterAnother : List Act :=
  [.start .collect, .serve, .arrive, .deliver, .resume 0, .start .reload, .serve, .answer, .arrive,
    .deliver, .resume 1, .start .close, .serve, .answer, .arrive, .deliver, .resume 2]

instance : Decidable (Alone s a) :=
  match a with
  | .start kind => decidable_of_iff (∀ c ∈ s.calls, c.stage.isOver = true)
      ⟨fun h _ => h, fun h => h ⟨kind, rfl⟩⟩
  | .serve | .answer | .exit | .arrive | .deliver | .ended | .timeout _ | .resume _ | .exitNoticed =>
      isTrue (by rintro ⟨_, never⟩; cases never)

theorem calls_answered_three : ∃ s : State,
    ((∀ i c, s.calls[i]? = some c → c.stage ≠ .threw ∧
      (∃ t reply, Reaches (stepOf perform) Alone s t ∧ stageOf i t = some (.returned reply)) ∧
      ∀ reply, c.kind = .collect → c.stage = .returned reply →
        reply = some ⟨.collect, i⟩ ∨ reply = none ∧ s.alive = false) ∧
    ∀ i reply, (i, reply) ∈ s.consumed → reply.call = i) ∧
    s.calls = [⟨.collect, .returned (some ⟨.collect, 0⟩)⟩, ⟨.reload, .returned none⟩,
      ⟨.close, .returned none⟩] := by
  obtain ⟨s, run, same⟩ := exec_any (f := guarded Alone perform) (s := {})
    (p := fun s => s.calls = [⟨.collect, .returned (some ⟨.collect, 0⟩)⟩, ⟨.reload, .returned none⟩,
      ⟨.close, .returned none⟩])
    (show (exec _ oneAfterAnother _).any _ = true by decide +kernel)
  exact ⟨s, calls_answered (exec_guarded run), same⟩

/-- Two calls of `aggregatedMetrics` at a time: the second one's `moveNext` throws. -/
def twoScrapes : List Act := [.start .collect, .start .collect]

theorem overlapping_scrape_throws : ∃ s : State, exec perform twoScrapes {} = some s ∧
    s.calls = [⟨.collect, .waiting⟩, ⟨.collect, .threw⟩] := by
  obtain ⟨s, run, same⟩ := exec_any (f := perform) (s := {})
    (p := fun s => s.calls = [⟨.collect, .waiting⟩, ⟨.collect, .threw⟩])
    (show (exec _ twoScrapes _).any _ = true by decide +kernel)
  exact ⟨s, run, same⟩

end NitroServer.Helper
