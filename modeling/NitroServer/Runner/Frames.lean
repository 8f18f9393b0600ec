/-
The order in which a WebSocket session gets the frames of its connection (`_onWsMessage`,
`_dispatchWs`, `_runWs`): those that came before the session was opened are parked and replayed when
its handler starts, those that come while the gate decides are delivered at once.

* `Order` — where a connection stands, and which frames its session has had by then.
* `frames_in_order` — in every run: first what came during the gate, then what was parked, then the
  rest. `gate_overtakes` is a run in which a later frame comes first.
-/

import NitroServer.Runner.Sessions

namespace NitroServer.Runner

open Lib

variable {U : UserCode}

namespace Output

/-- The frame of `j` that is taken. -/
def frameOf (j : Int64) : Output U → Option Frame
  | .receivedFrame id frame => if id = j then some frame else none
  | _ => none

/-- A session of `j` is opened. -/
def isUpgrade (j : Int64) : Output U → Bool
  | .upgrade id _ => id == j
  | _ => false

/-- The parked frames of `j` are lost. -/
def isEvicted (j : Int64) : Output U → Bool
  | .evicted id => id == j
  | _ => false

end Output

/-- The frames of `j` that have been taken, in order. -/
def framesOf (j : Int64) (out : List (Output U)) : List Frame := out.filterMap (Output.frameOf j)

/-- The session has had the frames `order` from the front, and all of them while it is open. -/
def Session.Follows (session : Session) (order : List Frame) : Prop :=
  session.offered <+: order ∧ (session.done = false → session.offered = order)

section Lists

variable {j : Int64} {out os : List (Output U)} {session after : Session} {order : List Frame}

theorem framesOf_append : framesOf j (out ++ os) = framesOf j out ++ framesOf j os :=
  List.filterMap_append

theorem framesOf_silent (none_ : ∀ o ∈ os, o.frameOf j = none) :
    framesOf j (out ++ os) = framesOf j out := by
  rw [framesOf_append, framesOf, framesOf, List.filterMap_eq_nil_iff.mpr none_, List.append_nil]

theorem Session.Follows.over_ (h : session.Follows order)
    (offered : after.offered = session.offered)
    (done : after.done = false → session.done = false) : after.Follows order :=
  ⟨offered ▸ h.1, fun open_ => offered.trans (h.2 (done open_))⟩

/-- More is to come, for a session that is over. -/
theorem Session.Follows.more (h : session.Follows order) (done : session.done = true)
    (frames : List Frame) : session.Follows (order ++ frames) :=
  ⟨h.1.trans (List.prefix_append ..), fun open_ => by rw [done] at open_; cases open_⟩

/-- One more frame for an open session. -/
theorem Session.Follows.snoc (h : session.Follows order) (open_ : session.done = false)
    {frames : List Frame} (offered : after.offered = session.offered ++ frames) :
    after.Follows (order ++ frames) := by
  rw [Session.Follows, offered, h.2 open_]
  exact ⟨List.prefix_rfl, fun _ => rfl⟩

end Lists

namespace Machine

variable {host : Host U} {s t u : Machine U} {j : Int64} {i : Nat} {session after : Session}
  {before since : List (Output U)}

/-! ### Where a connection stands -/

/-- The one session of `j`. -/
structure Opened (j : Int64) (s : Machine U) (i : Nat) (session : Session)
    (before since : List (Output U)) : Prop where
  found : s.sessions[i]? = some session
  id : session.id = j
  only : ∀ (k : Nat) (other : Session), s.sessions[k]? = some other → other.id = j → k = i
  live : session.done = false → s.wsSessions.find j = some i
  out : ∃ context, s.out = before ++ .upgrade j context :: since

/-- Which frames it has had, by its phase: `before` has gone out before it was opened, `since`
after. -/
structure Placed (j : Int64) (i : Nat) (session : Session) (early : Option (List Frame))
    (before since : List (Output U)) : Prop where
  parked : session.phase = .gating → session.done = false → early.getD [] = framesOf j before
  running : session.phase = .running → ∃ during after, since = during ++ .wsRun i :: after ∧
    session.Follows (framesOf j during ++ framesOf j before ++ framesOf j after)
  waiting : session.phase ≠ .running → session.Follows (framesOf j since)

inductive Order (j : Int64) (s : Machine U) : Prop where
  | unopened : (∀ o ∈ s.out, o.isUpgrade j = false) →
      (∀ (k : Nat) (other : Session), s.sessions[k]? = some other → other.id ≠ j) →
      j ∉ s.wsOpened.keys → (s.wsEarly.find j).getD [] = framesOf j s.out → Order j s
  | opened {i : Nat} {session : Session} {before since : List (Output U)} :
      Opened j s i session before since →
      Placed j i session (s.wsEarly.find j) before since → Order j s

theorem Opened.unique {k : Nat} {other : Session} (h : Opened j s i session before since)
    (found : s.sessions[k]? = some other) (own : other.id = j) : k = i ∧ other = session := by
  obtain rfl := h.only k other found own
  have same := h.found
  rw [found, Option.some.injEq] at same
  exact ⟨rfl, same⟩

/-- The session changes. -/
theorem Opened.update (h : Opened j s i session before since) (after : Session)
    (sessions : t.sessions = s.sessions.set i after) (id : after.id = session.id)
    (live : after.done = false → t.wsSessions.find j = some i) (os : List (Output U))
    (outs : t.out = s.out ++ os) : Opened j t i after before (since ++ os) := by
  obtain ⟨context, out⟩ := h.out
  have inside : i < s.sessions.length := (List.getElem?_eq_some_iff.mp h.found).1
  refine ⟨?_, id.trans h.id, fun k other there mine => ?_, live, context, ?_⟩
  · rw [sessions]
    exact List.getElem?_set_self inside
  · by_cases same : k = i
    · exact same
    · rw [sessions, List.getElem?_set_ne (Ne.symm same)] at there
      exact h.only k other there mine
  · rw [outs, out, List.append_assoc, List.cons_append]

/-- Nothing of the connection changes, and no frame is among the new outputs. -/
theorem Placed.silent {early : Option (List Frame)} (h : Placed j i session early before since)
    {os : List (Output U)} (none_ : ∀ o ∈ os, o.frameOf j = none) :
    Placed j i session early before (since ++ os) := by
  refine ⟨h.parked, fun running => ?_, fun waits => ?_⟩
  · obtain ⟨during, after, split, follows⟩ := h.running running
    refine ⟨during, after ++ os, by rw [split, List.append_assoc, List.cons_append], ?_⟩
    rw [framesOf_silent none_]
    exact follows
  · rw [framesOf_silent none_]
    exact h.waiting waits

/-- The two states agree on the connection `j`. -/
structure Apart (j : Int64) (s t : Machine U) : Prop where
  mine : ∀ (k : Nat) (session : Session), session.id = j →
    (t.sessions[k]? = some session ↔ s.sessions[k]? = some session)
  live : t.wsSessions.find j = s.wsSessions.find j
  early : t.wsEarly.find j = s.wsEarly.find j
  opened : j ∈ t.wsOpened.keys → j ∈ s.wsOpened.keys
  out : ∃ os, t.out = s.out ++ os ∧ ∀ o ∈ os, o.frameOf j = none ∧ o.isUpgrade j = false

theorem Apart.refl (j : Int64) (s : Machine U) : Apart j s s :=
  ⟨fun _ _ _ => .rfl, rfl, rfl, fun mem => mem, [], (List.append_nil _).symm,
    fun o mem => by cases mem⟩

theorem Apart.trans (first : Apart j s t) (second : Apart j t u) : Apart j s u := by
  obtain ⟨os, outs, none_⟩ := first.out
  obtain ⟨os', outs', none'⟩ := second.out
  refine ⟨fun k session mine => (second.mine k session mine).trans (first.mine k session mine),
    second.live.trans first.live, second.early.trans first.early,
    fun mem => first.opened (second.opened mem), os ++ os', ?_, fun o mem => ?_⟩
  · rw [outs', outs, List.append_assoc]
  · rcases List.mem_append.mp mem with old | new
    · exact none_ o old
    · exact none' o new

theorem Order.apart (h : Order j s) (same : Apart j s t) : Order j t := by
  obtain ⟨os, outs, none_⟩ := same.out
  have frames : ∀ o ∈ os, o.frameOf j = none := fun o mem => (none_ o mem).1
  cases h with
  | unopened quiet others fresh early =>
      refine .unopened (fun o mem => ?_) (fun k other there mine => ?_) (fun mem => ?_) ?_
      · rw [outs] at mem
        rcases List.mem_append.mp mem with old | new
        · exact quiet o old
        · exact (none_ o new).2
      · exact others k other ((same.mine k other mine).mp there) mine
      · exact fresh (same.opened mem)
      · rw [same.early, outs, framesOf_silent frames]
        exact early
  | @opened i session before since opened placed =>
      obtain ⟨context, out⟩ := opened.out
      have kept : Opened j t i session before (since ++ os) := by
        refine ⟨(same.mine i session opened.id).mpr opened.found, opened.id,
          fun k other there mine => ?_, fun open_ => ?_, context, ?_⟩
        · exact opened.only k other ((same.mine k other mine).mp there) mine
        · rw [same.live]
          exact opened.live open_
        · rw [outs, out, List.append_assoc, List.cons_append]
      exact .opened kept (same.early ▸ placed.silent frames)

/-! ### The other connections -/

/-- A session of another connection changes. -/
theorem apart_set (found : s.sessions[i]? = some session) (other : session.id ≠ j)
    (sessions : t.sessions = s.sessions.set i after) (id : after.id = session.id)
    (live : t.wsSessions.find j = s.wsSessions.find j)
    (early : t.wsEarly.find j = s.wsEarly.find j) (wsOpened : t.wsOpened = s.wsOpened)
    (os : List (Output U)) (outs : t.out = s.out ++ os)
    (none_ : ∀ o ∈ os, o.frameOf j = none ∧ o.isUpgrade j = false) : Apart j s t := by
  refine ⟨fun k mine own => ?_, live, early, fun mem => wsOpened ▸ mem, os, outs, none_⟩
  rw [sessions]
  by_cases same : k = i
  · subst same
    have inside : k < s.sessions.length := (List.getElem?_eq_some_iff.mp found).1
    rw [List.getElem?_set_self inside, found, Option.some.injEq, Option.some.injEq]
    constructor
    · rintro rfl
      exact absurd (id.symm.trans own) other
    · rintro rfl
      exact absurd own other
  · rw [List.getElem?_set_ne (Ne.symm same)]

/-- A replay takes no frame off the engine's hands. -/
theorem Played.silent {heard : List Frame} (played : Played i session after heard s t) (j : Int64) :
    ∃ os, t.out = s.out ++ os ∧ ∀ o ∈ os, o.frameOf j = none := by
  obtain ⟨os, outs, only⟩ := played.out
  refine ⟨os, outs, fun o mem => ?_⟩
  obtain ⟨code, rfl⟩ := only o mem
  rfl

theorem apart_played {heard : List Frame} (played : Played i session after heard s t)
    (found : s.sessions[i]? = some session) (other : session.id ≠ j) : Apart j s t := by
  obtain ⟨os, outs, only⟩ := played.out
  refine apart_set found other played.sessions played.id (played.others j (Ne.symm other))
    (by rw [played.wsEarly]) played.wsOpened os outs fun o mem => ?_
  obtain ⟨code, rfl⟩ := only o mem
  exact ⟨rfl, rfl⟩

theorem apart_deliver (found : s.sessions[i]? = some session) (other : session.id ≠ j)
    (frame : Frame) : Apart j s (s.deliverWs host i frame) := by
  cases done : session.done with
  | true =>
      rw [deliverWs_done found done]
      exact apart_set found other rfl rfl rfl rfl rfl [] (List.append_nil _).symm
        fun o mem => by cases mem
  | false =>
      obtain ⟨after, played⟩ := played_deliver host found done frame
      exact apart_played played found other

theorem apart_unpark (s : Machine U) {id : Int64} (other : id ≠ j) :
    Apart j s { s with wsEarly := s.wsEarly.erase id } :=
  ⟨fun _ _ _ => .rfl, rfl, Table.find_erase.trans (if_neg (Ne.symm other)), fun mem => mem, [],
    (List.append_nil _).symm, fun o mem => by cases mem⟩

theorem apart_phase (found : s.sessions[i]? = some session) (other : session.id ≠ j)
    (phase : Phase) : Apart j s (s.setPhase i phase) :=
  apart_set found other (modify_found found _) rfl rfl rfl rfl [] (List.append_nil _).symm
    fun o mem => by cases mem

theorem apart_emit (s : Machine U) {o : Output U} (none_ : o.frameOf j = none)
    (quiet : o.isUpgrade j = false) : Apart j s (s.emit o) :=
  ⟨fun _ _ _ => .rfl, rfl, rfl, fun mem => mem, [o], rfl,
    List.forall_mem_singleton.mpr ⟨none_, quiet⟩⟩

theorem apart_run (found : s.sessions[i]? = some session) (other : session.id ≠ j) :
    Apart j s (s.runWs host session.id i) := by
  have found' : { s with wsEarly := s.wsEarly.erase session.id }.sessions[i]? = some session :=
    found
  obtain ⟨heard, after, played, -⟩ :=
    played_replay host ((s.wsEarly.find session.id).getD []) found'
  refine ((apart_unpark s other).trans (apart_played played found' other)).trans ?_
  rw [runWs]
  have here := played.found found'
  generalize Machine.replay host i _ _ = t at played here ⊢
  exact (apart_phase here (played.id ▸ other) .running).trans (apart_emit _ rfl rfl)

theorem apart_finish (found : s.sessions[i]? = some session) (other : session.id ≠ j) (code : Int) :
    Apart j s (s.finish i code) := by
  cases done : session.done with
  | true =>
      rw [finish_done found done]
      exact .refl j s
  | false =>
      rw [finish_open found done]
      have shape : session = { session with offered := session.offered ++ [] } := by
        rw [List.append_nil]
      exact apart_played (played_shut s i shape code) found other

/-- What is parked of `j` stays when nothing of it is evicted. -/
theorem find_boundWsLoop (turns : Nat) (s : Machine U)
    (kept : ∀ o ∈ (boundWsLoop turns s).out, o.isEvicted j = false) :
    (boundWsLoop turns s).wsEarly.find j = s.wsEarly.find j := by
  induction turns generalizing s with
  | zero => rfl
  | succ turns ih =>
      rw [boundWsLoop] at kept ⊢
      split at kept
      · rename_i much
        rw [if_pos much]
        split at kept
        · rename_i e rest first
          rw [ih _ kept]
          obtain ⟨wsEarly, os, eq, -⟩ :=
            boundWsLoop_eq turns ({ s with wsEarly := s.wsEarly.erase e.1 }.emit (.evicted e.1))
          have gone : (e.1 == j) = false := by
            refine kept (.evicted e.1) ?_
            rw [eq]
            exact List.mem_append_left _ (List.mem_append_right _ (List.mem_singleton_self _))
          exact Table.find_erase.trans (if_neg fun same => by simp [same] at gone)
        · rfl
      · rename_i fits
        rw [if_neg fits]

/-! ### The connection itself -/

/-- The session of `j` changes; what it has had and whether it is over may not. -/
theorem Placed.over_ {early : Option (List Frame)} (h : Placed j i session early before since)
    (after : Session) (offered : after.offered = session.offered)
    (done : after.done = false → session.done = false)
    (phase : after.phase = session.phase) : Placed j i after early before since := by
  refine ⟨fun gating open_ => h.parked (phase ▸ gating) (done open_), fun running => ?_,
    fun waits => (h.waiting (phase ▸ waits)).over_ offered done⟩
  obtain ⟨during, rest, split, follows⟩ := h.running (phase ▸ running)
  exact ⟨during, rest, split, follows.over_ offered done⟩

theorem order_finish (h : Order j s) (found : s.sessions[i]? = some session) (code : Int) :
    Order j (s.finish i code) := by
  by_cases own : session.id = j
  · cases done : session.done with
    | true =>
        rw [finish_done found done]
        exact h
    | false =>
        rw [finish_open found done]
        cases h with
        | unopened _ others => exact absurd own (others i session found)
        | @opened k _ before since opened placed =>
            obtain ⟨rfl, rfl⟩ := opened.unique found own
            have kept : Opened j (s.shut i session code) i (session.finish code) before
                (since ++ [.wsClose i session.id code]) :=
              opened.update (session.finish code) rfl rfl (fun open_ => by cases open_) _ rfl
            have had := placed.over_ (session.finish code) rfl (fun open_ => by cases open_) rfl
            exact .opened kept (had.silent (by simp [Output.frameOf]))
  · exact h.apart (apart_finish found own code)

theorem order_consume (h : Order j s) (took : s.wsConsume i = some t) : Order j t := by
  rw [wsConsume] at took
  split at took
  · cases took
  · rename_i session found
    obtain ⟨m, next, rfl⟩ := Option.map_eq_some_iff.mp took
    have nil_ : s.out = s.out ++ [] := (List.append_nil _).symm
    by_cases own : session.id = j
    · cases h with
      | unopened _ others => exact absurd own (others i session found)
      | @opened k _ before since opened placed =>
          obtain ⟨rfl, rfl⟩ := opened.unique found own
          have kept := opened.update (t := { s with sessions := s.sessions.set i { session with
            consumed := session.consumed + 1
            inboundBuffered := session.inboundBuffered - m.size } }) _ rfl rfl
            (fun open_ => opened.live open_) [] nil_
          rw [List.append_nil] at kept
          exact .opened kept (placed.over_ _ rfl (fun open_ => open_) rfl)
    · exact h.apart (apart_set found own rfl rfl rfl rfl rfl [] nil_ fun o mem => by cases mem)

/-- The gate turns the connection away. -/
theorem order_turnAway (h : Order j s) (found : s.sessions[i]? = some session)
    (gating : session.phase = .gating) :
    Order j ({ s with wsEarly := s.wsEarly.erase session.id }.setPhase i .turnedAway) := by
  by_cases own : session.id = j
  · cases h with
    | unopened _ others => exact absurd own (others i session found)
    | @opened k _ before since opened placed =>
        obtain ⟨rfl, rfl⟩ := opened.unique found own
        have kept := opened.update (t := { s with wsEarly := s.wsEarly.erase session.id }.setPhase i
          .turnedAway) { session with phase := .turnedAway } (modify_found found _) rfl
          (fun open_ => opened.live open_) [] (List.append_nil _).symm
        rw [List.append_nil] at kept
        have had := placed.waiting (by simp [gating])
        exact .opened kept ⟨fun away => (by cases away), fun away => (by cases away), fun _ => had⟩
  · have found' : { s with wsEarly := s.wsEarly.erase session.id }.sessions[i]? = some session :=
      found
    exact h.apart ((apart_unpark s own).trans (apart_phase found' own .turnedAway))

/-- The handler is started, and has what was parked. -/
theorem order_run (h : Order j s) (found : s.sessions[i]? = some session)
    (gating : session.phase = .gating) : Order j (s.runWs host session.id i) := by
  by_cases own : session.id = j
  · cases h with
    | unopened _ others => exact absurd own (others i session found)
    | @opened k _ before since opened placed =>
        obtain ⟨rfl, rfl⟩ := opened.unique found own
        have found' : { s with wsEarly := s.wsEarly.erase session.id }.sessions[i]? =
          some session := found
        obtain ⟨heard, after, played, front, all, nothing⟩ :=
          played_replay host ((s.wsEarly.find session.id).getD []) found'
        obtain ⟨os, outs, silent⟩ := played.silent j
        have had := placed.waiting (by simp [gating])
        have follows : after.Follows (framesOf j since ++ framesOf j before) := by
          rw [Session.Follows, played.offered]
          cases done : session.done with
          | true =>
              rw [nothing done, List.append_nil]
              refine ⟨had.1.trans (List.prefix_append ..), fun open_ => ?_⟩
              rw [(played.live open_).1] at done
              cases done
          | false =>
              rw [own, placed.parked gating done] at front all
              rw [had.2 done]
              exact ⟨(List.prefix_append_right_inj _).mpr front, fun open_ => by rw [all open_]⟩
        rw [runWs]
        have here := played.found found'
        generalize Machine.replay host i _ _ = t at played outs here ⊢
        have kept := opened.update (t := (t.setPhase i .running).emit (.wsRun i))
          { after with phase := .running } ?_ played.id ?_ (os ++ [.wsRun i]) ?_
        · refine .opened kept
            ⟨fun run => (by cases run), fun _ => ?_, fun waits => absurd rfl waits⟩
          refine ⟨since ++ os, [], by rw [List.append_assoc], ?_⟩
          rw [framesOf_silent silent, framesOf, framesOf, framesOf, List.filterMap_nil,
            List.append_nil]
          exact follows
        · have phased : t.sessions.modify i _ = _ :=
            modify_found here fun session => { session with phase := .running }
          exact phased.trans (by rw [played.sessions, List.set_set])
        · intro open_
          have live : t.wsSessions = s.wsSessions := (played.live open_).2
          change t.wsSessions.find j = some i
          rw [live]
          exact opened.live (played.live open_).1
        · change t.out ++ [.wsRun i] = _
          rw [outs, List.append_assoc]
  · exact h.apart (apart_run found own)

/-- A frame of the connection itself is the next one. -/
theorem Placed.hear {early early' : Option (List Frame)} {frame : Frame}
    (h : Placed j i session early before since) (open_ : session.done = false)
    (offered : after.offered = session.offered ++ [frame]) (phase : after.phase = session.phase)
    (parked : early' = early) {os : List (Output U)} (frames : framesOf j os = [frame]) :
    Placed j i after early' before (since ++ os) := by
  refine ⟨fun gating _ => parked ▸ h.parked (phase ▸ gating) open_, fun running => ?_,
    fun waits => ?_⟩
  · obtain ⟨during, rest, split, follows⟩ := h.running (phase ▸ running)
    refine ⟨during, rest ++ os, by rw [split, List.append_assoc, List.cons_append], ?_⟩
    rw [framesOf_append, frames, ← List.append_assoc]
    exact follows.snoc open_ offered
  · rw [framesOf_append, frames]
    exact (h.waiting (phase ▸ waits)).snoc open_ offered

/-- A frame for a session that is over is lost. -/
theorem Placed.lost {early early' : Option (List Frame)} (h : Placed j i session early before since)
    (done : session.done = true) (os : List (Output U)) :
    Placed j i session early' before (since ++ os) := by
  refine ⟨fun _ open_ => ?_, fun running => ?_, fun waits => ?_⟩
  · rw [done] at open_
    cases open_
  · obtain ⟨during, rest, split, follows⟩ := h.running running
    refine ⟨during, rest ++ os, by rw [split, List.append_assoc, List.cons_append], ?_⟩
    rw [framesOf_append, ← List.append_assoc]
    exact follows.more done _
  · rw [framesOf_append]
    exact (h.waiting waits).more done _

/-- A frame of another connection. -/
theorem apart_hear (accounts : Accounts host s) {id : Int64} {frame : Frame} (other : id ≠ j)
    (heard : Heard host id frame (s.ackFrame id frame) t)
    (kept : ∀ o ∈ t.out, o.isEvicted j = false) : Apart j s t := by
  have acked : Apart j s (s.ackFrame id frame) := by
    refine ⟨fun _ _ _ => .rfl, rfl, rfl, fun mem => mem,
      [.receivedFrame id frame, .ack id _], List.append_assoc .., ?_⟩
    simp [Output.frameOf, Output.isUpgrade, other]
  have live (k : Nat) (found : (s.ackFrame id frame).wsSessions.find id = some k) :
      ∃ session : Session, (s.ackFrame id frame).sessions[k]? = some session ∧ session.id = id := by
    obtain ⟨session, here, mine, -⟩ := accounts.live id k found
    exact ⟨session, here, mine⟩
  generalize s.ackFrame id frame = u at acked heard live
  refine acked.trans ?_
  cases heard with
  | live found =>
      obtain ⟨session, here, mine⟩ := live _ found
      exact apart_deliver here (mine ▸ other) frame
  | late => exact .refl j _
  | parked none_ fresh =>
      have early : (boundWsEarly { u with
          wsEarly := u.wsEarly.set id ((u.wsEarly.find id).getD [] ++ [frame]) }).wsEarly.find j =
          u.wsEarly.find j :=
        (find_boundWsLoop _ _ kept).trans (Table.find_set.trans (if_neg (Ne.symm other)))
      rw [boundWsEarly] at early ⊢
      obtain ⟨wsEarly, os, eq, only⟩ := boundWsLoop_eq _ { u with
        wsEarly := u.wsEarly.set id ((u.wsEarly.find id).getD [] ++ [frame]) }
      rw [eq] at early ⊢
      refine ⟨fun _ _ _ => .rfl, rfl, early, fun mem => mem, os, rfl, fun o mem => ?_⟩
      obtain ⟨_, rfl⟩ := only o mem
      exact ⟨rfl, rfl⟩

/-- A frame of the connection. -/
theorem order_hear (accounts : Accounts host s) (h : Order j s) {frame : Frame}
    (heard : Heard host j frame (s.ackFrame j frame) t)
    (kept : ∀ o ∈ t.out, o.isEvicted j = false) : Order j t := by
  have outs : (s.ackFrame j frame).out =
      s.out ++ [.receivedFrame j frame, .ack j ((s.wsAcked.find j).getD 0 + 1)] :=
    List.append_assoc ..
  have one : framesOf j [Output.receivedFrame (U := U) j frame,
      .ack j ((s.wsAcked.find j).getD 0 + 1)] = [frame] := by
    simp [framesOf, Output.frameOf]
  cases h with
  | unopened quiet others fresh early =>
      have quiet' : ∀ o ∈ (s.ackFrame j frame).out, o.isUpgrade j = false := by
        intro o mem
        rw [outs] at mem
        rcases List.mem_append.mp mem with old | new
        · exact quiet o old
        · simp only [List.mem_cons, List.not_mem_nil, or_false] at new
          rcases new with rfl | rfl
          · rfl
          · rfl
      cases heard with
      | live found =>
          obtain ⟨session, here, mine, -⟩ := accounts.live j _ found
          exact absurd mine (others _ session here)
      | late _ opened => exact absurd opened fresh
      | parked none_ _ =>
          rw [boundWsEarly] at kept ⊢
          have parked := find_boundWsLoop _ _ kept
          obtain ⟨wsEarly, os, eq, only⟩ := boundWsLoop_eq _ { s.ackFrame j frame with
            wsEarly := (s.ackFrame j frame).wsEarly.set j
              (((s.ackFrame j frame).wsEarly.find j).getD [] ++ [frame]) }
          have silent : ∀ o ∈ os, o.frameOf j = none := by
            intro o mem
            obtain ⟨_, rfl⟩ := only o mem
            rfl
          rw [eq] at parked ⊢
          refine .unopened (fun o mem => ?_) others fresh ?_
          · rcases List.mem_append.mp mem with old | new
            · exact quiet' o old
            · obtain ⟨_, rfl⟩ := only o new
              rfl
          · rw [parked, framesOf_silent silent, outs, framesOf_append, one, ← early, Table.find_set,
              if_pos rfl]
            rfl
  | @opened i session before since opened placed =>
      have over_ (none_ : (s.ackFrame j frame).wsSessions.find j = none) : session.done = true := by
        cases done : session.done with
        | true => rfl
        | false =>
            have live : s.wsSessions.find j = none := none_
            rw [opened.live done] at live
            cases live
      have lost {t : Machine U} (done : session.done = true)
          (sessions : t.sessions = s.sessions) (os : List (Output U))
          (outs : t.out = s.out ++ os) : Order j t := by
        have same := (Played.refl opened.found).sessions
        refine .opened (opened.update session (sessions.trans same) rfl (fun open_ => ?_) os outs)
          (placed.lost done os)
        rw [done] at open_
        cases open_
      cases heard with
      | live found =>
          obtain ⟨session', here, mine, open_⟩ := accounts.live j _ found
          obtain ⟨rfl, rfl⟩ := opened.unique here mine
          obtain ⟨after, played⟩ :=
            played_deliver host (s := s.ackFrame j frame) here open_ frame
          obtain ⟨os, outs', silent⟩ := played.silent j
          rw [outs, List.append_assoc] at outs'
          have kept := opened.update after played.sessions played.id (fun alive => ?_) _ outs'
          · refine .opened kept (placed.hear open_ played.offered played.phase ?_ ?_)
            · rw [played.wsEarly]
              rfl
            · rw [framesOf_silent silent, one]
          · rw [(played.live alive).2]
            exact opened.live open_
      | late none_ _ => exact lost (over_ none_) rfl _ outs
      | parked none_ _ =>
          rw [boundWsEarly]
          obtain ⟨wsEarly, os, eq, -⟩ := boundWsLoop_eq _ { s.ackFrame j frame with
            wsEarly := (s.ackFrame j frame).wsEarly.set j
              (((s.ackFrame j frame).wsEarly.find j).getD [] ++ [frame]) }
          rw [eq]
          refine lost (over_ none_) rfl ([.receivedFrame j frame,
            .ack j ((s.wsAcked.find j).getD 0 + 1)] ++ os) ?_
          rw [← List.append_assoc, ← outs]

/-! ### Opening -/

theorem order_opens (h : Order j s) (id : Int64) (context : Context)
    (once : (s.openWs host id context).out.countP (Output.isUpgrade j) ≤ 1) :
    Order j (s.openWs host id context) := by
  by_cases own : id = j
  · subst own
    cases h with
    | unopened quiet others fresh early =>
        have inside : (s.openWs host id context).sessions =
            s.sessions ++ [{ id := id, compressed := host.compressed context }] := rfl
        have kept : Opened id (s.openWs host id context) s.sessions.length
            { id := id, compressed := host.compressed context } s.out [] := by
          refine ⟨openWs_session s id context, rfl, fun k other there mine => ?_,
            fun _ => Table.find_set.trans (if_pos rfl), context, rfl⟩
          by_contra different
          rw [inside, List.getElem?_append] at there
          split at there
          · exact others k other there mine
          · rename_i above
            rw [List.getElem?_singleton, if_neg (by omega)] at there
            cases there
        refine .opened kept ⟨fun _ _ => early, fun run => (by cases run), fun _ => ?_⟩
        exact ⟨List.nil_prefix, fun _ => rfl⟩
    | @opened i session before since opened placed =>
        obtain ⟨context', out⟩ := opened.out
        have twice : (s.openWs host id context).out =
            before ++ .upgrade id context' :: (since ++ [.upgrade id context]) := by
          rw [openWs, emit, out, List.append_assoc, List.cons_append]
        rw [twice, List.countP_append, List.countP_cons, List.countP_append] at once
        simp only [Output.isUpgrade, beq_self_eq_true, if_true, List.countP_singleton] at once
        omega
  · refine h.apart ⟨fun k session mine => ?_, Table.find_set.trans (if_neg (Ne.symm own)), rfl,
      fun mem => (Recent.mem_add mem).resolve_left (Ne.symm own), [.upgrade id context], rfl, ?_⟩
    · rw [openWs, emit]
      rw [List.getElem?_append]
      split
      · exact .rfl
      · rename_i above
        rw [List.getElem?_eq_none (Nat.not_lt.mp above), List.getElem?_singleton]
        split
        · constructor
          · intro same
            rw [Option.some.injEq] at same
            subst same
            exact absurd mine own
          · intro none_
            cases none_
        · exact .rfl
    · simp [Output.frameOf, Output.isUpgrade, own]

/-! ### Runs -/

/-- `j` has one session at most, none of its parked frames is lost, and the runner is open. -/
structure Regular (j : Int64) (s : Machine U) : Prop where
  open_ : s.closed = false
  once : s.out.countP (Output.isUpgrade j) ≤ 1
  kept : ∀ o ∈ s.out, o.isEvicted j = false

/-- What holds of a run holds of its start. -/
theorem Regular.earlier (h : Regular j t) (closed : s.closed = true → t.closed = true)
    {os : List (Output U)} (outs : t.out = s.out ++ os) : Regular j s := by
  obtain ⟨open_, once, kept⟩ := h
  rw [outs, List.countP_append] at once
  rw [outs] at kept
  refine ⟨?_, Nat.le_of_add_right_le once, fun o mem => kept o (List.mem_append_left _ mem)⟩
  rw [Bool.eq_false_iff]
  intro shut
  rw [closed shut] at open_
  cases open_

theorem SameWs.apart (h : SameWs s t) (j : Int64) : Apart j s t := by
  obtain ⟨os, outs, silent⟩ := h.out
  refine ⟨fun k session _ => by rw [h.sessions], by rw [h.wsSessions], by rw [h.wsEarly],
    fun mem => h.wsOpened ▸ mem, os, outs, fun o mem => ?_⟩
  have quiet := silent o mem
  cases o with
  | receivedFrame => cases quiet
  | upgrade => cases quiet
  | _ => exact ⟨rfl, rfl⟩

theorem apart_send (s : Machine U) (i : Nat) (payload : Engine.Bytes) (binary : Bool) :
    Apart j s (s.wsSend host i payload binary) := by
  rw [wsSend]
  split
  · exact .refl j s
  · split
    · exact .refl j s
    · exact apart_emit s rfl rfl

theorem close_closed (s : Machine U) : s.close.closed = true := by
  cases closed : s.closed with
  | true =>
      rw [close, if_pos closed]
      exact closed
  | false =>
      obtain ⟨_, eq⟩ := shutdowns_eq (U := U) s.wsSessions.entries
      rw [close_eq closed, eq]

theorem order_take (accounts : Accounts host s) (h : Order j s) {id : Int64}
    {payload : Option Frame} (take : Take host id payload s t) (regular : Regular j t) :
    Order j t := by
  rcases take_cases take with same | ⟨frame, heard⟩
  · exact h.apart (same.apart j)
  · by_cases own : id = j
    · subst own
      exact order_hear accounts h heard regular.kept
    · exact h.apart (apart_hear accounts own heard regular.kept)

theorem order_move (h : Order j s) (move : Move host s t) (regular : Regular j t) : Order j t := by
  cases move_cases move with
  | same same => exact h.apart (same.apart j)
  | ws ws =>
      cases ws with
      | finish i code =>
          cases found : s.sessions[i]? with
          | none =>
              rw [finish_none found]
              exact h
          | some session => exact order_finish h found code
      | run found gating => exact order_run h found gating
      | turnAway found gating => exact order_turnAway h found gating
      | consume took => exact order_consume h took
      | send i payload binary => exact h.apart (apart_send s i payload binary)
  | opens id context same => exact order_opens (h.apart (same.apart j)) id context regular.once
  | close =>
      have open_ := regular.open_
      rw [close_closed] at open_
      cases open_

theorem reaches_order {ok : Machine U → Act U → Prop}
    (run : Reaches (stepOf (step host)) ok {} s) (regular : Regular j s) : Order j s := by
  have start : Reaches (stepOf (step host)) ok {} {} := .refl
  have both : Accounts host s ∧ (Regular j s → Order j s) := by
    refine reaches_moves (I := fun s => Accounts host s ∧ (Regular j s → Order j s))
      ⟨reaches_accounts start, fun _ => ?_⟩ ?_ ?_ run
    · refine .unopened (fun o mem => ?_) (fun k other there => ?_) (fun mem => ?_) rfl
      · cases mem
      · cases there
      · cases mem
    · intro id payload s t ⟨accounts, order⟩ take
      obtain ⟨os, outs, -⟩ := take_out take
      refine ⟨take_accounts accounts take, fun regular => ?_⟩
      have earlier : Regular j s := regular.earlier (fun shut => (take_closed take).trans shut) outs
      exact order_take accounts (order earlier) take regular
    · intro s t ⟨accounts, order⟩ move
      obtain ⟨os, outs, -⟩ := move_out move
      refine ⟨move_accounts accounts move, fun regular => ?_⟩
      have earlier : Regular j s := regular.earlier (move_closed move) outs
      exact order_move (order earlier) move regular
  exact both.2 regular

/-- While the runner is open, the one session of a connection, whose parked frames were not given
up, has had its frames in this order, from the front, and all of them while it is open: before its
handler runs, those that came since it was opened; then also those that came before that; and then
those that came since the handler was started. -/
theorem frames_in_order {ok : Machine U → Act U → Prop}
    (run : Reaches (stepOf (step host)) ok {} s) (found : s.sessions[i]? = some session)
    (open_ : s.closed = false) (once : s.out.countP (Output.isUpgrade session.id) ≤ 1)
    (kept : ∀ o ∈ s.out, o.isEvicted session.id = false) :
    ∃ before context since, s.out = before ++ .upgrade session.id context :: since ∧
      (session.phase = .running → ∃ during after, since = during ++ .wsRun i :: after ∧
        session.Follows (framesOf session.id during ++ framesOf session.id before ++
          framesOf session.id after)) ∧
      (session.phase ≠ .running → session.Follows (framesOf session.id since)) := by
  cases reaches_order run ⟨open_, once, kept⟩ with
  | unopened _ others => exact absurd rfl (others i session found)
  | @opened k _ before since opened placed =>
      obtain ⟨rfl, rfl⟩ := opened.unique found rfl
      obtain ⟨context, out⟩ := opened.out
      exact ⟨before, context, since, out, placed.running, placed.waiting⟩

/-- The frame that came while the gate decided is ahead of the one that came before. -/
theorem gate_overtakes :
    ∃ s session, exec (step sampleHost) socketRun {} = some s ∧ s.sessions[0]? = some session ∧
      session.offered = [⟨1, 0, Engine.ascii "b"⟩, ⟨1, 0, Engine.ascii "a"⟩,
        ⟨2, 0, Engine.ascii "cd"⟩] ∧
      ∃ before context since, s.out = before ++ .upgrade session.id context :: since ∧
        (session.phase = .running → ∃ during after, since = during ++ .wsRun 0 :: after ∧
          session.Follows (framesOf session.id during ++ framesOf session.id before ++
            framesOf session.id after)) ∧
        (session.phase ≠ .running → session.Follows (framesOf session.id since)) := by
  obtain ⟨s, run, shape⟩ := exec_any (f := step sampleHost) (s := {})
    (p := fun s => s.sessions[0]?.map (fun session => (session.id, session.offered)) = some (7,
        [⟨1, 0, Engine.ascii "b"⟩, ⟨1, 0, Engine.ascii "a"⟩, ⟨2, 0, Engine.ascii "cd"⟩]) ∧
      s.closed = false ∧ s.out.countP (Output.isUpgrade 7) ≤ 1 ∧
      ∀ o ∈ s.out, o.isEvicted 7 = false)
    (show (exec _ socketRun _).any _ = true by decide +kernel)
  obtain ⟨first, open_, once, kept⟩ := shape
  obtain ⟨session, found, both⟩ := Option.map_eq_some_iff.mp first
  obtain ⟨id, offered⟩ := Prod.mk.inj both
  refine ⟨s, session, run, found, offered, ?_⟩
  exact frames_in_order (exec_reaches run) found open_ (id ▸ once) (id ▸ kept)

end Machine

end NitroServer.Runner
