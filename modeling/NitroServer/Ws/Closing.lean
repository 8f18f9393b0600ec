/-
The close frame of a session.

Two paths close a session: `wsCloseConn` on the loop writes a close frame at once, `wsClose`
puts one into the inbox. Neither stops what the other side of the reactor still has to say:
frames that wait in the inbox go out behind the close frame of `wsCloseConn`, the timer pings
a session that is closing, and a session closed by its handler still answers its client.

* `orderly` — the steps on which none of this happens.
* `tidy_step` — such a step writes a close frame only as the last frame.
* `close_is_last` — every run of such steps, from the moment the connection is accepted.
-/

import NitroServer.Ws.Upgrade
import NitroServer.Ws.Malformed

namespace NitroServer.Engine

open NitroServer.Lib Ws

variable {env : Env}

/-! ### The inbox of a session -/

/-- The entries of a session's inbox are frames. -/
def Lane.Framed (l : Lane) : Prop := l.ws = true → ∀ e ∈ l.queue, e.piece.isFrame = true

theorem Lane.Step.framed {l l' : Lane} {m : Move} (h : l.Step m l') (hs : l.Sound)
    (hf : l.Framed) : l'.Framed := by
  intro ws
  cases h with
  | upgrade gate =>
      intro e he
      have : e ∈ l.queue := he
      simp [(hs.of_open gate.1.1).2.1] at this
  | push found | pushLast found => cases (hs.of_find found).2.2.2.2.2.symm.trans ws
  | drop queue | drain queue | drainFile queue =>
      exact fun e he => hf ws e (queue ▸ List.mem_cons_of_mem _ he)
  | sessionPush _ part =>
      intro e' he'
      rcases List.mem_append.mp he' with he' | he'
      · exact hf ws e' he'
      · rw [List.mem_singleton.mp he', Piece.isFrame, part]
        rfl
  | _ => exact fun e he => hf ws e he

theorem framed_step {r r' : Reactor} {a : Act} (hwf : r.WF) (hf : r.lane.Framed)
    (hstep : step env r a = some r') : r'.lane.Framed := by
  have run := (step_moves env hwf hstep).1
  exact (run.invariant (I := fun l => l.Sound ∧ l.Framed) ⟨hwf.sound, hf⟩
    fun l m l' ⟨hs, hf⟩ _ hstep => ⟨hstep.sound hs, hstep.framed hs hf⟩).2

/-- The pieces of the connection's groups. -/
def ownPieces (id : Nat) (gs : List (Pending × List Pending)) : List Piece :=
  gs.flatMap fun g => if g.1.connId = id then (g.1 :: g.2).map Pending.piece else []

theorem ownPieces_groups {queue : List Pending} {gs : List (Pending × List Pending)} (id : Nat)
    (grouped : ∀ g ∈ gs, Grouped g) (flat : gs.flatMap (fun g => g.1 :: g.2) = queue) :
    ownPieces id gs = (queue.filter fun e => e.connId == id).map Pending.piece := by
  rw [← flat]
  clear flat
  induction gs with
  | nil => rfl
  | cons g gs ih =>
      rw [ownPieces, List.flatMap_cons, ← ownPieces, ih fun g' hg' =>
        grouped g' (List.mem_cons_of_mem _ hg'), List.flatMap_cons, List.filter_append,
        List.map_append]
      congr 1
      have same := (grouped g List.mem_cons_self).same
      split
      · rename_i own
        rw [List.filter_eq_self.mpr]
        intro e he
        rcases List.mem_cons.mp he with rfl | he
        · simp [own]
        · simp [(same e he).1, own]
      · rename_i other
        rw [List.filter_eq_nil_iff.mpr, List.map_nil]
        intro e he
        rcases List.mem_cons.mp he with rfl | he
        · simp [other]
        · simp [(same e he).1, other]

namespace Reactor

variable {r r' : Reactor}

/-! ### Orderly steps -/

/-- The writes of a batch, as they add to the unsent bytes: only the session's last one may
pass the cap of its outbound buffer, and only when it holds no close frame. `n` and `level`
are the number of events and the unsent bytes before the batch. -/
def fits (env : Env) (tls : Bool) (id : Nat) : Nat → Nat → List (Pending × List Pending) → Bool
  | _, _, [] => true
  | n, level, g :: gs =>
      if g.1.connId = id then
        let bytes := payloadBytes ((g.1 :: g.2).map Pending.piece)
        let level := level + if tls then (env.sealed n bytes).length else bytes.length
        let beyond := decide (0 < env.cfg.wsMaxBufferBytes ∧ env.cfg.wsMaxBufferBytes < level)
        (!beyond || ((g.1 :: g.2).all fun e => !e.piece.isClose) &&
          gs.all fun g => g.1.connId != id) && fits env tls id (n + 1) level gs
      else fits env tls id n level gs

/-- The timer has something to say to the session. -/
def sweepSpeaks (env : Env) (r : Reactor) : Bool :=
  if r.conn.closing ∨ 0 < r.conn.writePending ∧ r.elapsed r.conn.writeStartedAt (writeMs env) then
    false
  else if decide (0 < env.cfg.maxConnectionAgeMs) && !r.conn.ageExpired &&
      r.elapsed r.conn.openedAt env.cfg.maxConnectionAgeMs then !r.conn.wsClosing
  else if env.cfg.wsIdleTimeoutMs ≤ 0 then false
  else if r.elapsed r.conn.lastActive env.cfg.wsIdleTimeoutMs then !r.conn.wsClosing
  else !r.conn.wsPingSent && r.elapsed r.conn.lastActive (env.cfg.wsIdleTimeoutMs / 2)

/-- These bytes ask the session for an answer. -/
def readSpeaks (env : Env) (r : Reactor) (data : Bytes) : Bool :=
  !r.conn.closing && !r.conn.wsClosing &&
    asks r.conn.deflate env.cfg.serverMax ((r.conn.buf ++ data).length + 1) r.gathered
      (r.conn.buf ++ data)

/-- The batch goes out in order: nothing of it behind a close frame written before, and
within the cap. -/
def drainsInOrder (env : Env) (r : Reactor) : Bool :=
  !r.conn.ws || r.conn.closing || r.gone ||
    if r.saidClose then r.ownQueue.isEmpty
    else fits env r.conn.tls r.conn.id r.trace.length r.conn.writePending (groups r.queue)

end Reactor

/-- The step does not speak after a close frame. -/
def orderly (env : Env) (r : Reactor) : Act → Bool
  | .read data => !r.saidClose || !r.readSpeaks env data
  | .sweep => !r.saidClose || !r.sweepSpeaks env
  | .async => r.drainsInOrder env
  | _ => true

namespace Reactor

variable {r r' : Reactor}

/-! ### The batch -/

/-- Groups of other connections, or of a closed one, change nothing. -/
theorem writeGroups_skip {gs : List (Pending × List Pending)}
    (skip : ∀ g ∈ gs, g.1.connId ≠ r.conn.id ∨ r.gone = true ∨ r.conn.closing = true) :
    gs.foldl (writeGroup env) r = r := by
  induction gs with
  | nil => rfl
  | cons g gs ih =>
      have here : r.writeGroup env g = r := by
        unfold writeGroup
        exact if_pos (skip g List.mem_cons_self)
      rw [List.foldl_cons, here]
      exact ih fun g' hg' => skip g' (List.mem_cons_of_mem _ hg')

theorem ownPieces_cons (id : Nat) (g : Pending × List Pending) (gs : List (Pending × List Pending)) :
    ownPieces id (g :: gs) =
      (if g.1.connId = id then (g.1 :: g.2).map Pending.piece else []) ++ ownPieces id gs :=
  List.flatMap_cons

/-- What a batch adds to the frames of a session: the session's pieces, and behind them
at most the close frame of a tripped cap. -/
def Drained (r r' : Reactor) (ps : List Piece) : Prop :=
  Adds r r' ps ∨
    (ps ≠ [] ∧ (∀ p ∈ ps, p.isClose = false) ∧ Adds r r' (ps ++ [closeFrame 1009]))

theorem drained_writeGroups {gs : List (Pending × List Pending)} (ws : r.conn.ws = true)
    (live : r.gone = false ∧ r.conn.closing = false)
    (plain : ∀ g ∈ gs, g.1.connId = r.conn.id → g.1.file = none)
    (framed : ∀ p ∈ ownPieces r.conn.id gs, p.isFrame = true)
    (last : ClosesLast (ownPieces r.conn.id gs))
    (fit : fits env r.conn.tls r.conn.id r.trace.length r.conn.writePending gs = true) :
    Drained r (gs.foldl (writeGroup env) r) (ownPieces r.conn.id gs) := by
  induction gs generalizing r with
  | nil => exact .inl (.refl r)
  | cons g gs ih =>
      rw [List.foldl_cons]
      rw [ownPieces_cons] at framed last ⊢
      rw [fits] at fit
      by_cases own : g.1.connId = r.conn.id
      · rw [if_pos own] at framed last fit ⊢
        set ps := (g.1 :: g.2).map Pending.piece with hps
        simp only [Bool.and_eq_true] at fit
        obtain ⟨cap, fit⟩ := fit
        have group : r.writeGroup env g = r.writeAnswer env ps
            ((g.1 :: g.2).getLast (List.cons_ne_nil _ _)).keepAlive
            ((g.1 :: g.2).getLast (List.cons_ne_nil _ _)).finish := by
          unfold writeGroup
          rw [if_neg (by simp [own, live]), plain g List.mem_cons_self own]
        have all : ps.filter Piece.isFrame = ps :=
          List.filter_eq_self.mpr fun p hp => framed p (List.mem_append_left _ hp)
        rw [group]
        generalize ((g.1 :: g.2).getLast (List.cons_ne_nil _ _)).keepAlive = ka
        generalize ((g.1 :: g.2).getLast (List.cons_ne_nil _ _)).finish = fin
        rcases adds_writeAnswer ws ps ka fin with ⟨adds, eq⟩ | ⟨tripped, -, adds⟩
        · rw [all] at adds
          rw [eq] at adds ⊢
          set r₁ := r.startAnswer env ps ka fin
          have count : r₁.trace.length = r.trace.length + 1 := by
            simp [r₁, startAnswer, issueWrite, setConn]
          have later := ih (r := r₁) ws live (fun g' hg' => plain g' (List.mem_cons_of_mem _ hg'))
            (fun p hp => framed p (List.mem_append_right _ hp)) last.of_append
            (by rw [count]; exact fit)
          rcases later with adds' | ⟨more, none, adds'⟩
          · exact .inl (adds.trans adds')
          · have front := last.front more
            refine .inr ⟨List.append_ne_nil_of_right_ne_nil _ more, fun p hp => ?_, ?_⟩
            · exact (List.mem_append.mp hp).elim (front p) (none p)
            · rw [List.append_assoc]
              exact adds.trans adds'
        · rw [Reactor.trips, ← Bool.decide_and, wireSize] at tripped
          rw [tripped, Bool.not_true, Bool.false_or, Bool.and_eq_true, List.all_eq_true,
            List.all_eq_true] at cap
          obtain ⟨open', alone⟩ := cap
          have none : ownPieces r.conn.id gs = [] :=
            List.flatMap_eq_nil_iff.mpr fun g' hg' => if_neg (by simpa using alone g' hg')
          have rest : gs.foldl (writeGroup env) (r.writeAnswer env ps ka fin) =
              r.writeAnswer env ps ka fin :=
            writeGroups_skip fun g' hg' => .inl (by rw [adds.id]; simpa using alone g' hg')
          rw [all] at adds
          rw [rest, none, List.append_nil]
          refine .inr ⟨by simp [hps], fun p hp => ?_, adds⟩
          obtain ⟨e, he, rfl⟩ := List.mem_map.mp hp
          simpa using open' e he
      · rw [if_neg own] at framed last fit ⊢
        have skip : r.writeGroup env g = r := by
          unfold writeGroup
          exact if_pos (.inl own)
        rw [skip, List.nil_append]
        exact ih ws live (fun g' hg' => plain g' (List.mem_cons_of_mem _ hg')) framed last fit

/-! ### The invariant -/

/-- A close frame is the last frame written and the last one waiting, and behind a waiting
one the handler can send no more. -/
structure Proper (r : Reactor) : Prop where
  last : ClosesLast r.frames
  queue : ClosesLast r.waiting
  left : r.conn.id ∈ r.wsConnLoop → ∀ p ∈ r.waiting, p.isClose = false

/-- Before the upgrade there is no frame; after it the inbox holds nothing else. -/
structure Tidy (r : Reactor) : Prop extends Proper r where
  wf : r.WF
  framed : r.lane.Framed
  http : r.conn.ws = false → r.lane.Unspoken

/-- What a session can rely on. -/
structure Steady (r : Reactor) : Prop where
  reqs : r.ownReqs = []
  file : r.conn.file = none
  streaming : r.conn.streamingBody = false
  queue : ∀ e ∈ r.ownQueue, e.file = none
  writes : ∀ w ∈ r.conn.writes, w.finish = true → w.keepAlive = false

theorem WF.steady (hwf : r.WF) (ws : r.conn.ws = true) : r.Steady := by
  obtain ⟨zero, -⟩ := hwf.sound.session ws
  simp only [Lane.credit, Nat.add_eq_zero_iff] at zero
  obtain ⟨⟨⟨reqs, queue⟩, file⟩, fin⟩ := zero
  refine ⟨List.length_eq_zero_iff.mp reqs, Lane.Sound.file_none file, ?_, fun e he => ?_,
    fun w hw hfin => ?_⟩
  · have upload : uploadOf r.conn.streamingBody r.conn.streamReqId = none := hwf.sound.upload ws
    cases hs : r.conn.streamingBody with
    | false => rfl
    | true => simp [uploadOf, hs] at upload
  · have plain := Lane.Sound.queue_plain queue e he
    simp only [Pending.credits, Bool.or_eq_false_iff] at plain
    simpa using plain.1
  · by_contra ka
    refine absurd (List.count_eq_zero.mp fin) (not_not.mpr (List.mem_map.mpr ⟨w, ?_, ?_⟩))
    · exact List.mem_filter.mpr ⟨hw, hfin⟩
    · simpa using ka

/-- Frames that keep the order: none behind a close frame, a close frame as the last. -/
theorem Proper.frames {new : List Piece} (h : r.Proper) (last : ClosesLast new)
    (behind : r.saidClose = true → new = []) : ClosesLast (r.frames ++ new) := by
  cases said : r.saidClose with
  | true =>
      rw [behind said, List.append_nil]
      exact h.last
  | false => exact .append (saidClose_false said) last

theorem Proper.adds {new : List Piece} (h : r.Proper) (adds : Adds r r' new)
    (last : ClosesLast new) (behind : r.saidClose = true → new = []) : r'.Proper := by
  refine ⟨?_, ?_, fun mem => ?_⟩
  · rw [adds.frames]
    exact h.frames last behind
  · rw [adds.waiting]
    exact h.queue
  · rw [adds.waiting]
    exact h.left (adds.sessions mem)

theorem Proper.silent (h : r.Proper) (adds : Adds r r' []) : r'.Proper :=
  h.adds adds closesLast_nil fun _ => rfl

/-! ### Steps of a session -/

theorem Tidy.waiting (h : r.Tidy) (ws : r.conn.ws = true) :
    r.waiting = r.ownQueue.map Pending.piece :=
  List.filter_eq_self.mpr fun p hp => by
    obtain ⟨e, he, rfl⟩ := List.mem_map.mp hp
    exact h.framed ws e he

/-- A batch that is drained in order. -/
theorem proper_onAsync (h : r.Tidy) (ws : r.conn.ws = true) (ok : r.drainsInOrder env = true) :
    (r.onAsync env).Proper := by
  let r₀ : Reactor := { r with queue := [] }
  have empty : r₀.waiting = [] := rfl
  -- whatever the batch writes, the inbox is empty behind it
  have done : ∀ new, Adds r₀ (r.onAsync env) new → ClosesLast new →
      (r.saidClose = true → new = []) → (r.onAsync env).Proper := by
    intro new adds last behind
    refine ⟨?_, by rw [adds.waiting, empty]; exact closesLast_nil, ?_⟩
    · rw [adds.frames]
      exact h.frames last behind
    · rw [adds.waiting, empty]
      simp
  have skipped : (∀ g ∈ groups r.queue, g.1.connId ≠ r₀.conn.id ∨ r₀.gone = true ∨
      r₀.conn.closing = true) → (r.onAsync env).Proper := fun skip => by
    refine done [] ?_ closesLast_nil fun _ => rfl
    rw [onAsync, writeGroups_skip skip]
    exact .refl r₀
  have pieces := ownPieces_groups r.conn.id (groups_grouped r.queue) (groups_flatten r.queue)
  rw [show (r.queue.filter fun e => e.connId == r.conn.id).map Pending.piece = r.waiting from
    (h.waiting ws).symm] at pieces
  simp only [drainsInOrder, Bool.or_eq_true, ws, Bool.not_true, Bool.false_eq_true,
    false_or] at ok
  rcases ok with (closing | gone) | ok
  · exact skipped fun g _ => .inr (.inr closing)
  · exact skipped fun g _ => .inr (.inl gone)
  · by_cases shut : r.gone = true ∨ r.conn.closing = true
    · exact skipped fun g _ => .inr shut
    · have live : r.gone = false ∧ r.conn.closing = false := by simpa using shut
      split at ok
      · rename_i said
        have nothing : r.waiting = [] := by
          rw [h.waiting ws, List.isEmpty_iff.mp ok, List.map_nil]
        refine skipped fun g hg => .inl fun own => ?_
        have : g.1.piece ∈ ownPieces r.conn.id (groups r.queue) :=
          List.mem_flatMap.mpr ⟨g, hg, by rw [if_pos own]; exact List.mem_cons_self⟩
        rw [pieces, nothing] at this
        cases this
      · rename_i said
        have behind : ∀ new : List Piece, r.saidClose = true → new = [] :=
          fun new yes => absurd yes said
        have plain : ∀ g ∈ groups r.queue, g.1.connId = r.conn.id → g.1.file = none := by
          intro g hg own
          have queued : g.1 ∈ r.queue := by
            rw [← groups_flatten r.queue]
            exact List.mem_flatMap.mpr ⟨g, hg, List.mem_cons_self⟩
          exact (h.wf.steady ws).queue g.1 (List.mem_filter.mpr ⟨queued, by simp [own]⟩)
        have framed : ∀ p ∈ ownPieces r.conn.id (groups r.queue), p.isFrame = true := by
          rw [pieces]
          exact fun p hp => (List.mem_filter.mp hp).2
        have last : ClosesLast (ownPieces r.conn.id (groups r.queue)) := pieces ▸ h.queue
        have drained : Drained r₀ (r.onAsync env) (ownPieces r.conn.id (groups r.queue)) :=
          drained_writeGroups ws live plain framed last ok
        rcases drained with adds | ⟨-, open', adds⟩
        · exact done _ adds last (behind _)
        · exact done _ adds (closesLast_snoc open' _) (behind _)

/-- The timer speaks at most once, and then as `sweepSpeaks` says. -/
theorem onSweep_speaks (ws : r.conn.ws = true) :
    ∃ new, Adds r (r.onSweep env) new ∧ ClosesLast new ∧
      (r.sweepSpeaks env = false → new = []) := by
  have silent : ∀ r₁ : Reactor, Adds r r₁ [] → ∃ new, Adds r r₁ new ∧ ClosesLast new ∧
      (r.sweepSpeaks env = false → new = []) := fun r₁ adds =>
    ⟨[], adds, closesLast_nil, fun _ => rfl⟩
  have closes : ∀ r₁ : Reactor, Adds r r₁ [] → r₁.conn.wsClosing = r.conn.wsClosing →
      r.sweepSpeaks env = !r.conn.wsClosing → ∃ new, Adds r (r₁.wsCloseConn env 1001) new ∧
        ClosesLast new ∧ (r.sweepSpeaks env = false → new = []) := by
    intro r₁ adds same speaks
    refine ⟨_, adds.trans (adds_wsCloseConn 1001).1, ?_, fun quiet => ?_⟩
    · split
      · exact closesLast_nil
      · exact closesLast_snoc (by simp) _
    · have closing : r₁.conn.wsClosing = true := by
        rw [same]
        simpa [quiet] using speaks
      rw [if_pos closing, List.append_nil]
  unfold onSweep
  by_cases closing : r.conn.closing = true
  · rw [if_pos closing]
    exact silent r (.refl r)
  rw [if_neg closing]
  by_cases stalled : 0 < r.conn.writePending ∧ r.elapsed r.conn.writeStartedAt (writeMs env)
  · rw [if_pos stalled]
    exact silent _ ((adds_log rfl).trans adds_closeConn)
  rw [if_neg stalled]
  dsimp only
  rw [if_pos ws]
  have start : ¬ (r.conn.closing = true ∨ 0 < r.conn.writePending ∧
      r.elapsed r.conn.writeStartedAt (writeMs env) = true) := by simp [closing, stalled]
  split
  · rename_i aged
    refine closes _ (adds_setConn rfl rfl) rfl ?_
    rw [sweepSpeaks, if_neg start, if_pos aged]
  · rename_i young
    unfold sweepWs
    split
    · exact silent r (.refl r)
    · rename_i on
      split
      · rename_i idle
        refine closes _ (adds_log rfl) rfl ?_
        rw [sweepSpeaks, if_neg start, if_neg young, if_neg on, if_pos idle]
      · rename_i active
        split
        · rename_i due
          have loud : r.sweepSpeaks env = true := by
            rw [sweepSpeaks, if_neg start, if_neg young, if_neg on, if_neg active]
            simpa using due
          have ping : (Piece.mk .session .raw (encodeFrame kPing [] true)).isClose = false := by
            rw [Piece.isClose, encodeFrame_head]
            rfl
          obtain ⟨new, speaks⟩ := speaks_writeAnswer ws ping true false
          have sent := speaks.adds.trans
            (adds_setConn (c := { (r.writeAnswer env [_] true false).conn with wsPingSent := true })
              rfl rfl)
          rw [List.append_nil] at sent
          exact ⟨new, sent, speaks.last, fun quiet => by cases loud.symm.trans quiet⟩
        · exact silent r (.refl r)

theorem proper_readCb (h : r.Proper) (steady : r.Steady) (ws : r.conn.ws = true) {data : Bytes}
    (ok : r.saidClose = true → r.readSpeaks env data = false) : (r.readCb env data).Proper := by
  have ws' : (r.received data).conn.ws = true := ws
  have streaming : (r.received data).conn.streamingBody = false := steady.streaming
  have read : r.readCb env data = (r.received data).wsProcess env := by
    unfold readCb
    dsimp only
    rw [if_neg (by simp [busyBufferFull, ws']), if_neg (by simp [streaming]), if_pos ws']
  have received : Adds r (r.received data) [] := adds_setConn rfl rfl
  rw [read, wsProcess]
  cases said : r.saidClose with
  | false =>
      obtain ⟨new, speaks⟩ := speaks_wsFrames ((r.received data).conn.buf.length + 1) ws'
      exact h.adds (received.trans speaks.adds) speaks.last fun yes => by cases said.symm.trans yes
  | true =>
      have quiet := ok said
      simp only [readSpeaks, Bool.and_eq_false_iff, Bool.not_eq_false'] at quiet
      rcases quiet with (closing | closing) | quiet
      · rw [wsFrames_shut (r := r.received data) _ (shut_iff.mpr (.inl closing))]
        exact h.silent received
      · rw [wsFrames_shut (r := r.received data) _ (shut_iff.mpr (.inr closing))]
        exact h.silent received
      · exact h.silent (received.trans (adds_wsFrames quiet))

/-- A completion on a session says nothing. -/
theorem adds_onWrite (steady : r.Steady) {w : WriteCtx} {rest : List WriteCtx}
    (writes : r.conn.writes = w :: rest) (ok : Bool) (got : Bytes) :
    Adds r (r.onWrite env w rest ok got) [] := by
  have done : Adds r (r.writeDone w rest) [] := adds_setConn rfl rfl
  have file : (r.writeDone w rest).conn.file = none := steady.file
  unfold onWrite
  dsimp only
  split
  · exact done.trans adds_closeConn
  · split
    · rw [if_neg (by simp [file])]
      exact done
    · rename_i fin
      -- a finishing write of a session closes
      have ka : w.keepAlive = false :=
        steady.writes w (by simp [writes]) (by simpa using fin)
      have beyond : Adds (r.writeDone w rest) (r.writeDone w rest).requestOver [] :=
        adds_setConn rfl rfl
      rw [onFinished, if_pos (.inl (by simp [ka]))]
      exact (done.trans beyond).trans adds_closeConn

/-! Answers to the requests of other connections. -/

theorem adds_eraseReq (id : Nat) : Adds r (r.eraseReq id) [] :=
  ⟨by simp [Reactor.frames, eraseReq, Ev.frames], rfl, rfl, rfl, fun mem => mem⟩

theorem adds_pushWrite {e : Pending} (other : e.connId ≠ r.conn.id) : Adds r (r.pushWrite e) [] :=
  ⟨by simp [Reactor.frames, pushWrite, Ev.frames], by simp [ownQueue, pushWrite, other], rfl, rfl,
    fun mem => mem⟩

theorem Steady.findReq (h : r.Steady) {id : Nat} {loc : ReqLoc} (found : r.findReq id = some loc) :
    loc.connId ≠ r.conn.id := by
  intro own
  obtain ⟨e, he, rfl⟩ := Option.map_eq_some_iff.mp found
  have mem : e ∈ r.ownReqs := List.mem_filter.mpr ⟨List.mem_of_find?_eq_some he, by simp [own]⟩
  simp [h.reqs] at mem

theorem adds_respondWith (h : r.Steady) (id status : Nat) (headers : List Header) (body : Bytes)
    (len : Nat) : Adds r (r.respondWith env id status headers body len) [] := by
  unfold respondWith
  split
  · exact .refl r
  · split
    · exact .refl r
    · rename_i loc found
      exact (adds_eraseReq id).trans (adds_pushWrite (h.findReq found))

theorem adds_respondFile (h : r.Steady) (id status : Nat) (headers : List Header)
    (size : Option Nat) (offset length : Int) :
    Adds r (r.respondFile env id status headers size offset length) [] := by
  unfold respondFile
  split
  · exact .refl r
  · split
    · exact adds_respondWith h ..
    · dsimp only
      split
      · exact adds_respondWith h ..
      · split
        · exact .refl r
        · rename_i loc found
          split
          · exact adds_respondWith h ..
          · exact (adds_eraseReq id).trans (adds_pushWrite (h.findReq found))

theorem adds_startStream (h : r.Steady) (id status : Nat) (headers : List Header) :
    Adds r (r.startStream env id status headers) [] := by
  unfold startStream
  split
  · exact .refl r
  · split
    · exact .refl r
    · rename_i loc found
      dsimp only
      split
      · exact (adds_pushWrite (h.findReq found)).trans (adds_eraseReq id)
      · exact adds_pushWrite (h.findReq found)

theorem adds_sendStreamChunk (h : r.Steady) (id : Nat) (bytes : Bytes) (last : Bool) :
    Adds r (r.sendStreamChunk id bytes last) [] := by
  unfold sendStreamChunk
  split
  · exact .refl r
  · split
    · exact .refl r
    · split
      · exact .refl r
      · rename_i loc found
        dsimp only
        split
        · exact (adds_eraseReq id).trans (adds_pushWrite (h.findReq found))
        · exact adds_pushWrite (h.findReq found)

/-! Frames of the handler. -/

theorem waiting_pushWrite {e : Pending} (own : e.connId = r.conn.id)
    (frame : e.piece.isFrame = true) : (r.pushWrite e).waiting = r.waiting ++ [e.piece] := by
  simp [Reactor.waiting, ownQueue, pushWrite, own, frame]

theorem frames_pushWrite (e : Pending) : (r.pushWrite e).frames = r.frames := by
  simp [Reactor.frames, pushWrite, Ev.frames]

/-- A frame that is no close, while the handler may send. -/
theorem proper_wsSend (h : r.Proper) (payload : Bytes) (binary compressed : Bool) :
    (r.wsSend payload binary compressed).Proper := by
  unfold wsSend
  split
  · exact h
  · rename_i may
    simp only [not_or, not_not] at may
    have none := h.left may.2
    dsimp only
    generalize hf : (if compressed = true then _ else _ : Bytes) = frame
    have plain : (Piece.mk .session .raw frame).isClose = false := by
      have head := encodeFrame_head (if binary then kBinary else kText) payload true
      rw [← hf]
      cases he : encodeFrame (if binary then kBinary else kText) payload true with
      | nil => cases compressed <;> rfl
      | cons b rest =>
          rw [he, List.head?_cons, Option.some.injEq] at head
          cases compressed <;> cases binary <;> subst head <;> rfl
    have all : ∀ p ∈ r.waiting ++ [⟨.session, .raw, frame⟩], p.isClose = false := by
      intro p hp
      rcases List.mem_append.mp hp with hp | hp
      · exact none p hp
      · rw [List.mem_singleton.mp hp]
        exact plain
    refine ⟨by rw [frames_pushWrite]; exact h.last, ?_, fun _ => ?_⟩
    · rw [waiting_pushWrite rfl rfl]
      exact closesLast_of_none all
    · rw [waiting_pushWrite rfl rfl]
      exact all

/-- The close frame of the handler, after which it may send no more. -/
theorem proper_wsClose (h : r.Proper) (code : Nat) : (r.wsClose code).Proper := by
  unfold wsClose
  split
  · exact h
  · rename_i may
    simp only [not_or, not_not] at may
    refine ⟨?_, ?_, fun mem => ?_⟩
    · rw [frames_pushWrite]
      exact h.last
    · rw [waiting_pushWrite rfl rfl]
      exact closesLast_snoc (h.left may.2) _
    · simp [pushWrite] at mem

end Reactor

/-! ### Runs -/

open Reactor in
/-- An orderly step of a session. -/
theorem proper_step {r r' : Reactor} {a : Act} (h : r.Tidy) (ws : r.conn.ws = true)
    (ok : orderly env r a = true) (hstep : step env r a = some r') : r'.Proper := by
  have steady := h.wf.steady ws
  have proper := h.toProper
  cases a with
  | read data =>
      simp only [step, Option.ite_none_right_eq_some, Option.some.injEq] at hstep
      obtain ⟨-, rfl⟩ := hstep
      refine proper_readCb proper steady ws fun said => ?_
      simpa [orderly, said] using ok
  | readEnd =>
      simp only [step, Option.ite_none_right_eq_some, Option.some.injEq] at hstep
      obtain ⟨-, rfl⟩ := hstep
      have ended : Adds r (r.setConn { r.conn with eof := true }) [] := adds_setConn rfl rfl
      have ws' : (r.setConn { r.conn with eof := true }).conn.ws = true := ws
      unfold Reactor.readEnd
      dsimp only
      rw [if_neg (by simp [ws'])]
      exact proper.silent (ended.trans adds_closeConn)
  | written landed got =>
      simp only [step] at hstep
      split at hstep
      · cases hstep
      · rename_i w rest writes
        simp only [Option.ite_none_left_eq_some, Option.some.injEq] at hstep
        obtain ⟨-, rfl⟩ := hstep
        exact proper.silent (adds_onWrite steady writes landed got)
  | async =>
      cases hstep
      exact proper_onAsync h ws ok
  | sweep =>
      simp only [step, Option.ite_none_left_eq_some, Option.some.injEq] at hstep
      obtain ⟨-, rfl⟩ := hstep
      obtain ⟨new, adds, last, quiet⟩ := onSweep_speaks ws
      refine proper.adds adds last fun said => quiet ?_
      simpa [orderly, said] using ok
  | closed =>
      simp only [step, Option.ite_none_right_eq_some, Option.some.injEq] at hstep
      obtain ⟨-, rfl⟩ := hstep
      unfold onCloseConn
      dsimp only
      rw [if_pos ws]
      exact proper.silent ⟨by simp [Reactor.frames, Ev.frames], rfl, rfl, rfl,
        fun mem => List.mem_of_mem_filter mem⟩
  | respond id status headers body =>
      cases hstep
      exact proper.silent (adds_respondWith steady ..)
  | respondFile id status headers size offset length =>
      cases hstep
      exact proper.silent (adds_respondFile steady ..)
  | startStream id status headers =>
      cases hstep
      exact proper.silent (adds_startStream steady ..)
  | sendStreamChunk id bytes last =>
      cases hstep
      exact proper.silent (adds_sendStreamChunk steady ..)
  | wsSend payload binary compressed =>
      cases hstep
      exact proper_wsSend proper ..
  | wsClose code =>
      cases hstep
      exact proper_wsClose proper code
  | tick ms | beginDrain | attach emitter | newId =>
      cases hstep
      exact proper.silent ⟨(List.append_nil _).symm, rfl, rfl, rfl, fun mem => mem⟩
  | tlsFlight cipher =>
      simp only [step, Option.ite_none_right_eq_some, Option.some.injEq] at hstep
      obtain ⟨-, rfl⟩ := hstep
      unfold tlsRawWrite
      split
      · exact proper
      · exact proper.silent ⟨by simp [Reactor.frames, Ev.frames], rfl, rfl, rfl, fun mem => mem⟩
  | otherRequest loc =>
      simp only [step, Option.ite_none_left_eq_some, Option.some.injEq] at hstep
      obtain ⟨-, rfl⟩ := hstep
      exact proper.silent ⟨(List.append_nil _).symm, rfl, rfl, rfl, fun mem => mem⟩
  | otherRetire id =>
      simp only [step] at hstep
      split at hstep
      · simp only [Option.ite_none_left_eq_some, Option.some.injEq] at hstep
        obtain ⟨-, rfl⟩ := hstep
        exact proper.silent (adds_eraseReq id)
      · cases hstep
  | otherPush entry =>
      simp only [step, Option.ite_none_left_eq_some, Option.some.injEq] at hstep
      obtain ⟨other, rfl⟩ := hstep
      exact proper.silent (adds_pushWrite other)

theorem Lane.Unspoken.proper {r : Reactor} (h : r.lane.Unspoken) : r.Proper := by
  obtain ⟨frames, waiting⟩ := r.unspoken_iff.mp h
  refine ⟨?_, ?_, fun _ => ?_⟩
  · rw [frames]
    exact closesLast_nil
  · rw [waiting]
    exact closesLast_nil
  · simp [waiting]

/-- An orderly step keeps a reactor tidy. -/
theorem tidy_step {r r' : Reactor} {a : Act} (h : r.Tidy) (ok : orderly env r a = true)
    (hstep : step env r a = some r') : r'.Tidy := by
  have wf : r'.WF := h.wf.step env hstep
  have framed := framed_step h.wf h.framed hstep
  cases ws : r.conn.ws with
  | false =>
      have unspoken := unspoken_step h.wf ws (h.http ws) hstep
      exact ⟨unspoken.proper, wf, framed, fun _ => unspoken⟩
  | true =>
      have session : r'.conn.ws = true := ws_of_reaches (step_moves env h.wf hstep).1 ws
      exact ⟨proper_step h ws ok hstep, wf, framed, fun http => by cases session.symm.trans http⟩

theorem Fresh.tidy {r : Reactor} (h : Fresh r) : r.Tidy := by
  have unspoken : r.lane.Unspoken := ⟨by simp [h.lane], by simp [h.lane]⟩
  exact ⟨unspoken.proper, h.wf, fun ws => by simp [h.lane] at ws, fun _ => unspoken⟩

/-- In every run whose steps do not speak after a close frame, a session writes at most one
close frame, and no frame behind it. -/
theorem close_is_last {r t : Reactor} (fresh : Fresh r)
    (run : Reaches (stepOf (step env)) (fun r a => orderly env r a = true) r t) :
    (t.frames.filter Piece.isClose).length ≤ 1 ∧
      ∀ before close after, t.frames = before ++ close :: after → close.isClose = true →
        after = [] := by
  have tidy : t.Tidy := run.invariant fresh.tidy fun r a r' h ok hstep => tidy_step h ok hstep
  exact ⟨tidy.last.once, fun before close after split closes => tidy.last.after split closes⟩

/-- The handler sends and closes, and a ping of the client is answered in between. -/
def politeSession : List Act :=
  [.read sampleUpgrade, .written true [], .wsSend [104, 105] false false, .async,
    .read [0x89, 0x80, 1, 2, 3, 4], .wsClose 1000, .async]

theorem close_is_last_polite :
    ∃ t, Reaches (stepOf (step sampleEnv)) (fun r a => orderly sampleEnv r a = true) sampleConn t ∧
      t.frames.map Piece.bytes = [[0x81, 2, 104, 105], [0x8a, 0], [0x88, 2, 3, 232]] ∧
      (t.frames.filter Piece.isClose).length ≤ 1 ∧
        ∀ before close after, t.frames = before ++ close :: after → close.isClose = true →
          after = [] := by
  obtain ⟨t, ht, frames⟩ := exec_any
    (f := guarded (fun r a => orderly sampleEnv r a = true) (step sampleEnv)) (s := sampleConn)
    (p := fun t => t.frames.map Piece.bytes =
      [[0x81, 2, 104, 105], [0x8a, 0], [0x88, 2, 3, 232]])
    (show (exec _ politeSession _).any _ = true by
      rw [politeSession, sampleUpgrade, ascii_append, ascii_ofList, ascii_ofList]
      decide +kernel)
  exact ⟨t, exec_guarded ht, frames, close_is_last sampleConn_fresh (exec_guarded ht)⟩

/-- A frame waits in the inbox when the client closes. -/
def sentLate : List Act :=
  [.read sampleUpgrade, .wsSend [104, 105] false false, .read [0x88, 0x80, 1, 2, 3, 4], .async]

/-- The handler closes, and the client pings and closes before the frame has landed. -/
def answeredLate : List Act :=
  [.read sampleUpgrade, .wsClose 1000, .async, .read [0x89, 0x80, 1, 2, 3, 4],
    .read [0x88, 0x80, 1, 2, 3, 4]]

/-- Text behind a close frame; a pong and a second close frame behind a close frame. -/
theorem frames_after_close :
    (∃ t, exec (step sampleEnv) sentLate sampleConn = some t ∧
      t.frames.map Piece.bytes = [[0x88, 2, 3, 232], [0x81, 2, 104, 105]]) ∧
    (∃ t, exec (step sampleEnv) answeredLate sampleConn = some t ∧
      t.frames.map Piece.bytes = [[0x88, 2, 3, 232], [0x8a, 0], [0x88, 2, 3, 232]]) ∧
    ¬ ∀ (env : Env) (r t : Reactor), Fresh r → Reaches (stepOf (step env)) anyStep r t →
      (t.frames.filter Piece.isClose).length ≤ 1 ∧
        ∀ before close after, t.frames = before ++ close :: after → close.isClose = true →
          after = [] := by
  obtain ⟨t, ht, frames, twice⟩ := exec_any (f := step sampleEnv) (s := sampleConn)
    (p := fun t => t.frames.map Piece.bytes = [[0x88, 2, 3, 232], [0x8a, 0], [0x88, 2, 3, 232]] ∧
      1 < (t.frames.filter Piece.isClose).length)
    (show (exec _ answeredLate _).any _ = true by
      rw [answeredLate, sampleUpgrade, ascii_append, ascii_ofList, ascii_ofList]
      decide +kernel)
  have sent := exec_any (f := step sampleEnv) (s := sampleConn)
    (p := fun t => t.frames.map Piece.bytes = [[0x88, 2, 3, 232], [0x81, 2, 104, 105]])
    (show (exec _ sentLate _).any _ = true by
      rw [sentLate, sampleUpgrade, ascii_append, ascii_ofList, ascii_ofList]
      decide +kernel)
  refine ⟨sent, ⟨t, ht, frames⟩, fun claim => ?_⟩
  exact absurd (claim sampleEnv sampleConn t sampleConn_fresh (exec_reaches ht)).1 (by omega)

end NitroServer.Engine
