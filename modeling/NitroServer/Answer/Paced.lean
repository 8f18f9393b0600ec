/-
Paced file sending.

A file answer goes out in chunks, each read when the write before it has landed. What drives it
is the landing of writes, and the count of what is outstanding; its descriptor passes from the
inbox to the connection and is closed in one of four places. `FileAnswer` is the reactor with
what the landings wrote of the file, and how often its descriptor was closed.

* `step_file` — nothing else touches a file that is being sent.
* `takes_up` — a batch takes the file up, or closes its descriptor.
* `next_chunk` — a landing writes the next octets, or the last ones and closes the descriptor, or
  fails and closes both.
* `paced_file` — a run in which the answer is queued, being sent, done or lost; while it is being
  sent a write is outstanding.
-/

import NitroServer.Answer.Paths
import NitroServer.Lane.Wakeup
import NitroServer.Outlet.Accounts

namespace NitroServer.Engine.Reactor

open NitroServer.Lib

variable {env : Env}

/-! ### A file that is being sent is left alone -/

@[simp] theorem closeConn_file (r : Reactor) : r.closeConn.conn.file = r.conn.file := by
  unfold closeConn
  split <;> rfl

theorem wsCloseConn_file (r : Reactor) (code : Nat) :
    (r.wsCloseConn env code).conn.file = r.conn.file := by
  unfold wsCloseConn
  split <;> rfl

@[simp] theorem writeAnswer_file (r : Reactor) (ps : List Piece) (ka fin : Bool) :
    (r.writeAnswer env ps ka fin).conn.file = r.conn.file := by
  unfold writeAnswer
  dsimp only
  split
  · exact wsCloseConn_file _ 1009
  · split
    · exact closeConn_file _
    · rfl

theorem emitStream_file (r : Reactor) : (r.emitStream env).conn.file = r.conn.file := by
  unfold emitStream
  split
  · unfold emitStreamChunked
    obtain ⟨stop, s⟩ := scanChunks r.conn.streamMaxBody (r.conn.buf.length + 1) r.chunkScan
    dsimp only
    cases stop with
    | tooLarge =>
        unfold abortStreamTooLarge refuse
        rw [writeAnswer_file, emitTo_conn, retireReq_conn]
        rfl
    | malformed => exact closeConn_file _
    | more =>
        rw [emitDecoded_conn]
        rfl
    | done =>
        unfold endStream setConn
        dsimp only
        rw [emitDecoded_conn]
  · obtain ⟨buf, n, taken⟩ := takeStreamBytes_conn r
    unfold emitStreamBytes
    split
    · unfold endStream setConn
      dsimp only
      rw [taken]
    · rw [taken]

theorem processConn_busy_file (r : Reactor) (busy : r.conn.busy = true) :
    (r.processConn env).conn.file = r.conn.file := by
  unfold processConn
  split
  · rfl
  split
  · rfl
  split
  · split <;> rfl
  · rw [processLoop_succ, if_pos (Or.inl busy)]

theorem sweepBusy_file (r : Reactor) : (r.sweepBusy env).conn.file = r.conn.file := by
  have timeOut : ∀ id kind why, (r.timeOut env id kind why).conn.file = r.conn.file := by
    intro id kind why
    unfold timeOut
    split
    · rfl
    · exact writeAnswer_file ..
  have streamIdle : ∀ id, (r.streamIdle id).conn.file = r.conn.file := by
    intro id
    have kept : (r.retireReq id).conn.file = r.conn.file := congrArg Conn.file (retireReq_conn r id)
    unfold streamIdle
    rw [closeConn_file]
    exact kept
  unfold sweepBusy
  split
  · rfl
  split
  · exact timeOut ..
  split
  · exact timeOut ..
  split
  · exact streamIdle _
  · rfl

/-- The sweep of a busy HTTP connection. -/
theorem onSweep_file (r : Reactor) (http : r.conn.ws = false) (busy : r.conn.busy = true) :
    (r.onSweep env).conn.file = r.conn.file := by
  have aged : r.ageOut.conn.file = r.conn.file ∧ r.ageOut.conn.busy = true := by
    unfold ageOut
    dsimp only
    split
    · split
      · exact ⟨rfl, busy⟩
      · exact ⟨rfl, busy⟩
    · exact ⟨rfl, busy⟩
  unfold onSweep
  split
  · rfl
  split
  · exact closeConn_file _
  · dsimp only
    rw [if_neg (by rw [http]; exact Bool.false_ne_true)]
    split
    · rw [sweepHttp, if_pos aged.2, sweepBusy_file, aged.1]
    · rw [sweepHttp, if_pos busy, sweepBusy_file]

end NitroServer.Engine.Reactor

namespace NitroServer.Answer

open NitroServer.Engine NitroServer.Lib

/-! ### Steps that do not send -/

/-- A landing, a batch and the close callback. -/
def handles : Act → Bool
  | .written _ _ | .async | .closed => true
  | _ => false

section Steps

variable {env : Env} {r r' : Reactor} {a : Act}

open Reactor in
/-- A file that is being sent is left alone by everything else. -/
theorem step_file (http : r.conn.ws = false) (busy : r.conn.busy = true)
    (aside : handles a = false) (step : Engine.step env r a = some r') :
    r'.conn.file = r.conn.file := by
  cases a with
  | read data =>
      obtain ⟨-, out⟩ := Option.ite_none_right_eq_some.mp step
      obtain rfl := Option.some.inj out
      unfold readCb
      dsimp only
      split
      · exact writeAnswer_file ..
      split
      · exact emitStream_file _
      · rw [if_neg (by exact Bool.eq_false_iff.mp http)]
        exact processConn_busy_file _ busy
  | readEnd =>
      obtain ⟨-, out⟩ := Option.ite_none_right_eq_some.mp step
      obtain rfl := Option.some.inj out
      unfold readEnd
      dsimp only
      split
      · exact writeAnswer_file ..
      · exact closeConn_file _
  | sweep =>
      obtain ⟨-, out⟩ := Option.ite_none_left_eq_some.mp step
      obtain rfl := Option.some.inj out
      exact onSweep_file r http busy
  | written | async | closed => cases aside
  | respond =>
      obtain rfl := Option.some.inj step
      exact congrArg Conn.file (respondWith_conn ..)
  | respondFile =>
      obtain rfl := Option.some.inj step
      exact congrArg Conn.file (respondFile_conn ..)
  | startStream =>
      obtain rfl := Option.some.inj step
      exact congrArg Conn.file (startStream_conn ..)
  | sendStreamChunk =>
      obtain rfl := Option.some.inj step
      exact congrArg Conn.file (sendStreamChunk_conn ..)
  | wsSend =>
      obtain rfl := Option.some.inj step
      unfold wsSend
      split <;> rfl
  | wsClose =>
      obtain rfl := Option.some.inj step
      unfold wsClose
      split <;> rfl
  | tlsFlight =>
      obtain ⟨-, out⟩ := Option.ite_none_right_eq_some.mp step
      obtain rfl := Option.some.inj out
      unfold tlsRawWrite
      split <;> rfl
  | otherRequest | otherPush =>
      obtain ⟨-, out⟩ := Option.ite_none_left_eq_some.mp step
      obtain rfl := Option.some.inj out
      rfl
  | otherRetire =>
      simp only [Engine.step] at step
      split at step
      · obtain ⟨-, out⟩ := Option.ite_none_left_eq_some.mp step
        obtain rfl := Option.some.inj out
        rfl
      · cases step
  | tick | beginDrain | attach | newId =>
      obtain rfl := Option.some.inj step
      rfl

open Reactor in
/-- Outside a batch the inbox only grows, and neither a landing nor the close callback adds to
it. -/
theorem queue_grows (batch : a ≠ .async) (step : Engine.step env r a = some r') :
    ∃ es, r'.queue = r.queue ++ es ∧ (handles a = true → es = []) := by
  have same {u : Reactor} (queue : u.queue = r.queue) :
      ∃ es, u.queue = r.queue ++ es ∧ (handles a = true → es = []) :=
    ⟨[], queue.trans (List.append_nil _).symm, fun _ => rfl⟩
  have respondWith : ∀ id status headers body n,
      handles a = false → ∃ es, (r.respondWith env id status headers body n).queue =
        r.queue ++ es ∧ (handles a = true → es = []) := by
    intro id status headers body n aside
    unfold Reactor.respondWith
    split
    · exact same rfl
    split
    · exact same rfl
    · exact ⟨[_], rfl, fun h => by rw [aside] at h; cases h⟩
  cases a with
  | async => exact absurd rfl batch
  | read data =>
      obtain ⟨-, out⟩ := Option.ite_none_right_eq_some.mp step
      obtain rfl := Option.some.inj out
      exact same (writes_readCb data).frame.2.1
  | readEnd =>
      obtain ⟨-, out⟩ := Option.ite_none_right_eq_some.mp step
      obtain rfl := Option.some.inj out
      exact same writes_readEnd.frame.2.1
  | written ok got =>
      simp only [Engine.step] at step
      split at step
      · cases step
      · obtain ⟨-, out⟩ := Option.ite_none_left_eq_some.mp step
        obtain rfl := Option.some.inj out
        exact same (writes_onWrite _ _ ok got).frame.2.1
  | sweep =>
      obtain ⟨-, out⟩ := Option.ite_none_left_eq_some.mp step
      obtain rfl := Option.some.inj out
      exact same writes_onSweep.frame.2.1
  | closed =>
      obtain ⟨-, out⟩ := Option.ite_none_right_eq_some.mp step
      obtain rfl := Option.some.inj out
      unfold onCloseConn
      dsimp only
      split <;> exact same rfl
  | respond =>
      obtain rfl := Option.some.inj step
      exact respondWith _ _ _ _ _ rfl
  | respondFile =>
      obtain rfl := Option.some.inj step
      unfold Reactor.respondFile
      split
      · exact same rfl
      split
      · exact respondWith _ _ _ _ _ rfl
      dsimp only
      split
      · exact respondWith _ _ _ _ _ rfl
      split
      · exact same rfl
      split
      · exact respondWith _ _ _ _ _ rfl
      · exact ⟨[_], rfl, Bool.noConfusion⟩
  | startStream =>
      obtain rfl := Option.some.inj step
      unfold Reactor.startStream
      split
      · exact same rfl
      split
      · exact same rfl
      dsimp only
      split
      · exact ⟨[_], rfl, Bool.noConfusion⟩
      · exact ⟨[_], rfl, Bool.noConfusion⟩
  | sendStreamChunk =>
      obtain rfl := Option.some.inj step
      unfold Reactor.sendStreamChunk
      split
      · exact same rfl
      split
      · exact same rfl
      split
      · exact same rfl
      dsimp only
      split
      · exact ⟨[_], rfl, Bool.noConfusion⟩
      · exact ⟨[_], rfl, Bool.noConfusion⟩
  | wsSend =>
      obtain rfl := Option.some.inj step
      unfold Reactor.wsSend
      split
      · exact same rfl
      · exact ⟨[_], rfl, Bool.noConfusion⟩
  | wsClose =>
      obtain rfl := Option.some.inj step
      unfold Reactor.wsClose
      split
      · exact same rfl
      · exact ⟨[_], rfl, Bool.noConfusion⟩
  | tlsFlight =>
      obtain ⟨-, out⟩ := Option.ite_none_right_eq_some.mp step
      obtain rfl := Option.some.inj out
      unfold tlsRawWrite
      split <;> exact same rfl
  | otherRequest =>
      obtain ⟨-, out⟩ := Option.ite_none_left_eq_some.mp step
      obtain rfl := Option.some.inj out
      exact same rfl
  | otherPush =>
      obtain ⟨-, out⟩ := Option.ite_none_left_eq_some.mp step
      obtain rfl := Option.some.inj out
      exact ⟨[_], rfl, Bool.noConfusion⟩
  | otherRetire =>
      simp only [Engine.step] at step
      split at step
      · obtain ⟨-, out⟩ := Option.ite_none_left_eq_some.mp step
        obtain rfl := Option.some.inj out
        exact same rfl
      · cases step
  | tick | beginDrain | attach | newId =>
      obtain rfl := Option.some.inj step
      exact same rfl

end Steps

/-! ### Descriptors -/

/-- A file of the request with this id. -/
def isOf (id : Nat) (f : FileSend) : Bool := f.requestId == id

theorem isOf_self (f : FileSend) : isOf f.requestId f = true := beq_self_eq_true f.requestId

/-- The descriptor of the request is with the connection, or in its inbox. -/
def holds (id : Nat) (l : Lane) : Bool :=
  l.file.any (isOf id) || l.queue.any fun e => e.file.any (isOf id)

/-- Whether `continueFileSend` closes the descriptor: the read failed, or it was the last. -/
def continueCloses (id : Nat) (r : Reactor) (got : Bytes) : Nat :=
  match r.conn.file with
  | none => 0
  | some f =>
      if isOf id f = false ∨ r.conn.closing then 0
      else
        let chunk := got.take (min Reactor.kChunk f.remaining)
        if chunk = [] ∨ f.remaining - chunk.length = 0 then 1 else 0

/-- A file entry that a batch drops is closed. -/
def groupCloses (id : Nat) (r : Reactor) (g : Pending × List Pending) : Nat :=
  if g.1.connId = r.conn.id ∧ g.1.file.any (isOf id) ∧ (r.gone ∨ r.conn.closing) then 1 else 0

/-- How often a batch closes the descriptor. -/
def batchCloses (env : Env) (id : Nat) : Reactor → List (Pending × List Pending) → Nat
  | _, [] => 0
  | r, g :: gs => groupCloses id r g + batchCloses env id (r.writeGroup env g) gs

/-- How often a step closes the descriptor of the request: `continueFileSend` out of `onWrite`,
`onAsync` and `onCloseConn`. -/
def closes (env : Env) (id : Nat) (r : Reactor) : Act → Nat
  | .written ok got =>
      match r.conn.writes with
      | [] => 0
      | w :: rest =>
          if ok ∧ ¬ w.finish ∧ (r.writeDone w rest).conn.writePending = 0 then
            continueCloses id (r.writeDone w rest) got
          else 0
  | .async => batchCloses env id (r.withQueue []) (Reactor.groups r.queue)
  | .closed => if r.conn.file.any (isOf id) then 1 else 0
  | _ => 0

/-- What a landing writes while the file of the request is being sent. -/
def chunksOf (id : Nat) (r r' : Reactor) : Act → List (Bytes × Bool)
  | .written _ _ =>
      if r.conn.file.any (isOf id) then (r'.trace.drop r.trace.length).flatMap wroteOf else []
  | _ => []

/-- The reactor, what landings wrote of a file, and how often its descriptor was closed. -/
structure FileAnswer where
  reactor : Reactor
  chunks : List (Bytes × Bool)
  closed : Nat

namespace FileAnswer

def step (env : Env) (id : Nat) (s : FileAnswer) (a : Act) : Option FileAnswer :=
  (Engine.step env s.reactor a).map fun r' =>
    ⟨r', s.chunks ++ chunksOf id s.reactor r' a, s.closed + closes env id s.reactor a⟩

/-- Reads return some of what the file has at the offset, or fail. -/
def paced (content : Bytes) (id : Nat) (s : FileAnswer) : Act → Bool
  | .written _ got =>
      s.reactor.conn.file.all fun f => !isOf id f || got.isPrefixOf (content.drop f.offset)
  | _ => true

end FileAnswer

/-! ### A batch -/

section Batch

variable (env : Env) (id : Nat) {r : Reactor} {gs : List (Pending × List Pending)}

theorem writeAnswer_kept (r : Reactor) (ps : List Piece) (ka fin : Bool) :
    (r.writeAnswer env ps ka fin).conn.id = r.conn.id ∧
      (r.writeAnswer env ps ka fin).conn.writes ≠ [] := by
  have wsClose : ∀ (u : Reactor) code, u.conn.writes ≠ [] →
      (u.wsCloseConn env code).conn.id = u.conn.id ∧
        (u.wsCloseConn env code).conn.writes ≠ [] := by
    intro u code some_
    unfold Reactor.wsCloseConn
    split
    · exact ⟨rfl, some_⟩
    · exact ⟨rfl, List.append_ne_nil_of_right_ne_nil _ (List.cons_ne_nil _ _)⟩
  have close : ∀ u : Reactor, u.closeConn.conn.writes = u.conn.writes := by
    intro u
    unfold Reactor.closeConn
    split <;> rfl
  have started : (r.startAnswer env ps ka fin).conn.writes ≠ [] :=
    List.append_ne_nil_of_right_ne_nil _ (List.cons_ne_nil _ _)
  unfold Reactor.writeAnswer
  dsimp only
  split
  · exact wsClose _ _ started
  split
  · rw [closeConn_id, close]
    exact ⟨rfl, started⟩
  · exact ⟨rfl, started⟩

/-- A group without a file leaves the file of the connection alone. -/
theorem writeGroup_plain {g : Pending × List Pending} (plain : g.1.file = none) :
    (r.writeGroup env g).conn.file = r.conn.file ∧ (r.writeGroup env g).conn.id = r.conn.id := by
  unfold Reactor.writeGroup
  rw [plain]
  split
  · exact ⟨rfl, rfl⟩
  · exact ⟨Reactor.writeAnswer_file .., (writeAnswer_kept ..).1⟩

theorem writeGroup_other {g : Pending × List Pending} (other : g.1.connId ≠ r.conn.id) :
    r.writeGroup env g = r ∧ groupCloses id r g = 0 :=
  ⟨if_pos (Or.inl other), if_neg fun own => other own.1⟩

/-- The groups of other connections. -/
theorem batch_others (others : ∀ g ∈ gs, g.1.connId ≠ r.conn.id) :
    gs.foldl (Reactor.writeGroup env) r = r ∧ batchCloses env id r gs = 0 := by
  induction gs with
  | nil => exact ⟨rfl, rfl⟩
  | cons g gs ih =>
      obtain ⟨same, none_⟩ := writeGroup_other env id (others g List.mem_cons_self)
      obtain ⟨rest, closes⟩ := ih fun g' mem => others g' (List.mem_cons_of_mem g mem)
      rw [List.foldl_cons, batchCloses, same, none_, closes]
      exact ⟨rest, rfl⟩

/-- The entries of this connection among those of the groups. -/
def ownOf (r : Reactor) (gs : List (Pending × List Pending)) : List Pending :=
  (gs.flatMap fun g => g.1 :: g.2).filter fun e => e.connId == r.conn.id

theorem ownOf_cons {g : Pending × List Pending} (grouped : Grouped g) :
    ownOf r (g :: gs) =
      (if g.1.connId = r.conn.id then g.1 :: g.2 else []) ++ ownOf r gs := by
  have all : ∀ e ∈ g.1 :: g.2, e.connId = g.1.connId := by
    intro e mem
    rcases List.mem_cons.mp mem with rfl | mem
    · rfl
    · exact (grouped.same e mem).1
  rw [ownOf, List.flatMap_cons, List.filter_append]
  congr 1
  split
  · rename_i own
    exact List.filter_eq_self.mpr fun e mem => by simp [all e mem, own]
  · rename_i other
    exact List.filter_eq_nil_iff.mpr fun e mem => by simp [all e mem, other]

/-- A batch with a file at the end of what it has for the connection: the file is taken up and
its head written, or the connection is closing and the descriptor is closed. -/
theorem takes_up {before : List Pending} {e : Pending} {f : FileSend}
    (grouped : ∀ g ∈ gs, Grouped g) (own : ownOf r gs = before ++ [e]) (file : e.file = some f)
    (plain : ∀ b ∈ before, b.file = none) (idle : r.conn.file = none) :
    ((gs.foldl (Reactor.writeGroup env) r).conn.file = some f ∧
        batchCloses env f.requestId r gs = 0 ∧
        (gs.foldl (Reactor.writeGroup env) r).conn.writes ≠ []) ∨
      ((gs.foldl (Reactor.writeGroup env) r).conn.file = none ∧
        batchCloses env f.requestId r gs = 1 ∧
        ((gs.foldl (Reactor.writeGroup env) r).gone = true ∨
          (gs.foldl (Reactor.writeGroup env) r).conn.closing = true)) := by
  induction gs generalizing r before with
  | nil => exact absurd own.symm (List.append_ne_nil_of_right_ne_nil _ (List.cons_ne_nil _ _))
  | cons g gs ih =>
      have here := grouped g List.mem_cons_self
      have later : ∀ g' ∈ gs, Grouped g' := fun g' mem => grouped g' (List.mem_cons_of_mem g mem)
      rw [ownOf_cons here] at own
      rw [List.foldl_cons, batchCloses]
      by_cases mine : g.1.connId = r.conn.id
      · rw [if_pos mine] at own
        rcases List.eq_nil_or_concat (ownOf r gs) with last | ⟨rest, e', more⟩
        · -- the file is in this group, alone
          rw [last, List.append_nil] at own
          have alone : g.1 = e := by
            cases before with
            | nil => exact (List.cons.inj own).1
            | cons b before =>
                have mem : e ∈ g.2 := by
                  rw [(List.cons.inj own).2]
                  exact List.mem_append_right _ List.mem_cons_self
                rw [(here.same e mem).2] at file
                cases file
          have others : ∀ g' ∈ gs, g'.1.connId ≠ r.conn.id := by
            intro g' mem own'
            have among : g'.1 ∈ ownOf r gs :=
              List.mem_filter.mpr ⟨List.mem_flatMap.mpr ⟨g', mem, List.mem_cons_self⟩, by
                simpa using own'⟩
            rw [last] at among
            cases among
          by_cases drop : r.gone = true ∨ r.conn.closing = true
          · have same : r.writeGroup env g = r := if_pos (Or.inr drop)
            have one : groupCloses f.requestId r g = 1 :=
              if_pos ⟨mine, by rw [alone, file]; exact isOf_self f, drop⟩
            obtain ⟨rest, none_⟩ := batch_others env f.requestId others
            rw [same, one, rest, none_]
            exact Or.inr ⟨idle, rfl, drop⟩
          · have zero : groupCloses f.requestId r g = 0 := if_neg fun dropped => drop dropped.2.2
            have taken : r.writeGroup env g =
                (r.setConn { r.conn with file := some f }).writeAnswer env [g.1.piece]
                  g.1.keepAlive false := by
              have laden : g.1.file = some f := by rw [alone, file]
              rw [Reactor.writeGroup, if_neg (fun no => no.elim (fun other => other mine) drop)]
              simp only [laden]
            obtain ⟨id, some_⟩ := writeAnswer_kept env
              (r.setConn { r.conn with file := some f }) [g.1.piece] g.1.keepAlive false
            rw [← taken] at id some_
            obtain ⟨rest, none_⟩ := batch_others env f.requestId (r := r.writeGroup env g)
              fun g' mem => id ▸ others g' mem
            rw [zero, rest, none_]
            refine Or.inl ⟨?_, rfl, some_⟩
            rw [taken, Reactor.writeAnswer_file]
            rfl
        · -- the file is in a later group
          rw [more, List.concat_eq_append, ← List.append_assoc] at own
          obtain ⟨front, same⟩ := List.append_inj' own rfl
          obtain rfl : e' = e := List.singleton_inj.mp same
          have noFile : g.1.file = none :=
            plain g.1 (front ▸ List.mem_append_left _ List.mem_cons_self)
          obtain ⟨fileSame, id⟩ := writeGroup_plain env (r := r) noFile
          have zero : groupCloses f.requestId r g = 0 := if_neg fun dropped => by
            rw [noFile] at dropped
            cases dropped.2.1
          have own' : ownOf (r.writeGroup env g) gs = rest ++ [e'] := by
            rw [ownOf, id]
            exact more.trans List.concat_eq_append
          rw [zero, Nat.zero_add]
          exact ih later own' (fun b mem => plain b (front ▸ List.mem_append_right _ mem))
            (fileSame.trans idle)
      · rw [if_neg mine, List.nil_append] at own
        obtain ⟨same, zero⟩ := writeGroup_other env f.requestId (r := r) mine
        rw [same, zero, Nat.zero_add]
        exact ih later own plain idle

end Batch

/-! ### A landing -/

/-- From `r` to `r'` these writes were issued. -/
def Issues (r r' : Reactor) (ws : List (Bytes × Bool)) : Prop :=
  ∃ evs, r'.trace = r.trace ++ evs ∧ evs.flatMap wroteOf = ws

namespace Issues

variable {r r' r'' : Reactor} {ws vs : List (Bytes × Bool)}

theorem none_ (same : r'.trace = r.trace) : Issues r r' [] :=
  ⟨[], same.trans (List.append_nil _).symm, rfl⟩

theorem trans (h : Issues r r' ws) (h' : Issues r' r'' vs) : Issues r r'' (ws ++ vs) := by
  obtain ⟨evs, grown, rfl⟩ := h
  obtain ⟨evs', grown', rfl⟩ := h'
  refine ⟨evs ++ evs', ?_, List.flatMap_append⟩
  rw [grown', grown, List.append_assoc]

theorem close (r : Reactor) : Issues r r.closeConn [] := by
  unfold Reactor.closeConn
  split
  · exact none_ rfl
  · exact ⟨[.close], rfl, rfl⟩

theorem chunksOf {ok : Bool} {got : Bytes} (h : Issues r r' ws)
    {id : Nat}
    (file : r.conn.file.any (isOf id) = true) : chunksOf id r r' (.written ok got) = ws := by
  obtain ⟨evs, grown, rfl⟩ := h
  rw [Answer.chunksOf, if_pos file, grown, List.drop_left]

end Issues

/-- An HTTP write, and perhaps the end of a stream that outran its reader. -/
theorem issues_writeAnswer {env : Env} {r : Reactor} (http : r.conn.ws = false) (p : Piece)
    (ka fin : Bool) : Issues r (r.writeAnswer env [p] ka fin) [(p.bytes, fin)] := by
  have started : Issues r (r.startAnswer env [p] ka fin) [(p.bytes, fin)] := by
    refine ⟨[.write [p] ka fin _], rfl, ?_⟩
    simp [wroteOf, payloadBytes]
  have session : ¬ (r.startAnswer env [p] ka fin).conn.ws = true := by
    show ¬ r.conn.ws = true
    rw [http]
    exact Bool.false_ne_true
  unfold Reactor.writeAnswer
  dsimp only
  rw [if_neg fun cap => session cap.1]
  split
  · have told : Issues (r.startAnswer env [p] ka fin)
        ((r.startAnswer env [p] ka fin).broadcastEvent .clientError
          (r.startAnswer env [p] ka fin).conn.id "stream buffer limit exceeded") [] := ⟨_, rfl, rfl⟩
    exact (started.trans told).trans (.close _)
  · exact started

/-- What a landing does to a file that is being sent. -/
inductive Landing (content : Bytes) (f : FileSend) (r : Reactor) :
    List (Bytes × Bool) → Nat → Prop
  /-- Another write is outstanding, or the connection closes. -/
  | waits (file : r.conn.file = some f) (awaits : r.conn.closing = true ∨ r.conn.writes ≠ []) :
      Landing content f r [] 0
  | sends {n : Nat} (some_ : 0 < n) (more : n < f.remaining)
      (long : ((content.drop f.offset).take n).length = n)
      (file : r.conn.file = some ⟨f.requestId, f.offset + n, f.remaining - n, f.keepAlive⟩)
      (awaits : r.conn.writes ≠ []) :
      Landing content f r [((content.drop f.offset).take n, false)] 0
  | ends (file : r.conn.file = none) (some_ : rangeOf content f ≠ []) :
      Landing content f r [(rangeOf content f, true)] 1
  | fails (file : r.conn.file = none) (shut : r.conn.closing = true) : Landing content f r [] 1

section Landings

variable (env : Env) {content : Bytes} {f : FileSend} {r r' : Reactor} {got : Bytes}

/-- `continueFileSend`, when nothing is outstanding. -/
theorem landing_continueFileSend (http : r.conn.ws = false) (file : r.conn.file = some f)
    (read : got <+: content.drop f.offset) :
    ∃ ws, Issues r (r.continueFileSend env got) ws ∧
      Landing content f (r.continueFileSend env got) ws (continueCloses f.requestId r got) := by
  have chunk := take_read read (min Reactor.kChunk f.remaining)
  have long : (got.take (min Reactor.kChunk f.remaining)).length ≤ f.remaining :=
    (List.length_take_le _ _).trans (Nat.min_le_right _ _)
  rw [continueCloses, Reactor.continueFileSend, file]
  dsimp only
  by_cases shut : r.conn.closing = true
  · rw [if_pos shut, if_pos (Or.inr shut)]
    exact ⟨[], .none_ rfl, .waits file (Or.inl shut)⟩
  have goes : ¬ (isOf f.requestId f = false ∨ r.conn.closing = true) := by
    rw [isOf_self]
    exact fun no => no.elim Bool.noConfusion shut
  rw [if_neg goes, if_neg shut]
  by_cases nothing : got.take (min Reactor.kChunk f.remaining) = []
  · -- the end of the file, or an error
    rw [if_pos nothing, if_pos (Or.inl nothing)]
    have told : Issues r ((r.setConn { r.conn with file := none }).broadcastEvent .clientError
        r.conn.id "file answer truncated") [] := ⟨_, rfl, rfl⟩
    refine ⟨[], told.trans (.close _), .fails ?_ (Reactor.closeConn_closing _)⟩
    rw [Reactor.closeConn_file]
    rfl
  rw [if_neg nothing]
  generalize got.take (min Reactor.kChunk f.remaining) = c at chunk long nothing
  have size : (content.drop f.offset).take c.length = c :=
    (List.prefix_iff_eq_take.mp (chunk ▸ List.take_prefix _ _)).symm
  have some_ : 0 < c.length := List.length_pos_of_ne_nil nothing
  by_cases last : f.remaining - c.length = 0
  · -- the last octets
    have all : c = rangeOf content f := by
      rw [rangeOf, ← size]
      congr 1
      omega
    let s := r.setConn { r.conn with file := none }
    have aside : Issues r s [] := .none_ rfl
    have http' : s.conn.ws = false := http
    have issued : Issues s (s.writeAnswer env [⟨.request f.requestId, .last, c⟩] f.keepAlive true)
        [(c, true)] := issues_writeAnswer http' _ _ _
    simp only [last, or_true, if_true, decide_true]
    refine ⟨_, aside.trans issued, ?_⟩
    rw [List.nil_append, all]
    exact .ends (Reactor.writeAnswer_file ..) (all ▸ nothing)
  · let s := r.setConn { r.conn with
      file := some ⟨f.requestId, f.offset + c.length, f.remaining - c.length, f.keepAlive⟩ }
    have aside : Issues r s [] := .none_ rfl
    have http' : s.conn.ws = false := http
    have issued : Issues s
        (s.writeAnswer env [⟨.request f.requestId, .chunk, c⟩] f.keepAlive false) [(c, false)] :=
      issues_writeAnswer http' _ _ _
    simp only [last, nothing, or_false, if_false, decide_false]
    refine ⟨_, aside.trans issued, ?_⟩
    have landing : Landing content f
        (s.writeAnswer env [⟨.request f.requestId, .chunk, c⟩] f.keepAlive false)
        [((content.drop f.offset).take c.length, false)] 0 :=
      .sends some_ (by omega) (by rw [size]) (Reactor.writeAnswer_file ..)
        (writeAnswer_kept env s _ _ _).2
    rw [size] at landing
    exact landing

variable {env}

/-- The landing of any outstanding write of the connection. -/
theorem next_chunk {ok : Bool} (wf : r.WF) (accounted : Accounted env r)
    (file : r.conn.file = some f) (read : got <+: content.drop f.offset)
    (step : Engine.step env r (.written ok got) = some r') :
    Landing content f r' (chunksOf f.requestId r r' (.written ok got))
      (closes env f.requestId r (.written ok got)) := by
  obtain ⟨-, -, none_, -, http⟩ := wf.sound.of_file (show r.lane.file = some f from file)
  have isFile : r.conn.file.any (isOf f.requestId) = true := by rw [file]; exact isOf_self f
  simp only [Engine.step] at step
  split at step
  · cases step
  rename_i w rest writes
  obtain ⟨-, out⟩ := Option.ite_none_left_eq_some.mp step
  obtain rfl := Option.some.inj out
  have done := accounted.writeDone writes
  have file' : (r.writeDone w rest).conn.file = some f := file
  have http' : (r.writeDone w rest).conn.ws = false := http
  rw [closes, writes]
  dsimp only
  cases ok with
  | false =>
      rw [if_neg fun ok => Bool.false_ne_true ok.1]
      have issues : Issues r ((r.writeDone w rest).closeConn) [] :=
        (Issues.none_ rfl).trans (.close _)
      have out : r.onWrite env w rest false got = (r.writeDone w rest).closeConn := rfl
      rw [out, issues.chunksOf isFile]
      refine .waits ?_ (Or.inl (Reactor.closeConn_closing _))
      rw [Reactor.closeConn_file, file']
  | true =>
      cases finish : w.finish with
      | true =>
          -- an earlier write that ends an answer closes the connection: it does not keep it
          have drops : w.keepAlive = false := by
            cases keeps : w.keepAlive with
            | false => rfl
            | true =>
                have among : true ∈ r.lane.finishing := by
                  show true ∈ finishingOf r.conn.writes
                  rw [writes, finishingOf, List.filter_cons_of_pos finish, List.map_cons, keeps]
                  exact List.mem_cons_self
                exact absurd none_ (List.count_pos_iff.mpr among).ne'
          rw [if_neg fun ok => absurd rfl ok.2.1]
          have issues : Issues r (r.writeDone w rest).requestOver.closeConn [] :=
            (Issues.none_ rfl).trans (.close _)
          have out : r.onWrite env w rest true got =
              (r.writeDone w rest).requestOver.closeConn := by
            rw [Reactor.onWrite, finish, drops]
            rfl
          rw [out, issues.chunksOf isFile]
          refine .waits ?_ (Or.inl (Reactor.closeConn_closing _))
          rw [Reactor.closeConn_file]
          exact file
      | false =>
          have out : r.onWrite env w rest true got = _ := onWrite_noEnd finish
          rw [file'] at out
          by_cases zero : (r.writeDone w rest).conn.writePending = 0
          · rw [if_pos ⟨rfl, Bool.false_ne_true, zero⟩]
            rw [if_pos ⟨rfl, zero⟩] at out
            obtain ⟨ws, issues, landing⟩ := landing_continueFileSend env http' file' read
            have all : Issues r (r.onWrite env w rest true got) ws := by
              rw [out]
              exact (Issues.none_ rfl).trans issues
            rw [all.chunksOf isFile, out]
            exact landing
          · rw [if_neg fun ok => zero ok.2.2]
            rw [if_neg fun next => zero next.2] at out
            have issues : Issues r (r.onWrite env w rest true got) [] := .none_ (by rw [out]; rfl)
            rw [issues.chunksOf isFile, out]
            exact .waits file' (Or.inr fun empty => zero (done.zero_iff.mpr empty))

end Landings

/-! ### Plaintext runs -/

/-- What is known of a plaintext connection in every run. -/
structure Plain (env : Env) (r : Reactor) : Prop where
  wf : r.WF
  accounted : Accounted env r
  tls : r.conn.tls = false

section PlainRuns

variable {env : Env} {r r' : Reactor} {a : Act}

/-- No handshake flight is written. -/
theorem Plain.calm (h : Plain env r) (step : Engine.step env r a = some r') :
    Turn.flight (.act a) = false := by
  cases a with
  | tlsFlight cipher =>
      obtain ⟨allowed, -⟩ := Option.ite_none_right_eq_some.mp step
      have tls := allowed.2
      rw [h.tls] at tls
      cases tls
  | _ => rfl

/-- Outstanding writes stay outstanding until one lands. -/
theorem Plain.outstanding (h : Plain env r) (no : Turn.lands (.act a) = false)
    (step : Engine.step env r a = some r') :
    r'.conn.tls = false ∧ (r.conn.writes ≠ [] → r'.conn.writes ≠ []) := by
  have issued {u : Reactor} (seals : u.Seals env) (tls : u.conn.tls = false)
      (writes : Writes env u r') :
      r'.conn.tls = false ∧ (u.conn.writes ≠ [] → r'.conn.writes ≠ []) := by
    obtain ⟨new, issued⟩ := writes.issued seals
    refine ⟨issued.tls.trans tls, fun some_ => ?_⟩
    rw [issued.writes]
    exact List.append_ne_nil_of_left_ne_nil some_ _
  cases effect_step h.accounted.laden no step with
  | works writes => exact issued h.accounted.seals h.tls writes
  | empties writes => exact issued (u := { r with queue := [] }) h.accounted.seals h.tls writes
  | queues es laden same | passes ms same | drains same =>
      simp only [Reactor.outlet, Outlet.mk.injEq] at same
      exact ⟨same.2.1.trans h.tls, fun some_ => by rw [same.2.2.1]; exact some_⟩
  | flies flight tls =>
      rw [h.tls] at tls
      cases tls

theorem Plain.step (h : Plain env r) (step : Engine.step env r a = some r') : Plain env r' := by
  refine ⟨h.wf.step env step, h.accounted.turn (a := .act a) (h.calm step) step, ?_⟩
  cases no : Turn.lands (.act a) with
  | false => exact (h.outstanding no step).1
  | true =>
      obtain ⟨w, rest, -, writes⟩ := turn_lands (a := .act a) no step
      obtain ⟨new, issued⟩ := writes.issued (r := r.writeDone w rest) h.accounted.seals
      exact issued.tls.trans h.tls

theorem Plain.reached {r₀ : Reactor} (fresh : Fresh r₀) (plain : r₀.conn.tls = false)
    (run : Reaches (stepOf (Engine.step env)) anyStep r₀ r) : Plain env r := by
  have seals : r₀.Seals env := by
    intro tls
    rw [plain] at tls
    cases tls
  exact run.invariant (I := Plain env) ⟨fresh.wf, .fresh fresh seals, plain⟩
    fun _ _ _ h _ step => h.step step

/-- A connection that closes stays so. -/
theorem closing_kept (wf : r.WF) (step : Engine.step env r a = some r')
    (shut : r.conn.closing = true) : r'.conn.closing = true := by
  have moves := (step_moves env wf step).1
  refine moves.invariant (I := fun l => l.closing = true) shut ?_
  intro l m l' closing _ move
  cases move <;> first | exact closing | rfl

end PlainRuns

/-! ### After the last close -/

/-- The request was taken in and is answered. -/
structure Retired (id : Nat) (l : Lane) : Prop where
  old : id < l.nextId
  gone : ∀ e ∈ l.reqs, e.1 ≠ id

section Spent

variable {id : Nat} {l l' : Lane} {m : Move}

theorem Retired.step (h : Retired id l) (move : l.Step m l') : Retired id l' := by
  obtain ⟨old, gone⟩ := h
  have next : l.nextId ≠ id := old.ne'
  cases move with
  | dispatch | dispatchStream =>
      refine ⟨Nat.lt_succ_of_lt old, fun e mem => ?_⟩
      rcases List.mem_append.mp mem with mem | mem
      · exact gone e mem
      · obtain rfl := List.mem_singleton.mp mem
        exact next
  | refuseUpload =>
      refine ⟨Nat.lt_succ_of_lt old, fun e mem => gone e ?_⟩
      simpa [Lane.register, Lane.write] using mem
  | skipId => exact ⟨Nat.lt_succ_of_lt old, gone⟩
  | leave => exact ⟨old, by simp⟩
  | abort | timeOut | silence | pushLast =>
      exact ⟨old, fun e mem => gone e (List.mem_of_mem_filter mem)⟩
  | flip =>
      refine ⟨old, fun e mem => ?_⟩
      obtain ⟨e', mem', rfl⟩ := List.mem_map.mp mem
      have other := gone e' mem'
      split
      · exact other
      · exact other
  | _ => exact ⟨old, gone⟩

theorem not_holds : holds id l = false ↔
    (∀ f, l.file = some f → isOf id f = false) ∧
      ∀ e ∈ l.queue, ∀ f, e.file = some f → isOf id f = false := by
  rw [holds, Bool.or_eq_false_iff, List.any_eq_false]
  refine and_congr ?_ (forall₂_congr fun e _ => ?_)
  · cases l.file with
    | none => simp
    | some f => simp
  · cases e.file with
    | none => simp
    | some f => simp

/-- A descriptor that is let go of does not come back. -/
theorem spent_step (retired : Retired id l) (none_ : holds id l = false) (move : l.Step m l') :
    holds id l' = false := by
  obtain ⟨file, queue⟩ := not_holds.mp none_
  have found {id' : Nat} {loc : ReqLoc} (found : l.find id' = some loc) : id' ≠ id := by
    obtain ⟨e, hit, -⟩ := Option.map_eq_some_iff.mp found
    have same : e.1 = id' := by simpa using List.find?_some hit
    exact same ▸ retired.gone e (List.mem_of_find?_eq_some hit)
  have pushed {id' : Nat} {loc : ReqLoc} {e : Pending} (h : l.find id' = some loc)
      (shaped : e.shaped id' loc = true) : ∀ f, e.file = some f → isOf id f = false := by
    intro f laden
    have other := found h
    simp only [Pending.shaped, Bool.and_eq_true, laden] at shaped
    have owner : f.requestId = id' := by
      cases part : e.piece.part <;> simp_all
    rw [isOf, owner]
    exact beq_false_of_ne other
  rw [not_holds]
  cases move with
  | push h shaped | pushLast h shaped =>
      refine ⟨file, fun e mem => ?_⟩
      rcases List.mem_append.mp mem with mem | mem
      · exact queue e mem
      · obtain rfl := List.mem_singleton.mp mem
        exact pushed h shaped
  | sessionPush _ _ plain =>
      refine ⟨file, fun e mem => ?_⟩
      rcases List.mem_append.mp mem with mem | mem
      · exact queue e mem
      · obtain rfl := List.mem_singleton.mp mem
        intro f laden
        rw [plain] at laden
        cases laden
  | drop queued | drain queued =>
      exact ⟨file, fun e mem => queue e (queued ▸ List.mem_cons_of_mem _ mem)⟩
  | drainFile queued _ _ laden =>
      refine ⟨fun f same => ?_, fun e mem => queue e (queued ▸ List.mem_cons_of_mem _ mem)⟩
      obtain rfl := Option.some.inj same
      exact queue _ (queued ▸ List.mem_cons_self) _ laden
  | fileChunk sends_ =>
      refine ⟨fun f same => ?_, queue⟩
      obtain rfl := Option.some.inj same
      have before := file _ sends_
      exact before
  | leave | leaveSession | fileEnd | fileLost => exact ⟨fun f none_ => (by cases none_), queue⟩
  | _ => exact ⟨file, queue⟩

end Spent

section Quiet

variable {env : Env} {id : Nat} {r r' : Reactor} {a : Act}

/-- A batch closes no descriptor that it does not have. -/
theorem batch_quiet {gs : List (Pending × List Pending)}
    (others : ∀ g ∈ gs, g.1.connId = r.conn.id → g.1.file.any (isOf id) = false) :
    batchCloses env id r gs = 0 := by
  induction gs generalizing r with
  | nil => rfl
  | cons g gs ih =>
      have zero : groupCloses id r g = 0 := if_neg fun dropped => by
        rw [others g List.mem_cons_self dropped.1] at dropped
        exact Bool.false_ne_true dropped.2.1
      have kept : (r.writeGroup env g).conn.id = r.conn.id := by
        unfold Reactor.writeGroup
        split
        · rfl
        split
        · exact (writeAnswer_kept ..).1
        · exact (writeAnswer_kept ..).1
      rw [batchCloses, zero, Nat.zero_add]
      exact ih fun g' mem own => others g' (List.mem_cons_of_mem g mem) (own.trans kept)

/-- Nor does any step, and it writes nothing of the file. -/
theorem quiet (none_ : r.conn.file.any (isOf id) = false)
    (inbox : a = .async → ∀ e ∈ r.ownQueue, e.file.any (isOf id) = false) :
    chunksOf id r r' a = [] ∧ closes env id r a = 0 := by
  cases a with
  | written ok got =>
      refine ⟨if_neg (by rw [none_]; exact Bool.false_ne_true), ?_⟩
      rw [closes]
      split
      · rfl
      rename_i w rest writes
      split
      · rw [continueCloses]
        have file : (r.writeDone w rest).conn.file = r.conn.file := rfl
        rw [file]
        split
        · rfl
        · rename_i f same
          rw [same] at none_
          exact if_pos (Or.inl none_)
      · rfl
  | async =>
      refine ⟨rfl, batch_quiet fun g mem own => ?_⟩
      have mine : g.1.connId = r.conn.id := own
      have among : g.1 ∈ r.queue := by
        rw [← groups_flatten r.queue]
        exact List.mem_flatMap.mpr ⟨g, mem, List.mem_cons_self⟩
      exact inbox rfl g.1 (List.mem_filter.mpr ⟨among, beq_iff_eq.mpr mine⟩)
  | closed => exact ⟨rfl, if_neg (by rw [none_]; exact Bool.false_ne_true)⟩
  | _ => exact ⟨rfl, rfl⟩

end Quiet

/-! ### The progress of a file answer -/

/-- How far the answer of a file is, with the writes that landings made of it. -/
inductive Progress (content : Bytes) (f : FileSend) : FileAnswer → Prop
  /-- In the inbox: the loop has not come to it. -/
  | queued {r : Reactor} {before : List Pending} {e : Pending} (own : r.ownQueue = before ++ [e])
      (file : e.file = some f) (plain : ∀ b ∈ before, b.file = none)
      (idle : r.conn.file = none) : Progress content f ⟨r, [], 0⟩
  /-- The next landing of a write takes it further, unless the connection is closing. -/
  | sending {r : Reactor} {n : Nat} {cs : List Bytes} (less : n < f.remaining)
      (file : r.conn.file = some ⟨f.requestId, f.offset + n, f.remaining - n, f.keepAlive⟩)
      (awaits : r.conn.closing = true ∨ r.conn.writes ≠ []) (full : ∀ c ∈ cs, c ≠ [])
      (sent : cs.flatten = (content.drop f.offset).take n) :
      Progress content f ⟨r, cs.map (·, false), 0⟩
  | done {r : Reactor} {cs : List Bytes} {c : Bytes} (full : ∀ d ∈ cs ++ [c], d ≠ [])
      (sent : (cs ++ [c]).flatten = rangeOf content f) (spent : holds f.requestId r.lane = false) :
      Progress content f ⟨r, cs.map (·, false) ++ [(c, true)], 1⟩
  /-- The connection went before the end, or a read failed. -/
  | lost {r : Reactor} {n : Nat} {cs : List Bytes} (less : n < f.remaining)
      (shut : r.conn.closing = true ∨ r.gone = true) (full : ∀ c ∈ cs, c ≠ [])
      (sent : cs.flatten = (content.drop f.offset).take n)
      (spent : holds f.requestId r.lane = false) :
      Progress content f ⟨r, cs.map (·, false), 1⟩

section Sending

variable {env : Env} {content : Bytes} {f : FileSend} {r r' : Reactor} {a : Act}

theorem ownQueue_of_file (wf : r.WF) (file : r.conn.file = some f) : r.ownQueue = [] :=
  (wf.sound.of_file (show r.lane.file = some f from file)).2.1

/-- Nothing is held once the file and the inbox are empty. -/
theorem spent_of_empty {id : Nat} (file : r.conn.file = none) (queue : r.ownQueue = []) :
    holds id r.lane = false := by
  have file' : r.lane.file = none := file
  have queue' : r.lane.queue = [] := queue
  rw [holds, file', queue']
  rfl

/-- The inbox of the connection, outside a batch. -/
theorem ownQueue_grows (plain : Plain env r) (batch : a ≠ .async)
    (step : Engine.step env r a = some r') :
    ∃ es, r'.ownQueue = r.ownQueue ++ es ∧ (handles a = true → es = []) := by
  obtain ⟨es, grown, settled⟩ := queue_grows batch step
  have lasts : r'.conn.id = r.conn.id :=
    (turn_lasts (a := .act a) plain.accounted.laden step).id
  refine ⟨es.filter fun e => e.connId == r.conn.id, ?_, fun h => by rw [settled h]; rfl⟩
  rw [Reactor.ownQueue, grown, lasts, List.filter_append]
  rfl

/-- An inbox that holds the file keeps it last, and nothing is being sent. -/
theorem queued_kept {before es : List Pending} {e : Pending} (wf : r'.WF)
    (own : r'.ownQueue = before ++ [e] ++ es) (file : e.file = some f) :
    r'.ownQueue = before ++ [e] ∧ r'.conn.file = none := by
  have queue : r'.lane.queue = before ++ [e] ++ es := own
  have credits : e.credits = true := by
    rw [Pending.credits, file]
    simp
  constructor
  · rcases List.eq_nil_or_concat es with rfl | ⟨front, last, rfl⟩
    · rw [own, List.append_nil]
    · have early : e ∈ r'.lane.queue.dropLast := by
        rw [queue, List.concat_eq_append, ← List.append_assoc, List.dropLast_concat]
        exact List.mem_append_left _ (List.mem_append_right _ List.mem_cons_self)
      have none_ := wf.sound.tail e early
      rw [credits] at none_
      cases none_
  · cases sends_ : r'.conn.file with
    | none => rfl
    | some g =>
        have empty := ownQueue_of_file wf sends_
        rw [own] at empty
        have gone := (List.append_eq_nil_iff.mp (List.append_eq_nil_iff.mp empty).1).2
        cases gone

/-- The chunks so far, and those of one more landing. -/
theorem progress_landing {n : Nat} {cs : List Bytes} {ws : List (Bytes × Bool)} {c : Nat}
    (less : n < f.remaining) (full : ∀ d ∈ cs, d ≠ [])
    (sent : cs.flatten = (content.drop f.offset).take n) (queue : r'.ownQueue = [])
    (landing : Landing content ⟨f.requestId, f.offset + n, f.remaining - n, f.keepAlive⟩ r' ws c) :
    Progress content f ⟨r', cs.map (·, false) ++ ws, 0 + c⟩ := by
  have further (m : Nat) : (content.drop f.offset).take n ++ (content.drop (f.offset + n)).take m =
      (content.drop f.offset).take (n + m) := by
    rw [List.take_add, List.drop_drop]
  cases landing with
  | waits file awaits =>
      rw [List.append_nil]
      exact .sending less file awaits full sent
  | @sends m some_ more long file awaits =>
      have more' : m < f.remaining - n := more
      have chunk : (content.drop (f.offset + n)).take m ≠ [] :=
        List.ne_nil_of_length_pos (long.symm ▸ some_)
      have all : (cs ++ [(content.drop (f.offset + n)).take m]).flatten =
          (content.drop f.offset).take (n + m) := by
        rw [List.flatten_append, List.flatten_singleton, sent, further]
      have file' : r'.conn.file =
          some ⟨f.requestId, f.offset + (n + m), f.remaining - (n + m), f.keepAlive⟩ := by
        rw [file, Nat.add_assoc, Nat.sub_sub]
      have progress : Progress content f
          ⟨r', (cs ++ [(content.drop (f.offset + n)).take m]).map (·, false), 0⟩ := by
        refine .sending (by omega) file' (Or.inr awaits) ?_ all
        intro d mem
        rcases List.mem_append.mp mem with mem | mem
        · exact full d mem
        · obtain rfl := List.mem_singleton.mp mem
          exact chunk
      rwa [List.map_append] at progress
  | ends file some_ =>
      refine .done ?_ ?_ (spent_of_empty file queue)
      · intro d mem
        rcases List.mem_append.mp mem with mem | mem
        · exact full d mem
        · obtain rfl := List.mem_singleton.mp mem
          exact some_
      · rw [List.flatten_append, List.flatten_singleton, sent, rangeOf, rangeOf, further,
          Nat.add_sub_cancel' less.le]
  | fails file shut =>
      rw [List.append_nil]
      exact .lost less (Or.inl shut) full sent (spent_of_empty file queue)

end Sending

section Runs

variable {env : Env} {content : Bytes} {f : FileSend} {s s' : FileAnswer} {a : Act}

/-- A connection that closes, or has gone, does not come back. -/
theorem shut_kept {r r' : Reactor} (wf : r.WF) (step : Engine.step env r a = some r')
    (shut : r.conn.closing = true ∨ r.gone = true) : r'.conn.closing = true ∨ r'.gone = true := by
  have moves := (step_moves env wf step).1
  refine moves.invariant (I := fun l => l.closing = true ∨ l.gone = true) shut ?_
  intro l m l' shut _ move
  cases move <;> first | exact shut | exact Or.inl rfl | exact Or.inr rfl

theorem retired_step {id : Nat} {r r' : Reactor} (wf : r.WF) (retired : Retired id r.lane)
    (step : Engine.step env r a = some r') : Retired id r'.lane :=
  (step_moves env wf step).1.invariant (I := Retired id) retired fun _ _ _ h _ move => h.step move

/-- A descriptor that was let go of is not closed again, and no more is written of its file. -/
theorem spent_quiet {id : Nat} {r r' : Reactor} (wf : r.WF) (retired : Retired id r.lane)
    (none_ : holds id r.lane = false) (step : Engine.step env r a = some r') :
    chunksOf id r r' a = [] ∧ closes env id r a = 0 ∧ holds id r'.lane = false := by
  obtain ⟨file, queue⟩ := Bool.or_eq_false_iff.mp none_
  have silent : chunksOf id r r' a = [] ∧ closes env id r a = 0 :=
    quiet file fun _ e mem => by simpa using List.any_eq_false.mp queue e mem
  refine ⟨silent.1, silent.2, ?_⟩
  have moves := (step_moves env wf step).1
  have kept : Retired id r'.lane ∧ holds id r'.lane = false :=
    moves.invariant (I := fun l => Retired id l ∧ holds id l = false) ⟨retired, none_⟩
      fun _ _ _ h _ move => ⟨h.1.step move, spent_step h.1 h.2 move⟩
  exact kept.2

/-- The batch that comes to a file. -/
theorem progress_batch {r : Reactor} {before : List Pending} {e : Pending} (laden : r.Laden)
    (some_ : 0 < f.remaining) (own : r.ownQueue = before ++ [e]) (file : e.file = some f)
    (plain : ∀ b ∈ before, b.file = none) (idle : r.conn.file = none) :
    Progress content f ⟨r.onAsync env, [], 0 + closes env f.requestId r .async⟩ := by
  have own' : ownOf (r.withQueue []) (Reactor.groups r.queue) = before ++ [e] := by
    rw [ownOf, groups_flatten]
    exact own
  have out : r.onAsync env = (Reactor.groups r.queue).foldl (Reactor.writeGroup env)
      (r.withQueue []) := rfl
  have closed : closes env f.requestId r .async =
      batchCloses env f.requestId (r.withQueue []) (Reactor.groups r.queue) := rfl
  have emptied : (r.onAsync env).ownQueue = [] := by
    have writes : Writes env (r.withQueue []) (r.onAsync env) :=
      writes_writeGroups _ fun g mem own => (laden g.1 (mem_of_groups mem) own).bytes
    have queue : (r.onAsync env).queue = [] := writes.frame.2.1
    rw [Reactor.ownQueue, queue]
    rfl
  rcases takes_up env (groups_grouped r.queue) own' file plain idle with
    ⟨taken, none_, awaits⟩ | ⟨none_, one, shut⟩
  · rw [closed, none_]
    rw [← out] at taken awaits
    have progress : Progress content f ⟨r.onAsync env, ([] : List Bytes).map (·, false), 0⟩ := by
      refine .sending (n := 0) some_ ?_ (Or.inr awaits) (by simp) (by simp)
      rw [taken]
      rfl
    exact progress
  · rw [closed, one]
    rw [← out] at none_ shut
    have progress : Progress content f ⟨r.onAsync env, ([] : List Bytes).map (·, false), 1⟩ :=
      .lost (n := 0) some_ shut.symm (by simp) (by simp) (spent_of_empty none_ emptied)
    exact progress

/-- One step of a plaintext connection takes the answer on. -/
theorem progress_step (plain : Plain env s.reactor) (retired : Retired f.requestId s.reactor.lane)
    (some_ : 0 < f.remaining) (h : Progress content f s)
    (paced : s.paced content f.requestId a = true)
    (step : s.step env f.requestId a = some s') : Progress content f s' := by
  obtain ⟨r', step', rfl⟩ := Option.map_eq_some_iff.mp step
  have wf' : r'.WF := plain.wf.step env step'
  cases h with
  | @queued r before e own file front idle =>
      by_cases batch : a = .async
      · subst batch
        obtain rfl : r.onAsync env = r' := Option.some.inj step'
        exact progress_batch plain.accounted.laden some_ own file front idle
      · obtain ⟨es, grown, -⟩ := ownQueue_grows plain batch step'
        rw [show r.ownQueue = before ++ [e] from own] at grown
        obtain ⟨own', idle'⟩ := queued_kept wf' grown file
        obtain ⟨silent, none_⟩ : chunksOf f.requestId r r' a = [] ∧
            closes env f.requestId r a = 0 :=
          quiet (by rw [idle]; rfl) fun async => absurd async batch
        rw [silent, none_]
        exact .queued own' file front idle'
  | @sending r n cs less file awaits full sent =>
      have empty : r.ownQueue = [] := ownQueue_of_file plain.wf file
      have fileOf : r.conn.file.any (isOf f.requestId) = true := by
        rw [file]
        exact isOf_self f
      cases acts : handles a with
      | false =>
          -- nothing is sent or closed
          obtain ⟨-, -, -, busy, http⟩ :=
            plain.wf.sound.of_file (show r.lane.file = some _ from file)
          have file' := (step_file http busy acts step').trans file
          have silent : chunksOf f.requestId r r' a = [] ∧ closes env f.requestId r a = 0 := by
            cases a with
            | written | async | closed => cases acts
            | _ => exact ⟨rfl, rfl⟩
          have awaits' : r'.conn.closing = true ∨ r'.conn.writes ≠ [] := by
            have lands : Turn.lands (.act a) = false := by
              cases a with
              | written => cases acts
              | _ => rfl
            exact awaits.imp (closing_kept plain.wf step') (plain.outstanding lands step').2
          rw [silent.1, silent.2, List.append_nil]
          exact .sending less file' awaits' full sent
      | true =>
          cases a with
          | written ok got =>
              have read : got <+: content.drop (f.offset + n) := by
                simpa [FileAnswer.paced, file, isOf] using paced
              have landing := next_chunk plain.wf plain.accounted file read step'
              obtain ⟨es, grown, settled⟩ := ownQueue_grows plain (by simp) step'
              have empty' : r'.ownQueue = [] := by
                rw [grown, settled rfl, List.append_nil]
                exact empty
              exact progress_landing less full sent empty' landing
          | async =>
              obtain rfl : r.onAsync env = r' := Option.some.inj step'
              have others : ∀ g ∈ Reactor.groups r.queue,
                  g.1.connId ≠ (r.withQueue []).conn.id := by
                intro g mem own
                have among : g.1 ∈ r.ownQueue := by
                  refine List.mem_filter.mpr ⟨?_, beq_iff_eq.mpr own⟩
                  rw [← groups_flatten r.queue]
                  exact List.mem_flatMap.mpr ⟨g, mem, List.mem_cons_self⟩
                rw [empty] at among
                cases among
              obtain ⟨same, none_⟩ := batch_others env f.requestId others
              have out : r.onAsync env = r.withQueue [] := same
              have zero : closes env f.requestId r .async = 0 := none_
              rw [out]
              have progress : Progress content f ⟨r.withQueue [], cs.map (·, false), 0⟩ :=
                .sending less file awaits full sent
              simpa [zero, chunksOf] using progress
          | closed =>
              have one : closes env f.requestId r .closed = 1 := if_pos fileOf
              obtain ⟨shut, out⟩ := Option.ite_none_right_eq_some.mp step'
              obtain rfl := Option.some.inj out
              obtain ⟨es, grown, settled⟩ := ownQueue_grows plain (by simp) step'
              have empty' : r.onCloseConn.ownQueue = [] := by
                rw [grown, settled rfl, List.append_nil]
                exact empty
              have left : r.onCloseConn.conn.file = none ∧ r.onCloseConn.gone = true := by
                unfold Reactor.onCloseConn
                dsimp only
                split
                · exact ⟨rfl, rfl⟩
                · exact ⟨rfl, rfl⟩
              have progress : Progress content f ⟨r.onCloseConn, cs.map (·, false), 1⟩ :=
                .lost less (Or.inr left.2) full sent (spent_of_empty left.1 empty')
              simpa [one, chunksOf] using progress
          | _ => cases acts
  | done full sent spent =>
      obtain ⟨silent, none_, spent'⟩ := spent_quiet plain.wf retired spent step'
      simp only [silent, none_, List.append_nil, Nat.add_zero]
      exact .done full sent spent'
  | lost less shut full sent spent =>
      obtain ⟨silent, none_, spent'⟩ := spent_quiet plain.wf retired spent step'
      simp only [silent, none_, List.append_nil, Nat.add_zero]
      exact .lost less (shut_kept plain.wf step' shut) full sent spent'

end Runs

/-! ### File answers -/

section FileAnswers

variable {env : Env} {r₀ r : Reactor} {id : Nat} {loc : ReqLoc}

/-- A file answer starts in the inbox. -/
theorem progress_respondFile (env : Env) (wf : r.WF) (running : r.running = true)
    (found : r.findReq id = some loc) (own : loc.connId = r.conn.id) (get : loc.isHead = false)
    {content : Bytes} {offset length : Int} (inside : offset.toNat ≤ content.length)
    (part : filePart content offset length ≠ []) (status : Nat) (headers : List Header) :
    Progress content ⟨id, offset.toNat, (filePart content offset length).length, loc.keepAlive⟩
        ⟨r.respondFile env id status headers (some content.length) offset length, [], 0⟩ ∧
      Retired id
        (r.respondFile env id status headers (some content.length) offset length).lane := by
  have inLane : r.lane.find id = some loc := find_of_own found own
  obtain ⟨-, quiet, idle, -⟩ := wf.sound.of_find inLane
  have known : id < r.nextId := by
    refine wf.own id (Lane.mem_ids.mpr (Or.inl ?_))
    obtain ⟨e, hit, -⟩ := Option.map_eq_some_iff.mp inLane
    have same : e.1 = id := by simpa using List.find?_some hit
    exact same ▸ List.mem_map_of_mem (List.mem_of_find?_eq_some hit)
  have size := filePart_length content offset length
  have some_ : ¬ (loc.isHead = true ∨ (filePart content offset length).length = 0) := by
    rw [get]
    exact fun no => no.elim Bool.noConfusion fun empty => part (List.length_eq_zero_iff.mp empty)
  rw [respondFile_push running found inside size.symm some_]
  constructor
  · have mine : (loc.connId == r.conn.id) = true := beq_iff_eq.mpr own
    let e := fileEntry env r id status headers loc offset.toNat
      (filePart content offset length).length
    have grown : ((r.eraseReq id).pushWrite e).ownQueue = r.ownQueue ++ [e] := by
      simp [Reactor.ownQueue, Reactor.pushWrite, Reactor.eraseReq, e, fileEntry, mine]
    refine .queued grown rfl ?_ idle
    intro b mem
    have plain := quiet b mem
    cases file : b.file with
    | none => rfl
    | some f => simp [Pending.credits, file] at plain
  · refine ⟨known, fun e mem => ?_⟩
    have kept := List.mem_of_mem_filter mem
    have other := List.of_mem_filter kept
    simpa using other

/-- In every run of a plaintext connection with a file answer the landings of writes have written
the file's part from its start on, each octet once and the end of the answer with the last; the
descriptor is open, with a write outstanding once the loop has come to it, or was closed once. -/
theorem paced_file (fresh : Fresh r₀) (plain : r₀.conn.tls = false)
    (run : Reaches (stepOf (Engine.step env)) anyStep r₀ r) (running : r.running = true)
    (found : r.findReq id = some loc) (own : loc.connId = r.conn.id) (get : loc.isHead = false)
    {content : Bytes} {offset length : Int} (inside : offset.toNat ≤ content.length)
    (part : filePart content offset length ≠ []) (status : Nat) (headers : List Header)
    {s : FileAnswer}
    (sends_ : Reaches (stepOf (FileAnswer.step env id))
      (fun s a => s.paced content id a = true)
      ⟨r.respondFile env id status headers (some content.length) offset length, [], 0⟩ s) :
    Progress content ⟨id, offset.toNat, (filePart content offset length).length, loc.keepAlive⟩
      s := by
  have before : Plain env r := .reached fresh plain run
  have answered : Engine.step env r
      (.respondFile id status headers (some content.length) offset length) =
        some (r.respondFile env id status headers (some content.length) offset length) := rfl
  obtain ⟨progress, retired⟩ := progress_respondFile env before.wf running found own get
    inside part status headers
  have some_ : 0 < (filePart content offset length).length := List.length_pos_of_ne_nil part
  have kept : Plain env s.reactor ∧ Retired id s.reactor.lane ∧
      Progress content
        ⟨id, offset.toNat, (filePart content offset length).length, loc.keepAlive⟩ s := by
    refine sends_.invariant (I := fun s => Plain env s.reactor ∧ Retired id s.reactor.lane ∧
      Progress content
        ⟨id, offset.toNat, (filePart content offset length).length, loc.keepAlive⟩ s)
      ⟨before.step answered, retired, progress⟩ ?_
    rintro t a u ⟨plain, retired, progress⟩ paced step
    obtain ⟨r', step', rfl⟩ := Option.map_eq_some_iff.mp step
    exact ⟨plain.step step', retired_step plain.wf retired step',
      progress_step plain retired some_ progress paced step⟩
  exact kept.2.2

end FileAnswers

/-- A file of two octets, queued. -/
def bits : FileAnswer :=
  ⟨asking.respondFile datedEnv 1 200 [] (some (ascii "hi").length) 0 (-1), [], 0⟩

/-- Two octets, read one at a time. -/
theorem paced_file_bits : ∃ s : FileAnswer,
    s.chunks = [(ascii "h", false), (ascii "i", true)] ∧ s.closed = 1 ∧
      Progress (ascii "hi")
        ⟨1, (0 : Int).toNat, (filePart (ascii "hi") 0 (-1)).length, true⟩ s := by
  obtain ⟨s, ran, chunks, closed⟩ := exec_any
    (f := guarded (fun s a => s.paced (ascii "hi") 1 a = true) (FileAnswer.step datedEnv 1))
    (show (exec _ [.async, .written true (ascii "h"), .written true (ascii "i")] bits).any
        (fun s => decide (s.chunks = [(ascii "h", false), (ascii "i", true)] ∧ s.closed = 1)) = true
      by decide +kernel)
  obtain ⟨-, running, found, own, -⟩ := asking_get
  have part : filePart (ascii "hi") 0 (-1) ≠ [] := by decide +kernel
  have inside : (0 : Int).toNat ≤ (ascii "hi").length := by decide
  exact ⟨s, chunks, closed, paced_file sampleConn_fresh rfl asking_runs running found own rfl inside
    part 200 [] (exec_guarded ran)⟩

end NitroServer.Answer
