/-
From the answer calls to the wire.

An answer call puts entries into the inbox; `onAsync` writes them, several in a row at once,
and the chunks of a file follow as writes land. What a connection has written and what it
still owes add up to what was put in for it (`total`): draining moves bytes from one side to
the other, whatever else is in the inbox and wherever a batch is cut (`total_onAsync`), and so
does the landing of a write (`total_onWrite`).

* `steady` — the steps of a run that concern one request: its chunk calls, batches, landings
  of writes that end nothing, and what other connections and threads do.
* `Stage` — how far its answer is: more may come, its end is queued, a file is being sent, or
  all is written and exactly the last write ended it.
* `serves_run` — a steady run writes what its calls put in.
-/

import NitroServer.Lane.Refine

namespace NitroServer.Answer

open NitroServer.Engine NitroServer.Lib

/-! ### Nothing ends before a request is answered -/

/-- A connection that is gone has no request, and while one is unanswered nothing that ends an
answer is queued. -/
structure Unended (l : Lane) : Prop where
  left : l.gone = true → l.closing = true ∧ l.reqs = []
  queue : l.reqs ≠ [] → ∀ e ∈ l.queue, e.isLast = false

namespace Unended

variable {l l' : Lane} {m : Move}

theorem shrink (h : Unended l) (gone : l'.gone = l.gone) (closing : l.closing → l'.closing)
    (reqs : l.reqs = [] → l'.reqs = []) (queue : ∀ e ∈ l'.queue, e ∈ l.queue) : Unended l' := by
  refine ⟨fun g => ?_, fun more e mem => h.queue (fun none => more (reqs none)) e (queue e mem)⟩
  obtain ⟨shut, none⟩ := h.left (gone ▸ g)
  exact ⟨closing shut, reqs none⟩

theorem erase_nil {id : Nat} (none : l.reqs = []) : (l.erase id).reqs = [] := by
  simp [Lane.erase, none]

/-- One move. -/
theorem step (h : Unended l) (hs : l.Sound) (hstep : l.Step m l') : Unended l' := by
  have same : ∀ e ∈ l.queue, e ∈ l.queue := fun e mem => mem
  cases hstep with
  | interim | endUpload | skipId | guard | sessionWrite | sessionClose | fileChunk | fileEnd
  | answer | upgrade | landed =>
      exact h.shrink rfl (fun c => c) (fun r => r) same
  | close | landedLast | lost | fileLost => exact h.shrink rfl (fun _ => rfl) (fun r => r) same
  | dispatch gate | dispatchStream gate =>
      obtain ⟨-, empty, -⟩ := hs.of_open gate.1.1
      refine ⟨fun g => ?_, fun _ e mem => ?_⟩
      · have shut := (h.left g).1
        rw [gate.1.2] at shut
        cases shut
      · have mem : e ∈ l.queue := mem
        rw [empty] at mem
        cases mem
  | refuseUpload =>
      exact h.shrink rfl (fun c => c) (fun r => by simp [Lane.write, Lane.register, r]) same
  | leave http shut =>
      exact ⟨fun _ => ⟨shut, rfl⟩, fun more => absurd rfl more⟩
  | leaveSession ws shut =>
      obtain ⟨zero, -⟩ := hs.session ws
      have none : l.reqs = [] := by
        simp only [Lane.credit, Nat.add_eq_zero_iff] at zero
        exact List.length_eq_zero_iff.mp zero.1.1.1
      exact ⟨fun _ => ⟨shut, none⟩, fun more => absurd none more⟩
  | abort | timeOut => exact h.shrink rfl (fun c => c) erase_nil same
  | silence => exact h.shrink rfl (fun _ => rfl) erase_nil same
  | flip => exact h.shrink rfl (fun c => c) (fun r => by simp [r]) same
  | @push id loc e found shaped more =>
      have pending : l.reqs ≠ [] := List.ne_nil_of_length_pos (Lane.length_pos_of_find found)
      refine ⟨h.left, fun _ e' mem => ?_⟩
      rcases List.mem_append.mp mem with mem | mem
      · exact h.queue pending e' mem
      · rw [List.mem_singleton] at mem
        rw [mem]
        exact more
  | @pushLast id loc e found =>
      obtain ⟨one, -⟩ := hs.of_find found
      have none : (l.erase id).reqs = [] := by
        have less := Lane.length_erase_lt found
        exact List.length_eq_zero_iff.mp (by omega)
      exact ⟨fun g => ⟨(h.left g).1, none⟩, fun more => absurd none more⟩
  | drop queue | drain queue | drainFile queue =>
      exact h.shrink rfl (fun c => c) (fun r => r) fun e mem => queue ▸ List.mem_cons_of_mem _ mem
  | sessionPush ws =>
      obtain ⟨zero, -⟩ := hs.session ws
      have none : l.reqs = [] := by
        simp only [Lane.credit, Nat.add_eq_zero_iff] at zero
        exact List.length_eq_zero_iff.mp zero.1.1.1
      exact ⟨h.left, fun more => absurd none more⟩

/-- Of every reachable reactor. -/
theorem reached {env : Env} {r₀ r : Reactor} (fresh : Fresh r₀)
    (run : Reaches (stepOf (Engine.step env)) anyStep r₀ r) : r.WF ∧ Unended r.lane := by
  have start : Unended r₀.lane := by
    rw [fresh.lane]
    exact ⟨fun gone => (by cases gone), fun more => absurd rfl more⟩
  refine run.invariant (I := fun r => r.WF ∧ Unended r.lane) ⟨fresh.wf, start⟩ ?_
  rintro r a r' ⟨wf, h⟩ - hstep
  obtain ⟨moves, wf'⟩ := step_moves env wf hstep
  refine ⟨wf', ?_⟩
  have both : r'.lane.Sound ∧ Unended r'.lane :=
    moves.invariant (I := fun l => l.Sound ∧ Unended l) ⟨wf.sound, h⟩
      fun l m l' held _ hm => ⟨hm.sound held.1, held.2.step held.1 hm⟩
  exact both.2

end Unended

/-! ### Written and still owed -/

/-- A write: its bytes, and whether it ends an answer. -/
def wroteOf : Ev → List (Bytes × Bool)
  | .write payload _ finish _ => [(payloadBytes payload, finish)]
  | _ => []

/-- The writes of the connection so far. -/
def wrote (r : Reactor) : List (Bytes × Bool) := r.trace.flatMap wroteOf

/-- The bytes of some writes. -/
def bytesOf (ws : List (Bytes × Bool)) : Bytes := ws.flatMap Prod.fst

section Ledger

variable (content : Bytes)

/-- What is still to be read of a file with this content. -/
def rangeOf (f : FileSend) : Bytes := (content.drop f.offset).take f.remaining

/-- What an entry puts on the wire: its bytes, and its file's. -/
def owes (e : Pending) : Bytes := e.piece.bytes ++ e.file.elim [] (rangeOf content)

/-- What the connection still owes: the rest of its file, and its entries. -/
def owed (r : Reactor) : Bytes :=
  r.conn.file.elim [] (rangeOf content) ++ r.ownQueue.flatMap (owes content)

/-- Written or still owed. -/
def total (r : Reactor) : Bytes := bytesOf (wrote r) ++ owed content r

/-- The file is there as far as it is to be sent. -/
def InRange (f : FileSend) : Prop := 0 < f.remaining ∧ f.offset + f.remaining ≤ content.length

/-- An entry that ends an answer: the last write, or the head of a file. -/
def Ends (e : Pending) : Prop :=
  e.isLast = true ∧ ∀ f, e.file = some f → e.finish = false ∧ InRange content f

variable (id : Nat)

/-- How far the answer of a request is; the flag says that more of it may come. -/
inductive Stage (new : List (Bytes × Bool)) (r : Reactor) : Bool → Prop
  | answering {loc : ReqLoc} (found : r.findReq id = some loc) (own : loc.connId = r.conn.id)
      (idle : r.conn.file = none) (queue : ∀ e ∈ r.ownQueue, e.isLast = false)
      (open_ : ∀ w ∈ new, w.2 = false) : Stage new r true
  | queued {before : List Pending} {e : Pending} (gone : r.findReq id = none)
      (idle : r.conn.file = none) (queue : r.ownQueue = before ++ [e])
      (plain : ∀ e ∈ before, e.isLast = false) (ends : Ends content e)
      (open_ : ∀ w ∈ new, w.2 = false) : Stage new r false
  | sending {f : FileSend} (gone : r.findReq id = none) (file : r.conn.file = some f)
      (range : InRange content f) (queue : r.ownQueue = [])
      (open_ : ∀ w ∈ new, w.2 = false) : Stage new r false
  | done {before : List (Bytes × Bool)} {last : Bytes} (gone : r.findReq id = none)
      (idle : r.conn.file = none) (queue : r.ownQueue = [])
      (new_ : new = before ++ [(last, true)]) (open_ : ∀ w ∈ before, w.2 = false) :
      Stage new r false

/-- The connection serves the request over HTTP/1.1, and `base` was written before. -/
structure Serves (base : List (Bytes × Bool)) (more : Bool) (r : Reactor) : Prop where
  running : r.running = true
  live : r.gone = false
  http : r.conn.ws = false
  used : id < r.nextId
  stage : ∃ new, wrote r = base ++ new ∧ Stage content id new r more

end Ledger

/-! ### Steps that only look -/

/-- The same answer, as far as it is. -/
structure Alike (id : Nat) (r r' : Reactor) : Prop where
  running : r'.running = r.running
  gone : r'.gone = r.gone
  http : r'.conn.ws = r.conn.ws
  next : r.nextId ≤ r'.nextId
  wrote : wrote r' = wrote r
  found : r'.findReq id = r.findReq id
  conn : r'.conn.id = r.conn.id
  file : r'.conn.file = r.conn.file
  queue : r'.ownQueue = r.ownQueue

section Steps

variable {content : Bytes} {id : Nat} {base : List (Bytes × Bool)} {more : Bool}
  {r r' : Reactor}

theorem Alike.total (alike : Alike id r r') : total content r' = total content r := by
  rw [Answer.total, Answer.total, owed, owed, alike.wrote, alike.file, alike.queue]

theorem Alike.serves (alike : Alike id r r') (h : Serves content id base more r) :
    Serves content id base more r' := by
  obtain ⟨new, wrote_, stage⟩ := h.stage
  refine ⟨alike.running.trans h.running, alike.gone.trans h.live, alike.http.trans h.http,
    h.used.trans_le alike.next, new, alike.wrote.trans wrote_, ?_⟩
  cases stage with
  | answering found own idle queue open_ =>
      exact .answering (alike.found.trans found) (own.trans alike.conn.symm)
        (alike.file.trans idle) (fun e mem => queue e (alike.queue ▸ mem)) open_
  | queued gone idle queue plain ends open_ =>
      exact .queued (alike.found.trans gone) (alike.file.trans idle) (alike.queue.trans queue)
        plain ends open_
  | sending gone file range queue open_ =>
      exact .sending (alike.found.trans gone) (alike.file.trans file) range
        (alike.queue.trans queue) open_
  | done gone idle queue new_ open_ =>
      exact .done (alike.found.trans gone) (alike.file.trans idle) (alike.queue.trans queue) new_
        open_

/-! ### Writes -/

/-- A write of an HTTP connection that stays open is a write, and nothing else. -/
theorem writeAnswer_open {env : Env} {ps : List Piece} {ka fin : Bool} (http : r.conn.ws = false)
    (open_ : (r.writeAnswer env ps ka fin).conn.closing = false) :
    r.writeAnswer env ps ka fin = r.startAnswer env ps ka fin := by
  rcases writeAnswer_cases env http with same | ⟨r₁, -, closed⟩
  · exact same
  · have shut : r₁.closeConn.conn.closing = true := by
      have lane := lane_closeConn r₁
      exact congrArg Lane.closing lane
    rw [closed, shut] at open_
    cases open_

theorem wrote_startAnswer (env : Env) (r : Reactor) (ps : List Piece) (ka fin : Bool) :
    wrote (r.startAnswer env ps ka fin) = wrote r ++ [(payloadBytes ps, fin)] := by
  simp [wrote, Reactor.startAnswer, Reactor.issueWrite, Reactor.setConn, wroteOf]

theorem bytesOf_append (ws vs : List (Bytes × Bool)) :
    bytesOf (ws ++ vs) = bytesOf ws ++ bytesOf vs := List.flatMap_append

theorem bytesOf_one (b : Bytes) (fin : Bool) : bytesOf [(b, fin)] = b := by
  simp [bytesOf]

/-! ### Batches -/

/-- The entries of a group are all of this connection, or none is. -/
theorem ownQueue_groups {g : Pending × List Pending} {rest : List Pending} (hg : Grouped g)
    (queue : r.queue = g.1 :: g.2 ++ rest) :
    r.ownQueue = (if g.1.connId = r.conn.id then g.1 :: g.2 else []) ++
      (r.withQueue rest).ownQueue := by
  have all : ∀ e ∈ g.1 :: g.2, e.connId = g.1.connId := by
    intro e mem
    rcases List.mem_cons.mp mem with rfl | mem
    · rfl
    · exact (hg.same e mem).1
  rw [Reactor.ownQueue, queue, List.filter_append]
  congr 1
  split
  · rename_i own
    exact List.filter_eq_self.mpr fun e mem => by simp [all e mem, own]
  · rename_i other
    exact List.filter_eq_nil_iff.mpr fun e mem => by simp [all e mem, other]

/-- Without files, entries owe their bytes. -/
theorem owes_plain {es : List Pending} (plain : ∀ e ∈ es, e.file = none) :
    es.flatMap (owes content) = payloadBytes (es.map Pending.piece) := by
  rw [payloadBytes, List.flatMap_map]
  apply List.flatMap_congr
  intro e mem
  rw [owes, plain e mem]
  exact List.append_nil _

variable {env : Env}

/-- The state after a write, but for what the write changes. -/
theorem serves_wrote (s : Reactor) {ps : List Piece} {ka fin : Bool}
    (h : Serves content id base more r) (running : s.running = r.running) (gone : s.gone = r.gone)
    (http : s.conn.ws = r.conn.ws) (next : s.nextId = r.nextId) (trace : s.trace = r.trace)
    {new : List (Bytes × Bool)} (wrote_ : wrote r = base ++ new) {more' : Bool}
    (stage : Stage content id (new ++ [(payloadBytes ps, fin)]) (s.startAnswer env ps ka fin)
      more') : Serves content id base more' (s.startAnswer env ps ka fin) := by
  refine ⟨running.trans h.running, gone.trans h.live, http.trans h.http, next ▸ h.used, _, ?_,
    stage⟩
  have same : wrote s = wrote r := congrArg (List.flatMap wroteOf) trace
  rw [wrote_startAnswer, same, wrote_, List.append_assoc]

section Group

variable {g : Pending × List Pending} {rest : List Pending}
  (h : Serves content id base more r) (hg : Grouped g) (queue : r.queue = g.1 :: g.2 ++ rest)
  (own : g.1.connId = r.conn.id)

include h hg queue own

/-- The head of a file answer goes out alone, and the file is next. -/
theorem drain_file {f : FileSend} (file : g.1.file = some f) :
    Serves content id base more
        (((r.withQueue rest).setConn { r.conn with file := some f }).startAnswer env [g.1.piece]
          g.1.keepAlive false) ∧
      total content (((r.withQueue rest).setConn { r.conn with file := some f }).startAnswer env
        [g.1.piece] g.1.keepAlive false) = total content r := by
  have alone : g.2 = [] := hg.alone (by rw [file]; rfl)
  have own_ := ownQueue_groups hg queue
  rw [if_pos own, alone, List.singleton_append] at own_
  have ends : g.1.isLast = true := by simp [Pending.isLast, file]
  obtain ⟨new, wrote_, stage⟩ := h.stage
  cases stage with
  | answering found mine idle plain open_ =>
      have noEnd := plain g.1 (own_ ▸ List.mem_cons_self)
      rw [ends] at noEnd
      cases noEnd
  | sending gone file_ range empty open_ =>
      rw [own_] at empty
      cases empty
  | done gone idle empty new_ open_ =>
      rw [own_] at empty
      cases empty
  | @queued before e gone idle q plain ends_ open_ =>
      rw [own_] at q
      cases before with
      | cons e' before =>
          obtain ⟨rfl, -⟩ := List.cons.inj q
          have noEnd := plain _ List.mem_cons_self
          rw [ends] at noEnd
          cases noEnd
      | nil =>
          obtain ⟨rfl, empty⟩ := List.cons.inj q
          obtain ⟨noFinish, range⟩ := ends_.2 f file
          refine ⟨serves_wrote ((r.withQueue rest).setConn { r.conn with file := some f }) h rfl rfl
            rfl rfl rfl wrote_ (.sending gone rfl range empty ?_), ?_⟩
          · intro w mem
            rcases List.mem_append.mp mem with mem | mem
            · exact open_ w mem
            · rw [List.mem_singleton] at mem
              rw [mem]
          · have after : owed content (((r.withQueue rest).setConn
                { r.conn with file := some f }).startAnswer env [g.1.piece] g.1.keepAlive false) =
                rangeOf content f := by
              have none_ : ((((r.withQueue rest).setConn { r.conn with file := some f }).startAnswer
                  env [g.1.piece] g.1.keepAlive false)).ownQueue = [] := empty
              rw [owed, none_, List.flatMap_nil, List.append_nil]
              rfl
            have before : owed content r = g.1.piece.bytes ++ rangeOf content f := by
              have none_ : (r.withQueue rest).ownQueue = [] := empty
              rw [owed, idle, own_, none_, List.flatMap_singleton, owes, file]
              rfl
            have payload : payloadBytes [g.1.piece] = g.1.piece.bytes := by simp [payloadBytes]
            rw [total, total, after, before, wrote_startAnswer, bytesOf_append, bytesOf_one,
              payload, List.append_assoc]
            rfl

/-- A group without a file goes out in one write, which ends the answer if its last entry
does. -/
theorem drain_plain (file : g.1.file = none) {ka : Bool} :
    Serves content id base more ((r.withQueue rest).startAnswer env
        ((g.1 :: g.2).map Pending.piece) ka
        ((g.1 :: g.2).getLast (List.cons_ne_nil _ _)).finish) ∧
      total content ((r.withQueue rest).startAnswer env ((g.1 :: g.2).map Pending.piece) ka
        ((g.1 :: g.2).getLast (List.cons_ne_nil _ _)).finish) = total content r := by
  have noFile : ∀ e ∈ g.1 :: g.2, e.file = none := by
    intro e mem
    rcases List.mem_cons.mp mem with rfl | mem
    · exact file
    · exact (hg.same e mem).2
  have own_ := ownQueue_groups hg queue
  rw [if_pos own] at own_
  generalize hlast : (g.1 :: g.2).getLast (List.cons_ne_nil _ _) = last
  have lastMem : last ∈ g.1 :: g.2 := hlast ▸ List.getLast_mem _
  have lastIs : last.isLast = last.finish := by simp [Pending.isLast, noFile last lastMem]
  have moved (idle : r.conn.file = none) :
      total content ((r.withQueue rest).startAnswer env ((g.1 :: g.2).map Pending.piece) ka
        last.finish) = total content r := by
    have after : owed content ((r.withQueue rest).startAnswer env
        ((g.1 :: g.2).map Pending.piece) ka last.finish) =
        (r.withQueue rest).ownQueue.flatMap (owes content) := by
      have none_ : ((r.withQueue rest).startAnswer env ((g.1 :: g.2).map Pending.piece) ka
        last.finish).conn.file = none := idle
      rw [owed, none_]
      rfl
    have before : owed content r = payloadBytes ((g.1 :: g.2).map Pending.piece) ++
        (r.withQueue rest).ownQueue.flatMap (owes content) := by
      rw [owed, idle, own_, List.flatMap_append, owes_plain noFile]
      rfl
    rw [total, total, after, before, wrote_startAnswer, bytesOf_append, bytesOf_one,
      List.append_assoc]
    rfl
  obtain ⟨new, wrote_, stage⟩ := h.stage
  cases stage with
  | answering found mine idle plain open_ =>
      have noEnd : last.finish = false := by
        rw [← lastIs]
        exact plain last (own_ ▸ List.mem_append_left _ lastMem)
      refine ⟨serves_wrote (r.withQueue rest) h rfl rfl rfl rfl rfl wrote_
        (.answering found mine idle ?_ ?_), moved idle⟩
      · intro e mem
        exact plain e (own_ ▸ List.mem_append_right _ mem)
      · intro w mem
        rcases List.mem_append.mp mem with mem | mem
        · exact open_ w mem
        · rw [List.mem_singleton] at mem
          rw [mem, noEnd]
  | sending gone file_ range empty open_ =>
      rw [own_] at empty
      cases empty
  | done gone idle empty new_ open_ =>
      rw [own_] at empty
      cases empty
  | @queued before e gone idle q plain ends_ open_ =>
      rw [own_] at q
      rcases List.eq_nil_or_concat (r.withQueue rest).ownQueue with none_ | ⟨rest', e', some_⟩
      · -- the end is in this group
        rw [none_, List.append_nil] at q
        have same : last = e := by
          rw [← hlast]
          simp only [q, List.getLast_append_singleton]
        have finish : last.finish = true := by
          rw [← lastIs, same]
          exact ends_.1
        refine ⟨serves_wrote (r.withQueue rest) h rfl rfl rfl rfl rfl wrote_
          (.done gone idle none_ (by rw [finish]) open_), moved idle⟩
      · -- the end is still queued
        rw [some_, List.concat_eq_append, ← List.append_assoc] at q
        obtain ⟨before_, same⟩ := List.append_inj' q rfl
        obtain rfl : e' = e := by simpa using same
        have noEnd : last.finish = false := by
          rw [← lastIs]
          exact plain last (before_ ▸ List.mem_append_left _ lastMem)
        have queue' : (r.withQueue rest).ownQueue = rest' ++ [e'] := by
          rw [some_, List.concat_eq_append]
        refine ⟨serves_wrote (r.withQueue rest) h rfl rfl rfl rfl rfl wrote_
          (.queued gone idle queue' ?_ ends_ ?_), moved idle⟩
        · intro e mem
          exact plain e (before_ ▸ List.mem_append_right _ mem)
        · intro w mem
          rcases List.mem_append.mp mem with mem | mem
          · exact open_ w mem
          · rw [List.mem_singleton] at mem
            rw [mem, noEnd]

end Group

theorem withQueue_withQueue (r : Reactor) (q q' : List Pending) :
    (r.withQueue q).withQueue q' = r.withQueue q' := rfl

theorem alike_withQueue {rest : List Pending} (queue : (r.withQueue rest).ownQueue = r.ownQueue) :
    Alike id r (r.withQueue rest) :=
  ⟨rfl, rfl, rfl, le_rfl, rfl, rfl, rfl, rfl, queue⟩

/-- Nothing is written for a connection that closes. -/
theorem writeGroup_closing (g : Pending × List Pending) (shut : r.conn.closing = true) :
    r.writeGroup env g = r := by
  rw [Reactor.writeGroup, if_pos (Or.inr (Or.inr shut))]

theorem writeGroups_closing (gs : List (Pending × List Pending)) (shut : r.conn.closing = true) :
    gs.foldl (Reactor.writeGroup env) r = r := by
  induction gs with
  | nil => rfl
  | cons g gs ih => rw [List.foldl_cons, writeGroup_closing g shut, ih]

/-- One group of a batch. -/
theorem drain_one {g : Pending × List Pending} {rest : List Pending}
    (h : Serves content id base more r) (hg : Grouped g) (queue : r.queue = g.1 :: g.2 ++ rest)
    (open_ : ((r.withQueue rest).writeGroup env g).conn.closing = false) :
    Serves content id base more ((r.withQueue rest).writeGroup env g) ∧
      total content ((r.withQueue rest).writeGroup env g) = total content r := by
  have before : r.conn.closing = false := by
    cases shut : r.conn.closing with
    | false => rfl
    | true =>
        rw [writeGroup_closing g (show (r.withQueue rest).conn.closing = true from shut)] at open_
        exact absurd (open_.symm.trans shut) Bool.false_ne_true
  by_cases own : g.1.connId = r.conn.id
  · have here : ¬ (g.1.connId ≠ (r.withQueue rest).conn.id ∨ (r.withQueue rest).gone ∨
        (r.withQueue rest).conn.closing) := by
      rintro (other | gone | shut)
      · exact other own
      · exact Bool.false_ne_true (h.live.symm.trans gone)
      · exact Bool.false_ne_true (before.symm.trans shut)
    rw [Reactor.writeGroup, if_neg here] at open_ ⊢
    cases file : g.1.file with
    | none =>
        simp only [file] at open_ ⊢
        have http : (r.withQueue rest).conn.ws = false := h.http
        have start := writeAnswer_open http open_
        rw [start]
        exact drain_plain h hg queue own file
    | some f =>
        simp only [file] at open_ ⊢
        have http : ((r.withQueue rest).setConn
            { (r.withQueue rest).conn with file := some f }).conn.ws = false := h.http
        have start := writeAnswer_open http open_
        rw [start]
        exact drain_file h hg queue own file
  · have other : (r.withQueue rest).writeGroup env g = r.withQueue rest := by
      rw [Reactor.writeGroup]
      exact if_pos (Or.inl own)
    have same := ownQueue_groups hg queue
    rw [if_neg own, List.nil_append] at same
    rw [other]
    have alike : Alike id r (r.withQueue rest) := alike_withQueue same.symm
    exact ⟨alike.serves h, alike.total⟩

/-- All groups of a batch: what else is in it, and where it is cut, makes no difference. -/
theorem drain_all {gs : List (Pending × List Pending)} (grouped : ∀ g ∈ gs, Grouped g)
    (h : Serves content id base more r) (queue : r.queue = gs.flatMap fun g => g.1 :: g.2)
    (open_ : (gs.foldl (Reactor.writeGroup env) (r.withQueue [])).conn.closing = false) :
    Serves content id base more (gs.foldl (Reactor.writeGroup env) (r.withQueue [])) ∧
      total content (gs.foldl (Reactor.writeGroup env) (r.withQueue [])) = total content r := by
  induction gs generalizing r with
  | nil =>
      have empty : r.withQueue [] = r := by
        rw [List.flatMap_nil] at queue
        rw [Reactor.withQueue, ← queue]
      rw [List.foldl_nil, empty]
      exact ⟨h, rfl⟩
  | cons g gs ih =>
      rw [List.flatMap_cons] at queue
      let s := (r.withQueue (gs.flatMap fun g => g.1 :: g.2)).writeGroup env g
      have moved : (r.withQueue []).writeGroup env g = s.withQueue [] := by
        have kept := writeGroup_withQueue env (r.withQueue (gs.flatMap fun g => g.1 :: g.2)) [] g
        rwa [withQueue_withQueue] at kept
      have queue' : s.queue = gs.flatMap fun g => g.1 :: g.2 := by
        have kept := writeGroup_withQueue env r (gs.flatMap fun g => g.1 :: g.2) g
        exact congrArg Reactor.queue kept
      rw [List.foldl_cons, moved] at open_ ⊢
      have stillOpen : s.conn.closing = false := by
        cases shut : s.conn.closing with
        | false => rfl
        | true =>
            rw [writeGroups_closing gs (show (s.withQueue []).conn.closing = true from shut)]
              at open_
            exact absurd (open_.symm.trans shut) Bool.false_ne_true
      obtain ⟨one, same⟩ := drain_one h (grouped g List.mem_cons_self) queue stillOpen
      obtain ⟨all, rest⟩ := ih (fun g' mem => grouped g' (List.mem_cons_of_mem g mem)) one queue'
        open_
      exact ⟨all, rest.trans same⟩

theorem serves_onAsync (h : Serves content id base more r)
    (open_ : (r.onAsync env).conn.closing = false) :
    Serves content id base more (r.onAsync env) ∧
      total content (r.onAsync env) = total content r :=
  drain_all (groups_grouped r.queue) h (groups_flatten r.queue).symm open_

theorem owed_startAnswer (s : Reactor) (ps : List Piece) (ka fin : Bool) :
    owed content (s.startAnswer env ps ka fin) = owed content s := rfl

theorem owed_file (r : Reactor) (file : Option FileSend) :
    owed content (r.setConn { r.conn with file }) =
      file.elim [] (rangeOf content) ++ r.ownQueue.flatMap (owes content) := rfl

/-! ### Landings -/

theorem Serves.inRange {f : FileSend} (h : Serves content id base more r)
    (file : r.conn.file = some f) : InRange content f := by
  obtain ⟨new, wrote_, stage⟩ := h.stage
  cases stage with
  | answering found own idle queue none_ =>
      rw [file] at idle
      cases idle
  | queued gone idle queue plain ends none_ =>
      rw [file] at idle
      cases idle
  | done gone idle queue new_ none_ =>
      rw [file] at idle
      cases idle
  | sending gone file' range queue none_ =>
      rw [file] at file'
      exact Option.some.inj file' ▸ range

/-- The rest of a file after its first octets. -/
theorem rangeOf_split (content : Bytes) {f : FileSend} {n : Nat} (le : n ≤ f.remaining)
    (ka : Bool) :
    (content.drop f.offset).take n ++
        rangeOf content ⟨f.requestId, f.offset + n, f.remaining - n, ka⟩ =
      rangeOf content f := by
  have whole := List.take_append_drop n ((content.drop f.offset).take f.remaining)
  rw [List.take_take, Nat.min_eq_left le, List.drop_take, List.drop_drop] at whole
  exact whole

/-- What a read returned, cut to the size asked for. -/
theorem take_read {got : Bytes} {offset : Nat} (read : got <+: content.drop offset) (m : Nat) :
    got.take m = (content.drop offset).take (min m got.length) := by
  conv_lhs => rw [List.prefix_iff_eq_take.mp read]
  rw [List.take_take]

/-- The next chunk of a file, however much of it a read returns. -/
theorem serves_continueFileSend {f : FileSend} {got : Bytes} (h : Serves content id base more r)
    (file : r.conn.file = some f) (read : got <+: content.drop f.offset) (some_ : got ≠ [])
    (open_ : (r.continueFileSend env got).conn.closing = false)
    (before : r.conn.closing = false) :
    Serves content id base more (r.continueFileSend env got) ∧
      total content (r.continueFileSend env got) = total content r := by
  obtain ⟨new, wrote_, stage⟩ := h.stage
  cases stage with
  | answering found own idle queue none_ =>
      rw [file] at idle
      cases idle
  | queued gone idle queue plain ends none_ =>
      rw [file] at idle
      cases idle
  | done gone idle queue new_ none_ =>
      rw [file] at idle
      cases idle
  | @sending f' gone file' range queue none_ =>
      obtain rfl : f' = f := Option.some.inj (file'.symm.trans file)
      obtain ⟨pos, fits⟩ := range
      have chunk := take_read read (min Reactor.kChunk f'.remaining)
      have some_ : 0 < got.length := List.length_pos_of_ne_nil some_
      generalize hn : min (min Reactor.kChunk f'.remaining) got.length = n at chunk
      have le : n ≤ f'.remaining := by omega
      have some_ : 0 < n := hn ▸ Nat.lt_min.mpr ⟨Nat.lt_min.mpr ⟨by decide, pos⟩, some_⟩
      have len : ((content.drop f'.offset).take n).length = n := by
        rw [List.length_take, List.length_drop]
        omega
      have full : (content.drop f'.offset).take n ≠ [] := by
        intro nil
        rw [nil] at len
        exact absurd len (Nat.ne_of_lt some_)
      have notShut : ¬ r.conn.closing = true := by simp [before]
      simp only [Reactor.continueFileSend, file, chunk, if_neg notShut, if_neg full, len]
        at open_ ⊢
      have payload : ∀ part, payloadBytes [⟨.request f'.requestId, part,
          (content.drop f'.offset).take n⟩] = (content.drop f'.offset).take n := by
        intro part
        simp [payloadBytes]
      have owed_ : owed content r = rangeOf content f' := by
        rw [owed, file, queue, List.flatMap_nil, List.append_nil]
        rfl
      have split := rangeOf_split content le f'.keepAlive
      by_cases over_ : f'.remaining - n = 0
      · simp only [over_, if_true, decide_true] at open_ ⊢
        have http : (r.setConn { r.conn with file := none }).conn.ws = false := h.http
        have start := writeAnswer_open http open_
        rw [start]
        refine ⟨serves_wrote (r.setConn { r.conn with file := none }) h rfl rfl rfl rfl rfl wrote_
          (.done gone rfl queue rfl none_), ?_⟩
        have rest : rangeOf content ⟨f'.requestId, f'.offset + n, f'.remaining - n,
            f'.keepAlive⟩ = [] := by
          rw [rangeOf, over_, List.take_zero]
        rw [rest, List.append_nil] at split
        have after : owed content (r.setConn { r.conn with file := none }) = [] := by
          rw [owed_file, queue]
          rfl
        rw [total, total, owed_startAnswer, after, wrote_startAnswer, bytesOf_append, bytesOf_one,
          payload, owed_, split, List.append_nil]
        rfl
      · simp only [over_, if_false, decide_false] at open_ ⊢
        let f₁ : FileSend := ⟨f'.requestId, f'.offset + n, f'.remaining - n, f'.keepAlive⟩
        have http : (r.setConn { r.conn with file := some f₁ }).conn.ws = false := h.http
        have start := writeAnswer_open http open_
        rw [start]
        have range₁ : InRange content f₁ := ⟨Nat.pos_of_ne_zero over_, by
          show f'.offset + n + (f'.remaining - n) ≤ content.length
          omega⟩
        refine ⟨serves_wrote (r.setConn { r.conn with file := some f₁ }) h rfl rfl rfl rfl rfl
          wrote_ (.sending gone rfl range₁ queue ?_), ?_⟩
        · intro w mem
          rcases List.mem_append.mp mem with mem | mem
          · exact none_ w mem
          · rw [List.mem_singleton] at mem
            rw [mem]
        · have after : owed content (r.setConn { r.conn with file := some f₁ }) =
              rangeOf content f₁ := by
            rw [owed_file, queue]
            exact List.append_nil _
          rw [total, total, owed_startAnswer, after, wrote_startAnswer, bytesOf_append,
            bytesOf_one, payload, owed_, List.append_assoc, split]
          rfl

theorem onWrite_noEnd {w : WriteCtx} {rest : List WriteCtx} {got : Bytes}
    (noEnd : w.finish = false) : r.onWrite env w rest true got =
      if (r.writeDone w rest).conn.file.isSome ∧ (r.writeDone w rest).conn.writePending = 0 then
        (r.writeDone w rest).continueFileSend env got else r.writeDone w rest := by
  simp only [Reactor.onWrite, noEnd, Bool.not_true, Bool.false_eq_true, if_false, Bool.not_false,
    if_true]

/-- A write that ends nothing landed. -/
theorem serves_onWrite {w : WriteCtx} {rest : List WriteCtx} {got : Bytes}
    (h : Serves content id base more r) (noEnd : w.finish = false)
    (read : ∀ f, r.conn.file = some f → got <+: content.drop f.offset ∧ got ≠ [])
    (open_ : (r.onWrite env w rest true got).conn.closing = false)
    (before : r.conn.closing = false) :
    Serves content id base more (r.onWrite env w rest true got) ∧
      total content (r.onWrite env w rest true got) = total content r := by
  have alike : Alike id r (r.writeDone w rest) := ⟨rfl, rfl, rfl, le_rfl, rfl, rfl, rfl, rfl, rfl⟩
  have landed := alike.serves h
  have same : total content (r.writeDone w rest) = total content r := alike.total
  rw [onWrite_noEnd noEnd] at open_ ⊢
  split
  · rename_i next
    rw [if_pos next] at open_
    obtain ⟨f, file⟩ := Option.isSome_iff_exists.mp next.1
    obtain ⟨start, some_⟩ := read f file
    obtain ⟨served, moved⟩ := serves_continueFileSend landed file start some_ open_ before
    exact ⟨served, moved.trans same⟩
  · exact ⟨landed, same⟩

/-! ### Chunk calls -/

theorem findReq_eraseReq (r : Reactor) (id : Nat) : (r.eraseReq id).findReq id = none := by
  rw [Reactor.findReq, Reactor.eraseReq, Option.map_eq_none_iff, List.find?_eq_none]
  intro e mem
  simpa using (List.mem_filter.mp mem).2

theorem ownQueue_push {e : Pending} (own : e.connId = r.conn.id) :
    (r.pushWrite e).ownQueue = r.ownQueue ++ [e] := by
  simp [Reactor.ownQueue, Reactor.pushWrite, own]

theorem ownQueue_push_other {e : Pending} (other : e.connId ≠ r.conn.id) :
    (r.pushWrite e).ownQueue = r.ownQueue := by
  simp [Reactor.ownQueue, Reactor.pushWrite, other]

theorem wrote_pushWrite (r : Reactor) (e : Pending) : wrote (r.pushWrite e) = wrote r := by
  simp [wrote, Reactor.pushWrite, wroteOf]

theorem wrote_eraseReq (r : Reactor) (id : Nat) : wrote (r.eraseReq id) = wrote r := by
  simp [wrote, Reactor.eraseReq, wroteOf]

/-- What a push adds to what is owed. -/
theorem total_push {s : Reactor} {e : Pending} (own : e.connId = s.conn.id)
    (wrote_ : wrote s = wrote r) (queue : s.ownQueue = r.ownQueue)
    (file : s.conn.file = r.conn.file) :
    total content (s.pushWrite e) = total content r ++ owes content e := by
  have after : owed content (s.pushWrite e) = owed content r ++ owes content e := by
    have file' : (s.pushWrite e).conn.file = r.conn.file := file
    rw [owed, owed, ownQueue_push own, file', queue, List.flatMap_append, List.flatMap_singleton,
      List.append_assoc]
  rw [total, total, after, wrote_pushWrite, wrote_, List.append_assoc]

/-- More of an answer is put in. -/
theorem serves_push {loc : ReqLoc} {e : Pending} (h : Serves content id base true r)
    (found : r.findReq id = some loc) (own : e.connId = loc.connId) (more_ : e.isLast = false) :
    Serves content id base true (r.pushWrite e) ∧
      total content (r.pushWrite e) = total content r ++ owes content e := by
  obtain ⟨new, written, stage⟩ := h.stage
  cases stage with
  | @answering loc' found' mine idle queue none_ =>
      obtain rfl : loc' = loc := Option.some.inj (found'.symm.trans found)
      have own' : e.connId = r.conn.id := own.trans mine
      refine ⟨⟨h.running, h.live, h.http, h.used, new, (wrote_pushWrite r e).trans written,
        .answering found mine idle ?_ none_⟩, total_push own' rfl rfl rfl⟩
      intro e' mem
      rw [ownQueue_push own'] at mem
      rcases List.mem_append.mp mem with mem | mem
      · exact queue e' mem
      · rw [List.mem_singleton] at mem
        rw [mem]
        exact more_

/-- The end of an answer is put in. -/
theorem serves_pushLast {loc : ReqLoc} {e : Pending} (h : Serves content id base true r)
    (found : r.findReq id = some loc) (own : e.connId = loc.connId) (ends : Ends content e) :
    Serves content id base false ((r.eraseReq id).pushWrite e) ∧
      total content ((r.eraseReq id).pushWrite e) = total content r ++ owes content e := by
  obtain ⟨new, written, stage⟩ := h.stage
  cases stage with
  | @answering loc' found' mine idle queue none_ =>
      obtain rfl : loc' = loc := Option.some.inj (found'.symm.trans found)
      have own' : e.connId = (r.eraseReq id).conn.id := own.trans mine
      have same : wrote ((r.eraseReq id).pushWrite e) = wrote r :=
        (wrote_pushWrite _ e).trans (wrote_eraseReq r id)
      have gone : ((r.eraseReq id).pushWrite e).findReq id = none := findReq_eraseReq r id
      exact ⟨⟨h.running, h.live, h.http, h.used, new, same.trans written,
        .queued gone idle (ownQueue_push own') queue ends none_⟩,
        total_push own' (wrote_eraseReq r id) rfl rfl⟩

/-- A finished answer takes no more. -/
theorem gone_of_finished (h : Serves content id base false r) : r.findReq id = none := by
  obtain ⟨new, written, stage⟩ := h.stage
  cases stage with
  | queued gone => exact gone
  | sending gone => exact gone
  | done gone => exact gone

/-- What a chunk call puts in while more may come. -/
theorem serves_chunk (h : Serves content id base more r) (c : Bytes) (last : Bool) :
    Serves content id base (more && !last) (r.sendStreamChunk id c last) ∧
      total content (r.sendStreamChunk id c last) =
        total content r ++ if more then Reactor.chunkFrame c last else [] := by
  have run : ¬ ¬ r.running = true := not_not.mpr h.running
  cases more with
  | false =>
      have same : r.sendStreamChunk id c last = r := by
        rw [Reactor.sendStreamChunk, if_neg run, gone_of_finished h]
        split <;> rfl
      rw [same]
      exact ⟨h, (List.append_nil _).symm⟩
  | true =>
      obtain ⟨new, written, stage⟩ := h.stage
      cases stage with
      | @answering loc found mine idle queue none_ =>
          by_cases nothing : c = [] ∧ ¬ last
          · -- an empty chunk that ends nothing
            have notLast : last = false := by simpa using nothing.2
            have frame : Reactor.chunkFrame c last = [] := by
              simp [Reactor.chunkFrame, nothing.1, notLast]
            have same : r.sendStreamChunk id c last = r := by
              rw [Reactor.sendStreamChunk, if_neg run, if_pos nothing]
            rw [same, frame, notLast]
            exact ⟨h, (List.append_nil _).symm⟩
          · cases last with
            | false =>
                let e : Pending := ⟨loc.connId, ⟨.request id, .chunk,
                  Reactor.chunkFrame c false⟩, loc.keepAlive, false, none⟩
                have push : r.sendStreamChunk id c false = r.pushWrite e := by
                  rw [Reactor.sendStreamChunk, if_neg run, if_neg nothing, found]
                  rfl
                have owes_ : owes content e = Reactor.chunkFrame c false := List.append_nil _
                obtain ⟨served, moved⟩ := serves_push (e := e) h found rfl rfl
                rw [push]
                exact ⟨served, moved.trans (by rw [owes_]; rfl)⟩
            | true =>
                let e : Pending := ⟨loc.connId, ⟨.request id, .last,
                  Reactor.chunkFrame c true⟩, loc.keepAlive, true, none⟩
                have push : r.sendStreamChunk id c true = (r.eraseReq id).pushWrite e := by
                  rw [Reactor.sendStreamChunk, if_neg run, if_neg nothing, found]
                  rfl
                have owes_ : owes content e = Reactor.chunkFrame c true := List.append_nil _
                have ends : Ends content e := ⟨rfl, fun f file => (by cases file)⟩
                obtain ⟨served, moved⟩ := serves_pushLast (e := e) h found rfl ends
                rw [push]
                exact ⟨served, moved.trans (by rw [owes_]; rfl)⟩

/-! ### Runs -/

/-- The steps of a run that concern the answer of one request; a read returns what the file
has there, and no write that ends an answer lands. -/
def steady (content : Bytes) (id : Nat) (r : Reactor) : Act → Bool
  | .sendStreamChunk i _ _ => i == id
  | .written ok got =>
      ok && r.conn.writes.head?.all (fun w => !w.finish) &&
        r.conn.file.all fun f => got == content.drop f.offset
  | .async | .tick _ | .newId | .beginDrain | .attach _ | .otherRequest _ | .otherRetire _
  | .otherPush _ => true
  | _ => false

/-- What a step puts in, and whether it ends the answer. -/
def sends : Act → Bytes
  | .sendStreamChunk _ c last => Reactor.chunkFrame c last
  | _ => []

def ends : Act → Bool
  | .sendStreamChunk _ _ last => last
  | _ => false

theorem findReq_append (entry : Nat × ReqLoc) (other : entry.1 ≠ id) :
    ({ r with nextId := r.nextId + 1, reqLoc := r.reqLoc ++ [entry] } : Reactor).findReq id =
      r.findReq id := by
  simp only [Reactor.findReq, List.find?_append]
  have miss : [entry].find? (fun e => e.1 == id) = none := by simp [other]
  rw [miss, Option.or_none]

theorem findReq_eraseOther {other : Nat} (ne : other ≠ id) :
    (r.eraseReq other).findReq id = r.findReq id := by
  simp only [Reactor.findReq, Reactor.eraseReq, List.find?_filter]
  congr 2
  funext e
  by_cases here : e.1 = id
  · simp [here, ne.symm]
  · simp [here]

/-- A connection that closes stays so. -/
theorem closing_step {a : Act} (quiet : steady content id r a = true)
    (step : Engine.step env r a = some r') (shut : r.conn.closing = true) :
    r'.conn.closing = true := by
  cases a with
  | sendStreamChunk i c last =>
      obtain rfl := Option.some.inj step
      have same : (r.sendStreamChunk i c last).conn = r.conn := by
        unfold Reactor.sendStreamChunk
        split
        · rfl
        · split
          · rfl
          · split
            · rfl
            · split <;> rfl
      rw [same]
      exact shut
  | written ok got =>
      simp only [Engine.step] at step
      split at step
      · cases step
      · rename_i w rest writes
        split at step
        · cases step
        · obtain rfl := Option.some.inj step
          simp only [steady, writes, List.head?_cons, Option.all_some, Bool.and_eq_true,
            Bool.not_eq_true'] at quiet
          rw [quiet.1.1, onWrite_noEnd quiet.1.2]
          split
          · rename_i next
            obtain ⟨f, file⟩ := Option.isSome_iff_exists.mp next.1
            have shut' : (r.writeDone w rest).conn.closing = true := shut
            rw [Reactor.continueFileSend, file]
            simp only [shut', if_true]
          · exact shut
  | async =>
      obtain rfl := Option.some.inj step
      have same : r.onAsync env = r.withQueue [] := writeGroups_closing _ shut
      rw [same]
      exact shut
  | tick | newId | beginDrain | attach =>
      obtain rfl := Option.some.inj step
      exact shut
  | otherRequest | otherPush =>
      simp only [Engine.step] at step
      split at step
      · cases step
      · obtain rfl := Option.some.inj step
        exact shut
  | otherRetire =>
      simp only [Engine.step] at step
      split at step
      · split at step
        · cases step
        · obtain rfl := Option.some.inj step
          exact shut
      · cases step
  | _ => cases quiet

/-- One step. -/
theorem serves_step {a : Act} (h : Serves content id base more r)
    (quiet : steady content id r a = true) (step : Engine.step env r a = some r')
    (open_ : r'.conn.closing = false) :
    Serves content id base (more && !ends a) r' ∧
      total content r' = total content r ++ if more then sends a else [] := by
  have before : r.conn.closing = false := by
    cases shut : r.conn.closing with
    | false => rfl
    | true => exact absurd ((closing_step quiet step shut).symm.trans open_) (by decide)
  have aside (alike : Alike id r r') (noSend : sends a = []) (noEnd : ends a = false) :
      Serves content id base (more && !ends a) r' ∧
        total content r' = total content r ++ if more then sends a else [] := by
    have same : total content r' = total content r := alike.total
    rw [noEnd, noSend, ite_self, List.append_nil, Bool.not_false, Bool.and_true]
    exact ⟨alike.serves h, same⟩
  cases a with
  | sendStreamChunk i c last =>
      obtain rfl := Option.some.inj step
      obtain rfl : i = id := by simpa [steady] using quiet
      exact serves_chunk h c last
  | written ok got =>
      simp only [Engine.step] at step
      split at step
      · cases step
      · rename_i w rest writes
        split at step
        · cases step
        · obtain rfl := Option.some.inj step
          simp only [steady, writes, List.head?_cons, Option.all_some, Bool.and_eq_true,
            Bool.not_eq_true'] at quiet
          obtain ⟨⟨rfl, noEnd⟩, read⟩ := quiet
          have reads : ∀ f, r.conn.file = some f → got <+: content.drop f.offset ∧ got ≠ [] := by
            intro f file
            have whole : got = content.drop f.offset := by simpa [file] using read
            refine ⟨whole ▸ List.prefix_refl _, fun nil => ?_⟩
            have range := h.inRange file
            have len := congrArg List.length (whole.symm.trans nil)
            rw [List.length_drop, List.length_nil] at len
            have pos := range.1
            have fits := range.2
            omega
          obtain ⟨served, same⟩ := serves_onWrite h noEnd reads open_ before
          rw [same]
          simp only [sends, ends, ite_self, List.append_nil, Bool.not_false, Bool.and_true]
          exact ⟨served, trivial⟩
  | async =>
      obtain rfl := Option.some.inj step
      obtain ⟨served, same⟩ := serves_onAsync h open_
      rw [same]
      simp only [sends, ends, ite_self, List.append_nil, Bool.not_false, Bool.and_true]
      exact ⟨served, trivial⟩
  | tick ms =>
      obtain rfl := Option.some.inj step
      exact aside ⟨rfl, rfl, rfl, le_rfl, rfl, rfl, rfl, rfl, rfl⟩ rfl rfl
  | beginDrain =>
      obtain rfl := Option.some.inj step
      exact aside ⟨rfl, rfl, rfl, le_rfl, rfl, rfl, rfl, rfl, rfl⟩ rfl rfl
  | attach emitter =>
      obtain rfl := Option.some.inj step
      exact aside ⟨rfl, rfl, rfl, le_rfl, rfl, rfl, rfl, rfl, rfl⟩ rfl rfl
  | newId =>
      obtain rfl := Option.some.inj step
      exact aside ⟨rfl, rfl, rfl, Nat.le_succ _, rfl, rfl, rfl, rfl, rfl⟩ rfl rfl
  | otherRequest loc =>
      simp only [Engine.step] at step
      split at step
      · cases step
      · obtain rfl := Option.some.inj step
        have found := findReq_append (r := r) (r.nextId, loc) (Nat.ne_of_gt h.used)
        exact aside ⟨rfl, rfl, rfl, Nat.le_succ _, rfl, found, rfl, rfl, rfl⟩ rfl rfl
  | otherPush entry =>
      simp only [Engine.step] at step
      split at step
      · cases step
      · rename_i other
        obtain rfl := Option.some.inj step
        exact aside ⟨rfl, rfl, rfl, le_rfl, wrote_pushWrite r entry, rfl, rfl, rfl,
          ownQueue_push_other other⟩ rfl rfl
  | otherRetire i =>
      simp only [Engine.step] at step
      split at step
      · rename_i loc found
        split at step
        · cases step
        · rename_i other
          obtain rfl := Option.some.inj step
          have same : (r.eraseReq i).findReq id = r.findReq id := by
            by_cases here : i = id
            · -- an own request is not another connection's to retire
              subst here
              rw [findReq_eraseReq]
              obtain ⟨new, written, stage⟩ := h.stage
              cases stage with
              | answering found' mine =>
                  rw [found] at found'
                  exact absurd (Option.some.inj found' ▸ mine) other
              | queued gone => exact gone.symm
              | sending gone => exact gone.symm
              | done gone => exact gone.symm
            · exact findReq_eraseOther here
          exact aside ⟨rfl, rfl, rfl, le_rfl, wrote_eraseReq r i, same, rfl, rfl, rfl⟩ rfl rfl
      · cases step
  | _ => cases quiet

/-- What the steps of a run put in, up to the one that ends the answer. -/
def sentBy : List Act → Bytes
  | [] => []
  | a :: acts => sends a ++ if ends a then [] else sentBy acts

/-- A whole run: what was owed and what the calls put in is written or owed at its end. -/
theorem serves_run {acts : List Act} {t : Reactor} (h : Serves content id base more r)
    (run : exec (guarded (fun r a => steady content id r a = true) (Engine.step env)) acts r =
      some t) (open_ : t.conn.closing = false) :
    Serves content id base (more && acts.all (fun a => !ends a)) t ∧
      total content t = total content r ++ if more then sentBy acts else [] := by
  induction acts generalizing r more with
  | nil =>
      obtain rfl := Option.some.inj run
      rw [List.all_nil, Bool.and_true, sentBy, ite_self, List.append_nil]
      exact ⟨h, rfl⟩
  | cons a acts ih =>
      obtain ⟨s, first, rest⟩ := Option.bind_eq_some_iff.mp run
      simp only [guarded, Option.ite_none_right_eq_some] at first
      have stays : ∀ {acts : List Act} {s : Reactor}, s.conn.closing = true →
          exec (guarded (fun r a => steady content id r a = true) (Engine.step env)) acts s =
            some t → t.conn.closing = true := by
        intro acts
        induction acts with
        | nil =>
            intro s shut run
            obtain rfl := Option.some.inj run
            exact shut
        | cons b acts ih =>
            intro s shut run
            obtain ⟨s', next, rest⟩ := Option.bind_eq_some_iff.mp run
            simp only [guarded, Option.ite_none_right_eq_some] at next
            exact ih (closing_step next.1 next.2 shut) rest
      have openThere : s.conn.closing = false := by
        cases shut : s.conn.closing with
        | false => rfl
        | true => exact absurd ((stays shut rest).symm.trans open_) (by decide)
      obtain ⟨served, moved⟩ := serves_step h first.1 first.2 openThere
      obtain ⟨all, total_⟩ := ih served rest
      rw [List.all_cons, ← Bool.and_assoc]
      refine ⟨all, ?_⟩
      rw [total_, moved, sentBy, List.append_assoc]
      congr 1
      cases more with
      | false => rfl
      | true => cases ends a <;> simp

end Steps

end NitroServer.Answer
