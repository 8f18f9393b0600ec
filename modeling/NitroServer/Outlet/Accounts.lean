/-
`writePending` over whole runs of a connection.

`Issued r r' new` is what a change made of issued writes does: `new` joins the outstanding
writes, its sizes join the count, and a count that leaves zero is stamped with the clock.
`turn_lands` and `turn_effect` say what each turn does to the outstanding writes; every
invariant below is read off them.

* `writePending_exact` — while no handshake flight or alert is written, `writePending` is
  the sum of the outstanding sizes. `tlsRawWrite` does not count what it writes, but
  `onWrite` takes it off again.
-/

import NitroServer.Lane.Refine
import NitroServer.Outlet.Writes

namespace NitroServer.Engine

open NitroServer.Lib

/-! ### What issuing writes does -/

/-- The sizes of these writes together. -/
def totalSize (writes : List WriteCtx) : Nat := (writes.map WriteCtx.size).sum

@[simp] theorem totalSize_nil : totalSize [] = 0 := rfl

@[simp] theorem totalSize_cons (w : WriteCtx) (ws : List WriteCtx) :
    totalSize (w :: ws) = w.size + totalSize ws := by
  simp [totalSize]

@[simp] theorem totalSize_append (ws ws' : List WriteCtx) :
    totalSize (ws ++ ws') = totalSize ws + totalSize ws' := by
  simp [totalSize]

theorem totalSize_eq_zero {ws : List WriteCtx} (sized : ∀ w ∈ ws, 0 < w.size) :
    totalSize ws = 0 ↔ ws = [] := by
  cases ws with
  | nil => simp
  | cons w ws =>
      have := sized w List.mem_cons_self
      simp only [totalSize_cons, reduceCtorEq, iff_false]
      omega

/-- On a TLS connection, a plaintext that is not empty makes a record that is not empty. -/
def Reactor.Seals (env : Env) (r : Reactor) : Prop :=
  r.conn.tls = true → ∀ n bytes, bytes ≠ [] → env.sealed n bytes ≠ []

/-- `r'` is `r` with `new` issued. -/
structure Issued (r r' : Reactor) (new : List WriteCtx) : Prop where
  writes : r'.conn.writes = r.conn.writes ++ new
  pending : r'.conn.writePending = r.conn.writePending + totalSize new
  sized : ∀ w ∈ new, 0 < w.size
  started : r'.conn.writeStartedAt =
    if r.conn.writePending = 0 ∧ new ≠ [] then r.clock else r.conn.writeStartedAt
  tls : r'.conn.tls = r.conn.tls
  clock : r'.clock = r.clock

section Rule

variable {env : Env} {r r' r'' : Reactor}

theorem wireSize_pos (seals : r.Seals env) {bytes : Bytes} (some : bytes ≠ []) :
    0 < r.wireSize env bytes := by
  unfold Reactor.wireSize
  split
  · rename_i tls
    exact List.length_pos_of_ne_nil (seals tls _ _ some)
  · exact List.length_pos_of_ne_nil some

theorem Issued.trans {new new' : List WriteCtx} (h : Issued r r' new) (h' : Issued r' r'' new') :
    Issued r r'' (new ++ new') where
  writes := by rw [h'.writes, h.writes, List.append_assoc]
  pending := by rw [h'.pending, h.pending, totalSize_append, Nat.add_assoc]
  sized w mem := (List.mem_append.mp mem).elim (h.sized w) (h'.sized w)
  started := by
    have empty := totalSize_eq_zero h.sized
    rw [h'.started, h.started, h.pending, h.clock]
    cases new with
    | nil => simp
    | cons w ws =>
        -- The count is positive after the first part, which keeps the first stamp.
        have counted : ¬ r.conn.writePending + totalSize (w :: ws) = 0 := by
          have := mt empty.mp (List.cons_ne_nil w ws)
          omega
        rw [if_neg fun both => counted both.1]
        simp only [List.cons_append, ne_eq, reduceCtorEq, not_false_eq_true]
  tls := h'.tls.trans h.tls
  clock := h'.clock.trans h.clock

/-- What no write changes. -/
theorem Writes.frame (h : Writes env r r') :
    r'.conn.id = r.conn.id ∧ r'.queue = r.queue ∧ r'.draining = r.draining := by
  induction h with
  | aside same =>
      exact ⟨congrArg Outlet.id same, congrArg Outlet.queue same, congrArg Outlet.draining same⟩
  | issue => exact ⟨rfl, rfl, rfl⟩
  | trans _ _ first second =>
      exact ⟨second.1.trans first.1, second.2.1.trans first.2.1, second.2.2.trans first.2.2⟩

/-- What a change made of issued writes does. -/
theorem Writes.issued (seals : r.Seals env) (h : Writes env r r') : ∃ new, Issued r r' new := by
  induction h with
  | @aside r r' same =>
      simp only [Reactor.outlet, Outlet.mk.injEq] at same
      obtain ⟨-, tls, writes, pending, started, clock, -⟩ := same
      exact ⟨[], by rw [writes, List.append_nil], pending, by simp, by simpa using started, tls,
        clock⟩
  | @issue r ps ka fin bytes =>
      refine ⟨[⟨r.wireSize env (payloadBytes ps), ka, fin⟩], rfl, by simp [Reactor.issueWrite], ?_,
        by simp [Reactor.issueWrite], rfl, rfl⟩
      intro w mem
      obtain rfl := List.mem_singleton.mp mem
      exact wireSize_pos seals bytes
  | trans _ _ first second =>
      obtain ⟨new, h⟩ := first seals
      obtain ⟨new', h'⟩ := second (by rwa [Reactor.Seals, h.tls])
      exact ⟨new ++ new', h.trans h'⟩

end Rule

/-! ### What a turn does -/

/-- The turn is the completion of a write. -/
def Turn.lands : Turn → Bool
  | .act (.written ..) => true
  | .h2Written _ => true
  | _ => false

/-- The turn writes handshake bytes or an alert. -/
def Turn.flight : Turn → Bool
  | .act (.tlsFlight cipher) => cipher ≠ []
  | _ => false

/-- An inbox entry as the answer calls make it: it has bytes, and the head of an answer that
does not keep the connection says so. -/
structure Pending.Laden (e : Pending) : Prop where
  bytes : e.piece.bytes ≠ []
  closes : e.piece.part = .whole ∨ e.piece.part = .head → e.keepAlive = false →
    closeLine <:+: e.piece.bytes

/-- The connection's own entries in the inbox are so made. -/
def Reactor.Laden (r : Reactor) : Prop :=
  ∀ e ∈ r.queue, e.connId = r.conn.id → e.Laden

/-- What a turn that is no completion does to the outstanding writes. -/
inductive Effect (env : Env) (r : Reactor) (a : Turn) (r' : Reactor) : Prop where
  | works (h : Writes env r r')
  | empties (h : Writes env { r with queue := [] } r')
  | queues (es : List Pending) (laden : ∀ e ∈ es, e.connId = r.conn.id → e.Laden)
      (same : r'.outlet = { r.outlet with queue := r.queue ++ es })
  | passes (ms : Nat) (same : r'.outlet = { r.outlet with clock := r.clock + ms })
  | drains (same : r'.outlet = { r.outlet with draining := true })
  | flies (flight : a.flight = true) (tls : r.conn.tls = true) (ws : List WriteCtx)
      (same : r'.outlet = { r.outlet with writes := ws })

section Turns

variable {env : Env} {r r' : Reactor} {a : Turn}

theorem chunkFrame_ne_nil {chunk : Bytes} {last : Bool} (some : ¬ (chunk = [] ∧ ¬ last)) :
    Reactor.chunkFrame chunk last ≠ [] := by
  by_cases empty : chunk = []
  · have closing : last = true := by
      by_contra more
      exact some ⟨empty, more⟩
    simp [Reactor.chunkFrame, closing, ascii]
  · simp [Reactor.chunkFrame, empty, crlf]

theorem uvBuildStreamHead_ne_nil (date : Bytes) (status : Nat) (headers : List Header) (ka : Bool)
    (secs : Option Nat) : uvBuildStreamHead date status headers ka secs ≠ [] := by
  simp [uvBuildStreamHead, statusLine, ascii]

/-- No change to the outstanding writes or to the inbox. -/
theorem Effect.same (same : r'.outlet = r.outlet) : Effect env r a r' :=
  .works (.aside same)

/-- One entry joins the inbox. -/
theorem Effect.push (e : Pending) (laden : e.Laden)
    (same : r'.outlet = { r.outlet with queue := r.queue ++ [e] }) : Effect env r a r' :=
  .queues [e] (by simp [laden]) same

theorem closeLine_uvBuildStreamHead (date : Bytes) (status : Nat) (headers : List Header)
    (secs : Option Nat) : closeLine <:+: uvBuildStreamHead date status headers false secs :=
  List.IsSuffix.isInfix ⟨_, rfl⟩

theorem effect_respondWith (id status : Nat) (headers : List Header) (body : Bytes)
    (bodyLen : Nat) : Effect env r a (r.respondWith env id status headers body bodyLen) := by
  unfold Reactor.respondWith
  split
  · exact .same rfl
  · split
    · exact .same rfl
    · refine .push _ ⟨?_, fun _ closes => ?_⟩ rfl
      · simp [Reactor.uvBuildHead_ne_nil]
      · dsimp only at closes ⊢
        rw [closes]
        exact (closeLine_uvBuildHead ..).trans (List.infix_append_left ..)

theorem effect_respondFile (id status : Nat) (headers : List Header) (size : Option Nat)
    (offset length : Int) :
    Effect env r a (r.respondFile env id status headers size offset length) := by
  unfold Reactor.respondFile
  split
  · exact .same rfl
  · split
    · exact effect_respondWith ..
    · dsimp only
      split
      · exact effect_respondWith ..
      · split
        · exact .same rfl
        · split
          · exact effect_respondWith ..
          · refine .push _ ⟨?_, fun _ closes => ?_⟩ rfl
            · exact Reactor.uvBuildHead_ne_nil _ _ _ _ _ _
            · dsimp only at closes ⊢
              rw [closes]
              exact closeLine_uvBuildHead ..

theorem effect_startStream (id status : Nat) (headers : List Header) :
    Effect env r a (r.startStream env id status headers) := by
  unfold Reactor.startStream
  split
  · exact .same rfl
  · split
    · exact .same rfl
    · dsimp only
      split
      all_goals
        refine .push _ ⟨?_, fun _ closes => ?_⟩ rfl
        · exact uvBuildStreamHead_ne_nil _ _ _ _ _
        · dsimp only at closes ⊢
          rw [closes]
          exact closeLine_uvBuildStreamHead ..

theorem effect_sendStreamChunk (id : Nat) (chunk : Bytes) (last : Bool) :
    Effect env r a (r.sendStreamChunk id chunk last) := by
  unfold Reactor.sendStreamChunk
  split
  · exact .same rfl
  · split
    · exact .same rfl
    · rename_i some
      split
      · exact .same rfl
      · dsimp only
        split
        all_goals
          refine .push _ ⟨chunkFrame_ne_nil some, fun head => ?_⟩ rfl
          rcases head with head | head <;> cases head

theorem effect_wsSend (payload : Bytes) (binary compressed : Bool) :
    Effect env r a (r.wsSend payload binary compressed) := by
  unfold Reactor.wsSend
  split
  · exact .same rfl
  · refine .push _ ⟨?_, fun head => by rcases head with head | head <;> cases head⟩ rfl
    have frame := Reactor.encodeFrame_ne_nil (if binary then Ws.kBinary else Ws.kText) payload true
    dsimp only
    split
    · split
      · exact List.cons_ne_nil _ _
      · rename_i empty
        exact absurd empty frame
    · exact frame

theorem effect_wsClose (code : Nat) : Effect env r a (r.wsClose code) := by
  unfold Reactor.wsClose
  split
  · exact .same rfl
  · refine .push _ ⟨?_, fun head => by rcases head with head | head <;> cases head⟩ rfl
    dsimp only
    exact Reactor.encodeFrame_ne_nil _ _ _

/-- Every group of the inbox starts with one of its entries. -/
theorem mem_of_groups {queue : List Pending} {g : Pending × List Pending}
    (mem : g ∈ Reactor.groups queue) : g.1 ∈ queue := by
  rw [← groups_flatten queue]
  exact List.mem_flatMap.mpr ⟨g, mem, List.mem_cons_self⟩

theorem writes_writeGroups (gs : List (Pending × List Pending))
    (bytes : ∀ g ∈ gs, g.1.connId = r.conn.id → g.1.piece.bytes ≠ []) :
    Writes env r (gs.foldl (Reactor.writeGroup env) r) := by
  induction gs generalizing r with
  | nil => exact .refl env r
  | cons g gs ih =>
      have first : Writes env r (r.writeGroup env g) :=
        Reactor.writes_writeGroup g (bytes g List.mem_cons_self)
      have sameId : (r.writeGroup env g).conn.id = r.conn.id := first.frame.1
      refine first.trans (ih fun g' mem => ?_)
      rw [sameId]
      exact bytes g' (List.mem_cons_of_mem _ mem)

theorem effect_step {a : Act} (laden : r.Laden) (no : Turn.lands (.act a) = false)
    (h : step env r a = some r') : Effect env r (.act a) r' := by
  cases a with
  | read data =>
      simp only [step, Option.ite_none_right_eq_some, Option.some.injEq] at h
      obtain ⟨-, rfl⟩ := h
      exact .works (Reactor.writes_readCb data)
  | readEnd =>
      simp only [step, Option.ite_none_right_eq_some, Option.some.injEq] at h
      obtain ⟨-, rfl⟩ := h
      exact .works Reactor.writes_readEnd
  | written ok got => cases no
  | async =>
      cases h
      exact .empties (writes_writeGroups _ fun g mem own =>
        (laden g.1 (mem_of_groups mem) own).bytes)
  | sweep =>
      simp only [step, Option.ite_none_left_eq_some, Option.some.injEq] at h
      obtain ⟨-, rfl⟩ := h
      exact .works Reactor.writes_onSweep
  | closed =>
      simp only [step, Option.ite_none_right_eq_some, Option.some.injEq] at h
      obtain ⟨-, rfl⟩ := h
      refine .same ?_
      unfold Reactor.onCloseConn
      dsimp only
      split <;> rfl
  | respond id status headers body =>
      cases h
      exact effect_respondWith ..
  | respondFile id status headers size offset length =>
      cases h
      exact effect_respondFile ..
  | startStream id status headers =>
      cases h
      exact effect_startStream ..
  | sendStreamChunk id chunk last =>
      cases h
      exact effect_sendStreamChunk ..
  | wsSend payload binary compressed =>
      cases h
      exact effect_wsSend ..
  | wsClose code =>
      cases h
      exact effect_wsClose ..
  | tick ms =>
      cases h
      exact .passes ms rfl
  | beginDrain =>
      cases h
      exact .drains rfl
  | attach emitter =>
      cases h
      exact .same rfl
  | tlsFlight cipher =>
      simp only [step, Option.ite_none_right_eq_some, Option.some.injEq] at h
      obtain ⟨⟨-, tls⟩, rfl⟩ := h
      by_cases empty : cipher = []
      · refine .same ?_
        rw [Reactor.tlsRawWrite, if_pos empty]
      · refine .flies (by simpa [Turn.flight] using empty) tls (r.tlsRawWrite cipher).conn.writes ?_
        rw [Reactor.tlsRawWrite, if_neg empty]
        rfl
  | otherRequest loc =>
      simp only [step, Option.ite_none_left_eq_some, Option.some.injEq] at h
      obtain ⟨-, rfl⟩ := h
      exact .same rfl
  | otherRetire id =>
      simp only [step] at h
      split at h
      · simp only [Option.ite_none_left_eq_some, Option.some.injEq] at h
        obtain ⟨-, rfl⟩ := h
        exact .same rfl
      · cases h
  | otherPush entry =>
      simp only [step, Option.ite_none_left_eq_some, Option.some.injEq] at h
      obtain ⟨other, rfl⟩ := h
      refine .queues [entry] (fun e mem own => ?_) rfl
      obtain rfl := List.mem_singleton.mp mem
      exact absurd own other
  | newId =>
      cases h
      exact .same rfl

/-- What a turn that is no completion does. -/
theorem turn_effect (laden : r.Laden) (no : a.lands = false) (h : turn env r a = some r') :
    Effect env r a r' := by
  cases a with
  | act a => exact effect_step laden no h
  | alpn =>
      simp only [turn, Option.ite_none_right_eq_some, Option.some.injEq] at h
      obtain ⟨-, rfl⟩ := h
      exact .same rfl
  | h2Write bytes =>
      simp only [turn, Option.ite_none_right_eq_some, Option.some.injEq] at h
      obtain ⟨-, rfl⟩ := h
      exact .works (Reactor.writes_writeRaw _)
  | h2Written ok => cases no
  | h2Sweep bytes finished =>
      simp only [turn, Option.ite_none_right_eq_some, Option.some.injEq] at h
      obtain ⟨-, rfl⟩ := h
      exact .works (Reactor.writes_h2Sweep ..)

/-- What a completion does: the oldest write is taken off, then writes are issued. -/
theorem turn_lands (yes : a.lands = true) (h : turn env r a = some r') :
    ∃ w rest, r.conn.writes = w :: rest ∧ Writes env (r.writeDone w rest) r' := by
  cases a with
  | act a =>
      cases a with
      | written ok got =>
          simp only [turn, step] at h
          split at h
          · cases h
          · rename_i w rest out
            simp only [Option.ite_none_left_eq_some, Option.some.injEq] at h
            obtain ⟨-, rfl⟩ := h
            exact ⟨w, rest, out, Reactor.writes_onWrite ..⟩
      | _ => cases yes
  | h2Written ok =>
      simp only [turn] at h
      split at h
      · cases h
      · rename_i w rest out
        simp only [Option.ite_none_right_eq_some, Option.some.injEq] at h
        obtain ⟨-, rfl⟩ := h
        exact ⟨w, rest, out, Reactor.writes_onWrite ..⟩
  | _ => cases yes

/-- What every turn keeps: the id of the connection, and a drain once begun. -/
structure Lasts (r r' : Reactor) : Prop where
  id : r'.conn.id = r.conn.id
  draining : r.draining = true → r'.draining = true
  laden : r.Laden → r'.Laden

theorem Writes.lasts (h : Writes env r r') : Lasts r r' := by
  obtain ⟨id, queue, draining⟩ := h.frame
  refine ⟨id, draining.trans, fun laden e mem own => ?_⟩
  rw [queue] at mem
  exact laden e mem (own.trans id)

theorem Effect.lasts (h : Effect env r a r') : Lasts r r' := by
  cases h with
  | works h => exact h.lasts
  | empties h =>
      have kept := h.lasts
      exact ⟨kept.id, kept.draining, fun _ => kept.laden fun e mem => (List.not_mem_nil mem).elim⟩
  | queues es laden same =>
      simp only [Reactor.outlet, Outlet.mk.injEq] at same
      obtain ⟨id, -, -, -, -, -, queue, draining⟩ := same
      refine ⟨id, draining.trans, fun before e mem own => ?_⟩
      rw [queue] at mem
      exact (List.mem_append.mp mem).elim (fun mem => before e mem (own.trans id))
        fun mem => laden e mem (own.trans id)
  | passes _ same | drains same | flies _ _ _ same =>
      simp only [Reactor.outlet, Outlet.mk.injEq] at same
      obtain ⟨id, -, -, -, -, -, queue, draining⟩ := same
      refine ⟨id, fun on => draining.trans (by first | rfl | exact on), fun before e mem own => ?_⟩
      rw [queue] at mem
      exact before e mem (own.trans id)

theorem turn_lasts (laden : r.Laden) (h : turn env r a = some r') : Lasts r r' := by
  cases hl : a.lands with
  | true =>
      obtain ⟨w, rest, -, hw⟩ := turn_lands hl h
      have kept := hw.lasts
      exact ⟨kept.id, kept.draining, kept.laden⟩
  | false => exact (turn_effect laden hl h).lasts

end Turns

/-! ### The count -/

/-- The count is the sum of what is outstanding, and nothing outstanding is empty. -/
structure Accounted (env : Env) (r : Reactor) : Prop where
  seals : r.Seals env
  laden : r.Laden
  pending : r.conn.writePending = totalSize r.conn.writes
  sized : ∀ w ∈ r.conn.writes, 0 < w.size

namespace Accounted

variable {env : Env} {r r' : Reactor} {a : Turn}

theorem zero_iff (h : Accounted env r) : r.conn.writePending = 0 ↔ r.conn.writes = [] := by
  rw [h.pending]
  exact totalSize_eq_zero h.sized

theorem issued {new : List WriteCtx} (h : Accounted env r) (laden : r'.Laden)
    (hi : Issued r r' new) : Accounted env r' where
  seals := by
    rw [Reactor.Seals, hi.tls]
    exact h.seals
  laden := laden
  pending := by rw [hi.pending, hi.writes, totalSize_append, h.pending]
  sized w mem := by
    rw [hi.writes] at mem
    exact (List.mem_append.mp mem).elim (h.sized w) (hi.sized w)

theorem writes (h : Accounted env r) (hw : Writes env r r') : Accounted env r' := by
  obtain ⟨new, hi⟩ := hw.issued h.seals
  exact h.issued (hw.lasts.laden h.laden) hi

/-- The oldest write is taken off. -/
theorem writeDone {w : WriteCtx} {rest : List WriteCtx} (h : Accounted env r)
    (out : r.conn.writes = w :: rest) : Accounted env (r.writeDone w rest) where
  seals := h.seals
  laden := h.laden
  pending := by
    have := h.pending
    rw [out, totalSize_cons] at this
    show r.conn.writePending - w.size = totalSize rest
    omega
  sized w' mem := h.sized w' (by rw [out]; exact List.mem_cons_of_mem _ mem)

/-- The outstanding writes are the same. -/
theorem same (h : Accounted env r) (laden : r'.Laden) (tls : r'.conn.tls = r.conn.tls)
    (writes : r'.conn.writes = r.conn.writes)
    (pending : r'.conn.writePending = r.conn.writePending) : Accounted env r' :=
  ⟨by rw [Reactor.Seals, tls]; exact h.seals, laden, by rw [pending, writes, h.pending],
    by rw [writes]; exact h.sized⟩

theorem effect (h : Accounted env r) (he : Effect env r a r') (calm : a.flight = false) :
    Accounted env r' := by
  have laden := he.lasts.laden h.laden
  cases he with
  | works hw => exact h.writes hw
  | empties hw =>
      have emptied : Accounted env { r with queue := [] } :=
        ⟨h.seals, fun e mem => (List.not_mem_nil mem).elim, h.pending, h.sized⟩
      exact emptied.writes hw
  | queues _ _ same | passes _ same | drains same =>
      simp only [Reactor.outlet, Outlet.mk.injEq] at same
      exact h.same laden same.2.1 same.2.2.1 same.2.2.2.1
  | flies flight => exact absurd (calm.symm.trans flight) Bool.false_ne_true

/-- One turn keeps the count, handshake flights and alerts aside. -/
theorem turn (h : Accounted env r) (calm : a.flight = false)
    (ht : Engine.turn env r a = some r') : Accounted env r' := by
  cases hl : a.lands with
  | true =>
      obtain ⟨w, rest, out, hw⟩ := turn_lands hl ht
      exact (h.writeDone out).writes hw
  | false => exact h.effect (turn_effect h.laden hl ht) calm

theorem fresh (fresh : Fresh r) (seals : r.Seals env) : Accounted env r where
  seals := seals
  laden e mem own := absurd own (fresh.queue e mem)
  pending := by rw [fresh.conn]; rfl
  sized w mem := by
    rw [fresh.conn] at mem
    cases mem

end Accounted

/-- In a run that writes no handshake flight and no alert, `writePending` is the sum of the
sizes of the outstanding writes, and zero exactly when there is none. -/
theorem writePending_exact (env : Env) (r₀ r : Reactor) (fresh : Fresh r₀)
    (seals : r₀.conn.tls = true → ∀ n bytes, bytes ≠ [] → env.sealed n bytes ≠ [])
    (run : Reaches (stepOf (turn env)) (fun _ a => a.flight = false) r₀ r) :
    r.conn.writePending = (r.conn.writes.map WriteCtx.size).sum ∧
      (r.conn.writePending = 0 ↔ r.conn.writes = []) := by
  have accounted : Accounted env r :=
    run.invariant (.fresh fresh seals) fun _ _ _ h calm ht => h.turn calm ht
  exact ⟨accounted.pending, accounted.zero_iff⟩

/-- A TLS 1.3 record: header, ciphertext as long as the plaintext, content type and tag. -/
def tlsRecord (_ : Nat) (bytes : Bytes) : Bytes :=
  [23, 3, 3] ++ Ws.beBytes (bytes.length + 17) 2 ++ bytes ++ List.replicate 17 0

/-- The small server behind TLS. -/
def tlsEnv : Env := { sampleEnv with «sealed» := tlsRecord }

/-- A TLS connection, with an isolate attached. -/
def tlsConn : Reactor := { conn := .accepted 0 true 0, emitter := some 0 }

theorem tlsConn_fresh : Fresh tlsConn where
  conn := rfl
  reqLoc := by simp [tlsConn]
  distinct := List.nodup_nil
  queue := by simp [tlsConn]
  id := Nat.one_pos
  sessions := by simp [tlsConn]
  live := rfl
  trace := rfl

theorem tlsRecord_ne_nil (n : Nat) (bytes : Bytes) : tlsRecord n bytes ≠ [] := by
  simp [tlsRecord]

/-- `GET /` on a connection, and its answer, not landed yet. -/
def oneAnswer : List Turn :=
  [.act (.read (ascii "GET / HTTP/1.1\r\nHost: a\r\n\r\n")), .act (.respond 1 200 [] (ascii "A")),
    .act .async]

theorem writePending_exact_answer :
    ∃ r, Reaches (stepOf (turn tlsEnv)) (fun _ a => a.flight = false) tlsConn r ∧
      r.conn.writePending = 108 ∧ (r.conn.writes.map WriteCtx.size).sum = 108 ∧
      (r.conn.writePending = 0 ↔ r.conn.writes = []) := by
  obtain ⟨r, run, count⟩ := exec_any (f := guarded (fun _ a => a.flight = false) (turn tlsEnv))
    (s := tlsConn) (p := fun r => r.conn.writePending = 108)
    (show (exec _ oneAnswer _).any _ = true by
      rw [oneAnswer]
      repeat rw [ascii_ofList]
      decide +kernel)
  obtain ⟨total, zero⟩ := writePending_exact tlsEnv tlsConn r tlsConn_fresh
    (fun _ n bytes _ => tlsRecord_ne_nil n bytes) (exec_guarded run)
  exact ⟨r, exec_guarded run, count, total.symm.trans count, zero⟩

/-- A handshake flight of six bytes is outstanding when the answer is written; once it lands,
its six bytes are missing from the count of the answer. -/
theorem writePending_short :
    ¬ ∀ env r₀ r, Fresh r₀ →
      (r₀.conn.tls = true → ∀ n bytes, bytes ≠ [] → env.sealed n bytes ≠ []) →
      Reaches (stepOf (turn env)) anyStep r₀ r →
      r.conn.writePending = (r.conn.writes.map WriteCtx.size).sum ∧
        (r.conn.writePending = 0 ↔ r.conn.writes = []) := by
  intro claim
  obtain ⟨r, run, short⟩ := exec_any (f := turn tlsEnv) (s := tlsConn)
    (p := fun r => r.conn.writePending = 102 ∧ (r.conn.writes.map WriteCtx.size).sum = 108)
    (show (exec _ (.act (.tlsFlight [22, 3, 3, 0, 1, 4]) :: oneAnswer ++ [.act (.written true [])])
      _).any _ = true by decide +kernel)
  have counted := (claim tlsEnv tlsConn r tlsConn_fresh (fun _ n bytes _ => tlsRecord_ne_nil n bytes)
    (exec_reaches run)).1
  rw [short.1, short.2] at counted
  exact absurd counted (by decide)

end NitroServer.Engine
