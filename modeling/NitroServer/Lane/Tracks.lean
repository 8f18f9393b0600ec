/-
How the engine's functions move a lane: the vocabulary.

`Tracks good r r'` says that the change from `r` to `r'` is a run of lane moves that
`good` admits, and leaves the other connections' requests alone; `Quiet r r'` that
the lane does not change at all. Each function of the engine has one lemma of this
shape: here for the writes, the request table and the uploads, in
`NitroServer.Lane.Http` for the request parser, in `NitroServer.Lane.Refine` for the
loop callbacks and the answer calls.

`good` is left open. Four kinds of move are risky (`Move.risky`): the busy-buffer
guard, the body-cap abort, the timer's retirement of a request and an entry put into
the inbox. The lemmas take all other moves as admitted (`Admits`), and ask for these
four where they happen. An answer that may keep the connection (`Move.keeps`) is asked
for as well (`kept`); it is only started while the server is not draining.
-/

import NitroServer.Lane.Credit
import NitroServer.Engine.Loop

namespace NitroServer.Engine

open NitroServer.Lib

variable (env : Env) {good : Lane → Move → Prop}

/-! ### Tracking -/

/-- Admitted moves on the lane; of the others' requests none is new. -/
structure Tracks (good : Lane → Move → Prop) (r r' : Reactor) : Prop where
  lane : Reaches Lane.Step good r.lane r'.lane
  others : ∀ e ∈ r'.otherReqs, e.1 ∈ r.otherReqs.map Prod.fst
  id : r'.conn.id = r.conn.id
  session : (r.conn.id ∈ r.wsConnLoop → r.conn.ws = true) →
    (r'.conn.id ∈ r'.wsConnLoop → r'.conn.ws = true)

namespace Tracks

theorem refl (r : Reactor) : Tracks good r r :=
  ⟨.refl, fun _ he => List.mem_map_of_mem he, rfl, fun h => h⟩

theorem trans {r r' r'' : Reactor} (h : Tracks good r r') (h' : Tracks good r' r'') :
    Tracks good r r'' :=
  ⟨h.lane.trans h'.lane,
    fun e he => by
      obtain ⟨e', he', heq⟩ := List.mem_map.mp (h'.others e he)
      exact heq ▸ h.others e' he',
    h'.id.trans h.id, fun hs => h'.session (h.session hs)⟩

end Tracks

/-- Same lane, same tables: nothing an answer could notice. -/
structure Quiet (r r' : Reactor) : Prop where
  lane : r'.lane = r.lane
  reqLoc : r'.reqLoc = r.reqLoc
  sessions : r'.wsConnLoop = r.wsConnLoop

theorem Quiet.id {r r' : Reactor} (h : Quiet r r') : r'.conn.id = r.conn.id :=
  congrArg Lane.id h.lane

theorem Quiet.ws {r r' : Reactor} (h : Quiet r r') : r'.conn.ws = r.conn.ws :=
  congrArg Lane.ws h.lane

theorem mem_others_of_eq {r r' : Reactor} (h : r'.otherReqs = r.otherReqs) :
    ∀ e ∈ r'.otherReqs, e.1 ∈ r.otherReqs.map Prod.fst :=
  fun _ he => List.mem_map_of_mem (h ▸ he)

theorem otherReqs_congr {r r' : Reactor} (reqLoc : r'.reqLoc = r.reqLoc)
    (id : r'.conn.id = r.conn.id) : r'.otherReqs = r.otherReqs := by
  simp only [Reactor.otherReqs, reqLoc, id]

theorem Quiet.tracks {r r' : Reactor} (h : Quiet r r') : Tracks good r r' where
  lane := h.lane ▸ .refl
  others := mem_others_of_eq (otherReqs_congr h.reqLoc h.id)
  id := h.id
  session := by
    rw [h.id, h.sessions, h.ws]
    exact fun hs => hs

theorem Quiet.trans {r r' r'' : Reactor} (h : Quiet r r') (h' : Quiet r' r'') : Quiet r r'' :=
  ⟨h'.lane.trans h.lane, h'.reqLoc.trans h.reqLoc, h'.sessions.trans h.sessions⟩

/-- Logging what leaves no mark is quiet. -/
theorem quiet_log {r : Reactor} {evs : List Ev} (h : evs.flatMap (Ev.marks r.conn.id) = []) :
    Quiet r (r.log evs) := by
  refine ⟨?_, rfl, rfl⟩
  simp [Reactor.lane, Reactor.log, h, Reactor.ownReqs, Reactor.ownQueue]

/-- One admitted move that leaves the others' requests and the sessions alone. -/
theorem Tracks.ofStep {r r' : Reactor} {m : Move} (hstep : r.lane.Step m r'.lane)
    (hgood : good r.lane m) (others : ∀ e ∈ r'.otherReqs, e.1 ∈ r.otherReqs.map Prod.fst)
    (sessions : r'.wsConnLoop = r.wsConnLoop) : Tracks good r r' where
  lane := .single hgood hstep
  others := others
  id := hstep.id
  session := by
    rw [show r'.conn.id = r.conn.id from hstep.id, sessions]
    exact fun hs mem => hstep.ws (hs mem)

/-- One admitted move that leaves both tables alone. -/
theorem Tracks.step {r r' : Reactor} {m : Move} (hstep : r.lane.Step m r'.lane)
    (hgood : good r.lane m) (reqLoc : r'.reqLoc = r.reqLoc)
    (sessions : r'.wsConnLoop = r.wsConnLoop) : Tracks good r r' :=
  .ofStep hstep hgood (mem_others_of_eq (otherReqs_congr reqLoc hstep.id)) sessions

/-! ### The request table -/

/-- Request ids are given out once: the other connections' requests are older than
the next id, and none of them is one this lane holds on to. Only a session is in the
table of sessions, and the lane is sound. -/
structure Reactor.WF (r : Reactor) : Prop where
  others : ∀ e ∈ r.otherReqs, e.1 < r.nextId ∧ e.1 ∉ r.lane.ids
  own : ∀ i ∈ r.lane.ids, i < r.nextId
  session : r.conn.id ∈ r.wsConnLoop → r.conn.ws = true
  sound : r.lane.Sound

/-- A run of lanes lets go of ids; new ones are new. -/
theorem ids_of_reaches {l l' : Lane} (run : Reaches Lane.Step good l l') :
    l.nextId ≤ l'.nextId ∧
      ∀ i ∈ l'.ids, i ∈ l.ids ∨ l.nextId ≤ i ∧ i < l'.nextId := by
  induction run with
  | refl => exact ⟨le_refl _, fun i hi => .inl hi⟩
  | snoc _ _ hstep ih =>
      obtain ⟨hle, hids⟩ := hstep.ids
      refine ⟨ih.1.trans hle, fun i hi => ?_⟩
      rcases hids i hi with hold | ⟨rfl, hnew⟩
      · rcases ih.2 i hold with h | ⟨h, h'⟩
        · exact .inl h
        · exact .inr ⟨h, h'.trans_le hle⟩
      · exact .inr ⟨ih.1, hnew⟩

theorem Reactor.WF.tracks {r r' : Reactor} (hwf : r.WF) (h : Tracks good r r') : r'.WF := by
  obtain ⟨hle, hids⟩ := ids_of_reaches h.lane
  have next : r.nextId ≤ r'.nextId := hle
  refine ⟨fun e he => ?_, fun i hi => ?_, h.session hwf.session, hwf.sound.reaches h.lane⟩
  · obtain ⟨e', he', heq⟩ := List.mem_map.mp (h.others e he)
    obtain ⟨hlt, hnot⟩ := heq ▸ hwf.others e' he'
    refine ⟨hlt.trans_le next, fun hi => ?_⟩
    rcases hids _ hi with hold | ⟨hnew, _⟩
    · exact hnot hold
    · exact absurd hlt (not_lt.mpr hnew)
  · rcases hids i hi with hold | ⟨_, hlt⟩
    · exact (hwf.own i hold).trans_le next
    · exact hlt

theorem lane_eraseReq (r : Reactor) (id : Nat) : (r.eraseReq id).lane = r.lane.erase id := by
  simp [Reactor.eraseReq, Reactor.lane, Lane.erase, Reactor.ownReqs, Reactor.ownQueue, Ev.marks,
    List.filter_filter, Bool.and_comm]

theorem lane_retireReq (r : Reactor) (id : Nat) : (r.retireReq id).lane = r.lane.erase id := by
  unfold Reactor.retireReq
  split
  · exact lane_eraseReq r id
  · rename_i h
    have absent : ∀ e ∈ r.reqLoc, (e.1 != id) = true := by
      rintro ⟨i, loc⟩ he
      have := h
      simp only [Reactor.findReq, Option.isSome_map, List.find?_isSome, not_exists] at this
      simpa using fun hi => this (i, loc) ⟨he, by simp [hi]⟩
    have kept : r.ownReqs.filter (fun e => e.1 != id) = r.ownReqs :=
      List.filter_eq_self.mpr fun e he => absent e (List.mem_filter.mp he).1
    simp [Lane.erase, Reactor.lane, kept]

theorem mem_others_eraseReq {r : Reactor} {id : Nat} :
    ∀ e ∈ (r.eraseReq id).otherReqs, e.1 ∈ r.otherReqs.map Prod.fst := by
  intro e he
  simp only [Reactor.eraseReq, Reactor.otherReqs, List.mem_filter] at he
  exact List.mem_map_of_mem (List.mem_filter.mpr ⟨he.1.1, he.2⟩)

theorem mem_others_retireReq {r : Reactor} {id : Nat} :
    ∀ e ∈ (r.retireReq id).otherReqs, e.1 ∈ r.otherReqs.map Prod.fst := by
  unfold Reactor.retireReq
  split
  · exact mem_others_eraseReq
  · exact mem_others_of_eq rfl

@[simp] theorem retireReq_conn (r : Reactor) (id : Nat) : (r.retireReq id).conn = r.conn := by
  unfold Reactor.retireReq
  split <;> rfl

@[simp] theorem retireReq_wsConnLoop (r : Reactor) (id : Nat) :
    (r.retireReq id).wsConnLoop = r.wsConnLoop := by
  unfold Reactor.retireReq
  split <;> rfl

/-- The table as a lane sees it. -/
theorem find_of_own {r : Reactor} {id : Nat} {loc : ReqLoc} (h : r.findReq id = some loc)
    (own : loc.connId = r.conn.id) : r.lane.find id = some loc := by
  obtain ⟨e, he, rfl⟩ := Option.map_eq_some_iff.mp h
  have hown : (e.2.connId == r.conn.id) = true := by simpa using own
  have found : r.ownReqs.find? (fun e => e.1 == id) = some e := by
    rw [Reactor.ownReqs, List.find?_filter]
    obtain ⟨hid, as, bs, heq, hbefore⟩ := List.find?_eq_some_iff_append.mp he
    refine List.find?_eq_some_iff_append.mpr ⟨by simp [hid, hown], as, bs, heq, fun a ha => ?_⟩
    have before : a.1 ≠ id := by simpa using hbefore a ha
    simp [before]
  simp [Lane.find, Reactor.lane, found]

/-- A found entry of another connection is not an id of this lane. -/
theorem mem_others_of_findReq {r : Reactor} {id : Nat} {loc : ReqLoc}
    (h : r.findReq id = some loc) (other : loc.connId ≠ r.conn.id) :
    ∃ e ∈ r.otherReqs, e.1 = id := by
  obtain ⟨e, he, rfl⟩ := Option.map_eq_some_iff.mp h
  refine ⟨e, List.mem_filter.mpr ⟨List.mem_of_find?_eq_some he, by simpa using other⟩, ?_⟩
  simpa using List.find?_some he

theorem Reactor.WF.own_of_findReq {r : Reactor} (hwf : r.WF) {id : Nat} {loc : ReqLoc}
    (h : r.findReq id = some loc) (held : id ∈ r.lane.ids) : loc.connId = r.conn.id := by
  by_contra other
  obtain ⟨e, he, rfl⟩ := mem_others_of_findReq h other
  exact (hwf.others e he).2 held

theorem Reactor.WF.apart {r : Reactor} (hwf : r.WF) {id : Nat} (held : id ∈ r.lane.ids) :
    ∀ e ∈ r.otherReqs, e.1 ≠ id :=
  fun e he heq => (hwf.others e he).2 (heq ▸ held)

/-! ### Writes -/

theorem opens_statusLine (status : Nat) (o : Origin) (pt : Part) (rest : Bytes) :
    (Piece.mk o pt (statusLine status ++ rest)).opens = true := by
  simp only [Piece.opens, statusLine, List.append_assoc, List.isPrefixOf_iff_prefix]
  exact List.prefix_append _ _

theorem opens_uvBuildHead (o : Origin) (pt : Part) (date : Bytes) (status : Nat)
    (hs : List Header) (n : Nat) (ka : Bool) (secs : Option Nat) (body : Bytes) :
    (Piece.mk o pt (uvBuildHead date status hs n ka secs ++ body)).opens = true := by
  simp only [uvBuildHead, List.append_assoc]
  exact opens_statusLine ..

theorem opens_head (o : Origin) (pt : Part) (date : Bytes) (status : Nat)
    (hs : List Header) (n : Nat) (ka : Bool) (secs : Option Nat) :
    (Piece.mk o pt (uvBuildHead date status hs n ka secs)).opens = true := by
  simpa using opens_uvBuildHead o pt date status hs n ka secs []

theorem opens_streamHead (o : Origin) (pt : Part) (date : Bytes) (status : Nat)
    (hs : List Header) (ka : Bool) (secs : Option Nat) :
    (Piece.mk o pt (uvBuildStreamHead date status hs ka secs)).opens = true := by
  simp only [uvBuildStreamHead, List.append_assoc]
  exact opens_statusLine ..

theorem lane_startAnswer (r : Reactor) (ps : List Piece) (ka fin : Bool) :
    (r.startAnswer env ps ka fin).lane =
      r.lane.write ps (if fin then some ka else none) := by
  cases fin <;>
    simp [Reactor.startAnswer, Reactor.issueWrite, Reactor.lane, Reactor.setConn, Lane.write,
      finishingOf, Ev.marks, Reactor.ownReqs, Reactor.ownQueue]

theorem lane_closeConn (r : Reactor) : r.closeConn.lane = { r.lane with closing := true } := by
  unfold Reactor.closeConn
  split
  · rename_i h
    simp [Reactor.lane, h]
  · simp [Reactor.lane, Ev.marks, Reactor.ownReqs, Reactor.ownQueue]

@[simp] theorem closeConn_reqLoc (r : Reactor) : r.closeConn.reqLoc = r.reqLoc := by
  unfold Reactor.closeConn
  split <;> rfl

@[simp] theorem closeConn_wsConnLoop (r : Reactor) : r.closeConn.wsConnLoop = r.wsConnLoop := by
  unfold Reactor.closeConn
  split <;> rfl

theorem closeConn_id (r : Reactor) : r.closeConn.conn.id = r.conn.id :=
  congrArg Lane.id (lane_closeConn r)

theorem quiet_emitTo {r : Reactor} {sink : Option Nat} {evs : Nat → List Ev}
    (h : ∀ s, (evs s).flatMap (Ev.marks r.conn.id) = []) : Quiet r (r.emitTo sink evs) := by
  cases sink with
  | none => exact quiet_log rfl
  | some s => exact quiet_log (h s)

theorem quiet_broadcast (r : Reactor) (kind : ServerEventKind) (id : Nat) (msg : String) :
    Quiet r (r.broadcastEvent kind id msg) :=
  quiet_log (by simp [Ev.marks])

theorem quiet_emitStreamData (r : Reactor) (payload : Bytes) :
    Quiet r (r.emitStreamData payload) :=
  quiet_emitTo fun _ => by simp [Ev.marks]

theorem quiet_emitDecoded (r : Reactor) (out : Bytes) : Quiet r (r.emitDecoded out) := by
  unfold Reactor.emitDecoded
  split
  · exact ⟨rfl, rfl, rfl⟩
  · exact quiet_emitStreamData r out

theorem quiet_takeStreamBytes (r : Reactor) : Quiet r r.takeStreamBytes := by
  unfold Reactor.takeStreamBytes
  dsimp only
  split
  · exact (quiet_emitStreamData r _).trans ⟨rfl, rfl, rfl⟩
  · exact ⟨rfl, rfl, rfl⟩

/-- The line that ends the head of an answer which closes the connection. -/
def closeLine : Bytes := ascii "Connection: close\r\n\r\n"

theorem closeLine_uvBuildHead (date : Bytes) (status : Nat) (headers : List Header) (n : Nat)
    (secs : Option Nat) : closeLine <:+: uvBuildHead date status headers n false secs :=
  List.IsSuffix.isInfix ⟨_, rfl⟩

/-- What every set of admitted moves has: the plain moves, and answers that close and say so. -/
structure Admits (good : Lane → Move → Prop) : Prop where
  plain : ∀ l m, Move.plain m = true → good l m
  closes : ∀ l p, closeLine <:+: p.bytes → good l (.answer p false)

section Moves

variable (safe : Admits good)
include safe

theorem tracks_close (r : Reactor) : Tracks good r r.closeConn :=
  .step (m := .close) (lane_closeConn r ▸ .close) (safe.plain _ _ rfl) (by simp) (by simp)

omit safe in
/-- An HTTP write, and possibly the end of a stream that outran its reader. -/
theorem writeAnswer_cases {r : Reactor} {ps : List Piece} {ka fin : Bool}
    (http : r.conn.ws = false) :
    r.writeAnswer env ps ka fin = r.startAnswer env ps ka fin ∨
      ∃ r₁, Quiet (r.startAnswer env ps ka fin) r₁ ∧
        r.writeAnswer env ps ka fin = r₁.closeConn := by
  have hws : (r.startAnswer env ps ka fin).conn.ws = false := http
  unfold Reactor.writeAnswer
  simp only [hws]
  split
  · rename_i h
    simp at h
  · split
    · exact .inr ⟨_, quiet_broadcast .., rfl⟩
    · exact .inl rfl

/-- An HTTP answer is its move, and possibly a close. -/
theorem tracks_writeAnswer {r : Reactor} {ps : List Piece} {ka fin : Bool} {m : Move}
    (http : r.conn.ws = false)
    (hstep : r.lane.Step m (r.lane.write ps (if fin then some ka else none)))
    (hgood : good r.lane m) : Tracks good r (r.writeAnswer env ps ka fin) := by
  have start : Tracks good r (r.startAnswer env ps ka fin) :=
    .step (lane_startAnswer env r ps ka fin ▸ hstep) hgood rfl rfl
  obtain heq | ⟨r₁, quiet, heq⟩ := writeAnswer_cases env http
  · rw [heq]
    exact start
  · rw [heq]
    exact (start.trans quiet.tracks).trans (tracks_close safe r₁)

omit safe in
/-- A finishing HTTP write never trips the stream cap. -/
theorem writeAnswer_finish {r : Reactor} {ps : List Piece} {ka : Bool}
    (http : r.conn.ws = false) : r.writeAnswer env ps ka true = r.startAnswer env ps ka true := by
  have hws : (r.startAnswer env ps ka true).conn.ws = false := http
  simp [Reactor.writeAnswer, hws]

omit safe in
theorem lane_refuse {r : Reactor} {o : Origin} {status : Nat} (http : r.conn.ws = false) :
    ∃ p : Piece, p.origin = o ∧ p.part = .whole ∧ p.opens = true ∧
      (r.refuse env o status).lane = r.lane.write [p] (some false) ∧
      (r.refuse env o status).reqLoc = r.reqLoc ∧
      (r.refuse env o status).wsConnLoop = r.wsConnLoop ∧
      (r.refuse env o status).conn.id = r.conn.id := by
  refine ⟨⟨o, .whole, uvBuildHead (r.date env) status [] 0 false (some 0)⟩, rfl, rfl,
    opens_head .., ?_⟩
  unfold Reactor.refuse
  rw [writeAnswer_finish env http]
  exact ⟨lane_startAnswer env r _ false true, rfl, rfl, rfl⟩

/-- An engine answer to the request at the front of the buffer. -/
theorem tracks_answer {r : Reactor} {p : Piece} {ka : Bool} (http : r.conn.ws = false)
    (gate : r.lane.open) (part : p.part = .whole)
    (origin : p.origin = .engine ∨ p.origin = .fixed) (opens : p.opens)
    (closes : ka = false → closeLine <:+: p.bytes)
    (kept : ka = true → good r.lane (.answer p true)) :
    Tracks good r (r.writeAnswer env [p] ka true) := by
  refine tracks_writeAnswer env safe http (.answer gate part origin opens) ?_
  cases ka with
  | true => exact kept rfl
  | false => exact safe.closes _ p (closes rfl)

theorem tracks_refuse {r : Reactor} {status : Nat} (http : r.conn.ws = false)
    (gate : r.lane.open) : Tracks good r (r.refuse env .engine status) :=
  tracks_answer env safe http gate rfl (.inl rfl) (opens_head ..)
    (fun _ => closeLine_uvBuildHead ..) fun h => by cases h

theorem tracks_refuseText {r : Reactor} {status : Nat} {msg : String} {extra : List Header}
    (http : r.conn.ws = false) (gate : r.lane.open) :
    Tracks good r (r.refuseText env status msg extra) :=
  tracks_answer env safe http gate rfl (.inl rfl) (opens_uvBuildHead ..)
    (fun _ => (closeLine_uvBuildHead ..).trans (List.infix_append_left ..)) fun h => by cases h

/-! ### Uploads -/

theorem tracks_endStream (r : Reactor) : Tracks good r r.endStream := by
  have sent : Quiet r (r.emitTo r.conn.streamEmitter fun sink =>
      [.emitBodyEnd sink r.conn.streamReqId]) :=
    quiet_emitTo fun _ => by simp [Ev.marks]
  refine sent.tracks.trans (.step (m := .endUpload) ?_ (safe.plain _ _ rfl) rfl rfl)
  exact .endUpload

theorem tracks_emitStreamBytes (r : Reactor) : Tracks good r r.emitStreamBytes := by
  unfold Reactor.emitStreamBytes
  split
  · exact (quiet_takeStreamBytes r).tracks.trans (tracks_endStream safe _)
  · exact (quiet_takeStreamBytes r).tracks

/-- A chunked upload either runs into its cap, or nothing risky happens. -/
theorem emitStreamChunked_cases (r : Reactor) :
    Tracks good r (r.emitStreamChunked env) ∨
      (scanChunks r.conn.streamMaxBody (r.conn.buf.length + 1) r.chunkScan).1 = .tooLarge ∧
        ∃ r₁, Quiet r r₁ ∧ r₁.conn.streamReqId = r.conn.streamReqId ∧
          r.emitStreamChunked env = r₁.abortStreamTooLarge env := by
  unfold Reactor.emitStreamChunked
  obtain ⟨stop, s⟩ := scanChunks r.conn.streamMaxBody (r.conn.buf.length + 1) r.chunkScan
  dsimp only
  have scanned : Quiet r (r.setConn { r.conn with
      buf := s.buf, chunkRemaining := s.remaining, chunkNeedCrlf := s.needCrlf,
      streamBodyTotal := s.total }) := ⟨rfl, rfl, rfl⟩
  cases stop with
  | tooLarge => exact .inr ⟨rfl, _, scanned, rfl, rfl⟩
  | malformed =>
      left
      refine scanned.tracks.trans (Tracks.trans ?_ (tracks_close safe _))
      exact .step (m := .endUpload) .endUpload (safe.plain _ _ rfl) rfl rfl
  | more => exact .inl (scanned.trans (quiet_emitDecoded _ _)).tracks
  | done =>
      exact .inl ((scanned.trans (quiet_emitDecoded _ _)).tracks.trans (tracks_endStream safe _))

omit safe in
/-- The upload's request is retired and its connection told 413. -/
theorem abort_lane {r : Reactor} (http : r.conn.ws = false) :
    ∃ p : Piece, p.origin = .request r.conn.streamReqId ∧ p.part = .whole ∧ p.opens = true ∧
      (r.abortStreamTooLarge env).lane =
        (({ r.lane with upload := none } : Lane).erase r.conn.streamReqId).write [p]
          (some false) ∧
      (∀ e ∈ (r.abortStreamTooLarge env).otherReqs, e.1 ∈ r.otherReqs.map Prod.fst) ∧
      (r.abortStreamTooLarge env).wsConnLoop = r.wsConnLoop := by
  unfold Reactor.abortStreamTooLarge
  dsimp only
  set r₁ := r.setConn { r.conn with streamingBody := false }
  set r₂ := (r₁.retireReq r.conn.streamReqId).emitTo r.conn.streamEmitter fun sink =>
    [.track r.conn.streamReqId Reactor.tooLargeMsg,
      .emitBodyError sink r.conn.streamReqId Reactor.tooLargeMsg .requestTooLarge] with hr₂
  have sent : Quiet (r₁.retireReq r.conn.streamReqId) r₂ :=
    quiet_emitTo fun _ => by simp [Ev.marks]
  have lane₂ : r₂.lane = ({ r.lane with upload := none } : Lane).erase r.conn.streamReqId := by
    rw [sent.lane, lane_retireReq]
    rfl
  obtain ⟨p, origin, part, opens, hlane, hreq, hses, hid⟩ :=
    lane_refuse env (o := .request r.conn.streamReqId)
      (show r₂.conn.ws = false by rw [sent.ws, retireReq_conn]; exact http)
  have others : (r₂.refuse env (.request r.conn.streamReqId) 413).otherReqs =
      (r₁.retireReq r.conn.streamReqId).otherReqs :=
    (otherReqs_congr hreq hid).trans (otherReqs_congr sent.reqLoc sent.id)
  refine ⟨p, origin, part, opens, ?_, others ▸ mem_others_retireReq (r := r₁), ?_⟩
  · rw [hlane, lane₂]
  · rw [hses, sent.sessions, retireReq_wsConnLoop]
    rfl

omit safe in
theorem tracks_abort {r : Reactor} (http : r.conn.ws = false)
    (streaming : r.conn.streamingBody = true)
    (hgood : ∀ p, good r.lane (.abort p)) : Tracks good r (r.abortStreamTooLarge env) := by
  have upload : r.lane.upload = some r.conn.streamReqId := by
    simp [Reactor.lane, uploadOf, streaming]
  obtain ⟨p, origin, part, opens, hlane, hothers, hses⟩ :=
    abort_lane env http
  exact .ofStep (m := .abort p) (hlane ▸ .abort upload part origin opens) (hgood p) hothers hses

end Moves

end NitroServer.Engine
