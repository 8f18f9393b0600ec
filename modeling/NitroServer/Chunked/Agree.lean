/-
The buffered decoder (`decodeChunked`) against the streamed one (`emitStreamChunked`) on a
body that is there in one piece.

Both take the same bodies but for one limit: `decodeChunked` bounds the bytes of the
trailer lines, `emitStreamChunked` looks at them only while the last line is unfinished. So
the two agree exactly on the byte strings whose trailer lines, if they are a whole body,
stay within `kMaxTrailerBytes` (`decoders_agree_iff`).
-/

import NitroServer.Chunked.Grammar

namespace NitroServer.Chunked

open Engine Lib

/-! ### The buffered decoder -/

theorem decodeOverCap_ne {buf body : Bytes} {start M stop : Nat} :
    decodeOverCap buf start M ≠ .complete body stop := by
  unfold decodeOverCap
  split
  · simp
  · simp

theorem trailers_le {k n m : Nat} {p data rest : Bytes} {v : Verdict} (h : Trailers k n p v)
    (hv : v = .whole data m rest) : data = [] ∧ n ≤ m := by
  induction h with
  | unfinished | endless | tooMany => cases hv
  | blank =>
      cases hv
      exact ⟨rfl, le_rfl⟩
  | line _ _ _ _ ih =>
      obtain ⟨none, le⟩ := ih hv
      exact ⟨none, by omega⟩

theorem trailers_decode {buf p body : Bytes} {start M pos t k n fuel : Nat} {v : Verdict}
    (h : Trailers k n p v) (hp : buf.drop t = p) (ht : t = pos + n) (inside : t ≤ buf.length)
    (small : n ≤ kMaxTrailerBytes + 2) (hf : p.length < fuel) (D : Bytes) (E : Nat) :
    decodeTrailers buf start M body pos fuel t k = .complete D E ↔
      ∃ m rest, v = .whole [] m rest ∧ m ≤ kMaxTrailerBytes + 2 ∧ D = body ∧
        E = buf.length - rest.length := by
  induction h generalizing t fuel with
  | @unfinished k n p noCrlf _ | @endless k n p noCrlf _ =>
      obtain ⟨fuel, rfl⟩ : ∃ f, fuel = f + 1 := ⟨fuel - 1, by omega⟩
      have line : findSub crlf p = none := noCrlf
      simp only [decodeTrailers, hp, line, reduceCtorEq, false_and, exists_false, iff_false]
      split
      · simp
      · exact decodeOverCap_ne
  | @blank k n rest =>
      obtain ⟨fuel, rfl⟩ : ∃ f, fuel = f + 1 := ⟨fuel - 1, by omega⟩
      have found : findSub crlf (crlf ++ rest) = some 0 := findSub_line (rfl : NoCrlf []) rest
      have total := congrArg List.length hp
      have two : crlf.length = 2 := rfl
      simp only [List.length_drop, List.length_append] at total
      simp only [decodeTrailers, hp, found]
      constructor
      · intro same
        cases same
        exact ⟨n, rest, rfl, small, rfl, by omega⟩
      · rintro ⟨m, rest', same, -, rfl, rfl⟩
        cases same
        rw [show t + 2 = buf.length - rest.length by omega]
  | @line k n l more v noCrlf some_text few tail ih =>
      obtain ⟨fuel, rfl⟩ : ∃ f, fuel = f + 1 := ⟨fuel - 1, by omega⟩
      obtain ⟨e, he⟩ : ∃ e, l.length = e + 1 :=
        Nat.exists_eq_succ_of_ne_zero fun zero => some_text (List.length_eq_zero_iff.mp zero)
      have two : crlf.length = 2 := rfl
      have total := congrArg List.length hp
      simp only [List.length_drop, List.length_append] at total hf
      simp only [decodeTrailers, hp, findSub_line noCrlf, he]
      by_cases long : kMaxTrailerBytes < n + l.length
      · -- refused here, and the section cannot become shorter
        rw [if_pos (by omega)]
        simp only [reduceCtorEq, false_iff, not_exists]
        rintro m rest ⟨rfl, le, -⟩
        have := (trailers_le tail rfl).2
        omega
      · rw [if_neg (by omega), ← he]
        exact ih (drop_line hp) (by omega) (by omega) (by omega) (by omega)
  | @tooMany k n l more noCrlf some_text many =>
      obtain ⟨fuel, rfl⟩ : ∃ f, fuel = f + 1 := ⟨fuel - 1, by omega⟩
      obtain ⟨e, he⟩ : ∃ e, l.length = e + 1 :=
        Nat.exists_eq_succ_of_ne_zero fun zero => some_text (List.length_eq_zero_iff.mp zero)
      simp only [decodeTrailers, hp, findSub_line noCrlf, he]
      rw [if_pos (by omega)]
      simp

section Line

variable {buf line more out : Bytes} {start M pos fuel n : Nat}

theorem take_line : (line ++ crlf ++ more).take line.length = line := by
  rw [List.append_assoc, List.take_left]

theorem decode_badSize (noCrlf : NoCrlf line) (hp : buf.drop pos = line ++ crlf ++ more)
    (size : uvChunkSize line = none) :
    decodeChunks buf start M (fuel + 1) pos out = .malformed := by
  simp only [decodeChunks, hp, findSub_line noCrlf, take_line, size]

theorem decode_last (noCrlf : NoCrlf line) (hp : buf.drop pos = line ++ crlf ++ more)
    (size : uvChunkSize line = some 0) :
    decodeChunks buf start M (fuel + 1) pos out =
      decodeTrailers buf start M out (pos + line.length + 2) (buf.length + 1)
        (pos + line.length + 2) 0 := by
  simp only [decodeChunks, hp, findSub_line noCrlf, take_line, size]

theorem decode_sized (noCrlf : NoCrlf line) (hp : buf.drop pos = line ++ crlf ++ more)
    (size : uvChunkSize line = some n) (some_data : 0 < n) :
    decodeChunks buf start M (fuel + 1) pos out =
      if M < out.length + n then .overCap
      else if buf.length < pos + line.length + 2 + n + 2 then decodeOverCap buf start M
      else if (buf.drop (pos + line.length + 2 + n)).take 2 ≠ crlf then .malformed
      else decodeChunks buf start M fuel (pos + line.length + 2 + n + 2)
        (out ++ (buf.drop (pos + line.length + 2)).take n) := by
  obtain ⟨n, rfl⟩ : ∃ m, n = m + 1 := ⟨n - 1, by omega⟩
  simp only [decodeChunks, hp, findSub_line noCrlf, take_line, size]

end Line

/-- A chunk with all its data there. -/
theorem decode_chunk {buf line data stop more out : Bytes} {start M pos fuel : Nat}
    (noCrlf : NoCrlf line) (size : uvChunkSize line = some data.length) (some_data : data ≠ [])
    (room : out.length + data.length ≤ M) (two : stop.length = 2)
    (hp : buf.drop pos = line ++ crlf ++ (data ++ (stop ++ more))) :
    decodeChunks buf start M (fuel + 1) pos out =
      if stop ≠ crlf then .malformed
      else decodeChunks buf start M fuel (pos + line.length + 2 + data.length + 2)
        (out ++ data) := by
  have behind : buf.drop (pos + line.length + 2) = data ++ (stop ++ more) := drop_line hp
  have after : buf.drop (pos + line.length + 2 + data.length) = stop ++ more := by
    rw [← List.drop_drop, behind, List.drop_left]
  have total := congrArg List.length behind
  simp only [List.length_drop, List.length_append] at total
  have first : (stop ++ more).take 2 = stop := by rw [← two, List.take_left]
  rw [decode_sized noCrlf hp size (List.length_pos_iff.mpr some_data),
    if_neg (not_lt.mpr room), if_neg (by omega), after, behind, List.take_left, first]

theorem reads_decode {buf p out : Bytes} {start M t pos fuel : Nat} {v : Verdict}
    (h : Reads M t p v) (hp : buf.drop pos = p) (inside : pos ≤ buf.length)
    (ht : out.length = t) (hf : p.length < fuel) (D : Bytes) (E : Nat) :
    decodeChunks buf start M fuel pos out = .complete D E ↔
      ∃ data m rest, v = .whole data m rest ∧ m ≤ kMaxTrailerBytes + 2 ∧ D = out ++ data ∧
        E = buf.length - rest.length := by
  induction h generalizing pos fuel out with
  | @unfinished t p noCrlf _ | @endless t p noCrlf _ =>
      obtain ⟨fuel, rfl⟩ : ∃ f, fuel = f + 1 := ⟨fuel - 1, by omega⟩
      have line : findSub crlf p = none := noCrlf
      simp only [decodeChunks, hp, line, reduceCtorEq, false_and, exists_false, iff_false]
      exact decodeOverCap_ne
  | @badSize t line more noCrlf size =>
      obtain ⟨fuel, rfl⟩ : ∃ f, fuel = f + 1 := ⟨fuel - 1, by omega⟩
      rw [decode_badSize noCrlf hp size]
      simp
  | @last t line more v noCrlf size trailers =>
      obtain ⟨fuel, rfl⟩ : ∃ f, fuel = f + 1 := ⟨fuel - 1, by omega⟩
      have behind := drop_line hp
      have total := congrArg List.length hp
      have two : crlf.length = 2 := rfl
      simp only [List.length_drop, List.length_append] at total
      rw [decode_last noCrlf hp size, trailers_decode trailers behind rfl (by omega) (Nat.zero_le _) (by omega)]
      constructor
      · rintro ⟨m, rest, rfl, le, rfl, rfl⟩
        exact ⟨[], m, rest, rfl, le, (List.append_nil _).symm, rfl⟩
      · rintro ⟨data, m, rest, rfl, le, rfl, rfl⟩
        obtain ⟨rfl, -⟩ := trailers_le trailers rfl
        exact ⟨m, rest, rfl, le, List.append_nil _, rfl⟩
  | @beyond t n line more noCrlf size pos' beyond =>
      obtain ⟨fuel, rfl⟩ : ∃ f, fuel = f + 1 := ⟨fuel - 1, by omega⟩
      rw [decode_sized noCrlf hp size pos', if_pos (by omega)]
      simp
  | @short t n line more noCrlf size pos' room here =>
      obtain ⟨fuel, rfl⟩ : ∃ f, fuel = f + 1 := ⟨fuel - 1, by omega⟩
      have total := congrArg List.length (drop_line hp)
      rw [List.length_drop] at total
      rw [decode_sized noCrlf hp size pos']
      simp only [reduceCtorEq, false_and, exists_false, iff_false]
      split
      · simp
      · rw [if_pos (by omega)]
        exact decodeOverCap_ne
  | @badEnd t line data stop more noCrlf size some_data room two bad =>
      obtain ⟨fuel, rfl⟩ : ∃ f, fuel = f + 1 := ⟨fuel - 1, by omega⟩
      rw [decode_chunk noCrlf size some_data (ht ▸ room) two hp, if_pos bad]
      simp
  | @chunk t line data more v noCrlf size some_data room _ ih =>
      obtain ⟨fuel, rfl⟩ : ∃ f, fuel = f + 1 := ⟨fuel - 1, by omega⟩
      have two : crlf.length = 2 := rfl
      have after : buf.drop (pos + line.length + 2 + data.length + 2) = more := by
        have behind := drop_line hp
        rw [← List.drop_drop, ← List.drop_drop, behind, List.drop_left]
        rfl
      have total := congrArg List.length hp
      simp only [List.length_drop, List.length_append] at total hf
      rw [decode_chunk noCrlf size some_data (ht ▸ room) rfl hp, if_neg (by simp),
        ih after (by omega) (by rw [List.length_append, ht]) (by omega)]
      cases v with
      | whole body m rest =>
          constructor
          · rintro ⟨body', m', rest', same, le, rfl, rfl⟩
            cases same
            exact ⟨data ++ body, m, rest, rfl, le, List.append_assoc _ _ _, rfl⟩
          · rintro ⟨body', m', rest', same, le, rfl, rfl⟩
            cases same
            exact ⟨body, m, rest, rfl, le, (List.append_assoc _ _ _).symm, rfl⟩
      | waiting | tripped | corrupt | beyond => simp [Verdict.push]

/-- When the buffered decoder returns a body. -/
theorem decodeChunked_iff {B : Bytes} {M : Nat} {v : Verdict} (h : Reads M 0 B v) (D : Bytes)
    (E : Nat) :
    decodeChunked B 0 M = .complete D E ↔
      ∃ data m rest, v = .whole data m rest ∧ m ≤ kMaxTrailerBytes + 2 ∧ D = data ∧
        E = B.length - rest.length := by
  rw [decodeChunked, reads_decode h rfl (Nat.zero_le _) rfl (Nat.lt_succ_self _)]
  simp only [List.nil_append]

/-! ### The streamed decoder on the connection -/

/-- A streamed upload with `B` buffered, cap `M` and nothing decoded yet. -/
structure FreshUpload (r : Reactor) (B : Bytes) (M sink : Nat) : Prop where
  buf : r.conn.buf = B
  remaining : r.conn.chunkRemaining = 0
  needCrlf : r.conn.chunkNeedCrlf = false
  total : r.conn.streamBodyTotal = 0
  cap : r.conn.streamMaxBody = M
  sink : r.conn.streamEmitter = some sink
  streaming : r.conn.streamingBody = true

/-- The events of the data of an upload. -/
def upload (sink id : Nat) (D : Bytes) : List Ev :=
  if D = [] then [] else [.track id D, .emitBodyData sink id D]

theorem upload_inj {sink id : Nat} {D D' : Bytes} :
    upload sink id D = upload sink id D' ↔ D = D' := by
  unfold upload
  constructor
  · intro h
    split at h <;> split at h <;> simp_all
  · rintro rfl
    rfl

/-- The upload ends: `D` is emitted, then the end marker, and `rest` is left in the buffer. -/
def Finishes (env : Env) (r : Reactor) (sink : Nat) (D rest : Bytes) : Prop :=
  (r.emitStreamChunked env).conn.streamingBody = false ∧
  (r.emitStreamChunked env).conn.buf = rest ∧
  (r.emitStreamChunked env).trace = r.trace ++ upload sink r.conn.streamReqId D ++
    [.emitBodyEnd sink r.conn.streamReqId]

def isBodyEnd : Ev → Bool
  | .emitBodyEnd _ _ => true
  | _ => false

/-- The end markers emitted so far. -/
def ends (r : Reactor) : Nat := r.trace.countP isBodyEnd

section Ends

variable (env : Env) (r : Reactor)

theorem ends_emitTo {sink : Option Nat} {evs : Nat → List Ev}
    (none : ∀ k, (evs k).countP isBodyEnd = 0) : ends (r.emitTo sink evs) = ends r := by
  cases sink with
  | none => simp [ends, Reactor.emitTo, Reactor.log]
  | some k => simp [ends, Reactor.emitTo, Reactor.log, none]

theorem ends_closeConn : ends r.closeConn = ends r := by
  unfold Reactor.closeConn
  split
  · rfl
  · simp [ends, isBodyEnd]

theorem ends_startAnswer (payload : List Piece) (ka fin : Bool) :
    ends (r.startAnswer env payload ka fin) = ends r := by
  simp [ends, isBodyEnd, Reactor.startAnswer, Reactor.issueWrite, Reactor.setConn]

theorem ends_wsCloseConn (code : Nat) : ends (r.wsCloseConn env code) = ends r := by
  unfold Reactor.wsCloseConn
  split
  · rfl
  · dsimp only
    rw [ends_startAnswer, ends_emitTo _ fun _ => rfl]
    rfl

theorem ends_writeAnswer (payload : List Piece) (ka fin : Bool) :
    ends (r.writeAnswer env payload ka fin) = ends r := by
  unfold Reactor.writeAnswer
  dsimp only
  split
  · rw [ends_wsCloseConn, ends_startAnswer]
  split
  · rw [ends_closeConn, ← ends_startAnswer env r payload ka fin]
    simp [ends, isBodyEnd, Reactor.broadcastEvent, Reactor.log]
  · rw [ends_startAnswer]

theorem ends_abortStreamTooLarge : ends (r.abortStreamTooLarge env) = ends r := by
  unfold Reactor.abortStreamTooLarge Reactor.refuse
  dsimp only
  rw [ends_writeAnswer, ends_emitTo _ fun _ => rfl]
  unfold Reactor.retireReq Reactor.eraseReq
  split
  · simp [ends, isBodyEnd, Reactor.setConn]
  · rfl

end Ends

/-- The upload finishes exactly when the loop does. -/
theorem finishes_iff {env : Env} {r : Reactor} {B D rest : Bytes} {M sink : Nat}
    (fresh : FreshUpload r B M sink) :
    Finishes env r sink D rest ↔
      ∃ s, scan M (atLine B 0 []) = (.done, s) ∧ s.out = D ∧ s.buf = rest := by
  have start : r.chunkScan = atLine B 0 [] := by
    rw [Reactor.chunkScan, fresh.buf, fresh.remaining, fresh.needCrlf, fresh.total]
  have loop : scanChunks r.conn.streamMaxBody (r.conn.buf.length + 1) r.chunkScan =
      scan M (atLine B 0 []) := by
    rw [start, fresh.cap, fresh.buf]
    rfl
  have marked : ∀ {r' : Reactor}, r'.trace = r.trace ++ upload sink r.conn.streamReqId D ++
      [.emitBodyEnd sink r.conn.streamReqId] → ends r' = ends r + 1 := by
    intro r' trace
    rw [ends, trace, upload]
    split <;> simp [ends, isBodyEnd]
  rw [Finishes, Reactor.emitStreamChunked, loop]
  rcases scan M (atLine B 0 []) with ⟨stop, s⟩
  cases stop with
  | done =>
      have same : ∀ out : Bytes, r.trace ++ upload sink r.conn.streamReqId out ++
          [.emitBodyEnd sink r.conn.streamReqId] = r.trace ++ upload sink r.conn.streamReqId D ++
          [.emitBodyEnd sink r.conn.streamReqId] ↔ out = D := by
        intro out
        rw [List.append_left_inj, List.append_right_inj]
        exact upload_inj
      have trace : (((r.setConn { r.conn with
          buf := s.buf, chunkRemaining := s.remaining, chunkNeedCrlf := s.needCrlf,
          streamBodyTotal := s.total }).emitDecoded s.out).endStream).trace =
          r.trace ++ upload sink r.conn.streamReqId s.out ++
            [.emitBodyEnd sink r.conn.streamReqId] := by
        unfold Reactor.emitDecoded upload
        split <;> simp [Reactor.endStream, Reactor.emitStreamData, Reactor.emitTo, Reactor.log,
          Reactor.setConn, fresh.sink]
      have conn : ∀ r' : Reactor, (r'.endStream).conn.streamingBody = false := fun _ => rfl
      have buf : (((r.setConn { r.conn with
          buf := s.buf, chunkRemaining := s.remaining, chunkNeedCrlf := s.needCrlf,
          streamBodyTotal := s.total }).emitDecoded s.out).endStream).conn.buf = s.buf := by
        unfold Reactor.emitDecoded
        split <;> rfl
      dsimp only
      rw [trace, buf, conn, same]
      constructor
      · rintro ⟨-, rfl, rfl⟩
        exact ⟨s, rfl, rfl, rfl⟩
      · rintro ⟨s', hs, rfl, rfl⟩
        cases hs
        exact ⟨rfl, rfl, rfl⟩
  | more =>
      dsimp only
      refine iff_of_false ?_ ?_
      · rintro ⟨beyond, -, -⟩
        unfold Reactor.emitDecoded at beyond
        split at beyond
        all_goals
          simp [Reactor.emitStreamData, Reactor.emitTo, Reactor.log, Reactor.setConn,
            fresh.streaming] at beyond
      · rintro ⟨_, hs, -⟩
        cases hs
  | malformed =>
      dsimp only
      refine iff_of_false ?_ ?_
      · rintro ⟨-, -, trace⟩
        have one := marked trace
        rw [ends_closeConn] at one
        exact absurd one (Nat.succ_ne_self _).symm
      · rintro ⟨_, hs, -⟩
        cases hs
  | tooLarge =>
      dsimp only
      refine iff_of_false ?_ ?_
      · rintro ⟨-, -, trace⟩
        have one := marked trace
        rw [ends_abortStreamTooLarge] at one
        exact absurd one (Nat.succ_ne_self _).symm
      · rintro ⟨_, hs, -⟩
        cases hs

/-! ### The two decoders -/

/-- The whole bodies that both decoders take within the cap have trailer lines of at most
`kMaxTrailerBytes`, counted up to the line end of the last one. -/
def ShortTrailers (M : Nat) (B : Bytes) : Prop :=
  ∀ data m rest, Reads M 0 B (.whole data m rest) → m ≤ kMaxTrailerBytes + 2

/-- `decodeChunked` returns a body exactly when the streamed decoder finishes with it, if
and only if the trailer lines are short. -/
theorem decoders_agree_iff (env : Env) {r : Reactor} {B : Bytes} {M sink : Nat}
    (fresh : FreshUpload r B M sink) :
    (∀ D E, E ≤ B.length →
      (decodeChunked B 0 M = .complete D E ↔ Finishes env r sink D (B.drop E))) ↔
    ShortTrailers M B := by
  have left : ∀ {data rest : Bytes} {m : Nat}, Reads M 0 B (.whole data m rest) →
      rest = B.drop (B.length - rest.length) := fun hv =>
    List.suffix_iff_eq_drop.mp (reads_suffix hv rfl).1
  constructor
  · intro agree data m rest hv
    obtain ⟨stop, whole⟩ := reads_scan hv (Nat.zero_le M)
    obtain ⟨decoded, rest_eq⟩ := whole data m rest rfl
    have finishes : Finishes env r sink data (B.drop (B.length - rest.length)) :=
      (finishes_iff fresh).mpr ⟨_, Prod.ext stop rfl, decoded, rest_eq.trans (left hv)⟩
    obtain ⟨data', m', rest', same, le, -⟩ :=
      (decodeChunked_iff hv _ _).mp ((agree data _ (Nat.sub_le _ _)).mpr finishes)
    cases same
    exact le
  · intro short D E inside
    obtain ⟨v, hv⟩ := reads_total M 0 B
    obtain ⟨stop, whole⟩ := reads_scan hv (Nat.zero_le M)
    rw [decodeChunked_iff hv, finishes_iff fresh]
    constructor
    · rintro ⟨data, m, rest, rfl, -, rfl, rfl⟩
      obtain ⟨decoded, rest_eq⟩ := whole D m rest rfl
      exact ⟨_, Prod.ext stop rfl, decoded, rest_eq.trans (left hv)⟩
    · rintro ⟨s, done, decoded, rest_eq⟩
      rw [done] at stop whole
      cases v with
      | whole data m rest =>
          obtain ⟨out_eq, buf_eq⟩ := whole data m rest rfl
          dsimp only at out_eq buf_eq
          have length := congrArg List.length (buf_eq.symm.trans rest_eq)
          rw [List.length_drop] at length
          refine ⟨data, m, rest, rfl, short data m rest hv, ?_, by omega⟩
          rw [← decoded, out_eq, List.nil_append]
      | waiting | tripped | corrupt | beyond => cases stop

/-! Below the limit there is nothing to disagree about. -/

theorem shortTrailers_of_length {M : Nat} {B : Bytes} (h : B.length ≤ kMaxTrailerBytes + 2) :
    ShortTrailers M B := fun _ _ _ hv => (reads_suffix hv rfl).2.trans h

/-- A connection with a fresh upload. -/
def uploading (B : Bytes) (M : Nat) : Reactor where
  conn := {
    id := 1
    buf := B
    streamingBody := true
    streamChunked := true
    streamReqId := 2
    streamEmitter := some 0
    streamMaxBody := M }

theorem uploading_fresh (B : Bytes) (M : Nat) : FreshUpload (uploading B M) B M 0 :=
  ⟨rfl, rfl, rfl, rfl, rfl, rfl, rfl⟩

def plainEnv : Env where
  cfg := {}
  router := ⟨fun _ _ _ => none, fun _ => []⟩
  date _ := []
  sealed _ b := b

def wiki : Bytes := ascii "4;x\r\nWiki\r\n0\r\nT: v\r\n\r\nGET"

theorem decoders_agree_wiki : FreshUpload (uploading wiki 4) wiki 4 0 ∧
    Finishes plainEnv (uploading wiki 4) 0 (ascii "Wiki") (ascii "GET") := by
  have agree := (decoders_agree_iff plainEnv (uploading_fresh wiki 4)).mpr
    (shortTrailers_of_length (by decide))
  exact ⟨uploading_fresh wiki 4, (agree (ascii "Wiki") 22 (by decide)).mp (by decide +kernel)⟩

/-- The last chunk with one trailer line of `n` bytes. -/
def trailerLine (n : Nat) : Bytes :=
  ascii "0" ++ crlf ++ (List.replicate n 97 ++ crlf ++ (crlf ++ []))

theorem noCrlf_replicate (n : Nat) : NoCrlf (List.replicate n 97) := by
  induction n with
  | zero => rfl
  | succ n ih =>
      rw [NoCrlf, List.replicate_succ, findSub, if_neg (by simp [crlf]), ih]
      rfl

theorem reads_trailerLine (M : Nat) {n : Nat} (pos : 0 < n) :
    Reads M 0 (trailerLine n) (.whole [] (n + 2) []) := by
  have line : List.replicate n (97 : UInt8) ≠ [] := by
    rw [Ne, List.replicate_eq_nil_iff]
    omega
  have trailers : Trailers 0 0 (List.replicate n 97 ++ crlf ++ (crlf ++ []))
      (.whole [] (0 + (List.replicate n (97 : UInt8)).length + 2) []) :=
    .line (noCrlf_replicate n) line (by decide) .blank
  rw [List.length_replicate, Nat.zero_add] at trailers
  exact .last rfl (by decide) trailers

theorem longTrailer_disagrees {n : Nat} (long : kMaxTrailerBytes < n) :
    FreshUpload (uploading (trailerLine n) 0) (trailerLine n) 0 0 ∧
    Finishes plainEnv (uploading (trailerLine n) 0) 0 []
      ((trailerLine n).drop (trailerLine n).length) ∧
    decodeChunked (trailerLine n) 0 0 ≠ .complete [] (trailerLine n).length := by
  have reading := reads_trailerLine 0 (n := n) (by omega)
  obtain ⟨stop, whole⟩ := reads_scan reading le_rfl
  obtain ⟨decoded, rest⟩ := whole [] _ [] rfl
  refine ⟨uploading_fresh _ _, ?_, ?_⟩
  · rw [finishes_iff (uploading_fresh _ _), List.drop_length]
    exact ⟨_, Prod.ext stop rfl, decoded, rest⟩
  · intro complete
    obtain ⟨data, m, rest', same, le, -⟩ := (decodeChunked_iff reading _ _).mp complete
    cases same
    omega

/-- One trailer line of 8193 bytes: taken by the streamed decoder, refused by the other. -/
theorem trailer_8193_disagrees :
    FreshUpload (uploading (trailerLine 8193) 0) (trailerLine 8193) 0 0 ∧
    Finishes plainEnv (uploading (trailerLine 8193) 0) 0 []
      ((trailerLine 8193).drop (trailerLine 8193).length) ∧
    decodeChunked (trailerLine 8193) 0 0 ≠ .complete [] (trailerLine 8193).length :=
  longTrailer_disagrees (by decide)

end NitroServer.Chunked
