/-
A streamed chunked upload that comes in several reads.

`emitStreamChunked` runs after every read and keeps what it has not consumed. It resumes
where it stopped (`scan_feed`), so that after any reads it is where it would be after one
read of the same bytes. What it may answer on the way differs: a line of more than
`kMaxTrailerBytes` is refused while it is unfinished, and is not when it comes in one piece
with its line end. So two ways of cutting a stream end alike exactly when the stream is
corrupt or both or neither of them have a read that stops in such a line
(`segments_agree_iff`).
-/

import NitroServer.Chunked.Agree
import NitroServer.Engine.Loop

namespace NitroServer.Chunked

open Engine Lib

/-! ### Readings of longer byte strings -/

/-- The verdicts that bytes to come do not change. -/
def Verdict.final : Verdict → Prop
  | .waiting | .tripped => False
  | _ => True

/-- More bytes behind a final verdict. -/
def Verdict.more (y : Bytes) : Verdict → Verdict
  | .whole data m rest => .whole data m (rest ++ y)
  | v => v

theorem trailers_append {k n : Nat} {p : Bytes} {v : Verdict} (h : Trailers k n p v) (y : Bytes)
    (final : v.final) : Trailers k n (p ++ y) (v.more y) := by
  induction h with
  | unfinished | endless => exact final.elim
  | blank =>
      rw [List.append_assoc]
      exact .blank
  | line noCrlf text few _ ih =>
      rw [List.append_assoc]
      exact .line noCrlf text few (ih final)
  | tooMany noCrlf text many =>
      rw [List.append_assoc]
      exact .tooMany noCrlf text many

theorem reads_append {M t : Nat} {p : Bytes} {v : Verdict} (h : Reads M t p v) (y : Bytes)
    (final : v.final) : Reads M t (p ++ y) (v.more y) := by
  induction h with
  | unfinished | endless | short => exact final.elim
  | badSize noCrlf size =>
      rw [List.append_assoc]
      exact .badSize noCrlf size
  | last noCrlf size trailers =>
      rw [List.append_assoc]
      exact .last noCrlf size (trailers_append trailers y final)
  | @beyond t n line more noCrlf size pos beyond =>
      rw [List.append_assoc]
      refine .beyond noCrlf size pos ?_
      rw [List.length_append]
      omega
  | @badEnd t line data stop more noCrlf size some_data room two bad =>
      have longer : line ++ crlf ++ (data ++ (stop ++ more)) ++ y =
          line ++ crlf ++ (data ++ (stop ++ (more ++ y))) := by simp only [List.append_assoc]
      rw [longer]
      exact .badEnd noCrlf size some_data room two bad
  | @chunk t line data more v noCrlf size some_data room _ ih =>
      have longer : line ++ crlf ++ (data ++ (crlf ++ more)) ++ y =
          line ++ crlf ++ (data ++ (crlf ++ (more ++ y))) := by simp only [List.append_assoc]
      have same : (v.push data).more y = (v.more y).push data := by cases v <;> rfl
      rw [longer, same]
      refine .chunk noCrlf size some_data room (ih ?_)
      cases v <;> exact final

/-! ### Resuming a scan -/

/-- More bytes arrive. -/
def feed (s : ChunkScan) (y : Bytes) : ChunkScan := { s with buf := s.buf ++ y }

theorem scanCrlf_feed {s s' : ChunkScan} (h : scanCrlf s = .inr s') (y : Bytes) :
    scanCrlf (feed s y) = .inr (feed s' y) ∧ s'.needCrlf = false ∧
      s'.remaining = s.remaining := by
  unfold scanCrlf at h
  split at h
  · rename_i none
    cases h
    refine ⟨?_, by simpa using none, rfl⟩
    rw [scanCrlf, if_pos (by simpa [feed] using none)]
  split at h
  · cases h
  split at h
  · cases h
  · rename_i need long stop
    cases h
    have two : 2 ≤ s.buf.length := not_lt.mp long
    refine ⟨?_, rfl, rfl⟩
    have first : (s.buf ++ y).take 2 = s.buf.take 2 := List.take_append_of_le_length two
    have rest : (s.buf ++ y).drop 2 = s.buf.drop 2 ++ y := List.drop_append_of_le_length two
    have longer : ¬ (s.buf ++ y).length < 2 := by
      rw [List.length_append]
      omega
    simp only [scanCrlf, feed, if_neg need, if_neg longer, first, if_neg stop, rest]

theorem scanSize_feed {s s' : ChunkScan} (h : scanSize s = .inr s') (y : Bytes) :
    scanSize (feed s y) = .inr (feed s' y) ∧ s'.needCrlf = s.needCrlf ∧ 0 < s'.remaining := by
  unfold scanSize at h
  split at h
  · cases h
  rename_i eol found
  split at h
  · cases h
  · split at h <;> cases h
  · rename_i sz pos size
    cases h
    have fits : eol + 2 ≤ s.buf.length := findSub_le found
    have line : (s.buf ++ y).take eol = s.buf.take eol :=
      List.take_append_of_le_length (by omega)
    have rest : (s.buf ++ y).drop (eol + 2) = s.buf.drop (eol + 2) ++ y :=
      List.drop_append_of_le_length fits
    obtain ⟨n, rfl⟩ : ∃ m, sz = m + 1 :=
      Nat.exists_eq_succ_of_ne_zero fun zero => pos zero
    refine ⟨?_, rfl, Nat.succ_pos _⟩
    simp only [scanSize, feed, findSub_append y found, line, size, rest]

/-- The data stage of a turn. -/
def dataTurn (M : Nat) (s : ChunkScan) : ScanEnd × ChunkScan ⊕ ChunkScan :=
  match scanData M s with
  | none => .inl (.more, s)
  | some (true, s) => .inl (.tooLarge, s)
  | some (false, s) => .inr s

theorem turn_inData {M : Nat} {s : ChunkScan} (ready : s.needCrlf = false)
    (pos : 0 < s.remaining) : turn M s = dataTurn M s := by
  have here : scanCrlf s = .inr s := by rw [scanCrlf, if_pos (by simp [ready])]
  rw [turn, here]
  dsimp only
  rw [if_neg pos.ne']
  rfl

/-- What a turn does before the data: it stops, or it is in a chunk. -/
theorem turn_cases (M : Nat) (s : ChunkScan) :
    (∃ stop, scanCrlf s = .inl stop ∧ turn M s = .inl stop) ∨
    (∃ s₁ stop, scanCrlf s = .inr s₁ ∧ s₁.remaining = 0 ∧ scanSize s₁ = .inl stop ∧
      turn M s = .inl stop) ∨
    ∃ s₂, s₂.needCrlf = false ∧ 0 < s₂.remaining ∧ turn M s = dataTurn M s₂ ∧
      ∀ y, turn M (feed s y) = dataTurn M (feed s₂ y) := by
  cases h₁ : scanCrlf s with
  | inl stop => exact .inl ⟨stop, rfl, by rw [turn, h₁]⟩
  | inr s₁ =>
      right
      have ready := (scanCrlf_feed h₁ []).2.1
      by_cases zero : s₁.remaining = 0
      · cases h₂ : scanSize s₁ with
        | inl stop =>
            refine .inl ⟨s₁, stop, rfl, zero, h₂, ?_⟩
            rw [turn, h₁]
            dsimp only
            rw [if_pos zero, h₂]
        | inr s₂ =>
            obtain ⟨-, same, pos⟩ := scanSize_feed h₂ []
            refine .inr ⟨s₂, same.trans ready, pos, ?_, fun y => ?_⟩
            · rw [turn, h₁]
              dsimp only
              rw [if_pos zero, h₂]
              rfl
            · rw [turn, (scanCrlf_feed h₁ y).1]
              dsimp only
              rw [if_pos (show (feed s₁ y).remaining = 0 from zero), (scanSize_feed h₂ y).1]
              rfl
      · refine .inr ⟨s₁, ready, Nat.pos_of_ne_zero zero, ?_, fun y => ?_⟩
        · rw [turn, h₁]
          dsimp only
          rw [if_neg zero]
          rfl
        · rw [turn, (scanCrlf_feed h₁ y).1]
          dsimp only
          rw [if_neg (show (feed s₁ y).remaining ≠ 0 from zero)]
          rfl

theorem scan_congr {M : Nat} {s s' : ChunkScan} (h : turn M s = turn M s') :
    scan M s = scan M s' := by rw [scan_eq, h, ← scan_eq]

/-- A turn that stops for more goes on from its state when bytes arrive. -/
theorem scan_feed_stop {M : Nat} {s s' : ChunkScan} (h : turn M s = .inl (.more, s')) (y : Bytes) :
    scan M (feed s y) = scan M (feed s' y) := by
  rcases turn_cases M s with ⟨stop, h₁, ht⟩ | ⟨s₁, stop, h₁, zero, h₂, ht⟩ |
    ⟨s₂, ready, pos, ht, hfeed⟩
  · -- the line end behind the data is not all there: nothing was consumed
    rw [h] at ht
    cases ht
    unfold scanCrlf at h₁
    split at h₁
    · cases h₁
    split at h₁
    · cases h₁
      rfl
    split at h₁ <;> cases h₁
  · rw [h] at ht
    cases ht
    have same : s' = s₁ := by
      unfold scanSize at h₂
      split at h₂
      · simp only [Sum.inl.injEq, Prod.mk.injEq] at h₂
        exact h₂.2.symm
      split at h₂
      · cases h₂
      · split at h₂
        · cases h₂
        · cases h₂
          rfl
      · cases h₂
    subst same
    refine scan_congr ?_
    have ready := (scanCrlf_feed h₁ []).2.1
    have here : scanCrlf (feed s' y) = .inr (feed s' y) := by
      rw [scanCrlf, if_pos (by simp [feed, ready])]
    rw [turn, (scanCrlf_feed h₁ y).1, turn, here]
  · rw [ht] at h
    have same : s' = s₂ := by
      unfold dataTurn at h
      split at h
      · cases h
        rfl
      · cases h
      · cases h
    subst same
    exact scan_congr ((hfeed y).trans (turn_inData (s := feed s' y) ready pos).symm)

/-- All of a chunk's data is there: bytes behind it stay. -/
theorem scanData_feed {M : Nat} {s s' : ChunkScan} {beyond : Bool}
    (h : scanData M s = some (beyond, s')) (all : s.remaining ≤ s.buf.length) (y : Bytes) :
    scanData M (feed s y) = some (beyond, feed s' y) := by
  have take : min s.buf.length s.remaining = s.remaining := Nat.min_eq_right all
  have take' : min (s.buf ++ y).length s.remaining = s.remaining := by
    rw [List.length_append]
    omega
  simp only [scanData, take, Option.ite_none_left_eq_some, Option.some.injEq,
    Prod.mk.injEq] at h
  obtain ⟨some_data, rfl, rfl⟩ := h
  simp only [scanData, feed, take', if_neg some_data, List.drop_append_of_le_length all,
    List.take_append_of_le_length all]

/-- Some of a chunk's data is there: the rest is taken with what comes next. -/
theorem scanData_split {M : Nat} {s s' : ChunkScan} (h : scanData M s = some (false, s'))
    (ready : s.needCrlf = false) (part : s.buf.length < s.remaining) :
    s'.needCrlf = false ∧ 0 < s'.remaining ∧
      ∀ y, y ≠ [] → ∃ x, scanData M (feed s y) = some x ∧ scanData M (feed s' y) = some x := by
  have take : min s.buf.length s.remaining = s.buf.length := Nat.min_eq_left part.le
  simp only [scanData, take, Option.ite_none_left_eq_some, Option.some.injEq,
    Prod.mk.injEq] at h
  obtain ⟨some_data, -, rfl⟩ := h
  have left : s.remaining - s.buf.length ≠ 0 := by omega
  refine ⟨by simpa [left] using ready, Nat.pos_of_ne_zero left, fun y some_more => ?_⟩
  have length : 0 < y.length := List.length_pos_iff.mpr some_more
  have both : min (s.buf ++ y).length s.remaining =
      s.buf.length + min y.length (s.remaining - s.buf.length) := by
    rw [List.length_append]
    omega
  have more : min ([] ++ y).length (s.remaining - s.buf.length) =
      min y.length (s.remaining - s.buf.length) := rfl
  have some_both : s.buf.length + min y.length (s.remaining - s.buf.length) ≠ 0 := by omega
  have some_rest : min y.length (s.remaining - s.buf.length) ≠ 0 := by omega
  have dropped : (s.buf ++ y).drop (s.buf.length + min y.length (s.remaining - s.buf.length)) =
      y.drop (min y.length (s.remaining - s.buf.length)) := by
    rw [← List.drop_drop, List.drop_left]
  have decoded : (s.buf ++ y).take (s.buf.length + min y.length (s.remaining - s.buf.length)) =
      s.buf ++ y.take (min y.length (s.remaining - s.buf.length)) := List.take_length_add_append _
  simp only [scanData, feed, List.drop_length, List.take_length, List.nil_append, both,
    if_neg some_both, if_neg some_rest, if_neg left, dropped, decoded, ← Nat.add_assoc,
    Nat.sub_sub, List.append_assoc]
  exact ⟨_, rfl, rfl⟩

/-- A turn that goes on does so when bytes are added. -/
theorem scan_feed_turn {M : Nat} {s s' : ChunkScan} (h : turn M s = .inr s') (y : Bytes) :
    scan M (feed s y) = scan M (feed s' y) := by
  rcases turn_cases M s with ⟨stop, -, ht⟩ | ⟨s₁, stop, -, -, -, ht⟩ | ⟨s₂, ready, pos, ht, hfeed⟩
  · rw [h] at ht
    cases ht
  · rw [h] at ht
    cases ht
  · rw [ht] at h
    have taken : scanData M s₂ = some (false, s') := by
      unfold dataTurn at h
      split at h
      · cases h
      · cases h
      · rename_i here
        cases h
        exact here
    by_cases all : s₂.remaining ≤ s₂.buf.length
    · -- the rest of the chunk is there already
      have same := scanData_feed taken all y
      refine (scan_eq M _).trans ?_
      rw [hfeed y, dataTurn, same]
    · obtain ⟨ready', pos', same⟩ := scanData_split taken ready (not_le.mp all)
      by_cases none : y = []
      · have idle : ∀ x, feed x [] = x := fun x => by simp [feed]
        rw [none, idle, idle, scan_eq, ht, h]
      · refine scan_congr ?_
        obtain ⟨⟨beyond, x⟩, before, after⟩ := same y none
        rw [hfeed y, turn_inData (s := feed s' y) ready' pos', dataTurn, dataTurn, before, after]
        cases beyond <;> rfl

/-- The loop resumes where it stopped. -/
theorem scan_feed {M : Nat} {s s' : ChunkScan} (h : scan M s = (.more, s')) (y : Bytes) :
    scan M (feed s y) = scan M (feed s' y) := by
  induction hn : s.buf.length using Nat.strong_induction_on generalizing s with
  | _ n ih =>
      subst hn
      rw [scan_eq] at h
      cases ht : turn M s with
      | inl stop =>
          rw [ht] at h
          dsimp only at h
          subst h
          exact scan_feed_stop ht y
      | inr s₁ =>
          rw [ht] at h
          rw [scan_feed_turn ht y]
          exact ih _ (turn_length ht) h rfl

/-! ### Data decoded by earlier calls -/

/-- The state with data decoded before. -/
def prepend (o : Bytes) (s : ChunkScan) : ChunkScan := { s with out := o ++ s.out }

theorem scanCrlf_prepend (o : Bytes) (s : ChunkScan) :
    scanCrlf (prepend o s) = (scanCrlf s).map (Prod.map id (prepend o)) (prepend o) := by
  unfold scanCrlf prepend
  split
  · rfl
  split
  · rfl
  split
  · rfl
  · rfl

theorem scanSize_prepend (o : Bytes) (s : ChunkScan) :
    scanSize (prepend o s) = (scanSize s).map (Prod.map id (prepend o)) (prepend o) := by
  simp only [scanSize, prepend]
  split
  · rfl
  split
  · rfl
  · split
    · rfl
    · rfl
  · rfl

theorem scanData_prepend (M : Nat) (o : Bytes) (s : ChunkScan) :
    scanData M (prepend o s) = (scanData M s).map (Prod.map id (prepend o)) := by
  unfold scanData
  dsimp only
  by_cases none : min s.buf.length s.remaining = 0
  · rw [if_pos none, if_pos (show min (prepend o s).buf.length (prepend o s).remaining = 0 from none)]
    rfl
  · rw [if_neg none, if_neg (show min (prepend o s).buf.length (prepend o s).remaining ≠ 0 from none)]
    simp only [Option.map_some, Prod.map, prepend, id, List.append_assoc]
    rfl

theorem dataTurn_prepend (M : Nat) (o : Bytes) (s : ChunkScan) :
    dataTurn M (prepend o s) = (dataTurn M s).map (Prod.map id (prepend o)) (prepend o) := by
  rw [dataTurn, dataTurn, scanData_prepend]
  rcases scanData M s with _ | ⟨_ | _, s'⟩ <;> rfl

theorem turn_prepend (M : Nat) (o : Bytes) (s : ChunkScan) :
    turn M (prepend o s) = (turn M s).map (Prod.map id (prepend o)) (prepend o) := by
  rw [turn, turn, scanCrlf_prepend]
  cases scanCrlf s with
  | inl stop => rfl
  | inr s₁ =>
      dsimp only [Sum.map_inr]
      have size : (if (prepend o s₁).remaining = 0 then scanSize (prepend o s₁)
          else .inr (prepend o s₁)) =
          (if s₁.remaining = 0 then scanSize s₁ else .inr s₁).map
            (Prod.map id (prepend o)) (prepend o) := by
        by_cases zero : s₁.remaining = 0
        · rw [if_pos zero, if_pos (show (prepend o s₁).remaining = 0 from zero), scanSize_prepend]
        · rw [if_neg zero, if_neg (show (prepend o s₁).remaining ≠ 0 from zero)]
          rfl
      rw [size]
      cases (if s₁.remaining = 0 then scanSize s₁ else .inr s₁) with
      | inl stop => rfl
      | inr s₂ => exact dataTurn_prepend M o s₂

theorem scan_prepend (M : Nat) (o : Bytes) (s : ChunkScan) :
    scan M (prepend o s) = Prod.map id (prepend o) (scan M s) := by
  induction hn : s.buf.length using Nat.strong_induction_on generalizing s with
  | _ n ih =>
      subst hn
      rw [scan_eq, turn_prepend, scan_eq M s]
      cases ht : turn M s with
      | inl stop => rfl
      | inr s' => exact ih _ (turn_length ht) s' rfl

/-! ### Reads -/

/-- The body bytes emitted. -/
def emitted (trace : List Ev) : Bytes :=
  trace.flatMap fun
    | .emitBodyData _ _ payload => payload
    | _ => []

/-- How the reads of an upload ended, the body emitted and how far the stream was read. -/
structure Outcome where
  stop : ScanEnd
  body : Bytes
  position : Nat

/-- `emitStreamChunked` after each read, until it reaches an end; `fed` is the length of the
stream up to here. -/
def runReads (env : Env) : Reactor → Nat → List Bytes → Outcome
  | r, fed, [] => ⟨.more, emitted r.trace, fed - r.conn.buf.length⟩
  | r, fed, x :: xs =>
      let r' := (r.received x).emitStreamChunked env
      match (scanChunks r.conn.streamMaxBody ((r.received x).conn.buf.length + 1)
        (r.received x).chunkScan).1 with
      | .more => runReads env r' (fed + x.length) xs
      | stop => ⟨stop, emitted r'.trace, fed + x.length - r'.conn.buf.length⟩

/-- The same end, and of a body that is done the same bytes and the same place in the
stream. -/
def SameOutcome (a b : Outcome) : Prop :=
  a.stop = b.stop ∧ (a.stop = .done → a.body = b.body ∧ a.position = b.position)

/-- The decoder on a byte string in one piece. -/
abbrev scanAll (M : Nat) (P : Bytes) : ScanEnd × ChunkScan := scan M (atLine P 0 [])

/-- The connection after reads of `P` that left the upload waiting: `T` was emitted before
the upload. -/
structure Waits (M sink : Nat) (T P : Bytes) (r : Reactor) : Prop where
  cap : r.conn.streamMaxBody = M
  sink : r.conn.streamEmitter = some sink
  state : ∃ D, emitted r.trace = T ++ D ∧ scanAll M P = (.more, prepend D r.chunkScan)

section Runs

variable {env : Env} {r : Reactor} {M sink : Nat} {T P : Bytes}

theorem emitted_append (a b : List Ev) : emitted (a ++ b) = emitted a ++ emitted b :=
  List.flatMap_append

theorem emitted_emitDecoded {out : Bytes} (hs : r.conn.streamEmitter = some sink) :
    emitted (r.emitDecoded out).trace = emitted r.trace ++ out := by
  unfold Reactor.emitDecoded
  split
  · rename_i none
    rw [none, List.append_nil]
  · simp only [Reactor.emitStreamData, Reactor.emitTo, Reactor.log, hs, Option.elim_some,
      emitted_append]
    simp [emitted]

theorem emitDecoded_conn {out : Bytes} : (r.emitDecoded out).conn = r.conn := by
  unfold Reactor.emitDecoded
  split <;> rfl

theorem emitted_endStream : emitted r.endStream.trace = emitted r.trace := by
  unfold Reactor.endStream Reactor.emitTo Reactor.log Reactor.setConn
  cases r.conn.streamEmitter with
  | none => simp [emitted]
  | some k => simp [emitted]

theorem endStream_buf : r.endStream.conn.buf = r.conn.buf := rfl

/-- One read of a waiting upload: the decoder is where it would be after one piece. -/
theorem waits_read (h : Waits M sink T P r) (x : Bytes) :
    ∃ D, emitted r.trace = T ++ D ∧
      scanAll M (P ++ x) = Prod.map id (prepend D) (scan M (r.received x).chunkScan) := by
  obtain ⟨D, before, state⟩ := h.state
  refine ⟨D, before, ?_⟩
  have resumed := scan_feed state x
  have here : feed (prepend D r.chunkScan) x = prepend D (r.received x).chunkScan := rfl
  rw [here, scan_prepend] at resumed
  exact resumed

/-- The decoder's state after a read that is not over the cap. -/
theorem emitStreamChunked_more {s : ChunkScan} (hs : r.conn.streamEmitter = some sink)
    (h : scan r.conn.streamMaxBody r.chunkScan = (.more, s)) :
    (r.emitStreamChunked env).chunkScan = { s with out := [] } ∧
    emitted (r.emitStreamChunked env).trace = emitted r.trace ++ s.out ∧
    (r.emitStreamChunked env).conn.streamMaxBody = r.conn.streamMaxBody ∧
    (r.emitStreamChunked env).conn.streamEmitter = some sink := by
  have loop : scanChunks r.conn.streamMaxBody (r.conn.buf.length + 1) r.chunkScan = (.more, s) := h
  rw [Reactor.emitStreamChunked, loop]
  dsimp only
  refine ⟨?_, emitted_emitDecoded hs, ?_, ?_⟩
  · rw [Reactor.chunkScan, emitDecoded_conn]
    rfl
  · rw [emitDecoded_conn]
    rfl
  · rw [emitDecoded_conn]
    exact hs

theorem emitStreamChunked_done {s : ChunkScan} (hs : r.conn.streamEmitter = some sink)
    (h : scan r.conn.streamMaxBody r.chunkScan = (.done, s)) :
    emitted (r.emitStreamChunked env).trace = emitted r.trace ++ s.out ∧
    (r.emitStreamChunked env).conn.buf = s.buf := by
  have loop : scanChunks r.conn.streamMaxBody (r.conn.buf.length + 1) r.chunkScan = (.done, s) := h
  rw [Reactor.emitStreamChunked, loop]
  dsimp only
  constructor
  · rw [emitted_endStream]
    exact emitted_emitDecoded hs
  · rw [endStream_buf, emitDecoded_conn]
    rfl

/-- The prefix of the stream at which the reads end. -/
def endsAt (M : Nat) (P : Bytes) : List Bytes → Bytes
  | [] => P
  | x :: xs => if (scanAll M (P ++ x)).1 = .more then endsAt M (P ++ x) xs else P ++ x

/-- The outcome of one piece. -/
def outcomeOf (M : Nat) (T P : Bytes) : Outcome :=
  ⟨(scanAll M P).1, T ++ (scanAll M P).2.out, P.length - (scanAll M P).2.buf.length⟩

/-- The reads end as one piece of the bytes read till then would. -/
theorem runReads_eq (h : Waits M sink T P r) (xs : List Bytes) :
    SameOutcome (runReads env r P.length xs) (outcomeOf M T (endsAt M P xs)) := by
  induction xs generalizing r P with
  | nil =>
      obtain ⟨D, -, state⟩ := h.state
      rw [runReads, endsAt, outcomeOf, state]
      exact ⟨rfl, fun done => by cases done⟩
  | cons x xs ih =>
      obtain ⟨D, before, piece⟩ := waits_read h x
      have cap : r.conn.streamMaxBody = M := h.cap
      have loop : scanChunks r.conn.streamMaxBody ((r.received x).conn.buf.length + 1)
          (r.received x).chunkScan = scan M (r.received x).chunkScan := by rw [cap]; rfl
      have sinks : (r.received x).conn.streamEmitter = some sink := h.sink
      rw [runReads, endsAt, loop]
      cases hs : scan M (r.received x).chunkScan with
      | mk stop s =>
          rw [hs] at piece
          have stop_eq : (scanAll M (P ++ x)).1 = stop := by rw [piece]; rfl
          rw [stop_eq]
          have hs' : scan (r.received x).conn.streamMaxBody (r.received x).chunkScan = (stop, s) := by
            rw [← hs, ← cap]
            rfl
          cases stop with
          | more =>
              obtain ⟨state, more, cap', sink'⟩ := emitStreamChunked_more sinks hs'
              rw [if_pos rfl, ← List.length_append]
              refine ih ⟨cap'.trans cap, sink', D ++ s.out, ?_, ?_⟩
              · rw [more, ← List.append_assoc, ← before]
                rfl
              · rw [piece, state]
                simp [prepend]
          | done =>
              obtain ⟨body, left⟩ := emitStreamChunked_done sinks hs'
              rw [if_neg (by simp), outcomeOf, piece]
              refine ⟨rfl, fun _ => ⟨?_, ?_⟩⟩
              · change emitted ((r.received x).emitStreamChunked env).trace = _
                rw [body]
                change emitted r.trace ++ s.out = T ++ (D ++ s.out)
                rw [before, List.append_assoc]
              · change P.length + x.length - ((r.received x).emitStreamChunked env).conn.buf.length = _
                rw [left, List.length_append]
                rfl
          | malformed | tooLarge =>
              rw [if_neg (by simp), outcomeOf, piece]
              exact ⟨rfl, fun done => by cases done⟩

end Runs

/-! ### Two ways of cutting a stream -/

/-- Some read stops in a line that is too long by then. -/
def Trips (M : Nat) (xs : List Bytes) : Prop :=
  ∃ k, Reads M 0 (xs.take k).flatten .tripped

section Cuts

variable {M : Nat} {P : Bytes} {xs : List Bytes}

theorem stop_of_reads {v : Verdict} (h : Reads M 0 P v) : (scanAll M P).1 = v.stop :=
  (reads_scan h (Nat.zero_le M)).1

/-- A read that trips is the end of the upload. -/
theorem endsAt_tripped (waiting : (scanAll M P).1 = .more)
    (h : ∃ k, Reads M 0 (P ++ (xs.take k).flatten) .tripped) :
    (scanAll M (endsAt M P xs)).1 = .malformed := by
  have here : ¬ Reads M 0 P .tripped := by
    intro trip
    rw [stop_of_reads trip] at waiting
    cases waiting
  induction xs generalizing P with
  | nil =>
      obtain ⟨k, trip⟩ := h
      simp only [List.take_nil, List.flatten_nil, List.append_nil] at trip
      exact absurd trip here
  | cons x xs ih =>
      obtain ⟨k, trip⟩ := h
      cases k with
      | zero =>
          simp only [List.take_zero, List.flatten_nil, List.append_nil] at trip
          exact absurd trip here
      | succ k =>
          rw [List.take_succ_cons, List.flatten_cons, ← List.append_assoc] at trip
          rw [endsAt]
          split
          · rename_i more
            refine ih more ⟨k, trip⟩ fun now => ?_
            rw [stop_of_reads now] at more
            cases more
          · rename_i beyond
            obtain ⟨v, hv⟩ := reads_total M 0 (P ++ x)
            rw [stop_of_reads hv] at beyond ⊢
            cases v with
            | waiting => exact absurd rfl beyond
            | tripped | corrupt => rfl
            | beyond | whole _ _ _ =>
                -- that verdict would stay, but the longer prefix trips
                have stays := stop_of_reads (reads_append hv (xs.take k).flatten trivial)
                rw [stop_of_reads trip] at stays
                cases stays

/-- Without such a read the upload ends as the whole stream does. -/
theorem endsAt_clean {T : Bytes} (clean : ∀ k, ¬ Reads M 0 (P ++ (xs.take k).flatten) .tripped) :
    SameOutcome (outcomeOf M T (endsAt M P xs)) (outcomeOf M T (P ++ xs.flatten)) := by
  induction xs generalizing P with
  | nil =>
      rw [endsAt, List.flatten_nil, List.append_nil]
      exact ⟨rfl, fun _ => ⟨rfl, rfl⟩⟩
  | cons x xs ih =>
      have later : ∀ k, ¬ Reads M 0 (P ++ x ++ (xs.take k).flatten) .tripped := by
        intro k trip
        refine clean (k + 1) ?_
        rwa [List.take_succ_cons, List.flatten_cons, ← List.append_assoc]
      rw [endsAt, List.flatten_cons, ← List.append_assoc]
      split
      · exact ih later
      · rename_i beyond
        obtain ⟨v, hv⟩ := reads_total M 0 (P ++ x)
        have now : ¬ Reads M 0 (P ++ x) .tripped := by
          have := later 0
          rwa [List.take_zero, List.flatten_nil, List.append_nil] at this
        have settled : v.final := by
          cases v with
          | waiting =>
              rw [stop_of_reads hv] at beyond
              exact absurd rfl beyond
          | tripped => exact absurd hv now
          | corrupt | beyond | whole _ _ _ => trivial
        have whole := reads_append hv xs.flatten settled
        have stops : (scanAll M (P ++ x)).1 = (scanAll M (P ++ x ++ xs.flatten)).1 := by
          rw [stop_of_reads hv, stop_of_reads whole]
          cases v <;> rfl
        refine ⟨stops, fun done => ?_⟩
        cases v with
        | whole data m rest =>
            have part : Agrees [] _ (scanAll M (P ++ x)) := reads_scan hv (Nat.zero_le M)
            have all : Agrees [] _ (scanAll M (P ++ x ++ xs.flatten)) :=
              reads_scan whole (Nat.zero_le M)
            obtain ⟨out, left⟩ := part.2 data m rest rfl
            obtain ⟨out', left'⟩ := all.2 data m (rest ++ xs.flatten) rfl
            refine ⟨?_, ?_⟩
            · simp only [outcomeOf, out, out']
            · simp only [outcomeOf, left, left', List.length_append]
              omega
        | waiting | tripped | corrupt | beyond =>
            change (scanAll M (P ++ x)).1 = .done at done
            rw [stop_of_reads hv] at done
            cases done

end Cuts

theorem SameOutcome.symm {a b : Outcome} (h : SameOutcome a b) : SameOutcome b a :=
  ⟨h.1.symm, fun done =>
    ⟨((h.2 (h.1.trans done)).1).symm, ((h.2 (h.1.trans done)).2).symm⟩⟩

theorem SameOutcome.trans {a b c : Outcome} (h : SameOutcome a b) (h' : SameOutcome b c) :
    SameOutcome a c :=
  ⟨h.1.trans h'.1, fun done =>
    ⟨((h.2 done).1).trans (h'.2 (h.1 ▸ done)).1, ((h.2 done).2).trans (h'.2 (h.1 ▸ done)).2⟩⟩

/-- What the reads of an upload come to. -/
theorem runReads_cases {env : Env} {r : Reactor} {M sink : Nat} {xs : List Bytes}
    (fresh : FreshUpload r [] M sink) :
    (Trips M xs → (runReads env r 0 xs).stop = .malformed) ∧
    (¬ Trips M xs → SameOutcome (runReads env r 0 xs)
      (outcomeOf M (emitted r.trace) xs.flatten)) := by
  have waits : Waits M sink (emitted r.trace) [] r := by
    refine ⟨fresh.cap, fresh.sink, [], (List.append_nil _).symm, ?_⟩
    rw [Reactor.chunkScan, fresh.buf, fresh.remaining, fresh.needCrlf, fresh.total]
    rfl
  have run : SameOutcome (runReads env r 0 xs) _ := runReads_eq waits xs
  constructor
  · rintro ⟨k, trip⟩
    refine run.1.trans ?_
    exact endsAt_tripped rfl ⟨k, trip⟩
  · intro clean
    exact run.trans (endsAt_clean fun k trip => clean ⟨k, trip⟩)

theorem trips_of_whole {M : Nat} {xs : List Bytes} (h : Reads M 0 xs.flatten .tripped) :
    Trips M xs := ⟨xs.length, by rwa [List.take_length]⟩

/-- Two ways of cutting a stream into reads end alike if and only if the stream is corrupt
or both or neither of them have a read that stops in a line too long by then. -/
theorem segments_agree_iff (env : Env) {r : Reactor} {M sink : Nat}
    (fresh : FreshUpload r [] M sink) {S : Bytes} {xs ys : List Bytes} (hx : xs.flatten = S)
    (hy : ys.flatten = S) :
    SameOutcome (runReads env r 0 xs) (runReads env r 0 ys) ↔
      Reads M 0 S .corrupt ∨ (Trips M xs ↔ Trips M ys) := by
  obtain ⟨tripX, cleanX⟩ := runReads_cases fresh
  obtain ⟨tripY, cleanY⟩ := runReads_cases fresh
  rw [hx] at cleanX
  rw [hy] at cleanY
  have corrupt : Reads M 0 S .corrupt → (outcomeOf M (emitted r.trace) S).stop = .malformed :=
    fun h => stop_of_reads h
  -- a stream that is refused in one piece, and not for a long line at its end, is corrupt
  have refused : ¬ Reads M 0 S .tripped →
      (outcomeOf M (emitted r.trace) S).stop = .malformed → Reads M 0 S .corrupt := by
    intro whole stop
    obtain ⟨v, hv⟩ := reads_total M 0 S
    have stop' : (scanAll M S).1 = .malformed := stop
    rw [stop_of_reads hv] at stop'
    cases v with
    | corrupt => exact hv
    | tripped => exact absurd hv whole
    | waiting | beyond | whole _ _ _ => cases stop'
  have alike : ∀ {a b : Outcome}, a.stop = .malformed → b.stop = .malformed → SameOutcome a b := by
    intro a b ha hb
    refine ⟨ha.trans hb.symm, fun done => ?_⟩
    rw [ha] at done
    cases done
  by_cases tx : Trips M xs
  · by_cases ty : Trips M ys
    · exact iff_of_true (alike (tripX tx) (tripY ty)) (.inr ⟨fun _ => ty, fun _ => tx⟩)
    · have whole : ¬ Reads M 0 S .tripped := fun h => ty (trips_of_whole (hy ▸ h))
      constructor
      · intro same
        exact .inl (refused whole ((cleanY ty).1.symm.trans (same.1.symm.trans (tripX tx))))
      · rintro (bad | both)
        · exact alike (tripX tx) ((cleanY ty).1.trans (corrupt bad))
        · exact absurd (both.mp tx) ty
  · by_cases ty : Trips M ys
    · have whole : ¬ Reads M 0 S .tripped := fun h => tx (trips_of_whole (hx ▸ h))
      constructor
      · intro same
        exact .inl (refused whole ((cleanX tx).1.symm.trans (same.1.trans (tripY ty))))
      · rintro (bad | both)
        · exact alike ((cleanX tx).1.trans (corrupt bad)) (tripY ty)
        · exact absurd (both.mpr ty) tx
    · exact iff_of_true ((cleanX tx).trans (cleanY ty).symm)
        (.inr ⟨fun h => absurd h tx, fun h => absurd h ty⟩)

/-! A short stream has no such line. -/

theorem trailers_tripped {k n : Nat} {p : Bytes} {v : Verdict} (h : Trailers k n p v)
    (hv : v = .tripped) : kMaxTrailerBytes < n + p.length := by
  induction h with
  | unfinished | blank | tooMany => cases hv
  | endless _ long => exact long
  | line _ _ _ _ ih =>
      have := ih hv
      have two : crlf.length = 2 := rfl
      simp only [List.length_append]
      omega

theorem reads_tripped {M t : Nat} {p : Bytes} {v : Verdict} (h : Reads M t p v)
    (hv : v = .tripped) : kMaxTrailerBytes < p.length := by
  induction h with
  | unfinished | badSize | beyond | short | badEnd => cases hv
  | endless _ long => exact long
  | last _ _ trailers =>
      have := trailers_tripped trailers hv
      simp only [List.length_append]
      omega
  | @chunk t line data more v _ _ _ _ _ ih =>
      have inner : v = .tripped := by
        cases v with
        | tripped => rfl
        | waiting | corrupt | beyond | whole _ _ _ => cases hv
      have := ih inner
      simp only [List.length_append]
      omega

theorem not_trips_of_length {M : Nat} {xs : List Bytes} (h : xs.flatten.length ≤ kMaxTrailerBytes) :
    ¬ Trips M xs := by
  rintro ⟨k, trip⟩
  have long := reads_tripped trip rfl
  have split : xs.flatten = (xs.take k).flatten ++ (xs.drop k).flatten := by
    rw [← List.flatten_append, List.take_append_drop]
  rw [split, List.length_append] at h
  omega

theorem segments_agree_wiki :
    FreshUpload (uploading [] 4) [] 4 0 ∧
    SameOutcome (runReads plainEnv (uploading [] 4) 0 [wiki])
      (runReads plainEnv (uploading [] 4) 0 [wiki.take 8, wiki.drop 8]) := by
  have fresh := uploading_fresh [] 4
  refine ⟨fresh, (segments_agree_iff plainEnv fresh (S := wiki) (by simp) (by simp)).mpr (.inr ?_)⟩
  exact iff_of_false (not_trips_of_length (by decide)) (not_trips_of_length (by decide))

/-- A terminal size line with an extension of `n` bytes. -/
def extendedLine (n : Nat) : Bytes := 48 :: 59 :: List.replicate n 97

theorem noCrlf_extendedLine (n : Nat) : NoCrlf (extendedLine n) := by
  have rest : findSub crlf (List.replicate n 97) = none := noCrlf_replicate n
  simp [NoCrlf, extendedLine, findSub, crlf, List.cons_prefix_cons] at rest ⊢
  exact rest

theorem uvChunkSize_extendedLine (n : Nat) : uvChunkSize (extendedLine n) = some 0 := by
  have text : (59 :: List.replicate n (97 : UInt8)).all (fun b => 0x20 ≤ b) = true := by
    simp [List.all_replicate]
  have digits : chunkDigits (extendedLine n) 0 0 = (0, 1, 59 :: List.replicate n 97) := by
    simp [extendedLine, chunkDigits, hexDigit]
  simp only [uvChunkSize, digits, text]
  rfl

theorem extendedLine_disagrees {n : Nat} (long : kMaxTrailerBytes < n + 2) :
    ¬ SameOutcome
      (runReads plainEnv (uploading [] 0) 0 [extendedLine n ++ crlf ++ (crlf ++ [])])
      (runReads plainEnv (uploading [] 0) 0 [extendedLine n, crlf ++ (crlf ++ [])]) := by
  have whole : Reads 0 0 (extendedLine n ++ crlf ++ (crlf ++ [])) (.whole [] 0 []) :=
    .last (noCrlf_extendedLine n) (uvChunkSize_extendedLine n) .blank
  have endless : Reads 0 0 (extendedLine n) .tripped := by
    refine .endless (noCrlf_extendedLine n) ?_
    simp only [extendedLine, List.length_cons, List.length_replicate]
    omega
  have cut : Trips 0 [extendedLine n, crlf ++ (crlf ++ [])] := ⟨1, by simpa using endless⟩
  have one : ¬ Trips 0 [extendedLine n ++ crlf ++ (crlf ++ [])] := by
    rintro ⟨k, trip⟩
    cases k with
    | zero =>
        have := reads_tripped trip rfl
        simp at this
    | succ k =>
        simp only [List.take_succ_cons, List.take_nil, List.flatten_cons, List.flatten_nil,
          List.append_nil] at trip
        have stop := stop_of_reads trip
        simp only [List.append_nil] at whole
        rw [stop_of_reads whole] at stop
        cases stop
  intro same
  have ends : (runReads plainEnv _ 0 _).stop = _ := ((runReads_cases (uploading_fresh [] 0)).2 one).1
  have refused : (runReads plainEnv _ 0 _).stop = _ := (runReads_cases (uploading_fresh [] 0)).1 cut
  rw [same.1, refused] at ends
  simp only [List.flatten_cons, List.flatten_nil, List.append_nil] at ends
  simp only [List.append_nil] at whole
  have done : (scanAll 0 (extendedLine n ++ crlf ++ crlf)).1 = .malformed := ends.symm
  rw [stop_of_reads whole] at done
  cases done

/-- A size line of 8193 bytes, with and without a cut before its line end. -/
theorem line_8193_disagrees :
    [extendedLine 8191 ++ crlf ++ (crlf ++ [])].flatten =
      [extendedLine 8191, crlf ++ (crlf ++ [])].flatten ∧
    ¬ SameOutcome
      (runReads plainEnv (uploading [] 0) 0 [extendedLine 8191 ++ crlf ++ (crlf ++ [])])
      (runReads plainEnv (uploading [] 0) 0 [extendedLine 8191, crlf ++ (crlf ++ [])]) :=
  ⟨by simp only [List.flatten_cons, List.flatten_nil, List.append_assoc],
    extendedLine_disagrees (by decide)⟩

end NitroServer.Chunked
