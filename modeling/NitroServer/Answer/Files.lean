/-
The range of a file answer.

`respondFile` computes the end of the range in `int64_t` and serves it with two readers: over
HTTP/1.1 a loop that takes whatever a read returns, over HTTP/2 one read into a buffer whose
size is an `unsigned`. `interval` is the range in exact arithmetic.

* `serves_paced` — the loop of HTTP/1.1 sends the same octets, however the reads cut them.
* `filePart_interval` — the computed range is the exact one as long as its end is an `int64_t`.
* `file_ranges_iff` — over HTTP/1.1 exactly then is the interval announced and sent; over HTTP/2
  it has, besides, to come in one read and to be shorter than 2 GiB.
-/

import NitroServer.Answer.Paths
import NitroServer.Lane.Wakeup
import NitroServer.InFlight.Tables

namespace NitroServer.Answer

open NitroServer.Engine NitroServer.Lib

/-! ### Reads of any size -/

/-- The steps of a run that concern the answer of one request; a read returns some of what the
file has there. -/
def paced (content : Bytes) (id : Nat) (r : Reactor) : Act → Bool
  | .written ok got =>
      ok && r.conn.writes.head?.all (fun w => !w.finish) &&
        r.conn.file.all fun f => decide (got ≠ []) && got.isPrefixOf (content.drop f.offset)
  | a => steady content id r a

section Paced

variable {env : Env} {content : Bytes} {id : Nat} {base : List (Bytes × Bool)} {r r' : Reactor}

theorem paced_cases {a : Act} (quiet : paced content id r a = true) :
    (∃ ok got, a = .written ok got) ∨ steady content id r a = true := by
  cases a with
  | written ok got => exact .inl ⟨ok, got, rfl⟩
  | _ => exact .inr quiet

/-- A landing, whatever its read returns. -/
theorem paced_written {ok : Bool} {got : Bytes} (quiet : paced content id r (.written ok got) = true)
    (step : Engine.step env r (.written ok got) = some r') :
    ∃ w rest, r.conn.writes = w :: rest ∧ w.finish = false ∧ r' = r.onWrite env w rest true got ∧
      ∀ f, r.conn.file = some f → got <+: content.drop f.offset ∧ got ≠ [] := by
  simp only [Engine.step] at step
  split at step
  · cases step
  · rename_i w rest writes
    split at step
    · cases step
    · obtain rfl := Option.some.inj step
      simp only [paced, writes, List.head?_cons, Option.all_some, Bool.and_eq_true,
        Bool.not_eq_true'] at quiet
      obtain ⟨⟨rfl, noEnd⟩, read⟩ := quiet
      refine ⟨w, rest, writes, noEnd, rfl, fun f file => ?_⟩
      rw [file, Option.all_some, Bool.and_eq_true, decide_eq_true_iff, List.isPrefixOf_iff_prefix]
        at read
      exact ⟨read.2, read.1⟩

/-- A connection that closes stays so. -/
theorem closing_paced {a : Act} (quiet : paced content id r a = true)
    (step : Engine.step env r a = some r') (shut : r.conn.closing = true) :
    r'.conn.closing = true := by
  rcases paced_cases quiet with ⟨ok, got, rfl⟩ | same
  · obtain ⟨w, rest, -, noEnd, rfl, -⟩ := paced_written quiet step
    rw [onWrite_noEnd noEnd]
    split
    · rename_i next
      obtain ⟨f, file⟩ := Option.isSome_iff_exists.mp next.1
      have shut' : (r.writeDone w rest).conn.closing = true := shut
      rw [Reactor.continueFileSend, file]
      simp only [shut', if_true]
    · exact shut
  · exact closing_step same step shut

/-- One step of an answer to which nothing is added. -/
theorem serves_paced {a : Act} (h : Serves content id base false r)
    (quiet : paced content id r a = true) (step : Engine.step env r a = some r')
    (open_ : r'.conn.closing = false) :
    Serves content id base false r' ∧ total content r' = total content r := by
  rcases paced_cases quiet with ⟨ok, got, rfl⟩ | same
  · have before : r.conn.closing = false := by
      cases shut : r.conn.closing with
      | false => rfl
      | true => exact absurd ((closing_paced quiet step shut).symm.trans open_) (by decide)
    obtain ⟨w, rest, -, noEnd, rfl, reads⟩ := paced_written quiet step
    exact serves_onWrite h noEnd reads open_ before
  · have served := serves_step h same step open_
    rwa [Bool.false_and, if_neg Bool.false_ne_true, List.append_nil] at served

/-- A whole run. -/
theorem serves_paced_run {t : Reactor} (h : Serves content id base false r)
    (run : Reaches (stepOf (Engine.step env)) (fun r a => paced content id r a = true) r t)
    (open_ : t.conn.closing = false) :
    Serves content id base false t ∧ total content t = total content r := by
  have kept := run.invariant
    (I := fun t => t.conn.closing = false → Serves content id base false t ∧
      total content t = total content r)
    (fun _ => ⟨h, rfl⟩)
    (by
      intro t a u served quiet step still
      have before : t.conn.closing = false := by
        cases shut : t.conn.closing with
        | false => rfl
        | true => exact absurd ((closing_paced quiet step shut).symm.trans still) (by decide)
      obtain ⟨now, same⟩ := served before
      obtain ⟨next, same'⟩ := serves_paced now quiet step still
      exact ⟨next, same'.trans same⟩)
  exact kept open_

end Paced

/-! ### The range -/

/-- The end of the interval, in exact arithmetic. -/
def intervalEnd (size : Nat) (offset length : Int) : Nat :=
  if length < 0 then size else min size (max 0 offset + length).toNat

/-- The octets of the interval. -/
def interval (content : Bytes) (offset length : Int) : Bytes :=
  (content.take (intervalEnd content.length offset length)).drop offset.toNat

/-- The end is an `int64_t`, or does not matter. -/
def EndFits (size : Nat) (offset length : Int) : Prop :=
  length < 0 ∨ max 0 offset + length < 2 ^ 63 ∨ (size : Int) ≤ offset

section Range

variable {content : Bytes} {offset length : Int}

theorem interval_length : (interval content offset length).length =
    intervalEnd content.length offset length - offset.toNat := by
  have within : intervalEnd content.length offset length ≤ content.length := by
    rw [intervalEnd]
    split
    · exact le_rfl
    · exact Nat.min_le_left _ _
  rw [interval, List.length_drop, List.length_take, Nat.min_eq_left within]

theorem interval_eq : interval content offset length =
    (content.drop offset.toNat).take
      (intervalEnd content.length offset length - offset.toNat) :=
  List.drop_take ..

variable (size64 : content.length < 2 ^ 63) (offset64 : offset < 2 ^ 63)
  (length64 : length < 2 ^ 63)

include size64 offset64 length64

/-- Where the end fits, the computed length is exact; elsewhere the sum has wrapped below zero,
and the range is empty though the interval is not. -/
theorem rangeLength_interval :
    (EndFits content.length offset length →
      Reactor.rangeLength content.length offset.toNat length =
        (interval content offset length).length) ∧
    (¬ EndFits content.length offset length →
      Reactor.rangeLength content.length offset.toNat length = 0 ∧
        (interval content offset length).length ≠ 0) := by
  have start : (offset.toNat : Int) = max 0 offset := by omega
  rw [interval_length, intervalEnd, Reactor.rangeLength, EndFits, start]
  by_cases open_ : length < 0
  · rw [if_pos open_, if_pos open_]
    refine ⟨fun _ => by omega, fun wraps => absurd (Or.inl open_) wraps⟩
  · rw [if_neg open_, if_neg open_]
    by_cases fits : max 0 offset + length < 2 ^ 63
    · have exact_ : (max 0 offset + length).bmod (2 ^ 64) = max 0 offset + length :=
        Int.bmod_eq_of_le (by omega) (by omega)
      rw [exact_]
      refine ⟨fun _ => by omega, fun wraps => absurd (Or.inr (Or.inl fits)) wraps⟩
    · have wrapped : (max 0 offset + length).bmod (2 ^ 64) = max 0 offset + length - 2 ^ 64 := by
        rw [Int.bmod_def]
        omega
      rw [wrapped]
      refine ⟨fun ends => ?_, fun wraps => ?_⟩
      · rcases ends with below | small | past
        · exact absurd below open_
        · exact absurd small fits
        · omega
      · have inside : ¬ (content.length : Int) ≤ offset := fun past => wraps (Or.inr (Or.inr past))
        omega

theorem filePart_interval (fits : EndFits content.length offset length) :
    filePart content offset length = interval content offset length := by
  have exact_ := (rangeLength_interval size64 offset64 length64).1 fits
  rw [interval_length] at exact_
  rw [filePart, exact_, interval_eq]

end Range

/-! ### Both protocols -/

/-- Over HTTP/1.1, whatever the status, the headers and the run: the head announces the length of
the interval, and the interval is behind it, unless the request was HEAD; all of it is written or
owed, and in the end it is written. -/
def ServesInterval (env : Env) (r : Reactor) (id : Nat) (loc : ReqLoc) (content : Bytes)
    (offset length : Int) : Prop :=
  ∀ status headers t,
    Reaches (stepOf (step env)) (fun r a => paced content id r a = true)
      (r.respondFile env id status headers (some content.length) offset length) t →
    t.conn.closing = false →
    total content t = total content r ++
      (uvBuildHead (r.date env) status headers (interval content offset length).length loc.keepAlive
        env.cfg.keepAliveHeaderSecs ++ if loc.isHead then [] else interval content offset length) ∧
      (Settled t → total content t = bytesOf (wrote t))

/-- Over HTTP/2: the interval is the body on its way to `respond`. -/
def HandsInterval (h : InFlight.UvReactor) (id : Nat) (loc : InFlight.ReqLoc) (content : Bytes)
    (offset length : Int) (got : Nat) : Prop :=
  ∀ status headers, h.respondFile id status headers (some content) offset length got =
    h.start (.filing id status headers
      (if loc.isHead then [] else interval content offset length))

/-- One read returns it all, and an `int` counts it. -/
def ReadFits (n got : Nat) : Prop := n < 2 ^ 31 ∧ n ≤ got

theorem head_announces {date : Bytes} {ka : Bool} {secs : Option Nat} {n : Nat} {rest : Bytes}
    (same : uvBuildHead date 200 [] 0 ka secs = uvBuildHead date 200 [] n ka secs ++ rest)
    (all : rest = [] ∨ rest.length = n) : n = 0 := by
  have shape : ∀ m, uvBuildHead date 200 [] m ka secs =
      (statusLine 200 ++ date ++ callerFields [] ++ ascii "Content-Length: ") ++
        (decimal m ++ (crlf ++ connectionFields ka secs)) := by
    intro m
    rw [uvBuildHead, if_neg (by decide)]
    simp only [List.append_assoc]
  rw [shape, shape] at same
  have numbers := List.append_cancel_left (same.trans (List.append_assoc ..))
  rcases all with rfl | all
  · rw [List.append_nil] at numbers
    have digits := List.append_cancel_right numbers
    rw [decimal_eq, decimal_eq] at digits
    have read := congrArg (HttpReader.readNumber 10) digits
    rw [HttpReader.readNumber_number (by omega) (by omega),
      HttpReader.readNumber_number (by omega) (by omega)] at read
    exact (Option.some.inj read).symm
  · have sizes := congrArg List.length numbers
    simp only [List.length_append] at sizes
    have one : (decimal 0).length = 1 := by decide
    have some_ : (decimal n).length ≠ 0 := by
      rw [decimal_eq]
      exact fun none_ => HttpReader.number_ne_nil (by omega) n (List.length_eq_zero_iff.mp none_)
    omega

section Both

variable {content : Bytes} {offset length : Int} (size64 : content.length < 2 ^ 63)
  (offset64 : offset < 2 ^ 63) (length64 : length < 2 ^ 63)

include size64 offset64 length64

theorem servesInterval_iff {env : Env} {r₀ r : Reactor} (fresh : Fresh r₀)
    (run : Reaches (stepOf (step env)) anyStep r₀ r) {id : Nat} {loc : ReqLoc}
    (running : r.running = true) (found : r.findReq id = some loc) (own : loc.connId = r.conn.id)
    (open_ : r.conn.closing = false) (inside : offset.toNat ≤ content.length) :
    ServesInterval env r id loc content offset length ↔ EndFits content.length offset length := by
  have put := fun status headers =>
    serves_respondFile fresh run running found own length inside status headers
  constructor
  · intro serves
    by_contra wraps
    obtain ⟨none_, some_⟩ := (rangeLength_interval size64 offset64 length64).2 wraps
    have still : (r.respondFile env id 200 [] (some content.length) offset length).conn.closing =
        false := by rw [Reactor.respondFile_conn, open_]
    have claimed := (serves 200 [] _ .refl still).1
    have nothing : filePart content offset length = [] := by
      rw [← List.length_eq_zero_iff, filePart_length, none_]
    rw [(put 200 []).2, none_, nothing, ite_self, List.append_nil] at claimed
    refine some_ (head_announces (List.append_cancel_left claimed) ?_)
    cases loc.isHead with
    | true => exact Or.inl rfl
    | false => exact Or.inr rfl
  · intro fits status headers t paced_ open_
    obtain ⟨served, moved⟩ := put status headers
    obtain ⟨-, ended⟩ := serves_paced_run served paced_ open_
    rw [moved, (rangeLength_interval size64 offset64 length64).1 fits,
      filePart_interval size64 offset64 length64 fits] at ended
    refine ⟨ended, fun settled => ?_⟩
    rw [total, owed_settled settled, List.append_nil]

omit size64 offset64 length64 in
/-- One read gives the range, or nothing. -/
theorem readOnce_iff {file : Bytes} {o n got : Nat} (inside : n ≤ file.length - o) (some_ : n ≠ 0) :
    InFlight.UvReactor.readOnce file o n got = (file.drop o).take n ↔ ReadFits n got := by
  have full : (file.drop o).take n ≠ [] := by
    intro nil
    have len := congrArg List.length nil
    rw [List.length_take, List.length_drop, List.length_nil] at len
    omega
  unfold InFlight.UvReactor.readOnce ReadFits
  by_cases small : n < 2 ^ 31
  · have size : n % 2 ^ 32 = n := Nat.mod_eq_of_lt (by omega)
    have count : ((min got n : Nat) : Int).bmod (2 ^ 32) = (min got n : Nat) :=
      Int.bmod_eq_of_le (by omega) (by omega)
    rw [size, count]
    by_cases all : n ≤ got
    · rw [if_pos (by omega)]
      exact ⟨fun _ => ⟨small, all⟩, fun _ => rfl⟩
    · rw [if_neg (by omega)]
      exact ⟨fun nil => absurd nil.symm full, fun fits => absurd fits.2 all⟩
  · have short : ((min got (n % 2 ^ 32) : Nat) : Int).bmod (2 ^ 32) < 2 ^ 31 :=
      Int.bmod_lt (by omega)
    rw [if_neg (by omega)]
    exact ⟨fun nil => absurd nil.symm full, fun fits => absurd fits.1 small⟩

theorem handsInterval_iff {h : InFlight.UvReactor} {id : Nat} {loc : InFlight.ReqLoc}
    (running : h.running = true) (found : h.reqLoc.find id = some loc) (isH2 : loc.isH2 = true)
    (inside : offset.toNat ≤ content.length) (got : Nat) :
    HandsInterval h id loc content offset length got ↔
      loc.isHead = true ∨
        EndFits content.length offset length ∧
          ReadFits (interval content offset length).length got := by
  have notPast : ¬ content.length < offset.toNat := not_lt.mpr inside
  let n := Reactor.rangeLength content.length offset.toNat length
  have within : n ≤ content.length - offset.toNat := rangeLength_le ..
  let body := if loc.isHead ∨ n = 0 then [] else
    InFlight.UvReactor.readOnce content offset.toNat n got
  have call : ∀ status headers,
      h.respondFile id status headers (some content) offset length got =
        h.start (.filing id status headers body) := by
    intro status headers
    simp only [InFlight.UvReactor.respondFile, running, not_true_eq_false, if_false, notPast, found]
    rw [if_pos (Or.inr (Or.inr isH2))]
  have hands : HandsInterval h id loc content offset length got ↔
      body = if loc.isHead then [] else interval content offset length := by
    constructor
    · intro same
      have calls := congrArg InFlight.UvReactor.calls ((call 200 []).symm.trans (same 200 []))
      have last := List.append_cancel_left calls
      exact (InFlight.Call.filing.inj (List.cons.inj last).1).2.2.2
    · intro same status headers
      rw [call, same]
  rw [hands]
  cases isHead : loc.isHead with
  | true =>
      have none_ : body = [] := if_pos (Or.inl isHead)
      rw [none_, if_pos rfl]
      exact ⟨fun _ => Or.inl rfl, fun _ => rfl⟩
  | false =>
      rw [if_neg Bool.false_ne_true]
      have whole : body = if n = 0 then [] else
          InFlight.UvReactor.readOnce content offset.toNat n got := by
        show (if loc.isHead ∨ n = 0 then [] else _) = _
        rw [isHead]
        congr 1
        exact propext ⟨fun either => either.resolve_left Bool.false_ne_true, Or.inr⟩
      rw [whole]
      by_cases fits : EndFits content.length offset length
      · have exact_ : n = (interval content offset length).length :=
          (rangeLength_interval size64 offset64 length64).1 fits
        have part : interval content offset length = (content.drop offset.toNat).take n := by
          rw [exact_, interval_length, interval_eq]
        by_cases none_ : n = 0
        · rw [if_pos none_]
          refine ⟨fun _ => Or.inr ⟨fits, ?_⟩, fun _ => ?_⟩
          · rw [← exact_, none_]
            exact ⟨by omega, Nat.zero_le got⟩
          · exact (List.length_eq_zero_iff.mp (exact_.symm.trans none_)).symm
        · rw [if_neg none_, ← exact_, part, readOnce_iff within none_]
          exact ⟨fun read => Or.inr ⟨fits, read⟩,
            fun either => (either.resolve_left Bool.false_ne_true).2⟩
      · obtain ⟨none_, some_⟩ := (rangeLength_interval size64 offset64 length64).2 fits
        rw [if_pos none_]
        refine ⟨fun nil => absurd (congrArg List.length nil.symm) some_, fun either => ?_⟩
        exact absurd (either.resolve_left Bool.false_ne_true).1 fits

/-- Past the end of the file the answer is a 404. Elsewhere the interval is announced and sent
over HTTP/1.1 exactly when its end is an `int64_t`, and over HTTP/2 exactly when, besides, one
read returns it and an `int` counts it. -/
theorem file_ranges_iff {env : Env} {r₀ r : Reactor} (fresh : Fresh r₀)
    (run : Reaches (stepOf (step env)) anyStep r₀ r) {id : Nat} {loc : ReqLoc}
    (running : r.running = true) (found : r.findReq id = some loc) (own : loc.connId = r.conn.id)
    (open_ : r.conn.closing = false) {h : InFlight.UvReactor} {id' : Nat} {loc' : InFlight.ReqLoc}
    (running' : h.running = true) (found' : h.reqLoc.find id' = some loc') (isH2 : loc'.isH2 = true)
    (got : Nat) :
    ((content.length : Int) < offset → ∀ status headers,
      r.respondFile env id status headers (some content.length) offset length =
        r.respondNotFound env id ∧
      h.respondFile id' status headers (some content) offset length got =
        h.respondNotFound id') ∧
    (offset ≤ content.length →
      (ServesInterval env r id loc content offset length ↔
        EndFits content.length offset length) ∧
      (HandsInterval h id' loc' content offset length got ↔
        loc'.isHead = true ∨
          EndFits content.length offset length ∧
            ReadFits (interval content offset length).length got)) := by
  constructor
  · intro past status headers
    have past : content.length < offset.toNat := by omega
    constructor
    · simp only [Reactor.respondFile, running, not_true_eq_false, if_false, past, if_true]
    · simp only [InFlight.UvReactor.respondFile, running', not_true_eq_false, if_false, past,
        if_true]
  · intro inside
    have inside : offset.toNat ≤ content.length := by omega
    exact ⟨servesInterval_iff size64 offset64 length64 fresh run running found own open_ inside,
      handsInterval_iff size64 offset64 length64 running' found' isH2 inside got⟩

end Both

/-- The state with an HTTP/2 request in flight. -/
def asking2 : InFlight.UvReactor :=
  { reqLoc := Table.empty.set 1 ⟨0, 0, false, false, true⟩ }

/-- Three octets from the second on, over both protocols. -/
theorem file_ranges_middle :
    ServesInterval datedEnv asking 1 ⟨0, false, true⟩ (ascii "hello") 1 3 ∧
      HandsInterval asking2 1 ⟨0, 0, false, false, true⟩ (ascii "hello") 1 3 3 := by
  obtain ⟨-, running, found, own, -⟩ := asking_get
  have fits : EndFits (ascii "hello").length 1 3 := Or.inr (Or.inl (by decide))
  have read : ReadFits (interval (ascii "hello") 1 3).length 3 := ⟨by decide, by decide⟩
  have both := @file_ranges_iff (ascii "hello") 1 3 (by decide) (by decide) (by decide) datedEnv
    sampleConn asking sampleConn_fresh asking_runs 1 _ running found own (by decide +kernel) asking2
    1 ⟨0, 0, false, false, true⟩ rfl (by decide) rfl 3
  obtain ⟨serves, hands⟩ := both.2 (by decide)
  exact ⟨serves.mpr fits, hands.mpr (Or.inr ⟨fits, read⟩)⟩

/-- Over HTTP/2 a file of three octets is lost when a read returns two of them; a range from its
second octet on, of the largest length there is, is empty. -/
theorem file_ranges_lost :
    (interval (ascii "abc") 0 (-1) = ascii "abc" ∧
      ¬ HandsInterval asking2 1 ⟨0, 0, false, false, true⟩ (ascii "abc") 0 (-1) 2) ∧
    (interval (ascii "abc") 1 (2 ^ 63 - 1) = ascii "bc" ∧
      ¬ HandsInterval asking2 1 ⟨0, 0, false, false, true⟩ (ascii "abc") 1 (2 ^ 63 - 1) 2) := by
  refine ⟨⟨by decide, fun hands => ?_⟩, ⟨by decide, fun hands => ?_⟩⟩
  · exact absurd (congrArg InFlight.UvReactor.calls (hands 200 [])) (by decide +kernel)
  · exact absurd (congrArg InFlight.UvReactor.calls (hands 200 [])) (by decide +kernel)

end NitroServer.Answer
