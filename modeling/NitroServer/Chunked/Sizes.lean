/-
Chunk sizes in the arithmetic of `src/engine/UvReactor.cpp`: what `uvChunkSize` returns for a
line of the buffer, in the bits of its `int64_t`, and the sums its callers make of it.

* `chunkSize64_eq` — the loop returns what its model of Chunked/PrefixCode.lean does.
* `Decoding`, `decoding_run` — the turns of `decodeChunked`.
* `uploadStep`, `upload_run` — the turns of `emitStreamChunked` over all its calls.
* `chunk_size_lines` — the value of a size line, its bound, and the sums.
-/

import NitroServer.Chunked.PrefixCode
import NitroServer.Chunked.Segments
import NitroServer.Lib.Run

namespace NitroServer.Chunked

open Engine Lib

/-! ### The loop -/

/-- The digit loop of `uvChunkSize`, `size` as the bits of an `int64_t`; `none` at the sixteenth
digit. -/
def digitLoop : Bytes → BitVec 64 → Nat → Option (BitVec 64 × Nat × Bytes)
  | [], size, digits => some (size, digits, [])
  | ch :: rest, size, digits =>
      match hexDigit ch with
      | none => some (size, digits, ch :: rest)
      | some d =>
          if digits + 1 > 15 then none
          else digitLoop rest ((size <<< 4) ||| BitVec.ofNat 64 d) (digits + 1)

/-- `uvChunkSize(buf, pos, eol)`. -/
def chunkSize64 (buf : Bytes) (pos eol : Nat) : Int :=
  match digitLoop ((buf.take eol).drop pos) 0 0 with
  | none => -1
  | some (size, digits, ext) =>
      if digits = 0 then -1
      else if ext = [] then size.toInt
      else if ext.head? ≠ some 59 then -1
      else if ext.any (· < 0x20) then -1
      else size.toInt

theorem hexDigit_lt {b : UInt8} {d : Nat} (digit : hexDigit b = some d) : d < 16 := by
  rw [hexDigit] at digit
  split at digit
  · rename_i range
    have top : b.toNat ≤ 57 := range.2
    have := Option.some.inj digit
    omega
  · split at digit
    · rename_i range
      have top : b.toNat ≤ 102 := range.2
      have := Option.some.inj digit
      omega
    · split at digit
      · rename_i range
        have top : b.toNat ≤ 70 := range.2
        have := Option.some.inj digit
        omega
      · cases digit

/-- No bit is shifted out of a value of fewer than sixteen digits. -/
theorem shift_toNat {size : BitVec 64} {d : Nat} (small : size.toNat < 2 ^ 60) (digit : d < 16) :
    ((size <<< 4) ||| BitVec.ofNat 64 d).toNat = size.toNat * 16 + d := by
  have fits : size.toNat * 2 ^ 4 < 2 ^ 64 := by omega
  rw [BitVec.toNat_or, BitVec.toNat_shiftLeft, BitVec.toNat_ofNat, Nat.shiftLeft_eq,
    Nat.mod_eq_of_lt fits, Nat.mod_eq_of_lt (by omega), ← Nat.shiftLeft_eq,
    ← Nat.shiftLeft_add_eq_or_of_lt digit, Nat.shiftLeft_eq]

/-- By induction on the line: `k` digits read so far leave a value below `16 ^ k`, so that no
turn loses a bit before the loop gives up. -/
theorem digitLoop_eq {line : Bytes} {size : BitVec 64} {k : Nat} (small : size.toNat < 16 ^ k)
    (few : k ≤ 15) :
    (chunkDigits line size.toNat k).2.1 ≤ 15 ∧
        (∃ bits, digitLoop line size k = some (bits, (chunkDigits line size.toNat k).2) ∧
          bits.toNat = (chunkDigits line size.toNat k).1 ∧
          bits.toNat < 16 ^ (chunkDigits line size.toNat k).2.1) ∨
      15 < (chunkDigits line size.toNat k).2.1 ∧ digitLoop line size k = none := by
  induction line generalizing size k with
  | nil => exact .inl ⟨few, size, rfl, rfl, small⟩
  | cons b line ih =>
      cases digit : hexDigit b with
      | none =>
          simp only [chunkDigits, digitLoop, digit]
          exact .inl ⟨few, size, rfl, rfl, small⟩
      | some d =>
          simp only [chunkDigits, digitLoop, digit]
          by_cases more : k + 1 > 15
          · rw [if_pos more]
            refine .inr ⟨?_, rfl⟩
            rw [chunkDigits_eq]
            dsimp only
            omega
          · rw [if_neg more]
            have bound : size.toNat < 2 ^ 60 := by
              have le : 16 ^ k ≤ 16 ^ 15 := Nat.pow_le_pow_right (by decide) few
              have top : 16 ^ 15 = 2 ^ 60 := by norm_num
              omega
            have next := shift_toNat bound (hexDigit_lt digit)
            have grown : ((size <<< 4) ||| BitVec.ofNat 64 d).toNat < 16 ^ (k + 1) := by
              have lt := hexDigit_lt digit
              rw [next, pow_succ]
              omega
            rw [← next]
            exact ih grown (by omega)

/-- A model's result as the `int64_t` of the source. -/
def ofResult (size : Option Nat) : Int := size.elim (-1) Int.ofNat

theorem chunkSize64_eq (buf : Bytes) (pos eol : Nat) :
    chunkSize64 buf pos eol = ofResult (uvChunkSize ((buf.take eol).drop pos)) ∧
      ∀ n ∈ uvChunkSize ((buf.take eol).drop pos), n < 2 ^ 60 := by
  set line := (buf.take eol).drop pos with line_eq
  have loop := @digitLoop_eq line 0 0 (by decide) (by decide)
  have zero : (0 : BitVec 64).toNat = 0 := rfl
  rw [zero] at loop
  rw [chunkSize64, ← line_eq, uvChunkSize]
  generalize chunkDigits line 0 0 = scan at loop ⊢
  obtain ⟨size, digits, ext⟩ := scan
  dsimp only at loop ⊢
  rcases loop with ⟨few, bits, run, value, small⟩ | ⟨many, run⟩
  · have bound : bits.toNat < 2 ^ 60 := by
      have le : 16 ^ digits ≤ 16 ^ 15 := Nat.pow_le_pow_right (by decide) few
      have top : 16 ^ 15 = 2 ^ 60 := by norm_num
      omega
    have signed : bits.toInt = (size : Int) := by
      rw [BitVec.toInt_eq_toNat_of_lt (by omega), value]
    simp only [run, if_neg (not_lt.mpr few), signed]
    rw [value] at bound
    by_cases empty : digits = 0
    · simp [empty, ofResult]
    · by_cases bare : ext = []
      · simpa [empty, bare, ofResult] using bound
      · by_cases semicolon : ext.head? = some 59
        · by_cases clean : ext.all (fun b => decide (0x20 ≤ b)) = true
          · have none_ : ext.any (fun b => decide (b < 0x20)) = false := by
              rw [List.any_eq_false]
              intro b mem
              have := List.all_eq_true.mp clean b mem
              simpa using this
            simpa [empty, bare, semicolon, clean, none_, ofResult] using bound
          · have some_ : ext.any (fun b => decide (b < 0x20)) = true := by
              rw [List.any_eq_true]
              simpa using clean
            simp [empty, bare, semicolon, clean, some_, ofResult]
        · simp [empty, bare, semicolon, ofResult]
  · simp only [run, if_pos many]
    exact ⟨rfl, fun _ found => absurd found (Option.not_mem_none _)⟩

/-! ### The value of a line -/

instance : DecidablePred Extension := fun ext =>
  inferInstanceAs (Decidable (ext = [] ∨ ext.head? = some 59 ∧ ∀ b ∈ ext, 0x20 ≤ b))

/-- The leading hex digits of the line, when there are one to fifteen of them in front of an
extension, or −1. -/
def lineSize (line : Bytes) : Int :=
  if 1 ≤ (line.takeWhile isHex).length ∧ (line.takeWhile isHex).length ≤ 15 ∧
      Extension (line.dropWhile isHex) then
    hexValue (line.takeWhile isHex)
  else -1

theorem lineSize_eq (line : Bytes) : lineSize line = ofResult (uvChunkSize line) := by
  rw [lineSize]
  split
  · rename_i well
    obtain ⟨some_, few, ext⟩ := well
    have size : SizeLine line (hexValue (line.takeWhile isHex)) :=
      ⟨_, _, List.takeWhile_append_dropWhile.symm, List.ne_nil_of_length_pos some_, few,
        fun b mem => List.mem_takeWhile_imp mem, ext, rfl⟩
    rw [uvChunkSize_iff.mpr size]
    rfl
  · rename_i bad
    cases size : uvChunkSize line with
    | none => rfl
    | some n =>
        obtain ⟨digits, ext, rfl, some_, few, hex, tail, -⟩ := uvChunkSize_iff.mp size
        obtain ⟨here, behind⟩ := isHex_cut hex tail
        rw [here, behind] at bad
        exact absurd ⟨List.length_pos_iff.mpr some_, few, tail⟩ bad

/-! ### The turns of `decodeChunked` -/

section Decode

variable (buf : Bytes) (start maxBody : Nat)

/-- The loop of `decodeChunked` is at `pos`, with `out` decoded. -/
inductive Decoding : Nat → Bytes → Prop where
  | start : Decoding start []
  | chunk {pos eol size : Nat} {out : Bytes} : Decoding pos out →
      findSub crlf (buf.drop pos) = some eol →
      uvChunkSize ((buf.drop pos).take eol) = some size → 0 < size →
      out.length + size ≤ maxBody → pos + eol + 2 + size + 2 ≤ buf.length →
      (buf.drop (pos + eol + 2 + size)).take 2 = crlf →
      Decoding (pos + eol + 2 + size + 2) (out ++ (buf.drop (pos + eol + 2)).take size)

end Decode

section DecodeRuns

variable {buf out : Bytes} {start maxBody pos : Nat}

/-- These are the turns: from each of them the loop goes on to what the call returns. -/
theorem decoding_run (run : Decoding buf start maxBody pos out) (fits : start ≤ buf.length) :
    pos ≤ buf.length ∧ ∃ fuel, buf.length < fuel + pos ∧
      decodeChunked buf start maxBody = decodeChunks buf start maxBody fuel pos out := by
  induction run with
  | start => exact ⟨fits, buf.length + 1, by omega, rfl⟩
  | @chunk pos eol size out _ line found pos_ room more stop ih =>
      obtain ⟨_, fuel, enough, same⟩ := ih
      obtain ⟨fuel, rfl⟩ : ∃ f, fuel = f + 1 := ⟨fuel - 1, by omega⟩
      obtain ⟨size, rfl⟩ : ∃ n, size = n + 1 := ⟨size - 1, by omega⟩
      refine ⟨more, fuel, by omega, same.trans ?_⟩
      simp only [decodeChunks, line, found, if_neg (not_lt.mpr room), if_neg (not_lt.mpr more),
        stop, ne_eq, not_true_eq_false, if_false]

theorem decoding_total (run : Decoding buf start maxBody pos out) : out.length ≤ maxBody := by
  induction run with
  | start => exact Nat.zero_le _
  | chunk _ _ _ _ room more _ _ =>
      rw [List.length_append, List.length_take, List.length_drop]
      omega

end DecodeRuns

/-! ### The turns of `emitStreamChunked` -/

/-- A turn of the loop, or a read between two calls. -/
inductive UploadAct where
  | turn
  | read (bytes : Bytes)

/-- What the upload's state is behind a turn that does not end it. -/
def uploadStep (M : Nat) (s : ChunkScan) : UploadAct → Option ChunkScan
  | .turn =>
      match turn M s with
      | .inr s' => some s'
      | .inl (.more, s') => some s'
      | .inl _ => none
  | .read bytes => some (feed s bytes)

/-- The state of a turn when it has come to the chunk data. -/
def dataStage (s : ChunkScan) : Option ChunkScan :=
  match scanCrlf s with
  | .inl _ => none
  | .inr s =>
      match if s.remaining = 0 then scanSize s else .inr s with
      | .inl _ => none
      | .inr s => some s

/-- A call that waits for more is a run of turns. -/
theorem scan_reaches {M : Nat} {s s' : ChunkScan} (waits : scan M s = (.more, s')) :
    Reaches (stepOf (uploadStep M)) anyStep s s' := by
  induction hn : s.buf.length using Nat.strong_induction_on generalizing s with
  | _ n ih =>
      subst hn
      rw [scan_eq] at waits
      cases next : turn M s with
      | inl stop =>
          rw [next] at waits
          dsimp only at waits
          subst waits
          refine .single (a := .turn) trivial ?_
          simp only [stepOf, uploadStep, next]
      | inr s₁ =>
          rw [next] at waits
          refine .head (a := .turn) trivial ?_ (ih _ (turn_length next) waits rfl)
          simp only [stepOf, uploadStep, next]

/-- The chunk at hand was declared by a size line, and the cap holds. -/
structure Bounded (M : Nat) (s : ChunkScan) : Prop where
  remaining : s.remaining < 2 ^ 60
  total : s.total ≤ M

theorem uvChunkSize_lt {line : Bytes} {n : Nat} (size : uvChunkSize line = some n) :
    n < 2 ^ 60 := by
  have bound := (chunkSize64_eq line 0 line.length).2
  rw [List.take_length, List.drop_zero] at bound
  exact bound n size

section Uploads

variable {M : Nat} {s s' : ChunkScan}

theorem scanCrlf_bounded (bounded : Bounded M s) (next : scanCrlf s = .inr s') : Bounded M s' := by
  unfold scanCrlf at next
  split at next
  · cases next
    exact bounded
  split at next
  · cases next
  split at next
  · cases next
  · cases next
    exact ⟨bounded.remaining, bounded.total⟩

theorem scanSize_bounded (bounded : Bounded M s) :
    (∀ s', scanSize s = .inr s' → Bounded M s') ∧
      ∀ s', scanSize s = .inl (.more, s') → Bounded M s' := by
  unfold scanSize
  split
  · refine ⟨nofun, ?_⟩
    rintro s' h
    rw [← (Prod.mk.inj (Sum.inl.inj h)).2]
    exact bounded
  · split
    · exact ⟨nofun, nofun⟩
    · split
      · exact ⟨nofun, nofun⟩
      · refine ⟨nofun, ?_⟩
        rintro s' h
        cases h
        exact bounded
    · rename_i size
      refine ⟨?_, nofun⟩
      rintro s' h
      cases h
      exact ⟨uvChunkSize_lt size, bounded.total⟩

theorem dataStage_bounded (bounded : Bounded M s) (stage : dataStage s = some s') :
    Bounded M s' := by
  unfold dataStage at stage
  split at stage
  · cases stage
  · rename_i s₁ behind
    have first := scanCrlf_bounded bounded behind
    split at stage
    · cases stage
    · rename_i sized
      cases stage
      split at sized
      · exact (scanSize_bounded first).1 _ sized
      · cases sized
        exact first

theorem scanData_bounded (bounded : Bounded M s) (next : scanData M s = some (false, s')) :
    Bounded M s' := by
  simp only [scanData, Option.ite_none_left_eq_some, Option.some.injEq, Prod.mk.injEq] at next
  obtain ⟨-, within, rfl⟩ := next
  have small := bounded.remaining
  exact ⟨by dsimp only; omega, not_lt.mp (of_decide_eq_false within)⟩

theorem uploadStep_bounded {a : UploadAct} (bounded : Bounded M s)
    (step : uploadStep M s a = some s') : Bounded M s' := by
  cases a with
  | read bytes =>
      cases step
      exact ⟨bounded.remaining, bounded.total⟩
  | turn =>
      simp only [uploadStep, turn] at step
      cases behind : scanCrlf s with
      | inl stop =>
          rw [behind] at step
          obtain ⟨_ | _ | _ | _, s₁⟩ := stop <;> cases step
          have same := scanCrlf_stops behind
          dsimp only at same
          rwa [same]
      | inr s₁ =>
          rw [behind] at step
          have first := scanCrlf_bounded bounded behind
          dsimp only at step
          cases sized : (if s₁.remaining = 0 then scanSize s₁ else .inr s₁) with
          | inl stop =>
              rw [sized] at step
              obtain ⟨_ | _ | _ | _, s₂⟩ := stop <;> cases step
              split at sized
              · exact (scanSize_bounded first).2 _ sized
              · cases sized
          | inr s₂ =>
              rw [sized] at step
              have second : Bounded M s₂ := by
                refine dataStage_bounded bounded ?_
                simp only [dataStage, behind, sized]
              dsimp only at step
              rcases data : scanData M s₂ with _ | ⟨_ | _, s₃⟩ <;> rw [data] at step <;> cases step
              · exact second
              · exact scanData_bounded second data

/-- What the upload carries is bounded in every run of its turns. -/
theorem upload_run {buf : Bytes}
    (run : Reaches (stepOf (uploadStep M)) anyStep ⟨buf, 0, false, 0, []⟩ s) : Bounded M s :=
  run.invariant ⟨Nat.two_pow_pos 60, Nat.zero_le M⟩ fun _ _ _ bounded _ step =>
    uploadStep_bounded bounded step

end Uploads

/-! ### The sums -/

/-- Chunk sizes: `uvChunkSize` returns the value of the digits in front of an extension, below
2^60, or −1. So no sum that its callers make of it and of offsets into a string or a body length
within the cap wraps around in 64 bits, and a total, which is an `int64_t`, stays one until the
body has 2^63 − 2^60 bytes. -/
theorem chunk_size_lines (buf : Bytes) (start maxBody : Nat) (fits : buf.length < 2 ^ 63)
    (cap : maxBody < 2 ^ 63) :
    (∀ pos eol, chunkSize64 buf pos eol = lineSize ((buf.take eol).drop pos) ∧
      chunkSize64 buf pos eol < 2 ^ 60) ∧
    (∀ pos out eol (size : Nat), Decoding buf start maxBody pos out →
      findSub crlf (buf.drop pos) = some eol → chunkSize64 buf pos (pos + eol) = size →
      pos + eol + 2 + size + 2 < 2 ^ 64 ∧ out.length ≤ maxBody ∧ out.length + size < 2 ^ 64 ∧
        (out.length ≤ 2 ^ 63 - 2 ^ 60 → out.length + size < 2 ^ 63)) ∧
    (∀ s s', Reaches (stepOf (uploadStep maxBody)) anyStep ⟨buf, 0, false, 0, []⟩ s →
      dataStage s = some s' →
      s'.total ≤ maxBody ∧ s'.total + min s'.buf.length s'.remaining < 2 ^ 64 ∧
        (s'.total ≤ 2 ^ 63 - 2 ^ 60 → s'.total + min s'.buf.length s'.remaining < 2 ^ 63)) := by
  have bound : ∀ pos eol, chunkSize64 buf pos eol < 2 ^ 60 := by
    intro pos eol
    obtain ⟨value, below⟩ := chunkSize64_eq buf pos eol
    rw [value]
    cases size : uvChunkSize ((buf.take eol).drop pos) with
    | none => decide
    | some n =>
        have lt : n < 2 ^ 60 := below n size
        rw [ofResult, Option.elim_some, Int.ofNat_eq_natCast]
        omega
  refine ⟨?_, ?_, ?_⟩
  · intro pos eol
    exact ⟨(chunkSize64_eq buf pos eol).1.trans (lineSize_eq _).symm, bound pos eol⟩
  · intro pos out eol size run line found
    have total := decoding_total run
    have small := bound pos (pos + eol)
    rw [found] at small
    have inside := findSub_le line
    rw [List.length_drop] at inside
    have two : crlf.length = 2 := rfl
    exact ⟨by omega, total, by omega, by omega⟩
  · intro s s' run stage
    obtain ⟨remaining, total⟩ := dataStage_bounded (upload_run run) stage
    exact ⟨total, by omega, by omega⟩

/-- A chunk of four bytes with an extension, at the start of a body. -/
theorem chunk_size_lines_wiki :
    chunkSize64 (ascii "4;x\r\nWiki\r\n0\r\n\r\n") 0 3 = 4 ∧ 0 + 3 + 2 + 4 + 2 < 2 ^ 64 := by
  have lines := chunk_size_lines (ascii "4;x\r\nWiki\r\n0\r\n\r\n") 0 100 (by decide) (by decide)
  have four : chunkSize64 (ascii "4;x\r\nWiki\r\n0\r\n\r\n") 0 3 = 4 :=
    (lines.1 0 3).1.trans (by decide +kernel)
  exact ⟨four, (lines.2.1 0 [] 3 4 .start (by decide) four).1⟩

end NitroServer.Chunked
