/-
Chunked request bodies as a grammar (RFC 9112 §7.1 with the limits of
`src/engine/UvReactor.cpp`).

`Reads M t P v` says what a byte string `P` is for a decoder with body cap `M` that has
passed on `t` bytes already: a whole body, one that is corrupt or over the cap, or the
beginning of one. A beginning that stops inside a line is `tripped` when the line, or the
trailer section it belongs to, is longer than `kMaxTrailerBytes` by then.

Every byte string has such a reading (`reads_total`). `reads_scan` is what the loop of
`emitStreamChunked` makes of it, `reads_decode` what `decodeChunked` does.
-/

import NitroServer.Engine.Process

namespace NitroServer.Chunked

open Engine Lib

/-! ### The grammar -/

/-- No line end in it. -/
def NoCrlf (b : Bytes) : Prop := findSub crlf b = none

inductive Verdict where
  | waiting
  | tripped
  | corrupt
  | beyond
  /-- The body, the bytes of its trailer lines (with their line ends) and what follows. -/
  | whole (data : Bytes) (trailers : Nat) (rest : Bytes)
deriving DecidableEq

/-- A chunk's data stands before the rest of the body. -/
def Verdict.push (data : Bytes) : Verdict → Verdict
  | .whole body trailers rest => .whole (data ++ body) trailers rest
  | v => v

/-- The trailer section behind `k` lines of `n` bytes. -/
inductive Trailers : Nat → Nat → Bytes → Verdict → Prop where
  | unfinished {k n : Nat} {p : Bytes} : NoCrlf p → n + p.length ≤ kMaxTrailerBytes →
      Trailers k n p .waiting
  | endless {k n : Nat} {p : Bytes} : NoCrlf p → kMaxTrailerBytes < n + p.length →
      Trailers k n p .tripped
  | blank {k n : Nat} {rest : Bytes} : Trailers k n (crlf ++ rest) (.whole [] n rest)
  | line {k n : Nat} {l more : Bytes} {v : Verdict} : NoCrlf l → l ≠ [] → k < kMaxTrailerLines →
      Trailers (k + 1) (n + l.length + 2) more v → Trailers k n (l ++ crlf ++ more) v
  | tooMany {k n : Nat} {l more : Bytes} : NoCrlf l → l ≠ [] → kMaxTrailerLines ≤ k →
      Trailers k n (l ++ crlf ++ more) .corrupt

/-- What a byte string is, at the start of a size line. -/
inductive Reads (M : Nat) : Nat → Bytes → Verdict → Prop where
  | unfinished {t : Nat} {p : Bytes} : NoCrlf p → p.length ≤ kMaxTrailerBytes →
      Reads M t p .waiting
  | endless {t : Nat} {p : Bytes} : NoCrlf p → kMaxTrailerBytes < p.length →
      Reads M t p .tripped
  | badSize {t : Nat} {line more : Bytes} : NoCrlf line → uvChunkSize line = none →
      Reads M t (line ++ crlf ++ more) .corrupt
  | last {t : Nat} {line more : Bytes} {v : Verdict} : NoCrlf line → uvChunkSize line = some 0 →
      Trailers 0 0 more v → Reads M t (line ++ crlf ++ more) v
  | beyond {t n : Nat} {line more : Bytes} : NoCrlf line → uvChunkSize line = some n → 0 < n →
      M < t + min more.length n → Reads M t (line ++ crlf ++ more) .beyond
  | short {t n : Nat} {line more : Bytes} : NoCrlf line → uvChunkSize line = some n → 0 < n →
      t + min more.length n ≤ M → more.length < n + 2 →
      Reads M t (line ++ crlf ++ more) .waiting
  | badEnd {t : Nat} {line data stop more : Bytes} : NoCrlf line →
      uvChunkSize line = some data.length → data ≠ [] → t + data.length ≤ M →
      stop.length = 2 → stop ≠ crlf → Reads M t (line ++ crlf ++ (data ++ (stop ++ more))) .corrupt
  | chunk {t : Nat} {line data more : Bytes} {v : Verdict} : NoCrlf line →
      uvChunkSize line = some data.length → data ≠ [] → t + data.length ≤ M →
      Reads M (t + data.length) more v →
      Reads M t (line ++ crlf ++ (data ++ (crlf ++ more))) (v.push data)

/-! ### Lines -/

theorem findSub_line {line : Bytes} (h : NoCrlf line) (more : Bytes) :
    findSub crlf (line ++ crlf ++ more) = some line.length := by
  induction line with
  | nil => rfl
  | cons a line ih =>
      rw [NoCrlf, findSub] at h
      split at h
      · cases h
      · rename_i absent
        have here : ¬ crlf <+: a :: (line ++ crlf ++ more) := by
          intro start
          cases line with
          | nil => simp [crlf] at start
          | cons b line =>
              refine absent ?_
              simpa [crlf, List.cons_prefix_cons] using start
        rw [List.cons_append, List.cons_append, findSub, if_neg here,
          ih (Option.map_eq_none_iff.mp h)]
        rfl

/-- The bytes up to the first line end are a line. -/
theorem split_line {p : Bytes} {i : Nat} (h : findSub crlf p = some i) :
    NoCrlf (p.take i) ∧ (p.take i).length = i ∧ p = p.take i ++ crlf ++ p.drop (i + 2) := by
  have fits : i + 2 ≤ p.length := findSub_le h
  have length : (p.take i).length = i := by
    rw [List.length_take]
    omega
  refine ⟨?_, length, ?_⟩
  · refine findSub_eq_none_of_short (t := p.drop i) (i := i) ?_ ?_
    · rwa [List.take_append_drop]
    · rw [length]
      exact Nat.lt_add_of_pos_right (by decide)
  · obtain ⟨here, -⟩ := findSub_spec h
    obtain ⟨more, hmore⟩ := here
    have tail : more = p.drop (i + 2) := by
      rw [← List.drop_drop, ← hmore]
      rfl
    rw [List.append_assoc, ← tail, hmore, List.take_append_drop]

theorem trailers_suffix {k n m : Nat} {p data rest : Bytes} {v : Verdict} (h : Trailers k n p v)
    (hv : v = .whole data m rest) : rest <:+ p ∧ m ≤ n + p.length := by
  induction h with
  | unfinished | endless | tooMany => cases hv
  | blank =>
      cases hv
      exact ⟨List.suffix_append crlf rest, Nat.le_add_right _ _⟩
  | @line k n l more v _ _ _ _ ih =>
      obtain ⟨suffix, le⟩ := ih hv
      have two : crlf.length = 2 := rfl
      refine ⟨suffix.trans (List.suffix_append _ more), ?_⟩
      simp only [List.length_append]
      omega

/-- What follows a whole body is the end of the byte string, and the trailer lines are part
of it. -/
theorem reads_suffix {M t m : Nat} {p data rest : Bytes} {v : Verdict} (h : Reads M t p v)
    (hv : v = .whole data m rest) : rest <:+ p ∧ m ≤ p.length := by
  induction h generalizing data with
  | unfinished | endless | badSize | beyond | short | badEnd => cases hv
  | @last t line more v _ _ trailers =>
      obtain ⟨suffix, le⟩ := trailers_suffix trailers hv
      refine ⟨suffix.trans (List.suffix_append _ more), ?_⟩
      rw [List.length_append]
      omega
  | @chunk t line chunk more v _ _ _ _ _ ih =>
      cases v with
      | whole body m' rest' =>
          cases hv
          obtain ⟨suffix, le⟩ := ih rfl
          refine ⟨suffix.trans ⟨line ++ crlf ++ (chunk ++ crlf), by simp⟩, ?_⟩
          simp only [List.length_append]
          omega
      | waiting | tripped | corrupt | beyond => cases hv

/-! ### Every byte string has a reading -/

theorem trailers_total (k n : Nat) (p : Bytes) : ∃ v, Trailers k n p v := by
  induction hp : p.length using Nat.strong_induction_on generalizing k n p with
  | _ m ih =>
      subst hp
      cases hf : findSub crlf p with
      | none =>
          by_cases long : kMaxTrailerBytes < n + p.length
          · exact ⟨_, .endless hf long⟩
          · exact ⟨_, .unfinished hf (not_lt.mp long)⟩
      | some i =>
          obtain ⟨line, length, split⟩ := split_line hf
          by_cases empty : p.take i = []
          · rw [empty, List.nil_append] at split
            rw [split]
            exact ⟨_, .blank⟩
          · have shorter : (p.drop (i + 2)).length < p.length := by
              have := findSub_le hf
              have : crlf.length = 2 := rfl
              rw [List.length_drop]
              omega
            rw [split]
            by_cases few : k < kMaxTrailerLines
            · obtain ⟨v, hv⟩ := ih _ shorter (k + 1) (n + (p.take i).length + 2) _ rfl
              exact ⟨v, .line line empty few hv⟩
            · exact ⟨_, .tooMany line empty (not_lt.mp few)⟩

theorem reads_total (M t : Nat) (p : Bytes) : ∃ v, Reads M t p v := by
  induction hp : p.length using Nat.strong_induction_on generalizing t p with
  | _ m ih =>
      subst hp
      cases hf : findSub crlf p with
      | none =>
          by_cases long : kMaxTrailerBytes < p.length
          · exact ⟨_, .endless hf long⟩
          · exact ⟨_, .unfinished hf (not_lt.mp long)⟩
      | some i =>
          obtain ⟨line, length, split⟩ := split_line hf
          have fits := findSub_le hf
          have two : crlf.length = 2 := rfl
          have behind : (p.drop (i + 2)).length = p.length - (i + 2) := List.length_drop
          generalize p.take i = l at line length split
          generalize p.drop (i + 2) = more at split behind
          rw [split]
          cases size : uvChunkSize l with
          | none => exact ⟨_, .badSize line size⟩
          | some sz =>
              by_cases zero : sz = 0
              · subst zero
                obtain ⟨v, hv⟩ := trailers_total 0 0 more
                exact ⟨v, .last line size hv⟩
              have pos : 0 < sz := Nat.pos_of_ne_zero zero
              by_cases cap : M < t + min more.length sz
              · exact ⟨_, .beyond line size pos cap⟩
              by_cases here : more.length < sz + 2
              · exact ⟨_, .short line size pos (not_lt.mp cap) here⟩
              -- the data and the two bytes behind it are there
              have taken : (more.take sz).length = sz := by
                rw [List.length_take]
                omega
              have some_data : more.take sz ≠ [] := by
                intro none
                rw [none] at taken
                exact zero taken.symm
              have room : t + (more.take sz).length ≤ M := by
                rw [taken]
                omega
              have size' : uvChunkSize l = some (more.take sz).length := by rw [taken, size]
              have pieces : more =
                  more.take sz ++ ((more.drop sz).take 2 ++ more.drop (sz + 2)) := by
                rw [← List.drop_drop, List.take_append_drop, List.take_append_drop]
              have two_bytes : ((more.drop sz).take 2).length = 2 := by
                rw [List.length_take, List.length_drop]
                omega
              rw [pieces]
              by_cases stop : (more.drop sz).take 2 = crlf
              · have shorter : (more.drop (sz + 2)).length < p.length := by
                  rw [List.length_drop, behind]
                  omega
                obtain ⟨v, hv⟩ := ih _ shorter (t + (more.take sz).length) _ rfl
                rw [stop]
                exact ⟨_, .chunk line size' some_data room hv⟩
              · exact ⟨_, .badEnd line size' some_data room two_bytes stop⟩

/-! ### The loop of `emitStreamChunked` -/

theorem scanCrlf_length {s s' : ChunkScan} (h : scanCrlf s = .inr s') :
    s'.buf.length ≤ s.buf.length := by
  unfold scanCrlf at h
  split at h
  · cases h
    exact le_rfl
  split at h
  · cases h
  split at h
  · cases h
  · cases h
    rw [List.length_drop]
    exact Nat.sub_le _ _

theorem scanSize_length {s s' : ChunkScan} (h : scanSize s = .inr s') :
    s'.buf.length ≤ s.buf.length := by
  unfold scanSize at h
  split at h
  · cases h
  split at h
  · cases h
  · split at h <;> cases h
  · cases h
    rw [List.length_drop]
    exact Nat.sub_le _ _

theorem scanData_length {M : Nat} {s s' : ChunkScan} {beyond : Bool}
    (h : scanData M s = some (beyond, s')) : s'.buf.length < s.buf.length := by
  simp only [scanData, Option.ite_none_left_eq_some, Option.some.injEq, Prod.mk.injEq] at h
  obtain ⟨some_data, -, rfl⟩ := h
  simp only [List.length_drop]
  omega

/-- One turn of the loop: the scan is over, or the next turn's state. -/
def turn (M : Nat) (s : ChunkScan) : ScanEnd × ChunkScan ⊕ ChunkScan :=
  match scanCrlf s with
  | .inl stop => .inl stop
  | .inr s =>
      match if s.remaining = 0 then scanSize s else .inr s with
      | .inl stop => .inl stop
      | .inr s =>
          match scanData M s with
          | none => .inl (.more, s)
          | some (true, s) => .inl (.tooLarge, s)
          | some (false, s) => .inr s

theorem scanChunks_succ (M fuel : Nat) (s : ChunkScan) :
    scanChunks M (fuel + 1) s =
      match turn M s with
      | .inl stop => stop
      | .inr s' => scanChunks M fuel s' := by
  rw [scanChunks, turn]
  cases scanCrlf s with
  | inl stop => rfl
  | inr s =>
      dsimp only
      cases (if s.remaining = 0 then scanSize s else .inr s) with
      | inl stop => rfl
      | inr s =>
          dsimp only
          rcases scanData M s with _ | ⟨_ | _, s⟩ <;> rfl

/-- A turn that goes on has consumed something. -/
theorem turn_length {M : Nat} {s s' : ChunkScan} (h : turn M s = .inr s') :
    s'.buf.length < s.buf.length := by
  unfold turn at h
  split at h
  · cases h
  · rename_i s1 h1
    split at h
    · cases h
    · rename_i s2 h2
      split at h
      · cases h
      · cases h
      · rename_i s3 h3
        cases h
        have data := scanData_length h3
        have crlf := scanCrlf_length h1
        split at h2
        · exact data.trans_le ((scanSize_length h2).trans crlf)
        · cases h2
          exact data.trans_le crlf

theorem scanCrlf_stops {s : ChunkScan} {stop : ScanEnd × ChunkScan} (h : scanCrlf s = .inl stop) :
    stop.2 = s := by
  unfold scanCrlf at h
  split at h
  · cases h
  split at h
  · cases h
    rfl
  split at h <;> cases h
  rfl

theorem scanSize_stops {s : ChunkScan} {stop : ScanEnd × ChunkScan} (h : scanSize s = .inl stop) :
    stop.2.buf.length ≤ s.buf.length := by
  unfold scanSize at h
  split at h
  · cases h
    exact le_rfl
  split at h
  · cases h
    exact le_rfl
  · split at h
    · cases h
      rw [List.length_drop]
      exact Nat.sub_le _ _
    · cases h
      exact le_rfl
  · cases h

theorem turn_stops {M : Nat} {s : ChunkScan} {stop : ScanEnd × ChunkScan}
    (h : turn M s = .inl stop) : stop.2.buf.length ≤ s.buf.length := by
  unfold turn at h
  split at h
  · rename_i h1
    cases h
    rw [scanCrlf_stops h1]
  · rename_i s1 h1
    have crlf := scanCrlf_length h1
    split at h
    · rename_i h2
      cases h
      split at h2
      · exact (scanSize_stops h2).trans crlf
      · cases h2
    · rename_i s2 h2
      have size : s2.buf.length ≤ s1.buf.length := by
        split at h2
        · exact scanSize_length h2
        · cases h2
          exact le_rfl
      split at h
      · cases h
        exact size.trans crlf
      · rename_i s3 h3
        cases h
        exact (scanData_length h3).le.trans (size.trans crlf)
      · cases h

/-- What a scan leaves is no longer than what it found. -/
theorem scanChunks_length (M fuel : Nat) (s : ChunkScan) :
    (scanChunks M fuel s).2.buf.length ≤ s.buf.length := by
  induction fuel generalizing s with
  | zero => exact le_rfl
  | succ fuel ih =>
      rw [scanChunks_succ]
      split
      · rename_i h
        exact turn_stops h
      · rename_i h
        exact (ih _).trans (turn_length h).le

/-- The loop with fuel enough. -/
def scan (M : Nat) (s : ChunkScan) : ScanEnd × ChunkScan := scanChunks M (s.buf.length + 1) s

theorem scanChunks_eq_scan {M fuel : Nat} {s : ChunkScan} (h : s.buf.length < fuel) :
    scanChunks M fuel s = scan M s := by
  induction hn : s.buf.length using Nat.strong_induction_on generalizing fuel s with
  | _ n ih =>
      subst hn
      obtain ⟨fuel, rfl⟩ : ∃ f, fuel = f + 1 := ⟨fuel - 1, by omega⟩
      rw [scan, scanChunks_succ, scanChunks_succ]
      cases ht : turn M s with
      | inl stop => rfl
      | inr s' =>
          have shorter := turn_length ht
          dsimp only
          rw [ih _ shorter (by omega) rfl, ih _ shorter shorter rfl]

/-- The loop, turn by turn. -/
theorem scan_eq (M : Nat) (s : ChunkScan) :
    scan M s = match turn M s with
      | .inl stop => stop
      | .inr s' => scan M s' := by
  rw [scan, scanChunks_succ]
  cases ht : turn M s with
  | inl stop => rfl
  | inr s' => exact scanChunks_eq_scan (turn_length ht)

/-! ### What the loop makes of a reading -/

/-- How a scan of it ends. -/
def Verdict.stop : Verdict → ScanEnd
  | .waiting => .more
  | .tripped | .corrupt => .malformed
  | .beyond => .tooLarge
  | .whole _ _ _ => .done

/-- The outcome of a reading, with what was decoded before it. -/
def Agrees (out : Bytes) (v : Verdict) (r : ScanEnd × ChunkScan) : Prop :=
  r.1 = v.stop ∧ ∀ data n rest, v = .whole data n rest → r.2.out = out ++ data ∧ r.2.buf = rest

theorem drop_line {buf l more : Bytes} {t : Nat} (hp : buf.drop t = l ++ crlf ++ more) :
    buf.drop (t + l.length + 2) = more := by
  rw [← List.drop_drop, ← List.drop_drop, hp, List.append_assoc, List.drop_left]
  rfl

theorem trailers_scan {buf p : Bytes} {start t k n fuel : Nat} {v : Verdict}
    (h : Trailers k n p v) (hp : buf.drop t = p) (ht : t = start + n) (inside : t ≤ buf.length)
    (hf : p.length < fuel) :
    (scanTrailers buf start fuel t k).1 = v.stop ∧
      ∀ data m rest, v = .whole data m rest →
        data = [] ∧ buf.drop (scanTrailers buf start fuel t k).2 = rest := by
  induction h generalizing t fuel with
  | @unfinished k n p open_ short | @endless k n p open_ long =>
      obtain ⟨fuel, rfl⟩ : ∃ f, fuel = f + 1 := ⟨fuel - 1, by omega⟩
      have length : buf.length - start = n + p.length := by
        rw [← hp, List.length_drop]
        omega
      rw [scanTrailers, hp, open_, length]
      first
        | rw [if_neg (not_lt.mpr short)]
        | rw [if_pos long]
      exact ⟨rfl, fun _ _ _ whole => by cases whole⟩
  | @blank k n rest =>
      obtain ⟨fuel, rfl⟩ : ∃ f, fuel = f + 1 := ⟨fuel - 1, by omega⟩
      have found : findSub crlf (crlf ++ rest) = some 0 := findSub_line (rfl : NoCrlf []) rest
      rw [scanTrailers, hp, found]
      refine ⟨rfl, fun data m rest' whole => ?_⟩
      cases whole
      exact ⟨rfl, drop_line (l := []) (by simpa using hp)⟩
  | @line k n l more v noCrlf some_text few _ ih =>
      obtain ⟨fuel, rfl⟩ : ∃ f, fuel = f + 1 := ⟨fuel - 1, by omega⟩
      obtain ⟨e, he⟩ : ∃ e, l.length = e + 1 :=
        Nat.exists_eq_succ_of_ne_zero fun zero => some_text (List.length_eq_zero_iff.mp zero)
      have two : crlf.length = 2 := rfl
      have total := congrArg List.length hp
      simp only [List.length_drop, List.length_append] at total hf
      simp only [scanTrailers, hp, findSub_line noCrlf, he]
      rw [if_neg (by omega), ← he]
      exact ih (drop_line hp) (by omega) (by omega) (by omega)
  | @tooMany k n l more noCrlf some_text many =>
      obtain ⟨fuel, rfl⟩ : ∃ f, fuel = f + 1 := ⟨fuel - 1, by omega⟩
      obtain ⟨e, he⟩ : ∃ e, l.length = e + 1 :=
        Nat.exists_eq_succ_of_ne_zero fun zero => some_text (List.length_eq_zero_iff.mp zero)
      simp only [scanTrailers, hp, findSub_line noCrlf, he]
      rw [if_pos (by omega)]
      exact ⟨rfl, fun _ _ _ whole => by cases whole⟩

/-- The scan's state at the start of a size line. -/
abbrev atLine (p : Bytes) (t : Nat) (out : Bytes) : ChunkScan := ⟨p, 0, false, t, out⟩

theorem turn_atLine {M t : Nat} {p out : Bytes} :
    turn M (atLine p t out) = match scanSize (atLine p t out) with
      | .inl stop => .inl stop
      | .inr s =>
          match scanData M s with
          | none => .inl (.more, s)
          | some (true, s) => .inl (.tooLarge, s)
          | some (false, s) => .inr s := by
  rfl

/-- Behind a chunk's size line. -/
theorem scanSize_chunk {t n : Nat} {line more out : Bytes} (noCrlf : NoCrlf line)
    (size : uvChunkSize line = some n) (pos : 0 < n) :
    scanSize (atLine (line ++ crlf ++ more) t out) = .inr ⟨more, n, false, t, out⟩ := by
  have here : (line ++ crlf ++ more).take line.length = line := by
    rw [List.append_assoc, List.take_left]
  have behind : (line ++ crlf ++ more).drop (line.length + 2) = more := by
    rw [← List.drop_drop, List.append_assoc, List.drop_left]
    rfl
  obtain ⟨n, rfl⟩ : ∃ m, n = m + 1 := ⟨n - 1, by omega⟩
  simp only [scanSize, findSub_line noCrlf, here, size, behind]

/-- The chunk's data is there. -/
theorem scanData_chunk {M t : Nat} {data more out : Bytes} (some_data : data ≠ []) :
    scanData M ⟨data ++ more, data.length, false, t, out⟩ =
      some (decide (M < t + data.length), ⟨more, 0, true, t + data.length, out ++ data⟩) := by
  have pos : 0 < data.length := List.length_pos_iff.mpr some_data
  have all : min (data ++ more).length data.length = data.length := by
    rw [List.length_append]
    omega
  simp only [scanData, all, if_neg pos.ne', List.drop_left, Nat.sub_self, if_true,
    List.take_left]

/-- The line end behind a chunk's data is skipped. -/
theorem scan_crlf {M t : Nat} {more out : Bytes} :
    scan M ⟨crlf ++ more, 0, true, t, out⟩ = scan M (atLine more t out) := by
  have two : ¬ (crlf ++ more).length < 2 := by
    rw [List.length_append]
    exact not_lt.mpr (Nat.le_add_right 2 more.length)
  have skipped : scanCrlf ⟨crlf ++ more, 0, true, t, out⟩ = .inr (atLine more t out) := by
    simp only [scanCrlf, not_true_eq_false, if_false, if_neg two]
    rfl
  have same : turn M ⟨crlf ++ more, 0, true, t, out⟩ = turn M (atLine more t out) := by
    rw [turn, skipped]
    rfl
  rw [scan_eq, same, ← scan_eq]

theorem scan_chunk {M t : Nat} {line data more out : Bytes} (noCrlf : NoCrlf line)
    (size : uvChunkSize line = some data.length) (some_data : data ≠ [])
    (room : t + data.length ≤ M) :
    scan M (atLine (line ++ crlf ++ (data ++ more)) t out) =
      scan M ⟨more, 0, true, t + data.length, out ++ data⟩ := by
  have within : decide (M < t + data.length) = false := decide_eq_false (not_lt.mpr room)
  rw [scan_eq, turn_atLine,
    scanSize_chunk noCrlf size (List.length_pos_iff.mpr some_data)]
  dsimp only
  rw [scanData_chunk some_data, within]

/-- The loop stops in the data of a chunk, or before the line end behind it. -/
theorem scan_short {M t n : Nat} {more out : Bytes} (here : more.length < n + 2) :
    (scan M ⟨more.drop (min more.length n), n - min more.length n,
      if n - min more.length n = 0 then true else false, t, out⟩).1 = .more := by
  by_cases all : n ≤ more.length
  · have rest : ¬ 2 ≤ (more.drop n).length := by
      rw [List.length_drop]
      omega
    rw [scan_eq, Nat.min_eq_right all, Nat.sub_self, if_pos rfl, turn]
    simp only [scanCrlf, not_true_eq_false, if_false, if_pos (not_le.mp rest)]
  · have none : more.drop more.length = [] := List.drop_length
    rw [scan_eq, Nat.min_eq_left (by omega), none, if_neg (by omega), turn]
    simp only [scanCrlf, Bool.false_eq_true, not_false_eq_true, if_true, if_neg (show n - more.length ≠ 0 by omega), scanData, List.length_nil, Nat.zero_min]

/-- What the loop makes of a byte string. -/
theorem reads_scan {M t : Nat} {p out : Bytes} {v : Verdict} (h : Reads M t p v) (cap : t ≤ M) :
    Agrees out v (scan M (atLine p t out)) := by
  induction h generalizing out with
  | @unfinished t p noCrlf short =>
      have line : findSub crlf p = none := noCrlf
      rw [scan_eq, turn_atLine]
      simp only [scanSize, atLine, line]
      rw [if_neg (not_lt.mpr short)]
      exact ⟨rfl, fun _ _ _ whole => by cases whole⟩
  | @endless t p noCrlf long =>
      have line : findSub crlf p = none := noCrlf
      rw [scan_eq, turn_atLine]
      simp only [scanSize, atLine, line]
      rw [if_pos long]
      exact ⟨rfl, fun _ _ _ whole => by cases whole⟩
  | @badSize t line more noCrlf size =>
      have here : (line ++ crlf ++ more).take line.length = line := by
        rw [List.append_assoc, List.take_left]
      rw [scan_eq, turn_atLine]
      simp only [scanSize, atLine, findSub_line noCrlf, here, size]
      exact ⟨rfl, fun _ _ _ whole => by cases whole⟩
  | @last t line more v noCrlf size trailers =>
      have here : (line ++ crlf ++ more).take line.length = line := by
        rw [List.append_assoc, List.take_left]
      have behind : (line ++ crlf ++ more).drop (line.length + 2) = more := by
        rw [← List.drop_drop, List.append_assoc, List.drop_left]
        rfl
      have length : (line ++ crlf ++ more).length = line.length + 2 + more.length := by
        rw [List.length_append, List.length_append]
        rfl
      have enough : more.length < (line ++ crlf ++ more).length + 1 := by omega
      obtain ⟨stop, whole⟩ := trailers_scan trailers behind rfl (by omega) enough
      rw [scan_eq, turn_atLine]
      simp only [scanSize, atLine, findSub_line noCrlf, here, size]
      rcases hs : scanTrailers (line ++ crlf ++ more) (line.length + 2)
        ((line ++ crlf ++ more).length + 1) (line.length + 2) 0 with ⟨e, pos⟩
      rw [hs] at stop whole
      dsimp only at stop whole
      subst stop
      cases v with
      | whole data m rest =>
          obtain ⟨rfl, left⟩ := whole data m rest rfl
          refine ⟨rfl, fun _ _ _ same => ?_⟩
          cases same
          exact ⟨(List.append_nil out).symm, left⟩
      | waiting | tripped | corrupt | beyond =>
          exact ⟨rfl, fun _ _ _ same => by cases same⟩
  | @beyond t n line more noCrlf size pos beyond =>
      have some_data : min more.length n ≠ 0 := by omega
      rw [scan_eq, turn_atLine, scanSize_chunk noCrlf size pos]
      simp only [scanData, if_neg some_data, decide_eq_true beyond]
      exact ⟨rfl, fun _ _ _ whole => by cases whole⟩
  | @short t n line more noCrlf size pos room here =>
      refine ⟨?_, fun _ _ _ whole => by cases whole⟩
      rw [scan_eq, turn_atLine, scanSize_chunk noCrlf size pos]
      by_cases none : min more.length n = 0
      · simp only [scanData, if_pos none]
        rfl
      · simp only [scanData, if_neg none, decide_eq_false (not_lt.mpr room)]
        exact scan_short (by omega)
  | @badEnd t line data stop more noCrlf size some_data room two bad =>
      rw [scan_chunk noCrlf size some_data room, scan_eq]
      have length : ¬ (stop ++ more).length < 2 := by
        rw [List.length_append]
        omega
      have first : (stop ++ more).take 2 = stop := by rw [← two, List.take_left]
      simp only [turn, scanCrlf, not_true_eq_false, if_false, if_neg length, first, ne_eq, bad,
        not_false_eq_true, if_true]
      exact ⟨rfl, fun _ _ _ whole => by cases whole⟩
  | @chunk t line data more v noCrlf size some_data room _ ih =>
      rw [scan_chunk noCrlf size some_data room, scan_crlf]
      obtain ⟨stop, whole⟩ := ih room
      cases v with
      | whole body m rest =>
          refine ⟨stop, fun _ _ _ same => ?_⟩
          cases same
          obtain ⟨decoded, left⟩ := whole body m rest rfl
          exact ⟨by rw [decoded, List.append_assoc], left⟩
      | waiting | tripped | corrupt | beyond =>
          exact ⟨stop, fun _ _ _ same => by cases same⟩

end NitroServer.Chunked
