/-
Chunked bodies as a prefix code: what `decodeChunked` says of a body and of its beginnings.

The decoder runs again on the growing buffer after every read, so it sees the beginnings of a
body before the body. `Body` is the grammar, with nothing of the decoder in it but its limits.

* `uvChunkSize_iff` — the size lines.
* `reads_body`, `body_of_reads` — the bodies, in the terms of `Reads`.
* `decodeChunks_beginning` — what the decoder says of a beginning.
* `prefixCode_iff` — when it takes the body whole and waits at every beginning of it.
-/

import NitroServer.Chunked.Agree
import NitroServer.Lib.Buffer

namespace NitroServer.Chunked

open Engine Lib

/-! ### The grammar -/

def isHex (b : UInt8) : Bool := (hexDigit b).isSome

def hexValue (digits : Bytes) : Nat :=
  Nat.ofDigits 16 (digits.map fun b => (hexDigit b).getD 0).reverse

/-- A chunk extension: from a semicolon on, no control byte. -/
def Extension (ext : Bytes) : Prop := ext = [] ∨ ext.head? = some 59 ∧ ∀ b ∈ ext, 0x20 ≤ b

/-- One to fifteen hex digits that spell `n`, and an extension. -/
def SizeLine (line : Bytes) (n : Nat) : Prop :=
  ∃ digits ext, line = digits ++ ext ∧ digits ≠ [] ∧ digits.length ≤ 15 ∧
    (∀ b ∈ digits, isHex b = true) ∧ Extension ext ∧ n = hexValue digits

structure Chunk where
  line : Bytes
  data : Bytes

def Chunk.text (c : Chunk) : Bytes := c.line ++ crlf ++ (c.data ++ crlf)

structure Body where
  chunks : List Chunk
  last : Bytes
  trailers : List Bytes

def trailerText (lines : List Bytes) : Bytes := lines.flatMap fun l => l ++ crlf

namespace Body

variable (b : Body)

/-- Up to the end of the zero size line. -/
def front : Bytes := b.chunks.flatMap Chunk.text ++ (b.last ++ crlf)

def text : Bytes := b.front ++ (trailerText b.trailers ++ crlf)

def data : Bytes := b.chunks.flatMap Chunk.data

/-- The accepted bodies. The trailer lines are counted up to the line end of the last one. -/
structure Accepted : Prop where
  chunks : ∀ c ∈ b.chunks, SizeLine c.line c.data.length ∧ c.data ≠ []
  last : SizeLine b.last 0
  lines : ∀ l ∈ b.trailers, NoCrlf l ∧ l ≠ []
  few : b.trailers.length ≤ kMaxTrailerLines
  short : (trailerText b.trailers).length ≤ kMaxTrailerBytes + 2

end Body

/-! ### Size lines -/

theorem chunkDigits_eq (line : Bytes) (size digits : Nat) :
    chunkDigits line size digits =
      ((line.takeWhile isHex).foldl (fun n b => n * 16 + (hexDigit b).getD 0) size,
        digits + (line.takeWhile isHex).length, line.dropWhile isHex) := by
  induction line generalizing size digits with
  | nil => rfl
  | cons b line ih =>
      rw [chunkDigits]
      cases digit : hexDigit b with
      | none =>
          have other : isHex b = false := by rw [isHex, digit]; rfl
          simp [other]
      | some d =>
          have hex : isHex b = true := by rw [isHex, digit]; rfl
          simp only [List.takeWhile_cons, List.dropWhile_cons, hex, if_true, List.foldl_cons,
            List.length_cons, digit, Option.getD_some, ih, Nat.add_assoc, Nat.add_comm 1]

/-- The digits of a line end where they are cut. -/
theorem isHex_cut {digits ext : Bytes} (hex : ∀ b ∈ digits, isHex b = true) (tail : Extension ext) :
    (digits ++ ext).takeWhile isHex = digits ∧ (digits ++ ext).dropWhile isHex = ext := by
  have stop : ext.takeWhile isHex = [] ∧ ext.dropWhile isHex = ext := by
    cases ext with
    | nil => exact ⟨rfl, rfl⟩
    | cons b ext =>
        obtain ⟨semicolon, -⟩ := tail.resolve_left (List.cons_ne_nil b ext)
        have other : isHex b = false := by
          rw [Option.some.inj semicolon]
          decide
        exact ⟨List.takeWhile_cons_of_neg (by simp [other]),
          List.dropWhile_cons_of_neg (by simp [other])⟩
  rw [List.takeWhile_append_of_pos hex, List.dropWhile_append_of_pos hex, stop.1, stop.2,
    List.append_nil]
  exact ⟨rfl, rfl⟩

theorem uvChunkSize_iff {line : Bytes} {n : Nat} : uvChunkSize line = some n ↔ SizeLine line n := by
  have value : ∀ digits : Bytes,
      digits.foldl (fun n b => n * 16 + (hexDigit b).getD 0) 0 = hexValue digits := by
    intro digits
    rw [Buffer.foldl_ofDigits, Nat.zero_mul, Nat.zero_add, hexValue]
  rw [uvChunkSize, chunkDigits_eq]
  dsimp only
  rw [Nat.zero_add]
  constructor
  · intro size
    split at size
    · cases size
    rename_i short
    split at size
    · cases size
    rename_i some_
    refine ⟨line.takeWhile isHex, line.dropWhile isHex, List.takeWhile_append_dropWhile.symm, ?_,
      not_lt.mp short, fun b mem => List.mem_takeWhile_imp mem, ?_, ?_⟩
    · exact fun none_ => some_ (List.length_eq_zero_iff.mpr none_)
    · split at size
      · rename_i none_
        exact .inl none_
      · split at size
        · rename_i ext
          exact .inr ⟨ext.1, by simpa using ext.2⟩
        · cases size
    · rw [← value]
      split at size
      · exact (Option.some.inj size).symm
      · split at size
        · exact (Option.some.inj size).symm
        · cases size
  · rintro ⟨digits, ext, rfl, some_, short, hex, tail, rfl⟩
    obtain ⟨front, back⟩ := isHex_cut hex tail
    rw [front, back, if_neg (not_lt.mpr short),
      if_neg fun none_ => some_ (List.length_eq_zero_iff.mp none_), value]
    rcases tail with none_ | ⟨semicolon, plain⟩
    · rw [if_pos none_]
    · split
      · rfl
      · rw [if_pos ⟨semicolon, by simpa using plain⟩]

theorem SizeLine.noCrlf {line : Bytes} {n : Nat} (h : SizeLine line n) : NoCrlf line := by
  obtain ⟨digits, ext, rfl, -, -, hex, tail, -⟩ := h
  have other : isHex 13 = false := by decide
  have free : 13 ∉ digits ++ ext := by
    intro mem
    rcases List.mem_append.mp mem with mem | mem
    · rw [hex 13 mem] at other
      cases other
    · rcases tail with rfl | ⟨-, plain⟩
      · cases mem
      · exact absurd (plain 13 mem) (by decide)
  have absent : ¬ (findSub crlf (digits ++ ext)).isSome = true := by
    rw [findSub_isSome]
    intro inside
    exact free (inside.subset List.mem_cons_self)
  exact Option.not_isSome_iff_eq_none.mp absent

/-! ### Bodies and readings -/

theorem trailerText_cons (l : Bytes) (ls : List Bytes) :
    trailerText (l :: ls) = l ++ crlf ++ trailerText ls :=
  List.flatMap_cons

theorem trailers_body {ls : List Bytes} (lines : ∀ l ∈ ls, NoCrlf l ∧ l ≠ []) {k n : Nat}
    (few : k + ls.length ≤ kMaxTrailerLines) (rest : Bytes) :
    Trailers k n (trailerText ls ++ crlf ++ rest) (.whole [] (n + (trailerText ls).length) rest) := by
  induction ls generalizing k n with
  | nil => exact .blank
  | cons l ls ih =>
      obtain ⟨noCrlf, some_⟩ := lines l List.mem_cons_self
      have two : crlf.length = 2 := rfl
      have total : n + (trailerText (l :: ls)).length =
          n + l.length + 2 + (trailerText ls).length := by
        rw [trailerText_cons, List.length_append, List.length_append, two]
        omega
      rw [List.length_cons] at few
      rw [total, trailerText_cons, List.append_assoc, List.append_assoc]
      apply Trailers.line noCrlf some_ (by omega)
      rw [← List.append_assoc]
      exact ih (fun l mem => lines l (List.mem_cons_of_mem _ mem)) (by omega)

theorem body_of_trailers {k n m : Nat} {p data rest : Bytes} {v : Verdict} (h : Trailers k n p v)
    (hv : v = .whole data m rest) (room : k ≤ kMaxTrailerLines) :
    ∃ ls, (∀ l ∈ ls, NoCrlf l ∧ l ≠ []) ∧ k + ls.length ≤ kMaxTrailerLines ∧
      p = trailerText ls ++ crlf ++ rest ∧ m = n + (trailerText ls).length := by
  induction h with
  | unfinished | endless | tooMany => cases hv
  | blank =>
      cases hv
      exact ⟨[], nofun, room, rfl, rfl⟩
  | @line k n l more v noCrlf some_ few _ ih =>
      obtain ⟨ls, lines, few', rfl, rfl⟩ := ih hv few
      have two : crlf.length = 2 := rfl
      refine ⟨l :: ls, ?_, ?_, ?_, ?_⟩
      · intro l' mem
        rcases List.mem_cons.mp mem with rfl | mem
        · exact ⟨noCrlf, some_⟩
        · exact lines l' mem
      · rw [List.length_cons]
        omega
      · simp only [trailerText_cons, List.append_assoc]
      · rw [trailerText_cons, List.length_append, List.length_append, two]
        omega

namespace Body

variable {b : Body} {c : Chunk} {cs : List Chunk} {last : Bytes} {trailers : List Bytes}

theorem text_nil : text ⟨[], last, trailers⟩ = last ++ crlf ++ (trailerText trailers ++ crlf) := rfl

theorem text_cons : text ⟨c :: cs, last, trailers⟩ =
    c.line ++ crlf ++ (c.data ++ (crlf ++ text ⟨cs, last, trailers⟩)) := by
  simp [text, front, Chunk.text]

theorem data_cons : data ⟨c :: cs, last, trailers⟩ = c.data ++ data ⟨cs, last, trailers⟩ :=
  List.flatMap_cons

theorem Accepted.tail (h : Accepted ⟨c :: cs, last, trailers⟩) : Accepted ⟨cs, last, trailers⟩ where
  chunks c' mem := h.chunks c' (List.mem_cons_of_mem c mem)
  last := h.last
  lines := h.lines
  few := h.few
  short := h.short

end Body

theorem reads_body {b : Body} (accepted : b.Accepted) {M t : Nat} (room : t + b.data.length ≤ M)
    (rest : Bytes) :
    Reads M t (b.text ++ rest) (.whole b.data (trailerText b.trailers).length rest) := by
  obtain ⟨chunks, last, trailers⟩ := b
  induction chunks generalizing t with
  | nil =>
      have tail := trailers_body accepted.lines (k := 0) (n := 0) (by simpa using accepted.few) rest
      rw [Nat.zero_add] at tail
      rw [Body.text_nil, List.append_assoc]
      exact .last accepted.last.noCrlf (uvChunkSize_iff.mpr accepted.last) tail
  | cons c cs ih =>
      obtain ⟨size, some_⟩ := accepted.chunks c List.mem_cons_self
      rw [Body.data_cons, List.length_append] at room
      have tail := ih accepted.tail (t := t + c.data.length) (by omega)
      rw [Body.text_cons, Body.data_cons]
      simp only [List.append_assoc]
      rw [← List.append_assoc c.line]
      exact .chunk size.noCrlf (uvChunkSize_iff.mpr size) some_ (by omega) tail

theorem body_of_reads {M t m : Nat} {p data rest : Bytes} {v : Verdict} (h : Reads M t p v)
    (hv : v = .whole data m rest) (short : m ≤ kMaxTrailerBytes + 2) (room : t ≤ M) :
    ∃ b : Body, b.Accepted ∧ p = b.text ++ rest ∧ b.data = data ∧ t + data.length ≤ M := by
  induction h generalizing data with
  | unfinished | endless | badSize | beyond | short | badEnd => cases hv
  | @last t line more v noCrlf size trailers =>
      obtain ⟨ls, lines, few, rfl, rfl⟩ := body_of_trailers trailers hv (Nat.zero_le _)
      obtain ⟨rfl, -⟩ := trailers_le trailers hv
      refine ⟨⟨[], line, ls⟩, ⟨nofun, uvChunkSize_iff.mp size, lines, by simpa using few,
        by simpa using short⟩, ?_, rfl, room⟩
      simp only [Body.text_nil, List.append_assoc]
  | @chunk t line chunk more v noCrlf size some_ fits _ ih =>
      cases v with
      | whole body m' rest' =>
          cases hv
          obtain ⟨⟨cs, last, ls⟩, accepted, rfl, rfl, fits'⟩ := ih rfl fits
          refine ⟨⟨⟨line, chunk⟩ :: cs, last, ls⟩, ?_, ?_, Body.data_cons, ?_⟩
          · exact {
              chunks := by
                intro c mem
                rcases List.mem_cons.mp mem with rfl | mem
                · exact ⟨uvChunkSize_iff.mp size, some_⟩
                · exact accepted.chunks c mem
              last := accepted.last
              lines := accepted.lines
              few := accepted.few
              short := accepted.short }
          · simp only [Body.text_cons, List.append_assoc]
          · rw [List.length_append]
            omega
      | waiting | tripped | corrupt | beyond => cases hv

/-! ### Beginnings -/

section Beginnings

variable {buf p q line more body out : Bytes} {start M pos t k n fuel : Nat}

/-- A beginning that ends within the first part, or goes on. -/
theorem prefix_append_cases {a p q : Bytes} (begins : p <+: a ++ q) :
    p.length < a.length ∨ ∃ p', p = a ++ p' ∧ p' <+: q := by
  by_cases short : p.length < a.length
  · exact .inl short
  · obtain ⟨p', rfl⟩ := List.prefix_of_prefix_length_le (List.prefix_append a q) begins
      (not_lt.mp short)
    exact .inr ⟨p', rfl, (List.prefix_append_right_inj a).mp begins⟩

/-- A beginning that ends within the first line has no line end. -/
theorem noCrlf_beginning (noCrlf : NoCrlf line) (begins : p <+: line ++ crlf ++ more)
    (short : p.length < (line ++ crlf).length) : NoCrlf p := by
  obtain ⟨t, whole⟩ := begins
  have found := findSub_line noCrlf more
  rw [← whole] at found
  have two : crlf.length = 2 := rfl
  rw [List.length_append] at short
  exact findSub_eq_none_of_short found short

/-- What the decoder says of a beginning that reaches `past` bytes into the trailer section. -/
def verdictAt (buf : Bytes) (start M past : Nat) : ChunkResult :=
  if kMaxTrailerBytes < past then .malformed else decodeOverCap buf start M

/-- A trailer line is passed. -/
theorem decodeTrailers_line {l : Bytes} (noCrlf : NoCrlf l) (some_ : l ≠ [])
    (few : k < kMaxTrailerLines) (short : t + l.length - pos ≤ kMaxTrailerBytes)
    (hp : buf.drop t = l ++ crlf ++ more) :
    decodeTrailers buf start M body pos (fuel + 1) t k =
      decodeTrailers buf start M body pos fuel (t + l.length + 2) (k + 1) := by
  obtain ⟨e, he⟩ : ∃ e, l.length = e + 1 :=
    Nat.exists_eq_succ_of_ne_zero fun zero => some_ (List.length_eq_zero_iff.mp zero)
  rw [he] at short
  simp only [decodeTrailers, hp, findSub_line noCrlf, he]
  rw [if_neg (by omega)]

/-- A beginning without a line end stops the trailer loop. -/
theorem decodeTrailers_stop (noCrlf : NoCrlf p) (hp : buf.drop t = p) (ht : t = pos + n)
    (inside : t ≤ buf.length) :
    decodeTrailers buf start M body pos (fuel + 1) t k = verdictAt buf start M (n + p.length) := by
  have none_ : findSub crlf p = none := noCrlf
  have total : buf.length - pos = n + p.length := by
    rw [← hp, List.length_drop]
    omega
  simp only [decodeTrailers, hp, none_, total, verdictAt]

theorem decodeTrailers_beginning {ls : List Bytes} (lines : ∀ l ∈ ls, NoCrlf l ∧ l ≠ [])
    (few : k + ls.length ≤ kMaxTrailerLines)
    (short : n + (trailerText ls).length ≤ kMaxTrailerBytes + 2)
    (begins : p <+: trailerText ls ++ crlf) (proper : p.length < (trailerText ls ++ crlf).length)
    (hp : buf.drop t = p) (ht : t = pos + n) (inside : t ≤ buf.length) (enough : p.length < fuel) :
    decodeTrailers buf start M body pos fuel t k = verdictAt buf start M (n + p.length) := by
  obtain ⟨fuel, rfl⟩ : ∃ f, fuel = f + 1 := ⟨fuel - 1, by omega⟩
  induction ls generalizing p t k n fuel with
  | nil =>
      have blank : p <+: ([] : Bytes) ++ crlf ++ [] := begins
      exact decodeTrailers_stop (noCrlf_beginning (rfl : NoCrlf []) blank proper) hp ht inside
  | cons l ls ih =>
      obtain ⟨noCrlf, some_⟩ := lines l List.mem_cons_self
      rw [trailerText_cons, List.append_assoc] at begins proper
      rcases prefix_append_cases begins with here | ⟨p', rfl, begins'⟩
      · exact decodeTrailers_stop (noCrlf_beginning noCrlf begins here) hp ht inside
      have two : crlf.length = 2 := rfl
      have length := congrArg List.length hp
      rw [trailerText_cons] at short
      simp only [List.length_append, List.length_drop, List.length_cons, two] at *
      rw [decodeTrailers_line noCrlf some_ (by omega) (by omega) hp]
      obtain ⟨fuel, rfl⟩ : ∃ f, fuel = f + 1 := ⟨fuel - 1, by omega⟩
      rw [ih (k := k + 1) (n := n + l.length + 2)
        (fun l mem => lines l (List.mem_cons_of_mem _ mem)) (by omega) (by omega) begins' (by omega)
        (drop_line hp) (by omega) (by omega) fuel (by omega)]
      congr 1
      omega

theorem decodeChunks_stop (noCrlf : NoCrlf p) (hp : buf.drop pos = p) :
    decodeChunks buf start M (fuel + 1) pos out = decodeOverCap buf start M := by
  have none_ : findSub crlf p = none := noCrlf
  simp only [decodeChunks, hp, none_]

/-- What the decoder says of a beginning: the cap of the buffer, and within the trailer section
the budget of that before it. -/
theorem decodeChunks_beginning {b : Body} (accepted : b.Accepted)
    (room : out.length + b.data.length ≤ M) (begins : p <+: b.text)
    (proper : p.length < b.text.length) (hp : buf.drop pos = p) (inside : pos ≤ buf.length)
    (enough : p.length < fuel) :
    decodeChunks buf start M fuel pos out =
      verdictAt buf start M (p.length - b.front.length) := by
  have two : crlf.length = 2 := rfl
  have length := congrArg List.length hp
  rw [List.length_drop] at length
  obtain ⟨fuel, rfl⟩ : ∃ f, fuel = f + 1 := ⟨fuel - 1, by omega⟩
  obtain ⟨chunks, last, trailers⟩ := b
  induction chunks generalizing p pos out fuel with
  | nil =>
      have front : (Body.front ⟨[], last, trailers⟩).length = last.length + 2 := by
        simp [Body.front, two]
      rw [Body.text_nil] at begins proper
      rw [front]
      rcases prefix_append_cases begins with here | ⟨q, rfl, begins'⟩
      · rw [decodeChunks_stop (noCrlf_beginning accepted.last.noCrlf begins here) hp, verdictAt,
          if_neg]
        rw [List.length_append, two] at here
        omega
      · simp only [List.length_append, two] at proper length enough ⊢
        rw [decode_last accepted.last.noCrlf hp (uvChunkSize_iff.mpr accepted.last),
          decodeTrailers_beginning accepted.lines (by simpa using accepted.few) (n := 0)
            (by simpa using accepted.short) begins' (by simpa [two] using proper) (drop_line hp) rfl
            (by omega) (by omega)]
        congr 1
        omega
  | cons c cs ih =>
      obtain ⟨size, some_⟩ := accepted.chunks c List.mem_cons_self
      have front : (Body.front ⟨c :: cs, last, trailers⟩).length =
          c.line.length + 2 + c.data.length + 2 + (Body.front ⟨cs, last, trailers⟩).length := by
        simp [Body.front, Chunk.text, two]
        omega
      rw [Body.text_cons] at begins proper
      rw [Body.data_cons, List.length_append] at room
      rw [front]
      rcases prefix_append_cases begins with here | ⟨q, rfl, begins'⟩
      · rw [decodeChunks_stop (noCrlf_beginning size.noCrlf begins here) hp, verdictAt, if_neg]
        rw [List.length_append, two] at here
        omega
      rw [← List.append_assoc c.data] at begins'
      rcases prefix_append_cases begins' with here | ⟨q, rfl, rest⟩
      · simp only [List.length_append, two] at here length enough ⊢
        rw [decode_sized size.noCrlf hp (uvChunkSize_iff.mpr size) (List.length_pos_iff.mpr some_),
          if_neg (by omega), if_pos (by omega), verdictAt, if_neg (by omega)]
      · rw [List.append_assoc c.data] at hp
        have behind : buf.drop (pos + c.line.length + 2 + c.data.length + 2) = q := by
          rw [← List.drop_drop, ← List.drop_drop, drop_line hp, List.drop_left]
          rfl
        simp only [List.length_append, two] at proper length enough ⊢
        obtain ⟨fuel, rfl⟩ : ∃ f, fuel = f + 1 := ⟨fuel - 1, by omega⟩
        rw [decode_chunk size.noCrlf (uvChunkSize_iff.mpr size) some_ (by omega) rfl hp,
          if_neg (not_not_intro rfl),
          ih behind (by omega) (by omega) fuel (by omega) accepted.tail
            (by rw [List.length_append]; omega) rest (by omega)]
        congr 1
        omega

end Beginnings

/-! ### The code -/

/-- The decoder takes the body whole, whatever follows it, and waits at every beginning. -/
structure PrefixRead (H : Bytes) (M : Nat) (b : Body) : Prop where
  whole : ∀ R, decodeChunked (H ++ (b.text ++ R)) H.length M =
    .complete b.data (H.length + b.text.length)
  waits : ∀ p, p <+: b.text → p ≠ b.text → decodeChunked (H ++ p) H.length M = .needMore

section Code

variable {H : Bytes} {M : Nat} {b : Body}

theorem decodeChunked_body (accepted : b.Accepted) (room : b.data.length ≤ M) (R : Bytes) :
    decodeChunked (H ++ (b.text ++ R)) H.length M =
      .complete b.data (H.length + b.text.length) := by
  have reads : Reads M 0 _ _ := reads_body accepted (by omega) R
  have length : (H ++ (b.text ++ R)).length - R.length = H.length + b.text.length := by
    simp only [List.length_append]
    omega
  rw [decodeChunked, reads_decode reads List.drop_left (by simp) rfl (by simp)]
  exact ⟨b.data, _, R, rfl, accepted.short, rfl, length.symm⟩

theorem decodeChunked_beginning (accepted : b.Accepted) (room : b.data.length ≤ M) {p : Bytes}
    (begins : p <+: b.text) (proper : p ≠ b.text) :
    decodeChunked (H ++ p) H.length M =
      if kMaxTrailerBytes < p.length - b.front.length then .malformed
      else if M + 1024 < p.length then .overCap
      else .needMore := by
  have short : p.length < b.text.length := by
    apply lt_of_le_of_ne begins.length_le
    intro same
    exact proper (begins.eq_of_length same)
  have buffered : (H ++ p).length - H.length = p.length := by
    rw [List.length_append]
    omega
  rw [decodeChunked, decodeChunks_beginning accepted (by simpa using room) begins short
    List.drop_left (by simp) (by simp), verdictAt, decodeOverCap, buffered]

/-- A body is taken whole. The decoder waits at each of its beginnings exactly when all but the
last byte of it stay within the cap and the slack, and all but the last byte of the trailer section
within the budget of that. -/
theorem prefixRead_iff (accepted : b.Accepted) (room : b.data.length ≤ M) :
    PrefixRead H M b ↔
      b.text.length ≤ M + 1025 ∧ (trailerText b.trailers).length < kMaxTrailerBytes := by
  have two : crlf.length = 2 := rfl
  have parts : b.text.length = b.front.length + (trailerText b.trailers).length + 2 := by
    rw [Body.text, List.length_append, List.length_append, two]
    omega
  constructor
  · intro reads
    have most : b.text.dropLast.length = b.text.length - 1 := List.length_dropLast
    have proper : b.text.dropLast ≠ b.text := by
      intro same
      rw [same] at most
      omega
    have waits := reads.waits _ (List.dropLast_prefix _) proper
    rw [decodeChunked_beginning accepted room (List.dropLast_prefix _) proper, most] at waits
    split at waits
    · cases waits
    · split at waits
      · cases waits
      · omega
  · rintro ⟨fits, short⟩
    refine ⟨decodeChunked_body accepted room, ?_⟩
    intro p begins proper
    have less : p.length < b.text.length := by
      apply lt_of_le_of_ne begins.length_le
      intro same
      exact proper (begins.eq_of_length same)
    rw [decodeChunked_beginning accepted room begins proper, if_neg (by omega), if_neg (by omega)]

/-- What is taken is a body. -/
theorem body_of_decodeChunked {S D : Bytes} {E : Nat}
    (taken : decodeChunked (H ++ S) H.length M = .complete D E) :
    ∃ b : Body, ∃ R, b.Accepted ∧ b.data.length ≤ M ∧ S = b.text ++ R ∧ D = b.data ∧
      E = H.length + b.text.length := by
  obtain ⟨v, reads⟩ := reads_total M 0 S
  rw [decodeChunked, reads_decode reads List.drop_left (by simp) rfl (by simp)] at taken
  obtain ⟨data, m, R, rfl, short, rfl, rfl⟩ := taken
  obtain ⟨b, accepted, rfl, rfl, room⟩ := body_of_reads reads rfl short (Nat.zero_le M)
  refine ⟨b, R, accepted, by omega, rfl, rfl, ?_⟩
  simp only [List.length_append]
  omega

end Code

/-! #### An upload in small chunks -/

/-- `n` chunks of one byte. -/
def dribble (n : Nat) : Body := ⟨List.replicate n ⟨ascii "1", ascii "a"⟩, ascii "0", []⟩

theorem dribble_accepted (n : Nat) : (dribble n).Accepted where
  chunks c mem := by
    rw [List.eq_of_mem_replicate mem]
    exact ⟨uvChunkSize_iff.mp (by decide), by decide⟩
  last := by
    have zero : uvChunkSize (ascii "0") = some 0 := by decide
    exact uvChunkSize_iff.mp zero
  lines := nofun
  few := Nat.zero_le _
  short := Nat.zero_le _

theorem dribble_length (n : Nat) :
    (dribble n).data.length = n ∧ (dribble n).text.length = 6 * n + 5 := by
  have chunk : (Chunk.text ⟨ascii "1", ascii "a"⟩).length = 6 := by decide
  have data : (ascii "a").length = 1 := by decide
  have front : (ascii "0").length = 1 := by decide
  have two : crlf.length = 2 := rfl
  constructor
  · simp [dribble, Body.data, data]
  · simp [dribble, Body.text, Body.front, trailerText, chunk, front, two]
    omega

end NitroServer.Chunked
