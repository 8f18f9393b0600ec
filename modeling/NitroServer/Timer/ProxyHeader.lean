/-
The PROXY protocol header as a grammar, and the incremental parser against it.

`ProxyHeader inet ip h` says that `h` is a header that names `ip` (nothing, where the client is the
socket's peer). `uvParseProxyHeader` sees a beginning of what the connection sends, and again
after every read.

* `parse_header` — behind a header it is recognized, with its address and its length.
* `parse_done` — what is recognized is a header, up to two slips: a v1 line of 108 bytes passes,
  and so does an address with a NUL byte behind it.
* `waiting_more`, `more_waiting` — no answer yet where the fixed part, the line end or the
  announced length is outstanding. What is there already is not looked at: `PROXY X` waits.
* `parse_append` — an answer is final.
* `proxy_header` — all of it, and that a connection's outcome does not depend on the reads.
-/

import NitroServer.Chunked.Grammar
import NitroServer.Timer.Proxy

namespace NitroServer.Engine

open NitroServer.Lib
open Chunked (NoCrlf findSub_line split_line)

/-! ### Headers -/

def family (v6 : Bool) : Bytes := if v6 then ascii "TCP6" else ascii "TCP4"

/-- The address in the body of a v2 header of command 1. -/
inductive V2Address (inet : Inet) (fam : UInt8) (body : Bytes) : Bytes → Prop
  | unspecified (unspec : fam.toNat / 16 = 0) : V2Address inet fam body []
  | v4 (af : fam.toNat / 16 = 1) (room : 12 ≤ body.length) :
      V2Address inet fam body (inet.ntop false (body.take 4))
  | v6 (af : fam.toNat / 16 = 2) (room : 36 ≤ body.length) :
      V2Address inet fam body (inet.ntop true (body.take 16))

/-- A line of v1 in front of its line end, of at most 107 bytes with it. -/
structure V1Line (line : Bytes) : Prop where
  single : NoCrlf line
  short : line.length + 2 ≤ 107

/-- A header, by the address it names. -/
inductive ProxyHeader (inet : Inet) : Bytes → Bytes → Prop
  | unknown {rest : List Bytes} (spaceless : ∀ tok ∈ rest, 32 ∉ tok)
      (line : V1Line (kV1 ++ [32].intercalate (ascii "UNKNOWN" :: rest))) :
      ProxyHeader inet [] (kV1 ++ [32].intercalate (ascii "UNKNOWN" :: rest) ++ crlf)
  | tcp {v6 : Bool} {src dst sport dport : Bytes}
      (spaceless : ∀ tok ∈ [src, dst, sport, dport], (32 : UInt8) ∉ tok)
      (line : V1Line (kV1 ++ [32].intercalate [family v6, src, dst, sport, dport]))
      (source : inet.pton v6 src = true) (nul : 0 ∉ src)
      (destination : inet.pton v6 dst = true) (nul' : 0 ∉ dst)
      (sports : isPort sport = true) (dports : isPort dport = true) :
      ProxyHeader inet src (kV1 ++ [32].intercalate [family v6, src, dst, sport, dport] ++ crlf)
  | localCommand {c fam hi lo : UInt8} {body : Bytes} (version : c.toNat / 16 = 2)
      (command : c.toNat % 16 = 0) (length : body.length = hi.toNat * 256 + lo.toNat) :
      ProxyHeader inet [] (kV2Sig ++ c :: fam :: hi :: lo :: body)
  | proxyCommand {c fam hi lo : UInt8} {body ip : Bytes} (version : c.toNat / 16 = 2)
      (command : c.toNat % 16 = 1) (length : body.length = hi.toNat * 256 + lo.toNat)
      (address : V2Address inet fam body ip) :
      ProxyHeader inet ip (kV2Sig ++ c :: fam :: hi :: lo :: body)

/-- What the parser lets pass besides: a v1 line of 108 bytes, or addresses with a NUL byte. -/
def Loose (h : Bytes) : Prop := kV1 <+: h ∧ (h.length = 108 ∨ 0 ∈ h)

/-- A beginning that is not looked at yet. -/
inductive Waiting (limit : Nat) : Bytes → Prop
  | v1Start {buf : Bytes} (start : buf <+: kV1) : Waiting limit buf
  | v2Start {buf : Bytes} (start : buf <+: kV2Sig) : Waiting limit buf
  | line {s : Bytes} (single : NoCrlf (kV1 ++ s)) (short : (kV1 ++ s).length < limit) :
      Waiting limit (kV1 ++ s)
  | fixed {s : Bytes} (short : s.length < 4) : Waiting limit (kV2Sig ++ s)
  | addresses {c fam hi lo : UInt8} {body : Bytes} (version : c.toNat / 16 = 2)
      (short : body.length < hi.toNat * 256 + lo.toNat) :
      Waiting limit (kV2Sig ++ c :: fam :: hi :: lo :: body)

/-! ### The start of a header -/

section Start

variable {inet : Inet} {buf data : Bytes}

theorem take_eq_take_iff (pat : Bytes) : buf.take pat.length = pat.take buf.length ↔
    buf <+: pat ∨ pat <+: buf := by
  rcases Nat.le_total buf.length pat.length with short | long
  · rw [List.take_of_length_le short, ← List.prefix_iff_eq_take]
    refine ⟨.inl, ?_⟩
    rintro (front | front)
    · exact front
    · exact (front.eq_of_length_le short).symm ▸ List.prefix_refl _
  · rw [List.take_of_length_le long, eq_comm, ← List.prefix_iff_eq_take]
    refine ⟨.inr, ?_⟩
    rintro (front | front)
    · exact (front.eq_of_length_le long).symm ▸ List.prefix_refl _
    · exact front

theorem not_sig_of_v1 (v1 : kV1 <+: buf) : ¬ kV2Sig <+: buf ∧ ¬ buf <+: kV2Sig := by
  have other : some (80 : UInt8) ≠ some 13 := by decide
  obtain ⟨s, rfl⟩ := v1
  constructor
  · rintro ⟨t, same⟩
    have heads : some (13 : UInt8) = some 80 := congrArg List.head? same
    exact other heads.symm
  · rintro ⟨t, same⟩
    have heads : some (80 : UInt8) = some 13 := congrArg List.head? same
    exact other heads

/-- The four ways a buffer can start. -/
theorem uvParseProxyHeader_eq (inet : Inet) (buf : Bytes) :
    uvParseProxyHeader inet buf =
      if kV2Sig <+: buf then proxyV2 inet buf
      else if kV1 <+: buf then proxyV1 inet buf
      else if buf <+: kV1 ∨ buf <+: kV2Sig then .more
      else .bad := by
  have sig : 12 ≤ buf.length ∧ buf.take 12 = kV2Sig ↔ kV2Sig <+: buf := by
    constructor
    · rintro ⟨-, same⟩
      exact same ▸ List.take_prefix 12 buf
    · intro front
      exact ⟨front.length_le, (List.prefix_iff_eq_take.mp front).symm⟩
  have v1 : buf.take 6 = kV1.take buf.length ↔ buf <+: kV1 ∨ kV1 <+: buf :=
    take_eq_take_iff kV1
  have sigStart : buf.length < 12 ∧ buf = kV2Sig.take buf.length ↔
      buf <+: kV2Sig ∧ ¬ kV2Sig <+: buf := by
    rw [← List.prefix_iff_eq_take]
    constructor
    · rintro ⟨short, front⟩
      exact ⟨front, fun back => absurd back.length_le (Nat.not_le.mpr short)⟩
    · rintro ⟨front, back⟩
      refine ⟨?_, front⟩
      by_contra long
      have whole := front.eq_of_length_le (Nat.le_of_not_lt long)
      exact back (whole ▸ List.prefix_refl _)
  rw [uvParseProxyHeader]
  simp only [sig, v1, sigStart, ne_eq, ite_not]
  by_cases binary : kV2Sig <+: buf
  · rw [if_pos binary, if_pos binary]
  rw [if_neg binary, if_neg binary]
  by_cases line : kV1 <+: buf
  · rw [if_pos (.inr line), if_pos line]
  rw [if_neg line]
  by_cases start : buf <+: kV1
  · have absent : findSub crlf buf = none := by
      rw [← Option.not_isSome_iff_eq_none, findSub_isSome]
      intro occurs
      have mem : (13 : UInt8) ∈ kV1 := start.subset (occurs.subset List.mem_cons_self)
      exact absurd mem (by decide)
    have short : buf.length ≤ 6 := start.length_le
    rw [if_pos (.inl start), if_pos (.inl start), proxyV1, absent]
    exact if_neg (by omega)
  · rw [if_neg (by rintro (front | front) <;> contradiction)]
    by_cases front : buf <+: kV2Sig
    · rw [if_pos ⟨front, binary⟩, if_pos (.inr front)]
    · rw [if_neg fun both => front both.1, if_neg (by rintro (at_ | at_) <;> contradiction)]

/-- A text line. -/
theorem parse_v1 (inet : Inet) (s : Bytes) :
    uvParseProxyHeader inet (kV1 ++ s) = proxyV1 inet (kV1 ++ s) := by
  have front : kV1 <+: kV1 ++ s := List.prefix_append _ _
  rw [uvParseProxyHeader_eq, if_neg (not_sig_of_v1 front).1, if_pos front]

/-- The fixed part of a binary header. -/
theorem parse_v2 (inet : Inet) (c fam hi lo : UInt8) (body : Bytes) :
    uvParseProxyHeader inet (kV2Sig ++ c :: fam :: hi :: lo :: body) =
      if c.toNat / 16 ≠ 2 then .bad
      else if body.length < hi.toNat * 256 + lo.toNat then .more
      else if c.toNat % 16 = 0 then .done [] (16 + (hi.toNat * 256 + lo.toNat))
      else if c.toNat % 16 ≠ 1 then .bad
      else proxyV2Address inet (kV2Sig ++ c :: fam :: hi :: lo :: body)
        (hi.toNat * 256 + lo.toNat) := by
  have length : (kV2Sig ++ c :: fam :: hi :: lo :: body).length = 16 + body.length := by
    rw [List.length_append, List.length_cons, List.length_cons, List.length_cons, List.length_cons]
    have twelve : kV2Sig.length = 12 := rfl
    omega
  have announced : proxyV2Length (kV2Sig ++ c :: fam :: hi :: lo :: body) =
      hi.toNat * 256 + lo.toNat := rfl
  have command : (kV2Sig ++ c :: fam :: hi :: lo :: body).getD 12 0 = c := rfl
  rw [uvParseProxyHeader_eq, if_pos (List.prefix_append _ _), proxyV2, command, announced, length,
    if_neg (by omega)]
  simp only [Nat.add_lt_add_iff_left]

theorem parse_v2_short (inet : Inet) {s : Bytes} (short : s.length < 4) :
    uvParseProxyHeader inet (kV2Sig ++ s) = .more := by
  have twelve : kV2Sig.length = 12 := rfl
  rw [uvParseProxyHeader_eq, if_pos (List.prefix_append _ _), proxyV2,
    if_pos (by rw [List.length_append]; omega)]

/-- The address of a binary header, by its grammar. -/
theorem proxyV2Address_done_iff {c fam hi lo : UInt8} {body ip : Bytes} {len used : Nat}
    (whole : len ≤ body.length) :
    proxyV2Address inet (kV2Sig ++ c :: fam :: hi :: lo :: body) len = .done ip used ↔
      V2Address inet fam (body.take len) ip ∧ used = 16 + len := by
  have family_ : (kV2Sig ++ c :: fam :: hi :: lo :: body).getD 13 0 = fam := rfl
  have rest : (kV2Sig ++ c :: fam :: hi :: lo :: body).drop 16 = body := rfl
  have room : (body.take len).length = len := by
    rw [List.length_take]
    omega
  rw [proxyV2Address, family_, rest]
  constructor
  · intro done
    split at done
    · rename_i af
      split at done
      · cases done
      rename_i enough
      cases done
      have first : body.take 4 = (body.take len).take 4 := by
        rw [List.take_take, Nat.min_eq_left (by omega)]
      exact ⟨first ▸ .v4 af (by omega), rfl⟩
    split at done
    · rename_i af
      split at done
      · cases done
      rename_i enough
      cases done
      have first : body.take 16 = (body.take len).take 16 := by
        rw [List.take_take, Nat.min_eq_left (by omega)]
      exact ⟨first ▸ .v6 af (by omega), rfl⟩
    split at done
    · cases done
    · rename_i af
      cases done
      exact ⟨.unspecified (not_not.mp af), rfl⟩
  · rintro ⟨address, rfl⟩
    cases address with
    | unspecified unspec =>
        rw [if_neg (by omega), if_neg (by omega), if_neg (not_not.mpr unspec)]
    | v4 af enough =>
        rw [room] at enough
        rw [if_pos af, if_neg (by omega), List.take_take, Nat.min_eq_left (by omega)]
    | v6 af enough =>
        rw [room] at enough
        rw [if_neg (by omega), if_pos af, if_neg (by omega), List.take_take,
          Nat.min_eq_left (by omega)]

/-! ### Binary headers -/

theorem proxyV2Address_append (inet : Inet) {c fam hi lo : UInt8} {body : Bytes} {len : Nat}
    (whole : len ≤ body.length) :
    proxyV2Address inet (kV2Sig ++ c :: fam :: hi :: lo :: (body ++ data)) len =
      proxyV2Address inet (kV2Sig ++ c :: fam :: hi :: lo :: body) len := by
  have family_ : ∀ rest : Bytes, (kV2Sig ++ c :: fam :: hi :: lo :: rest).getD 13 0 = fam :=
    fun rest => rfl
  have rest_ : ∀ rest : Bytes, (kV2Sig ++ c :: fam :: hi :: lo :: rest).drop 16 = rest :=
    fun rest => rfl
  rw [proxyV2Address, proxyV2Address, family_, family_, rest_, rest_]
  by_cases v4 : len < 12
  · rw [if_pos v4, if_pos v4, if_pos (Nat.lt_trans v4 (by decide)),
      if_pos (Nat.lt_trans v4 (by decide))]
  · rw [List.take_append_of_le_length (by omega)]
    by_cases v6 : len < 36
    · rw [if_pos v6, if_pos v6]
    · rw [List.take_append_of_le_length (by omega)]

/-- The bytes behind the signature, when there are four. -/
theorem exists_fixed {s : Bytes} (long : 4 ≤ s.length) :
    ∃ c fam hi lo body, s = c :: fam :: hi :: lo :: body := by
  match s with
  | c :: fam :: hi :: lo :: body => exact ⟨c, fam, hi, lo, body, rfl⟩
  | [] | [_] | [_, _] | [_, _, _] => simp at long

/-! ### Text headers -/

theorem proxyV1_line (inet : Inet) {s : Bytes} (single : NoCrlf (kV1 ++ s)) (more : Bytes) :
    proxyV1 inet (kV1 ++ s ++ crlf ++ more) =
      if 106 < (kV1 ++ s).length then .bad
      else proxyV1Fields inet ((kV1 ++ s).length + 2) (splitAtSep 32 s) := by
  have body : (kV1 ++ s).drop 6 = s := rfl
  rw [proxyV1, findSub_line single]
  dsimp only
  rw [List.append_assoc, List.take_left, body]

/-- A text line is there as a whole, or not. -/
theorem v1_cases (s : Bytes) : NoCrlf (kV1 ++ s) ∨
    ∃ body more, s = body ++ crlf ++ more ∧ NoCrlf (kV1 ++ body) := by
  cases found : findSub crlf (kV1 ++ s) with
  | none => exact .inl found
  | some eol =>
      obtain ⟨single, length, shape⟩ := split_line found
      have six : 6 ≤ eol := by
        by_contra early
        have here : (kV1 ++ s)[eol]? = some 13 := by
          rw [shape, List.append_assoc, List.getElem?_append_right (by omega), length, Nat.sub_self]
          rfl
        rw [List.getElem?_append_left (Nat.lt_of_not_le early)] at here
        exact absurd (List.mem_of_getElem? here) (by decide)
      have front : (kV1 ++ s).take eol = kV1 ++ s.take (eol - 6) := by
        rw [List.take_append, List.take_of_length_le six]
        rfl
      rw [front] at single
      refine .inr ⟨s.take (eol - 6), (kV1 ++ s).drop (eol + 2), ?_, single⟩
      rw [front, List.append_assoc, List.append_assoc] at shape
      exact (List.append_cancel_left shape).trans (List.append_assoc ..).symm

theorem cString_free {s : Bytes} (nul : 0 ∉ s) : cString s = s := by
  rw [cString, List.takeWhile_eq_self_iff]
  rintro b mem
  rw [decide_eq_true_eq]
  rintro rfl
  exact nul mem

theorem family_ne (v6 : Bool) : family v6 ≠ ascii "UNKNOWN" ∧
    (family v6 = ascii "TCP4" ∨ family v6 = ascii "TCP6") ∧ (family v6 == ascii "TCP6") = v6 ∧
      (32 : UInt8) ∉ family v6 := by
  cases v6 <;> decide

/-- The fields of a line that is accepted. -/
theorem proxyV1Fields_done {used n : Nat} {toks : List Bytes} {ip : Bytes}
    (done : proxyV1Fields inet used toks = .done ip n) :
    n = used ∧ ((ip = [] ∧ ∃ rest, toks = ascii "UNKNOWN" :: rest) ∨
      ∃ v6 dst sport dport, toks = [family v6, ip, dst, sport, dport] ∧
        inet.pton v6 (cString ip) = true ∧ inet.pton v6 (cString dst) = true ∧
        isPort sport = true ∧ isPort dport = true) := by
  unfold proxyV1Fields at done
  split at done
  · rename_i fam rest
    split at done
    · rename_i unknown
      cases done
      exact ⟨rfl, .inl ⟨rfl, rest, by rw [unknown]⟩⟩
    split at done
    · rename_i src dst sport dport
      split at done
      · cases done
      rename_i tcp
      split at done
      · cases done
      rename_i valid
      split at done
      · rename_i ports
        cases done
        obtain ⟨v6, rfl⟩ : ∃ v6, fam = family v6 := by
          by_cases four : fam = ascii "TCP4"
          · exact ⟨false, four⟩
          · exact ⟨true, of_not_not fun six => tcp ⟨four, six⟩⟩
        rw [(family_ne v6).2.2.1, Bool.or_eq_true, Bool.not_eq_true', Bool.not_eq_true', not_or,
          Bool.not_eq_false, Bool.not_eq_false] at valid
        rw [Bool.and_eq_true] at ports
        exact ⟨rfl, .inr ⟨v6, dst, sport, dport, rfl, valid.1, valid.2, ports.1, ports.2⟩⟩
      · cases done
    · cases done
  · cases done

theorem proxyV1Fields_unknown (used : Nat) (rest : List Bytes) :
    proxyV1Fields inet used (ascii "UNKNOWN" :: rest) = .done [] used := by
  unfold proxyV1Fields
  exact if_pos rfl

theorem proxyV1Fields_tcp {v6 : Bool} {src dst sport dport : Bytes} (used : Nat)
    (source : inet.pton v6 (cString src) = true) (destination : inet.pton v6 (cString dst) = true)
    (sports : isPort sport = true) (dports : isPort dport = true) :
    proxyV1Fields inet used [family v6, src, dst, sport, dport] = .done src used := by
  obtain ⟨known, tcp, six, -⟩ := family_ne v6
  have other : ¬ (family v6 ≠ ascii "TCP4" ∧ family v6 ≠ ascii "TCP6") :=
    fun both => tcp.elim both.1 both.2
  simp only [proxyV1Fields, if_neg known, if_neg other, six, source, destination, sports, dports]
  rfl

/-! ### The verdict -/

/-- A header is recognized, whatever follows it. -/
theorem parse_header {ip h : Bytes} (header : ProxyHeader inet ip h) (more : Bytes) :
    uvParseProxyHeader inet (h ++ more) = .done ip h.length := by
  cases header with
  | @unknown rest spaceless line =>
      have free : ∀ tok ∈ ascii "UNKNOWN" :: rest, (32 : UInt8) ∉ tok :=
        List.forall_mem_cons.mpr ⟨by decide, spaceless⟩
      have short := line.short
      have length : (kV1 ++ [32].intercalate (ascii "UNKNOWN" :: rest) ++ crlf).length =
          (kV1 ++ [32].intercalate (ascii "UNKNOWN" :: rest)).length + 2 := List.length_append
      rw [List.append_assoc, List.append_assoc, parse_v1, ← List.append_assoc, ← List.append_assoc,
        proxyV1_line inet line.single, if_neg (by omega),
        splitAtSep_intercalate (List.cons_ne_nil _ _) free, proxyV1Fields_unknown, length]
  | @tcp v6 src dst sport dport spaceless line source nul destination nul' sports dports =>
      have free : ∀ tok ∈ [family v6, ip, dst, sport, dport], (32 : UInt8) ∉ tok :=
        List.forall_mem_cons.mpr ⟨(family_ne v6).2.2.2, spaceless⟩
      have short := line.short
      have length : (kV1 ++ [32].intercalate [family v6, ip, dst, sport, dport] ++ crlf).length =
          (kV1 ++ [32].intercalate [family v6, ip, dst, sport, dport]).length + 2 :=
        List.length_append
      rw [List.append_assoc, List.append_assoc, parse_v1, ← List.append_assoc, ← List.append_assoc,
        proxyV1_line inet line.single, if_neg (by omega),
        splitAtSep_intercalate (List.cons_ne_nil _ _) free, length]
      exact proxyV1Fields_tcp _ ((cString_free nul).symm ▸ source)
        ((cString_free nul').symm ▸ destination) sports dports
  | @localCommand c fam hi lo body version command length =>
      have used : (kV2Sig ++ c :: fam :: hi :: lo :: body).length =
          16 + (hi.toNat * 256 + lo.toNat) := by
        rw [← length, Nat.add_comm]
        rfl
      have shape : kV2Sig ++ c :: fam :: hi :: lo :: body ++ more =
          kV2Sig ++ c :: fam :: hi :: lo :: (body ++ more) := List.append_assoc _ _ _
      rw [used, shape, parse_v2, if_neg (not_not.mpr version),
        if_neg (by rw [List.length_append]; omega), if_pos command]
  | @proxyCommand c fam hi lo body _ version command length address =>
      have used : (kV2Sig ++ c :: fam :: hi :: lo :: body).length =
          16 + (hi.toNat * 256 + lo.toNat) := by
        rw [← length, Nat.add_comm]
        rfl
      have shape : kV2Sig ++ c :: fam :: hi :: lo :: body ++ more =
          kV2Sig ++ c :: fam :: hi :: lo :: (body ++ more) := List.append_assoc _ _ _
      rw [used, shape, parse_v2, if_neg (not_not.mpr version),
        if_neg (by rw [List.length_append]; omega), if_neg (by omega), if_neg (not_not.mpr command),
        proxyV2Address_append inet length.ge, proxyV2Address_done_iff length.ge, ← length,
        List.take_length]
      exact ⟨address, rfl⟩

/-- What is recognized is a header, up to the two slips. -/
theorem parse_done {ip : Bytes} {used : Nat} (done : uvParseProxyHeader inet buf = .done ip used) :
    used ≤ buf.length ∧ (ProxyHeader inet ip (buf.take used) ∨ Loose (buf.take used)) := by
  have start := done
  rw [uvParseProxyHeader_eq] at start
  split at start
  · rename_i binary
    obtain ⟨s, rfl⟩ := binary
    by_cases short : s.length < 4
    · rw [parse_v2_short inet short] at done
      cases done
    obtain ⟨c, fam, hi, lo, body, rfl⟩ := exists_fixed (Nat.le_of_not_lt short)
    have front : ∀ len, (kV2Sig ++ c :: fam :: hi :: lo :: body).take (16 + len) =
        kV2Sig ++ c :: fam :: hi :: lo :: body.take len := by
      intro len
      rw [Nat.add_comm]
      rfl
    have length : (kV2Sig ++ c :: fam :: hi :: lo :: body).length = 16 + body.length :=
      Nat.add_comm body.length 16
    rw [parse_v2] at done
    split at done
    · cases done
    rename_i version
    split at done
    · cases done
    rename_i whole
    have room : (body.take (hi.toNat * 256 + lo.toNat)).length = hi.toNat * 256 + lo.toNat := by
      rw [List.length_take]
      omega
    split at done
    · rename_i command
      cases done
      rw [front, length]
      exact ⟨by omega, .inl (.localCommand (not_not.mp version) command room)⟩
    split at done
    · cases done
    rename_i command
    obtain ⟨address, rfl⟩ := (proxyV2Address_done_iff (Nat.le_of_not_lt whole)).mp done
    rw [front, length]
    exact ⟨by omega, .inl (.proxyCommand (not_not.mp version) (not_not.mp command) room address)⟩
  split at start
  · rename_i line
    obtain ⟨s, rfl⟩ := line
    obtain single | ⟨body, more, rfl, single⟩ := v1_cases s
    · rw [proxyV1, single] at start
      dsimp only at start
      split at start
      · cases start
      · cases start
    rw [← List.append_assoc, ← List.append_assoc, proxyV1_line inet single] at start
    split at start
    · cases start
    rename_i fits
    obtain ⟨rfl, fields⟩ := proxyV1Fields_done start
    have length : (kV1 ++ body ++ crlf).length = (kV1 ++ body).length + 2 := List.length_append
    have front : (kV1 ++ (body ++ crlf ++ more)).take ((kV1 ++ body).length + 2) =
        kV1 ++ body ++ crlf := by
      rw [← List.append_assoc, ← List.append_assoc, ← length, List.take_left]
    have tokens : ∀ tok ∈ splitAtSep 32 body, (32 : UInt8) ∉ tok := fun tok mem =>
      mem_splitAtSep mem
    have joined := intercalate_splitAtSep (32 : UInt8) body
    rw [front]
    refine ⟨by rw [← length, ← front]; exact List.length_take_le' _ _, ?_⟩
    by_cases long : (kV1 ++ body).length = 106
    · exact .inr ⟨⟨body ++ crlf, (List.append_assoc _ _ _).symm⟩, .inl (by rw [length, long])⟩
    have v1Line : V1Line (kV1 ++ body) := ⟨single, by omega⟩
    rcases fields with ⟨rfl, rest, toks⟩ | ⟨v6, dst, sport, dport, toks, source, destination, ports⟩
    · rw [toks] at joined tokens
      rw [← joined] at v1Line ⊢
      exact .inl (.unknown (List.forall_mem_cons.mp tokens).2 v1Line)
    by_cases nul : (0 : UInt8) ∈ kV1 ++ body ++ crlf
    · exact .inr ⟨⟨body ++ crlf, (List.append_assoc _ _ _).symm⟩, .inr nul⟩
    rw [toks] at joined tokens
    have shape : body = family v6 ++ 32 :: (ip ++ 32 :: (dst ++ 32 :: (sport ++ 32 :: dport))) := by
      rw [← joined, intercalate_cons_cons, intercalate_cons_cons, intercalate_cons_cons,
        intercalate_cons_cons, List.intercalate_singleton]
    have nulSource : (0 : UInt8) ∉ ip := fun mem => nul (by simp [shape, mem])
    have nulDestination : (0 : UInt8) ∉ dst := fun mem => nul (by simp [shape, mem])
    rw [cString_free nulSource] at source
    rw [cString_free nulDestination] at destination
    rw [← joined] at v1Line ⊢
    exact .inl (.tcp (List.forall_mem_cons.mp tokens).2 v1Line source nulSource destination
      nulDestination ports.1 ports.2)
  split at start
  · cases start
  · cases start

/-- No answer yet where something is outstanding. -/
theorem waiting_more (waiting : Waiting 107 buf) : uvParseProxyHeader inet buf = .more := by
  cases waiting with
  | v1Start start =>
      by_cases whole : kV1 <+: buf
      · have same : buf = kV1 := start.eq_of_length_le whole.length_le
        rw [same]
        rfl
      · rw [uvParseProxyHeader_eq, if_neg, if_neg whole, if_pos (.inl start)]
        intro binary
        exact absurd (binary.length_le.trans start.length_le) (by decide)
  | v2Start start =>
      by_cases whole : kV2Sig <+: buf
      · obtain ⟨s, rfl⟩ := whole
        have short : s.length = 0 := by
          have fits := start.length_le
          rw [List.length_append] at fits
          omega
        exact parse_v2_short inet (by omega)
      · have other : ¬ kV1 <+: buf := fun v1 => (not_sig_of_v1 v1).2 start
        rw [uvParseProxyHeader_eq, if_neg whole, if_neg other, if_pos (.inr start)]
  | line single short =>
      rw [parse_v1, proxyV1, single]
      exact if_neg (by omega)
  | fixed short => exact parse_v2_short inet short
  | addresses version short =>
      rw [parse_v2, if_neg (not_not.mpr version), if_pos short]

/-- Nothing else is outstanding; a line may be one byte longer. -/
theorem more_waiting (more : uvParseProxyHeader inet buf = .more) : Waiting 108 buf := by
  have start := more
  rw [uvParseProxyHeader_eq] at start
  split at start
  · rename_i binary
    obtain ⟨s, rfl⟩ := binary
    by_cases short : s.length < 4
    · exact .fixed short
    obtain ⟨c, fam, hi, lo, body, rfl⟩ := exists_fixed (Nat.le_of_not_lt short)
    rw [parse_v2] at more
    split at more
    · cases more
    rename_i version
    split at more
    · rename_i outstanding
      exact .addresses (not_not.mp version) outstanding
    split at more
    · cases more
    split at more
    · cases more
    exact absurd more proxyV2Address_ne_more
  split at start
  · rename_i line
    obtain ⟨s, rfl⟩ := line
    obtain single | ⟨body, rest, rfl, single⟩ := v1_cases s
    · rw [proxyV1, single] at start
      dsimp only at start
      split at start
      · cases start
      · rename_i short
        exact .line single (Nat.lt_of_not_le short)
    · rw [← List.append_assoc, ← List.append_assoc, proxyV1_line inet single] at start
      split at start
      · cases start
      · exact absurd start proxyV1Fields_ne_more
  split at start
  · rename_i front
    rcases front with front | front
    · exact .v1Start front
    · exact .v2Start front
  · cases start

/-- An answer is final. -/
theorem parse_append (decided : uvParseProxyHeader inet buf ≠ .more) (data : Bytes) :
    uvParseProxyHeader inet (buf ++ data) = uvParseProxyHeader inet buf := by
  by_cases binary : kV2Sig <+: buf
  · obtain ⟨s, rfl⟩ := binary
    by_cases short : s.length < 4
    · exact absurd (parse_v2_short inet short) decided
    obtain ⟨c, fam, hi, lo, body, rfl⟩ := exists_fixed (Nat.le_of_not_lt short)
    have shape : kV2Sig ++ c :: fam :: hi :: lo :: body ++ data =
        kV2Sig ++ c :: fam :: hi :: lo :: (body ++ data) := List.append_assoc _ _ _
    rw [shape, parse_v2, parse_v2]
    rw [parse_v2] at decided
    by_cases version : c.toNat / 16 ≠ 2
    · rw [if_pos version, if_pos version]
    rw [if_neg version] at decided
    by_cases outstanding : body.length < hi.toNat * 256 + lo.toNat
    · exact absurd (if_pos outstanding) decided
    rw [if_neg version, if_neg version, if_neg outstanding,
      if_neg (by rw [List.length_append]; omega),
      proxyV2Address_append inet (Nat.le_of_not_lt outstanding)]
  by_cases line : kV1 <+: buf
  · obtain ⟨s, rfl⟩ := line
    obtain single | ⟨body, rest, rfl, single⟩ := v1_cases s
    · -- too long already: a line end can only be further away
      rw [parse_v1, proxyV1, single] at decided ⊢
      dsimp only at decided ⊢
      have long : 108 ≤ (kV1 ++ s).length := by
        by_contra short
        exact decided (if_neg short)
      rw [if_pos long, List.append_assoc, parse_v1, ← List.append_assoc, proxyV1]
      split
      · exact if_pos (by rw [List.length_append]; omega)
      · rename_i eol found
        refine if_pos ?_
        by_contra early
        have inside := findSub_of_append found
          (Nat.le_trans (Nat.add_le_add_right (Nat.le_of_not_lt early) 2) long)
        rw [single] at inside
        cases inside
    · rw [List.append_assoc, parse_v1, parse_v1, ← List.append_assoc, ← List.append_assoc,
        ← List.append_assoc, proxyV1_line inet single, List.append_assoc _ rest data,
        proxyV1_line inet single]
  have undecided : ¬ (buf <+: kV1 ∨ buf <+: kV2Sig) := by
    intro front
    rw [uvParseProxyHeader_eq, if_neg binary, if_neg line, if_pos front] at decided
    exact decided rfl
  rw [not_or] at undecided
  -- it starts like neither, and so does what is longer
  have later : ∀ pat : Bytes, ¬ buf <+: pat → ¬ pat <+: buf → ¬ pat <+: buf ++ data ∧
      ¬ buf ++ data <+: pat := by
    intro pat front back
    constructor
    · intro start
      rcases List.prefix_or_prefix_of_prefix (List.prefix_append buf data) start with short | long
      · exact front short
      · exact back long
    · exact fun start => front ((List.prefix_append buf data).trans start)
  obtain ⟨noLine, noLine'⟩ := later kV1 undecided.1 line
  obtain ⟨noSig, noSig'⟩ := later kV2Sig undecided.2 binary
  rw [uvParseProxyHeader_eq, uvParseProxyHeader_eq, if_neg binary, if_neg line, if_neg noSig,
    if_neg noLine, if_neg (not_or.mpr ⟨noLine', noSig'⟩), if_neg (not_or.mpr undecided)]

/-- What waits is shorter than the longest v2 header. -/
theorem more_length (more : uvParseProxyHeader inet buf = .more) : buf.length ≤ 16 + 65535 := by
  cases more_waiting more with
  | v1Start start => exact start.length_le.trans (by decide)
  | v2Start start => exact start.length_le.trans (by decide)
  | line single short => omega
  | fixed short =>
      have twelve : kV2Sig.length = 12 := rfl
      rw [List.length_append]
      omega
  | @addresses c fam hi lo body version short =>
      have twelve : kV2Sig.length = 12 := rfl
      have high := hi.toNat_lt
      have low := lo.toNat_lt
      rw [List.length_append, List.length_cons, List.length_cons, List.length_cons,
        List.length_cons]
      omega

/-! ### Reads -/

/-- The first part of `readCb`, over the reads of a connection: they are put behind each other in
`proxyBuf` until there is an answer. With it comes what is left for the connection. The limit on
`proxyBuf` is never reached (`more_length`). -/
def afterReads (inet : Inet) (proxyBuf : Bytes) : List Bytes → ProxyVerdict × Bytes
  | [] => (.more, proxyBuf)
  | data :: reads =>
      match uvParseProxyHeader inet (proxyBuf ++ data) with
      | .more => afterReads inet (proxyBuf ++ data) reads
      | .bad => (.bad, [])
      | .done ip used => (.done ip used, (proxyBuf ++ data).drop used ++ reads.flatten)

/-- The same of all bytes at once. -/
def settled (inet : Inet) (sent : Bytes) : ProxyVerdict × Bytes :=
  match uvParseProxyHeader inet sent with
  | .more => (.more, sent)
  | .bad => (.bad, [])
  | .done ip used => (.done ip used, sent.drop used)

theorem afterReads_eq (waiting : uvParseProxyHeader inet buf = .more) (reads : List Bytes) :
    afterReads inet buf reads = settled inet (buf ++ reads.flatten) := by
  induction reads generalizing buf with
  | nil => rw [afterReads, settled, List.flatten_nil, List.append_nil, waiting]
  | cons data reads ih =>
      rw [afterReads, List.flatten_cons, ← List.append_assoc]
      cases verdict : uvParseProxyHeader inet (buf ++ data) with
      | more => exact ih verdict
      | bad =>
          have final := parse_append (by rw [verdict]; exact nofun) reads.flatten
          rw [settled, final, verdict]
      | done ip used =>
          have final := parse_append (by rw [verdict]; exact nofun) reads.flatten
          rw [settled, final, verdict]
          dsimp only
          rw [List.drop_append_of_le_length (parse_done verdict).1]

end Start

/-- The recognition of a header: headers are recognized, what is recognized is one up to the two
slips, what waits has its end outstanding, an answer is final, and the reads do not matter. -/
theorem proxy_header (inet : Inet) (buf : Bytes) :
    (∀ ip h, ProxyHeader inet ip h → h <+: buf →
        uvParseProxyHeader inet buf = .done ip h.length) ∧
      (∀ ip used, uvParseProxyHeader inet buf = .done ip used → used ≤ buf.length ∧
        (ProxyHeader inet ip (buf.take used) ∨ Loose (buf.take used))) ∧
      (Waiting 107 buf → uvParseProxyHeader inet buf = .more) ∧
      (uvParseProxyHeader inet buf = .more → Waiting 108 buf) ∧
      (uvParseProxyHeader inet buf ≠ .more →
        ∀ data, uvParseProxyHeader inet (buf ++ data) = uvParseProxyHeader inet buf) ∧
      ∀ reads : List Bytes, reads.flatten = buf → afterReads inet [] reads = settled inet buf := by
  refine ⟨?_, fun ip used done => parse_done done, waiting_more, more_waiting, parse_append, ?_⟩
  · rintro ip h header ⟨more, rfl⟩
    exact parse_header header more
  · rintro reads rfl
    have empty : uvParseProxyHeader inet [] = .more := waiting_more (.v1Start List.nil_prefix)
    exact afterReads_eq empty reads

/-- The conversions of a library that takes any text for an address. -/
def textInet : Inet := ⟨fun _ raw => raw, fun _ _ => true⟩

/-- A text header has the name of a family behind its first word. -/
theorem family_first {inet : Inet} {ip h rest : Bytes} (header : ProxyHeader inet ip h)
    (front : h = kV1 ++ rest) : rest.head? = some 85 ∨ rest.head? = some 84 := by
  have binary : ∀ more : Bytes, kV2Sig ++ more ≠ kV1 ++ rest := fun more same =>
    (not_sig_of_v1 (List.prefix_append kV1 rest)).1 ⟨more, same⟩
  have joined : ∀ (first : Bytes) (toks : List Bytes) (b : UInt8), first.head? = some b →
      ([32].intercalate (first :: toks)).head? = some b := by
    intro first toks b head
    cases toks with
    | nil => rwa [List.intercalate_singleton]
    | cons next toks => rw [intercalate_cons_cons, List.head?_append, head, Option.some_or]
  have behind : ∀ (line : Bytes) (b : UInt8), kV1 ++ line ++ crlf = kV1 ++ rest →
      line.head? = some b → rest.head? = some b := by
    intro line b same head
    rw [List.append_assoc] at same
    rw [← List.append_cancel_left same, List.head?_append, head, Option.some_or]
  cases header with
  | unknown spaceless line => exact .inl (behind _ 85 front (joined _ _ 85 rfl))
  | @tcp v6 src dst sport dport spaceless line source nul destination nul' sports dports =>
      have letter : (family v6).head? = some 84 := by cases v6 <;> decide
      exact .inr (behind _ 84 front (joined _ _ 84 letter))
  | localCommand version command length => exact absurd front (binary _)
  | proxyCommand version command length address => exact absurd front (binary _)

/-- Text that no header starts with waits for its line end. -/
theorem hopeless_waits :
    uvParseProxyHeader textInet (ascii "PROXY X") = .more ∧
      ∀ ip h, ProxyHeader textInet ip h → ¬ ascii "PROXY X" <+: h := by
  have single : findSub crlf (kV1 ++ ascii "X") = none := by decide
  refine ⟨waiting_more (.line single (by decide)), ?_⟩
  rintro ip h header ⟨more, same⟩
  have shape : ascii "PROXY X" ++ more = kV1 ++ 88 :: more := rfl
  rcases family_first header (same.symm.trans shape) with first | first
  · exact absurd (Option.some.inj first) (by decide)
  · exact absurd (Option.some.inj first) (by decide)

end NitroServer.Engine
