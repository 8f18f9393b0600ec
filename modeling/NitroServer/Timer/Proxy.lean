/-
The PROXY protocol header (`uvParseProxyHeader` and the first part of `readCb` in
`UvReactor.cpp`).

With `proxyProtocol` on, the first bytes of a connection are a header of the balancer in
front of it, in text (v1) or in binary (v2). `readCb` collects them in `proxyBuf` until the
header is complete or ill-formed; what is behind it goes to the parser of the connection.
The conversions of the socket library are parameters, and whether the client's address is
over its cap comes with the read: it depends on the other connections.

* `used_beyond` — a header completed by a read ends within that read.
-/

import NitroServer.Lane.Wakeup

namespace NitroServer.Engine

open NitroServer.Lib

/-- `inet_ntop` and `inet_pton`, for IPv6 when the flag is set. -/
structure Inet where
  ntop : Bool → Bytes → Bytes
  pton : Bool → Bytes → Bool

inductive ProxyVerdict where
  | more | bad
  | done (ip : Bytes) (used : Nat)
deriving DecidableEq, Repr

def kV2Sig : Bytes := [13, 10, 13, 10, 0, 13, 10, 81, 85, 73, 84, 10]

def kV1 : Bytes := ascii "PROXY "

/-- A port of a v1 header. -/
def isPort (tok : Bytes) : Bool :=
  tok ≠ [] && decide (tok.length ≤ 5) && tok.all (fun b => 48 ≤ b && b ≤ 57) &&
    decide (tok.foldl (fun n b => n * 10 + (b.toNat - 48)) 0 ≤ 65535)

/-- `c_str()`, as a C function reads it. -/
def cString (s : Bytes) : Bytes := s.takeWhile (· ≠ 0)

/-- The fields of a v1 header: the address family, the client and the rest. -/
def proxyV1Fields (inet : Inet) (used : Nat) : List Bytes → ProxyVerdict
  | fam :: rest =>
      if fam = ascii "UNKNOWN" then .done [] used
      else match rest with
        | [src, dst, sport, dport] =>
            if fam ≠ ascii "TCP4" ∧ fam ≠ ascii "TCP6" then .bad
            else if !inet.pton (fam == ascii "TCP6") (cString src) ||
                !inet.pton (fam == ascii "TCP6") (cString dst) then .bad
            else if isPort sport && isPort dport then .done src used
            else .bad
        | _ => .bad
  | [] => .bad

/-- v1: one line of at most 107 bytes. -/
def proxyV1 (inet : Inet) (buf : Bytes) : ProxyVerdict :=
  match findSub crlf buf with
  | none => if 108 ≤ buf.length then .bad else .more
  | some eol =>
      if 106 < eol then .bad
      else proxyV1Fields inet (eol + 2) (splitAtSep 32 ((buf.take eol).drop 6))

/-- The length field of a v2 header. -/
def proxyV2Length (buf : Bytes) : Nat := (buf.getD 14 0).toNat * 256 + (buf.getD 15 0).toNat

/-- The address of a v2 header, its length checked. -/
def proxyV2Address (inet : Inet) (buf : Bytes) (len : Nat) : ProxyVerdict :=
  let fam := (buf.getD 13 0).toNat / 16
  if fam = 1 then
    if len < 12 then .bad else .done (inet.ntop false ((buf.drop 16).take 4)) (16 + len)
  else if fam = 2 then
    if len < 36 then .bad else .done (inet.ntop true ((buf.drop 16).take 16)) (16 + len)
  else if fam ≠ 0 then .bad
  else .done [] (16 + len)

/-- v2: signature, version and command, family, length, addresses. -/
def proxyV2 (inet : Inet) (buf : Bytes) : ProxyVerdict :=
  if buf.length < 16 then .more
  else if (buf.getD 12 0).toNat / 16 ≠ 2 then .bad
  else if buf.length < 16 + proxyV2Length buf then .more
  else if (buf.getD 12 0).toNat % 16 = 0 then .done [] (16 + proxyV2Length buf)
  else if (buf.getD 12 0).toNat % 16 ≠ 1 then .bad
  else proxyV2Address inet buf (proxyV2Length buf)

/-- `uvParseProxyHeader`. -/
def uvParseProxyHeader (inet : Inet) (buf : Bytes) : ProxyVerdict :=
  if 12 ≤ buf.length ∧ buf.take 12 = kV2Sig then proxyV2 inet buf
  else if buf.take 6 ≠ kV1.take buf.length then
    if buf.length < 12 ∧ buf = kV2Sig.take buf.length then .more else .bad
  else proxyV1 inet buf

section Header

variable {inet : Inet} {buf data ip : Bytes} {used : Nat}

theorem proxyV1Fields_used {toks : List Bytes} (h : proxyV1Fields inet used toks = .done ip n) :
    n = used := by
  unfold proxyV1Fields at h
  repeat' split at h
  all_goals first | cases h; rfl | cases h

theorem proxyV1Fields_ne_more {toks : List Bytes} : proxyV1Fields inet used toks ≠ .more := by
  unfold proxyV1Fields
  repeat' split
  all_goals simp

theorem proxyV2Address_used {len : Nat} (h : proxyV2Address inet buf len = .done ip used) :
    used = 16 + len := by
  unfold proxyV2Address at h
  dsimp only at h
  repeat' split at h
  all_goals first | cases h; rfl | cases h

theorem proxyV2Address_ne_more {len : Nat} : proxyV2Address inet buf len ≠ .more := by
  unfold proxyV2Address
  dsimp only
  repeat' split
  all_goals simp

/-- A complete v2 header within the beginning of what is there is decided there. -/
theorem proxyV2_ne_more (h : proxyV2 inet (buf ++ data) = .done ip used)
    (fits : used ≤ buf.length) : 16 ≤ buf.length ∧ proxyV2 inet buf ≠ .more := by
  have len : ∀ i, i < buf.length → (buf ++ data).getD i 0 = buf.getD i 0 := by
    intro i hi
    simp [List.getD_eq_getElem?_getD, List.getElem?_append_left hi]
  have end_eq : used = 16 + proxyV2Length (buf ++ data) := by
    unfold proxyV2 at h
    split at h
    · cases h
    · split at h
      · cases h
      · split at h
        · cases h
        · split at h
          · cases h
            rfl
          · split at h
            · cases h
            · exact proxyV2Address_used h
  have long : 16 ≤ buf.length := by omega
  have same : proxyV2Length (buf ++ data) = proxyV2Length buf := by
    simp only [proxyV2Length, len 14 (by omega), len 15 (by omega)]
  refine ⟨long, ?_⟩
  unfold proxyV2
  rw [if_neg (by omega)]
  split
  · simp
  · rw [if_neg (by omega)]
    split
    · simp
    · split
      · simp
      · exact proxyV2Address_ne_more

theorem proxyV1_ne_more (h : proxyV1 inet (buf ++ data) = .done ip used)
    (fits : used ≤ buf.length) : proxyV1 inet buf ≠ .more := by
  unfold proxyV1 at h
  split at h
  · split at h <;> cases h
  · rename_i eol found
    split at h
    · cases h
    · have end_eq := proxyV1Fields_used h
      have here : findSub crlf buf = some eol :=
        findSub_of_append found (by rw [end_eq] at fits; exact fits)
      unfold proxyV1
      rw [here]
      dsimp only
      split
      · simp
      · exact proxyV1Fields_ne_more

/-- A header that a read completes ends within that read. -/
theorem used_beyond (waiting : uvParseProxyHeader inet buf = .more)
    (h : uvParseProxyHeader inet (buf ++ data) = .done ip used) : buf.length < used := by
  by_contra short
  have fits : used ≤ buf.length := by omega
  unfold uvParseProxyHeader at h
  split at h
  · rename_i v2
    obtain ⟨long, decided⟩ := proxyV2_ne_more h fits
    have sig : buf.take 12 = kV2Sig := by
      rw [← v2.2, List.take_append_of_le_length (by omega)]
    rw [uvParseProxyHeader, if_pos ⟨by omega, sig⟩] at waiting
    exact decided waiting
  · rename_i v2
    split at h
    · split at h <;> cases h
    · rename_i v1
      have decided := proxyV1_ne_more h fits
      -- The beginning of what is there agrees with the v1 prefix as far as it goes.
      have agrees : buf.take 6 = kV1.take buf.length := by
        have whole := congrArg (List.take buf.length) (not_not.mp v1)
        rw [List.take_take, Nat.min_comm, ← List.take_take, List.take_left' rfl, List.take_take,
          List.length_append, Nat.min_eq_left (Nat.le_add_right ..)] at whole
        exact whole
      rw [uvParseProxyHeader, if_neg, if_neg (not_not.mpr agrees)] at waiting
      · exact decided waiting
      · rintro ⟨long, sig⟩
        refine v2 ⟨by simp; omega, ?_⟩
        rw [List.take_append_of_le_length long, sig]

end Header

end NitroServer.Engine
