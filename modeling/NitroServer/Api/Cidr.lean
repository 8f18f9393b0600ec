/-
Networks of trusted proxies (`_Cidr`, `middleware.dart`).

`contains` reads an IPv4-mapped IPv6 address as the IPv4 address it is, on both sides, so that an
IPv4 network holds its hosts whichever way they come in. The prefix length stays as it was written,
and a mapped network of fewer than 128 bits is left with the one host that it is named by.

* `sameBits_iff` — the byte loop compares the leading bits.
* `contains_eq` — what `contains` compares.
* `contains_iff` — which networks hold the addresses they should.
-/

import NitroServer.Api.ClientKey
import NitroServer.Api.StaticFiles
import NitroServer.Lib.Bits
import NitroServer.Lib.Mapped

namespace NitroServer.Api

open Bridge (DartString text dartTrim)
open Engine (Bytes)
open Lib

/-! ### `_Cidr.parse` -/

def slash : UInt16 := 0x2f

/-- `_Cidr.parse`; an error carries the message of the `ArgumentError`. -/
def Cidr.parse (net : Internet) (spec : DartString) : Except DartString Cidr :=
  let cut := spec.idxOf slash
  match net.tryParse (dartTrim (spec.take cut)) with
  | none => .error (text "not an IP or CIDR")
  | some addr =>
      let bits := addr.rawAddress.length * 8
      match if cut = spec.length then some (bits : Int) else tryParse (spec.drop (cut + 1)) with
      | none => .error (text "bad prefix length")
      | some p =>
          if p < 0 ∨ p > bits then .error (text "bad prefix length") else .ok ⟨addr, p.toNat⟩

/-- What `dart:io` says of its addresses: they are IPv4 or IPv6 ones, and an address made of four
bytes has those. -/
structure Internet.Lawful (net : Internet) : Prop where
  family : ∀ s ip, net.tryParse s = some ip →
    ip.rawAddress.length = 4 ∨ ip.rawAddress.length = 16
  raw : ∀ raw, raw.length = 4 → (net.fromRawAddress raw).rawAddress = raw

/-! ### What a network holds -/

/-- The network that is written: a mapped one of prefix `96 + p` is the IPv4 network of prefix
`p`. -/
def Cidr.network (c : Cidr) : Bytes × Nat :=
  if Mapped c.address.rawAddress ∧ 96 ≤ c.bits then (c.address.rawAddress.drop 12, c.bits - 96)
  else (c.address.rawAddress, c.bits)

/-- The address is of the network's family, and its leading bits are the network's. -/
def Cidr.Member (c : Cidr) (ip : InternetAddress) : Prop :=
  c.network.1.length = (asV4 ip.rawAddress).length ∧
    (bitString c.network.1).take c.network.2 = (bitString (asV4 ip.rawAddress)).take c.network.2

instance (c : Cidr) : DecidablePred c.Member := fun ip =>
  inferInstanceAs (Decidable (c.network.1.length = (asV4 ip.rawAddress).length ∧
    (bitString c.network.1).take c.network.2 = (bitString (asV4 ip.rawAddress)).take c.network.2))

/-! ### The loop -/

theorem sameBits_iff {a b : Bytes} {n : Nat} (same : a.length = b.length) :
    sameBits a b n = true ↔ (bitString a).take n = (bitString b).take n := by
  induction a generalizing b n with
  | nil =>
      obtain rfl := List.eq_nil_of_length_eq_zero same.symm
      cases n <;> simp [sameBits]
  | cons x a ih =>
      obtain ⟨y, b, rfl⟩ := List.exists_cons_of_length_eq_add_one same.symm
      have tail : a.length = b.length := Nat.succ.inj same
      cases n with
      | zero => simp [sameBits]
      | succ n =>
          by_cases whole : 8 ≤ n + 1
          · obtain ⟨m, rest⟩ := Nat.exists_eq_add_of_le whole
            have left : n + 1 - 8 = m := by omega
            have byte :
                x &&& UInt8.ofNat (0xff <<< (8 - 8)) = y &&& UInt8.ofNat (0xff <<< (8 - 8)) ↔
                  byteBits x = byteBits y := by
              have masked := and_leadingMask_eq_iff (a := x) (b := y) (le_refl 8)
              rwa [List.take_of_length_le (byteBits_length x).le,
                List.take_of_length_le (byteBits_length y).le] at masked
            simp only [sameBits, if_pos whole, left]
            rw [rest, take_bitString_long, take_bitString_long]
            by_cases here : byteBits x = byteBits y
            · rw [if_neg (not_not.mpr (byte.mpr here)), ih tail, here, List.append_cancel_left_eq]
            · rw [if_pos fun h => here (byte.mp h)]
              refine ⟨nofun, fun h => ?_⟩
              have lengths : (byteBits x).length = (byteBits y).length := by
                rw [byteBits_length, byteBits_length]
              exact absurd (List.append_inj h lengths).1 here
          · have le : n + 1 ≤ 8 := by omega
            have byte := and_leadingMask_eq_iff (a := x) (b := y) le
            simp only [sameBits, if_neg whole, Nat.sub_self]
            rw [take_bitString_short le, take_bitString_short le, ← byte, leadingMask]
            split
            · rename_i differ
              exact ⟨nofun, fun h => absurd h differ⟩
            · rename_i alike
              exact ⟨fun _ => not_not.mp alike, fun _ => by simp⟩

/-! ### `contains` -/

section Contains

variable {net : Internet} {c : Cidr} {ip : InternetAddress}

theorem unmap_raw (lawful : net.Lawful) (ip : InternetAddress) :
    (unmap net ip).rawAddress = asV4 ip.rawAddress := by
  have mapped := @mapped_iff ip.rawAddress
  rw [unmap, asV4]
  split
  · rename_i other
    rw [if_neg fun h => other (mapped.mp h).1]
  rename_i sixteen
  split
  · rename_i other
    rw [if_neg fun h => Bool.eq_false_iff.mp (mapped.mp h).2.1 other]
  rename_i zeros
  split
  · rename_i other
    rw [if_neg]
    intro h
    obtain ⟨-, -, first, second⟩ := mapped.mp h
    exact other.elim (fun ne => ne first) fun ne => ne second
  · rename_i ones
    obtain ⟨first, second⟩ := not_or.mp ones
    rw [if_pos (mapped.mpr ⟨not_not.mp sixteen, Bool.eq_false_iff.mpr zeros, not_not.mp first,
      not_not.mp second⟩)]
    refine lawful.raw _ ?_
    rw [List.length_drop]
    omega

/-- Both sides are compared as IPv4 addresses where they are mapped, on as many bits as the
network was written with. -/
theorem contains_eq (lawful : net.Lawful) (c : Cidr) (ip : InternetAddress) :
    c.contains net ip = true ↔
      (asV4 c.address.rawAddress).length = (asV4 ip.rawAddress).length ∧
        (bitString (asV4 c.address.rawAddress)).take c.bits =
          (bitString (asV4 ip.rawAddress)).take c.bits := by
  rw [Cidr.contains, unmap_raw lawful, unmap_raw lawful]
  split
  · rename_i differ
    exact ⟨nofun, fun h => absurd h.1 differ⟩
  · rename_i alike
    rw [sameBits_iff (not_not.mp alike), and_iff_right (not_not.mp alike)]

/-- What a network that parses is. -/
theorem parse_ok (lawful : net.Lawful) {spec : DartString} (parsed : Cidr.parse net spec = .ok c) :
    (c.address.rawAddress.length = 4 ∨ c.address.rawAddress.length = 16) ∧
      c.bits ≤ c.address.rawAddress.length * 8 := by
  rw [Cidr.parse] at parsed
  split at parsed
  · cases parsed
  rename_i addr found
  dsimp only at parsed
  split at parsed
  · cases parsed
  split at parsed
  · cases parsed
  rename_i p _ range
  cases parsed
  exact ⟨lawful.family _ _ found, by dsimp only; omega⟩

theorem contains_unmapped (lawful : net.Lawful) (plain : ¬ Mapped c.address.rawAddress)
    (ip : InternetAddress) : c.contains net ip = true ↔ c.Member ip := by
  rw [contains_eq lawful, Cidr.Member, Cidr.network, asV4, if_neg plain, if_neg fun h => plain h.1]

theorem contains_host (lawful : net.Lawful) (mapped : Mapped c.address.rawAddress)
    (host : c.bits = 128) (ip : InternetAddress) : c.contains net ip = true ↔ c.Member ip := by
  have network : c.network = (c.address.rawAddress.drop 12, 32) := by
    rw [Cidr.network, if_pos ⟨mapped, host.symm ▸ by decide⟩, host]
  rw [contains_eq lawful, Cidr.Member, network, asV4, if_pos mapped, host]
  refine and_congr_right fun alike => ?_
  have four : (c.address.rawAddress.drop 12).length = 4 := by
    rw [List.length_drop, mapped.1]
  have whole : ∀ {n : Nat}, 32 ≤ n → ∀ raw : Bytes, raw.length = 4 →
      (bitString raw).take n = bitString raw := by
    intro n enough raw length
    exact List.take_of_length_le (by rw [bitString_length, length]; exact enough)
  have length := alike.symm.trans four
  rw [whole (by decide) _ four, whole (by decide) _ length, whole le_rfl _ four,
    whole le_rfl _ length]

/-- Two bytes that differ in their last bit. -/
theorem last_bit (b : UInt8) :
    (byteBits (b ^^^ 1)).take 7 = (byteBits b).take 7 ∧ byteBits (b ^^^ 1) ≠ byteBits b := by
  have all : ∀ n < 256, (UInt8.ofNat n ^^^ 1) &&& leadingMask 7 = UInt8.ofNat n &&& leadingMask 7 ∧
      (UInt8.ofNat n ^^^ 1) &&& leadingMask 8 ≠ UInt8.ofNat n &&& leadingMask 8 := by
    decide +kernel
  have here := all b.toNat b.toNat_lt
  rw [UInt8.ofNat_toNat] at here
  refine ⟨(and_leadingMask_eq_iff (by decide)).mp here.1, fun same => here.2 ?_⟩
  rw [and_leadingMask_eq_iff le_rfl, same]

/-- A mapped network of fewer than 32 IPv4 bits leaves out the neighbour of its address. -/
theorem neighbour_lost (lawful : net.Lawful) (mapped : Mapped c.address.rawAddress)
    (v4 : 96 ≤ c.bits) (wide : c.bits < 128) :
    ∃ ip : InternetAddress, ip.rawAddress.length = 4 ∧ c.Member ip ∧
      ¬ c.contains net ip = true := by
  have four : (c.address.rawAddress.drop 12).length = 4 := by
    rw [List.length_drop, mapped.1]
  have some_ : c.address.rawAddress.drop 12 ≠ [] :=
    List.ne_nil_of_length_pos (four.symm ▸ by decide)
  obtain ⟨front, d, whole⟩ : ∃ front d, c.address.rawAddress.drop 12 = front ++ [d] :=
    ⟨_, _, (List.dropLast_append_getLast some_).symm⟩
  have three : front.length = 3 := by
    rw [whole, List.length_append] at four
    exact Nat.succ.inj four
  have length : (front ++ [d ^^^ 1]).length = 4 := by
    rw [List.length_append, three]
    rfl
  have plain : asV4 (front ++ [d ^^^ 1]) = front ++ [d ^^^ 1] :=
    asV4_of_length (by rw [length]; decide)
  obtain ⟨leading, differ⟩ := last_bit d
  refine ⟨⟨front ++ [d ^^^ 1], []⟩, length, ?_, ?_⟩
  · have network : c.network = (front ++ [d], c.bits - 96) := by
      rw [Cidr.network, if_pos ⟨mapped, v4⟩, whole]
    have alike : ∀ x, (bitString (front ++ [x])).take 31 =
        bitString front ++ (byteBits x).take 7 := by
      intro x
      rw [show 31 = 8 * front.length + 7 by rw [three], take_bitString_append,
        take_bitString_short (by decide)]
    rw [Cidr.Member, network, plain, length]
    refine ⟨by rw [List.length_append, three]; rfl, take_bitString_mono (m := 31) (by omega) ?_⟩
    rw [alike, alike, leading]
  · rw [contains_eq lawful, asV4, if_pos mapped, whole, plain]
    rintro ⟨-, same⟩
    have all : ∀ x, (bitString (front ++ [x])).take c.bits = bitString front ++ byteBits x := by
      intro x
      rw [List.take_of_length_le]
      · rw [bitString, List.flatMap_append, List.flatMap_singleton, ← bitString]
      · rw [bitString_length, List.length_append, three, List.length_singleton]
        omega
    rw [all, all] at same
    exact differ (List.append_cancel_left same).symm

/-- A shorter mapped network is an IPv6 one; none of its IPv6 addresses are left. -/
theorem family_lost (lawful : net.Lawful) (mapped : Mapped c.address.rawAddress)
    (v6 : c.bits < 96) :
    ∃ ip : InternetAddress, ip.rawAddress.length = 16 ∧ c.Member ip ∧
      ¬ c.contains net ip = true := by
  obtain ⟨v4, whole⟩ := mapped.2
  have front : c.address.rawAddress = (List.replicate 10 0 ++ [0xff]) ++ 0xff :: v4 := by
    rw [← whole]
    rfl
  have four : v4.length = 4 := by
    have sixteen := mapped.1
    rw [front] at sixteen
    simp only [List.length_append, List.length_replicate, List.length_cons,
      List.length_nil] at sixteen
    omega
  have length : ((List.replicate 10 0 ++ [0xff]) ++ 0xfe :: v4 : Bytes).length = 16 := by
    simp [four]
  have plain : asV4 ((List.replicate 10 0 ++ [0xff]) ++ 0xfe :: v4) =
      (List.replicate 10 0 ++ [0xff]) ++ 0xfe :: v4 := by
    refine if_neg fun h => ?_
    have eleventh := (mapped_iff.mp h).2.2.2
    simp at eleventh
  refine ⟨⟨(List.replicate 10 0 ++ [0xff]) ++ 0xfe :: v4, []⟩, length, ?_, ?_⟩
  · have network : c.network = (c.address.rawAddress, c.bits) := by
      rw [Cidr.network, if_neg fun h => absurd h.2 (by omega)]
    rw [Cidr.Member, network, plain, length]
    refine ⟨mapped.1, ?_⟩
    rw [front]
    refine take_bitString_mono (m := 8 * 11 + 7) (by omega) ?_
    have eleven : (List.replicate 10 0 ++ [0xff] : Bytes).length = 11 := rfl
    rw [← eleven, take_bitString_append, take_bitString_append, take_bitString_short (by decide),
      take_bitString_short (by decide)]
    rfl
  · rw [contains_eq lawful, asV4, if_pos mapped, plain, length, List.length_drop, mapped.1]
    exact fun h => absurd h.1 (by decide)

end Contains

/-- Networks of proxies: a network that is accepted holds exactly the IPv4 and IPv6 addresses of its
family that have its leading bits, mapped ones read as IPv4, if and only if it is not written as a
mapped address, or with all of its bits. -/
theorem contains_iff {net : Internet} {spec : DartString} {c : Cidr} (lawful : net.Lawful)
    (parsed : Cidr.parse net spec = .ok c) :
    (∀ ip : InternetAddress, ip.rawAddress.length = 4 ∨ ip.rawAddress.length = 16 →
        (c.contains net ip = true ↔ c.Member ip)) ↔
      ¬ Mapped c.address.rawAddress ∨ c.bits = 128 := by
  obtain ⟨-, bound⟩ := parse_ok lawful parsed
  constructor
  · intro right
    by_contra wrong
    obtain ⟨mapped, wide⟩ := not_or.mp wrong
    have mapped := not_not.mp mapped
    rw [mapped.1] at bound
    by_cases v4 : 96 ≤ c.bits
    · obtain ⟨ip, length, member, lost⟩ := neighbour_lost lawful mapped v4 (by omega)
      exact lost ((right ip (.inl length)).mpr member)
    · obtain ⟨ip, length, member, lost⟩ := family_lost lawful mapped (by omega)
      exact lost ((right ip (.inr length)).mpr member)
  · rintro (plain | host) ip -
    · exact contains_unmapped lawful plain ip
    · by_cases mapped : Mapped c.address.rawAddress
      · exact contains_host lawful mapped host ip
      · exact contains_unmapped lawful mapped ip

/-! ### A network that is written as a mapped address -/

def tenDot : Bytes := mappedPrefix ++ [10, 0, 0, 0]

/-- The one address that the networks are made of. -/
def oneHost : Internet where
  tryParse s := if s = text "::ffff:10.0.0.0" then some ⟨tenDot, s⟩ else none
  fromRawAddress raw := ⟨raw, [0x2e].intercalate (raw.map fun b => intText b.toNat)⟩

theorem oneHost_lawful : oneHost.Lawful where
  family := by
    intro s ip parses
    simp only [oneHost, Option.ite_none_right_eq_some, Option.some.injEq] at parses
    obtain ⟨-, rfl⟩ := parses
    exact .inr rfl
  raw := fun _ _ => rfl

def tenDotHosts (bits : Nat) : Cidr := ⟨⟨tenDot, text "::ffff:10.0.0.0"⟩, bits⟩

theorem contains_iff_host :
    Cidr.parse oneHost (text "::ffff:10.0.0.0/128") = .ok (tenDotHosts 128) ∧
      ∀ ip : InternetAddress, ip.rawAddress.length = 4 ∨ ip.rawAddress.length = 16 →
        ((tenDotHosts 128).contains oneHost ip = true ↔ (tenDotHosts 128).Member ip) := by
  have parsed : Cidr.parse oneHost (text "::ffff:10.0.0.0/128") = .ok (tenDotHosts 128) := by rfl
  exact ⟨parsed, (contains_iff oneHost_lawful parsed).mpr (.inr rfl)⟩

/-- `10.1.2.3` is in `10.0.0.0/8`, but not in `::ffff:10.0.0.0/104`. -/
theorem mapped_network_lost :
    Cidr.parse oneHost (text "::ffff:10.0.0.0/104") = .ok (tenDotHosts 104) ∧
      (tenDotHosts 104).Member ⟨[10, 1, 2, 3], text "10.1.2.3"⟩ ∧
      (tenDotHosts 104).contains oneHost ⟨[10, 1, 2, 3], text "10.1.2.3"⟩ = false := by
  refine ⟨by rfl, by decide +kernel, by decide +kernel⟩

end NitroServer.Api
