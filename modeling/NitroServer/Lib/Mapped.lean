/-
IPv4 addresses among the IPv6 ones, `::ffff:a.b.c.d`, on the bytes of an address.

* `mapped_iff` — a mapped address, byte by byte.
* `mapped_append`, `asV4_append` — the prefix in front of four bytes.
-/

import Mathlib

namespace NitroServer.Lib

/-- `::ffff:0:0/96`. -/
def mappedPrefix : List UInt8 := List.replicate 10 0 ++ [0xff, 0xff]

/-- An IPv6 address `::ffff:a.b.c.d`. -/
def Mapped (raw : List UInt8) : Prop := raw.length = 16 ∧ mappedPrefix <+: raw

instance : DecidablePred Mapped := fun raw =>
  inferInstanceAs (Decidable (raw.length = 16 ∧ mappedPrefix <+: raw))

/-- A mapped address as the IPv4 address it is. -/
def asV4 (raw : List UInt8) : List UInt8 := if Mapped raw then raw.drop 12 else raw

section Mapped

variable {raw : List UInt8}

theorem mapped_iff :
    Mapped raw ↔ raw.length = 16 ∧ (raw.take 10).any (· != 0) = false ∧
      raw[10]? = some 0xff ∧ raw[11]? = some 0xff := by
  refine and_congr_right fun sixteen => ?_
  have ten : (raw.take 10).length = 10 := by
    rw [List.length_take]
    omega
  have zeros : (raw.take 10).any (· != 0) = false ↔ raw.take 10 = List.replicate 10 0 := by
    rw [List.eq_replicate_iff, List.any_eq_false]
    simp [ten]
  have front : raw.take 12 = raw.take 10 ++ raw[10]?.toList ++ raw[11]?.toList := by
    rw [List.take_add_one, List.take_add_one]
  rw [zeros, List.prefix_iff_eq_take, show mappedPrefix.length = 12 from rfl, front, mappedPrefix]
  constructor
  · intro same
    rw [List.append_assoc] at same
    obtain ⟨zero, rest⟩ := List.append_inj same (by rw [ten]; rfl)
    have eleven : 10 < raw.length ∧ 11 < raw.length := by omega
    rw [List.getElem?_eq_getElem eleven.1, List.getElem?_eq_getElem eleven.2] at rest ⊢
    simp only [Option.toList_some, List.cons_append, List.nil_append, List.cons.injEq,
      and_true] at rest
    exact ⟨zero.symm, congrArg some rest.1.symm, congrArg some rest.2.symm⟩
  · rintro ⟨zero, first, second⟩
    rw [zero, first, second]
    rfl

theorem asV4_of_length (short : raw.length ≠ 16) : asV4 raw = raw :=
  if_neg fun mapped => short mapped.1

theorem mapped_append {v4 : List UInt8} (four : v4.length = 4) : Mapped (mappedPrefix ++ v4) := by
  refine ⟨?_, List.prefix_append _ _⟩
  have twelve : mappedPrefix.length = 12 := rfl
  rw [List.length_append, twelve, four]

theorem asV4_append {v4 : List UInt8} (four : v4.length = 4) : asV4 (mappedPrefix ++ v4) = v4 := by
  rw [asV4, if_pos (mapped_append four)]
  rfl

/-- A mapped address is the prefix in front of the IPv4 address. -/
theorem Mapped.eq_append (mapped : Mapped raw) :
    raw = mappedPrefix ++ asV4 raw ∧ (asV4 raw).length = 4 := by
  obtain ⟨v4, rfl⟩ := mapped.2
  have four : v4.length = 4 := by
    have sixteen := mapped.1
    have twelve : mappedPrefix.length = 12 := rfl
    rw [List.length_append, twelve] at sixteen
    omega
  rw [asV4_append four]
  exact ⟨rfl, four⟩

end Mapped

end NitroServer.Lib
