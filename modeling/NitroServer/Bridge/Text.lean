/-
Dart strings, which are UTF-16 code units, and their UTF-8 form.

* `utf8Encode` — `utf8.encode`: a surrogate pair is one character, a surrogate on its own
  becomes U+FFFD.
* `utf8Encode_text` — on text it is the UTF-8 form of that text.
* `utf8Encode_length_le`, `utf8Encode_ascii` — three bytes for a unit at most, one for ASCII.
* `utf8Encode_low`, `utf8Encode_first`, `utf8Encode_last` — an ASCII byte is an ASCII unit.
-/

import NitroServer.Engine.Types

namespace NitroServer.Bridge

open Engine (Bytes)

abbrev DartString := List UInt16

/-! ### `utf8.encode` -/

def isLead (u : UInt16) : Bool := 0xd800 ≤ u.toNat && u.toNat < 0xdc00

def isTrail (u : UInt16) : Bool := 0xdc00 ≤ u.toNat && u.toNat < 0xe000

/-- U+FFFD. -/
def replacement : Bytes := [0xef, 0xbf, 0xbd]

/-- One unit that is not half of a pair. -/
def utf8Unit (u : UInt16) : Bytes :=
  let n := u.toNat
  if n < 0x80 then [UInt8.ofNat n]
  else if n < 0x800 then [UInt8.ofNat (n / 64 + 0xc0), UInt8.ofNat (n % 64 + 0x80)]
  else if isLead u || isTrail u then replacement
  else [UInt8.ofNat (n / 4096 + 0xe0), UInt8.ofNat (n / 64 % 64 + 0x80), UInt8.ofNat (n % 64 + 0x80)]

/-- The code point of a pair. -/
def codePoint (u t : UInt16) : Nat := (u.toNat - 0xd800) * 0x400 + (t.toNat - 0xdc00) + 0x10000

def utf8Pair (u t : UInt16) : Bytes :=
  let n := codePoint u t
  [UInt8.ofNat (n / 262144 + 0xf0), UInt8.ofNat (n / 4096 % 64 + 0x80),
    UInt8.ofNat (n / 64 % 64 + 0x80), UInt8.ofNat (n % 64 + 0x80)]

/-- `utf8.encode`. -/
def utf8Encode : DartString → Bytes
  | [] => []
  | [u] => utf8Unit u
  | u :: t :: s =>
      if isLead u && isTrail t then utf8Pair u t ++ utf8Encode s
      else utf8Unit u ++ utf8Encode (t :: s)

/-! ### Lengths -/

theorem utf8Unit_length_le (u : UInt16) : (utf8Unit u).length ≤ 3 := by
  unfold utf8Unit
  dsimp only
  split
  · exact Nat.le_add_left 1 2
  split
  · exact Nat.le_succ 2
  split
  · exact le_rfl
  · exact le_rfl

theorem utf8Encode_length_le (s : DartString) : (utf8Encode s).length ≤ 3 * s.length := by
  induction s using utf8Encode.induct with
  | case1 => exact le_rfl
  | case2 u => exact utf8Unit_length_le u
  | case3 u t s pair ih =>
      rw [utf8Encode, if_pos pair, List.length_append, List.length_cons, List.length_cons]
      have four : (utf8Pair u t).length = 4 := rfl
      omega
  | case4 u t s pair ih =>
      rw [utf8Encode, if_neg pair, List.length_append, List.length_cons]
      have three := utf8Unit_length_le u
      omega

/-! ### ASCII -/

theorem utf8Unit_ascii {u : UInt16} (low : u < 0x80) : utf8Unit u = [UInt8.ofNat u.toNat] :=
  if_pos low

theorem not_isLead_ascii {u : UInt16} (low : u < 0x80) : isLead u = false := by
  have small : u.toNat < 0x80 := low
  rw [isLead, Bool.and_eq_false_iff]
  exact Or.inl (decide_eq_false (by omega))

/-- ASCII goes byte by byte. -/
theorem utf8Encode_cons_ascii {u : UInt16} (low : u < 0x80) (s : DartString) :
    utf8Encode (u :: s) = UInt8.ofNat u.toNat :: utf8Encode s := by
  cases s with
  | nil => exact utf8Unit_ascii low
  | cons t s => rw [utf8Encode, not_isLead_ascii low, utf8Unit_ascii low]; rfl

theorem utf8Encode_ascii {s : DartString} (low : ∀ u ∈ s, u < 0x80) :
    utf8Encode s = s.map fun u => UInt8.ofNat u.toNat := by
  induction s with
  | nil => rfl
  | cons u s ih =>
      rw [utf8Encode_cons_ascii (low u List.mem_cons_self),
        ih fun t ht => low t (List.mem_cons_of_mem u ht), List.map_cons]

/-- At an ASCII unit the text can be cut. -/
theorem utf8Encode_append_ascii {c : UInt16} (low : c < 0x80) (s s' : DartString) :
    utf8Encode (s ++ c :: s') = utf8Encode s ++ UInt8.ofNat c.toNat :: utf8Encode s' := by
  have small : c.toNat < 0x80 := low
  have single : isTrail c = false := by
    rw [isTrail, Bool.and_eq_false_iff]
    exact .inl (decide_eq_false (by omega))
  induction s using utf8Encode.induct with
  | case1 => exact utf8Encode_cons_ascii low s'
  | case2 u =>
      have lone : ¬ (isLead u && isTrail c) = true := by simp [single]
      rw [List.singleton_append, utf8Encode.eq_3, if_neg lone, utf8Encode_cons_ascii low, utf8Encode]
  | case3 u t s pair ih =>
      rw [List.cons_append, List.cons_append, utf8Encode, if_pos pair, ih, utf8Encode, if_pos pair,
        List.append_assoc]
  | case4 u t s pair ih =>
      rw [List.cons_append, List.cons_append, utf8Encode, if_neg pair, ← List.cons_append, ih,
        utf8Encode, if_neg pair, List.append_assoc]

/-! ### Low bytes -/

theorem high_of_range {n : Nat} (low : 0x80 ≤ n) (high : n < 0x100) : 0x80 ≤ UInt8.ofNat n := by
  rw [UInt8.le_iff_toNat_le, UInt8.toNat_ofNat_of_lt' high]
  exact low

theorem utf8Pair_high {u t : UInt16} (pair : (isLead u && isTrail t) = true) :
    ∀ b ∈ utf8Pair u t, 0x80 ≤ b := by
  simp only [isLead, isTrail, Bool.and_eq_true, decide_eq_true_eq] at pair
  have point : codePoint u t < 0x110000 := by
    rw [codePoint]
    omega
  simp only [utf8Pair, List.forall_mem_cons, List.not_mem_nil, false_implies, implies_true,
    and_true]
  refine ⟨?_, ?_, ?_, ?_⟩
  all_goals
    apply high_of_range
    · omega
    · omega

/-- A unit is one low byte, or high bytes. -/
theorem utf8Unit_cases (u : UInt16) :
    u < 0x80 ∧ utf8Unit u = [UInt8.ofNat u.toNat] ∨ utf8Unit u ≠ [] ∧ ∀ b ∈ utf8Unit u, 0x80 ≤ b := by
  by_cases low : u < 0x80
  · exact .inl ⟨low, utf8Unit_ascii low⟩
  · right
    have big : ¬ u.toNat < 0x80 := low
    have size : u.toNat < 0x10000 := u.toNat_lt
    unfold utf8Unit
    dsimp only
    rw [if_neg big]
    split
    · refine ⟨List.cons_ne_nil _ _, ?_⟩
      simp only [List.forall_mem_cons, List.not_mem_nil, false_implies, implies_true, and_true]
      exact ⟨high_of_range (by omega) (by omega), high_of_range (by omega) (by omega)⟩
    split
    · have high : ∀ b ∈ replacement, 0x80 ≤ b := by decide +kernel
      exact ⟨List.cons_ne_nil _ _, high⟩
    · refine ⟨List.cons_ne_nil _ _, ?_⟩
      simp only [List.forall_mem_cons, List.not_mem_nil, false_implies, implies_true, and_true]
      exact ⟨high_of_range (by omega) (by omega), high_of_range (by omega) (by omega),
        high_of_range (by omega) (by omega)⟩

/-- At the front is a low unit, or there are units that give high bytes. -/
theorem utf8Encode_step (u : UInt16) (s : DartString) :
    (u < 0x80 ∧ utf8Encode (u :: s) = UInt8.ofNat u.toNat :: utf8Encode s) ∨
      ∃ bs l r, u :: s = l ++ r ∧ l ≠ [] ∧ bs ≠ [] ∧ (∀ b ∈ bs, 0x80 ≤ b) ∧
        utf8Encode (u :: s) = bs ++ utf8Encode r := by
  by_cases low : u < 0x80
  · exact .inl ⟨low, utf8Encode_cons_ascii low s⟩
  right
  obtain ⟨full, high⟩ := (utf8Unit_cases u).resolve_left fun bad => low bad.1
  cases s with
  | nil => exact ⟨utf8Unit u, [u], [], rfl, List.cons_ne_nil u [], full, high, by simp [utf8Encode]⟩
  | cons t s =>
      rw [utf8Encode]
      split
      · rename_i pair
        exact ⟨utf8Pair u t, [u, t], s, rfl, List.cons_ne_nil _ _, List.cons_ne_nil _ _,
          utf8Pair_high pair, rfl⟩
      · exact ⟨utf8Unit u, [u], t :: s, rfl, List.cons_ne_nil _ _, full, high, rfl⟩

/-- An ASCII byte comes from its own unit. -/
theorem utf8Encode_low {b : UInt8} (low : b < 0x80) {s : DartString} (mem : b ∈ utf8Encode s) :
    ∃ u ∈ s, u.toNat = b.toNat := by
  induction hs : s.length using Nat.strong_induction_on generalizing s with
  | _ n ih =>
      subst hs
      cases s with
      | nil => cases mem
      | cons u s =>
          rcases utf8Encode_step u s with ⟨lowU, step⟩ | ⟨bs, l, r, split, full, -, high, step⟩
          · rw [step, List.mem_cons] at mem
            rcases mem with rfl | mem
            · have small : u.toNat < 0x80 := lowU
              exact ⟨u, List.mem_cons_self, (UInt8.toNat_ofNat_of_lt' (by show _ < 256; omega)).symm⟩
            · obtain ⟨v, hv, same⟩ := ih s.length (Nat.lt_succ_self _) mem rfl
              exact ⟨v, List.mem_cons_of_mem u hv, same⟩
          · rw [step, List.mem_append] at mem
            rcases mem with mem | mem
            · exact absurd low (UInt8.not_lt.mpr (high b mem))
            · have shorter : r.length < (u :: s).length := by
                have pos := List.length_pos_of_ne_nil full
                rw [split, List.length_append]
                omega
              obtain ⟨v, hv, same⟩ := ih r.length shorter mem rfl
              exact ⟨v, split ▸ List.mem_append_right l hv, same⟩

theorem utf8Encode_ne_nil {s : DartString} (full : s ≠ []) : utf8Encode s ≠ [] := by
  cases s with
  | nil => exact absurd rfl full
  | cons u s =>
      rcases utf8Encode_step u s with ⟨-, step⟩ | ⟨bs, l, r, -, -, some_, -, step⟩
      · rw [step]
        exact List.cons_ne_nil _ _
      · rw [step]
        exact List.append_ne_nil_of_left_ne_nil some_ _

/-- An ASCII byte in front comes from the first unit. -/
theorem utf8Encode_first {b : UInt8} (low : b < 0x80) {s : DartString}
    (first : (utf8Encode s).head? = some b) : ∃ u, s.head? = some u ∧ u.toNat = b.toNat := by
  cases s with
  | nil => cases first
  | cons u s =>
      refine ⟨u, rfl, ?_⟩
      rcases utf8Encode_step u s with ⟨lowU, step⟩ | ⟨bs, l, r, -, -, full, high, step⟩
      · rw [step, List.head?_cons, Option.some.injEq] at first
        have small : u.toNat < 0x80 := lowU
        rw [← first, UInt8.toNat_ofNat_of_lt' (by show _ < 256; omega)]
      · rw [step, List.head?_append_of_ne_nil _ full] at first
        exact absurd low (UInt8.not_lt.mpr (high b (List.mem_of_head? first)))

/-- An ASCII byte at the end comes from the last unit. -/
theorem utf8Encode_last {b : UInt8} (low : b < 0x80) {s : DartString}
    (last : (utf8Encode s).getLast? = some b) : ∃ u, s.getLast? = some u ∧ u.toNat = b.toNat := by
  induction hs : s.length using Nat.strong_induction_on generalizing s with
  | _ n ih =>
      subst hs
      cases s with
      | nil => cases last
      | cons u s =>
          rcases utf8Encode_step u s with ⟨lowU, step⟩ | ⟨bs, l, r, split, full, -, high, step⟩
          · rw [step] at last
            by_cases end_ : s = []
            · subst end_
              have small : u.toNat < 0x80 := lowU
              have same : UInt8.ofNat u.toNat = b := by simpa [utf8Encode] using last
              exact ⟨u, rfl, by rw [← same, UInt8.toNat_ofNat_of_lt' (by show _ < 256; omega)]⟩
            · rw [← List.singleton_append,
                List.getLast?_append_of_ne_nil _ (utf8Encode_ne_nil end_)] at last
              obtain ⟨v, hv, same⟩ := ih s.length (Nat.lt_succ_self _) last rfl
              refine ⟨v, ?_, same⟩
              rw [← List.singleton_append, List.getLast?_append_of_ne_nil _ end_, hv]
          · rw [step] at last
            by_cases end_ : r = []
            · rw [end_, utf8Encode, List.append_nil] at last
              exact absurd low (UInt8.not_lt.mpr (high b (List.mem_of_getLast? last)))
            · have shorter : r.length < (u :: s).length := by
                have pos := List.length_pos_of_ne_nil full
                rw [split, List.length_append]
                omega
              rw [List.getLast?_append_of_ne_nil _ (utf8Encode_ne_nil end_)] at last
              obtain ⟨v, hv, same⟩ := ih r.length shorter last rfl
              refine ⟨v, ?_, same⟩
              rw [split, List.getLast?_append_of_ne_nil _ end_, hv]

/-! ### Text -/

/-- The code units of a character. -/
def charUnits (c : Char) : DartString :=
  if c.toNat < 0x10000 then [UInt16.ofNat c.toNat]
  else [UInt16.ofNat (0xd800 + (c.toNat - 0x10000) / 0x400),
    UInt16.ofNat (0xdc00 + (c.toNat - 0x10000) % 0x400)]

/-- The string literal as Dart holds it. -/
def text (s : String) : DartString := s.toList.flatMap charUnits

theorem char_range (c : Char) : c.toNat < 0xd800 ∨ 0xdfff < c.toNat ∧ c.toNat < 0x110000 := c.valid

theorem utf8Encode_single {n : Nat} (small : n < 0x10000) (scalar : n < 0xd800 ∨ 0xdfff < n)
    (s : DartString) :
    utf8Encode (UInt16.ofNat n :: s) = utf8Unit (UInt16.ofNat n) ++ utf8Encode s := by
  have value : (UInt16.ofNat n).toNat = n := UInt16.toNat_ofNat_of_lt' small
  cases s with
  | nil => rw [utf8Encode, utf8Encode, List.append_nil]
  | cons t s =>
      rw [utf8Encode, if_neg]
      intro pair
      simp only [isLead, value, Bool.and_eq_true, decide_eq_true_eq] at pair
      omega

/-- A character of one unit. -/
theorem utf8Unit_char {c : Char} (small : c.toNat < 0x10000) :
    utf8Unit (UInt16.ofNat c.toNat) = String.utf8EncodeChar c := by
  have range := char_range c
  have number : c.val.toNat = c.toNat := rfl
  have value : (UInt16.ofNat c.toNat).toNat = c.toNat := UInt16.toNat_ofNat_of_lt' small
  rw [utf8Unit, String.utf8EncodeChar]
  simp only [value, number]
  by_cases one : c.toNat < 0x80
  · rw [if_pos one, if_pos (Nat.le_of_lt_succ one)]
  rw [if_neg one, if_neg (fun low => one (Nat.lt_succ_of_le low))]
  by_cases two : c.toNat < 0x800
  · rw [if_pos two, if_pos (Nat.le_of_lt_succ two),
      Nat.mod_eq_of_lt (by omega : c.toNat / 64 < 0x20)]
  have scalar : ¬ (isLead (UInt16.ofNat c.toNat) || isTrail (UInt16.ofNat c.toNat)) = true := by
    simp only [isLead, isTrail, value, Bool.or_eq_true, Bool.and_eq_true, decide_eq_true_eq]
    omega
  rw [if_neg two, if_neg (fun low => two (Nat.lt_succ_of_le low)), if_neg scalar,
    if_pos (Nat.le_of_lt_succ small), Nat.mod_eq_of_lt (by omega : c.toNat / 4096 < 0x10)]

/-- The pair of a character above the basic plane. -/
theorem utf8Pair_char {c : Char} (big : ¬ c.toNat < 0x10000) :
    let u := UInt16.ofNat (0xd800 + (c.toNat - 0x10000) / 0x400)
    let t := UInt16.ofNat (0xdc00 + (c.toNat - 0x10000) % 0x400)
    (isLead u && isTrail t) = true ∧ utf8Pair u t = String.utf8EncodeChar c := by
  intro u t
  have range := char_range c
  have number : c.val.toNat = c.toNat := rfl
  have lead : u.toNat = 0xd800 + (c.toNat - 0x10000) / 0x400 :=
    UInt16.toNat_ofNat_of_lt' (by show _ < 65536; omega)
  have trail : t.toNat = 0xdc00 + (c.toNat - 0x10000) % 0x400 :=
    UInt16.toNat_ofNat_of_lt' (by show _ < 65536; omega)
  have point : codePoint u t = c.toNat := by
    rw [codePoint, lead, trail]
    omega
  constructor
  · simp only [isLead, isTrail, lead, trail, Bool.and_eq_true, decide_eq_true_eq]
    omega
  · have one : ¬ c.toNat ≤ 0x7f := by omega
    have two : ¬ c.toNat ≤ 0x7ff := by omega
    have three : ¬ c.toNat ≤ 0xffff := by omega
    rw [utf8Pair, String.utf8EncodeChar]
    simp only [point, number]
    rw [if_neg one, if_neg two, if_neg three,
      Nat.mod_eq_of_lt (by omega : c.toNat / 262144 < 0x08)]

theorem utf8Encode_char (c : Char) (s : DartString) :
    utf8Encode (charUnits c ++ s) = String.utf8EncodeChar c ++ utf8Encode s := by
  rw [charUnits]
  split
  · rename_i small
    rw [List.singleton_append, utf8Encode_single small ((char_range c).imp_right And.left),
      utf8Unit_char small]
  · rename_i big
    obtain ⟨pair, same⟩ := utf8Pair_char big
    rw [List.cons_append, List.singleton_append, utf8Encode, if_pos pair, same]

/-- On text, `utf8.encode` is UTF-8. -/
theorem utf8Encode_text (s : String) :
    utf8Encode (text s) = s.toList.flatMap String.utf8EncodeChar := by
  rw [text]
  induction s.toList with
  | nil => rfl
  | cons c cs ih => rw [List.flatMap_cons, utf8Encode_char, ih, List.flatMap_cons]

end NitroServer.Bridge
