/-
The framing verdict against what it promises.

`uvFraming` walks the header list once, with five flags, and compares trimmed values; the body
length is read afterwards by a lookup of its own. `WellFramed` says which heads are framed,
by the lines of each name.

* `framingScan_lines` — what the walk knows at its end, by the lines of each name.
* `uvFraming_iff` — the heads that pass.
* `uvFraming_exact` — and on those the flag, the length, and the room for it.
-/

import NitroServer.Engine.Framing
import NitroServer.Lib.Buffer

namespace NitroServer.Head

open NitroServer.Engine NitroServer.Lib

/-! ### Lines by name -/

/-- The lines of a name. -/
def linesOf (name : String) (hs : List Header) : List Header :=
  hs.filter fun h => uvIequals h.name (ascii name)

/-- One to eighteen decimal digits. -/
def Digits (v : Bytes) : Prop := v ≠ [] ∧ v.length ≤ 18 ∧ ∀ b ∈ v, 48 ≤ b ∧ b ≤ 57

/-- The list has one coding, which is `chunked`; empty elements do not count. -/
def OnlyChunked (v : Bytes) : Prop :=
  ∃ coding, (listTokens v).filter (· ≠ []) = [coding] ∧ uvIequals coding (ascii "chunked") = true

/-- What a head must look like for its body to be delimited. -/
structure WellFramed (head : ParsedHead) : Prop where
  oneLength : (linesOf "content-length" head.headers).length ≤ 1
  digits : ∀ h ∈ linesOf "content-length" head.headers, Digits h.value
  oneCoding : (linesOf "transfer-encoding" head.headers).length ≤ 1
  coding : ∀ h ∈ linesOf "transfer-encoding" head.headers,
    head.version = ascii "HTTP/1.1" ∧ OnlyChunked h.value
  notBoth : linesOf "content-length" head.headers = [] ∨
    linesOf "transfer-encoding" head.headers = []
  host : head.version = ascii "HTTP/1.1" → (linesOf "host" head.headers).length = 1

theorem linesOf_nil (name : String) : linesOf name [] = [] := rfl

theorem linesOf_cons_pos {name : String} {h : Header} {hs : List Header}
    (named : uvIequals h.name (ascii name) = true) :
    linesOf name (h :: hs) = h :: linesOf name hs := List.filter_cons_of_pos named

theorem linesOf_cons_neg {name : String} {h : Header} {hs : List Header}
    (other : uvIequals h.name (ascii name) = false) : linesOf name (h :: hs) = linesOf name hs :=
  List.filter_cons_of_neg (by simp [other])

/-- A line has one of the names at most. -/
theorem other_name {h : Header} {name other : String}
    (differ : (ascii name).map lower ≠ (ascii other).map lower)
    (named : uvIequals h.name (ascii name) = true) : uvIequals h.name (ascii other) = false := by
  rw [uvIequals, beq_eq_false_iff_ne]
  intro same
  rw [uvIequals, beq_iff_eq] at named
  exact differ (named.symm.trans same)

theorem names_differ :
    (ascii "content-length").map lower ≠ (ascii "transfer-encoding").map lower ∧
      (ascii "content-length").map lower ≠ (ascii "host").map lower ∧
      (ascii "transfer-encoding").map lower ≠ (ascii "host").map lower := by
  decide

/-! ### The walk -/

/-- The value of the last of the lines, or an earlier one. -/
def lastValue (lines : List Header) (earlier : Option Bytes) : Option Bytes :=
  lines.foldl (fun _ h => some h.value) earlier

/-- What the walk knows at its end. -/
def scanned (hs : List Header) (s : FramingScan) : FramingScan where
  cl := lastValue (linesOf "content-length" hs) s.cl
  te := lastValue (linesOf "transfer-encoding" hs) s.te
  hasHost := s.hasHost || decide (linesOf "host" hs ≠ [])
  dupHost := s.dupHost || decide (2 ≤ s.hasHost.toNat + (linesOf "host" hs).length)
  dupCl := s.dupCl || decide (2 ≤ s.cl.isSome.toNat + (linesOf "content-length" hs).length)
  dupTe := s.dupTe || decide (2 ≤ s.te.isSome.toNat + (linesOf "transfer-encoding" hs).length)

theorem scanned_nil (s : FramingScan) : scanned [] s = s := by
  have one : ∀ b : Bool, ¬ 2 ≤ b.toNat := by decide
  simp [scanned, linesOf_nil, lastValue, one]

/-- A second line of a name is a duplicate, counted now or later. -/
theorem dup_step (dup seen : Bool) (n : Nat) :
    (dup || seen || decide (2 ≤ true.toNat + n)) = (dup || decide (2 ≤ seen.toNat + (n + 1))) := by
  cases dup with
  | true => rfl
  | false =>
      cases seen with
      | true =>
          have two : 2 ≤ true.toNat + (n + 1) := by
            rw [Bool.toNat_true]
            omega
          rw [decide_eq_true two]
          rfl
      | false =>
          rw [Bool.toNat_false, Bool.toNat_true, Nat.zero_add, Nat.add_comm 1 n]
          rfl

section Step

variable {h : Header} {hs : List Header} {s : FramingScan}

theorem scanned_length (named : uvIequals h.name (ascii "content-length") = true) :
    scanned hs { s with dupCl := s.dupCl || s.cl.isSome, cl := some h.value } =
      scanned (h :: hs) s := by
  obtain ⟨clTe, clHost, -⟩ := names_differ
  simp only [scanned, linesOf_cons_pos named, linesOf_cons_neg (other_name clTe named),
    linesOf_cons_neg (other_name clHost named), Option.isSome_some, dup_step, List.length_cons]
  rfl

theorem scanned_coding (named : uvIequals h.name (ascii "transfer-encoding") = true) :
    scanned hs { s with dupTe := s.dupTe || s.te.isSome, te := some h.value } =
      scanned (h :: hs) s := by
  obtain ⟨clTe, -, teHost⟩ := names_differ
  simp only [scanned, linesOf_cons_pos named, linesOf_cons_neg (other_name clTe.symm named),
    linesOf_cons_neg (other_name teHost named), Option.isSome_some, dup_step, List.length_cons]
  rfl

theorem scanned_host (named : uvIequals h.name (ascii "host") = true) :
    scanned hs { s with dupHost := s.dupHost || s.hasHost, hasHost := true } =
      scanned (h :: hs) s := by
  obtain ⟨-, clHost, teHost⟩ := names_differ
  simp only [scanned, linesOf_cons_pos named, linesOf_cons_neg (other_name clHost.symm named),
    linesOf_cons_neg (other_name teHost.symm named), dup_step, List.length_cons, Bool.true_or,
    ne_eq, reduceCtorEq, not_false_eq_true, decide_true, Bool.or_true]

theorem scanned_other (cl : uvIequals h.name (ascii "content-length") = false)
    (te : uvIequals h.name (ascii "transfer-encoding") = false)
    (host : uvIequals h.name (ascii "host") = false) : scanned hs s = scanned (h :: hs) s := by
  simp only [scanned, linesOf_cons_neg cl, linesOf_cons_neg te, linesOf_cons_neg host]

end Step

/-- The walk by the lines of each name; it stops at a second length at the earliest. -/
theorem framingScan_lines (hs : List Header) (s : FramingScan) :
    framingScan hs s = .ok (scanned hs s) ∨
      2 ≤ s.cl.isSome.toNat + (linesOf "content-length" hs).length ∧
        ∃ v, framingScan hs s = .error v := by
  induction hs generalizing s with
  | nil =>
      left
      rw [framingScan, scanned_nil]
  | cons h hs ih =>
      rw [framingScan]
      split
      · rename_i named
        rw [linesOf_cons_pos named, List.length_cons]
        split
        · rename_i conflict
          right
          cases seen : s.cl with
          | none =>
              rw [seen] at conflict
              cases conflict
          | some c =>
              rw [Option.isSome_some, Bool.toNat_true]
              exact ⟨by omega, _, rfl⟩
        · rcases ih { s with dupCl := s.dupCl || s.cl.isSome, cl := some h.value } with ok | ⟨two, bad⟩
          · left
            rw [ok, scanned_length named]
          · right
            rw [Option.isSome_some, Bool.toNat_true] at two
            exact ⟨by omega, bad⟩
      · rename_i cl
        rw [linesOf_cons_neg (eq_false_of_ne_true cl)]
        split
        · rename_i named
          rcases ih { s with dupTe := s.dupTe || s.te.isSome, te := some h.value } with ok | bad
          · left
            rw [ok, scanned_coding named]
          · exact .inr bad
        · rename_i te
          split
          · rename_i named
            rcases ih { s with dupHost := s.dupHost || s.hasHost, hasHost := true } with ok | bad
            · left
              rw [ok, scanned_host named]
            · exact .inr bad
          · rename_i host
            rw [← scanned_other (eq_false_of_ne_true cl) (eq_false_of_ne_true te)
              (eq_false_of_ne_true host)]
            exact ih s

/-! ### The verdict -/

/-- A list of one element at most, that has some. -/
theorem head_of_le_one {α : Type*} {xs : List α} (one : xs.length ≤ 1) (full : xs ≠ []) :
    ∃ x, xs = [x] := by
  cases xs with
  | nil => exact absurd rfl full
  | cons x xs =>
      rw [List.length_cons] at one
      obtain rfl : xs = [] := List.length_eq_zero_iff.mp (by omega)
      exact ⟨x, rfl⟩

/-- The codings of a list: none but `chunked`, and that once. -/
theorem codingsVerdict_ok {toks : List Bytes} {seen found : Bool}
    (passes : codingsVerdict toks seen = .ok found) :
    (toks.filter (· ≠ []) = [] ∧ found = seen) ∨
      seen = false ∧ found = true ∧
        ∃ coding, toks.filter (· ≠ []) = [coding] ∧ uvIequals coding (ascii "chunked") = true := by
  induction toks generalizing seen with
  | nil =>
      cases passes
      exact .inl ⟨rfl, rfl⟩
  | cons tok toks ih =>
      rw [codingsVerdict] at passes
      split at passes
      · rename_i empty
        rw [List.filter_cons_of_neg (by simpa using empty)]
        exact ih passes
      · rename_i full
        rw [List.filter_cons_of_pos (by simpa using full)]
        split at passes
        · rename_i chunked
          split at passes
          · cases passes
          · rename_i first
            rcases ih passes with ⟨none_, rfl⟩ | ⟨bad, -⟩
            · exact .inr ⟨eq_false_of_ne_true first, rfl, tok, by rw [none_], chunked⟩
            · cases bad
        · cases passes

theorem codingsVerdict_empty {toks : List Bytes} (seen : Bool)
    (none_ : toks.filter (· ≠ []) = []) : codingsVerdict toks seen = .ok seen := by
  induction toks with
  | nil => rfl
  | cons tok toks ih =>
      by_cases empty : tok = []
      · rw [List.filter_cons_of_neg (by simpa using empty)] at none_
        rw [codingsVerdict, if_pos empty, ih none_]
      · rw [List.filter_cons_of_pos (by simpa using empty)] at none_
        cases none_

/-- The list is just `chunked` exactly when the loop finds it. -/
theorem codingsVerdict_iff (v : Bytes) :
    codingsVerdict (listTokens v) false = .ok true ↔ OnlyChunked v := by
  constructor
  · intro passes
    rcases codingsVerdict_ok passes with ⟨-, bad⟩ | ⟨-, -, only⟩
    · cases bad
    · exact only
  · rintro ⟨coding, only, chunked⟩
    generalize listTokens v = toks at only
    induction toks with
    | nil => cases only
    | cons tok toks ih =>
        by_cases empty : tok = []
        · rw [List.filter_cons_of_neg (by simpa using empty)] at only
          rw [codingsVerdict, if_pos empty]
          exact ih only
        · rw [List.filter_cons_of_pos (by simpa using empty)] at only
          obtain ⟨rfl, rest⟩ := List.cons_eq_cons.mp only
          rw [codingsVerdict, if_neg empty, if_pos chunked, if_neg Bool.false_ne_true]
          exact codingsVerdict_empty true rest

/-! #### The checks -/

section Checks

variable {ε α : Type*} {x : Except ε α} {e e' : ε} {a b : α}

theorem refuse_iff {p : Prop} [Decidable p] :
    (if p then .error e else x) = .ok a ↔ ¬ p ∧ x = .ok a := by
  by_cases h : p
  · simp [h]
  · simp [h]

theorem digits_iff (v : Bytes) :
    (if v = [] ∨ 18 < v.length then .error e
      else if (v.all fun b => 48 ≤ b && b ≤ 57) = true then x else .error e') = .ok a ↔
      Digits v ∧ x = .ok a := by
  have all : (v.all fun b => 48 ≤ b && b ≤ 57) = true ↔ ∀ b ∈ v, 48 ≤ b ∧ b ≤ 57 := by
    simp only [List.all_eq_true, Bool.and_eq_true, decide_eq_true_eq]
  rw [refuse_iff, not_or, Nat.not_lt]
  by_cases digits : (v.all fun b => 48 ≤ b && b ≤ 57) = true
  · rw [if_pos digits]
    constructor
    · rintro ⟨⟨full, short⟩, rest⟩
      exact ⟨⟨full, short, all.mp digits⟩, rest⟩
    · rintro ⟨⟨full, short, -⟩, rest⟩
      exact ⟨⟨full, short⟩, rest⟩
  · rw [if_neg digits]
    constructor
    · rintro ⟨-, bad⟩
      cases bad
    · rintro ⟨⟨-, -, good⟩, -⟩
      exact absurd (all.mpr good) digits

theorem host_iff (new : Prop) [Decidable new] (hasHost dupHost : Bool) :
    (if new then if (!hasHost) = true then .error e else if dupHost = true then .error e' else .ok b
      else .ok b : Except ε α) = .ok a ↔
      (new → hasHost = true ∧ dupHost = false) ∧ b = a := by
  by_cases h : new
  · rw [if_pos h, refuse_iff, refuse_iff]
    simp only [Bool.not_eq_true', Bool.not_eq_false, Bool.not_eq_true, Except.ok.injEq, h,
      forall_const, and_assoc]
  · rw [if_neg h, Except.ok.injEq]
    simp only [h, false_implies, true_and]

end Checks

/-- What passes, by what the walk knows at its end. -/
theorem uvFraming_of_scan {head : ParsedHead} {s : FramingScan} {c : Bool}
    (scan : framingScan head.headers {} = .ok s) :
    uvFraming head = .ok c ↔ s.dupCl = false ∧ s.dupTe = false ∧ (s.cl = none ∨ s.te = none) ∧
      (∀ te, s.te = some te → head.version ≠ ascii "HTTP/1.0" ∧ OnlyChunked te) ∧
      (∀ cl, s.cl = some cl → Digits cl) ∧
      (head.version = ascii "HTTP/1.1" → s.hasHost = true ∧ s.dupHost = false) ∧
      s.te.isSome = c := by
  unfold uvFraming
  rw [scan]
  simp only [bind, Except.bind, throw, throwThe, MonadExceptOf.throw, pure, Except.pure, refuse_iff,
    Bool.not_eq_true, Bool.and_eq_false_iff]
  refine and_congr_right fun _ => and_congr_right fun _ => ?_
  cases te : s.te with
  | none =>
      cases cl : s.cl with
      | none =>
          simp only [host_iff, Option.isSome_none, reduceCtorEq, false_implies, implies_true,
            true_and, true_or]
      | some v =>
          simp only [digits_iff, host_iff, Option.isSome_none, Option.isSome_some, reduceCtorEq,
            false_implies, implies_true, true_and, or_true, Option.some.injEq, forall_eq']
  | some v =>
      cases cl : s.cl with
      | none =>
          simp only [Option.isSome_none, Option.isSome_some, reduceCtorEq, false_implies,
            implies_true, true_and, true_or, Option.some.injEq, forall_eq', and_assoc]
          by_cases old : head.version = ascii "HTTP/1.0"
          · rw [if_pos old]
            constructor
            · intro bad
              cases bad
            · rintro ⟨new, -⟩
              exact absurd old new
          · rw [if_neg old]
            cases verdict : codingsVerdict (listTokens v) false with
            | error e =>
                have other : ¬ OnlyChunked v := by
                  rw [← codingsVerdict_iff, verdict]
                  intro bad
                  cases bad
                simp only [reduceCtorEq, other, false_and, and_false]
            | ok seen =>
                cases seen with
                | false =>
                    have other : ¬ OnlyChunked v := by
                      rw [← codingsVerdict_iff, verdict]
                      intro bad
                      cases bad
                    simp only [Bool.false_eq_true, if_false, reduceCtorEq, other, false_and,
                      and_false]
                | true =>
                    simp only [if_true, host_iff, old, ne_eq, not_false_eq_true, true_and,
                      (codingsVerdict_iff v).mp verdict]
      | some w =>
          simp only [Option.isSome_some, reduceCtorEq, false_and, or_self]

/-- A walk that stops is a refusal. -/
theorem uvFraming_of_stop {head : ParsedHead} {v : FramingVerdict} {c : Bool}
    (scan : framingScan head.headers {} = .error v) : uvFraming head ≠ .ok c := by
  unfold uvFraming
  rw [scan]
  intro bad
  cases bad

/-! ### The heads that pass -/

/-- With one line at most, the last value is the value of any line. -/
theorem lastValue_iff {lines : List Header} (one : lines.length ≤ 1) (p : Bytes → Prop) :
    (∀ v, lastValue lines none = some v → p v) ↔ ∀ h ∈ lines, p h.value := by
  rcases Nat.eq_zero_or_pos lines.length with empty | full
  · rw [List.length_eq_zero_iff.mp empty]
    simp [lastValue]
  · obtain ⟨h, rfl⟩ := head_of_le_one one (List.ne_nil_of_length_pos full)
    simp [lastValue]

theorem lastValue_none {lines : List Header} : lastValue lines none = none ↔ lines = [] := by
  have seen : ∀ (lines : List Header) (v : Bytes), lastValue lines (some v) ≠ none := by
    intro lines
    induction lines with
    | nil =>
        intro v
        exact Option.some_ne_none v
    | cons h lines ih =>
        intro v
        exact ih h.value
  cases lines with
  | nil => exact iff_of_true rfl rfl
  | cons h lines => exact iff_of_false (seen lines h.value) (List.cons_ne_nil h lines)

theorem uvFraming_iff {head : ParsedHead} {c : Bool}
    (version : head.version = ascii "HTTP/1.1" ∨ head.version = ascii "HTTP/1.0") :
    uvFraming head = .ok c ↔
      WellFramed head ∧ (c = true ↔ linesOf "transfer-encoding" head.headers ≠ []) := by
  have versions : head.version ≠ ascii "HTTP/1.0" ↔ head.version = ascii "HTTP/1.1" := by
    have apart : ascii "HTTP/1.1" ≠ ascii "HTTP/1.0" := by decide
    rcases version with new | old
    · rw [new]
      exact iff_of_true apart rfl
    · rw [old]
      exact iff_of_false (fun differ => differ rfl) apart.symm
  rcases framingScan_lines head.headers {} with scan | ⟨two, v, scan⟩
  · rw [uvFraming_of_scan scan]
    simp only [scanned, Option.isSome_none, Bool.toNat_false, Nat.zero_add, Bool.false_or,
      decide_eq_false_iff_not, Nat.not_le, Nat.lt_succ_iff, decide_eq_true_eq, versions,
      lastValue_none]
    constructor
    · rintro ⟨oneLength, oneCoding, notBoth, coding, digits, host, flag⟩
      refine ⟨⟨oneLength, ?_, oneCoding, ?_, notBoth, ?_⟩, ?_⟩
      · exact (lastValue_iff oneLength Digits).mp digits
      · exact (lastValue_iff oneCoding fun te => _ ∧ OnlyChunked te).mp coding
      · intro new
        obtain ⟨full, single⟩ := host new
        have pos := List.length_pos_of_ne_nil full
        omega
      · rw [← flag, Option.isSome_iff_ne_none, ne_eq, lastValue_none]
    · rintro ⟨framed, flag⟩
      refine ⟨framed.oneLength, framed.oneCoding, framed.notBoth, ?_, ?_, ?_, ?_⟩
      · exact (lastValue_iff framed.oneCoding fun te => _ ∧ OnlyChunked te).mpr framed.coding
      · exact (lastValue_iff framed.oneLength Digits).mpr framed.digits
      · intro new
        have single := framed.host new
        exact ⟨List.ne_nil_of_length_eq_add_one single, single.le⟩
      · rw [Bool.eq_iff_iff, Option.isSome_iff_ne_none, ne_eq, lastValue_none, flag]
  · constructor
    · intro passes
      exact absurd passes (uvFraming_of_stop scan)
    · rintro ⟨framed, -⟩
      have one := framed.oneLength
      simp only [Option.isSome_none, Bool.toNat_false, Nat.zero_add] at two
      omega

/-! ### The length -/

/-- The number that decimal digits spell. -/
def valueOf (v : Bytes) : Nat := Nat.ofDigits 10 (v.map fun b => b.toNat - 48).reverse

theorem strtoll_digits {v : Bytes} (digits : Digits v) : strtoll v = valueOf v := by
  have all : v.takeWhile (fun b => 48 ≤ b && b ≤ 57) = v := by
    rw [List.takeWhile_eq_self_iff]
    intro b mem
    obtain ⟨low, high⟩ := digits.2.2 b mem
    simp only [low, high, decide_true, Bool.and_true]
  rw [strtoll, all, Buffer.foldl_ofDigits, Nat.zero_mul, Nat.zero_add, valueOf]

theorem valueOf_lt {v : Bytes} (digits : Digits v) : valueOf v < 10 ^ 18 := by
  obtain ⟨-, short, each⟩ := digits
  have below : valueOf v < 10 ^ (v.map fun b => b.toNat - 48).reverse.length := by
    apply Nat.ofDigits_lt_base_pow_length (by decide)
    intro d mem
    obtain ⟨b, inside, rfl⟩ := List.mem_map.mp (List.mem_reverse.mp mem)
    have high : b.toNat ≤ 57 := (each b inside).2
    omega
  rw [List.length_reverse, List.length_map] at below
  exact below.trans_le (Nat.pow_le_pow_right (by decide) short)

theorem uvFindHeader_lines (hs : List Header) (name : String) :
    uvFindHeader hs name = (linesOf name hs).head? :=
  List.head?_filter.symm

/-- The length read afterwards is the one that was checked. -/
theorem declaredLength_line {head : ParsedHead} (framed : WellFramed head) {h : Header}
    (line : h ∈ linesOf "content-length" head.headers) : declaredLength head = valueOf h.value := by
  obtain ⟨only, single⟩ := head_of_le_one framed.oneLength (List.ne_nil_of_mem line)
  have same : h = only := by
    rw [single] at line
    exact List.mem_singleton.mp line
  rw [declaredLength, uvFindHeader_lines, single, List.head?_cons, same]
  apply strtoll_digits
  rw [← same]
  exact framed.digits h line

theorem declaredLength_none {head : ParsedHead}
    (none_ : linesOf "content-length" head.headers = []) : declaredLength head = 0 := by
  rw [declaredLength, uvFindHeader_lines, none_, List.head?_nil]

theorem declaredLength_lt {head : ParsedHead} (framed : WellFramed head) :
    declaredLength head < 10 ^ 18 := by
  by_cases none_ : linesOf "content-length" head.headers = []
  · rw [declaredLength_none none_]
    exact Nat.pos_of_neZero (10 ^ 18)
  · obtain ⟨h, line⟩ := List.exists_mem_of_ne_nil _ none_
    rw [declaredLength_line framed line]
    exact valueOf_lt (framed.digits h line)

/-- The verdict passes exactly the framed heads; and then the flag says whether there is a
`Transfer-Encoding`, the length is the one the digits spell, and the end of the body is a
position. -/
theorem uvFraming_exact (head : ParsedHead)
    (version : head.version = ascii "HTTP/1.1" ∨ head.version = ascii "HTTP/1.0") :
    ((∃ c, uvFraming head = .ok c) ↔ WellFramed head) ∧
      ∀ c, uvFraming head = .ok c →
        (c = true ↔ linesOf "transfer-encoding" head.headers ≠ []) ∧
        (∀ h ∈ linesOf "content-length" head.headers, declaredLength head = valueOf h.value) ∧
        (linesOf "content-length" head.headers = [] → declaredLength head = 0) ∧
        ∀ headEnd < 2 ^ 63, headEnd + 4 + declaredLength head < 2 ^ 64 := by
  constructor
  · constructor
    · rintro ⟨c, passes⟩
      exact ((uvFraming_iff version).mp passes).1
    · intro framed
      refine ⟨decide (linesOf "transfer-encoding" head.headers ≠ []), ?_⟩
      rw [uvFraming_iff version, decide_eq_true_iff]
      exact ⟨framed, Iff.rfl⟩
  · intro c passes
    obtain ⟨framed, flag⟩ := (uvFraming_iff version).mp passes
    refine ⟨flag, fun h line => declaredLength_line framed line, declaredLength_none, ?_⟩
    intro headEnd fits
    have short := declaredLength_lt framed
    omega

/-- An upload of twelve bytes. -/
def upload : ParsedHead :=
  { ({} : ParsedHead) with
    version := ascii "HTTP/1.1"
    headers := [⟨ascii "Host", ascii "a"⟩, ⟨ascii "Content-Length", ascii "12"⟩] }

theorem uvFraming_exact_upload :
    ((∃ c, uvFraming upload = .ok c) ↔ WellFramed upload) ∧
      ∀ c, uvFraming upload = .ok c →
        (c = true ↔ linesOf "transfer-encoding" upload.headers ≠ []) ∧
        (∀ h ∈ linesOf "content-length" upload.headers,
          declaredLength upload = valueOf h.value) ∧
        (linesOf "content-length" upload.headers = [] → declaredLength upload = 0) ∧
        ∀ headEnd < 2 ^ 63, headEnd + 4 + declaredLength upload < 2 ^ 64 :=
  uvFraming_exact upload (.inl rfl)

example : uvFraming upload = .ok false ∧ declaredLength upload = 12 := by decide

end NitroServer.Head
