/-
How near the reported quantiles are (`MetricsAccumulator._quantile`, `metrics.dart`), with `log`
and `pow` as the real functions.

A bucket stands for its geometric middle, and two buckets to a doubling are a factor of √2 wide: at
its edges a bucket is up to 19% away from what it stands for, not 10%.

* `quantileLoop_eq` — the loop returns the bucket in which the running count reaches the target.
* `quantile_eq` — so a quantile is what stands for the bucket of the exact sample.
* `valueOf_near_iff` — how far that is from a sample of the bucket.
* `quantile_near_iff` — when a quantile is within 10% of the exact sample, and 1 µs.
-/

import NitroServer.Metrics.Accumulator

namespace NitroServer.Metrics

open Engine (Bytes)
open Lib

/-! ### The real functions -/

/-- `q` of `_quantile`. -/
def Quantile.value : Quantile → ℚ
  | .p50 => 1 / 2
  | .p90 => 9 / 10
  | .p99 => 99 / 100

/-- `bucketOf`. -/
noncomputable def exactBucket (us : Int) : Int :=
  if us < 1 then 0
  else
    let log := Real.log us / Real.log 2
    if max 0 (min 63 ⌊log * 2⌋) + 1 ≤ 63 then ⌊log * 2⌋ + 1 else 63

/-- `valueOf`. -/
noncomputable def exactValue (index : Nat) : Int :=
  if index = 0 then 0 else round ((2 : ℝ) ^ (((index : ℝ) - 1 + 1 / 2) / 2))

noncomputable def exact : Doubles where
  bucketOf us := Fin.ofNat 64 (exactBucket us).toNat
  valueOf := exactValue
  share q requests := ⌈q.value * requests⌉

/-- An accumulator that recorded these answers. -/
def recorded (f : Doubles) (p : Bytes) (ss : List Sample) : MetricsAccumulator :=
  ss.foldl (fun a s => a.record f s.us s.status) { pattern := p }

/-! ### What is reported -/

/-- The exact sample of rank `⌈q * n⌉`. -/
def exactSample (q : Quantile) (ss : List Sample) : Option Int :=
  ((ss.map (·.us)).insertionSort (· ≤ ·))[⌈q.value * ss.length⌉.toNat - 1]?

/-- Within 10% of the sample, and 1 µs. -/
def Near (reported sample : Int) : Prop := 10 * |reported - sample| ≤ sample + 10

/-- The sample is near the geometric middle of its bucket, `2 ^ k ≤ s ^ 2 < 2 ^ (k + 1)`: that is
less than 1.5 µs further away than the sample's whole tenths. -/
def Central (s : Nat) : Prop :=
  let k := Nat.log 2 (s ^ 2)
  (2 * (s - s / 10 - 1) - 1) ^ 4 < 2 ^ (2 * k + 5) ∧
    2 ^ (2 * k + 5) < (2 * (s + s / 10 + 1) + 1) ^ 4

instance : DecidablePred Central := fun s =>
  inferInstanceAs (Decidable ((2 * (s - s / 10 - 1) - 1) ^ 4 < 2 ^ (2 * Nat.log 2 (s ^ 2) + 5) ∧
    2 ^ (2 * Nat.log 2 (s ^ 2) + 5) < (2 * (s + s / 10 + 1) + 1) ^ 4))

/-! ### The loop -/

section Loop

variable {f : Doubles} {p : Bytes} {ss : List Sample}

/-- The loop stops at the first bucket with which the count reaches the target. -/
theorem quantileLoop_eq {target : Int} {bs : List Int} {j : Nat} (i : Nat) {seen : Int}
    (inside : j < bs.length) (short : ∀ n ≤ j, seen + (bs.take n).sum < target)
    (reach : target ≤ seen + (bs.take (j + 1)).sum) :
    MetricsAccumulator.quantileLoop target bs i seen = some (i + j) := by
  induction bs generalizing i j seen with
  | nil => cases inside
  | cons b bs ih =>
      rw [MetricsAccumulator.quantileLoop]
      cases j with
      | zero =>
          rw [List.take_succ_cons, List.take_zero, List.sum_singleton] at reach
          rw [if_pos reach]
          rfl
      | succ j =>
          have first := short 1 (by omega)
          rw [List.take_succ_cons, List.take_zero, List.sum_singleton] at first
          rw [if_neg (not_le.mpr first), ih (i + 1) (Nat.lt_of_succ_lt_succ inside), Nat.add_assoc,
            Nat.add_comm 1]
          · intro n le
            have next := short (n + 1) (by omega)
            rw [List.take_succ_cons, List.sum_cons] at next
            omega
          · rw [List.take_succ_cons, List.sum_cons] at reach
            omega

/-- The first buckets count the samples that fall into them. -/
theorem sum_take_buckets {n : Nat} (le : n ≤ 64) :
    ((MetricsAccumulator.of f p ss).buckets.toList.take n).sum =
      (ss.countP fun s => (f.bucketOf s.us).val < n : Nat) := by
  have next : ∀ n, ss.countP (fun s => (f.bucketOf s.us).val < n + 1) =
      ss.countP (fun s => (f.bucketOf s.us).val < n) +
        ss.countP fun s => (f.bucketOf s.us).val = n := by
    intro n
    induction ss with
    | nil => rfl
    | cons s ss ih =>
        simp only [List.countP_cons, ih, decide_eq_true_eq]
        split <;> split <;> split <;> omega
  induction n with
  | zero => simp
  | succ n ih =>
      have here : (MetricsAccumulator.of f p ss).buckets.toList[n]? =
          some ((ss.countP fun s => (f.bucketOf s.us).val = n : Nat) : Int) := by
        rw [List.getElem?_eq_getElem (by simpa using le)]
        simp [MetricsAccumulator.of, Fin.ext_iff]
      rw [List.take_add_one, List.sum_append, ih (by omega), here, next, Option.toList_some,
        List.sum_singleton]
      push_cast
      rfl

theorem recorded_eq : recorded f p ss = .of f p ss := by
  have from_ : ∀ front, ss.foldl (fun a s => a.record f s.us s.status)
      (MetricsAccumulator.of f p front) = .of f p (front ++ ss) := by
    induction ss with
    | nil => exact fun front => by rw [List.foldl_nil, List.append_nil]
    | cons s ss ih =>
        intro front
        rw [List.foldl_cons, MetricsAccumulator.record_of, ih, List.append_assoc,
          List.singleton_append]
  have whole := from_ []
  rwa [MetricsAccumulator.of_nil, List.nil_append] at whole

end Loop

/-! ### The exact sample -/

/-- In a sorted list, a property that holds of everything below holds of an element exactly when
the element's place is below the number of elements that have it. -/
theorem getElem?_iff_countP {l : List Int} {P : Int → Bool}
    (below : l.Pairwise fun x y => P y = true → P x = true) {j : Nat} {x : Int}
    (at_ : l[j]? = some x) : P x = true ↔ j < l.countP P := by
  induction l generalizing j with
  | nil => cases at_
  | cons y l ih =>
      obtain ⟨here, behind⟩ := List.pairwise_cons.mp below
      have none_ : P y = false → l.countP P = 0 := by
        intro out
        rw [List.countP_eq_zero]
        intro z mem hold
        rw [here z mem hold] at out
        cases out
      cases j with
      | zero =>
          obtain rfl := Option.some.inj at_
          cases holds : P y with
          | true => simp [holds]
          | false => simp [holds, none_ holds]
      | succ j =>
          have later : P x = true ↔ j < l.countP P := ih behind at_
          cases holds : P y with
          | true => simp [holds, later]
          | false =>
              have zero := none_ holds
              simp [holds, later, zero]

section Rank

variable {p : Bytes} {ss : List Sample} {q : Quantile}

theorem Quantile.value_pos (q : Quantile) : 0 < q.value ∧ q.value ≤ 1 := by
  cases q <;> norm_num [Quantile.value]

/-- The rank is one of the list. -/
theorem rank_range (some_ : ss ≠ []) :
    1 ≤ ⌈q.value * ss.length⌉ ∧ ⌈q.value * ss.length⌉ ≤ ss.length := by
  have many : (0 : ℚ) < ss.length := Nat.cast_pos.mpr (List.length_pos_iff.mpr some_)
  obtain ⟨pos, le⟩ := q.value_pos
  constructor
  · exact Int.one_le_ceil_iff.mpr (mul_pos pos many)
  · refine Int.ceil_le.mpr ?_
    push_cast
    exact mul_le_of_le_one_left many.le le

theorem exactSample_isSome (some_ : ss ≠ []) :
    ∃ s ∈ ss, exactSample q ss = some s.us := by
  obtain ⟨pos, le⟩ := rank_range (q := q) some_
  have inside : ⌈q.value * ss.length⌉.toNat - 1 <
      ((ss.map (·.us)).insertionSort (· ≤ ·)).length := by
    rw [List.length_insertionSort, List.length_map]
    omega
  have mem := List.getElem_mem inside
  rw [List.mem_insertionSort, List.mem_map] at mem
  obtain ⟨s, mem, same⟩ := mem
  exact ⟨s, mem, by rw [exactSample, List.getElem?_eq_getElem inside, same]⟩

/-- The sample has at most the buckets of a count that reaches its rank. -/
theorem exactSample_iff (some_ : ss ≠ []) {s : Int} (sample : exactSample q ss = some s)
    {P : Int → Bool}
    (below : ∀ s ∈ ss, ∀ t ∈ ss, s.us ≤ t.us → P t.us = true → P s.us = true) :
    P s = true ↔ ⌈q.value * ss.length⌉ ≤ (ss.countP fun s => P s.us : Nat) := by
  obtain ⟨pos, -⟩ := rank_range (q := q) some_
  have sorted : ((ss.map (·.us)).insertionSort (· ≤ ·)).Pairwise
      fun x y => P y = true → P x = true := by
    refine (List.pairwise_insertionSort (· ≤ ·) (ss.map (·.us))).imp_of_mem
      fun {x y} memX memY le => ?_
    rw [List.mem_insertionSort, List.mem_map] at memX memY
    obtain ⟨s, memS, rfl⟩ := memX
    obtain ⟨t, memT, rfl⟩ := memY
    exact below s memS t memT le
  rw [getElem?_iff_countP sorted sample, (List.perm_insertionSort _ _).countP_eq, List.countP_map]
  have same : ss.countP (P ∘ fun s => s.us) = ss.countP fun s => P s.us := rfl
  rw [same]
  omega

end Rank

/-! ### Buckets -/

section Buckets

variable {us vs : Nat}

/-- Latencies that the buckets tell apart, in microseconds. -/
def InRange (us : Nat) : Prop := 1 ≤ us ∧ us ≤ 2 ^ 31

theorem log_sq_le (range : InRange us) : Nat.log 2 (us ^ 2) ≤ 62 := by
  have square : us ^ 2 ≤ 2 ^ 62 := by
    calc us ^ 2 ≤ (2 ^ 31) ^ 2 := Nat.pow_le_pow_left range.2 2
      _ = 2 ^ 62 := by norm_num
  calc Nat.log 2 (us ^ 2) ≤ Nat.log 2 (2 ^ 62) := Nat.log_mono_right square
    _ = 62 := Nat.log_pow (by decide) 62

/-- Two buckets to a doubling: the bucket is told by the square. -/
theorem exactBucket_eq (range : InRange us) :
    exactBucket us = (Nat.log 2 (us ^ 2) + 1 : Nat) := by
  have pos : ¬ (us : Int) < 1 := by
    have := range.1
    omega
  have double : Real.log ((us : Int) : ℝ) / Real.log 2 * 2 =
      Real.logb ((2 : ℕ) : ℝ) (us ^ 2 : ℕ) := by
    rw [Int.cast_natCast, Nat.cast_pow, Real.logb, Real.log_pow, Nat.cast_ofNat]
    ring
  have floor : ⌊Real.log ((us : Int) : ℝ) / Real.log 2 * 2⌋ = (Nat.log 2 (us ^ 2) : Int) := by
    rw [double, Real.floor_logb_natCast (Nat.cast_nonneg _), Int.log_natCast]
  have small := log_sq_le range
  simp only [exactBucket, if_neg pos, floor]
  rw [if_pos (by omega)]
  rfl

theorem bucketOf_exact (range : InRange us) :
    (exact.bucketOf us).val = Nat.log 2 (us ^ 2) + 1 := by
  have small := log_sq_le range
  have index : exact.bucketOf us = Fin.ofNat 64 (exactBucket us).toNat := rfl
  rw [index, exactBucket_eq range, Int.toNat_natCast]
  exact Nat.mod_eq_of_lt (by omega)

theorem bucketOf_mono (range : InRange us) (range' : InRange vs) (le : us ≤ vs) :
    (exact.bucketOf us).val ≤ (exact.bucketOf vs).val := by
  rw [bucketOf_exact range, bucketOf_exact range']
  exact Nat.succ_le_succ (Nat.log_mono_right (Nat.pow_le_pow_left le 2))

end Buckets

/-! ### The report -/

section Report

variable {p : Bytes} {ss : List Sample} {q : Quantile}

/-- A quantile is what stands for the bucket of the exact sample. -/
theorem quantile_eq (some_ : ss ≠ []) (range : ∀ s ∈ ss, ∃ us : Nat, s.us = us ∧ InRange us)
    {s : Nat} (inRange : InRange s) (sample : exactSample q ss = some (s : Int)) :
    (MetricsAccumulator.of exact p ss).quantile exact q =
      exactValue (Nat.log 2 (s ^ 2) + 1) := by
  have bucket := bucketOf_exact inRange
  have small := log_sq_le inRange
  obtain ⟨pos, le⟩ := rank_range (q := q) some_
  have target : max 1 (min (exact.share q (MetricsAccumulator.of exact p ss).requests)
      (MetricsAccumulator.of exact p ss).requests) = ⌈q.value * ss.length⌉ := by
    have share : exact.share q (MetricsAccumulator.of exact p ss).requests =
        ⌈q.value * ss.length⌉ := by
      simp [exact, MetricsAccumulator.of]
    have requests : (MetricsAccumulator.of exact p ss).requests = ss.length := rfl
    rw [share, requests]
    omega
  -- the buckets before `n` reach the rank exactly when the sample's bucket is one of them
  have reach : ∀ n ≤ 64, (exact.bucketOf s).val < n ↔ ⌈q.value * ss.length⌉ ≤
      ((MetricsAccumulator.of exact p ss).buckets.toList.take n).sum := by
    intro n le
    have counted := @exactSample_iff ss q some_ s sample
      (fun us => decide ((exact.bucketOf us).val < n)) fun x memX y memY le below => by
        obtain ⟨m, same, inX⟩ := range x memX
        obtain ⟨m', same', inY⟩ := range y memY
        rw [same, same'] at le
        rw [same'] at below
        rw [same]
        have mono := bucketOf_mono inX inY (Int.ofNat_le.mp le)
        simp only [decide_eq_true_eq] at below ⊢
        omega
    rw [decide_eq_true_eq] at counted
    rw [counted, sum_take_buckets le]
  have loop : (MetricsAccumulator.of exact p ss).quantileBucket exact q =
      some (Nat.log 2 (s ^ 2) + 1) := by
    rw [MetricsAccumulator.quantileBucket, target]
    have at_ := @quantileLoop_eq ⌈q.value * ss.length⌉
      (MetricsAccumulator.of exact p ss).buckets.toList (Nat.log 2 (s ^ 2) + 1) 0 0
      (by simpa using (by omega : Nat.log 2 (s ^ 2) + 1 < 64)) ?_ ?_
    · rwa [Nat.zero_add] at at_
    · intro n le
      have := (reach n (by omega)).not
      omega
    · have := reach (Nat.log 2 (s ^ 2) + 1 + 1) (by omega)
      omega
  rw [MetricsAccumulator.quantile, loop]
  rfl

/-- The middle of a bucket, against a number and a half. -/
theorem middle_lt_iff (k b : Nat) :
    (2 : ℝ) ^ (((k : ℝ) + 1 / 2) / 2) < b + 1 / 2 ↔ 2 ^ (2 * k + 5) < (2 * b + 1) ^ 4 := by
  have pos : (0 : ℝ) < (2 : ℝ) ^ (((k : ℝ) + 1 / 2) / 2) := by positivity
  have fourth : (2 * (2 : ℝ) ^ (((k : ℝ) + 1 / 2) / 2)) ^ 4 = 2 ^ (2 * k + 5) := by
    have power : ((2 : ℝ) ^ (((k : ℝ) + 1 / 2) / 2)) ^ 4 = 2 ^ (2 * k + 1) := by
      rw [← Real.rpow_natCast, ← Real.rpow_mul (by norm_num), ← Real.rpow_natCast]
      congr 1
      push_cast
      ring
    rw [mul_pow, power]
    ring
  have doubled : (2 : ℝ) ^ (((k : ℝ) + 1 / 2) / 2) < b + 1 / 2 ↔
      2 * (2 : ℝ) ^ (((k : ℝ) + 1 / 2) / 2) < 2 * b + 1 := by
    constructor <;> intro h <;> linarith
  rw [doubled, ← pow_lt_pow_iff_left₀ (by positivity) (by positivity) (by norm_num : 4 ≠ 0), fourth]
  exact_mod_cast Iff.rfl

theorem round_le_iff (k b : Nat) :
    round ((2 : ℝ) ^ (((k : ℝ) + 1 / 2) / 2)) ≤ b ↔ 2 ^ (2 * k + 5) < (2 * b + 1) ^ 4 := by
  rw [← middle_lt_iff, round_eq, ← Int.lt_add_one_iff, Int.floor_lt]
  push_cast
  constructor <;> intro h <;> linarith

/-- An odd fourth power is no power of two, so that there are no ties. -/
theorem le_round_iff (k a : Nat) :
    (a : Int) ≤ round ((2 : ℝ) ^ (((k : ℝ) + 1 / 2) / 2)) ↔
      (2 * a - 1) ^ 4 < 2 ^ (2 * k + 5) := by
  cases a with
  | zero =>
      have pos : (0 : ℝ) < (2 : ℝ) ^ (((k : ℝ) + 1 / 2) / 2) := by positivity
      have rounded : (0 : Int) ≤ round ((2 : ℝ) ^ (((k : ℝ) + 1 / 2) / 2)) := by
        rw [round_eq]
        exact Int.floor_nonneg.mpr (by linarith)
      exact iff_of_true rounded (Nat.two_pow_pos _)
  | succ a =>
      have odd : 2 * (a + 1) - 1 = 2 * a + 1 := by omega
      have differ : (2 * a + 1) ^ 4 ≠ 2 ^ (2 * k + 5) := by
        intro same
        have parity : Odd ((2 * a + 1) ^ 4) := Odd.pow ⟨a, rfl⟩
        rw [same, Nat.odd_pow_iff (by omega)] at parity
        exact absurd parity (by decide)
      have below := (round_le_iff k a).not
      rw [not_le, not_lt] at below
      rw [odd, Nat.cast_succ, Int.add_one_le_iff, below]
      omega

/-- How far what stands for a bucket is from a sample of the bucket. -/
theorem valueOf_near_iff {s : Nat} (pos : 1 ≤ s) :
    Near (exactValue (Nat.log 2 (s ^ 2) + 1)) s ↔ Central s := by
  have index : exactValue (Nat.log 2 (s ^ 2) + 1) =
      round ((2 : ℝ) ^ (((Nat.log 2 (s ^ 2) : ℝ) + 1 / 2) / 2)) := by
    rw [exactValue, if_neg (Nat.succ_ne_zero _)]
    push_cast
    rw [add_sub_cancel_right]
  have near : Near (exactValue (Nat.log 2 (s ^ 2) + 1)) s ↔
      ((s - s / 10 - 1 : Nat) : Int) ≤ exactValue (Nat.log 2 (s ^ 2) + 1) ∧
        exactValue (Nat.log 2 (s ^ 2) + 1) ≤ (s + s / 10 + 1 : Nat) := by
    generalize exactValue (Nat.log 2 (s ^ 2) + 1) = v
    have tenth : Near v s ↔ |v - s| ≤ (s / 10 + 1 : Nat) := by
      rw [Near]
      generalize |v - s| = d
      omega
    rw [tenth, abs_sub_le_iff]
    omega
  rw [near, index, le_round_iff, round_le_iff]
  rfl

end Report

/-- Reported quantiles: of latencies from 1 to 2^31 µs, in whatever order they were recorded, the
reported quantile is within 10% of the exact sample, and 1 µs, if and only if that sample is near
the middle of its bucket. -/
theorem quantile_near_iff (p : Bytes) {ss : List Sample} (some_ : ss ≠ [])
    (range : ∀ s ∈ ss, 1 ≤ s.us ∧ s.us ≤ 2 ^ 31) (q : Quantile) :
    ∃ s : Nat, exactSample q ss = some (s : Int) ∧
      (Near ((recorded exact p ss).quantile exact q) s ↔ Central s) := by
  have inRange : ∀ s ∈ ss, ∃ us : Nat, s.us = us ∧ InRange us := by
    intro s mem
    obtain ⟨low, high⟩ := range s mem
    exact ⟨s.us.toNat, by omega, by omega, by omega⟩
  obtain ⟨s, mem, sample⟩ := exactSample_isSome (q := q) some_
  obtain ⟨us, same, within⟩ := inRange s mem
  rw [same] at sample
  refine ⟨us, sample, ?_⟩
  rw [recorded_eq, quantile_eq some_ inRange within sample, valueOf_near_iff within.1]

/-- A latency of 8 µs is reported as 10 µs. -/
theorem edge_not_near : ¬ ∀ (ss : List Sample), ss ≠ [] →
    (∀ s ∈ ss, 1 ≤ s.us ∧ s.us ≤ 2 ^ 31) → ∀ q, ∀ s : Int, exactSample q ss = some s →
      Near ((recorded exact [] ss).quantile exact q) s := by
  intro near
  have eight : InRange 8 := ⟨by norm_num, by norm_num⟩
  have one : ∀ s ∈ [(⟨[], 8, 200⟩ : Sample)], ∃ us : Nat, s.us = us ∧ InRange us := by
    intro s mem
    rw [List.mem_singleton.mp mem]
    exact ⟨8, rfl, eight⟩
  have sample : exactSample .p50 [⟨[], 8, 200⟩] = some ((8 : Nat) : Int) := by decide +kernel
  have reported := near [⟨[], 8, 200⟩] (List.cons_ne_nil _ _)
    (fun s mem => by rw [List.mem_singleton.mp mem]; norm_num) .p50 _ sample
  rw [recorded_eq, quantile_eq (List.cons_ne_nil _ _) one eight sample,
    valueOf_near_iff eight.1] at reported
  exact absurd reported (by decide +kernel)

theorem quantile_near_middle :
    Near ((recorded exact [] [⟨[], 10, 200⟩, ⟨[], 7, 200⟩, ⟨[], 1000, 500⟩]).quantile exact .p50)
      10 := by
  have range : ∀ s ∈ [(⟨[], 10, 200⟩ : Sample), ⟨[], 7, 200⟩, ⟨[], 1000, 500⟩],
      1 ≤ s.us ∧ s.us ≤ 2 ^ 31 := by
    intro s mem
    simp only [List.mem_cons, List.not_mem_nil, or_false] at mem
    rcases mem with rfl | rfl | rfl <;> norm_num
  obtain ⟨s, sample, near⟩ := quantile_near_iff [] (List.cons_ne_nil _ _) range .p50
  have ten : exactSample .p50 [⟨[], 10, 200⟩, ⟨[], 7, 200⟩, ⟨[], 1000, 500⟩] = some 10 := by
    decide +kernel
  rw [ten] at sample
  obtain rfl : s = 10 := by
    have := Option.some.inj sample
    omega
  exact near.mpr (by decide +kernel)

end NitroServer.Metrics
