/-
Request metrics (`metrics.dart`, and their part of `server_runner.dart`).

A `MetricsAccumulator` counts the answers of one route pattern; `toWire` and `mergeWire`
carry one from isolate to isolate as a row of cells, read back by position. The runner
keeps one for each pattern, and totals beside them. `mergeIsolateMetrics` adds up the maps
that the isolates send.

What the code computes in doubles is `Doubles`: which bucket a latency falls into, the value
a bucket stands for, and a quantile's share of the requests, rounded up. Counters are exact
integers. A cast that fails, or an index out of range, throws: `none`.

Merged metrics are the metrics of all answers:

* `MetricsAccumulator.of` — what an accumulator holds once the answers `ss` were recorded,
  whatever their order: `of_perm`, `record_of`, `merge_of`.
* `recordAll_spec` — the runner's tables and totals, in the same terms.
* `mergeWire_toWire` — a row that crosses to another isolate is added field by field.
* `metrics_homomorphism` — so it does not matter which isolate recorded what.
-/

import NitroServer.Engine.Types
import NitroServer.Lib.Table

namespace NitroServer.Metrics

open Engine (Bytes ascii)
open Lib

inductive Quantile where
  | p50 | p90 | p99
deriving DecidableEq, Repr

instance neZero_buckets : NeZero 64 := ⟨by decide⟩

structure Doubles where
  bucketOf : Int → Fin 64
  valueOf : Nat → Int
  /-- `(q * requests).ceil()`. -/
  share : Quantile → Int → Int

/-- One answer. -/
structure Sample where
  pattern : Bytes
  us : Int
  status : Int
deriving DecidableEq, Repr

/-- An element of a row. -/
inductive Cell where
  | text (s : Bytes)
  | int (n : Int)
deriving DecidableEq, Repr

/-- `as int`. -/
def Cell.int? : Cell → Option Int
  | .int n => some n
  | .text _ => none

/-- `as String`. -/
def Cell.text? : Cell → Option Bytes
  | .text s => some s
  | .int _ => none

structure LatencyStats where
  count : Int := 0
  meanUs : ℚ := 0
  maxUs : Int := 0
  sumUs : Int := 0
  p50Us : Int := 0
  p90Us : Int := 0
  p99Us : Int := 0
deriving DecidableEq

structure RouteMetrics where
  pattern : Bytes
  requests : Int
  errors : Int
  latency : LatencyStats
deriving DecidableEq

structure ServerMetrics where
  requests : Int
  errors : Int
  inFlight : Int
  byStatusClass : Vector Int 6
  byRoute : Table Bytes RouteMetrics

@[ext] structure MetricsAccumulator where
  pattern : Bytes
  requests : Int := 0
  errors : Int := 0
  maxUs : Int := 0
  sumUs : Int := 0
  buckets : Vector Int 64 := .replicate 64 0
deriving DecidableEq

variable (f : Doubles)

namespace MetricsAccumulator

def record (a : MetricsAccumulator) (us status : Int) : MetricsAccumulator :=
  { a with
    requests := a.requests + 1
    errors := if 500 ≤ status then a.errors + 1 else a.errors
    maxUs := if a.maxUs < us then us else a.maxUs
    sumUs := a.sumUs + us
    buckets := a.buckets.set (f.bucketOf us) (a.buckets[f.bucketOf us] + 1) }

/-- The loop of `_quantile`: the bucket in which the running count reaches `target`. -/
def quantileLoop (target : Int) : List Int → Nat → Int → Option Nat
  | [], _, _ => none
  | b :: bs, i, seen =>
      if target ≤ seen + b then some i else quantileLoop target bs (i + 1) (seen + b)

/-- Where the loop of `_quantile` returns. -/
def quantileBucket (a : MetricsAccumulator) (q : Quantile) : Option Nat :=
  quantileLoop (max 1 (min (f.share q a.requests) a.requests)) a.buckets.toList 0 0

/-- `_quantile`. -/
def quantile (a : MetricsAccumulator) (q : Quantile) : Int :=
  match a.quantileBucket f q with
  | some i => f.valueOf i
  | none => a.maxUs

def snapshot (a : MetricsAccumulator) : RouteMetrics where
  pattern := a.pattern
  requests := a.requests
  errors := a.errors
  latency :=
    if a.requests = 0 then {}
    else
      { count := a.requests
        meanUs := a.sumUs / a.requests
        sumUs := a.sumUs
        maxUs := a.maxUs
        p50Us := a.quantile f .p50
        p90Us := a.quantile f .p90
        p99Us := a.quantile f .p99 }

def toWire (a : MetricsAccumulator) : List Cell :=
  [.text a.pattern, .int a.requests, .int a.errors, .int a.maxUs, .int a.sumUs] ++
    a.buckets.toList.map .int

/-- `wire[i] as int`. -/
def intAt (wire : List Cell) (i : Nat) : Option Int := wire[i]?.bind Cell.int?

def mergeWire (a : MetricsAccumulator) (wire : List Cell) : Option MetricsAccumulator := do
  let requests ← intAt wire 1
  let errors ← intAt wire 2
  let maxUs ← intAt wire 3
  let sumUs ← intAt wire 4
  let counts ← (List.range 64).mapM fun i => intAt wire (5 + i)
  return { a with
    requests := a.requests + requests
    errors := a.errors + errors
    maxUs := max a.maxUs maxUs
    sumUs := a.sumUs + sumUs
    buckets := .ofFn fun i => a.buckets[i] + counts.getD i 0 }

end MetricsAccumulator

/-- `byRoute`: the snapshot of every accumulator. -/
def snapshots (accs : Table Bytes MetricsAccumulator) : Table Bytes RouteMetrics :=
  accs.map (·.snapshot f)

/-! ### The runner -/

structure ServerRunner where
  metrics : Table Bytes MetricsAccumulator := .empty
  answered : Int := 0
  errors : Int := 0
  statusClasses : Vector Int 6 := .replicate 6 0
  /-- `_pending.length`. -/
  inFlight : Int := 0

/-- What an isolate sends; a missing entry is `none`. -/
structure IsolateMetrics where
  requests : Option Int := none
  errors : Option Int := none
  inFlight : Option Int := none
  status : Option (List Int) := none
  routes : Option (List (List Cell)) := none

namespace ServerRunner

/-- The class of a status, 1 to 5. -/
def statusClass (status : Int) : Option (Fin 6) :=
  let cls := status.tdiv 100
  if 1 ≤ cls ∧ cls ≤ 5 then some (Fin.ofNat 6 cls.toNat) else none

/-- `_record`. -/
def record (r : ServerRunner) (s : Sample) : ServerRunner :=
  let acc := (r.metrics.find s.pattern).getD { pattern := s.pattern }
  { r with
    metrics := r.metrics.set s.pattern (acc.record f s.us s.status)
    answered := r.answered + 1
    errors := if 500 ≤ s.status then r.errors + 1 else r.errors
    statusClasses :=
      match statusClass s.status with
      | some cls => r.statusClasses.set cls (r.statusClasses[cls] + 1)
      | none => r.statusClasses }

def recordAll (r : ServerRunner) (ss : List Sample) : ServerRunner := ss.foldl (record f) r

/-- `metrics`. -/
def serverMetrics (r : ServerRunner) : ServerMetrics where
  requests := r.answered
  errors := r.errors
  inFlight := r.inFlight
  byStatusClass := r.statusClasses
  byRoute := snapshots f r.metrics

def metricsWire (r : ServerRunner) : IsolateMetrics where
  requests := some r.answered
  errors := some r.errors
  inFlight := some r.inFlight
  status := some r.statusClasses.toList
  routes := some (r.metrics.entries.map fun e => e.2.toWire)

end ServerRunner

/-! ### Aggregation -/

/-- The variables of `mergeIsolateMetrics`. -/
structure Merged where
  requests : Int := 0
  errors : Int := 0
  inFlight : Int := 0
  status : Vector Int 6 := .replicate 6 0
  accumulators : Table Bytes MetricsAccumulator := .empty

namespace Merged

/-- One row of `routes`. -/
def addRow (accs : Table Bytes MetricsAccumulator) (row : List Cell) :
    Option (Table Bytes MetricsAccumulator) := do
  let pattern ← row[0]?.bind Cell.text?
  let acc ← ((accs.find pattern).getD { pattern }).mergeWire row
  return accs.set pattern acc

/-- The body of the loop, for one isolate. -/
def addIsolate (m : Merged) (iso : IsolateMetrics) : Option Merged := do
  let accumulators ← (iso.routes.getD []).foldlM addRow m.accumulators
  return {
    requests := m.requests + iso.requests.getD 0
    errors := m.errors + iso.errors.getD 0
    inFlight := m.inFlight + iso.inFlight.getD 0
    status := .ofFn fun i => m.status[i] + (iso.status.getD []).getD i 0
    accumulators }

/-- The loop over the isolates. -/
def addAll (isolates : List IsolateMetrics) : Option Merged := isolates.foldlM addIsolate {}

/-- What the function returns from its variables. -/
def serverMetrics (m : Merged) : ServerMetrics where
  requests := m.requests
  errors := m.errors
  inFlight := m.inFlight
  byStatusClass := m.status
  byRoute := snapshots f m.accumulators

end Merged

/-- `mergeIsolateMetrics`. -/
def mergeIsolateMetrics (isolates : List IsolateMetrics) : Option ServerMetrics :=
  (Merged.addAll isolates).map (Merged.serverMetrics f)

variable {f} {p : Bytes} {ss ss' : List Sample} {s : Sample}

/-! ### One accumulator -/

namespace MetricsAccumulator

/-- The accumulator of the answers `ss`. -/
def of (f : Doubles) (p : Bytes) (ss : List Sample) : MetricsAccumulator where
  pattern := p
  requests := ss.length
  errors := ss.countP fun s => 500 ≤ s.status
  maxUs := (ss.map (·.us)).foldr max 0
  sumUs := (ss.map (·.us)).sum
  buckets := .ofFn fun i => (ss.countP fun s => f.bucketOf s.us = i : Nat)

/-- Field by field, as `mergeWire` does it. -/
def merge (a b : MetricsAccumulator) : MetricsAccumulator :=
  { a with
    requests := a.requests + b.requests
    errors := a.errors + b.errors
    maxUs := max a.maxUs b.maxUs
    sumUs := a.sumUs + b.sumUs
    buckets := .ofFn fun i => a.buckets[i] + b.buckets[i] }

theorem of_nil : of f p [] = { pattern := p } := by
  ext1
  · rfl
  · rfl
  · rfl
  · rfl
  · rfl
  · ext i hi
    simp [of]

theorem of_perm (h : ss.Perm ss') : of f p ss = of f p ss' := by
  ext1
  · rfl
  · exact congrArg Nat.cast h.length_eq
  · exact congrArg Nat.cast (h.countP_eq _)
  · exact (h.map _).foldr_eq 0
  · exact (h.map _).sum_eq
  · exact congrArg Vector.ofFn (funext fun i => congrArg Nat.cast (h.countP_eq _))

theorem max_nonneg (xs : List Int) : 0 ≤ xs.foldr max 0 := by
  induction xs with
  | nil => exact le_rfl
  | cons x xs ih => exact ih.trans (le_max_right _ _)

theorem max_append (xs ys : List Int) :
    (xs ++ ys).foldr max 0 = max (xs.foldr max 0) (ys.foldr max 0) := by
  induction xs with
  | nil => exact (max_eq_right (max_nonneg ys)).symm
  | cons x xs ih => rw [List.cons_append, List.foldr_cons, ih, List.foldr_cons, max_assoc]

theorem merge_of : merge (of f p ss) (of f p ss') = of f p (ss ++ ss') := by
  ext1
  · rfl
  · simp [merge, of]
  · simp [merge, of]
  · simp only [merge, of, List.map_append, max_append]
  · simp [merge, of]
  · ext i hi
    simp [merge, of]

theorem record_of : (of f p ss).record f s.us s.status = of f p (ss ++ [s]) := by
  ext1
  · rfl
  · simp [record, of]
  · simp only [record, of, List.countP_append, List.countP_singleton]
    split <;> simp_all
  · simp only [record, of, List.map_append, List.map_singleton, max_append, List.foldr_cons,
      List.foldr_nil]
    have greater : ∀ most us : Int, 0 ≤ most →
        (if most < us then us else most) = max most (max us 0) := by
      intro most us nonneg
      split <;> omega
    exact greater _ _ (max_nonneg _)
  · simp [record, of]
  · ext i hi
    simp only [record, of, Vector.getElem_set, Vector.getElem_ofFn, Fin.getElem_fin,
      List.countP_append, List.countP_singleton, Fin.ext_iff]
    split <;> simp_all

/-! ### Quantiles -/

/-- The loop returns once the buckets reach the target. -/
theorem quantileLoop_isSome {target : Int} :
    ∀ (bs : List Int) (i : Nat) (seen : Int), seen < target → target ≤ seen + bs.sum →
      (quantileLoop target bs i seen).isSome = true
  | [], _, seen, below, reach => by
      rw [List.sum_nil] at reach
      omega
  | b :: bs, i, seen, below, reach => by
      rw [quantileLoop]
      split
      · rfl
      · rename_i short
        refine quantileLoop_isSome bs (i + 1) (seen + b) (by omega) ?_
        rw [List.sum_cons] at reach
        omega

/-- Every answer falls into one class. -/
theorem sum_countP (g : Sample → Fin 64) (ss : List Sample) :
    (∑ i, ss.countP fun s => g s = i) = ss.length := by
  induction ss with
  | nil => simp
  | cons s ss ih => simp [List.countP_cons, Finset.sum_add_distrib, ih]

/-- The buckets count every answer once. -/
theorem sum_buckets (ss : List Sample) : (of f p ss).buckets.toList.sum = ss.length := by
  have counted := sum_countP (fun s => f.bucketOf s.us) ss
  simp only [of, Vector.toList_ofFn, List.sum_ofFn]
  exact_mod_cast counted

/-- The loop of `_quantile` returns from inside. -/
theorem quantileBucket_of (some : ss ≠ []) (q : Quantile) :
    ((of f p ss).quantileBucket f q).isSome = true := by
  have many : 0 < ss.length := List.length_pos_iff.mpr some
  refine quantileLoop_isSome _ 0 0 ?_ ?_
  · omega
  · rw [sum_buckets]
    simp only [of]
    omega

/-! ### Rows -/

theorem intAt_toWire (a : MetricsAccumulator) {i : Nat} (h : i < 64) :
    intAt a.toWire (5 + i) = some a.buckets[i] := by
  have cells : a.toWire[5 + i]? = (a.buckets.toList.map Cell.int)[i]? := by
    rw [toWire, List.getElem?_append_right (Nat.le_add_right 5 i)]
    exact congrArg _ (Nat.add_sub_cancel_left 5 i)
  rw [intAt, cells, List.getElem?_map, List.getElem?_eq_getElem (by simpa using h)]
  simp [Cell.int?]

/-- Reads that all succeed. -/
theorem mapM_eq_some {α β : Type} {g : α → Option β} {v : α → β} {xs : List α}
    (reads : ∀ x ∈ xs, g x = some (v x)) : xs.mapM g = some (xs.map v) := by
  induction xs with
  | nil => rfl
  | cons x xs ih =>
      rw [List.mapM_cons, reads x List.mem_cons_self,
        ih fun y hy => reads y (List.mem_cons_of_mem x hy)]
      rfl

/-- A row is read back by position. -/
theorem mergeWire_toWire (a b : MetricsAccumulator) : a.mergeWire b.toWire = some (merge a b) := by
  have counts : (List.range 64).mapM (fun i => intAt b.toWire (5 + i)) =
      some ((List.range 64).map fun i => b.buckets.toList.getD i 0) := by
    refine mapM_eq_some fun i hi => ?_
    have low := List.mem_range.mp hi
    rw [intAt_toWire b low]
    simp [List.getD, low]
  have same : ∀ i : Fin 64,
      ((List.range 64).map fun i => b.buckets.toList.getD i 0).getD i 0 = b.buckets[i] := by
    intro i
    simp [List.getD]
  have first : intAt b.toWire 1 = some b.requests ∧ intAt b.toWire 2 = some b.errors ∧
      intAt b.toWire 3 = some b.maxUs ∧ intAt b.toWire 4 = some b.sumUs := ⟨rfl, rfl, rfl, rfl⟩
  simp only [mergeWire, first, counts, Option.bind_eq_bind, Option.bind_some, same]
  rfl

end MetricsAccumulator

/-! ### What is recorded under a pattern -/

/-- The answers of one route. -/
def own (p : Bytes) (ss : List Sample) : List Sample := ss.filter fun s => s.pattern = p

/-- The accumulator that the answers leave under `p`, if any was recorded there. -/
def tally (f : Doubles) (p : Bytes) (ss : List Sample) : Option MetricsAccumulator :=
  if own p ss = [] then none else some (.of f p (own p ss))

theorem tally_perm (h : ss.Perm ss') : tally f p ss = tally f p ss' := by
  have same : (own p ss).Perm (own p ss') := h.filter _
  rw [tally, tally, MetricsAccumulator.of_perm same]
  exact if_congr (by rw [← List.length_eq_zero_iff, ← List.length_eq_zero_iff, same.length_eq])
    rfl rfl

theorem tally_append :
    tally f p (ss ++ ss') = (tally f p ss).merge .merge (tally f p ss') := by
  have parts : own p (ss ++ ss') = own p ss ++ own p ss' := List.filter_append ..
  rw [tally, tally, tally, parts]
  by_cases h : own p ss = []
  · by_cases h' : own p ss' = []
    · simp [h, h']
    · simp [h, h']
  · by_cases h' : own p ss' = []
    · simp [h, h']
    · simp [h, h', MetricsAccumulator.merge_of]

/-- What was recorded before, or nothing. -/
theorem tally_getD : (tally f p ss).getD { pattern := p } = .of f p (own p ss) := by
  rw [tally]
  split
  · rename_i none
    rw [none, MetricsAccumulator.of_nil]
    rfl
  · rfl

theorem tally_one : tally f p [s] = if s.pattern = p then some (.of f p [s]) else none := by
  rw [tally, own]
  by_cases h : s.pattern = p
  · simp [h]
  · simp [h]

theorem tally_eq_some {a : MetricsAccumulator} (h : tally f p ss = some a) :
    ∃ xs, xs ≠ [] ∧ a = .of f p xs := by
  rw [tally] at h
  split at h
  · cases h
  · rename_i some
    cases h
    exact ⟨_, some, rfl⟩

/-! ### The runner -/

/-- The tables and totals that the answers `ss` leave. -/
structure Totals (f : Doubles) (ss : List Sample) (metrics : Table Bytes MetricsAccumulator)
    (requests errors : Int) (classes : Vector Int 6) : Prop where
  metrics : ∀ p, metrics.find p = tally f p ss
  requests : requests = ss.length
  errors : errors = ss.countP fun s => 500 ≤ s.status
  classes : ∀ i : Fin 6,
    classes[i] = ss.countP fun s => ServerRunner.statusClass s.status = some i

theorem Totals.empty : Totals f [] .empty 0 0 (.replicate 6 0) where
  metrics _ := rfl
  requests := rfl
  errors := rfl
  classes i := by simp

/-- An answer is counted in its class. -/
theorem classes_record {r : ServerRunner} (i : Fin 6) :
    (r.record f s).statusClasses[i] =
      r.statusClasses[i] + if ServerRunner.statusClass s.status = some i then 1 else 0 := by
  have counted : ∀ (class_ : Option (Fin 6)) (classes : Vector Int 6),
      (match class_ with
        | some cls => classes.set cls (classes[cls] + 1)
        | none => classes)[i] = classes[i] + if class_ = some i then 1 else 0 := by
    intro class_ classes
    cases class_ with
    | none => simp
    | some cls =>
        by_cases here : cls = i
        · simp [here]
        · simp [here, Fin.val_ne_of_ne here]
  exact counted _ _

theorem Totals.record {r : ServerRunner}
    (h : Totals f ss r.metrics r.answered r.errors r.statusClasses) (s : Sample) :
    Totals f (ss ++ [s]) (r.record f s).metrics (r.record f s).answered (r.record f s).errors
      (r.record f s).statusClasses where
  metrics p := by
    simp only [ServerRunner.record, Table.find_set]
    rw [h.metrics s.pattern, tally_getD, MetricsAccumulator.record_of, h.metrics p]
    by_cases here : p = s.pattern
    · subst here
      simp [tally, own]
    · simp [tally, own, here, Ne.symm here]
  requests := by simp [ServerRunner.record, h.requests]
  errors := by
    simp only [ServerRunner.record, h.errors, List.countP_append, List.countP_singleton]
    split <;> simp_all
  classes i := by
    rw [classes_record, h.classes i, List.countP_append, List.countP_singleton]
    simp

theorem recordAll_totals {r : ServerRunner} (ss' : List Sample)
    (h : Totals f ss r.metrics r.answered r.errors r.statusClasses) :
    Totals f (ss ++ ss') (r.recordAll f ss').metrics (r.recordAll f ss').answered
      (r.recordAll f ss').errors (r.recordAll f ss').statusClasses := by
  induction ss' generalizing r ss with
  | nil => simpa [ServerRunner.recordAll] using h
  | cons s ss' ih =>
      have rest := ih (h.record s)
      rwa [List.append_assoc] at rest

theorem inFlight_recordAll (r : ServerRunner) (ss : List Sample) :
    (r.recordAll f ss).inFlight = r.inFlight := by
  induction ss generalizing r with
  | nil => rfl
  | cons s ss ih => exact ih (r.record f s)

/-! ### The rows of one isolate -/

theorem addRow_toWire (accs : Table Bytes MetricsAccumulator) (b : MetricsAccumulator) :
    Merged.addRow accs b.toWire =
      some (accs.set b.pattern (((accs.find b.pattern).getD { pattern := b.pattern }).merge b)) := by
  have named : b.toWire[0]?.bind Cell.text? = some b.pattern := rfl
  simp only [Merged.addRow, named, Option.bind_eq_bind, Option.bind_some,
    MetricsAccumulator.mergeWire_toWire]
  rfl

/-- A table whose accumulators hold answers recorded under their key. -/
def Recorded (f : Doubles) (es : List (Bytes × MetricsAccumulator)) : Prop :=
  ∀ e ∈ es, ∃ xs, e.2 = .of f e.1 xs

/-- Rows are added key by key. -/
theorem addRows {es : List (Bytes × MetricsAccumulator)} (nodup : (es.map Prod.fst).Nodup)
    (recorded : Recorded f es) (accs : Table Bytes MetricsAccumulator) :
    ∃ accs', (es.map fun e => e.2.toWire).foldlM Merged.addRow accs = some accs' ∧
      ∀ p, accs'.find p = (accs.find p).merge .merge (Table.find ⟨es, nodup⟩ p) := by
  induction es generalizing accs with
  | nil => exact ⟨accs, rfl, fun p => by simp [Table.find]⟩
  | cons e es ih =>
      obtain ⟨xs, held⟩ := recorded e List.mem_cons_self
      have distinct := nodup
      rw [List.map_cons, List.nodup_cons] at distinct
      have key : e.2.pattern = e.1 := by rw [held]; rfl
      -- what was never recorded adds nothing
      have new : MetricsAccumulator.merge { pattern := e.1 } e.2 = e.2 := by
        rw [held, ← MetricsAccumulator.of_nil (f := f), MetricsAccumulator.merge_of]
        rfl
      obtain ⟨accs', run, lookups⟩ := ih distinct.2
        (fun e' he' => recorded e' (List.mem_cons_of_mem e he'))
        (accs.set e.1 (((accs.find e.1).getD { pattern := e.1 }).merge e.2))
      refine ⟨accs', ?_, fun p => ?_⟩
      · rw [List.map_cons, List.foldlM_cons, addRow_toWire, key]
        exact run
      · rw [lookups p, Table.find_set, Table.find_cons nodup]
        by_cases here : p = e.1
        · have later : Table.find ⟨es, distinct.2⟩ e.1 = none :=
            Table.find_eq_none_iff.mpr distinct.1
          subst here
          rw [if_pos rfl, if_pos rfl, later]
          cases accs.find e.1 with
          | none => simp [new]
          | some old => simp
        · rw [if_neg here, if_neg here]

theorem Totals.recorded {t : Table Bytes MetricsAccumulator} {requests errors : Int}
    {classes : Vector Int 6} (h : Totals f ss t requests errors classes) :
    Recorded f t.entries := by
  intro e he
  have found := h.metrics e.1
  rw [Table.find_eq_some_iff.mpr he] at found
  obtain ⟨xs, -, held⟩ := tally_eq_some found.symm
  exact ⟨own e.1 ss, by
    rw [tally] at found
    split at found
    · cases found
    · exact Option.some.inj found⟩

/-- The totals of two sets of answers. -/
theorem Totals.append {t t' u : Table Bytes MetricsAccumulator}
    {requests errors requests' errors' : Int} {classes classes' : Vector Int 6}
    (h : Totals f ss t requests errors classes) (h' : Totals f ss' t' requests' errors' classes')
    (keys : ∀ p, u.find p = (t.find p).merge .merge (t'.find p)) :
    Totals f (ss ++ ss') u (requests + requests') (errors + errors')
      (.ofFn fun i => classes[i] + classes'.toList.getD i 0) where
  metrics p := by rw [keys, h.metrics, h'.metrics, tally_append]
  requests := by rw [h.requests, h'.requests, List.length_append]; push_cast; rfl
  errors := by rw [h.errors, h'.errors, List.countP_append]; push_cast; rfl
  classes i := by
    have here : classes'.toList.getD i 0 = classes'[i] := by simp [List.getD]
    rw [List.countP_append]
    push_cast
    rw [← h.classes i, ← h'.classes i, ← here]
    simp

/-- One isolate more. -/
theorem addIsolate_totals {m : Merged} {r : ServerRunner}
    (h : Totals f ss m.accumulators m.requests m.errors m.status)
    (h' : Totals f ss' r.metrics r.answered r.errors r.statusClasses) :
    ∃ m', m.addIsolate r.metricsWire = some m' ∧ m'.inFlight = m.inFlight + r.inFlight ∧
      Totals f (ss ++ ss') m'.accumulators m'.requests m'.errors m'.status := by
  obtain ⟨accs, run, keys⟩ := addRows r.metrics.nodup h'.recorded m.accumulators
  have rows : (r.metricsWire.routes.getD []).foldlM Merged.addRow m.accumulators = some accs :=
    run
  refine ⟨⟨m.requests + r.answered, m.errors + r.errors, m.inFlight + r.inFlight,
    .ofFn fun i => m.status[i] + r.statusClasses.toList.getD i 0, accs⟩, ?_, rfl, ?_⟩
  · simp only [Merged.addIsolate, rows, Option.bind_eq_bind, Option.bind_some]
    rfl
  · exact h.append h' keys

/-- Any number of isolates. -/
theorem addIsolates_totals (isolates : List (List Sample × Int)) {m : Merged}
    (h : Totals f ss m.accumulators m.requests m.errors m.status) :
    ∃ m', (isolates.map fun x =>
        (ServerRunner.recordAll f { inFlight := x.2 } x.1).metricsWire).foldlM
          Merged.addIsolate m = some m' ∧
      m'.inFlight = m.inFlight + (isolates.map Prod.snd).sum ∧
      Totals f (ss ++ isolates.flatMap Prod.fst) m'.accumulators m'.requests m'.errors
        m'.status := by
  induction isolates generalizing m ss with
  | nil => exact ⟨m, rfl, by simp, by simpa using h⟩
  | cons x isolates ih =>
      have own : Totals f x.1 (ServerRunner.recordAll f { inFlight := x.2 } x.1).metrics _ _ _ :=
        recordAll_totals x.1 (r := { inFlight := x.2 }) .empty
      obtain ⟨m₁, first, flight₁, totals₁⟩ := addIsolate_totals h own
      obtain ⟨m₂, rest, flight₂, totals₂⟩ := ih totals₁
      refine ⟨m₂, ?_, ?_, ?_⟩
      · rw [List.map_cons, List.foldlM_cons, first]
        exact rest
      · rw [flight₂, flight₁, inFlight_recordAll, List.map_cons, List.sum_cons, add_assoc]
      · rw [List.flatMap_cons, ← List.append_assoc]
        exact totals₂

/-- The metrics merged from the isolates are those of one runner that recorded every
answer, in whatever order; and every route's buckets sum to its requests, so a quantile is
read inside the loop. -/
theorem metrics_homomorphism (f : Doubles) (isolates : List (List Sample × Int))
    (all : List Sample) (same : all.Perm (isolates.flatMap Prod.fst)) :
    ∃ m, Merged.addAll (isolates.map fun x =>
        (ServerRunner.recordAll f { inFlight := x.2 } x.1).metricsWire) = some m ∧
      mergeIsolateMetrics f (isolates.map fun x =>
        (ServerRunner.recordAll f { inFlight := x.2 } x.1).metricsWire) =
          some (m.serverMetrics f) ∧
      (∀ p, m.accumulators.find p = (ServerRunner.recordAll f {} all).metrics.find p) ∧
      m.requests = (ServerRunner.recordAll f {} all).answered ∧
      m.errors = (ServerRunner.recordAll f {} all).errors ∧
      m.status = (ServerRunner.recordAll f {} all).statusClasses ∧
      m.inFlight = (isolates.map Prod.snd).sum ∧
      (∀ p, (m.serverMetrics f).byRoute.find p =
        ((ServerRunner.recordAll f {} all).serverMetrics f).byRoute.find p) ∧
      ∀ p a, m.accumulators.find p = some a →
        a.buckets.toList.sum = a.requests ∧ ∀ q, (a.quantileBucket f q).isSome = true := by
  obtain ⟨m, run, flight, merged⟩ := addIsolates_totals (f := f) (m := {}) isolates .empty
  have one : Totals f all (ServerRunner.recordAll f {} all).metrics _ _ _ :=
    recordAll_totals all (r := {}) .empty
  rw [List.nil_append] at merged
  have tables : ∀ p, m.accumulators.find p = (ServerRunner.recordAll f {} all).metrics.find p := by
    intro p
    rw [merged.metrics, one.metrics, tally_perm same]
  refine ⟨m, run, congrArg (Option.map _) run, tables, ?_, ?_, ?_, ?_, fun p => ?_,
    fun p a found => ?_⟩
  · rw [merged.requests, one.requests, same.length_eq]
  · rw [merged.errors, one.errors, same.countP_eq]
  · ext i hi
    have left := merged.classes ⟨i, hi⟩
    have right := one.classes ⟨i, hi⟩
    rw [← same.countP_eq] at left
    exact left.trans right.symm
  · simpa using flight
  · simp only [Merged.serverMetrics, ServerRunner.serverMetrics, snapshots, Table.find_map, tables]
  · rw [merged.metrics] at found
    obtain ⟨xs, some, rfl⟩ := tally_eq_some found
    exact ⟨MetricsAccumulator.sum_buckets xs, MetricsAccumulator.quantileBucket_of some⟩

/-- One bucket for each microsecond. -/
def sampleDoubles : Doubles where
  bucketOf us := Fin.ofNat 64 (min us.toNat 63)
  valueOf i := i
  share _ n := (n + 1) / 2

def sampleIsolates : List (List Sample × Int) :=
  [([⟨ascii "/a", 3, 200⟩, ⟨ascii "/b", 9, 500⟩], 1), ([⟨ascii "/a", 7, 404⟩], 0)]

theorem metrics_homomorphism_two : ∃ m, Merged.addAll (sampleIsolates.map fun x =>
      (ServerRunner.recordAll sampleDoubles { inFlight := x.2 } x.1).metricsWire) = some m ∧
    m.accumulators.find (ascii "/a") = (ServerRunner.recordAll sampleDoubles {}
      [⟨ascii "/a", 7, 404⟩, ⟨ascii "/a", 3, 200⟩, ⟨ascii "/b", 9, 500⟩]).metrics.find
        (ascii "/a") ∧ m.inFlight = 1 := by
  obtain ⟨m, run, -, tables, -, -, -, flight, -⟩ := metrics_homomorphism sampleDoubles sampleIsolates
    [⟨ascii "/a", 7, 404⟩, ⟨ascii "/a", 3, 200⟩, ⟨ascii "/b", 9, 500⟩] (by decide)
  exact ⟨m, run, tables _, flight⟩

end NitroServer.Metrics
