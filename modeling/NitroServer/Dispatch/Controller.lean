/-
The dispatch controller (`src/engine/DispatchController.h`): a hill climb on the number of
isolates that requests are dealt over. The comparison of two throughputs is a parameter.

* `tick_within` — the committed and the tried width stay within the largest isolate count since
  the last reset.
* `tick_fits_iff` — when the width of a tick is within that tick's count.
* `width_fits_iff` — both, in every run.
* `dealt_width` — what `nextEmitter` makes of a published width.
-/

import NitroServer.Dispatch.Emitters

namespace NitroServer.Dispatch

open Lib

/-! ### The controller -/

/-- `answers > baseRate_ * kMargin`, and the base rate before any sample. -/
structure Rates (ρ : Type*) where
  beats : ρ → ρ → Bool
  unmeasured : ρ

def kSaturatedBacklog : Int := 8
def kDwellMin : Nat := 4
def kDwellMax : Nat := 50

structure DispatchController (ρ : Type*) where
  width : Nat
  probe : Nat
  baseRate : ρ
  probing : Bool
  dir : Int
  dwell : Nat
  dwellTarget : Nat
deriving DecidableEq

namespace DispatchController

variable {ρ : Type*} (rates : Rates ρ)

def start : DispatchController ρ where
  width := 1
  probe := 1
  baseRate := rates.unmeasured
  probing := false
  dir := 1
  dwell := 0
  dwellTarget := kDwellMin

/-- `step`. -/
def stepped (w : Nat) (dir : Int) (maxWidth : Nat) : Nat :=
  if dir > 0 then min maxWidth (w * 2) else max 1 (w / 2)

/-- `reset`: all fields are as at the start. -/
def reset (_ : DispatchController ρ) : DispatchController ρ := start rates

/-- The direction of the next trial: it turns at the bounds. -/
def turned (s : DispatchController ρ) (maxWidth : Nat) : Int :=
  if s.dir > 0 ∧ s.width ≥ maxWidth then -1
  else if s.dir < 0 ∧ s.width ≤ 1 then 1
  else s.dir

def tick (s : DispatchController ρ) (answers : ρ) (backlog : Int) (maxWidth : Nat) :
    Nat × DispatchController ρ :=
  if maxWidth ≤ 1 then (1, s)
  else if backlog < kSaturatedBacklog then ((s.reset rates).width, s.reset rates)
  else if s.probing = false then
    let s := { s with baseRate := answers, dwell := s.dwell + 1 }
    if s.dwell < s.dwellTarget then (s.width, s)
    else
      let s := { s with dwell := 0, dir := s.turned maxWidth }
      let probe := stepped s.width s.dir maxWidth
      if probe = s.width then (s.width, s)
      else (probe, { s with probe := probe, probing := true })
  else if rates.beats answers s.baseRate then
    let s := { s with width := s.probe, baseRate := answers, dwellTarget := kDwellMin }
    let next := stepped s.width s.dir maxWidth
    if next ≠ s.width then (next, { s with probe := next })
    else (s.width, { s with probing := false })
  else
    let s := { s with
      probing := false
      dir := -s.dir
      dwellTarget := min kDwellMax (s.dwellTarget * 2) }
    (s.width, s)

end DispatchController

/-! ### Runs -/

/-- What a sweep samples. -/
structure Tick (ρ : Type*) where
  answers : ρ
  backlog : Int
  maxWidth : Nat
deriving DecidableEq

/-- The controller, with the largest isolate count since the last reset. -/
structure Observed (ρ : Type*) extends DispatchController ρ where
  largest : Nat
deriving DecidableEq

namespace Observed

variable {ρ : Type*} (rates : Rates ρ)

/-- No count has been seen; a width is at least 1. -/
def start : Observed ρ := ⟨.start rates, 1⟩

def step (s : Observed ρ) (t : Tick ρ) : Option (Observed ρ) :=
  some
    { toDispatchController := (s.tick rates t.answers t.backlog t.maxWidth).2
      largest :=
        if 1 < t.maxWidth ∧ t.backlog < kSaturatedBacklog then 1 else max s.largest t.maxWidth }

/-- The committed and the tried width are within the largest count. -/
structure Within (s : Observed ρ) : Prop where
  width_pos : 1 ≤ s.width
  width_le : s.width ≤ s.largest
  probe_pos : 1 ≤ s.probe
  probe_le : s.probe ≤ s.largest

end Observed

/-- The count of the tick is not below the width that the tick keeps or steps down to. -/
def Tick.Fits {ρ : Type*} (rates : Rates ρ) (t : Tick ρ) (s : DispatchController ρ) : Prop :=
  t.maxWidth ≤ 1 ∨ t.backlog < kSaturatedBacklog ∨
    if s.probing then
      if rates.beats t.answers s.baseRate then 0 < s.dir ∨ s.probe / 2 ≤ t.maxWidth
      else s.width ≤ t.maxWidth
    else if s.dwell + 1 < s.dwellTarget then s.width ≤ t.maxWidth
    else 0 < s.turned t.maxWidth ∨ s.width / 2 ≤ t.maxWidth

section Ticks

variable {ρ : Type*} {rates : Rates ρ} {s s' : Observed ρ} {t : Tick ρ}

theorem stepped_pos {w maxWidth : Nat} (dir : Int) (pos : 1 ≤ w) (some_ : 1 < maxWidth) :
    1 ≤ DispatchController.stepped w dir maxWidth := by
  rw [DispatchController.stepped]
  split <;> omega

theorem stepped_le (w : Nat) (dir : Int) (maxWidth : Nat) (pos : 1 ≤ w) :
    DispatchController.stepped w dir maxWidth ≤ max w maxWidth := by
  rw [DispatchController.stepped]
  split <;> omega

theorem stepped_fits {w maxWidth : Nat} (dir : Int) (some_ : 1 < maxWidth) :
    DispatchController.stepped w dir maxWidth ≤ maxWidth ↔ 0 < dir ∨ w / 2 ≤ maxWidth := by
  rw [DispatchController.stepped]
  split <;> omega

/-- What a tick that does not reset leaves and returns, within a bound on what it found. -/
theorem tick_bounds (rates : Rates ρ) (s : DispatchController ρ) (answers : ρ)
    {backlog : Int} {maxWidth bound : Nat}
    (busy : ¬ (1 < maxWidth ∧ backlog < kSaturatedBacklog))
    (widthPos : 1 ≤ s.width) (widthLe : s.width ≤ bound) (probePos : 1 ≤ s.probe)
    (probeLe : s.probe ≤ bound) :
    1 ≤ (s.tick rates answers backlog maxWidth).1 ∧
      1 ≤ (s.tick rates answers backlog maxWidth).2.width ∧
      (s.tick rates answers backlog maxWidth).2.width ≤ max bound maxWidth ∧
      1 ≤ (s.tick rates answers backlog maxWidth).2.probe ∧
      (s.tick rates answers backlog maxWidth).2.probe ≤ max bound maxWidth := by
  have width : s.width ≤ max bound maxWidth := widthLe.trans (le_max_left _ _)
  have probe : s.probe ≤ max bound maxWidth := probeLe.trans (le_max_left _ _)
  unfold DispatchController.tick
  split
  · exact ⟨le_rfl, widthPos, width, probePos, probe⟩
  rename_i several
  have some_ : 1 < maxWidth := not_le.mp several
  rw [if_neg fun idle => busy ⟨some_, idle⟩]
  split
  · dsimp only
    split
    · exact ⟨widthPos, widthPos, width, probePos, probe⟩
    split
    · exact ⟨widthPos, widthPos, width, probePos, probe⟩
    · -- a trial starts
      have pos := stepped_pos (s.turned maxWidth) widthPos some_
      have le := stepped_le s.width (s.turned maxWidth) maxWidth widthPos
      have trial := le.trans (max_le_max_right maxWidth widthLe)
      exact ⟨pos, widthPos, width, pos, trial⟩
  split
  · dsimp only
    split
    · -- the trial is committed, and the next one starts
      have pos := stepped_pos s.dir probePos some_
      have le := stepped_le s.probe s.dir maxWidth probePos
      have trial := le.trans (max_le_max_right maxWidth probeLe)
      exact ⟨pos, probePos, probe, pos, trial⟩
    · exact ⟨probePos, probePos, probe, probePos, probe⟩
  · exact ⟨widthPos, widthPos, width, probePos, probe⟩

theorem tick_reset (rates : Rates ρ) (s : DispatchController ρ) (answers : ρ)
    {backlog : Int} {maxWidth : Nat}
    (some_ : 1 < maxWidth) (idle : backlog < kSaturatedBacklog) :
    s.tick rates answers backlog maxWidth = (1, .start rates) := by
  rw [DispatchController.tick, if_neg (not_le.mpr some_), if_pos idle]
  rfl

/-- One tick keeps both widths within the largest count, and returns a width. -/
theorem tick_within (within : s.Within) (step : s.step rates t = some s') :
    s'.Within ∧ 1 ≤ (s.tick rates t.answers t.backlog t.maxWidth).1 := by
  cases step
  by_cases idle : 1 < t.maxWidth ∧ t.backlog < kSaturatedBacklog
  · have reset := tick_reset rates s.toDispatchController t.answers idle.1 idle.2
    refine ⟨?_, by rw [reset]⟩
    rw [reset, if_pos idle]
    exact ⟨le_rfl, le_rfl, le_rfl, le_rfl⟩
  · rw [if_neg idle]
    obtain ⟨pos, widthPos, widthLe, probePos, probeLe⟩ :=
      tick_bounds rates s.toDispatchController t.answers idle within.width_pos
        within.width_le within.probe_pos within.probe_le
    exact ⟨⟨widthPos, widthLe, probePos, probeLe⟩, pos⟩

/-- When the width of a tick is within the tick's count. -/
theorem tick_fits_iff (t : Tick ρ) (s : DispatchController ρ) :
    (s.tick rates t.answers t.backlog t.maxWidth).1 ≤ max 1 t.maxWidth ↔ t.Fits rates s := by
  unfold DispatchController.tick Tick.Fits
  split
  · rename_i few
    simp only [few, true_or, iff_true]
    exact le_max_left _ _
  rename_i several
  have some_ : 1 < t.maxWidth := not_le.mp several
  have top : max 1 t.maxWidth = t.maxWidth := max_eq_right some_.le
  rw [top, or_iff_right several]
  split
  · rename_i idle
    simp only [idle, true_or, iff_true]
    exact some_.le
  rename_i busy
  rw [or_iff_right busy]
  cases probing : s.probing with
  | false =>
      simp only [if_true, Bool.false_eq_true, if_false]
      split
      · exact Iff.rfl
      · rw [← stepped_fits (w := s.width) (s.turned t.maxWidth) some_]
        split
        · rename_i stays
          exact (congrArg (· ≤ t.maxWidth) stays).symm.to_iff
        · exact Iff.rfl
  | true =>
      simp only [Bool.true_eq_false, if_false, if_true]
      split
      · rw [← stepped_fits (w := s.probe) s.dir some_]
        split
        · exact Iff.rfl
        · rename_i stays
          exact (congrArg (· ≤ t.maxWidth) (not_not.mp stays)).symm.to_iff
      · exact Iff.rfl

/-- A count that has not shrunk fits. -/
theorem fits_of_largest (within : s.Within) (t : Tick ρ) (grown : s.largest ≤ t.maxWidth) :
    t.Fits rates s.toDispatchController := by
  have width : s.width ≤ t.maxWidth := within.width_le.trans grown
  have probe : s.probe ≤ t.maxWidth := within.probe_le.trans grown
  refine .inr (.inr ?_)
  split
  · split
    · exact .inr ((Nat.div_le_self _ 2).trans probe)
    · exact width
  · split
    · exact width
    · exact .inr ((Nat.div_le_self _ 2).trans width)

theorem within_run (run : Reaches (stepOf (Observed.step rates)) anyStep (.start rates) s) :
    s.Within :=
  run.invariant ⟨le_rfl, le_rfl, le_rfl, le_rfl⟩ fun _ _ _ within _ step =>
    (tick_within within step).1

/-- Dispatch widths: in every run, the width of a tick is at least 1, and within the tick's count
if and only if that count is not below the width that the tick keeps or steps down to; a count
that has not shrunk since the last reset never is. The committed and the tried width are within
the largest count since the last reset in any case. -/
theorem width_fits_iff (run : Reaches (stepOf (Observed.step rates)) anyStep (.start rates) s)
    (t : Tick ρ) :
    (1 ≤ (s.tick rates t.answers t.backlog t.maxWidth).1 ∧
        (s.tick rates t.answers t.backlog t.maxWidth).1 ≤ max 1 t.maxWidth ↔
      t.Fits rates s.toDispatchController) ∧
    (s.largest ≤ t.maxWidth → t.Fits rates s.toDispatchController) ∧
    s.Within := by
  have within := within_run run
  have pos := (@tick_within ρ rates s _ t within rfl).2
  refine ⟨?_, fits_of_largest within t, within⟩
  rw [and_iff_right pos]
  exact tick_fits_iff t s.toDispatchController

end Ticks

/-! ### A count that shrinks -/

/-- Counts compared without rounding. -/
def wholeRates : Rates Int := ⟨fun answers base => decide (base * 105 < answers * 100), -1⟩

/-- Four settled ticks with four isolates, and two trials that help. -/
def climb : List (Tick Int) :=
  List.replicate 4 ⟨100, 8, 4⟩ ++ [⟨200, 8, 4⟩, ⟨400, 8, 4⟩]

/-- The width is four when two isolates are left. -/
theorem shrunk_count : ∃ s : Observed Int,
    Reaches (stepOf (Observed.step wholeRates)) anyStep (.start wholeRates) s ∧
      ¬ (s.tick wholeRates 400 8 2).1 ≤ 2 := by
  obtain ⟨s, run, four⟩ := exec_any (show
    (exec (Observed.step wholeRates) climb (.start wholeRates)).any
      (fun s => decide ((s.tick wholeRates 400 8 2).1 = 4)) = true by decide +kernel)
  refine ⟨s, exec_reaches run, ?_⟩
  rw [four]
  decide

theorem width_fits_climb : ∃ s : Observed Int, s.width = 4 ∧
    (s.tick wholeRates 400 8 4).1 ≤ max 1 4 := by
  obtain ⟨s, run, width, largest⟩ := exec_any (show
    (exec (Observed.step wholeRates) climb (.start wholeRates)).any
      (fun s => decide (s.width = 4 ∧ s.largest = 4)) = true by decide +kernel)
  obtain ⟨fits, grown, -⟩ := width_fits_iff (exec_reaches run) ⟨400, 8, 4⟩
  exact ⟨s, width, (fits.mpr (grown largest.le)).2⟩

/-! ### What is published -/

section Published

variable {ρ E : Type*} (rates : Rates ρ)

/-- `runDispatchController`, while it is enabled. -/
def runDispatchController (ctl : DispatchController ρ) (s : Emitters E) (answers : ρ)
    (backlog : Int) : DispatchController ρ × Emitters E :=
  let (w, ctl) := ctl.tick rates answers backlog s.emitters.length
  (ctl, s.publish w)

theorem width_publish (s : Emitters E) {w : Nat} (pos : 1 ≤ w) :
    (s.publish w).width = min w s.emitters.length := by
  have published : (s.publish w).width =
      if w = 0 ∨ w > s.emitters.length then s.emitters.length else w := rfl
  rw [published]
  split <;> omega

/-- A width beyond the emitters is dealt as their number. -/
theorem dealt_width {o : Observed ρ} (within : o.Within) (s : Emitters E) (answers : ρ)
    (backlog : Int) :
    (runDispatchController rates o.toDispatchController s answers backlog).2.width =
      min (o.tick rates answers backlog s.emitters.length).1 s.emitters.length :=
  width_publish s
    (@tick_within ρ rates o _ ⟨answers, backlog, s.emitters.length⟩ within rfl).2

end Published

end NitroServer.Dispatch
