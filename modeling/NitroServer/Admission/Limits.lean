/-
The global limits, `maxConnections` and `maxInFlightRequests`.

Both are checked in one operation of a loop and counted in a later one. Between the two,
`admitting` loops have a place and have not taken it, and so have `registering` ones; what
is bounded is the count together with them. A check that leaves them out can pass on two
loops at once (`limits_overrun`).

* `limits_hold` — where every check that passes leaves room for the loops that have passed
  before it, neither limit is ever exceeded.
-/

import NitroServer.Admission.Gate

namespace NitroServer.Admission

open Engine Lib

/-- The connection has passed the check against `maxConnections` and is not counted yet. -/
def Task.admits : Task → Bool
  | .slot _ _ | .count _ => true
  | _ => false

/-- The request has passed the budget check and is not registered yet. -/
def Task.registers : Task → Bool
  | .register _ => true
  | _ => false

def Server.admitting (s : Server) : Nat := s.tasks.entries.countP fun e => e.2.admits

def Server.registering (s : Server) : Nat := s.tasks.entries.countP fun e => e.2.registers

/-- A check that passes leaves room for those that have passed before it. -/
def roomy (cfg : Limits) (s : Server) : Act → Bool
  | .advance loop _ =>
      match s.tasks.find loop with
      | some (.room _ _) =>
          cfg.maxConnections ≤ s.live || s.live + s.admitting < cfg.maxConnections
      | _ => true
  | .dispatch _ _ =>
      cfg.maxInFlightRequests ≤ s.reqs.entries.length ||
        s.reqs.entries.length + s.registering < cfg.maxInFlightRequests
  | _ => true

/-- The counts with the loops between a check and its count. -/
structure Within (cfg : Limits) (s : Server) : Prop where
  conns : 0 < cfg.maxConnections → s.live + s.admitting ≤ cfg.maxConnections
  reqs : 0 < cfg.maxInFlightRequests →
    s.reqs.entries.length + s.registering ≤ cfg.maxInFlightRequests

section Counts

variable {s : Server} {loop : Nat} {t t' : Task}

theorem countP_setTask (p : Task → Bool) (ht : s.tasks.find loop = some t) :
    ((s.setTask loop t').tasks.entries.countP (p ·.2) : ℤ) =
      s.tasks.entries.countP (p ·.2) - (if p t then 1 else 0) + if p t' then 1 else 0 := by
  rw [← Table.total_countP, ← Table.total_countP, Server.setTask, Table.total_set ht]

theorem countP_newTask (p : Task → Bool) (ht : s.tasks.find loop = none) :
    ((s.setTask loop t').tasks.entries.countP (p ·.2) : ℤ) =
      s.tasks.entries.countP (p ·.2) + if p t' then 1 else 0 := by
  rw [← Table.total_countP, ← Table.total_countP, Server.setTask, Table.total_insert ht]

theorem countP_done (p : Task → Bool) (ht : s.tasks.find loop = some t) :
    ((s.done loop).tasks.entries.countP (p ·.2) : ℤ) =
      s.tasks.entries.countP (p ·.2) - if p t then 1 else 0 := by
  rw [← Table.total_countP, ← Table.total_countP, Server.done, Table.total_erase ht]

end Counts

namespace Within

variable {cfg : Limits} {s s' : Server} {loop id : Nat} {c : Client} {t t' : Task}

/-- Nothing is counted and no place is taken. -/
theorem frame (h : Within cfg s) (live : s'.live ≤ s.live)
    (reqs : s'.reqs.entries.length ≤ s.reqs.entries.length)
    (admitting : (s'.admitting : ℤ) ≤ s.admitting)
    (registering : (s'.registering : ℤ) ≤ s.registering) : Within cfg s' where
  conns on := by
    have := h.conns on
    omega
  reqs on := by
    have := h.reqs on
    omega

/-- The loop goes on inside its callback, without a new place. -/
theorem goesOn (h : Within cfg s) (ht : s.tasks.find loop = some t) (live : s'.live ≤ s.live)
    (reqs : s'.reqs = s.reqs) (tasks : s'.tasks = (s.setTask loop t').tasks)
    (admits : t'.admits = true → t.admits = true) (registers : t'.registers = false) :
    Within cfg s' := by
  refine h.frame live (by rw [reqs]) ?_ ?_
  · rw [Server.admitting, tasks, countP_setTask Task.admits ht, Server.admitting]
    split <;> split <;> simp_all
  · rw [Server.registering, tasks, countP_setTask Task.registers ht, Server.registering, registers]
    split <;> simp

/-- The loop's callback returns. -/
theorem rests (h : Within cfg s) (ht : s.tasks.find loop = some t) (live : s'.live ≤ s.live)
    (reqs : s'.reqs = s.reqs) (tasks : s'.tasks = (s.done loop).tasks) : Within cfg s' := by
  refine h.frame live (by rw [reqs]) ?_ ?_
  · rw [Server.admitting, tasks, countP_done Task.admits ht, Server.admitting]
    split <;> simp
  · rw [Server.registering, tasks, countP_done Task.registers ht, Server.registering]
    split <;> simp

/-- A callback starts that has not passed a check. -/
theorem starts (h : Within cfg s) (ht : s.tasks.find loop = none) (live : s'.live = s.live)
    (reqs : s'.reqs = s.reqs) (tasks : s'.tasks = (s.setTask loop t').tasks)
    (admits : t'.admits = false) (registers : t'.registers = false) : Within cfg s' := by
  refine h.frame live.le (by rw [reqs]) ?_ ?_
  · rw [Server.admitting, tasks, countP_newTask Task.admits ht, Server.admitting, admits]
    simp
  · rw [Server.registering, tasks, countP_newTask Task.registers ht, Server.registering, registers]
    simp

/-- A connection passes the check against `maxConnections`. -/
theorem passes (h : Within cfg s) (ht : s.tasks.find loop = some t)
    (roomy : s.live + s.admitting < cfg.maxConnections ∨ cfg.maxConnections ≤ 0)
    (admits : t.admits = false) (registers : t.registers = false) (registers' : t'.registers = false) :
    Within cfg (s.setTask loop t') where
  conns on := by
    have count : ((s.setTask loop t').admitting : ℤ) = _ := countP_setTask Task.admits ht
    rw [admits, if_neg Bool.false_ne_true] at count
    rw [count]
    simp only [Server.setTask, Server.admitting] at roomy ⊢
    split <;> omega
  reqs on := by
    have count : ((s.setTask loop t').registering : ℤ) = _ := countP_setTask Task.registers ht
    rw [registers, registers', if_neg Bool.false_ne_true] at count
    have := h.reqs on
    rw [count]
    simp only [Server.setTask, Server.registering] at this ⊢
    omega

/-- Every operation of a loop stays within the limits. -/
theorem advance (h : Within cfg s) (ht : s.tasks.find loop = some t) (tlsOk : Bool)
    (room : roomy cfg s (.advance loop tlsOk) = true) :
    Within cfg (s.advance cfg loop tlsOk c t) := by
  cases t with
  | arrived id ip =>
      simp only [Server.advance]
      split
      · exact h.rests ht le_rfl rfl rfl
      · exact h.goesOn ht le_rfl rfl rfl (fun h => h) rfl
  | room id ip =>
      simp only [Server.advance, Server.tryRoom]
      split
      · exact h.rests ht le_rfl rfl rfl
      · rename_i below
        have roomy : s.live + s.admitting < cfg.maxConnections ∨ cfg.maxConnections ≤ 0 := by
          simp only [Admission.roomy, ht, Bool.or_eq_true, decide_eq_true_eq] at room
          omega
        split
        · exact h.passes ht roomy rfl rfl rfl
        · exact h.passes ht roomy rfl rfl rfl
  | slot id ip =>
      simp only [Server.advance, Server.tryIp]
      split
      · exact h.rests ht le_rfl rfl rfl
      · exact h.goesOn ht le_rfl rfl rfl (fun h => h) rfl
  | count id =>
      have admitting : ((s.setTask loop (.secure id)).admitting : ℤ) = s.admitting - 1 + 0 :=
        countP_setTask Task.admits ht
      have registering : ((s.setTask loop (.secure id)).registering : ℤ) = s.registering - 0 + 0 :=
        countP_setTask Task.registers ht
      refine ⟨fun on => ?_, fun on => ?_⟩
      · have := h.conns on
        simp only [Server.advance, Server.admitting, Server.setTask, Server.setClient] at *
        omega
      · have := h.reqs on
        simp only [Server.advance, Server.registering, Server.setTask, Server.setClient] at *
        omega
  | secure id => exact h.rests ht le_rfl rfl rfl
  | release id last =>
      simp only [Server.advance]
      split
      · exact h.goesOn ht (by simp [Server.setTask]) rfl rfl (fun h => h) rfl
      · exact h.goesOn ht le_rfl rfl rfl (fun h => h) rfl
  | releaseIp id last =>
      have same : (s.dropSlot id c).live = s.live ∧ (s.dropSlot id c).reqs = s.reqs ∧
          (s.dropSlot id c).tasks = s.tasks := by
        unfold Server.dropSlot
        split <;> exact ⟨rfl, rfl, rfl⟩
      simp only [Server.advance]
      split <;>
      · refine h.rests ht same.1.le same.2.1 ?_
        simp only [Server.done, same.2.2]
  | register id =>
      have admitting : ((s.done loop).admitting : ℤ) = s.admitting - 0 :=
        countP_done Task.admits ht
      have registering : ((s.done loop).registering : ℤ) = s.registering - 1 :=
        countP_done Task.registers ht
      refine ⟨fun on => ?_, fun on => ?_⟩
      · have := h.conns on
        simp only [Server.advance, Server.admitting, Server.done] at this admitting ⊢
        omega
      · have := h.reqs on
        have longer := s.reqs.length_set_le s.nextId id
        simp only [Server.advance, Server.registering, Server.done] at this registering ⊢
        omega

end Within

section Runs

variable {cfg : Limits} {s s' : Server} {a : Act}

/-- Every step whose check leaves room stays within the limits. -/
theorem within_step (h : Within cfg s) (room : roomy cfg s a = true)
    (hstep : step cfg s a = some s') : Within cfg s' := by
  cases a with
  | accept loop ip =>
      simp only [step, Option.ite_none_left_eq_some, Option.some.injEq, Option.isSome_iff_ne_none,
        not_not] at hstep
      obtain ⟨free, rfl⟩ := hstep
      exact h.starts free rfl rfl rfl rfl rfl
  | acceptFailed loop =>
      simp only [step, Option.ite_none_left_eq_some, Option.some.injEq] at hstep
      obtain ⟨-, rfl⟩ := hstep
      exact ⟨h.conns, h.reqs⟩
  | advance loop tlsOk =>
      simp only [step, Option.bind_eq_bind, Option.bind_eq_some_iff, Option.pure_def,
        Option.some.injEq] at hstep
      obtain ⟨t, ht, c, -, rfl⟩ := hstep
      exact h.advance ht tlsOk room
  | proxy loop id ip =>
      simp only [step, Option.bind_eq_bind, Option.bind_eq_some_iff, Option.pure_def,
        Option.ite_none_right_eq_some, Option.some.injEq] at hstep
      obtain ⟨c, -, -, rfl⟩ := hstep
      have same : ∀ (s : Server) (c : Client), (s.moveSlot cfg id c ip).live = s.live ∧
          (s.moveSlot cfg id c ip).reqs = s.reqs ∧ (s.moveSlot cfg id c ip).tasks = s.tasks := by
        intro s c
        simp only [Server.moveSlot, Server.dropSlot]
        split <;> split <;> exact ⟨rfl, rfl, rfl⟩
      simp only [Server.onProxy]
      split
      · obtain ⟨live, reqs, tasks⟩ :=
          same (s.setClient id { c with proxyDone := true }) { c with proxyDone := true }
        refine h.frame live.le (by rw [reqs]; rfl) ?_ ?_
        · simp only [Server.admitting, tasks]
          rfl
        · simp only [Server.registering, tasks]
          rfl
      · exact ⟨h.conns, h.reqs⟩
  | close loop id =>
      simp only [step, Option.bind_eq_bind, Option.bind_eq_some_iff, Option.pure_def,
        Option.some.injEq] at hstep
      obtain ⟨c, -, rfl⟩ := hstep
      exact ⟨h.conns, h.reqs⟩
  | release loop id =>
      simp only [step, Option.bind_eq_bind, Option.bind_eq_some_iff, Option.pure_def,
        Option.some.injEq] at hstep
      obtain ⟨c, resting, rfl⟩ := hstep
      exact h.starts (idle_spec resting).2.2 rfl rfl rfl rfl rfl
  | closed loop id =>
      simp only [step, Option.bind_eq_bind, Option.bind_eq_some_iff, Option.pure_def,
        Option.ite_none_right_eq_some, Option.some.injEq] at hstep
      obtain ⟨c, resting, -, rfl⟩ := hstep
      exact h.starts (idle_spec resting).2.2 rfl rfl rfl rfl rfl
  | dispatch loop id =>
      simp only [step, Option.bind_eq_bind, Option.bind_eq_some_iff, Option.pure_def,
        Option.ite_none_left_eq_some, Option.some.injEq] at hstep
      obtain ⟨c, resting, -, rfl⟩ := hstep
      split
      · exact h
      · rename_i under
        have free := (idle_spec resting).2.2
        have admitting : ((s.setTask loop (.register id)).admitting : ℤ) = s.admitting + 0 :=
          countP_newTask Task.admits free
        have registering : ((s.setTask loop (.register id)).registering : ℤ) = s.registering + 1 :=
          countP_newTask Task.registers free
        refine ⟨fun on => ?_, fun on => ?_⟩
        · have := h.conns on
          simp only [Server.admitting, Server.setTask] at this admitting ⊢
          omega
        · simp only [Server.overInFlightBudget, Bool.and_eq_true, decide_eq_true_eq, not_and] at under
          simp only [roomy, Bool.or_eq_true, decide_eq_true_eq] at room
          have := room.resolve_left (under on)
          simp only [Server.registering, Server.setTask] at this registering ⊢
          omega
  | retire request =>
      cases hstep
      have shorter := s.reqs.length_erase_le request
      refine h.frame le_rfl shorter le_rfl le_rfl
  | beginDrain =>
      cases hstep
      exact ⟨h.conns, h.reqs⟩

theorem within_start : Within cfg {} where
  conns on := by simpa [Server.admitting, Table.empty] using on.le
  reqs on := by simpa [Server.registering, Table.empty] using on.le

end Runs

/-- Neither limit is exceeded in a run in which every check that passes leaves room for the
loops that have passed it and not counted yet: `liveConns_` stays within `maxConnections`
and `reqLoc_` within `maxInFlightRequests`. -/
theorem limits_hold (cfg : Limits) (s : Server)
    (h : Reaches (stepOf (step cfg)) (fun s a => roomy cfg s a = true) {} s) :
    (0 < cfg.maxConnections → s.live ≤ cfg.maxConnections) ∧
      (0 < cfg.maxInFlightRequests → s.reqs.entries.length ≤ cfg.maxInFlightRequests) := by
  have within : Within cfg s :=
    h.invariant within_start fun _ _ _ hw room hstep => within_step hw room hstep
  refine ⟨fun on => ?_, fun on => ?_⟩
  · have := within.conns on
    omega
  · have := within.reqs on
    omega

/-- Two loops of a server with room for one connection: the second arrives after the first
is counted, and is refused. -/
theorem limits_hold_in_turn :
    ∃ s, Reaches (stepOf (step ⟨1, 0, 1, false⟩)) (fun s a => roomy ⟨1, 0, 1, false⟩ s a = true)
        {} s ∧ s.clients.entries.length = 2 ∧ s.live = 1 ∧
      ((0 : Int) < 1 → s.live ≤ 1) ∧ ((0 : Int) < 1 → (s.reqs.entries.length : Int) ≤ 1) := by
  obtain ⟨s, run, counts⟩ := exec_any
    (f := guarded (fun s a => roomy ⟨1, 0, 1, false⟩ s a = true) (step ⟨1, 0, 1, false⟩)) (s := {})
    (p := fun s => s.clients.entries.length = 2 ∧ s.live = 1)
    (show (exec _ [.accept 0 [7], .advance 0 true, .advance 0 true, .advance 0 true,
      .advance 0 true, .accept 1 [7], .advance 1 true, .advance 1 true, .dispatch 0 1,
      .advance 0 true] _).any _ = true by decide +kernel)
  exact ⟨s, exec_guarded run, counts.1, counts.2,
    limits_hold ⟨1, 0, 1, false⟩ s (exec_guarded run)⟩

/-- Two loops read the counts before either has counted: both limits are 1, and the server
holds two connections and two requests. -/
theorem limits_overrun :
    ¬ ∀ cfg s, Reachable cfg s →
      (0 < cfg.maxConnections → s.live ≤ cfg.maxConnections) ∧
        (0 < cfg.maxInFlightRequests → s.reqs.entries.length ≤ cfg.maxInFlightRequests) := by
  intro claim
  obtain ⟨s, run, conns, reqs⟩ := exec_any (f := step ⟨1, 0, 1, false⟩) (s := {})
    (p := fun s => s.live = 2 ∧ s.reqs.entries.length = 2)
    (show (exec _ [.accept 0 [7], .accept 1 [8], .advance 0 true, .advance 1 true,
      .advance 0 true, .advance 1 true, .advance 0 true, .advance 1 true, .advance 0 true,
      .advance 1 true, .dispatch 0 1, .dispatch 1 2, .advance 0 true, .advance 1 true] _).any _ =
        true by decide +kernel)
  have within := (claim ⟨1, 0, 1, false⟩ s (exec_reaches run)).1 Int.one_pos
  rw [conns] at within
  exact absurd within (by decide)

end NitroServer.Admission
