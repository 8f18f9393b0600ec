/-
At most one handler and one answer for a request (`Runner.Machine`), whatever the streams bring:
duplicate heads, chunks that come late, answers after the request was retired.

The recently completed ids are a bounded memory (`Lib.Recent`), so this holds until as many other
requests as it keeps have been completed after the request: `served_once`.
-/

import NitroServer.Runner.Moves

namespace NitroServer.Runner

open Lib

variable {U : UserCode}

/-! ### What has gone out for a request -/

namespace Output

def isRun (j : Int64) : Output U → Bool
  | .run id _ _ => id == j
  | _ => false

def isAnswer (j : Int64) : Output U → Bool
  | .answer id _ => id == j
  | _ => false

def isCompleted (j : Int64) : Output U → Bool
  | .completed id => id == j
  | _ => false

/-- Another request is completed. -/
def completesOther (j : Int64) : Output U → Bool
  | .completed id => id != j
  | _ => false

/-- Neither starts, answers nor completes the request. -/
structure Silent (j : Int64) (o : Output U) : Prop where
  run : o.isRun j = false
  answer : o.isAnswer j = false
  completed : o.isCompleted j = false

end Output

/-- What has gone out since the request was first completed. -/
def sinceCompleted (j : Int64) (out : List (Output U)) : List (Output U) :=
  (out.dropWhile fun o => !o.isCompleted j).drop 1

/-- How many other requests have been completed since. -/
def completedSince (j : Int64) (out : List (Output U)) : Nat :=
  (sinceCompleted j out).countP (Output.completesOther j)

section Since

variable {j : Int64} {out os : List (Output U)}

theorem sinceCompleted_append (done : ∃ o ∈ out, o.isCompleted j = true) :
    sinceCompleted j (out ++ os) = sinceCompleted j out ++ os := by
  induction out with
  | nil => simp at done
  | cons o out ih =>
      rw [sinceCompleted, sinceCompleted, List.cons_append]
      cases here : o.isCompleted j with
      | true => simp [here]
      | false =>
          have later : ∃ o ∈ out, o.isCompleted j = true := by
            obtain ⟨o', mem, completes⟩ := done
            rcases List.mem_cons.mp mem with rfl | mem
            · rw [here] at completes
              cases completes
            · exact ⟨o', mem, completes⟩
          simpa [here, sinceCompleted] using ih later

theorem dropWhile_not_completed (open_ : ∀ o ∈ out, o.isCompleted j = false) :
    (out ++ os).dropWhile (fun o => !o.isCompleted j) =
      os.dropWhile fun o => !o.isCompleted j := by
  induction out with
  | nil => rfl
  | cons o out ih =>
      rw [List.cons_append, List.dropWhile_cons, open_ o List.mem_cons_self]
      exact ih fun o mem => open_ o (List.mem_cons_of_mem _ mem)

theorem sinceCompleted_open (open_ : ∀ o ∈ out, o.isCompleted j = false) :
    sinceCompleted j out = [] := by
  have whole : (out ++ []).dropWhile _ = _ := dropWhile_not_completed open_
  rw [List.append_nil] at whole
  rw [sinceCompleted, whole]
  rfl

/-- The first completion. -/
theorem sinceCompleted_first (open_ : ∀ o ∈ out, o.isCompleted j = false) (os : List (Output U)) :
    sinceCompleted j (out ++ .completed j :: os) = os := by
  rw [sinceCompleted, dropWhile_not_completed open_]
  simp [Output.isCompleted]

theorem completedSince_mono : completedSince j out ≤ completedSince j (out ++ os) := by
  by_cases done : ∃ o ∈ out, o.isCompleted j = true
  · rw [completedSince, completedSince, sinceCompleted_append done, List.countP_append]
    exact Nat.le_add_right _ _
  · have open_ : ∀ o ∈ out, o.isCompleted j = false := by
      intro o mem
      exact Bool.eq_false_iff.mpr fun completes => done ⟨o, mem, completes⟩
    rw [completedSince, sinceCompleted_open open_]
    exact Nat.zero_le _

end Since

namespace Machine

variable {host : Host U} {s t : Machine U} {j : Int64}

/-! ### Stages of a request -/

/-- Where a request stands: no handler has been started for it, its handler runs, its handler has
returned, or it has been completed. -/
inductive Stage (j : Int64) (s : Machine U) : Prop where
  | unstarted : (∀ o ∈ s.out, o.Silent j) → j ∉ s.completed.keys → s.waiting.count j = 0 →
      (∀ p, s.pending.find j = some p → p.dispatched = false) → Stage j s
  | running : (∀ o ∈ s.out, o.isAnswer j = false ∧ o.isCompleted j = false) →
      s.out.countP (Output.isRun j) = 1 → j ∉ s.completed.keys → s.waiting.count j = 1 →
      (∃ p, s.pending.find j = some p ∧ p.dispatched = true) → Stage j s
  | returned : (∀ o ∈ s.out, o.isCompleted j = false) → s.out.countP (Output.isRun j) = 1 →
      s.out.countP (Output.isAnswer j) ≤ 1 → j ∉ s.completed.keys → s.waiting.count j = 0 →
      (∃ p, s.pending.find j = some p ∧ p.dispatched = true) → Stage j s
  | done : (∃ o ∈ s.out, o.isCompleted j = true) → s.out.countP (Output.isRun j) ≤ 1 →
      s.out.countP (Output.isAnswer j) ≤ s.out.countP (Output.isRun j) →
      (∀ o ∈ sinceCompleted j s.out, o.isRun j = false ∧ o.isAnswer j = false) →
      s.pending.find j = none → s.completed.Kept j (completedSince j s.out) → Stage j s

theorem stage_start (j : Int64) : Stage j ({} : Machine U) :=
  .unstarted (by simp) List.not_mem_nil rfl nofun

/-- The two states differ in nothing that tells the stages of `j` apart. -/
structure Steady (j : Int64) (s t : Machine U) : Prop where
  pending : (t.pending.find j).map Pending.dispatched = (s.pending.find j).map Pending.dispatched
  waiting : t.waiting.count j = s.waiting.count j
  fresh : j ∈ t.completed.keys → j ∈ s.completed.keys
  out : ∃ os, t.out = s.out ++ os ∧ (∀ o ∈ os, o.Silent j) ∧
    ∀ n, s.completed.Kept j n → n + os.countP (Output.completesOther j) < parkedLimit →
      t.completed.Kept j (n + os.countP (Output.completesOther j))

theorem Stage.keep (h : Stage j s) (few : completedSince j t.out < parkedLimit)
    (steady : Steady j s t) : Stage j t := by
  obtain ⟨os, outs, silent, kept⟩ := steady.out
  have found {p : Pending} (there : t.pending.find j = some p) :
      ∃ p', s.pending.find j = some p' ∧ p'.dispatched = p.dispatched := by
    have same := steady.pending
    rw [there, Option.map_some, eq_comm, Option.map_eq_some_iff] at same
    exact same
  have still {p : Pending} (there : s.pending.find j = some p) :
      ∃ p', t.pending.find j = some p' ∧ p'.dispatched = p.dispatched := by
    have same := steady.pending
    rw [there, Option.map_some, Option.map_eq_some_iff] at same
    exact same
  have runs : t.out.countP (Output.isRun j) = s.out.countP (Output.isRun j) := by
    rw [outs, countP_silent fun o mem => (silent o mem).run]
  have answers : t.out.countP (Output.isAnswer j) = s.out.countP (Output.isAnswer j) := by
    rw [outs, countP_silent fun o mem => (silent o mem).answer]
  have all {P : Output U → Prop} (old : ∀ o ∈ s.out, P o) (new : ∀ o, o.Silent j → P o) :
      ∀ o ∈ t.out, P o := by
    intro o mem
    rw [outs] at mem
    rcases List.mem_append.mp mem with mem | mem
    · exact old o mem
    · exact new o (silent o mem)
  cases h with
  | unstarted quiet fresh idle waits =>
      refine .unstarted (all quiet fun _ silent => silent) (fun mem => fresh (steady.fresh mem))
        (steady.waiting.trans idle) fun p there => ?_
      obtain ⟨p', there', same⟩ := found there
      exact same ▸ waits p' there'
  | running quiet ran fresh one started =>
      obtain ⟨p, there, dispatched⟩ := started
      obtain ⟨p', there', same⟩ := still there
      exact .running (all quiet fun _ silent => ⟨silent.answer, silent.completed⟩)
        (runs.trans ran) (fun mem => fresh (steady.fresh mem)) (steady.waiting.trans one)
        ⟨p', there', same.trans dispatched⟩
  | returned quiet ran answered fresh idle started =>
      obtain ⟨p, there, dispatched⟩ := started
      obtain ⟨p', there', same⟩ := still there
      exact .returned (all quiet fun _ silent => silent.completed) (runs.trans ran)
        (answers.le.trans answered) (fun mem => fresh (steady.fresh mem))
        (steady.waiting.trans idle) ⟨p', there', same.trans dispatched⟩
  | done ended ran answered quiet gone recent =>
      have since : sinceCompleted j t.out = sinceCompleted j s.out ++ os := by
        rw [outs, sinceCompleted_append ended]
      have count : completedSince j t.out =
          completedSince j s.out + os.countP (Output.completesOther j) := by
        rw [completedSince, since, List.countP_append, completedSince]
      refine .done ?_ (runs ▸ ran) (by rw [answers, runs]; exact answered) ?_ ?_ ?_
      · obtain ⟨o, mem, completes⟩ := ended
        exact ⟨o, outs ▸ List.mem_append_left _ mem, completes⟩
      · intro o mem
        rw [since] at mem
        rcases List.mem_append.mp mem with mem | mem
        · exact quiet o mem
        · exact ⟨(silent o mem).run, (silent o mem).answer⟩
      · have same := steady.pending
        rw [gone, Option.map_none, Option.map_eq_none_iff] at same
        exact same
      · rw [count] at few ⊢
        exact kept _ recent few

/-! ### The moves -/

/-- An output that is no answer and does not start or complete a request. -/
def quietOutput : Output U → Bool
  | .run .. | .answer .. | .completed _ => false
  | _ => true

theorem silent_of_quiet {o : Output U} (quiet : quietOutput o = true) (j : Int64) :
    o.Silent j ∧ o.completesOther j = false := by
  cases o with
  | run => cases quiet
  | answer => cases quiet
  | completed => cases quiet
  | _ => exact ⟨⟨rfl, rfl, rfl⟩, rfl⟩

/-- No request is started, answered or completed. -/
theorem steady_quiet (pending : t.pending.find j = s.pending.find j)
    (waiting : t.waiting = s.waiting) (completed : t.completed = s.completed)
    (os : List (Output U)) (outs : t.out = s.out ++ os) (quiet : os.all quietOutput = true) :
    Steady j s t := by
  rw [List.all_eq_true] at quiet
  refine ⟨by rw [pending], by rw [waiting], by rw [completed]; exact fun mem => mem, os, outs,
    fun o mem => (silent_of_quiet (quiet o mem) j).1, fun n recent few => ?_⟩
  have none_ : os.countP (Output.completesOther j) = 0 :=
    List.countP_eq_zero.mpr fun o mem => by simp [(silent_of_quiet (quiet o mem) j).2]
  rw [none_, completed]
  exact recent

theorem quietOutput_ackOut (id : Int64) (acked : Option Nat) :
    (ackOut (U := U) id acked).all quietOutput = true := by
  cases acked with
  | none => rfl
  | some n =>
      rw [ackOut]
      split <;> rfl

/-- Parking changes nothing else. -/
theorem steady_boundEarly (pending : t.pending = s.pending) (waiting : t.waiting = s.waiting)
    (completed : t.completed = s.completed) (out : t.out = s.out) : Steady j s t.boundEarly := by
  obtain ⟨_, _, _, eq⟩ := t.boundEarly_eq
  rw [eq]
  exact steady_quiet (by rw [pending]) waiting completed [] (out.trans (List.append_nil _).symm) rfl

/-- A request other than `j` is completed. -/
theorem steady_complete {id : Int64} (other : j ≠ id) (s : Machine U) :
    Steady j s (s.complete id) := by
  have acks := List.all_eq_true.mp (quietOutput_ackOut (U := U) id (s.acked.find id))
  rw [complete_eq]
  refine ⟨by rw [Table.find_erase, if_neg other], rfl,
    fun mem => (Recent.mem_add mem).resolve_left other,
    _, rfl, ?_, fun n recent few => ?_⟩
  · intro o mem
    rcases List.mem_cons.mp mem with rfl | mem
    · exact ⟨rfl, rfl, beq_eq_false_iff_ne.mpr (Ne.symm other)⟩
    · exact (silent_of_quiet (acks o mem) j).1
  · have one : (Output.completed id :: ackOut (U := U) id (s.acked.find id)).countP
        (Output.completesOther j) = 1 := by
      rw [List.countP_cons_of_pos (by simpa [Output.completesOther] using Ne.symm other),
        List.countP_eq_zero.mpr fun o mem => by simp [(silent_of_quiet (acks o mem) j).2]]
    rw [one] at few ⊢
    exact recent.add few

theorem Stage.runs_le (h : Stage j s) : s.out.countP (Output.isRun j) ≤ 1 ∧
    s.out.countP (Output.isAnswer j) ≤ s.out.countP (Output.isRun j) := by
  cases h with
  | unstarted quiet _ _ _ =>
      have runs : s.out.countP (Output.isRun j) = 0 :=
        List.countP_eq_zero.mpr fun o mem => by simp [(quiet o mem).run]
      have answers : s.out.countP (Output.isAnswer j) = 0 :=
        List.countP_eq_zero.mpr fun o mem => by simp [(quiet o mem).answer]
      omega
  | running quiet ran _ _ _ =>
      have answers : s.out.countP (Output.isAnswer j) = 0 :=
        List.countP_eq_zero.mpr fun o mem => by simp [(quiet o mem).1]
      omega
  | returned _ ran answered _ _ _ => omega
  | done _ ran answered _ _ _ => exact ⟨ran, answered⟩

/-- The request itself is completed, for the first time or again. -/
theorem stage_complete {s' : Machine U} (outs : s'.out = s.out)
    (completed : s'.completed = s.completed)
    (h : Stage j s) : Stage j (s'.complete j) := by
  have acks := List.all_eq_true.mp (quietOutput_ackOut (U := U) j (s'.acked.find j))
  have silent : ∀ o ∈ ackOut (U := U) j (s'.acked.find j),
      o.Silent j ∧ o.completesOther j = false := fun o mem => silent_of_quiet (acks o mem) j
  have out : (s'.complete j).out = s.out ++ .completed j :: ackOut j (s'.acked.find j) := by
    rw [complete_eq, outs]
  have runs : (s'.complete j).out.countP (Output.isRun j) = s.out.countP (Output.isRun j) := by
    rw [out]
    refine countP_silent fun o mem => ?_
    rcases List.mem_cons.mp mem with rfl | mem
    · rfl
    · exact (silent o mem).1.run
  have answers : (s'.complete j).out.countP (Output.isAnswer j) =
      s.out.countP (Output.isAnswer j) := by
    rw [out]
    refine countP_silent fun o mem => ?_
    rcases List.mem_cons.mp mem with rfl | mem
    · rfl
    · exact (silent o mem).1.answer
  have gone : (s'.complete j).pending.find j = none := by
    rw [complete_eq]
    exact Table.find_erase.trans (if_pos rfl)
  have remembered : (s'.complete j).completed = s.completed.add j := by
    rw [complete_eq, completed]
  have ended : ∃ o ∈ (s'.complete j).out, o.isCompleted j = true :=
    ⟨.completed j, out ▸ List.mem_append_right _ List.mem_cons_self, beq_self_eq_true j⟩
  -- the first completion makes the id the newest of those that are remembered
  have first (open_ : ∀ o ∈ s.out, o.isCompleted j = false) (fresh : j ∉ s.completed.keys) :
      Stage j (s'.complete j) := by
    have since : sinceCompleted j (s'.complete j).out = ackOut j (s'.acked.find j) := by
      rw [out]
      exact sinceCompleted_first open_ _
    have count : completedSince j (s'.complete j).out = 0 := by
      rw [completedSince, since]
      exact List.countP_eq_zero.mpr fun o mem => by simp [(silent o mem).2]
    refine .done ended (runs ▸ h.runs_le.1) (by rw [runs, answers]; exact h.runs_le.2) ?_ gone ?_
    · intro o mem
      rw [since] at mem
      exact ⟨(silent o mem).1.run, (silent o mem).1.answer⟩
    · rw [count, remembered]
      exact Recent.kept_add_self (by decide) fresh
  cases h with
  | unstarted quiet fresh _ _ => exact first (fun o mem => (quiet o mem).completed) fresh
  | running quiet _ fresh _ _ => exact first (fun o mem => (quiet o mem).2) fresh
  | returned quiet _ _ fresh _ _ => exact first quiet fresh
  | done ended' ran answered quiet _ recent =>
      have since : sinceCompleted j (s'.complete j).out =
          sinceCompleted j s.out ++ .completed j :: ackOut j (s'.acked.find j) := by
        rw [out, sinceCompleted_append ended']
      have count : completedSince j (s'.complete j).out = completedSince j s.out := by
        rw [completedSince, since]
        refine countP_silent fun o mem => ?_
        rcases List.mem_cons.mp mem with rfl | mem
        · simp [Output.completesOther]
        · exact (silent o mem).2
      refine .done ended (runs ▸ ran) (by rw [runs, answers]; exact answered) ?_ gone ?_
      · intro o mem
        rw [since] at mem
        rcases List.mem_append.mp mem with mem | mem
        · exact quiet o mem
        · rcases List.mem_cons.mp mem with rfl | mem
          · exact ⟨rfl, rfl⟩
          · exact ⟨(silent o mem).1.run, (silent o mem).1.answer⟩
      · rw [count, remembered, Recent.add_of_mem recent.mem]
        exact recent

/-- A request that has not started yet. -/
theorem Stage.of_new (h : Stage j s) {p : Pending} (found : s.pending.find j = some p)
    (new : p.dispatched = false) :
    (∀ o ∈ s.out, o.Silent j) ∧ j ∉ s.completed.keys ∧ s.waiting.count j = 0 := by
  cases h with
  | unstarted quiet fresh idle _ => exact ⟨quiet, fresh, idle⟩
  | running _ _ _ _ started =>
      obtain ⟨p', there, dispatched⟩ := started
      rw [found, Option.some.injEq] at there
      rw [← there, new] at dispatched
      cases dispatched
  | returned _ _ _ _ _ started =>
      obtain ⟨p', there, dispatched⟩ := started
      rw [found, Option.some.injEq] at there
      rw [← there, new] at dispatched
      cases dispatched
  | done _ _ _ _ gone _ =>
      rw [found] at gone
      cases gone

theorem steady_of_ws (h : WsOnly s t) : Steady j s t := by
  obtain ⟨os, outs, ws⟩ := h.out
  refine steady_quiet (by rw [h.pending]) h.waiting h.completed os outs ?_
  rw [List.all_eq_true]
  intro o mem
  have session := ws o mem
  cases o with
  | run => cases session
  | answer => cases session
  | completed => cases session
  | _ => rfl

/-- A step that is about another request, with one output that starts or answers that one. -/
theorem steady_other {id : Int64} (other : j ≠ id) {o : Output U}
    (pending : t.pending.find j = s.pending.find j)
    (waiting : t.waiting.count j = s.waiting.count j)
    (completed : t.completed = s.completed) (outs : t.out = s.out ++ [o])
    (about : (∃ answerer context, o = .run id answerer context) ∨
      ∃ response, o = .answer id response) :
    Steady j s t := by
  have apart : (id == j) = false := beq_eq_false_iff_ne.mpr (Ne.symm other)
  have silent : o.Silent j ∧ o.completesOther j = false := by
    rcases about with ⟨answerer, context, rfl⟩ | ⟨response, rfl⟩
    · exact ⟨⟨apart, rfl, rfl⟩, rfl⟩
    · exact ⟨⟨rfl, apart, rfl⟩, rfl⟩
  refine ⟨by rw [pending], waiting, by rw [completed]; exact fun mem => mem, [o], outs,
    List.forall_mem_singleton.mpr silent.1, fun n recent few => ?_⟩
  have none_ : [o].countP (Output.completesOther j) = 0 :=
    List.countP_eq_zero.mpr (List.forall_mem_singleton.mpr (by simp [silent.2]))
  rw [none_, completed]
  exact recent

theorem not_mem_of_count {l : List Int64} (none_ : l.count j = 0) : j ∉ l :=
  List.count_eq_zero.mp none_

/-- A handler that has returned without an answer, or late. -/
theorem stage_late (h : Stage j s) (waits : j ∈ s.waiting) :
    Stage j { s with waiting := s.waiting.erase j } := by
  cases h with
  | unstarted _ _ idle _ => exact absurd waits (not_mem_of_count idle)
  | running quiet ran fresh one started =>
      have answers : s.out.countP (Output.isAnswer j) = 0 :=
        List.countP_eq_zero.mpr fun o mem => by simp [(quiet o mem).1]
      refine .returned (fun o mem => (quiet o mem).2) ran (by dsimp only; omega) fresh ?_ started
      rw [List.count_erase_self, one]
  | returned _ _ _ _ idle _ => exact absurd waits (not_mem_of_count idle)
  | done ended ran answered quiet gone recent => exact .done ended ran answered quiet gone recent

theorem stage_answer (h : Stage j s) (waits : j ∈ s.waiting) (response : Response)
    (open_ : j ∈ s.completed.keys → (s.pending.find j).isSome = true) :
    Stage j ({ s with waiting := s.waiting.erase j }.emit (.answer j response)) := by
  cases h with
  | unstarted _ _ idle _ => exact absurd waits (not_mem_of_count idle)
  | running quiet ran fresh one started =>
      have answers : s.out.countP (Output.isAnswer j) = 0 :=
        List.countP_eq_zero.mpr fun o mem => by simp [(quiet o mem).1]
      refine .returned ?_ ?_ ?_ fresh ?_ started
      · intro o mem
        rcases List.mem_append.mp mem with mem | mem
        · exact (quiet o mem).2
        · rw [List.mem_singleton.mp mem]
          rfl
      · rw [emit, List.countP_append, ran]
        rfl
      · rw [emit, List.countP_append, answers, Nat.zero_add]
        exact List.countP_le_length
      · rw [emit, List.count_erase_self, one]
  | returned _ _ _ _ idle _ => exact absurd waits (not_mem_of_count idle)
  | done _ _ _ _ gone recent =>
      have there := open_ recent.mem
      rw [gone] at there
      cases there

theorem stage_run (h : Stage j s) {p : Pending} (answerer : Answerer U) (context : Context)
    (found : s.pending.find j = some p) (new : p.dispatched = false) :
    Stage j ((s.putPending j { p with dispatched := true }).runHandler j answerer context) := by
  obtain ⟨quiet, fresh, idle⟩ := h.of_new found new
  have runs : s.out.countP (Output.isRun j) = 0 :=
    List.countP_eq_zero.mpr fun o mem => by simp [(quiet o mem).run]
  have one : (s.out ++ [Output.run j answerer context]).countP (Output.isRun j) = 1 := by
    rw [List.countP_append, runs, List.countP_singleton]
    exact (Nat.zero_add _).trans (if_pos (beq_self_eq_true j))
  have waits : (s.waiting ++ [j]).count j = 1 := by
    rw [List.count_append, idle, List.count_singleton_self]
  refine .running ?_ one fresh waits ⟨_, Table.find_set.trans (if_pos rfl), rfl⟩
  intro o mem
  rcases List.mem_append.mp mem with mem | mem
  · exact ⟨(quiet o mem).answer, (quiet o mem).completed⟩
  · rw [List.mem_singleton.mp mem]
    exact ⟨rfl, rfl⟩

theorem stage_upgrade (h : Stage j s) {p p' : Pending} (context : Context)
    (found : s.pending.find j = some p) (new : p.dispatched = false) :
    Stage j ((s.putPending j p').openWs host j context) := by
  obtain ⟨quiet, fresh, idle⟩ := h.of_new found new
  refine .unstarted ?_ fresh idle ?_
  · intro o mem
    rcases List.mem_append.mp mem with mem | mem
    · exact quiet o mem
    · rw [List.mem_singleton.mp mem]
      exact ⟨rfl, rfl, rfl⟩
  · intro q there
    rw [openWs, emit, Table.find_erase, if_pos rfl] at there
    cases there

theorem stage_take (h : Stage j s) {head : Head} (about : head.requestId = j)
    (fresh : j ∉ s.completed.keys) (absent : s.pending.find j = none) :
    Stage j (s.takeIn head) := by
  cases h with
  | unstarted quiet _ idle _ =>
      refine .unstarted quiet fresh idle fun p there => ?_
      rw [takeIn, about, Table.find_set, if_pos rfl, Option.some.injEq] at there
      rw [← there]
      rfl
  | running _ _ _ _ started =>
      obtain ⟨p, there, _⟩ := started
      rw [absent] at there
      cases there
  | returned _ _ _ _ _ started =>
      obtain ⟨p, there, _⟩ := started
      rw [absent] at there
      cases there
  | done _ _ _ _ _ recent => exact absurd recent.mem fresh

theorem take_stage {id : Int64} {payload : Option Frame} (h : Stage j s)
    (take : Take host id payload s t) (few : completedSince j t.out < parkedLimit) : Stage j t := by
  cases take with
  | receive => exact h.keep few (steady_quiet rfl rfl rfl [.received id] rfl rfl)
  | stale _ =>
      exact h.keep few
        (steady_quiet rfl rfl rfl [.received id, .ack id 1] (List.append_assoc ..) rfl)
  | frame frame heard =>
      have counted : Steady j s (s.ackFrame id frame) :=
        steady_quiet rfl rfl rfl [.receivedFrame id frame, .ack id _] (List.append_assoc ..) rfl
      have fewer : completedSince j (s.ackFrame id frame).out < parkedLimit := by
        obtain ⟨os, outs, -⟩ := heard.wsOnly.out
        rw [outs] at few
        exact Nat.lt_of_le_of_lt completedSince_mono few
      exact (h.keep fewer counted).keep few (steady_of_ws heard.wsOnly)

/-- A move keeps the stages, as long as few other requests have been completed since. -/
theorem move_stage (h : Stage j s) (move : Move host s t)
    (few : completedSince j t.out < parkedLimit) : Stage j t := by
  have nil_ : s.out = s.out ++ [] := (List.append_nil _).symm
  cases move with
  | acknowledge id =>
      rw [ackNow, ackCount_eq] at few ⊢
      exact h.keep few (steady_quiet rfl rfl rfl _ rfl (quietOutput_ackOut id _))
  | parkData bytes _ => exact h.keep few (steady_boundEarly rfl rfl rfl rfl)
  | parkError message _ => exact h.keep few (steady_boundEarly rfl rfl rfl rfl)
  | parkEnd _ => exact h.keep few (steady_boundEarly rfl rfl rfl rfl)
  | take head fresh absent =>
      by_cases same : j = head.requestId
      · subst same
        exact stage_take h rfl fresh absent
      · have apart : (s.takeIn head).pending.find j = s.pending.find j :=
          Table.find_set.trans (if_neg same)
        exact h.keep few (steady_quiet apart rfl rfl [] nil_ rfl)
  | takeEnd id => exact h.keep few (steady_quiet rfl rfl rfl [] nil_ rfl)
  | @put id p p' found same =>
      have pending : ((s.putPending id p').pending.find j).map Pending.dispatched =
          (s.pending.find j).map Pending.dispatched := by
        rw [putPending, Table.find_set]
        split
        · rename_i here
          rw [here, found, Option.map_some, Option.map_some, same]
        · rfl
      exact h.keep few ⟨pending, rfl, fun mem => mem, [], nil_, by simp, fun n recent _ => recent⟩
  | upload uploads => exact h.keep few (steady_quiet rfl rfl rfl [] nil_ rfl)
  | @run id p answerer context found new =>
      by_cases same : j = id
      · subst same
        exact stage_run h answerer context found new
      · have waits : (s.waiting ++ [id]).count j = s.waiting.count j := by
          have none_ : [id].count j = 0 := List.count_eq_zero.mpr (by simpa using same)
          rw [List.count_append, none_, Nat.add_zero]
        exact h.keep few (steady_other same (Table.find_set.trans (if_neg same)) waits rfl rfl
          (.inl ⟨answerer, context, rfl⟩))
  | @upgrade id p context found new =>
      by_cases same : j = id
      · subst same
        exact stage_upgrade h context found new
      · have apart : ((s.putPending id { p with dispatched := true }).openWs host id
            context).pending.find j = s.pending.find j := by
          rw [openWs, emit, Table.find_erase, if_neg same, putPending, Table.find_set, if_neg same]
        exact h.keep few (steady_quiet apart rfl rfl [.upgrade id context] rfl rfl)
  | @drop id p p' found =>
      by_cases same : j = id
      · subst same
        exact stage_complete (s := s) rfl rfl h
      · have steady := steady_complete same (s.putPending id p')
        refine h.keep few ⟨?_, steady.waiting, steady.fresh, steady.out⟩
        rw [steady.pending, putPending, Table.find_set, if_neg same]
  | complete id =>
      by_cases same : j = id
      · subst same
        exact stage_complete rfl rfl h
      · exact h.keep few (steady_complete same s)
  | ws ws => exact h.keep few (steady_of_ws ws.wsOnly)
  | note id message => exact h.keep few (steady_quiet rfl rfl rfl [.event id message] rfl rfl)
  | @late id waits =>
      by_cases same : j = id
      · subst same
        exact stage_late h waits
      · exact h.keep few ⟨rfl, List.count_erase_of_ne same, fun mem => mem, [], nil_, by simp,
          fun n recent _ => recent⟩
  | @answer id response waits open_ =>
      by_cases same : j = id
      · subst same
        exact stage_answer h waits response open_
      · exact h.keep few (steady_other same rfl (List.count_erase_of_ne same) rfl rfl
          (.inr ⟨response, rfl⟩))
  | openStream id => exact h.keep few (steady_quiet rfl rfl rfl [] nil_ rfl)
  | dropStream id => exact h.keep few (steady_quiet rfl rfl rfl [] nil_ rfl)
  | lastChunk id => exact h.keep few (steady_quiet rfl rfl rfl [.lastChunk id] rfl rfl)
  | call tables => exact h.keep few (steady_quiet rfl rfl rfl [] nil_ rfl)
  | close =>
      obtain ⟨pending, waiting, completed, out⟩ := close_keeps s
      exact h.keep few (steady_quiet (by rw [pending]) waiting completed [] (out.trans nil_) rfl)

/-- In every run, while fewer other requests have been completed since than the runner remembers:
the handler of a request runs at most once, at most one answer goes out for it, and neither after
it was first completed. -/
theorem served_once {ok : Machine U → Act U → Prop} (run : Reaches (stepOf (step host)) ok {} s)
    (j : Int64) (few : completedSince j s.out < parkedLimit) :
    s.out.countP (Output.isRun j) ≤ 1 ∧
      s.out.countP (Output.isAnswer j) ≤ s.out.countP (Output.isRun j) ∧
      ∀ o ∈ sinceCompleted j s.out, o.isRun j = false ∧ o.isAnswer j = false := by
  have staged : completedSince j s.out < parkedLimit → Stage j s := by
    have fewer {s t : Machine U} (grows : ∃ os, t.out = s.out ++ os)
        (few : completedSince j t.out < parkedLimit) : completedSince j s.out < parkedLimit := by
      obtain ⟨os, outs⟩ := grows
      rw [outs] at few
      exact Nat.lt_of_le_of_lt completedSince_mono few
    refine reaches_moves (I := fun s => completedSince j s.out < parkedLimit → Stage j s)
      (fun _ => stage_start j) ?_ ?_ run
    · intro id payload s t holds take few
      obtain ⟨os, outs, -⟩ := take_out take
      exact take_stage (holds (fewer ⟨_, outs⟩ few)) take few
    · intro s t holds move few
      obtain ⟨os, outs, -⟩ := move_out move
      exact move_stage (holds (fewer ⟨_, outs⟩ few)) move few
  have stage := staged few
  refine ⟨stage.runs_le.1, stage.runs_le.2, ?_⟩
  cases stage with
  | unstarted quiet _ _ _ =>
      rw [sinceCompleted_open fun o mem => (quiet o mem).completed]
      exact fun o mem => absurd mem List.not_mem_nil
  | running quiet _ _ _ _ =>
      rw [sinceCompleted_open fun o mem => (quiet o mem).2]
      exact fun o mem => absurd mem List.not_mem_nil
  | returned quiet _ _ _ _ _ =>
      rw [sinceCompleted_open quiet]
      exact fun o mem => absurd mem List.not_mem_nil
  | done _ _ _ quiet _ _ => exact quiet

/-- A request that is sent again before and after its answer, and then retired. -/
def resent : List (Act sampleCode) :=
  [.head (sampleHead 7 false), .head (sampleHead 7 false), .answer 7 sampleAnswer true,
    .head (sampleHead 7 false), .event 7 true]

theorem resent_once :
    ∃ s, exec (step sampleHost) resent {} = some s ∧
      s.out.countP (Output.isRun 7) ≤ 1 ∧
      s.out.countP (Output.isAnswer 7) ≤ s.out.countP (Output.isRun 7) ∧
      ∀ o ∈ sinceCompleted 7 s.out, o.isRun 7 = false ∧ o.isAnswer 7 = false := by
  obtain ⟨s, run, few⟩ := exec_any (f := step sampleHost) (s := {})
    (p := fun s => completedSince 7 s.out < parkedLimit)
    (show (exec _ resent _).any _ = true by decide +kernel)
  exact ⟨s, run, served_once (exec_reaches run) 7 few⟩

end Machine

end NitroServer.Runner
