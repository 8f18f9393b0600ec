/-
The acknowledgements of the runner (`_copyChunk`, `_ackNow`, `_complete`, `_onWsMessage`): which
payloads they let the engine free.

* `Within` — a trace whose acknowledgements each name no more payloads than were taken before it.
* `acks_received` — the trace of every run is such a trace, and the first completion of a request
  acknowledges every payload of its body that was taken.
-/

import NitroServer.Runner.Once

namespace NitroServer.Runner

open Lib

variable {U : UserCode}

namespace Output

/-- A payload of a body is taken. -/
def isReceived (j : Int64) : Output U → Bool
  | .received id => id == j
  | _ => false

/-- A payload is taken, of a body or of a frame. -/
def isTaken (j : Int64) : Output U → Bool
  | .received id => id == j
  | .receivedFrame id _ => id == j
  | _ => false

end Output

/-- No acknowledgement names more payloads of `j` than were taken before, `k` of them before these
outputs. -/
def Within (j : Int64) : Nat → List (Output U) → Prop
  | _, [] => True
  | k, o :: os => (∀ n, o = .ack j n → n ≤ k) ∧ Within j (k + [o].countP (Output.isTaken j)) os

section Within

variable {j : Int64} {k : Nat} {os os' : List (Output U)}

theorem within_append : Within j k (os ++ os') ↔
    Within j k os ∧ Within j (k + os.countP (Output.isTaken j)) os' := by
  induction os generalizing k with
  | nil => simp [Within]
  | cons o os ih =>
      have count : (o :: os).countP (Output.isTaken j) =
          [o].countP (Output.isTaken j) + os.countP (Output.isTaken j) := by
        rw [← List.singleton_append, List.countP_append]
      rw [List.cons_append, Within, Within, ih, count, ← Nat.add_assoc, and_assoc]

theorem Within.split (within : Within j k os) {front back : List (Output U)} {n : Nat}
    (shape : os = front ++ .ack j n :: back) : n ≤ k + front.countP (Output.isTaken j) := by
  rw [shape, within_append] at within
  exact within.2.1 n rfl

theorem within_silent (none_ : ∀ o ∈ os, ∀ n, o ≠ .ack j n) : Within j k os := by
  induction os generalizing k with
  | nil => trivial
  | cons o os ih =>
      obtain ⟨first, rest⟩ := List.forall_mem_cons.mp none_
      exact ⟨fun n same => absurd same (first n), ih rest⟩

end Within

/-- What has gone out before the request was first completed. -/
def beforeCompleted (j : Int64) (out : List (Output U)) : List (Output U) :=
  out.takeWhile fun o => !o.isCompleted j

section Before

variable {j : Int64} {out os : List (Output U)}

theorem beforeCompleted_append (done : ∃ o ∈ out, o.isCompleted j = true) :
    beforeCompleted j (out ++ os) = beforeCompleted j out := by
  induction out with
  | nil => simp at done
  | cons o out ih =>
      rw [beforeCompleted, beforeCompleted, List.cons_append]
      cases here : o.isCompleted j with
      | true => simp [here]
      | false =>
          have later : ∃ o ∈ out, o.isCompleted j = true := by
            obtain ⟨o', mem, completes⟩ := done
            rcases List.mem_cons.mp mem with rfl | mem
            · rw [here] at completes
              cases completes
            · exact ⟨o', mem, completes⟩
          simpa [here, beforeCompleted] using ih later

theorem beforeCompleted_first (open_ : ∀ o ∈ out, o.isCompleted j = false) (os : List (Output U)) :
    beforeCompleted j (out ++ .completed j :: os) = out := by
  induction out with
  | nil => simp [beforeCompleted, Output.isCompleted]
  | cons o out ih =>
      rw [beforeCompleted, List.cons_append, List.takeWhile_cons, open_ o List.mem_cons_self]
      exact congrArg _ (ih fun o mem => open_ o (List.mem_cons_of_mem _ mem))

/-- The outputs around the first completion. -/
theorem around_completed (ended : ∃ o ∈ out, o.isCompleted j = true) :
    out = beforeCompleted j out ++ .completed j :: sinceCompleted j out := by
  induction out with
  | nil => simp at ended
  | cons o out ih =>
      cases here : o.isCompleted j with
      | true =>
          have this : o = .completed j := by
            cases o with
            | completed id => exact congrArg _ (eq_of_beq here)
            | _ => cases here
          subst this
          simp [beforeCompleted, sinceCompleted, Output.isCompleted]
      | false =>
          have later : ∃ o ∈ out, o.isCompleted j = true := by
            obtain ⟨o', mem, completes⟩ := ended
            rcases List.mem_cons.mp mem with rfl | mem
            · rw [here] at completes
              cases completes
            · exact ⟨o', mem, completes⟩
          simpa [here, beforeCompleted, sinceCompleted] using ih later

end Before

namespace Machine

variable {host : Host U} {s t : Machine U} {j : Int64}

/-- The two counters of an id are no larger than what was taken of it. -/
structure Counted (j : Int64) (s : Machine U) : Prop where
  acked : ∀ n, s.acked.find j = some n → n ≤ s.out.countP (Output.isTaken j)
  wsAcked : ∀ n, s.wsAcked.find j = some n → n ≤ s.out.countP (Output.isTaken j)
  within : Within j 0 s.out

theorem Counted.grow (h : Counted j s) (os : List (Output U)) (outs : t.out = s.out ++ os)
    (within : Within j (s.out.countP (Output.isTaken j)) os)
    (acked : ∀ n, t.acked.find j = some n →
      s.acked.find j = some n ∨ n ≤ t.out.countP (Output.isTaken j))
    (wsAcked : ∀ n, t.wsAcked.find j = some n →
      s.wsAcked.find j = some n ∨ n ≤ t.out.countP (Output.isTaken j)) : Counted j t := by
  have more : s.out.countP (Output.isTaken j) ≤ t.out.countP (Output.isTaken j) := by
    rw [outs, List.countP_append]
    exact Nat.le_add_right _ _
  refine ⟨fun n found => ?_, fun n found => ?_, ?_⟩
  · exact (acked n found).elim (fun old => (h.acked n old).trans more) id
  · exact (wsAcked n found).elim (fun old => (h.wsAcked n old).trans more) id
  · rw [outs, within_append]
    exact ⟨h.within, by rwa [Nat.zero_add]⟩

/-- Nothing is acknowledged, and the counters do not grow. -/
theorem Counted.keep (h : Counted j s)
    (acked : ∀ n, t.acked.find j = some n → s.acked.find j = some n)
    (wsAcked : ∀ n, t.wsAcked.find j = some n → s.wsAcked.find j = some n) (os : List (Output U))
    (outs : t.out = s.out ++ os) (none_ : ∀ o ∈ os, ∀ n, o ≠ .ack j n) : Counted j t :=
  h.grow os outs (within_silent none_) (fun n found => .inl (acked n found))
    fun n found => .inl (wsAcked n found)

/-- A counter that goes up by one. -/
theorem counter_le {counter : Table Int64 Nat} {id : Int64} {k n : Nat}
    (below : ∀ n, counter.find j = some n → n ≤ k)
    (found : (counter.set id ((counter.find id).getD 0 + 1)).find j = some n) :
    counter.find j = some n ∨ j = id ∧ n ≤ k + 1 := by
  rw [Table.find_set] at found
  split at found
  · rename_i same
    subst same
    rw [Option.some.injEq] at found
    refine .inr ⟨rfl, ?_⟩
    cases there : counter.find j with
    | none =>
        rw [there] at found
        exact found ▸ Nat.succ_le_succ (Nat.zero_le k)
    | some m =>
        rw [there] at found
        exact found ▸ Nat.succ_le_succ (below m there)
  · exact .inl found

theorem silent_ackOut {id : Int64} (other : j ≠ id) (acked : Option Nat) :
    ∀ o ∈ ackOut (U := U) id acked, ∀ n, o ≠ .ack j n := by
  intro o mem n same
  subst same
  cases acked with
  | none => cases mem
  | some m =>
      rw [ackOut] at mem
      split at mem
      · rw [List.mem_singleton, Output.ack.injEq] at mem
        exact other mem.1
      · cases mem

theorem within_ackOut {k : Nat} (acked : Option Nat) (few : ∀ n, acked = some n → n ≤ k) :
    Within j k (ackOut (U := U) j acked) := by
  cases acked with
  | none => trivial
  | some m =>
      rw [ackOut]
      split
      · refine ⟨fun n same => ?_, trivial⟩
        rw [Output.ack.injEq] at same
        exact same.2 ▸ few m rfl
      · trivial

theorem within_acks (id : Int64) {k : Nat} (acked : Option Nat)
    (few : j = id → ∀ n, acked = some n → n ≤ k) : Within j k (ackOut (U := U) id acked) := by
  by_cases same : j = id
  · subst same
    exact within_ackOut acked (few rfl)
  · exact within_silent (silent_ackOut same acked)

theorem close_acks (s : Machine U) : s.close.acked = s.acked ∧
    ∀ j n, s.close.wsAcked.find j = some n → s.wsAcked.find j = some n := by
  have shut (es : List (Int64 × Nat)) : ∀ s : Machine U,
      (es.foldl (fun s e => s.shutdown e.2) s).acked = s.acked := by
    induction es with
    | nil => exact fun s => rfl
    | cons e es ih => exact fun s => ih (s.shutdown e.2)
  rw [close]
  split
  · exact ⟨rfl, fun _ _ found => found⟩
  · refine ⟨shut s.wsSessions.entries { s with closed := true }, fun j n found => ?_⟩
    cases found

theorem counted_of_ws (h : Counted j s) (only : WsOnly s t) : Counted j t := by
  obtain ⟨os, outs, ws⟩ := only.out
  refine h.keep (fun n found => only.acked ▸ found) (only.wsAcked j) os outs ?_
  intro o mem n same
  have session := ws o mem
  rw [same] at session
  cases session

theorem take_counted {id : Int64} {payload : Option Frame} (h : Counted j s)
    (take : Take host id payload s t) : Counted j t := by
  have one {o : Output U} (taken : j = id → o.isTaken j = true) (same : j = id) :
      s.out.countP (Output.isTaken j) + 1 = (s.out ++ [o]).countP (Output.isTaken j) := by
    rw [List.countP_append, List.countP_singleton, if_pos (taken same)]
  have acks {o : Output U} (taken : j = id → o.isTaken j = true) (none_ : ∀ n, o ≠ .ack j n)
      {m : Nat} (few : j = id → m ≤ s.out.countP (Output.isTaken j) + 1) :
      Within j (s.out.countP (Output.isTaken j)) [o, .ack id m] := by
    refine ⟨fun n same => absurd same (none_ n), fun n same => ?_, trivial⟩
    rw [Output.ack.injEq] at same
    rw [List.countP_singleton, if_pos (taken same.1.symm), ← same.2]
    exact few same.1.symm
  have received : j = id → (Output.received (U := U) id).isTaken j = true :=
    fun same => beq_iff_eq.mpr same.symm
  cases take with
  | receive =>
      refine h.grow [.received id] rfl (within_silent (by simp)) (fun n found => ?_)
        fun n found => .inl found
      refine (counter_le h.acked found).imp_right fun ⟨same, few⟩ => ?_
      exact few.trans (one received same).le
  | stale _ _ =>
      exact h.grow _ (List.append_assoc ..) (acks received (by simp) fun _ => Nat.le_add_left 1 _)
        (fun n found => .inl found) fun n found => .inl found
  | frame frame heard =>
      have framed : j = id → (Output.receivedFrame (U := U) id frame).isTaken j = true :=
        fun same => beq_iff_eq.mpr same.symm
      refine counted_of_ws ?_ heard.wsOnly
      have counted : j = id → (s.wsAcked.find id).getD 0 + 1 ≤
          s.out.countP (Output.isTaken j) + 1 := by
        intro same
        subst same
        cases there : s.wsAcked.find j with
        | none => exact Nat.succ_le_succ (Nat.zero_le _)
        | some m => exact Nat.succ_le_succ (h.wsAcked m there)
      refine h.grow _ (List.append_assoc ..) (acks framed (by simp) counted)
        (fun n found => .inl found) fun n found => ?_
      refine (counter_le h.wsAcked found).imp_right fun ⟨same, few⟩ => ?_
      refine few.trans ((one framed same).le.trans ?_)
      exact (List.sublist_append_left _ _).countP_le

/-- A request is completed, in a state with its acknowledgements. -/
theorem complete_counted (h : Counted j s) {s' : Machine U} (acked : s'.acked = s.acked)
    (wsAcked : s'.wsAcked = s.wsAcked) (out : s'.out = s.out) (id : Int64) :
    Counted j (s'.complete id) := by
  rw [complete_eq, acked, out]
  refine h.grow _ rfl ?_ (fun n found => .inl ?_) (fun n found => .inl (wsAcked ▸ found))
  · refine ⟨by simp, ?_⟩
    exact within_acks id _ fun same n found => h.acked n (same ▸ found)
  · rw [Table.find_erase] at found
    split at found
    · cases found
    · exact found

theorem move_counted (h : Counted j s) (move : Move host s t) : Counted j t := by
  have nil_ : s.out = s.out ++ [] := (List.append_nil _).symm
  have quiet (t : Machine U) (acked : t.acked = s.acked) (wsAcked : t.wsAcked = s.wsAcked)
      (os : List (Output U)) (outs : t.out = s.out ++ os) (none_ : ∀ o ∈ os, ∀ n, o ≠ .ack j n) :
      Counted j t :=
    h.keep (fun _ found => acked ▸ found) (fun _ found => wsAcked ▸ found) os outs none_
  have parked (t : Machine U) (acked : t.acked = s.acked) (wsAcked : t.wsAcked = s.wsAcked)
      (out : t.out = s.out) : Counted j t.boundEarly := by
    obtain ⟨_, _, _, eq⟩ := t.boundEarly_eq
    rw [eq]
    exact quiet _ acked wsAcked [] (out.trans nil_) (by simp)
  cases move with
  | acknowledge id =>
      rw [ackNow, ackCount_eq]
      refine h.grow _ rfl ?_ (fun n found => .inl found) fun n found => .inl found
      exact within_acks id _ fun same n found => h.acked n (same ▸ found)
  | drop p' _ => refine complete_counted (s := s) h ?_ ?_ ?_ _ <;> rfl
  | complete id => exact complete_counted h rfl rfl rfl id
  | ws ws => exact counted_of_ws h ws.wsOnly
  | close =>
      obtain ⟨acked, wsAcked⟩ := close_acks s
      refine h.keep (fun n found => acked ▸ found) (wsAcked j) []
        ((close_keeps s).2.2.2.trans nil_) (by simp)
  | parkData bytes _ => exact parked _ rfl rfl rfl
  | parkError message _ => exact parked _ rfl rfl rfl
  | parkEnd _ => exact parked _ rfl rfl rfl
  | run answerer context _ _ => exact quiet _ rfl rfl [.run _ answerer context] rfl (by simp)
  | upgrade context _ _ => exact quiet _ rfl rfl [.upgrade _ context] rfl (by simp)
  | note id message => exact quiet _ rfl rfl [.event id message] rfl (by simp)
  | answer response _ _ => exact quiet _ rfl rfl [.answer _ response] rfl (by simp)
  | lastChunk id => exact quiet _ rfl rfl [.lastChunk id] rfl (by simp)
  | _ => exact quiet _ rfl rfl [] nil_ (by simp)

/-! ### The first completion -/

/-- How many payloads of the body of `j` were taken. -/
abbrev receivedOf (j : Int64) (out : List (Output U)) : Nat := out.countP (Output.isReceived j)

/-- Until the request is completed its counter is exact; its first completion acknowledges what
was taken until then. -/
structure Settles (j : Int64) (s : Machine U) : Prop where
  open_ : (∀ o ∈ s.out, o.isCompleted j = false) →
    j ∉ s.completed.keys ∧ (s.acked.find j).getD 0 = receivedOf j s.out
  done : (∃ o ∈ s.out, o.isCompleted j = true) → 0 < receivedOf j (beforeCompleted j s.out) →
    ∃ rest, sinceCompleted j s.out = .ack j (receivedOf j (beforeCompleted j s.out)) :: rest

theorem not_completed_iff {out : List (Output U)} :
    (∀ o ∈ out, o.isCompleted j = false) ↔ ¬ ∃ o ∈ out, o.isCompleted j = true := by
  simp

/-- No completion of `j` among the new outputs. -/
theorem Settles.grow (h : Settles j s) (os : List (Output U)) (outs : t.out = s.out ++ os)
    (none_ : ∀ o ∈ os, o.isCompleted j = false)
    (exact_ : (∀ o ∈ s.out, o.isCompleted j = false) → j ∉ s.completed.keys →
      (s.acked.find j).getD 0 = receivedOf j s.out →
      j ∉ t.completed.keys ∧ (t.acked.find j).getD 0 = receivedOf j t.out) : Settles j t := by
  constructor
  · intro open_
    have before : ∀ o ∈ s.out, o.isCompleted j = false :=
      fun o mem => open_ o (outs ▸ List.mem_append_left _ mem)
    obtain ⟨fresh, count⟩ := h.open_ before
    exact exact_ before fresh count
  · rintro ⟨o, mem, completes⟩ some_
    have old : ∃ o ∈ s.out, o.isCompleted j = true := by
      rw [outs] at mem
      rcases List.mem_append.mp mem with mem | mem
      · exact ⟨o, mem, completes⟩
      · rw [none_ o mem] at completes
        cases completes
    rw [outs, beforeCompleted_append old] at some_ ⊢
    obtain ⟨rest, shape⟩ := h.done old some_
    exact ⟨rest ++ os, by rw [sinceCompleted_append old, shape, List.cons_append]⟩

theorem receivedOf_silent {out os : List (Output U)} (none_ : ∀ o ∈ os, o.isReceived j = false) :
    receivedOf j (out ++ os) = receivedOf j out := countP_silent none_

/-- Nothing that concerns the body of `j`. -/
theorem Settles.keep (h : Settles j s) (os : List (Output U)) (outs : t.out = s.out ++ os)
    (none_ : ∀ o ∈ os, o.isCompleted j = false ∧ o.isReceived j = false)
    (completed : j ∈ t.completed.keys → j ∈ s.completed.keys)
    (acked : t.acked.find j = s.acked.find j) : Settles j t := by
  refine h.grow os outs (fun o mem => (none_ o mem).1) fun _ fresh count => ?_
  refine ⟨fun mem => fresh (completed mem), ?_⟩
  rw [acked, count, outs, receivedOf_silent fun o mem => (none_ o mem).2]

theorem ackOut_settles (id : Int64) (acked : Option Nat) :
    ∀ o ∈ ackOut (U := U) id acked, o.isCompleted j = false ∧ o.isReceived j = false := by
  intro o mem
  cases acked with
  | none => cases mem
  | some n =>
      rw [ackOut] at mem
      split at mem
      · rw [List.mem_singleton.mp mem]
        exact ⟨rfl, rfl⟩
      · cases mem

theorem settles_of_ws (h : Settles j s) (only : WsOnly s t) : Settles j t := by
  obtain ⟨os, outs, ws⟩ := only.out
  refine h.keep os outs (fun o mem => ?_) (fun mem => only.completed ▸ mem) (by rw [only.acked])
  have session := ws o mem
  cases o with
  | completed => cases session
  | received => cases session
  | _ => exact ⟨rfl, rfl⟩

theorem take_settles {id : Int64} {payload : Option Frame} (h : Settles j s)
    (take : Take host id payload s t) : Settles j t := by
  cases take with
  | receive =>
      refine h.grow [.received id] rfl (by simp [Output.isCompleted]) fun _ fresh count => ?_
      refine ⟨fresh, ?_⟩
      have counted : (s.copyChunk id).acked.find j =
          if j = id then some ((s.acked.find id).getD 0 + 1) else s.acked.find j := Table.find_set
      have received : receivedOf j (s.copyChunk id).out =
          receivedOf j s.out + if (id == j) = true then 1 else 0 := by
        refine (List.countP_append ..).trans ?_
        rw [List.countP_singleton]
        rfl
      rw [counted, received]
      by_cases same : j = id
      · subst same
        rw [if_pos rfl, if_pos (beq_self_eq_true j), ← count]
        rfl
      · rw [if_neg same, if_neg (by simpa using Ne.symm same), count, Nat.add_zero]
  | stale _ mem =>
      refine h.grow _ (List.append_assoc ..) (by simp [Output.isCompleted]) fun _ fresh count => ?_
      have apart : (id == j) = false := by
        rw [beq_eq_false_iff_ne]
        intro same
        exact fresh (same ▸ mem)
      refine ⟨fresh, count.trans ?_⟩
      rw [emit, emit, List.append_assoc]
      exact (receivedOf_silent (by simp [Output.isReceived, apart])).symm
  | frame frame heard =>
      have counted : Settles j (s.ackFrame id frame) :=
        h.keep [.receivedFrame id frame, .ack id _] (List.append_assoc ..)
          (by simp [Output.isCompleted, Output.isReceived]) (fun mem => mem) rfl
      exact settles_of_ws counted heard.wsOnly

theorem complete_settles (h : Settles j s) {s' : Machine U} (acked : s'.acked = s.acked)
    (completed : s'.completed = s.completed) (out : s'.out = s.out) (id : Int64) :
    Settles j (s'.complete id) := by
  rw [complete_eq, acked, out, completed]
  by_cases same : j = id
  · subst same
    have ended : ∃ o ∈ s.out ++ .completed j :: ackOut j (s.acked.find j),
        o.isCompleted j = true :=
      ⟨.completed j, List.mem_append_right _ List.mem_cons_self, beq_self_eq_true j⟩
    refine ⟨fun open_ => ?_, fun _ some_ => ?_⟩
    · exact absurd ended (not_completed_iff.mp open_)
    · by_cases before : ∃ o ∈ s.out, o.isCompleted j = true
      · dsimp only at some_ ⊢
        rw [beforeCompleted_append before] at some_ ⊢
        obtain ⟨rest, shape⟩ := h.done before some_
        exact ⟨_, by rw [sinceCompleted_append before, shape, List.cons_append]⟩
      · have open_ := not_completed_iff.mpr before
        obtain ⟨-, count⟩ := h.open_ open_
        dsimp only at some_ ⊢
        rw [beforeCompleted_first open_] at some_ ⊢
        rw [sinceCompleted_first open_]
        cases there : s.acked.find j with
        | none =>
            rw [there] at count
            exact absurd count.symm some_.ne'
        | some n =>
            rw [there, Option.getD_some] at count
            rw [ackOut, count, if_pos some_]
            exact ⟨[], rfl⟩
  · refine h.keep (.completed id :: ackOut id (s.acked.find id)) rfl ?_ ?_ ?_
    · intro o mem
      rcases List.mem_cons.mp mem with rfl | mem
      · exact ⟨beq_eq_false_iff_ne.mpr (Ne.symm same), rfl⟩
      · exact ackOut_settles id _ o mem
    · exact fun mem => (Recent.mem_add mem).resolve_left same
    · exact Table.find_erase.trans (if_neg same)

theorem move_settles (h : Settles j s) (move : Move host s t) : Settles j t := by
  have nil_ : s.out = s.out ++ [] := (List.append_nil _).symm
  have quiet (t : Machine U) (acked : t.acked = s.acked) (completed : t.completed = s.completed)
      (os : List (Output U)) (outs : t.out = s.out ++ os)
      (none_ : ∀ o ∈ os, o.isCompleted j = false ∧ o.isReceived j = false) : Settles j t :=
    h.keep os outs none_ (fun mem => completed ▸ mem) (by rw [acked])
  have parked (t : Machine U) (acked : t.acked = s.acked) (completed : t.completed = s.completed)
      (out : t.out = s.out) : Settles j t.boundEarly := by
    obtain ⟨_, _, _, eq⟩ := t.boundEarly_eq
    rw [eq]
    exact quiet _ acked completed [] (out.trans nil_) (by simp)
  cases move with
  | acknowledge id =>
      rw [ackNow, ackCount_eq]
      exact quiet _ rfl rfl _ rfl (ackOut_settles id _)
  | drop p' _ => refine complete_settles (s := s) h ?_ ?_ ?_ _ <;> rfl
  | complete id => exact complete_settles h rfl rfl rfl id
  | ws ws => exact settles_of_ws h ws.wsOnly
  | close =>
      exact quiet _ (close_acks s).1 (close_keeps s).2.2.1 []
        ((close_keeps s).2.2.2.trans nil_) (by simp)
  | parkData bytes _ => exact parked _ rfl rfl rfl
  | parkError message _ => exact parked _ rfl rfl rfl
  | parkEnd _ => exact parked _ rfl rfl rfl
  | run answerer context _ _ =>
      exact quiet _ rfl rfl [.run _ answerer context] rfl (List.forall_mem_singleton.mpr ⟨rfl, rfl⟩)
  | upgrade context _ _ =>
      exact quiet _ rfl rfl [.upgrade _ context] rfl (List.forall_mem_singleton.mpr ⟨rfl, rfl⟩)
  | note id message =>
      exact quiet _ rfl rfl [.event id message] rfl (List.forall_mem_singleton.mpr ⟨rfl, rfl⟩)
  | answer response _ _ =>
      exact quiet _ rfl rfl [.answer _ response] rfl (List.forall_mem_singleton.mpr ⟨rfl, rfl⟩)
  | lastChunk id =>
      exact quiet _ rfl rfl [.lastChunk id] rfl (List.forall_mem_singleton.mpr ⟨rfl, rfl⟩)
  | _ => exact quiet _ rfl rfl [] nil_ (by simp)

variable {ok : Machine U → Act U → Prop}

theorem reaches_counted (run : Reaches (stepOf (step host)) ok {} s) (j : Int64) : Counted j s :=
  reaches_moves ⟨nofun, nofun, trivial⟩ (fun _ _ _ _ h take => take_counted h take)
    (fun _ _ h move => move_counted h move) run

theorem reaches_settles (run : Reaches (stepOf (step host)) ok {} s) (j : Int64) : Settles j s :=
  reaches_moves ⟨fun _ => ⟨List.not_mem_nil, rfl⟩, by simp⟩
    (fun _ _ _ _ h take => take_settles h take) (fun _ _ h move => move_settles h move) run

/-- In every run an acknowledgement names no more payloads of its id than were taken before it,
and the first completion of a request, if any payload of its body was taken until then, is followed
by an acknowledgement of all of these. -/
theorem acks_received (run : Reaches (stepOf (step host)) ok {} s) (j : Int64) :
    (∀ front n back, s.out = front ++ .ack j n :: back → n ≤ front.countP (Output.isTaken j)) ∧
      ∀ before rest, s.out = before ++ .completed j :: rest →
        (∀ o ∈ before, o.isCompleted j = false) → 0 < receivedOf j before →
        ∃ rest', rest = .ack j (receivedOf j before) :: rest' := by
  constructor
  · intro front n back shape
    have within := (reaches_counted run j).within.split shape
    rwa [Nat.zero_add] at within
  · intro before rest shape open_ some_
    have settled := (reaches_settles run j).done
    rw [shape, beforeCompleted_first open_, sinceCompleted_first open_] at settled
    exact settled ⟨.completed j, List.mem_append_right _ List.mem_cons_self, beq_self_eq_true j⟩
      some_

/-- Two payloads around their head, then the answer. -/
theorem acks_two :
    ∃ s, exec (step sampleHost) [.chunk 7 (.data [1]), .head (sampleHead 7 true),
        .chunk 7 (.data [2]), .chunk 7 .end_, .answer 7 sampleAnswer true] {} = some s ∧
      ∃ before rest, s.out = before ++ .completed 7 :: .ack 7 2 :: rest := by
  obtain ⟨s, run, completed, open_, two⟩ := exec_any (f := step sampleHost) (s := {})
    (p := fun s => (∃ o ∈ s.out, o.isCompleted 7 = true) ∧
      (∀ o ∈ beforeCompleted 7 s.out, o.isCompleted 7 = false) ∧
      receivedOf 7 (beforeCompleted 7 s.out) = 2)
    (show (exec _ [.chunk 7 (.data [1]), .head (sampleHead 7 true), .chunk 7 (.data [2]),
      .chunk 7 .end_, .answer 7 sampleAnswer true] _).any _ = true by decide +kernel)
  have shape := around_completed completed
  obtain ⟨rest, last⟩ :=
    (acks_received (exec_reaches run) 7).2 _ _ shape open_ (two ▸ Nat.two_pos)
  rw [two] at last
  exact ⟨s, run, _, rest, last ▸ shape⟩

end Machine

end NitroServer.Runner
