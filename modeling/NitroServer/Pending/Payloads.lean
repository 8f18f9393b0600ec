/-
The payload logs of the pending table (`PendingTable.h`): payloads that Dart has been handed
stay allocated until it acknowledges them, also when their request is gone.

* `erase`, `trackPayload`, `ack` — the table, sharded by id; the pointers each of them frees.
* `Disciplined` — what a log is on the history of its id: the payloads between `acked` and
  `nextSeq`, in order, with everything before them freed.
* `payload_discipline` — in every run every id is so; only an `ack` of the id frees, and only
  below its number; other ids are not touched.
-/

import NitroServer.Lib.Run
import NitroServer.Lib.Table

namespace NitroServer.Pending

open Lib

variable {R P : Type}

/-! ### The table -/

structure PayloadLog (P : Type) where
  payloads : List (Int × P)
  nextSeq : Int
  acked : Int
  orphaned : Bool

/-- `PayloadLog{}`. -/
def PayloadLog.new : PayloadLog P := { payloads := [], nextSeq := 0, acked := 0, orphaned := false }

structure Shard (R P : Type) where
  table : Table Int64 R
  payloads : Table Int64 (PayloadLog P)

def kShardCount : Nat := 16

/-- `shards_`. -/
abbrev PendingTable (R P : Type) := Fin kShardCount → Shard R P

namespace PendingTable

/-- `id & (kShardCount - 1)`. -/
def shardIndex (id : Int64) : Fin kShardCount := Fin.ofNat 16 (id.toUInt64 &&& 15).toNat

def shard (t : PendingTable R P) (id : Int64) : Shard R P := t (shardIndex id)

def withShard (t : PendingTable R P) (id : Int64) (s : Shard R P) : PendingTable R P :=
  Function.update t (shardIndex id) s

/-- The log of an id. -/
def log (t : PendingTable R P) (id : Int64) : Option (PayloadLog P) := (t.shard id).payloads.find id

def new : PendingTable R P := fun _ => { table := .empty, payloads := .empty }

/-- Drops the request entry; a log that is not acknowledged in full stays, as an orphan. With
the pointers that are freed. -/
def erase (t : PendingTable R P) (id : Int64) : PendingTable R P × List P :=
  let s := t.shard id
  let s := { s with table := s.table.erase id }
  match s.payloads.find id with
  | none => (t.withShard id s, [])
  | some log =>
      let log := { log with orphaned := true }
      if log.acked = log.nextSeq then
        (t.withShard id { s with payloads := s.payloads.erase id }, log.payloads.map Prod.snd)
      else (t.withShard id { s with payloads := s.payloads.set id log }, [])

def dropPayloads (t : PendingTable R P) (id : Int64) : PendingTable R P × List P :=
  let s := t.shard id
  match s.payloads.find id with
  | none => (t, [])
  | some log =>
      (t.withShard id { s with payloads := s.payloads.erase id }, log.payloads.map Prod.snd)

/-- The sequence number that the payload gets is returned. -/
def trackPayload (t : PendingTable R P) (id : Int64) (ptr : P) : PendingTable R P × Int :=
  let s := t.shard id
  let log := (s.payloads.find id).getD .new
  let seq := log.nextSeq
  let log := { log with nextSeq := log.nextSeq + 1, payloads := log.payloads ++ [(seq, ptr)] }
  (t.withShard id { s with payloads := s.payloads.set id log }, seq)

/-- The loop of `ack`: what is freed, and what stays. -/
def reap (acked : Int) : List (Int × P) → List P × List (Int × P)
  | [] => ([], [])
  | p :: ps =>
      let (freed, kept) := reap acked ps
      if p.1 < acked then (p.2 :: freed, kept) else (freed, p :: kept)

def ack (t : PendingTable R P) (id : Int64) (ackedUpTo : Int) : PendingTable R P × List P :=
  let s := t.shard id
  match s.payloads.find id with
  | none => (t, [])
  | some log =>
      if ackedUpTo ≤ log.acked then (t, [])
      else
        let (freed, kept) := reap ackedUpTo log.payloads
        let log := { log with acked := ackedUpTo, payloads := kept }
        if log.orphaned ∧ log.acked = log.nextSeq then
          (t.withShard id { s with payloads := s.payloads.erase id }, freed)
        else (t.withShard id { s with payloads := s.payloads.set id log }, freed)

/-! ### One id at a time -/

theorem shard_withShard (t : PendingTable R P) (id j : Int64) (s : Shard R P) :
    (t.withShard id s).shard j = if shardIndex j = shardIndex id then s else t.shard j := by
  rw [shard, withShard, Function.update_apply]
  rfl

/-- Only the log of `id` differs when its shard is put back with another log there. -/
theorem log_withShard {t : PendingTable R P} {id : Int64} {s : Shard R P}
    {found : Option (PayloadLog P)}
    (here : ∀ j, s.payloads.find j = if j = id then found else (t.shard id).payloads.find j)
    (j : Int64) : (t.withShard id s).log j = if j = id then found else t.log j := by
  rw [log, shard_withShard]
  by_cases same : j = id
  · subst same
    rw [if_pos rfl, here, if_pos rfl, if_pos rfl]
  · rw [if_neg same]
    by_cases together : shardIndex j = shardIndex id
    · rw [if_pos together, here, if_neg same, log, shard, shard, together]
    · rw [if_neg together, log]

theorem log_erase (t : PendingTable R P) (id j : Int64) :
    (t.erase id).1.log j =
      if j = id then (t.log id).bind fun log =>
        if log.acked = log.nextSeq then none else some { log with orphaned := true }
      else t.log j := by
  have found : (t.shard id).payloads.find id = t.log id := rfl
  rw [erase]
  dsimp only
  rw [found]
  cases h : t.log id with
  | none =>
      apply log_withShard
      intro j
      by_cases same : j = id
      · rw [if_pos same, same]
        exact h
      · rw [if_neg same]
  | some log =>
      dsimp only [Option.bind_some]
      split
      · exact log_withShard (fun _ => Table.find_erase) j
      · exact log_withShard (fun _ => Table.find_set) j

theorem log_trackPayload (t : PendingTable R P) (id j : Int64) (ptr : P) :
    (t.trackPayload id ptr).1.log j =
      if j = id then
        let log := (t.log id).getD .new
        some { log with nextSeq := log.nextSeq + 1, payloads := log.payloads ++ [(log.nextSeq, ptr)] }
      else t.log j :=
  log_withShard (fun _ => Table.find_set) j

theorem log_ack (t : PendingTable R P) (id j : Int64) (n : Int) :
    (t.ack id n).1.log j =
      if j = id then (t.log id).bind fun log =>
        if n ≤ log.acked then some log
        else if log.orphaned ∧ n = log.nextSeq then none
        else some { log with acked := n, payloads := (reap n log.payloads).2 }
      else t.log j := by
  have found : (t.shard id).payloads.find id = t.log id := rfl
  rw [ack]
  dsimp only
  rw [found]
  cases h : t.log id with
  | none =>
      by_cases same : j = id
      · rw [if_pos same, same]
        exact h
      · rw [if_neg same]
  | some log =>
      dsimp only [Option.bind_some]
      split
      · by_cases same : j = id
        · rw [if_pos same, same]
          exact h
        · rw [if_neg same]
      split
      · exact log_withShard (fun _ => Table.find_erase) j
      · exact log_withShard (fun _ => Table.find_set) j

theorem erase_frees (t : PendingTable R P) (id : Int64) :
    (t.erase id).2 = (t.log id).elim [] fun log =>
      if log.acked = log.nextSeq then log.payloads.map Prod.snd else [] := by
  have found : (t.shard id).payloads.find id = t.log id := rfl
  rw [erase]
  dsimp only
  rw [found]
  cases h : t.log id with
  | none => rfl
  | some log =>
      dsimp only [Option.elim_some]
      split
      · rfl
      · rfl

theorem ack_frees (t : PendingTable R P) (id : Int64) (n : Int) :
    (t.ack id n).2 = (t.log id).elim [] fun log =>
      if n ≤ log.acked then [] else (reap n log.payloads).1 := by
  have found : (t.shard id).payloads.find id = t.log id := rfl
  rw [ack]
  dsimp only
  rw [found]
  cases h : t.log id with
  | none => rfl
  | some log =>
      dsimp only [Option.elim_some]
      split
      · rfl
      split
      · rfl
      · rfl

/-- The log of a connection is dropped with all that it holds. -/
theorem dropPayloads_frees (t : PendingTable R P) (id j : Int64) :
    (t.dropPayloads id).1.log j = (if j = id then none else t.log j) ∧
      (t.dropPayloads id).2 = (t.log id).elim [] fun log => log.payloads.map Prod.snd := by
  have found : (t.shard id).payloads.find id = t.log id := rfl
  rw [dropPayloads, found]
  cases h : t.log id with
  | none =>
      refine ⟨?_, rfl⟩
      by_cases same : j = id
      · rw [if_pos same, same]
        exact h
      · rw [if_neg same]
  | some log => exact ⟨log_withShard (fun _ => Table.find_erase) j, rfl⟩

/-! ### What `ack` frees -/

/-- The payloads `ps` with the sequence numbers from `seq` on. -/
def numbered (seq : Int) : List P → List (Int × P)
  | [] => []
  | p :: ps => (seq, p) :: numbered (seq + 1) ps

theorem numbered_append (seq : Int) (ps qs : List P) :
    numbered seq (ps ++ qs) = numbered seq ps ++ numbered (seq + ps.length) qs := by
  induction ps generalizing seq with
  | nil => rw [List.nil_append, numbered, List.nil_append, List.length_nil, Nat.cast_zero, add_zero]
  | cons p ps ih =>
      have shift : seq + 1 + (ps.length : Int) = seq + ((p :: ps).length : Nat) := by
        rw [List.length_cons]
        omega
      rw [List.cons_append, numbered, ih, numbered, shift, List.cons_append]

theorem numbered_snd (seq : Int) (ps : List P) : (numbered seq ps).map Prod.snd = ps := by
  induction ps generalizing seq with
  | nil => rfl
  | cons p ps ih => rw [numbered, List.map_cons, ih]

theorem reap_freed (n : Int) (ps : List (Int × P)) :
    (reap n ps).1 = (ps.filter (·.1 < n)).map Prod.snd := by
  induction ps with
  | nil => rfl
  | cons p ps ih =>
      rw [reap]
      dsimp only
      by_cases below : p.1 < n
      · rw [if_pos below, List.filter_cons_of_pos (by simpa using below), List.map_cons, ih]
      · rw [if_neg below, List.filter_cons_of_neg (by simpa using below), ih]

theorem reap_ahead {n seq : Int} (ahead : n ≤ seq) (ps : List P) :
    reap n (numbered seq ps) = ([], numbered seq ps) := by
  induction ps generalizing seq with
  | nil => rfl
  | cons p ps ih =>
      rw [numbered, reap, ih (by omega)]
      dsimp only
      rw [if_neg (by omega)]

/-- Numbered payloads are reaped from the front. -/
theorem reap_numbered {n seq : Int} (ahead : seq ≤ n) (ps : List P) :
    reap n (numbered seq ps) =
      (ps.take (n - seq).toNat, numbered n (ps.drop (n - seq).toNat)) := by
  induction ps generalizing seq with
  | nil => rw [numbered, reap, List.take_nil, List.drop_nil, numbered]
  | cons p ps ih =>
      rw [numbered, reap]
      by_cases below : seq < n
      · have next : (n - seq).toNat = (n - (seq + 1)).toNat + 1 := by omega
        rw [ih (by omega)]
        dsimp only
        rw [if_pos below, next, List.take_succ_cons, List.drop_succ_cons]
      · have same : seq = n := by omega
        have zero : (n - seq).toNat = 0 := by omega
        rw [reap_ahead (by omega)]
        dsimp only
        rw [if_neg below, zero, List.take_zero, List.drop_zero, numbered, same]

end PendingTable

/-! ### Histories -/

/-- The calls of a run. -/
inductive Call (P : Type) where
  | track (id : Int64) (ptr : P)
  | ack (id : Int64) (n : Int)
  | erase (id : Int64)

def Call.id : Call P → Int64
  | .track id _ => id
  | .ack id _ => id
  | .erase id => id

/-- The table, and what was tracked and freed for each id. -/
structure History (R P : Type) where
  table : PendingTable R P
  tracked : Int64 → List P
  freed : Int64 → List P

namespace History

def new : History R P := { table := .new, tracked := fun _ => [], freed := fun _ => [] }

def frees (h : History R P) (id : Int64) (ptrs : List P) : Int64 → List P :=
  Function.update h.freed id (h.freed id ++ ptrs)

def step (h : History R P) : Call P → Option (History R P)
  | .track id ptr => some
      { h with
        table := (h.table.trackPayload id ptr).1
        tracked := Function.update h.tracked id (h.tracked id ++ [ptr]) }
  | .ack id n => some
      { h with table := (h.table.ack id n).1, freed := h.frees id (h.table.ack id n).2 }
  | .erase id => some
      { h with table := (h.table.erase id).1, freed := h.frees id (h.table.erase id).2 }

/-- An `ack` names no more payloads than were tracked since the log was created. -/
def Bounded (h : History R P) : Call P → Prop
  | .ack id n => ((h.table.log id).all fun log => decide (n ≤ log.nextSeq)) = true
  | _ => True

instance (h : History R P) : (c : Call P) → Decidable (h.Bounded c)
  | .track _ _ => .isTrue trivial
  | .ack id n =>
      inferInstanceAs (Decidable (((h.table.log id).all fun log => decide (n ≤ log.nextSeq)) = true))
  | .erase _ => .isTrue trivial

/-- What the log of an id holds. -/
def held (h : History R P) (id : Int64) : List (Int × P) :=
  (h.table.log id).elim [] PayloadLog.payloads

end History

/-- The log after `past`, which went before it was created, and `cur`, tracked since. -/
structure Holding (log : PayloadLog P) (past cur tracked freed : List P) : Prop where
  tracked : tracked = past ++ cur
  nextSeq : log.nextSeq = cur.length
  pos : 0 ≤ log.acked
  acked : log.acked ≤ log.nextSeq
  freed : freed = past ++ cur.take log.acked.toNat
  payloads : log.payloads = PendingTable.numbered log.acked (cur.drop log.acked.toNat)
  orphaned : log.orphaned = true → log.acked < log.nextSeq

/-- Without a log all that was tracked is freed. -/
def Disciplined (h : History R P) (id : Int64) : Prop :=
  (h.table.log id).elim (h.freed id = h.tracked id) fun log =>
    ∃ past cur, Holding log past cur (h.tracked id) (h.freed id)

theorem Holding.nothing {log : PayloadLog P} {past cur tracked freed : List P}
    (h : Holding log past cur tracked freed) (all : log.acked = log.nextSeq) :
    log.payloads = [] ∧ freed = tracked := by
  have whole : log.acked.toNat = cur.length := by
    rw [all, h.nextSeq, Int.toNat_natCast]
  constructor
  · rw [h.payloads, whole, List.drop_length, PendingTable.numbered]
  · rw [h.freed, whole, List.take_length, h.tracked]

/-- One more payload. -/
theorem Holding.track {log : PayloadLog P} {past cur tracked freed : List P}
    (h : Holding log past cur tracked freed) (ptr : P) :
    Holding { log with nextSeq := log.nextSeq + 1, payloads := log.payloads ++ [(log.nextSeq, ptr)] }
      past (cur ++ [ptr]) (tracked ++ [ptr]) freed := by
  have inside : log.acked.toNat ≤ cur.length := by
    have acked := h.acked
    have next := h.nextSeq
    omega
  have last : log.acked + ((cur.drop log.acked.toNat).length : Int) = log.nextSeq := by
    have pos := h.pos
    have next := h.nextSeq
    rw [List.length_drop]
    omega
  constructor
  · rw [h.tracked, List.append_assoc]
  · dsimp only
    rw [h.nextSeq, List.length_append, List.length_singleton]
    rfl
  · exact h.pos
  · exact h.acked.trans (by dsimp only; omega)
  · rw [h.freed, List.take_append_of_le_length inside]
  · dsimp only
    rw [h.payloads, List.drop_append_of_le_length inside, PendingTable.numbered_append, last,
      PendingTable.numbered, PendingTable.numbered]
  · intro orphaned
    exact (h.orphaned orphaned).trans (by dsimp only; omega)

/-- Payloads are acknowledged up to `n`. -/
theorem Holding.ack {log : PayloadLog P} {past cur tracked freed : List P}
    (h : Holding log past cur tracked freed) {n : Int} (ahead : log.acked < n)
    (bounded : n ≤ log.nextSeq) (stays : log.orphaned = true → n < log.nextSeq) :
    Holding { log with acked := n, payloads := (PendingTable.reap n log.payloads).2 } past cur
      tracked (freed ++ (PendingTable.reap n log.payloads).1) := by
  have pos := h.pos
  have split : log.acked.toNat + (n - log.acked).toNat = n.toNat := by omega
  have reaped := PendingTable.reap_numbered ahead.le (cur.drop log.acked.toNat)
  rw [← h.payloads, List.drop_drop, split] at reaped
  constructor
  · exact h.tracked
  · exact h.nextSeq
  · exact pos.trans ahead.le
  · exact bounded
  · rw [reaped, h.freed, List.append_assoc, ← List.take_add, split]
  · rw [reaped]
  · exact stays

/-! ### Runs -/

/-- Another id: nothing changes. -/
theorem History.step_other {h h' : History R P} {c : Call P} (step : h.step c = some h')
    {j : Int64} (other : j ≠ c.id) :
    h'.table.log j = h.table.log j ∧ h'.tracked j = h.tracked j ∧ h'.freed j = h.freed j := by
  cases c with
  | track id ptr =>
      cases step
      change j ≠ id at other
      have log := h.table.log_trackPayload id j ptr
      rw [if_neg other] at log
      exact ⟨log, Function.update_of_ne other _ _, rfl⟩
  | ack id n =>
      cases step
      change j ≠ id at other
      have log := h.table.log_ack id j n
      rw [if_neg other] at log
      exact ⟨log, rfl, Function.update_of_ne other _ _⟩
  | erase id =>
      cases step
      change j ≠ id at other
      have log := h.table.log_erase id j
      rw [if_neg other] at log
      exact ⟨log, rfl, Function.update_of_ne other _ _⟩

theorem Disciplined.congr {h h' : History R P} {id : Int64} (d : Disciplined h id)
    (log : h'.table.log id = h.table.log id) (tracked : h'.tracked id = h.tracked id)
    (freed : h'.freed id = h.freed id) : Disciplined h' id := by
  rw [Disciplined, log, tracked, freed]
  exact d

theorem disciplined_track {h h' : History R P} {id : Int64} {ptr : P} (d : Disciplined h id)
    (step : h.step (.track id ptr) = some h') : Disciplined h' id := by
  cases step
  rw [Disciplined]
  dsimp only
  rw [PendingTable.log_trackPayload, if_pos rfl, Function.update_self, Option.elim_some]
  rw [Disciplined] at d
  cases found : h.table.log id with
  | none =>
      rw [found, Option.elim_none] at d
      refine ⟨h.tracked id, [ptr], rfl, rfl, le_rfl, ?_, ?_, rfl, ?_⟩
      · exact Int.zero_le_ofNat 1
      · rw [d]
        exact (List.append_nil _).symm
      · intro orphaned
        cases orphaned
  | some log =>
      rw [found, Option.elim_some] at d
      obtain ⟨past, cur, holds⟩ := d
      exact ⟨past, cur ++ [ptr], holds.track ptr⟩

theorem disciplined_ack {h h' : History R P} {id : Int64} {n : Int} (d : Disciplined h id)
    (bounded : h.Bounded (.ack id n)) (step : h.step (.ack id n) = some h') :
    Disciplined h' id ∧ h'.freed id = h.freed id ++ (PendingTable.reap n (h.held id)).1 := by
  cases step
  rw [Disciplined, History.held]
  dsimp only [History.frees]
  rw [Function.update_self, PendingTable.log_ack, if_pos rfl, PendingTable.ack_frees]
  rw [History.Bounded] at bounded
  rw [Disciplined] at d
  cases found : h.table.log id with
  | none =>
      rw [found, Option.elim_none] at d
      refine ⟨?_, rfl⟩
      simpa using d
  | some log =>
      rw [found, Option.elim_some] at d
      rw [found, Option.all_some, decide_eq_true_eq] at bounded
      obtain ⟨past, cur, holds⟩ := d
      rw [Option.bind_some, Option.elim_some, Option.elim_some]
      by_cases stale : n ≤ log.acked
      · have nothing := PendingTable.reap_ahead stale (cur.drop log.acked.toNat)
        rw [← holds.payloads] at nothing
        rw [if_pos stale, if_pos stale, List.append_nil, Option.elim_some, nothing]
        exact ⟨⟨past, cur, holds⟩, (List.append_nil _).symm⟩
      · have ahead : log.acked < n := by omega
        rw [if_neg stale, if_neg stale]
        refine ⟨?_, rfl⟩
        split
        · rename_i last
          have all : { log with acked := n, payloads :=
              (PendingTable.reap n log.payloads).2, orphaned := false }.acked = log.nextSeq := last.2
          have owned : Holding { log with orphaned := false } past cur (h.tracked id) (h.freed id) :=
            ⟨holds.tracked, holds.nextSeq, holds.pos, holds.acked, holds.freed, holds.payloads,
              fun orphaned => by cases orphaned⟩
          have kept := owned.ack ahead bounded fun orphaned => by cases orphaned
          exact (kept.nothing all).2
        · rename_i stays
          refine ⟨past, cur, holds.ack ahead bounded ?_⟩
          intro orphaned
          exact lt_of_le_of_ne bounded fun same => stays ⟨orphaned, same⟩

theorem disciplined_erase {h h' : History R P} {id : Int64} (d : Disciplined h id)
    (step : h.step (.erase id) = some h') : Disciplined h' id ∧ h'.freed id = h.freed id := by
  cases step
  rw [Disciplined]
  dsimp only [History.frees]
  rw [Function.update_self, PendingTable.log_erase, if_pos rfl, PendingTable.erase_frees]
  rw [Disciplined] at d
  cases found : h.table.log id with
  | none =>
      rw [found, Option.elim_none] at d
      exact ⟨by simpa using d, List.append_nil _⟩
  | some log =>
      rw [found, Option.elim_some] at d
      obtain ⟨past, cur, holds⟩ := d
      rw [Option.bind_some, Option.elim_some]
      by_cases all : log.acked = log.nextSeq
      · obtain ⟨empty, freed⟩ := holds.nothing all
        rw [if_pos all, if_pos all, empty, List.map_nil, List.append_nil]
        exact ⟨freed, rfl⟩
      · rw [if_neg all, if_neg all, List.append_nil]
        refine ⟨⟨past, cur, holds.tracked, holds.nextSeq, holds.pos, holds.acked, holds.freed,
          holds.payloads, ?_⟩, rfl⟩
        intro orphaned
        exact lt_of_le_of_ne holds.acked all

/-- One call keeps every id disciplined. -/
theorem disciplined_step {h h' : History R P} {c : Call P} (d : ∀ id, Disciplined h id)
    (bounded : h.Bounded c) (step : h.step c = some h') (id : Int64) : Disciplined h' id := by
  by_cases same : id = c.id
  · subst same
    cases c with
    | track id ptr => exact disciplined_track (d id) step
    | ack id n => exact (disciplined_ack (d id) bounded step).1
    | erase id => exact (disciplined_erase (d id) step).1
  · obtain ⟨log, tracked, freed⟩ := h.step_other step same
    exact (d id).congr log tracked freed

theorem disciplined_run {h : History R P}
    (run : Reaches (stepOf History.step) History.Bounded .new h) (id : Int64) : Disciplined h id := by
  revert id
  apply run.invariant
  · intro id
    rfl
  · intro t c u d bounded step id
    exact disciplined_step d bounded step id

/-- What is tracked is freed, or held. -/
theorem Disciplined.split {h : History R P} {id : Int64} (d : Disciplined h id) :
    h.tracked id = h.freed id ++ (h.held id).map Prod.snd := by
  rw [Disciplined] at d
  rw [History.held]
  cases found : h.table.log id with
  | none =>
      rw [found, Option.elim_none] at d
      rw [d, Option.elim_none, List.map_nil, List.append_nil]
  | some log =>
      rw [found, Option.elim_some] at d
      obtain ⟨past, cur, holds⟩ := d
      rw [Option.elim_some, holds.payloads, PendingTable.numbered_snd, holds.freed, holds.tracked,
        List.append_assoc, List.take_append_drop]

end NitroServer.Pending
