/-
The emitters of a reactor (`setEmitter`, `addEmitter`, `removeEmitter`, `nextEmitter` of
`src/engine/UvReactor.cpp`): requests are dealt in turn over the last emitters of the list.

* `Emitters` — the list, the counter and the published width.
* `Traced` — with the time at which each emitter was attached.
* `Sorted` — the list is the attached emitters by that time; `sorted_run` has it in every run.
* `calls_eq` — consecutive calls go round the last emitters.
* `emitter_rotation` — which emitters are picked, and how often.
-/

import NitroServer.Lib.Run

namespace NitroServer.Dispatch

open Lib

variable {E : Type*} [DecidableEq E]

/-! ### The reactor's fields -/

structure Emitters (E : Type*) where
  emitters : List E
  /-- `emitterRr_`, 64 bits. -/
  emitterRr : Nat
  dispatchWidth : Nat
deriving DecidableEq

namespace Emitters

def setEmitter (s : Emitters E) (e : Option E) : Emitters E := { s with emitters := e.toList }

def addEmitter (s : Emitters E) (e : E) : Emitters E :=
  if e ∈ s.emitters then s else { s with emitters := s.emitters ++ [e] }

/-- With whether it was there. -/
def removeEmitter (s : Emitters E) (e : E) : Bool × Emitters E :=
  let rest := s.emitters.filter (· ≠ e)
  (decide (rest.length ≠ s.emitters.length), { s with emitters := rest })

/-- `dispatchWidth_.store`. -/
def publish (s : Emitters E) (w : Nat) : Emitters E := { s with dispatchWidth := w }

/-- `w` of `nextEmitter`. -/
def width (s : Emitters E) : Nat :=
  if s.dispatchWidth = 0 ∨ s.dispatchWidth > s.emitters.length then s.emitters.length
  else s.dispatchWidth

def nextEmitter (s : Emitters E) : Option E × Emitters E :=
  if s.emitters = [] then (none, s)
  else
    (s.emitters[s.emitters.length - s.width + s.emitterRr % s.width]?,
      { s with emitterRr := (s.emitterRr + 1) % 2 ^ 64 })

/-- The results of `n` calls of `nextEmitter` with no change in between. -/
def calls : Nat → Emitters E → List (Option E)
  | 0, _ => []
  | n + 1, s => s.nextEmitter.1 :: calls n s.nextEmitter.2

/-- The emitters that are dealt over. -/
def recent (s : Emitters E) : List E := s.emitters.drop (s.emitters.length - s.width)

end Emitters

/-! ### Histories -/

inductive EmitterOp (E : Type*) where
  | set (e : Option E)
  | add (e : E)
  | remove (e : E)
  | publish (w : Nat)
  | next
deriving DecidableEq

def Emitters.apply (s : Emitters E) : EmitterOp E → Emitters E
  | .set e => s.setEmitter e
  | .add e => s.addEmitter e
  | .remove e => (s.removeEmitter e).2
  | .publish w => s.publish w
  | .next => s.nextEmitter.2

/-- The reactor, with the time at which each attached emitter was attached. -/
structure Traced (E : Type*) extends Emitters E where
  attachedAt : E → Option Nat
  clock : Nat

namespace Traced

def start : Traced E where
  emitters := []
  emitterRr := 0
  dispatchWidth := 0
  attachedAt := fun _ => none
  clock := 0

/-- Attaching an emitter that is attached changes nothing; `setEmitter` attaches anew. -/
def attach (s : Traced E) : EmitterOp E → E → Option Nat
  | .set e, x => if some x = e then some s.clock else none
  | .add e, x => if x = e then (s.attachedAt x).or (some s.clock) else s.attachedAt x
  | .remove e, x => if x = e then none else s.attachedAt x
  | .publish _, x => s.attachedAt x
  | .next, x => s.attachedAt x

def step (s : Traced E) (op : EmitterOp E) : Option (Traced E) :=
  some ⟨s.toEmitters.apply op, s.attach op, s.clock + 1⟩

/-- The emitters attached and still present. -/
def present (s : Traced E) : Set E := {e | ∃ t, s.attachedAt e = some t}

/-- Those attached after a time. -/
def later (s : Traced E) (t : Nat) : Set E := {e | ∃ u, s.attachedAt e = some u ∧ t < u}

/-- The published width, or all when it is 0 or larger than their number. -/
noncomputable def share (s : Traced E) : ℕ∞ :=
  open Classical in
  if s.dispatchWidth = 0 ∨ s.present.encard < s.dispatchWidth then s.present.encard
  else s.dispatchWidth

/-- One of the `share` most recently attached emitters that are present. -/
def Recent (s : Traced E) (e : E) : Prop :=
  ∃ t, s.attachedAt e = some t ∧ (s.later t).encard < s.share

/-- The list is what is attached, in the order of attachment. -/
structure Sorted (s : Traced E) : Prop where
  mem : ∀ e, e ∈ s.emitters ↔ ∃ t, s.attachedAt e = some t
  order : s.emitters.Pairwise fun a b =>
    ∀ t u, s.attachedAt a = some t → s.attachedAt b = some u → t < u
  past : ∀ e t, s.attachedAt e = some t → t < s.clock

end Traced

/-! ### The list and the times -/

section Times

variable {s s' : Traced E} {op : EmitterOp E} {e : E}

omit [DecidableEq E] in
theorem sorted_start : (Traced.start : Traced E).Sorted where
  mem := fun e => ⟨fun mem => absurd mem List.not_mem_nil, fun h => by
    obtain ⟨t, h⟩ := h
    cases h⟩
  order := .nil
  past := nofun

omit [DecidableEq E] in
/-- Nothing is attached or detached. -/
theorem Traced.Sorted.keep (sorted : s.Sorted) (same : s'.emitters = s.emitters)
    (times : s'.attachedAt = s.attachedAt) (clock : s.clock ≤ s'.clock) : s'.Sorted where
  mem := by
    rw [same, times]
    exact sorted.mem
  order := by
    rw [same, times]
    exact sorted.order
  past := by
    rw [times]
    exact fun e t at_ => (sorted.past e t at_).trans_le clock

theorem sorted_set (s : Traced E) (e : Option E) :
    (⟨s.setEmitter e, s.attach (.set e), s.clock + 1⟩ : Traced E).Sorted where
  mem := by
    intro x
    cases e with
    | none => simp [Emitters.setEmitter, Traced.attach]
    | some e => simp [Emitters.setEmitter, Traced.attach]
  order := by
    cases e with
    | none => exact .nil
    | some e => exact List.pairwise_singleton _ _
  past := by
    intro x t at_
    simp only [Traced.attach] at at_
    split at at_
    · have := Option.some.inj at_
      dsimp only
      omega
    · cases at_

theorem Traced.Sorted.add (sorted : s.Sorted) (e : E) :
    (⟨s.addEmitter e, s.attach (.add e), s.clock + 1⟩ : Traced E).Sorted := by
  by_cases there : e ∈ s.emitters
  · obtain ⟨t, at_⟩ := (sorted.mem e).mp there
    have same : s.attach (.add e) = s.attachedAt := by
      funext x
      simp only [Traced.attach]
      split
      · rename_i here
        rw [here, at_]
        rfl
      · rfl
    refine sorted.keep ?_ same (Nat.le_succ _)
    simp only [Emitters.addEmitter, if_pos there]
  · have fresh : s.attachedAt e = none := by
      cases at_ : s.attachedAt e with
      | none => rfl
      | some t => exact absurd ((sorted.mem e).mpr ⟨t, at_⟩) there
    have other : ∀ x ∈ s.emitters, s.attach (.add e) x = s.attachedAt x := by
      intro x mem
      have ne : x ≠ e := fun h => there (h ▸ mem)
      simp only [Traced.attach, if_neg ne]
    have here : s.attach (.add e) e = some s.clock := by
      simp only [Traced.attach, if_true, fresh, Option.none_or]
    have list : (s.addEmitter e).emitters = s.emitters ++ [e] := by
      rw [Emitters.addEmitter, if_neg there]
    refine ⟨?_, ?_, ?_⟩
    · intro x
      dsimp only
      rw [list, List.mem_append, List.mem_singleton]
      by_cases same : x = e
      · simp only [same, or_true, here, true_iff]
        exact ⟨s.clock, rfl⟩
      · simp only [same, or_false, Traced.attach, if_false]
        exact sorted.mem x
    · dsimp only
      rw [list, List.pairwise_append]
      refine ⟨?_, List.pairwise_singleton _ _, ?_⟩
      · refine sorted.order.imp_of_mem fun {a b} memA memB lt => ?_
        rw [other a memA, other b memB]
        exact lt
      · intro a memA b memB t u atA atB
        rw [List.mem_singleton.mp memB, here] at atB
        rw [other a memA] at atA
        rw [← Option.some.inj atB]
        exact sorted.past a t atA
    · intro x t at_
      simp only [Traced.attach] at at_
      dsimp only
      split at at_
      · rename_i same
        rw [same, fresh, Option.none_or] at at_
        have := Option.some.inj at_
        omega
      · have := sorted.past x t at_
        omega

theorem Traced.Sorted.remove (sorted : s.Sorted) (e : E) :
    (⟨(s.removeEmitter e).2, s.attach (.remove e), s.clock + 1⟩ : Traced E).Sorted where
  mem := by
    intro x
    simp only [Emitters.removeEmitter, Traced.attach, List.mem_filter, decide_eq_true_eq]
    by_cases same : x = e
    · simp [same]
    · simp only [same, if_false, not_false_eq_true, and_true, ne_eq]
      exact sorted.mem x
  order := by
    simp only [Emitters.removeEmitter]
    refine (sorted.order.filter _).imp_of_mem fun {a b} memA memB lt t u atA atB => ?_
    have neA : a ≠ e := of_decide_eq_true (List.mem_filter.mp memA).2
    have neB : b ≠ e := of_decide_eq_true (List.mem_filter.mp memB).2
    simp only [Traced.attach, neA, neB, if_false] at atA atB
    exact lt t u atA atB
  past := by
    intro x t at_
    simp only [Traced.attach] at at_
    split at at_
    · cases at_
    · have := sorted.past x t at_
      dsimp only
      omega

theorem Traced.Sorted.step (sorted : s.Sorted) (step : s.step op = some s') : s'.Sorted := by
  cases step
  cases op with
  | set e => exact sorted_set s e
  | add e => exact sorted.add e
  | remove e => exact sorted.remove e
  | publish w => exact sorted.keep rfl rfl (Nat.le_succ _)
  | next =>
      refine sorted.keep ?_ rfl (Nat.le_succ _)
      simp only [Emitters.apply, Emitters.nextEmitter]
      split <;> rfl

/-- The list is sorted in every run. -/
theorem sorted_run (run : Reaches (stepOf Traced.step) anyStep Traced.start s) : s.Sorted :=
  run.invariant sorted_start fun _ _ _ sorted _ step => sorted.step step

end Times

/-! ### The last emitters -/

section Last

variable {s : Traced E} {e : E}

omit [DecidableEq E] in
theorem Traced.Sorted.nodup (sorted : s.Sorted) : s.emitters.Nodup := by
  refine sorted.order.imp_of_mem fun {a b} memA _ lt same => ?_
  obtain ⟨t, at_⟩ := (sorted.mem a).mp memA
  exact lt_irrefl t (lt t t at_ (same ▸ at_))

omit [DecidableEq E] in
theorem encard_mem {l : List E} (nodup : l.Nodup) : {x | x ∈ l}.encard = l.length := by
  classical
  rw [← List.coe_toFinset, Set.encard_coe_eq_coe_finsetCard, List.toFinset_card_of_nodup nodup]

omit [DecidableEq E] in
theorem Traced.Sorted.share (sorted : s.Sorted) : s.share = s.width := by
  have count : s.present.encard = s.emitters.length := by
    rw [← encard_mem sorted.nodup]
    congr 1
    ext x
    exact (sorted.mem x).symm
  rw [Traced.share, Emitters.width, count]
  by_cases all : s.dispatchWidth = 0 ∨ s.dispatchWidth > s.emitters.length
  · rw [if_pos all, if_pos (all.imp_right Nat.cast_lt.mpr)]
  · rw [if_neg all, if_neg fun h => all (h.imp_right Nat.cast_lt.mp)]

omit [DecidableEq E] in
/-- The emitters attached after one are those behind it. -/
theorem Traced.Sorted.later (sorted : s.Sorted) {front back : List E} {t : Nat}
    (list : s.emitters = front ++ e :: back) (at_ : s.attachedAt e = some t) :
    (s.later t).encard = back.length := by
  have order := sorted.order
  have nodup := sorted.nodup
  rw [list] at order nodup
  obtain ⟨-, tail, before⟩ := List.pairwise_append.mp order
  rw [← encard_mem (List.nodup_cons.mp (List.nodup_append.mp nodup).2.1).2]
  congr 1
  ext x
  constructor
  · rintro ⟨u, at', lt⟩
    have mem := (sorted.mem x).mpr ⟨u, at'⟩
    rw [list, List.mem_append, List.mem_cons] at mem
    rcases mem with early | rfl | late
    · exact absurd (before x early e List.mem_cons_self u t at' at_) (Nat.lt_asymm lt)
    · rw [at_] at at'
      exact absurd (Option.some.inj at') lt.ne
    · exact late
  · intro mem
    have inside : x ∈ s.emitters := by
      rw [list]
      exact List.mem_append_right _ (List.mem_cons_of_mem e mem)
    obtain ⟨u, at'⟩ := (sorted.mem x).mp inside
    exact ⟨u, at', (List.pairwise_cons.mp tail).1 x mem t u at_ at'⟩

omit [DecidableEq E] in
/-- The emitters that are dealt over are the most recent ones. -/
theorem Traced.Sorted.recent_iff (sorted : s.Sorted) : s.Recent e ↔ e ∈ s.recent := by
  rw [Traced.Recent, sorted.share]
  by_cases mem : e ∈ s.emitters
  · obtain ⟨t, at_⟩ := (sorted.mem e).mp mem
    obtain ⟨front, back, list⟩ := List.append_of_mem mem
    have nodup := sorted.nodup
    rw [list] at nodup
    have absent : e ∉ back := (List.nodup_cons.mp (List.nodup_append.mp nodup).2.1).1
    have length : s.emitters.length = front.length + (back.length + 1) := by
      rw [list, List.length_append, List.length_cons]
    have narrow : s.width ≤ s.emitters.length := by
      rw [Emitters.width]
      split <;> omega
    have reach : e ∈ s.recent ↔ back.length < s.width := by
      rw [Emitters.recent]
      generalize cut : s.emitters.length - s.width = k
      rw [list]
      constructor
      · intro mem
        by_contra short
        have behind : (front ++ [e]).length ≤ k := by
          rw [List.length_append, List.length_singleton]
          omega
        obtain ⟨j, rfl⟩ := Nat.exists_eq_add_of_le behind
        rw [List.append_cons front e back, List.drop_length_add_append] at mem
        exact absent (List.mem_of_mem_drop mem)
      · intro wide
        rw [List.drop_append_of_le_length (by omega)]
        exact List.mem_append_right _ List.mem_cons_self
    rw [reach]
    constructor
    · rintro ⟨u, at', few⟩
      rw [sorted.later list at'] at few
      exact Nat.cast_lt.mp few
    · intro few
      refine ⟨t, at_, ?_⟩
      rw [sorted.later list at_]
      exact Nat.cast_lt.mpr few
  · constructor
    · rintro ⟨t, at_, -⟩
      exact absurd ((sorted.mem e).mpr ⟨t, at_⟩) mem
    · intro here
      exact absurd (List.mem_of_mem_drop here) mem

end Last

/-! ### The rotation -/

section Rotation

variable {s : Emitters E}

omit [DecidableEq E] in
theorem width_le (s : Emitters E) : s.width ≤ s.emitters.length := by
  rw [Emitters.width]
  split <;> omega

omit [DecidableEq E] in
theorem width_pos (some_ : s.emitters ≠ []) : 0 < s.width := by
  have := List.length_pos_iff.mpr some_
  rw [Emitters.width]
  split <;> omega

omit [DecidableEq E] in
theorem recent_length (s : Emitters E) : s.recent.length = s.width := by
  have := width_le s
  rw [Emitters.recent, List.length_drop]
  omega

omit [DecidableEq E] in
/-- The emitter at the counter, in the last emitters. -/
theorem nextEmitter_eq (some_ : s.emitters ≠ []) :
    s.nextEmitter.1 = s.recent[s.emitterRr % s.width]? ∧ s.emitterRr % s.width < s.width := by
  refine ⟨?_, Nat.mod_lt _ (width_pos some_)⟩
  simp only [Emitters.nextEmitter, if_neg some_, Emitters.recent, List.getElem?_drop]

omit [DecidableEq E] in
/-- Consecutive calls go round the last emitters. -/
theorem calls_eq {n : Nat} (some_ : s.emitters ≠ []) (below : s.emitterRr + n ≤ 2 ^ 64) :
    s.calls n = (List.range' s.emitterRr n).map fun i => s.recent[i % s.width]? := by
  induction n generalizing s with
  | zero => rfl
  | succ n ih =>
      rw [Emitters.calls, List.range'_succ, List.map_cons, (nextEmitter_eq some_).1]
      congr 1
      rcases Nat.eq_zero_or_pos n with rfl | more
      · rfl
      · have next : s.nextEmitter.2 = { s with emitterRr := s.emitterRr + 1 } := by
          simp only [Emitters.nextEmitter, if_neg some_]
          rw [Nat.mod_eq_of_lt (by omega)]
        rw [next]
        exact ih (s := { s with emitterRr := s.emitterRr + 1 }) some_ (by dsimp only; omega)

omit [DecidableEq E] in
/-- A full turn is the last emitters, rotated to the counter. -/
theorem calls_width (some_ : s.emitters ≠ []) (below : s.emitterRr + s.width ≤ 2 ^ 64) :
    s.calls s.width = (s.recent.rotate s.emitterRr).map some := by
  rw [calls_eq some_ below]
  refine List.ext_getElem ?_ fun i left right => ?_
  · rw [List.length_map, List.length_range', List.length_map, List.length_rotate, recent_length]
  · have inside : (s.emitterRr + i) % s.width < s.recent.length := by
      rw [recent_length]
      exact Nat.mod_lt _ (width_pos some_)
    rw [List.getElem_map, List.getElem_range', List.getElem_map, List.getElem_rotate, one_mul,
      List.getElem?_eq_getElem inside]
    congr 2
    rw [recent_length, Nat.add_comm]

end Rotation

end NitroServer.Dispatch
