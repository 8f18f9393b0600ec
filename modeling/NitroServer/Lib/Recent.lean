/-
A memory of the keys added last: a set in the order of insertion with a limit, which forgets its
oldest key when it grows over the limit. Adding a key that is there does not move it.

* `mem_add` — what an added key is found among.
* `Kept` — a key that is there with at most so many behind it; `kept_add_self`, `Kept.add`: it
  takes as many other keys as the limit to forget one.
-/

import Mathlib

namespace NitroServer.Lib

/-- At most `limit` keys, the oldest first. -/
structure Recent (κ : Type*) (limit : Nat) where
  keys : List κ
  nodup : keys.Nodup
  bounded : keys.length ≤ limit

namespace Recent

variable {κ : Type*} {limit : Nat} {k : κ} {n : Nat}

def empty : Recent κ limit := ⟨[], List.nodup_nil, Nat.zero_le limit⟩

/-- The key is there, with at most `n` keys behind it. -/
def Kept (r : Recent κ limit) (k : κ) (n : Nat) : Prop :=
  ∃ front back, r.keys = front ++ k :: back ∧ back.length ≤ n

theorem Kept.mem {r : Recent κ limit} (kept : r.Kept k n) : k ∈ r.keys := by
  obtain ⟨front, back, shape, _⟩ := kept
  rw [shape]
  exact List.mem_append_right _ List.mem_cons_self

variable [DecidableEq κ] (r : Recent κ limit) (k)

def contains : Bool := decide (k ∈ r.keys)

/-- Add a key; one key too many drops the oldest. -/
def add : Recent κ limit :=
  if here : k ∈ r.keys then r
  else {
    keys := (r.keys ++ [k]).drop (r.keys.length + 1 - limit)
    nodup := by
      refine List.Nodup.sublist (List.drop_sublist _ _) ?_
      exact r.nodup.append (List.nodup_singleton k) (by simpa using here)
    bounded := by
      rw [List.length_drop, List.length_append, List.length_singleton]
      omega }

variable {r k} {j : κ}

@[simp] theorem contains_eq_true : r.contains k = true ↔ k ∈ r.keys := decide_eq_true_iff

theorem keys_add (fresh : k ∉ r.keys) :
    (r.add k).keys = (r.keys ++ [k]).drop (r.keys.length + 1 - limit) := by
  rw [add, dif_neg fresh]

theorem add_of_mem (here : k ∈ r.keys) : r.add k = r := dif_pos here

theorem mem_add (mem : j ∈ (r.add k).keys) : j = k ∨ j ∈ r.keys := by
  by_cases here : k ∈ r.keys
  · rw [add_of_mem here] at mem
    exact .inr mem
  · rw [keys_add here] at mem
    rcases List.mem_append.mp (List.mem_of_mem_drop mem) with old | new
    · exact .inr old
    · exact .inl (List.mem_singleton.mp new)

/-- A new key is behind all others. -/
theorem kept_add_self (room : 0 < limit) (fresh : k ∉ r.keys) : (r.add k).Kept k 0 := by
  refine ⟨r.keys.drop (r.keys.length + 1 - limit), [], ?_, Nat.le_refl 0⟩
  have bounded := r.bounded
  rw [keys_add fresh, List.drop_append_of_le_length (by omega)]

/-- Another key behind it leaves a key there, as long as fewer than `limit` are behind it. -/
theorem Kept.add (kept : r.Kept k n) (room : n + 1 < limit) : (r.add j).Kept k (n + 1) := by
  obtain ⟨front, back, shape, few⟩ := kept
  by_cases here : j ∈ r.keys
  · rw [add_of_mem here]
    exact ⟨front, back, shape, Nat.le_succ_of_le few⟩
  · have bounded := r.bounded
    have size : r.keys.length = front.length + back.length + 1 := by
      rw [shape, List.length_append, List.length_cons]
      omega
    refine ⟨front.drop (r.keys.length + 1 - limit), back ++ [j], ?_, ?_⟩
    · rw [keys_add here, shape, List.append_assoc, List.cons_append,
        List.drop_append_of_le_length]
      rw [List.length_append, List.length_cons]
      omega
    · rw [List.length_append, List.length_singleton]
      omega

end Recent

end NitroServer.Lib
