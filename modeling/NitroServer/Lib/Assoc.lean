/-
Association lists with one entry for each key.

Setting a key that is present keeps its place, setting a new one appends it; removing a
key and setting it again moves it to the end. This is the iteration order of a linked
hash map. Lookups are the core library's `List.lookup`.

* `lookup_set`, `lookup_erase`, `lookup_map` — lookups after an update.
* `view_foldl` — a table written by a list of steps holds, at every key, what the last
  step that wrote there left.
-/

import Mathlib

namespace NitroServer.Lib

variable {κ α : Type*} [DecidableEq κ]

namespace Assoc

/-- Set a key: in its place when present, else at the end. -/
def set (k : κ) (v : α) : List (κ × α) → List (κ × α)
  | [] => [(k, v)]
  | e :: m => if e.1 = k then (k, v) :: m else e :: set k v m

/-- Remove a key. -/
def erase (k : κ) (m : List (κ × α)) : List (κ × α) :=
  m.filter fun e => e.1 ≠ k

section Lookup

variable [BEq κ] [LawfulBEq κ]

theorem lookup_cons (j : κ) (e : κ × α) (m : List (κ × α)) :
    (e :: m).lookup j = if j = e.1 then some e.2 else m.lookup j := by
  obtain ⟨k, v⟩ := e
  rw [List.lookup_cons]
  by_cases h : j = k
  · simp [h]
  · simp [h, beq_false_of_ne h]

@[simp] theorem lookup_set (k j : κ) (v : α) (m : List (κ × α)) :
    (set k v m).lookup j = if j = k then some v else m.lookup j := by
  induction m with
  | nil => rw [set, lookup_cons]
  | cons e m ih =>
      rw [set]
      by_cases he : e.1 = k
      · rw [if_pos he, lookup_cons, lookup_cons, he]
        by_cases hj : j = k
        · simp [hj]
        · simp [hj]
      · rw [if_neg he, lookup_cons, lookup_cons, ih]
        by_cases hj : j = e.1
        · simp [hj, he]
        · simp [hj]

@[simp] theorem lookup_erase (k j : κ) (m : List (κ × α)) :
    (erase k m).lookup j = if j = k then none else m.lookup j := by
  induction m with
  | nil => simp [erase]
  | cons e m ih =>
      simp only [erase] at ih
      by_cases he : e.1 = k
      · rw [erase, List.filter_cons_of_neg (by simpa using he), ih, lookup_cons, he]
        by_cases hj : j = k
        · simp [hj]
        · simp [hj]
      · rw [erase, List.filter_cons_of_pos (by simpa using he), lookup_cons, lookup_cons, ih]
        by_cases hj : j = e.1
        · simp [hj, he]
        · simp [hj]

theorem lookup_map {β : Type*} (f : α → β) (j : κ) (m : List (κ × α)) :
    (m.map fun e => (e.1, f e.2)).lookup j = (m.lookup j).map f := by
  induction m with
  | nil => rfl
  | cons e m ih =>
      rw [List.map_cons, lookup_cons, lookup_cons, ih]
      split <;> rfl

end Lookup

/-- What the last step that writes at `x` writes there. -/
def lastWrite {ο β : Type*} (write : ο → κ → Option β) (steps : List ο) (x : κ) : Option β :=
  steps.reverse.findSome? (write · x)

omit [DecidableEq κ] in
/-- If one step writes `write o x` at `x` and leaves the other keys, the steps together
leave at every key what the last of them wrote. -/
theorem view_foldl {σ ο β : Type*} {step : σ → ο → σ} (view : σ → κ → β)
    {write : ο → κ → Option β} (steps : List ο)
    (law : ∀ s, ∀ o ∈ steps, ∀ x, view (step s o) x = (write o x).getD (view s x))
    (s : σ) (x : κ) :
    view (steps.foldl step s) x = (lastWrite write steps x).getD (view s x) := by
  induction steps using List.reverseRecOn with
  | nil => rfl
  | append_singleton steps o ih =>
      rw [List.foldl_append, List.foldl_cons, List.foldl_nil, law _ o (by simp),
        ih fun s o ho => law s o (List.mem_append_left _ ho)]
      simp only [lastWrite, List.reverse_append, List.reverse_singleton, List.singleton_append,
        List.findSome?_cons]
      cases write o x with
      | none => rfl
      | some v => rfl

omit [DecidableEq κ] in
/-- Steps that only blank keys leave blank exactly the keys some step blanks. -/
theorem view_foldl_blank {σ ο β : Type*} {step : σ → ο → σ} (view : σ → κ → β) {blank : β}
    {clears : ο → κ → Prop} [∀ o x, Decidable (clears o x)]
    (law : ∀ s o x, view (step s o) x = if clears o x then blank else view s x)
    (steps : List ο) (s : σ) (x : κ) :
    view (steps.foldl step s) x = if ∃ o ∈ steps, clears o x then blank else view s x := by
  induction steps using List.reverseRecOn with
  | nil => simp
  | append_singleton steps o ih =>
      rw [List.foldl_append, List.foldl_cons, List.foldl_nil, law, ih]
      by_cases here : clears o x
      · rw [if_pos here, if_pos ⟨o, by simp, here⟩]
      · rw [if_neg here]
        refine if_congr ?_ rfl rfl
        constructor
        · rintro ⟨o', ho', hx⟩
          exact ⟨o', List.mem_append_left _ ho', hx⟩
        · rintro ⟨o', ho', hx⟩
          rcases List.mem_append.mp ho' with h | h
          · exact ⟨o', h, hx⟩
          · rw [List.mem_singleton] at h
            exact absurd (h ▸ hx) here

/-- Writing `last` over a table and blanking the undone keys gives the table back: what
is undone was blank, and what is left written was there already. -/
def Restored {β : Type*} (before : κ → β) (blank : β) (undone : κ → Prop) (last : κ → Option β) :
    Prop :=
  ∀ x, (undone x → before x = blank) ∧ (¬ undone x → ∀ v, last x = some v → v = before x)

omit [DecidableEq κ] in
theorem restored_iff {β : Type*} {before : κ → β} {blank : β} {undone : κ → Prop}
    [∀ x, Decidable (undone x)] {last : κ → Option β} :
    (∀ x, (if undone x then blank else (last x).getD (before x)) = before x) ↔
      Restored before blank undone last := by
  refine forall_congr' fun x => ?_
  by_cases h : undone x
  · simp only [h, forall_const, not_true_eq_false, false_implies, and_true]
    exact eq_comm
  · simp only [h, false_implies, not_false_eq_true, forall_const, true_and]
    cases last x with
    | none => simp
    | some v => simp

end Assoc

end NitroServer.Lib
