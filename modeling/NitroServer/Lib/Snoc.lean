/-
Lists that grow at the end, and whose elements go by their position: what a new element leaves
as it was, and what an update of one does.
-/

import Mathlib

namespace NitroServer.Lib

variable {α : Type*} {l : List α} {i j : Nat} {x y : α}

theorem getElem?_append_some (found : l[i]? = some x) (m : List α) : (l ++ m)[i]? = some x := by
  rw [List.getElem?_append_left (List.getElem?_eq_some_iff.mp found).1]
  exact found

/-- An element of a list with a new last one is an old one or that one. -/
theorem getElem?_snoc (found : (l ++ [y])[i]? = some x) :
    l[i]? = some x ∨ i = l.length ∧ x = y := by
  rcases Nat.lt_trichotomy i l.length with lt | rfl | gt
  · rw [List.getElem?_append_left lt] at found
    exact Or.inl found
  · rw [List.getElem?_concat_length] at found
    exact Or.inr ⟨rfl, (Option.some.inj found).symm⟩
  · have long : (l ++ [y]).length ≤ i := by
      rw [List.length_append, List.length_singleton]
      exact gt
    rw [List.getElem?_eq_none long] at found
    cases found

/-- An element of a list with one updated is another one or the updated one. -/
theorem getElem?_modify_cases {f : α → α} (found : (l.modify i f)[j]? = some x) :
    j ≠ i ∧ l[j]? = some x ∨ j = i ∧ ∃ y, l[i]? = some y ∧ x = f y := by
  rw [List.getElem?_modify] at found
  obtain ⟨y, hy, rfl⟩ := Option.map_eq_some_iff.mp found
  by_cases here : i = j
  · subst here
    exact Or.inr ⟨rfl, y, hy, if_pos rfl⟩
  · rw [if_neg here]
    exact Or.inl ⟨Ne.symm here, hy⟩

/-- The last element updated. -/
theorem modify_snoc (l : List α) (x : α) (f : α → α) :
    (l ++ [x]).modify l.length f = l ++ [f x] := by
  induction l with
  | nil => rfl
  | cons y l ih => exact congrArg (y :: ·) ih

end NitroServer.Lib
