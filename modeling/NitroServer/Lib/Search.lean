/-
First occurrence of a pattern in a list, and cutting a list at a separator.

`findSub pat s` is the least offset at which `pat` occurs in `s`. A match that is
found stays where it is when the list grows at its end (`findSub_append`), and a
list that ends before the first match of a longer one has none
(`findSub_eq_none_of_short`): these two facts are what makes re-scanning a buffer
after every read independent of how the reads were cut.
-/

import Mathlib

namespace NitroServer.Lib

variable {α : Type*} [DecidableEq α]

/-- The least offset at which `pat` occurs in the list. -/
def findSub (pat : List α) : List α → Option Nat
  | [] => if pat = [] then some 0 else none
  | a :: s => if pat <+: a :: s then some 0 else (findSub pat s).map (· + 1)

/-- `findSub` returns a place where the pattern occurs, and the first one. -/
theorem findSub_spec {pat s : List α} {i : Nat} (h : findSub pat s = some i) :
    pat <+: s.drop i ∧ ∀ j < i, ¬ pat <+: s.drop j := by
  induction s generalizing i with
  | nil =>
      simp only [findSub] at h
      split at h
      · rename_i hp
        cases h
        exact ⟨by simp [hp], by simp⟩
      · cases h
  | cons a s ih =>
      simp only [findSub] at h
      split at h
      · rename_i hp
        cases h
        exact ⟨by simpa using hp, by simp⟩
      · rename_i hp
        obtain ⟨k, hk, rfl⟩ := Option.map_eq_some_iff.mp h
        obtain ⟨here, before⟩ := ih hk
        refine ⟨by simpa using here, fun j hj => ?_⟩
        cases j with
        | zero => simpa using hp
        | succ j => simpa using before j (by omega)

/-- A place where the pattern occurs and none before it: `findSub` returns it. -/
theorem findSub_eq_some {pat s : List α} {i : Nat} (hi : i ≤ s.length)
    (here : pat <+: s.drop i) (before : ∀ j < i, ¬ pat <+: s.drop j) :
    findSub pat s = some i := by
  induction s generalizing i with
  | nil =>
      have hi0 : i = 0 := by simpa using hi
      subst hi0
      simpa [findSub] using here
  | cons a s ih =>
      cases i with
      | zero => simpa [findSub] using here
      | succ i =>
          have hp : ¬ pat <+: a :: s := by simpa using before 0 (by omega)
          have hs : findSub pat s = some i :=
            ih (by simpa using hi) (by simpa using here) fun j hj => by
              simpa using before (j + 1) (by omega)
          simp [findSub, hp, hs]

/-- The match fits into the list. -/
theorem findSub_le {pat s : List α} {i : Nat} (h : findSub pat s = some i) :
    i + pat.length ≤ s.length := by
  obtain ⟨here, before⟩ := findSub_spec h
  have hlen := here.length_le
  rw [List.length_drop] at hlen
  by_cases hi : i ≤ s.length
  · omega
  · -- past the end only the empty pattern occurs, and it occurs at 0 already
    have hnil : pat = [] := by
      rw [List.drop_eq_nil_of_le (by omega)] at here
      exact List.prefix_nil.mp here
    exact absurd (by simp [hnil]) (before 0 (by omega))

/-- A found match does not move when the list grows at its end. -/
theorem findSub_append {pat s : List α} {i : Nat} (t : List α)
    (h : findSub pat s = some i) : findSub pat (s ++ t) = some i := by
  have hle := findSub_le h
  obtain ⟨here, before⟩ := findSub_spec h
  refine findSub_eq_some (by simp; omega) ?_ fun j hj hpre => before j hj ?_
  · rw [List.drop_append_of_le_length (by omega)]
    exact here.trans (List.prefix_append _ _)
  · rw [List.drop_append_of_le_length (by omega)] at hpre
    exact List.prefix_of_prefix_length_le hpre (List.prefix_append _ _) (by simp; omega)

/-- A list that ends before the first match of a longer list has no match. -/
theorem findSub_eq_none_of_short {pat s t : List α} {i : Nat}
    (h : findSub pat (s ++ t) = some i) (short : s.length < i + pat.length) :
    findSub pat s = none := by
  cases hs : findSub pat s with
  | none => rfl
  | some j =>
      have hj := findSub_append t hs
      rw [h] at hj
      have := findSub_le hs
      cases hj
      omega

/-- A match that ends within a list's beginning is found there. -/
theorem findSub_of_append {pat s t : List α} {i : Nat}
    (h : findSub pat (s ++ t) = some i) (fits : i + pat.length ≤ s.length) :
    findSub pat s = some i := by
  obtain ⟨here, before⟩ := findSub_spec h
  rw [List.drop_append_of_le_length (by omega)] at here
  refine findSub_eq_some (by omega) ?_ fun j hj hpre => before j hj ?_
  · exact List.prefix_of_prefix_length_le here (List.prefix_append _ _) (by simp; omega)
  · rw [List.drop_append_of_le_length (by omega)]
    exact hpre.trans (List.prefix_append _ _)

/-- What stands before a place where the pattern may first occur does not matter. -/
theorem findSub_skip {pat s : List α} {n : Nat} (le : n ≤ s.length)
    (before : ∀ j < n, ¬ pat <+: s.drop j) :
    findSub pat s = (findSub pat (s.drop n)).map (· + n) := by
  induction n generalizing s with
  | zero =>
      rw [List.drop_zero]
      exact Option.map_id'.symm
  | succ n ih =>
      cases s with
      | nil => exact absurd le (Nat.not_succ_le_zero n)
      | cons a s =>
          have here : ¬ pat <+: a :: s := before 0 n.succ_pos
          have later : ∀ j < n, ¬ pat <+: s.drop j := fun j lt =>
            before (j + 1) (Nat.succ_lt_succ lt)
          rw [findSub, if_neg here, ih (Nat.le_of_succ_le_succ le) later, Option.map_map,
            List.drop_succ_cons]
          rfl

/-- A list that is too short has no occurrence. -/
theorem findSub_short {pat s : List α} (short : s.length < pat.length) : findSub pat s = none := by
  cases found : findSub pat s with
  | none => rfl
  | some i =>
      have fits := findSub_le found
      omega

/-- There is a first occurrence exactly when there is one. -/
theorem findSub_isSome {pat s : List α} : (findSub pat s).isSome = true ↔ pat <:+: s := by
  rw [Option.isSome_iff_exists]
  constructor
  · rintro ⟨i, found⟩
    obtain ⟨more, here⟩ := (findSub_spec found).1
    exact ⟨s.take i, more, by rw [List.append_assoc, here, List.take_append_drop]⟩
  · intro occurs
    induction s with
    | nil => exact ⟨0, if_pos (List.infix_nil.mp occurs)⟩
    | cons a s ih =>
        by_cases here : pat <+: a :: s
        · exact ⟨0, if_pos here⟩
        · obtain ⟨i, found⟩ := ih ((List.infix_cons_iff.mp occurs).resolve_left here)
          exact ⟨i + 1, by rw [findSub, if_neg here, found]; rfl⟩

/-- A pattern without the separator lies on one side of it. -/
theorem infix_around {pat xs ys : List α} {sep : α} (free : sep ∉ pat) :
    pat <:+: xs ++ sep :: ys ↔ pat <:+: xs ∨ pat <:+: ys := by
  constructor
  · intro occurs
    induction xs with
    | nil =>
        rcases List.infix_cons_iff.mp occurs with here | later
        · cases pat with
          | nil => exact .inl List.nil_infix
          | cons a pat =>
              obtain ⟨rfl, -⟩ := List.cons_prefix_cons.mp here
              exact absurd List.mem_cons_self free
        · exact .inr later
    | cons x xs ih =>
        rcases List.infix_cons_iff.mp occurs with here | later
        · left
          refine List.IsPrefix.isInfix ?_
          by_contra cut
          have long : (x :: xs).length < pat.length := by
            by_contra fits
            exact cut (List.prefix_of_prefix_length_le here (List.prefix_append _ _)
              (Nat.le_of_not_lt fits))
          have whole : x :: xs ++ [sep] <+: pat :=
            List.prefix_of_prefix_length_le ⟨ys, by simp⟩ here (by simpa using long)
          exact free (whole.subset (by simp))
        · exact (ih later).imp_left fun inside => inside.trans (List.suffix_cons x xs).isInfix
  · rintro (left | right)
    · exact left.trans (List.prefix_append _ _).isInfix
    · exact right.trans ((List.suffix_cons sep ys).trans (List.suffix_append xs _)).isInfix

/-- Cut a list at every occurrence of a separator: `k` occurrences give `k + 1`
pieces. -/
def splitAtSep (sep : α) : List α → List (List α)
  | [] => [[]]
  | a :: s =>
      if a = sep then [] :: splitAtSep sep s
      else match splitAtSep sep s with
        | [] => [[a]]
        | piece :: pieces => (a :: piece) :: pieces

/-- Without a separator the list is one piece. -/
theorem splitAtSep_none {sep : α} {s : List α} (none_ : ∀ a ∈ s, a ≠ sep) :
    splitAtSep sep s = [s] := by
  induction s with
  | nil => rfl
  | cons a s ih =>
      have rest := ih fun b mem => none_ b (List.mem_cons_of_mem a mem)
      rw [splitAtSep, if_neg (none_ a List.mem_cons_self), rest]

theorem splitAtSep_ne_nil (sep : α) (s : List α) : splitAtSep sep s ≠ [] := by
  cases s with
  | nil => exact List.cons_ne_nil [] []
  | cons a s =>
      rw [splitAtSep]
      split
      · exact List.cons_ne_nil _ _
      · split
        · exact List.cons_ne_nil _ _
        · exact List.cons_ne_nil _ _

/-- At a separator the pieces part. -/
theorem splitAtSep_append (sep : α) (xs ys : List α) :
    splitAtSep sep (xs ++ sep :: ys) = splitAtSep sep xs ++ splitAtSep sep ys := by
  induction xs with
  | nil => simp [splitAtSep]
  | cons a xs ih =>
      rw [List.cons_append, splitAtSep, ih, splitAtSep]
      split
      · rfl
      · cases pieces : splitAtSep sep xs with
        | nil => exact absurd pieces (splitAtSep_ne_nil sep xs)
        | cons piece pieces => rfl

/-- A piece has no separator. -/
theorem mem_splitAtSep {sep : α} {s piece : List α}
    (mem : piece ∈ splitAtSep sep s) : sep ∉ piece := by
  induction s generalizing piece with
  | nil =>
      rw [splitAtSep, List.mem_singleton] at mem
      rw [mem]
      exact List.not_mem_nil
  | cons a s ih =>
      rw [splitAtSep] at mem
      split at mem
      · rcases List.mem_cons.mp mem with rfl | mem
        · exact List.not_mem_nil
        · exact ih mem
      · rename_i other
        split at mem
        · rw [List.mem_singleton] at mem
          rw [mem, List.mem_singleton]
          exact Ne.symm other
        · rename_i first rest split_
          rcases List.mem_cons.mp mem with rfl | mem
          · rw [List.mem_cons, not_or]
            exact ⟨Ne.symm other, ih (split_ ▸ List.mem_cons_self)⟩
          · exact ih (split_ ▸ List.mem_cons_of_mem first mem)

omit [DecidableEq α] in
theorem intercalate_cons_cons (sep : α) (a b : List α) (rest : List (List α)) :
    [sep].intercalate (a :: b :: rest) = a ++ sep :: [sep].intercalate (b :: rest) := by
  simp [List.intercalate]

/-- Joined pieces are found again. -/
theorem splitAtSep_intercalate {sep : α} {pieces : List (List α)} (full : pieces ≠ [])
    (free : ∀ piece ∈ pieces, sep ∉ piece) : splitAtSep sep ([sep].intercalate pieces) = pieces := by
  induction pieces with
  | nil => exact absurd rfl full
  | cons piece pieces ih =>
      obtain ⟨here, later⟩ := List.forall_mem_cons.mp free
      have alone : splitAtSep sep piece = [piece] := by
        apply splitAtSep_none
        rintro a mem rfl
        exact here mem
      cases pieces with
      | nil =>
          rw [List.intercalate_singleton]
          exact alone
      | cons next pieces =>
          rw [intercalate_cons_cons, splitAtSep_append, alone, ih (List.cons_ne_nil _ _) later]
          rfl

/-- The pieces, joined, are the list. -/
theorem intercalate_splitAtSep (sep : α) (s : List α) : [sep].intercalate (splitAtSep sep s) = s := by
  induction s with
  | nil => rfl
  | cons a s ih =>
      rw [splitAtSep]
      cases cuts : splitAtSep sep s with
      | nil => exact absurd cuts (splitAtSep_ne_nil sep s)
      | cons piece pieces =>
          rw [cuts] at ih
          by_cases cut : a = sep
          · rw [if_pos cut, intercalate_cons_cons, ih, cut]
            rfl
          · rw [if_neg cut]
            dsimp only
            cases pieces with
            | nil =>
                rw [List.intercalate_singleton] at ih ⊢
                rw [ih]
            | cons next pieces =>
                rw [intercalate_cons_cons] at ih ⊢
                rw [List.cons_append, ih]

end NitroServer.Lib
