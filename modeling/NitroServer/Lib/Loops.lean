/-
Loops over a list: loops whose body may throw, and loops that fill a table.

* `foldlM_except` — a loop whose body computes something or throws, and then updates the state,
  throws what the first element throws; if none does, it is the plain loop.
* `find_assigned`, `find_collected` — a table filled by assignment holds the last value of each
  key; filled by appending, it holds all of them, in order.
-/

import NitroServer.Lib.Table

namespace NitroServer.Lib

/-! ### Loops that may throw -/

section Throwing

variable {ε β γ σ : Type*}

/-- What an element throws. -/
def thrown (f : β → Except ε γ) (b : β) : Option ε :=
  match f b with
  | .ok _ => none
  | .error e => some e

theorem thrown_ok {f : β → Except ε γ} {b : β} {c : γ} (ok : f b = .ok c) : thrown f b = none := by
  rw [thrown, ok]

theorem thrown_error {f : β → Except ε γ} {b : β} {e : ε} (error : f b = .error e) :
    thrown f b = some e := by
  rw [thrown, error]

theorem thrown_eq_some {f : β → Except ε γ} {b : β} {e : ε} (some_ : thrown f b = some e) :
    f b = .error e := by
  rw [thrown] at some_
  split at some_
  · cases some_
  · rename_i e' error
    rw [error, Option.some.inj some_]

theorem foldlM_error {f : β → Except ε γ} {g : σ → γ → σ} {bs : List β} {e : ε}
    (first : bs.findSome? (thrown f) = some e) (s : σ) :
    bs.foldlM (fun s b => (f b).map (g s)) s = .error e := by
  induction bs generalizing s with
  | nil => cases first
  | cons b bs ih =>
      rw [List.foldlM_cons]
      cases out : f b with
      | error e' =>
          rw [List.findSome?_cons, thrown_error out] at first
          rw [← Option.some.inj first]
          rfl
      | ok c =>
          rw [List.findSome?_cons, thrown_ok out] at first
          exact ih first (g s c)

theorem foldlM_ok {f : β → Except ε γ} {g : σ → γ → σ} {bs : List β} {value : β → γ}
    (ok : ∀ b ∈ bs, f b = .ok (value b)) (s : σ) :
    bs.foldlM (fun s b => (f b).map (g s)) s = .ok (bs.foldl (fun s b => g s (value b)) s) := by
  induction bs generalizing s with
  | nil => rfl
  | cons b bs ih =>
      rw [List.forall_mem_cons] at ok
      rw [List.foldlM_cons, ok.1, List.foldl_cons, ← ih ok.2]
      rfl

end Throwing

/-! ### Tables filled from a list -/

section Filling

variable {κ α : Type*} [DecidableEq κ]

/-- Each entry assigned in turn. -/
def assigned (es : List (κ × α)) : Table κ α := es.foldl (fun t e => t.set e.1 e.2) .empty

/-- Each value appended to those of its key. -/
def collected (es : List (κ × α)) : Table κ (List α) :=
  es.foldl (fun t e => t.set e.1 ((t.find e.1).getD [] ++ [e.2])) .empty

/-- The values of a key. -/
def valuesOf (k : κ) (es : List (κ × α)) : List α := (es.filter (·.1 = k)).map Prod.snd

theorem valuesOf_concat (k : κ) (es : List (κ × α)) (e : κ × α) :
    valuesOf k (es ++ [e]) = valuesOf k es ++ if e.1 = k then [e.2] else [] := by
  rw [valuesOf, List.filter_append, List.map_append, valuesOf]
  by_cases same : e.1 = k
  · simp [same]
  · simp [same]

theorem find_assigned (es : List (κ × α)) (k : κ) :
    (assigned es).find k = (valuesOf k es).getLast? := by
  induction es using List.reverseRecOn with
  | nil => rfl
  | append_singleton es e ih =>
      rw [assigned, List.foldl_append, ← assigned, valuesOf_concat]
      simp only [List.foldl_cons, List.foldl_nil, Table.find_set, ih]
      by_cases same : k = e.1
      · simp [same]
      · simp [same, Ne.symm same]

theorem find_collected (es : List (κ × α)) (k : κ) :
    (collected es).find k = if valuesOf k es = [] then none else some (valuesOf k es) := by
  induction es using List.reverseRecOn with
  | nil => rfl
  | append_singleton es e ih =>
      rw [collected, List.foldl_append, ← collected, valuesOf_concat]
      simp only [List.foldl_cons, List.foldl_nil, Table.find_set]
      by_cases same : k = e.1
      · subst same
        have full : ¬ valuesOf e.1 es ++ [e.2] = [] := List.concat_ne_nil _ _
        rw [if_pos rfl, if_pos rfl, if_neg full, ih]
        split
        · rename_i empty
          rw [empty]
          rfl
        · rfl
      · rw [if_neg same, if_neg (Ne.symm same), List.append_nil, ih]

theorem find_collected_bind (es : List (κ × α)) (k : κ) :
    ((collected es).find k).bind List.getLast? = (valuesOf k es).getLast? := by
  rw [find_collected]
  split
  · rename_i empty
    rw [empty]
    rfl
  · rfl

theorem valuesOf_filterMap {β : Type*} (f : α → Option β) (k : κ) {es : List (κ × α)}
    (nodup : (es.map Prod.fst).Nodup) :
    valuesOf k (es.filterMap fun e => (f e.2).map fun b => (e.1, b)) =
      ((es.lookup k).bind f).toList := by
  induction es with
  | nil => rfl
  | cons e es ih =>
      rw [List.map_cons, List.nodup_cons] at nodup
      have rest := ih nodup.2
      rw [valuesOf] at rest ⊢
      rw [List.filterMap_cons, Assoc.lookup_cons]
      by_cases same : k = e.1
      · have gone : es.lookup k = none := by
          rw [List.lookup_eq_none_iff]
          intro other mem
          rw [bne_iff_ne, same]
          exact fun eq => nodup.1 (eq ▸ List.mem_map_of_mem mem)
        rw [gone] at rest
        rw [if_pos same]
        cases out : f e.2 with
        | none => simpa [out] using rest
        | some b => simpa [same, out] using rest
      · cases out : f e.2 with
        | none => simpa [same] using rest
        | some b => simpa [same, Ne.symm same] using rest

/-- A table made of another by a function of its values. -/
theorem find_assigned_filterMap {β : Type*} (f : α → Option β) (t : Table κ α) (k : κ) :
    (assigned (t.entries.filterMap fun e => (f e.2).map fun b => (e.1, b))).find k =
      (t.find k).bind f := by
  rw [find_assigned, valuesOf_filterMap f k t.nodup, Table.find]
  cases (t.entries.lookup k).bind f with
  | none => rfl
  | some b => rfl

end Filling

end NitroServer.Lib
