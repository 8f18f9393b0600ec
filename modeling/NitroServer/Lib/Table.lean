/-
Hash maps: association lists that carry the proof that no key occurs twice.

`Table κ α` is what `std::unordered_map` is for the code: lookup, insert-or-assign, erase
and a loop over the entries. Its order is the order of insertion; nothing here depends on
which order it is.

* `find_set`, `find_erase` — lookups after an update.
* `total_set`, `total_insert`, `total_erase` — a sum over the values, kept up to date;
  `total_countP`: a count is one.
* `foldl_entries` — a loop over the entries that touches only the entry at hand sees each
  entry as it was before the loop.
-/

import NitroServer.Lib.Assoc
import Mathlib

namespace NitroServer.Lib

variable {κ α : Type*} [DecidableEq κ]

namespace Assoc

theorem set_of_absent {k : κ} (v : α) {m : List (κ × α)} (h : k ∉ m.map Prod.fst) :
    set k v m = m ++ [(k, v)] := by
  induction m with
  | nil => rfl
  | cons e m ih =>
      simp only [List.map_cons, List.mem_cons, not_or] at h
      rw [set, if_neg (Ne.symm h.1), ih h.2]
      rfl

theorem keys_set_of_mem {k : κ} (v : α) {m : List (κ × α)} (h : k ∈ m.map Prod.fst) :
    (set k v m).map Prod.fst = m.map Prod.fst := by
  induction m with
  | nil => cases h
  | cons e m ih =>
      rw [set]
      by_cases he : e.1 = k
      · rw [if_pos he, List.map_cons, List.map_cons, he]
      · rw [if_neg he, List.map_cons, List.map_cons,
          ih ((List.mem_cons.mp h).resolve_left (Ne.symm he))]

theorem nodup_set (k : κ) (v : α) {m : List (κ × α)} (h : (m.map Prod.fst).Nodup) :
    ((set k v m).map Prod.fst).Nodup := by
  by_cases hk : k ∈ m.map Prod.fst
  · rwa [keys_set_of_mem v hk]
  · rw [set_of_absent v hk, List.map_append, List.map_singleton]
    exact h.append (List.nodup_singleton k) (by simpa using hk)

theorem nodup_erase (k : κ) {m : List (κ × α)} (h : (m.map Prod.fst).Nodup) :
    ((erase k m).map Prod.fst).Nodup :=
  h.sublist (List.filter_sublist.map Prod.fst)

theorem lookup_eq_some_iff [BEq κ] [LawfulBEq κ] {k : κ} {v : α} {m : List (κ × α)}
    (h : (m.map Prod.fst).Nodup) : m.lookup k = some v ↔ (k, v) ∈ m := by
  induction m with
  | nil => simp
  | cons e m ih =>
      rw [List.map_cons, List.nodup_cons] at h
      rw [lookup_cons, List.mem_cons]
      by_cases hk : k = e.1
      · rw [if_pos hk]
        refine ⟨fun hv => .inl (Prod.ext hk (Option.some.inj hv).symm), ?_⟩
        rintro (he | hm)
        · rw [← he]
        · exact absurd (hk ▸ List.mem_map_of_mem hm) h.1
      · rw [if_neg hk, ih h.2]
        refine ⟨.inr, fun hm => hm.resolve_left fun he => hk ?_⟩
        rw [← he]

theorem sum_set (f : α → ℤ) {k : κ} {old : α} (v : α) {m : List (κ × α)}
    (h : m.lookup k = some old) :
    ((set k v m).map (f ·.2)).sum = (m.map (f ·.2)).sum - f old + f v := by
  induction m with
  | nil => cases h
  | cons e m ih =>
      rw [lookup_cons] at h
      rw [set]
      by_cases he : e.1 = k
      · rw [if_pos he.symm] at h
        cases h
        rw [if_pos he, List.map_cons, List.map_cons, List.sum_cons, List.sum_cons]
        dsimp only
        omega
      · rw [if_neg (Ne.symm he)] at h
        rw [if_neg he, List.map_cons, List.map_cons, List.sum_cons, List.sum_cons, ih h]
        omega

theorem erase_of_absent {k : κ} {m : List (κ × α)} (h : k ∉ m.map Prod.fst) :
    erase k m = m := by
  refine List.filter_eq_self.mpr fun e he => ?_
  rw [decide_eq_true_eq]
  rintro rfl
  exact h (List.mem_map_of_mem he)

theorem sum_erase (f : α → ℤ) {k : κ} {old : α} {m : List (κ × α)}
    (nodup : (m.map Prod.fst).Nodup) (h : m.lookup k = some old) :
    ((erase k m).map (f ·.2)).sum = (m.map (f ·.2)).sum - f old := by
  induction m with
  | nil => cases h
  | cons e m ih =>
      rw [List.map_cons, List.nodup_cons] at nodup
      rw [lookup_cons] at h
      by_cases he : e.1 = k
      · rw [if_pos he.symm] at h
        cases h
        have gone : erase k (e :: m) = m := by
          rw [erase, List.filter_cons_of_neg (by simpa using he)]
          exact erase_of_absent (he ▸ nodup.1)
        rw [gone, List.map_cons, List.sum_cons]
        omega
      · rw [if_neg (Ne.symm he)] at h
        have kept : erase k (e :: m) = e :: erase k m :=
          List.filter_cons_of_pos (by simpa using he)
        rw [kept, List.map_cons, List.map_cons, List.sum_cons, List.sum_cons, ih nodup.2 h]
        omega

end Assoc

/-- A map with one entry for each key. -/
structure Table (κ α : Type*) where
  entries : List (κ × α)
  nodup : (entries.map Prod.fst).Nodup

namespace Table

def empty : Table κ α := ⟨[], List.nodup_nil⟩

def find (t : Table κ α) (k : κ) : Option α := t.entries.lookup k

/-- Insert or assign. -/
def set (t : Table κ α) (k : κ) (v : α) : Table κ α :=
  ⟨Assoc.set k v t.entries, Assoc.nodup_set k v t.nodup⟩

def erase (t : Table κ α) (k : κ) : Table κ α :=
  ⟨Assoc.erase k t.entries, Assoc.nodup_erase k t.nodup⟩

/-- The sum of `f` over the values. -/
def total (f : α → ℤ) (t : Table κ α) : ℤ := (t.entries.map (f ·.2)).sum

variable {t : Table κ α} {k j : κ} {v old : α} {f : α → ℤ}

@[simp] theorem find_empty : (empty : Table κ α).find k = none := rfl

@[simp] theorem find_set : (t.set k v).find j = if j = k then some v else t.find j :=
  Assoc.lookup_set k j v t.entries

@[simp] theorem find_erase : (t.erase k).find j = if j = k then none else t.find j :=
  Assoc.lookup_erase k j t.entries

@[simp] theorem find_foldl_erase (ks : List κ) :
    (ks.foldl erase t).find j = if j ∈ ks then none else t.find j := by
  induction ks generalizing t with
  | nil => simp
  | cons k ks ih =>
      rw [List.foldl_cons, ih, find_erase]
      by_cases mem : j ∈ ks
      · rw [if_pos mem, if_pos (List.mem_cons_of_mem _ mem)]
      · simp [mem]

theorem find_cons {e : κ × α} {m : List (κ × α)} (h : ((e :: m).map Prod.fst).Nodup) :
    (⟨e :: m, h⟩ : Table κ α).find j =
      if j = e.1 then some e.2 else find ⟨m, (List.nodup_cons.mp h).2⟩ j :=
  Assoc.lookup_cons j e m

/-- The same keys with other values. -/
def map {β : Type*} (g : α → β) (t : Table κ α) : Table κ β where
  entries := t.entries.map fun e => (e.1, g e.2)
  nodup := by
    rw [List.map_map]
    exact t.nodup

@[simp] theorem find_map {β : Type*} (g : α → β) : (t.map g).find j = (t.find j).map g :=
  Assoc.lookup_map g j t.entries

theorem find_eq_some_iff : t.find k = some v ↔ (k, v) ∈ t.entries :=
  Assoc.lookup_eq_some_iff t.nodup

theorem find_eq_none_iff : t.find k = none ↔ k ∉ t.entries.map Prod.fst := by
  rw [Option.eq_none_iff_forall_ne_some]
  simp only [ne_eq, find_eq_some_iff, List.mem_map, Prod.exists, exists_and_right, exists_eq_right,
    not_exists]

omit [DecidableEq κ] in
@[simp] theorem total_empty : (empty : Table κ α).total f = 0 := rfl

theorem total_set (h : t.find k = some old) : (t.set k v).total f = t.total f - f old + f v :=
  Assoc.sum_set f v h

theorem total_insert (h : t.find k = none) : (t.set k v).total f = t.total f + f v := by
  simp only [total, set, Assoc.set_of_absent v (find_eq_none_iff.mp h), List.map_append,
    List.sum_append, List.map_singleton, List.sum_singleton]

theorem total_erase (h : t.find k = some old) : (t.erase k).total f = t.total f - f old :=
  Assoc.sum_erase f t.nodup h

omit [DecidableEq κ] in
/-- Counting is a sum. -/
theorem total_countP (p : α → Bool) :
    t.total (fun a => if p a then 1 else 0) = t.entries.countP (p ·.2) := by
  rw [total]
  induction t.entries with
  | nil => rfl
  | cons e m ih =>
      rw [List.map_cons, List.sum_cons, ih, List.countP_cons]
      split <;> simp [add_comm]

theorem length_set_le (t : Table κ α) (k : κ) (v : α) :
    (t.set k v).entries.length ≤ t.entries.length + 1 := by
  change (Assoc.set k v t.entries).length ≤ _
  by_cases hk : k ∈ t.entries.map Prod.fst
  · have same := congrArg List.length (Assoc.keys_set_of_mem v hk)
    rw [List.length_map, List.length_map] at same
    omega
  · rw [Assoc.set_of_absent v hk, List.length_append]
    rfl

theorem length_erase_le (t : Table κ α) (k : κ) :
    (t.erase k).entries.length ≤ t.entries.length :=
  List.length_filter_le ..

theorem erase_sublist (t : Table κ α) (k : κ) : (t.erase k).entries.Sublist t.entries :=
  List.filter_sublist

/-- The first entry is erased. -/
theorem erase_head {e : κ × α} {m : List (κ × α)} (first : t.entries = e :: m) :
    (t.erase e.1).entries = m := by
  have nodup := t.nodup
  rw [first, List.map_cons, List.nodup_cons] at nodup
  change Assoc.erase e.1 t.entries = m
  rw [first, Assoc.erase, List.filter_cons_of_neg (by simp)]
  exact Assoc.erase_of_absent nodup.1

theorem total_nonneg (h : ∀ k v, t.find k = some v → 0 ≤ f v) : 0 ≤ t.total f := by
  refine List.sum_nonneg fun x hx => ?_
  obtain ⟨e, he, rfl⟩ := List.mem_map.mp hx
  exact h e.1 e.2 (find_eq_some_iff.mpr he)

theorem total_le_total {g : α → ℤ} (h : ∀ k v, t.find k = some v → f v ≤ g v) :
    t.total f ≤ t.total g :=
  List.sum_le_sum fun e he => h e.1 e.2 (find_eq_some_iff.mpr he)

/-- The rule for a loop over the entries whose body touches only the entry at hand: the
body finds every entry as it was before the loop. -/
theorem foldl_entries {σ : Type*} {view : σ → Table κ α} {body : σ → κ × α → σ} {I : σ → Prop}
    {s : σ}
    (frame : ∀ s e j, j ≠ e.1 → (view (body s e)).find j = (view s).find j)
    (keeps : ∀ s e, e ∈ t.entries → (view s).find e.1 = some e.2 → I s → I (body s e))
    (same : ∀ e ∈ t.entries, (view s).find e.1 = some e.2) (init : I s) :
    I (t.entries.foldl body s) := by
  have rule : ∀ (m : List (κ × α)) (s : σ), (∀ e ∈ m, e ∈ t.entries) →
      (m.map Prod.fst).Nodup → (∀ e ∈ m, (view s).find e.1 = some e.2) → I s →
      I (m.foldl body s) := by
    intro m
    induction m with
    | nil => exact fun s _ _ _ hI => hI
    | cons e m ih =>
        intro s sub nodup here hI
        rw [List.map_cons, List.nodup_cons] at nodup
        refine ih (body s e) (fun e' he' => sub e' (List.mem_cons_of_mem e he')) nodup.2 ?_
          (keeps s e (sub e List.mem_cons_self) (here e List.mem_cons_self) hI)
        intro e' he'
        rw [frame s e e'.1]
        · exact here e' (List.mem_cons_of_mem e he')
        · intro eq
          exact nodup.1 (eq ▸ List.mem_map_of_mem he')
  exact rule t.entries s (fun _ he => he) t.nodup same init

/-! ### Tables in step -/

/-- Two tables have the same keys, and `R` relates the values. -/
def Rel {β : Type*} (R : α → β → Prop) (t : Table κ α) (u : Table κ β) : Prop :=
  ∀ k, Option.Rel R (t.find k) (u.find k)

namespace Rel

variable {β : Type*} {R : α → β → Prop} {u : Table κ β} {a : α} {b : β}

theorem empty : Rel R (Table.empty : Table κ α) (Table.empty : Table κ β) := fun _ => .none

/-- A change at one key. -/
theorem update {t' : Table κ α} {u' : Table κ β} (h : Rel R t u)
    (left : ∀ j, j ≠ k → t'.find j = t.find j) (right : ∀ j, j ≠ k → u'.find j = u.find j)
    (here : Option.Rel R (t'.find k) (u'.find k)) : Rel R t' u' := by
  intro j
  by_cases hj : j = k
  · rw [hj]
    exact here
  · rw [left j hj, right j hj]
    exact h j

theorem right (h : Rel R t u) (ha : t.find k = some a) : ∃ b, u.find k = some b ∧ R a b := by
  have hk := h k
  rw [ha] at hk
  generalize hu : u.find k = o at hk
  cases hk with
  | some hab => exact ⟨_, rfl, hab⟩

theorem left (h : Rel R t u) (hb : u.find k = some b) : ∃ a, t.find k = some a ∧ R a b := by
  have hk := h k
  rw [hb] at hk
  generalize ht : t.find k = o at hk
  cases hk with
  | some hab => exact ⟨_, rfl, hab⟩

end Rel

end Table

end NitroServer.Lib
