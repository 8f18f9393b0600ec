/-
`InMemoryRateLimitStore` (`middleware.dart`): a fixed-window count for each key, at most `maxKeys`
of them.

A new key at a full table evicts: expired keys first, then the tenth that expires soonest,
whatever its counts. So a flood of new keys does reset the client that is being limited, once its
window is the oldest (`flood_resets`).

* `size_after_le` — the bound, over every sequence of hits.
* `find_hit_other` — a hit on another key leaves an entry alone whose window is open, unless it
  evicts it.
* `rate_limit_counts` — over every sequence of hits that never evicts a key, each further hit on
  it in its window counts on.
-/

import NitroServer.Bridge.Text
import NitroServer.Lib.Table

namespace NitroServer.Api

open Bridge (DartString text)
open Lib

/-! ### The store -/

structure RateLimitHit where
  count : Nat
  resetAt : Int
deriving DecidableEq, Repr

abbrev Windows := Table DartString RateLimitHit

abbrev Entry := DartString × RateLimitHit

/-- `List.sort` by `resetAt`. It may change the order of entries that expire together. -/
structure ExpirySort where
  sort : List Entry → List Entry
  perm : ∀ l, (sort l).Perm l
  sorted : ∀ l, (sort l).Pairwise fun a b => a.2.resetAt ≤ b.2.resetAt

/-- `InMemoryRateLimitStore`. -/
structure InMemoryRateLimitStore where
  maxKeys : Nat
  positive : 0 < maxKeys
  order : ExpirySort

/-- A call of `hit` at a time. -/
structure Hit where
  now : Int
  key : DartString
  window : Int
deriving DecidableEq, Repr

namespace InMemoryRateLimitStore

variable (store : InMemoryRateLimitStore)

/-- `_windows.length`. -/
def size (windows : Windows) : Nat := windows.entries.length

/-- `_windows.removeWhere` of what has expired. -/
def removeExpired (windows : Windows) (now : Int) : Windows :=
  ⟨windows.entries.filter fun e => decide (now < e.2.resetAt),
    windows.nodup.sublist (List.filter_sublist.map Prod.fst)⟩

/-- The keys that `_evict` removes of a table that is still full. -/
def dropped (live : Windows) : List DartString :=
  let soonest := store.order.sort live.entries
  (soonest.take (max 1 (min (soonest.length / 10) soonest.length))).map Prod.fst

/-- `_evict`. -/
def evict (windows : Windows) (now : Int) : Windows :=
  let live := removeExpired windows now
  if size live < store.maxKeys then live else (store.dropped live).foldl Table.erase live

/-- `hit`: the windows after it, and what it returns. -/
def hit (windows : Windows) (x : Hit) : Windows × RateLimitHit :=
  match windows.find x.key with
  | some current =>
      let next : RateLimitHit :=
        if x.now < current.resetAt then ⟨current.count + 1, current.resetAt⟩
        else ⟨1, x.now + x.window⟩
      (windows.set x.key next, next)
  | none =>
      let windows := if store.maxKeys ≤ size windows then store.evict windows x.now else windows
      let next : RateLimitHit := ⟨1, x.now + x.window⟩
      (windows.set x.key next, next)

/-- The windows after a sequence of hits. -/
def after (hits : List Hit) : Windows :=
  hits.foldl (fun windows x => (store.hit windows x).1) .empty

theorem after_concat (hits : List Hit) (x : Hit) :
    store.after (hits ++ [x]) = (store.hit (store.after hits) x).1 := by
  rw [after, List.foldl_append]
  rfl

/-! ### The bound -/

variable {store} {windows : Windows} {x : Hit} {k : DartString} {entry : RateLimitHit}

theorem size_set_present {v : RateLimitHit} (present : windows.find k = some entry) :
    size (windows.set k v) = size windows := by
  have mem : k ∈ windows.entries.map Prod.fst :=
    List.mem_map_of_mem (Table.find_eq_some_iff.mp present)
  have same := congrArg List.length (Assoc.keys_set_of_mem v mem)
  rwa [List.length_map, List.length_map] at same

theorem size_foldl_erase_le (keys : List DartString) (windows : Windows) :
    size (keys.foldl Table.erase windows) ≤ size windows := by
  induction keys generalizing windows with
  | nil => exact le_rfl
  | cons k keys ih => exact (ih _).trans (Table.length_erase_le windows k)

theorem size_erase_lt {e : Entry} (mem : e ∈ windows.entries) :
    size (windows.erase e.1) < size windows := by
  apply List.length_filter_lt_length_iff_exists.mpr
  exact ⟨e, mem, by simp⟩

/-- Eviction makes room. -/
theorem size_evict_lt (store : InMemoryRateLimitStore) (windows : Windows) (now : Int) :
    size (store.evict windows now) < store.maxKeys ∨
      size (store.evict windows now) < size windows := by
  rw [evict]
  split
  · rename_i room
    exact .inl room
  · rename_i full
    right
    have shrunk : size (removeExpired windows now) ≤ size windows := List.length_filter_le _ _
    have some_ : store.order.sort (removeExpired windows now).entries ≠ [] := by
      intro empty
      have same := (store.order.perm (removeExpired windows now).entries).length_eq
      rw [empty] at same
      have room : size (removeExpired windows now) = 0 := same.symm
      have positive := store.positive
      omega
    obtain ⟨e, rest, shape⟩ := List.exists_cons_of_ne_nil some_
    have mem : e ∈ (removeExpired windows now).entries :=
      (store.order.perm _).subset (shape ▸ List.mem_cons_self)
    have first : ∃ keys, store.dropped (removeExpired windows now) = e.1 :: keys := by
      obtain ⟨n, count⟩ : ∃ n, max 1 (min ((e :: rest).length / 10) (e :: rest).length) = n + 1 :=
        ⟨max 1 (min ((e :: rest).length / 10) (e :: rest).length) - 1, by omega⟩
      exact ⟨(rest.take n).map Prod.fst, by rw [dropped, shape, count]; rfl⟩
    obtain ⟨keys, first⟩ := first
    rw [first, List.foldl_cons]
    exact ((size_foldl_erase_le _ _).trans_lt (size_erase_lt mem)).trans_le shrunk

/-- A hit keeps the bound. -/
theorem size_hit_le (bound : size windows ≤ store.maxKeys) (x : Hit) :
    size (store.hit windows x).1 ≤ store.maxKeys := by
  rw [hit]
  cases found : windows.find x.key with
  | some current => exact (size_set_present found).trans_le bound
  | none =>
      dsimp only
      split
      · have room := size_evict_lt store windows x.now
        have one : size ((store.evict windows x.now).set x.key ⟨1, x.now + x.window⟩) ≤
            size (store.evict windows x.now) + 1 := Table.length_set_le ..
        omega
      · have one : size (windows.set x.key ⟨1, x.now + x.window⟩) ≤ size windows + 1 :=
          Table.length_set_le ..
        omega

theorem size_after_le (store : InMemoryRateLimitStore) (hits : List Hit) :
    size (store.after hits) ≤ store.maxKeys := by
  induction hits using List.reverseRecOn with
  | nil => exact Nat.zero_le _
  | append_singleton hits x ih =>
      rw [after_concat]
      exact size_hit_le ih x

/-! ### Counting on -/

/-- A hit does not evict `k`: a new key finds room once expired keys are gone, or `k` is not in
the tenth that is dropped. -/
def Spares (store : InMemoryRateLimitStore) (windows : Windows) (x : Hit) (k : DartString) : Prop :=
  windows.find x.key = none → store.maxKeys ≤ size windows →
    store.maxKeys ≤ size (removeExpired windows x.now) →
    k ∉ store.dropped (removeExpired windows x.now)

instance : Decidable (Spares store windows x k) :=
  decidable_of_iff (windows.find x.key = none → store.maxKeys ≤ size windows →
      store.maxKeys ≤ size (removeExpired windows x.now) →
      (store.dropped (removeExpired windows x.now)).all (fun j => decide (j ≠ k)) = true) (by
    simp only [Spares, List.all_eq_true, decide_eq_true_eq]
    exact ⟨fun all new full still mem => all new full still k mem rfl,
      fun spares new full still j mem same => spares new full still (same ▸ mem)⟩)

theorem find_removeExpired {now : Int} (open_ : now < entry.resetAt)
    (found : windows.find k = some entry) : (removeExpired windows now).find k = some entry := by
  have mem := Table.find_eq_some_iff.mp found
  exact Table.find_eq_some_iff.mpr (List.mem_filter.mpr ⟨mem, decide_eq_true open_⟩)

/-- A hit on another key leaves an open window alone, unless it evicts it. -/
theorem find_hit_other (other : x.key ≠ k) (open_ : x.now < entry.resetAt)
    (spares : Spares store windows x k) (found : windows.find k = some entry) :
    (store.hit windows x).1.find k = some entry := by
  rw [hit]
  cases at_ : windows.find x.key with
  | some current => rw [Table.find_set, if_neg (Ne.symm other), found]
  | none =>
      dsimp only
      rw [Table.find_set, if_neg (Ne.symm other)]
      split
      · rename_i full
        rw [evict]
        split
        · exact find_removeExpired open_ found
        · rename_i still
          rw [Table.find_foldl_erase, if_neg (spares at_ full (not_lt.mp still)),
            find_removeExpired open_ found]
      · exact found

/-- What a hit returns is the entry it leaves. -/
theorem find_hit (windows : Windows) (x : Hit) :
    (store.hit windows x).1.find x.key = some (store.hit windows x).2 := by
  rw [hit]
  cases windows.find x.key with
  | some current => rw [Table.find_set, if_pos rfl]
  | none => rw [Table.find_set, if_pos rfl]

/-- A hit in an open window. -/
theorem hit_open (open_ : x.now < entry.resetAt) (found : windows.find x.key = some entry) :
    (store.hit windows x).2 = ⟨entry.count + 1, entry.resetAt⟩ := by
  rw [hit, found]
  exact if_pos open_

/-- No hit of the sequence evicts `k`. -/
def NeverEvicts (store : InMemoryRateLimitStore) (hits : List Hit) (k : DartString) : Prop :=
  ∀ n, (_ : n < hits.length) → Spares store (store.after (hits.take n)) hits[n] k

instance (hits : List Hit) : Decidable (NeverEvicts store hits k) :=
  Nat.decidableBallLT hits.length _

theorem NeverEvicts.spares {hits p : List Hit} {z : Hit} (never : NeverEvicts store hits k)
    (front : p ++ [z] <+: hits) : Spares store (store.after p) z k := by
  obtain ⟨rest, rfl⟩ := front
  have spares := never p.length (by simp)
  have before : (p ++ [z] ++ rest).take p.length = p := by simp
  have at_ : (p ++ [z] ++ rest).get ⟨p.length, by simp⟩ = z := by simp
  rw [List.get_eq_getElem] at at_
  rwa [before, at_] at spares

/-- Hits on other keys in between leave the window alone. -/
theorem find_after_others {hits between : List Hit} (found : (store.after hits).find k = some entry)
    (others : ∀ z ∈ between, z.key ≠ k ∧ z.now < entry.resetAt)
    (spared : ∀ p z, p ++ [z] <+: between → Spares store (store.after (hits ++ p)) z k) :
    (store.after (hits ++ between)).find k = some entry := by
  induction between using List.reverseRecOn with
  | nil => rwa [List.append_nil]
  | append_singleton between z ih =>
      rw [List.forall_mem_append, List.forall_mem_singleton] at others
      have before := ih others.1 fun p y front =>
        spared p y (front.trans (List.prefix_append _ _))
      rw [← List.append_assoc, after_concat]
      exact find_hit_other others.2.1 others.2.2 (spared between z (List.prefix_rfl)) before

end InMemoryRateLimitStore

open InMemoryRateLimitStore

/-- Over every sequence of hits, the store holds at most `maxKeys` keys. And when no hit evicts
`k`, a hit on `k` before the end of its window returns one more than the last hit on `k` did, with
the same end, whatever was hit in between. -/
theorem rate_limit_counts (store : InMemoryRateLimitStore) (hits : List Hit) :
    (∀ p, p <+: hits → size (store.after p) ≤ store.maxKeys) ∧
      ∀ k, NeverEvicts store hits k →
        ∀ p x between y, p ++ x :: (between ++ [y]) <+: hits → x.key = k → y.key = k →
          (∀ z ∈ between, z.key ≠ k) →
          (∀ z ∈ between ++ [y], z.now < (store.hit (store.after p) x).2.resetAt) →
          (store.hit (store.after (p ++ x :: between)) y).2 =
            ⟨(store.hit (store.after p) x).2.count + 1,
              (store.hit (store.after p) x).2.resetAt⟩ := by
  refine ⟨fun p _ => size_after_le store p, ?_⟩
  intro k never p x between y front first again others open_
  rw [List.forall_mem_append, List.forall_mem_singleton] at open_
  have split_ : p ++ x :: (between ++ [y]) = p ++ [x] ++ between ++ [y] := by simp
  have split_' : p ++ x :: between = p ++ [x] ++ between := by simp
  have found : (store.after (p ++ [x])).find k = some (store.hit (store.after p) x).2 := by
    rw [after_concat, ← first]
    exact find_hit _ x
  have kept : (store.after (p ++ [x] ++ between)).find k =
      some (store.hit (store.after p) x).2 := by
    apply find_after_others found fun z mem => ⟨others z mem, open_.1 z mem⟩
    intro q z inside
    apply never.spares
    rw [List.append_assoc]
    exact ((List.prefix_append_right_inj _).mpr inside).trans
      ((List.prefix_append _ [y]).trans (split_ ▸ front))
  rw [split_']
  exact hit_open open_.2 (again ▸ kept)

/-- Room for two keys, sorted by insertion. -/
def twoKeys : InMemoryRateLimitStore where
  maxKeys := 2
  positive := by decide
  order :=
    { sort := List.insertionSort fun a b => a.2.resetAt ≤ b.2.resetAt
      perm := List.perm_insertionSort _
      sorted := fun l => by
        have total : Std.Total fun a b : Entry => a.2.resetAt ≤ b.2.resetAt :=
          ⟨fun a b => le_total a.2.resetAt b.2.resetAt⟩
        have trans_ : IsTrans Entry fun a b => a.2.resetAt ≤ b.2.resetAt :=
          ⟨fun a b c => le_trans⟩
        exact List.pairwise_insertionSort _ l }

/-- The oldest window is another client's: it is the one that is evicted. -/
def sparedHits : List Hit :=
  [⟨0, text "b", 60⟩, ⟨1, text "a", 60⟩, ⟨2, text "c", 60⟩, ⟨3, text "a", 60⟩]

theorem rate_limit_counts_spared :
    (twoKeys.hit (twoKeys.after (sparedHits.take 3)) ⟨3, text "a", 60⟩).2 = ⟨2, 61⟩ := by
  have first : (twoKeys.hit (twoKeys.after [⟨0, text "b", 60⟩]) ⟨1, text "a", 60⟩).2 = ⟨1, 61⟩ := by
    decide +kernel
  have counted := (rate_limit_counts twoKeys sparedHits).2 (text "a") (by decide +kernel)
    [⟨0, text "b", 60⟩] ⟨1, text "a", 60⟩ [⟨2, text "c", 60⟩] ⟨3, text "a", 60⟩ (List.prefix_refl _) rfl
    rfl (by decide) (by rw [first]; decide)
  rw [first] at counted
  exact counted

/-- The client that was hit three times has the oldest window: a third key evicts it, and its next
hit counts from one. -/
theorem flood_resets :
    (twoKeys.hit (twoKeys.after [⟨0, text "a", 60⟩, ⟨1, text "a", 60⟩]) ⟨2, text "a", 60⟩).2 = ⟨3, 60⟩ ∧
      (twoKeys.after [⟨0, text "a", 60⟩, ⟨1, text "a", 60⟩, ⟨2, text "a", 60⟩,
        ⟨3, text "b", 60⟩]).entries = [(text "a", ⟨3, 60⟩), (text "b", ⟨1, 63⟩)] ∧
      (twoKeys.hit (twoKeys.after [⟨0, text "a", 60⟩, ⟨1, text "a", 60⟩, ⟨2, text "a", 60⟩,
        ⟨3, text "b", 60⟩, ⟨4, text "c", 60⟩]) ⟨5, text "a", 60⟩).2 = ⟨1, 65⟩ := by
  decide +kernel

end NitroServer.Api
