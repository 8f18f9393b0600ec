/-
Pooled JSON writers: `JsonWriter.checkout` and `release` (`json_writer.dart`),
`ResponseContext.jsonWriter` and `copyWith` (`context.dart`), and the ends that
`ServerRunner._deliver` and `_answer` (`server_runner.dart`) put to a response.

A writer goes by the order in which it was made, a response object likewise. The state also
keeps a history, which no function reads: what each build function wrote and into which
writer, which of these writers were given back, and which responses are done with.

* `construct_took` — what a writer holds after `checkout` and the build function.
* `release_gave` — what becomes of a writer that is released.
-/

import NitroServer.Engine.Types
import NitroServer.Lib.Run

namespace NitroServer.Writers

open Engine (Bytes)
open Lib

/-! ### State -/

/-- `JsonWriter`: what its native buffer holds, and its flags. -/
structure JsonWriter where
  bytes : Bytes
  pooled : Bool
  disposed : Bool
deriving DecidableEq, Repr

/-- A `ResponseContext` with a `bodyWriter`; `build` is the call of its build function. -/
structure Response where
  bodyWriter : Nat
  build : Nat
deriving DecidableEq, Repr

/-- A call of a build function: the writer it got and what it wrote. -/
structure Build where
  writer : Nat
  bytes : Bytes
deriving DecidableEq, Repr

/-- The statics of an isolate, its response objects, and the history. -/
structure Isolate where
  writers : List JsonWriter := []
  /-- `_pool`, the last one first. -/
  pool : List Nat := []
  responses : List Response := []
  /-- What the engine was given, for which response; `none` is freed memory. -/
  handed : List (Nat × Option Bytes) := []
  builds : List Build := []
  /-- Builds whose writer was given back. -/
  spent : List Nat := []
  /-- Responses that were delivered, dropped or released. -/
  done : List Nat := []
deriving DecidableEq, Repr

/-! ### The pool -/

/-- `_poolMax`. -/
def poolMax : Nat := 256

/-- `JsonWriter.checkout`. -/
def checkout (s : Isolate) : Nat × Isolate :=
  match s.pool with
  | [] => (s.writers.length, { s with writers := s.writers ++ [⟨[], false, false⟩] })
  | w :: pool =>
      (w, { s with
        pool := pool
        writers := s.writers.modify w fun x => { x with pooled := false } })

/-- `JsonWriter.release`. -/
def release (w : Nat) (s : Isolate) : Isolate :=
  match s.writers[w]? with
  | none => s
  | some x =>
      if x.disposed || x.pooled then s
      else if s.pool.length < poolMax then
        { s with writers := s.writers.set w ⟨[], true, x.disposed⟩, pool := w :: s.pool }
      else { s with writers := s.writers.set w { x with disposed := true } }

/-- The build function writes. -/
def writeTo (w : Nat) (bytes : Bytes) (s : Isolate) : Isolate :=
  { s with writers := s.writers.modify w fun x => { x with bytes := x.bytes ++ bytes } }

/-- What `nativeBufferPointer` and `byteLength` show the engine. -/
def bufferOf (w : Nat) (s : Isolate) : Option Bytes :=
  s.writers[w]?.bind fun x => if x.disposed then none else some x.bytes

/-! ### Acts -/

/-- How `_deliver` ends: the engine reads the writer and it is released, whether or not the
engine still takes the answer; the request is gone and the writer is released unread; a
header is unsafe and another response goes out instead; the runner is closed. -/
inductive Ending where
  | sent | late | rejected | closed
deriving DecidableEq, Repr

inductive Act where
  /-- `ResponseContext.jsonWriter` with a build function that writes `bytes`, and then throws
  or not. -/
  | construct (bytes : Bytes) (throws : Bool)
  | copyWith (r : Nat)
  | deliver (r : Nat) (ending : Ending)
  /-- `bodyWriterOrNull.release()` by the program. -/
  | release (r : Nat)
deriving DecidableEq, Repr

/-- `ResponseContext.jsonWriter`. -/
def construct (bytes : Bytes) (throws : Bool) (s : Isolate) : Isolate :=
  let (w, s) := checkout s
  let s := writeTo w bytes s
  if throws then release w s
  else
    { s with
      responses := s.responses ++ [⟨w, s.builds.length⟩]
      builds := s.builds ++ [⟨w, bytes⟩] }

/-- The writer of a response is released. -/
def giveBack (r : Nat) (response : Response) (s : Isolate) : Isolate :=
  let s := release response.bodyWriter s
  { s with spent := response.build :: s.spent, done := r :: s.done }

/-- `_deliver`, down to `_answer`. -/
def deliver (r : Nat) (response : Response) (ending : Ending) (s : Isolate) : Isolate :=
  match ending with
  | .sent =>
      giveBack r response
        { s with handed := s.handed ++ [(r, bufferOf response.bodyWriter s)] }
  | .late => giveBack r response s
  | .rejected => { s with done := r :: s.done }
  | .closed => { s with done := r :: s.done }

def perform (s : Isolate) : Act → Option Isolate
  | .construct bytes throws => some (construct bytes throws s)
  | .copyWith r =>
      s.responses[r]?.map fun response => { s with responses := s.responses ++ [response] }
  | .deliver r ending => s.responses[r]?.map fun response => deliver r response ending s
  | .release r => s.responses[r]?.map fun response => giveBack r response s

/-! ### What the pool does -/

variable {s t : Isolate} {w r : Nat} {bytes : Bytes} {response : Response}

/-- Nothing but writers and the free list differs. -/
structure SameHistory (s t : Isolate) : Prop where
  responses : t.responses = s.responses
  handed : t.handed = s.handed
  builds : t.builds = s.builds
  spent : t.spent = s.spent
  done : t.done = s.done

/-- The free list holds cleared writers, each once. -/
structure Clean (s : Isolate) : Prop where
  cleared : ∀ w ∈ s.pool, s.writers[w]? = some ⟨[], true, false⟩
  nodup : s.pool.Nodup

/-- A writer that was free has been taken and written. -/
structure Took (s : Isolate) (w : Nat) (bytes : Bytes) (t : Isolate) : Prop where
  free : ∀ x, s.writers[w]? = some x → x.pooled = true
  own : t.writers[w]? = some ⟨bytes, false, false⟩
  others : ∀ v x, v ≠ w → s.writers[v]? = some x → t.writers[v]? = some x
  pool : t.pool = s.pool.erase w
  history : SameHistory s t

theorem construct_took (clean : Clean s) (bytes : Bytes) :
    Took s (checkout s).1 bytes (writeTo (checkout s).1 bytes (checkout s).2) := by
  rw [checkout]
  split
  · rename_i empty
    refine ⟨?_, ?_, ?_, ?_, ⟨rfl, rfl, rfl, rfl, rfl⟩⟩
    · intro x found
      rw [List.getElem?_eq_none le_rfl] at found
      cases found
    · simp [writeTo]
    · intro v x apart found
      have lt := (List.getElem?_eq_some_iff.mp found).1
      simp only [writeTo, List.getElem?_modify, List.getElem?_append_left lt, found,
        if_neg (Ne.symm apart)]
      rfl
    · show s.pool = _
      rw [empty, List.erase_nil]
  · rename_i w pool taken
    have cleared := clean.cleared w (taken ▸ List.mem_cons_self)
    refine ⟨?_, ?_, ?_, ?_, ⟨rfl, rfl, rfl, rfl, rfl⟩⟩
    · intro x found
      rw [cleared] at found
      cases found
      rfl
    · simp [writeTo, cleared]
    · intro v x apart found
      simp only [writeTo, List.getElem?_modify, found, if_neg (Ne.symm apart)]
      rfl
    · show pool = _
      rw [taken, List.erase_cons_head]

/-- A writer in use has been put into the free list, or disposed of. -/
structure Gave (s : Isolate) (w : Nat) (t : Isolate) : Prop where
  own : t.pool = w :: s.pool ∧ t.writers[w]? = some ⟨[], true, false⟩ ∨ t.pool = s.pool
  others : ∀ v, v ≠ w → t.writers[v]? = s.writers[v]?
  history : SameHistory s t

theorem release_gave (found : s.writers[w]? = some ⟨bytes, false, false⟩) : Gave s w (release w s) := by
  have lt := (List.getElem?_eq_some_iff.mp found).1
  rw [release, found]
  simp only [Bool.or_self, Bool.false_eq_true, if_false]
  split
  · refine ⟨Or.inl ⟨rfl, ?_⟩, ?_, ⟨rfl, rfl, rfl, rfl, rfl⟩⟩
    · rw [List.getElem?_set_self lt]
    · intro v apart
      exact List.getElem?_set_ne (Ne.symm apart)
  · refine ⟨Or.inr rfl, ?_, ⟨rfl, rfl, rfl, rfl, rfl⟩⟩
    intro v apart
    exact List.getElem?_set_ne (Ne.symm apart)

theorem Clean.took (clean : Clean s) (took : Took s w bytes t) : Clean t where
  cleared v hv := by
    rw [took.pool] at hv
    have apart : v ≠ w := by
      rintro rfl
      exact clean.nodup.not_mem_erase hv
    exact took.others v _ apart (clean.cleared v (List.mem_of_mem_erase hv))
  nodup := by
    rw [took.pool]
    exact clean.nodup.erase w

theorem Clean.gave (clean : Clean s) (found : s.writers[w]? = some ⟨bytes, false, false⟩)
    (gave : Gave s w t) : Clean t := by
  have absent : w ∉ s.pool := by
    intro pooled
    rw [clean.cleared w pooled] at found
    cases found
  have kept : ∀ v ∈ s.pool, t.writers[v]? = some ⟨[], true, false⟩ := by
    intro v hv
    rw [gave.others v (fun same => absent (same ▸ hv))]
    exact clean.cleared v hv
  rcases gave.own with ⟨pool, own⟩ | pool
  · refine ⟨?_, pool ▸ List.nodup_cons.mpr ⟨absent, clean.nodup⟩⟩
    intro v hv
    rcases List.mem_cons.mp (pool ▸ hv) with rfl | hv
    · exact own
    · exact kept v hv
  · exact ⟨fun v hv => kept v (pool ▸ hv), pool ▸ clean.nodup⟩

end NitroServer.Writers
