/-
The credit of a lane: what could still open its gate.

Only the landing of a keep-alive finishing write opens the gate. Such a write comes
from a request that is still unanswered, from an inbox entry that ends an answer,
from a file being sent, or is outstanding already. `Lane.credit` counts these. It is
never more than one, and nothing when the gate is open or the connection is a
session (`Lane.Sound`): this holds in every run of lanes, whatever the guards and
timers do (`Lane.Sound.reaches`).
-/

import NitroServer.Lane.Machine

namespace NitroServer.Engine

open NitroServer.Lib

/-- The entry ends an answer that may keep the connection. -/
def Pending.credits (e : Pending) : Bool := e.file.isSome || (e.finish && e.keepAlive)

def Lane.credit (l : Lane) : Nat :=
  l.reqs.length + l.queue.countP Pending.credits + l.file.toList.length +
    l.finishing.count true

structure Lane.Sound (l : Lane) : Prop where
  single : l.credit ≤ 1
  idle : l.busy = false → l.credit = 0 ∧ l.queue = []
  session : l.ws = true → l.credit = 0 ∧ l.busy = true
  /-- Nothing is queued behind the entry that ends an answer. -/
  tail : ∀ e ∈ l.queue.dropLast, e.credits = false
  /-- Nor behind a file, or a keep-alive write about to land. -/
  settled : l.file.isSome = true ∨ true ∈ l.finishing → l.queue = []
  /-- A session has no upload. -/
  upload : l.ws = true → l.upload = none

namespace Lane

theorem length_erase (l : Lane) (id : Nat) : (l.erase id).reqs.length ≤ l.reqs.length :=
  List.length_filter_le _ _

/-- A found request is one of the credits. -/
theorem length_erase_lt {l : Lane} {id : Nat} {loc : ReqLoc} (h : l.find id = some loc) :
    (l.erase id).reqs.length < l.reqs.length := by
  obtain ⟨e, he, _⟩ := Option.map_eq_some_iff.mp h
  refine List.length_filter_lt_length_iff_exists.mpr
    ⟨e, List.mem_of_find?_eq_some he, ?_⟩
  simpa using List.find?_some he

theorem length_pos_of_find {l : Lane} {id : Nat} {loc : ReqLoc} (h : l.find id = some loc) :
    0 < l.reqs.length :=
  (Nat.zero_le _).trans_lt (length_erase_lt h)

end Lane

namespace Lane.Sound

variable {l : Lane}

theorem file_none (h : l.file.toList.length = 0) : l.file = none := by
  cases hf : l.file with
  | none => rfl
  | some f => simp [hf] at h

theorem queue_plain (h : l.queue.countP Pending.credits = 0) : ∀ e ∈ l.queue, e.credits = false :=
  fun e he => by simpa using List.countP_eq_zero.mp h e he

/-- A credit shuts the gate of an HTTP connection. -/
theorem of_pos (hs : l.Sound) (h : 0 < l.credit) : l.busy = true ∧ l.ws = false := by
  constructor
  · by_contra gate
    exact h.ne' (hs.idle (by simpa using gate)).1
  · by_contra ws
    exact h.ne' (hs.session (by simpa using ws)).1

/-- An open gate: everything is paid. -/
theorem of_open (hs : l.Sound) (gate : l.busy = false) :
    l.reqs = [] ∧ l.queue = [] ∧ l.file = none ∧ l.finishing.count true = 0 ∧
      l.ws = false := by
  obtain ⟨zero, empty⟩ := hs.idle gate
  simp only [credit, Nat.add_eq_zero_iff] at zero
  obtain ⟨⟨⟨reqs, -⟩, file⟩, fin⟩ := zero
  refine ⟨List.length_eq_zero_iff.mp reqs, empty, file_none file, fin, ?_⟩
  by_contra ws
  simp [(hs.session (by simpa using ws)).2] at gate

/-- An unanswered request is the only credit. -/
theorem of_find (hs : l.Sound) {id : Nat} {loc : ReqLoc} (h : l.find id = some loc) :
    l.reqs.length = 1 ∧ (∀ e ∈ l.queue, e.credits = false) ∧ l.file = none ∧
      l.finishing.count true = 0 ∧ l.busy = true ∧ l.ws = false := by
  have pos := length_pos_of_find h
  have single := hs.single
  have credit := hs.of_pos (by simp only [credit]; omega)
  simp only [Lane.credit] at single
  exact ⟨by omega, queue_plain (by omega), file_none (by omega), by omega, credit⟩

/-- A file being sent is the only credit. -/
theorem of_file (hs : l.Sound) {f : FileSend} (h : l.file = some f) :
    l.reqs = [] ∧ l.queue = [] ∧ l.finishing.count true = 0 ∧ l.busy = true ∧ l.ws = false := by
  have pos : l.file.toList.length = 1 := by simp [h]
  have single := hs.single
  have credit := hs.of_pos (by simp only [credit]; omega)
  simp only [Lane.credit] at single
  exact ⟨List.length_eq_zero_iff.mp (by omega), hs.settled (.inl (by simp [h])),
    by omega, credit⟩

/-- So is a keep-alive write about to land. -/
theorem of_landing (hs : l.Sound) (h : true ∈ l.finishing) :
    l.reqs = [] ∧ l.queue = [] ∧ l.file = none ∧ l.finishing.count true = 1 ∧ l.busy = true ∧
      l.ws = false := by
  have pos := List.count_pos_iff.mpr h
  have single := hs.single
  have credit := hs.of_pos (by simp only [credit]; omega)
  simp only [Lane.credit] at single
  exact ⟨List.length_eq_zero_iff.mp (by omega), hs.settled (.inr h), file_none (by omega),
    by omega, credit⟩

/-- An entry that ends an answer is the only credit, and the last in the inbox. -/
theorem of_credits (hs : l.Sound) {e : Pending} {rest : List Pending} (h : l.queue = e :: rest)
    (credits : e.credits = true) :
    l.reqs = [] ∧ rest = [] ∧ l.file = none ∧ l.finishing.count true = 0 ∧ l.ws = false := by
  have pos : 0 < l.queue.countP Pending.credits := by simp [h, credits]
  have single := hs.single
  have credit := hs.of_pos (by simp only [credit]; omega)
  simp only [Lane.credit] at single
  refine ⟨List.length_eq_zero_iff.mp (by omega), ?_, file_none (by omega), by omega, credit.2⟩
  by_contra more
  have := hs.tail e (by
    rw [h, List.dropLast_cons_of_ne_nil more]
    exact List.mem_cons_self)
  simp [credits] at this

/-- Nothing in the inbox and at most one credit, behind a shut gate. -/
theorem of_shut (queue : l.queue = []) (single : l.credit ≤ 1) (busy : l.busy = true)
    (http : l.ws = false) : l.Sound :=
  ⟨single, by simp [busy], by simp [http], by simp [queue], fun _ => queue, by simp [http]⟩

/-- Nothing to pay. -/
theorem of_paid (reqs : l.reqs = []) (queue : l.queue = []) (file : l.file = none)
    (fin : l.finishing.count true = 0) (session : l.ws = true → l.busy = true ∧ l.upload = none) :
    l.Sound := by
  have zero : l.credit = 0 := by simp [credit, reqs, queue, file, fin]
  exact ⟨by omega, fun _ => ⟨zero, queue⟩, fun h => ⟨zero, (session h).1⟩, by simp [queue],
    fun _ => queue, fun h => (session h).2⟩

/-- One more entry behind entries that end nothing. -/
theorem of_queued {queue : List Pending} {e : Pending} (h : l.queue = queue ++ [e])
    (plain : ∀ e ∈ queue, e.credits = false) (file : l.file = none)
    (fin : l.finishing.count true = 0) (busy : l.busy = true)
    (single : l.reqs.length + [e].countP Pending.credits ≤ 1)
    (session : l.ws = true → l.reqs = [] ∧ e.credits = false ∧ l.upload = none) : l.Sound := by
  have none : queue.countP Pending.credits = 0 :=
    List.countP_eq_zero.mpr fun e he => by simp [plain e he]
  have eq : l.credit = l.reqs.length + [e].countP Pending.credits := by
    simp [credit, h, file, fin, none, List.countP_append]
  refine ⟨eq ▸ single, by simp [busy], fun ws => ?_, by simpa [h] using plain, fun hset => ?_,
    fun ws => (session ws).2.2⟩
  · obtain ⟨reqs, hplain, -⟩ := session ws
    exact ⟨by simp [eq, reqs, hplain], busy⟩
  · rcases hset with hfile | hmem
    · simp [file] at hfile
    · exact absurd hmem (List.count_eq_zero.mp fin)

/-- Letting go of credits keeps a lane sound. -/
theorem shrink (hs : l.Sound) {l' : Lane} (reqs : l'.reqs.length ≤ l.reqs.length)
    (queue : l'.queue <:+ l.queue) (file : l'.file = none ∨ l'.file.isSome = l.file.isSome)
    (fin : l'.finishing.count true ≤ l.finishing.count true)
    (busy : l.busy = true → l'.busy = true) (ws : l'.ws = l.ws)
    (upload : l'.upload = none ∨ l'.upload = l.upload) : l'.Sound := by
  have fileLe : l'.file.toList.length ≤ l.file.toList.length := by
    rcases file with h | h
    · simp [h]
    · simp [Option.length_toList, h]
  have queueLe := queue.sublist.countP_le (p := Pending.credits)
  have le : l'.credit ≤ l.credit := by
    simp only [credit]
    omega
  have empty : l.queue = [] → l'.queue = [] := fun h => List.suffix_nil.mp (h ▸ queue)
  refine ⟨le.trans hs.single, fun h => ?_, fun h => ?_, fun e he => ?_, fun h => empty ?_,
    fun h => upload.elim (fun h' => h') fun h' => h'.trans (hs.upload (ws ▸ h))⟩
  · have := hs.idle (by
      by_contra b
      simp [busy (by simpa using b)] at h)
    exact ⟨by omega, empty this.2⟩
  · have := hs.session (ws ▸ h)
    exact ⟨by omega, busy this.2⟩
  · obtain ⟨t, ht⟩ := queue
    refine hs.tail e ?_
    rw [← ht, List.dropLast_append_of_ne_nil]
    · exact List.mem_append_right _ he
    · rintro hnil
      simp [hnil] at he
  · refine hs.settled (h.imp (fun h => ?_) (fun h => ?_))
    · rcases file with hf | hf
      · simp [hf] at h
      · exact hf ▸ h
    · exact List.count_pos_iff.mp ((List.count_pos_iff.mpr h).trans_le fin)

end Lane.Sound

open Lane in
/-- Every move keeps a lane sound. -/
theorem Lane.Step.sound {l l' : Lane} {m : Move} (h : l.Step m l') (hs : l.Sound) : l'.Sound := by
  cases h with
  | interim | close | skipId =>
      exact ⟨hs.single, hs.idle, hs.session, hs.tail, hs.settled, hs.upload⟩
  | endUpload =>
      exact ⟨hs.single, hs.idle, hs.session, hs.tail, hs.settled, fun _ => rfl⟩
  | @answer p ka gate =>
      obtain ⟨reqs, queue, file, fin, http⟩ := hs.of_open gate.1
      refine .of_shut queue ?_ rfl http
      have := List.count_le_length (a := true) (l := [ka])
      simp only [credit, write, reqs, queue, file, fin, List.count_append, Option.toList]
      simpa using this
  | dispatch gate | dispatchStream gate =>
      obtain ⟨reqs, queue, file, fin, http⟩ := hs.of_open gate.1.1
      exact .of_shut queue (by simp [credit, register, reqs, queue, file, fin]) rfl http
  | refuseUpload gate =>
      obtain ⟨reqs, queue, file, fin, http⟩ := hs.of_open gate.1.1
      exact .of_paid (by simp [reqs, write, register]) queue file (by simp [write, register, fin])
        (fun _ => ⟨rfl, rfl⟩)
  | upgrade gate =>
      obtain ⟨reqs, queue, file, fin, http⟩ := hs.of_open gate.1.1
      exact .of_paid reqs queue file (by simp [write, fin]) (fun _ => ⟨rfl, gate.2⟩)
  | guard | sessionWrite | sessionClose =>
      exact hs.shrink (le_refl _) (List.suffix_refl _) (.inr rfl) (by simp [write])
        (fun _ => rfl) rfl (.inr rfl)
  | leave =>
      exact hs.shrink (Nat.zero_le _) (List.suffix_refl _) (.inl rfl) (le_refl _) (fun h => h) rfl
        (.inr rfl)
  | leaveSession | fileLost =>
      exact hs.shrink (le_refl _) (List.suffix_refl _) (.inl rfl) (le_refl _) (fun h => h) rfl
        (.inr rfl)
  | @abort _ id | @timeOut _ id =>
      exact hs.shrink (length_erase l id) (List.suffix_refl _) (.inr rfl) (by simp [write, erase])
        (fun _ => rfl) rfl (.inl rfl)
  | @silence id =>
      exact hs.shrink (length_erase l id) (List.suffix_refl _) (.inr rfl) (le_refl _)
        (fun h => h) rfl (.inr rfl)
  | flip =>
      exact hs.shrink (by simp) (List.suffix_refl _) (.inr rfl) (le_refl _) (fun h => h) rfl
        (.inr rfl)
  | @push id loc e found _ more =>
      obtain ⟨reqs, plain, file, fin, busy, http⟩ := hs.of_find found
      have plain' : e.credits = false := by
        simp only [Pending.isLast, Bool.or_eq_false_iff] at more
        simp [Pending.credits, more]
      exact .of_queued rfl plain file fin busy (by simp [reqs, plain']) (by simp [http])
  | @pushLast id loc e found =>
      obtain ⟨reqs, plain, file, fin, busy, http⟩ := hs.of_find found
      have gone : (l.erase id).reqs.length = 0 := by
        have := length_erase_lt found
        omega
      refine .of_queued rfl plain file fin busy ?_ (by simp [erase, http])
      have := List.countP_le_length (p := Pending.credits) (l := [e])
      simp only [gone]
      simpa using this
  | drop queue =>
      exact hs.shrink (le_refl _) (queue ▸ List.suffix_cons _ _) (.inr rfl) (le_refl _)
        (fun h => h) rfl (.inr rfl)
  | @drain e rest queue _ _ file =>
      by_cases credits : e.credits = true
      · obtain ⟨reqs, rfl, none, fin, http⟩ := hs.of_credits queue credits
        refine .of_shut rfl ?_ rfl http
        simp only [Pending.credits, file, Option.isSome_none, Bool.false_or,
          Bool.and_eq_true] at credits
        simp [credit, write, reqs, none, fin, credits]
      · refine hs.shrink (le_refl _) (queue ▸ List.suffix_cons _ _) (.inr rfl) ?_
          (fun _ => rfl) rfl (.inr rfl)
        simp only [Pending.credits, file, Option.isSome_none, Bool.false_or,
          Bool.and_eq_true, not_and, Bool.not_eq_true] at credits
        split
        · rename_i finish
          simp [write, credits finish]
        · simp [write]
  | @drainFile e f rest queue _ _ file =>
      obtain ⟨reqs, rfl, none, fin, http⟩ := hs.of_credits queue (by simp [Pending.credits, file])
      exact .of_shut rfl (by simp [credit, write, reqs, fin]) rfl http
  | @landed rest finishing =>
      obtain ⟨reqs, queue, file, fin, busy, http⟩ := hs.of_landing (by simp [finishing])
      refine .of_paid reqs queue file ?_ (by simp [http])
      simpa [finishing] using fin
  | @landedLast ka rest finishing | @lost ka rest finishing =>
      refine hs.shrink (le_refl _) (List.suffix_refl _) (.inr rfl) ?_ (fun h => h) rfl (.inr rfl)
      rw [finishing]
      exact (List.sublist_cons_self ka rest).count_le true
  | fileChunk file =>
      obtain ⟨reqs, queue, fin, busy, http⟩ := hs.of_file file
      exact .of_shut queue (by simp [credit, write, reqs, queue, fin]) rfl http
  | @fileEnd p f file =>
      obtain ⟨reqs, queue, fin, busy, http⟩ := hs.of_file file
      refine .of_shut queue ?_ rfl http
      have := List.count_le_length (a := true) (l := [f.keepAlive])
      simp only [credit, write, reqs, queue, fin, List.count_append, Option.toList]
      simpa using this
  | @sessionPush e ws _ file closes =>
      have plain' : e.credits = false := by
        cases hf : e.finish with
        | false => simp [Pending.credits, file, hf]
        | true => simp [Pending.credits, file, closes hf]
      obtain ⟨zero, busy⟩ := hs.session ws
      simp only [credit, Nat.add_eq_zero_iff] at zero
      obtain ⟨⟨⟨reqs, queue⟩, none⟩, fin⟩ := zero
      have reqs' := List.length_eq_zero_iff.mp reqs
      exact .of_queued rfl (Sound.queue_plain queue) (Sound.file_none none) fin busy
        (by simp [reqs', plain']) (fun _ => ⟨reqs', plain', hs.upload ws⟩)

/-- Every lane a run reaches is sound. -/
theorem Lane.Sound.reaches {good : Lane → Move → Prop} {l l' : Lane}
    (hs : l.Sound) (run : Reaches Lane.Step good l l') : l'.Sound :=
  run.invariant hs fun _ _ _ h _ hstep => hstep.sound h

end NitroServer.Engine
