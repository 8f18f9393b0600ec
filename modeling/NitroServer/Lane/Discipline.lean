/-
Dispatch discipline of an HTTP/1.1 connection.

At most one request of a connection is dispatched and unanswered, whatever happens.
Once an answer that closes has been queued, no later request is dispatched, answered
from a static route or upgraded, as long as the two error answers that may overtake a
keep-alive answer (the busy-buffer guard's 400 and the upload cap's 413) do not:
the write of the keep-alive answer would land first and open the gate again.

* `Lane.Shut` — no landing can open the gate: the connection closes, or the oldest
  finishing write does not keep it, or nothing that keeps it is left.
* `Lane.Step.shut` — once shut, always shut.
* `dispatch_discipline` — the discipline, for every run of the reactor.
* `late_refusal_reopens` — a run in which a 413 overtakes, and a request is
  dispatched after it.
-/

import NitroServer.Lane.Refine

namespace NitroServer.Engine

open NitroServer.Lib

/-! ### Marks that close, marks that start -/

/-- An answer that does not keep the connection is queued or written. -/
def Mark.closes : Mark → Bool
  | .finish keepAlive => !keepAlive
  | .queued e => !e.keepAlive
  | _ => false

/-- A whole answer of a static route. -/
def Piece.isFixed (p : Piece) : Bool := p.origin == .fixed && p.part == .whole

/-- A request is dispatched, answered from a static route or upgraded. -/
def Mark.starts : Mark → Bool
  | .dispatch _ | .upgrade => true
  | .piece p => p.isFixed
  | _ => false

def Ev.closes (id : Nat) : Ev → Bool
  | .push e => e.connId == id && !e.keepAlive
  | .write _ keepAlive finish _ => finish && !keepAlive
  | _ => false

def Ev.starts : Ev → Bool
  | .dispatch _ | .upgrade => true
  | .write payload _ _ _ => payload.any Piece.isFixed
  | _ => false

theorem Ev.closes_marks {id : Nat} {ev : Ev} (h : ev.closes id = true) :
    ∃ m ∈ ev.marks id, m.closes = true := by
  cases ev with
  | push e =>
      simp only [Ev.closes, Bool.and_eq_true, beq_iff_eq] at h
      exact ⟨.queued e, by simp [Ev.marks, h.1], h.2⟩
  | write payload keepAlive finish level =>
      simp only [Ev.closes, Bool.and_eq_true] at h
      exact ⟨.finish keepAlive, by simp [Ev.marks, h.1], h.2⟩
  | _ => simp [Ev.closes] at h

theorem Ev.starts_marks {id : Nat} {ev : Ev} (h : ev.starts = true) :
    ∃ m ∈ ev.marks id, m.starts = true := by
  cases ev with
  | dispatch req => exact ⟨.dispatch req, by simp [Ev.marks], rfl⟩
  | upgrade => exact ⟨.upgrade, by simp [Ev.marks], rfl⟩
  | write payload keepAlive finish level =>
      obtain ⟨p, hp, fixed⟩ := List.any_eq_true.mp h
      exact ⟨.piece p, by simp [Ev.marks, hp], fixed⟩
  | _ => simp [Ev.starts] at h

/-! ### A gate that stays shut -/

/-- The entry ends an answer that does not keep the connection. -/
def Pending.parts (e : Pending) : Prop :=
  (e.finish = true → e.keepAlive = false) ∧ ∀ f, e.file = some f → f.keepAlive = false

namespace Lane

/-- Nothing that keeps the connection is left. -/
structure Parting (l : Lane) : Prop where
  reqs : ∀ e ∈ l.reqs, e.2.keepAlive = false
  queue : ∀ e ∈ l.queue, e.parts
  file : ∀ f, l.file = some f → f.keepAlive = false
  finishing : true ∉ l.finishing

/-- No landing can open the gate. -/
def Shut (l : Lane) : Prop :=
  l.closing = true ∨
    l.busy = true ∧ (l.finishing.head? = some false ∨ l.Parting)

theorem Shut.not_open {l : Lane} (h : l.Shut) : ¬ l.open := by
  rintro ⟨busy, closing⟩
  rcases h with h | ⟨h, -⟩
  · simp [closing] at h
  · simp [busy] at h

theorem mem_of_find {l : Lane} {id : Nat} {loc : ReqLoc} (h : l.find id = some loc) :
    ∃ e ∈ l.reqs, e.2 = loc := by
  obtain ⟨e, he, heq⟩ := Option.map_eq_some_iff.mp h
  exact ⟨e, List.mem_of_find?_eq_some he, heq⟩

theorem Parting.erase {l : Lane} (h : l.Parting) (id : Nat) : (l.erase id).Parting :=
  ⟨fun e he => h.reqs e (List.mem_filter.mp he).1, h.queue, h.file, h.finishing⟩

/-- A write that does not keep the connection. -/
theorem Parting.write {l : Lane} (h : l.Parting) (ps : List Piece) {fin : Option Bool}
    (parts : fin ≠ some true) : (l.write ps fin).Parting := by
  refine ⟨h.reqs, h.queue, h.file, ?_⟩
  simp only [Lane.write, List.mem_append, Option.mem_toList, not_or]
  exact ⟨h.finishing, parts⟩

/-- A write behind what shut the gate. -/
theorem Shut.write {l l' : Lane} (h : l.Shut) {ps : List Piece} {fin : Option Bool}
    (closing : l'.closing = l.closing) (finishing : l'.finishing = l.finishing)
    (parting : l.Parting → l'.Parting ∧ fin ≠ some true) : (l'.write ps fin).Shut := by
  rcases h with h | ⟨-, h | h⟩
  · exact .inl (closing.trans h)
  · refine .inr ⟨rfl, .inl ?_⟩
    simp only [Lane.write, finishing, List.head?_append, h, Option.some_or]
  · exact .inr ⟨rfl, .inr ((parting h).1.write ps (parting h).2)⟩

/-- Shut for the same reason. -/
theorem Shut.congr {l l' : Lane} (h : l.Shut) (closing : l'.closing = l.closing)
    (busy : l'.busy = l.busy) (finishing : l'.finishing = l.finishing)
    (parting : l.Parting → l'.Parting) : l'.Shut := by
  unfold Shut
  rw [closing, busy, finishing]
  exact h.imp_right fun h => ⟨h.1, h.2.imp_right parting⟩

/-- What an answer call queues keeps the connection only if its request does. -/
theorem Parting.shaped {l : Lane} (h : l.Parting) {id : Nat} {loc : ReqLoc} {e : Pending}
    (found : l.find id = some loc) (shaped : e.shaped id loc = true) : e.parts := by
  obtain ⟨q, hq, rfl⟩ := mem_of_find found
  have ka := h.reqs q hq
  simp only [Pending.shaped, Bool.and_eq_true, beq_iff_eq] at shaped
  obtain ⟨⟨-, hka⟩, shape⟩ := shaped
  refine ⟨fun _ => hka.trans ka, fun f hf => ?_⟩
  rw [hf] at shape
  cases hp : e.piece.part with
  | head =>
      simp only [hp, Bool.and_eq_true, beq_iff_eq] at shape
      exact shape.2.trans ka
  | _ => simp [hp] at shape

theorem Parting.push {l : Lane} (h : l.Parting) {e : Pending} (parts : e.parts)
    (marks : List Mark) : ({ l with queue := l.queue ++ [e], marks } : Lane).Parting := by
  refine ⟨h.reqs, fun e' he' => ?_, h.file, h.finishing⟩
  rcases List.mem_append.mp he' with he' | he'
  · exact h.queue e' he'
  · exact List.mem_singleton.mp he' ▸ parts

theorem Parting.drain {l : Lane} (h : l.Parting) {e : Pending} {rest : List Pending}
    (queue : l.queue = e :: rest) : ({ l with queue := rest } : Lane).Parting :=
  ⟨h.reqs, fun e' he' => h.queue e' (queue ▸ List.mem_cons_of_mem _ he'), h.file, h.finishing⟩

/-- Once shut, always shut. -/
theorem Step.shut {l l' : Lane} {m : Move} (hstep : l.Step m l') (h : l.Shut) : l'.Shut := by
  cases hstep with
  | interim gate | dispatch gate | dispatchStream gate | refuseUpload gate | upgrade gate =>
      exact absurd gate.1 h.not_open
  | answer gate => exact absurd gate h.not_open
  | endUpload | skipId => exact h.congr rfl rfl rfl fun h => ⟨h.reqs, h.queue, h.file, h.finishing⟩
  | close | silence | landedLast | lost | fileLost => exact .inl rfl
  | leave => exact h.congr rfl rfl rfl fun h => ⟨by simp, h.queue, by simp, h.finishing⟩
  | leaveSession => exact h.congr rfl rfl rfl fun h => ⟨h.reqs, h.queue, by simp, h.finishing⟩
  | guard | sessionWrite | sessionClose => exact h.write rfl rfl fun h => ⟨h, by simp⟩
  | abort =>
      refine h.write rfl rfl fun h => ⟨Parting.erase ?_ _, by simp⟩
      exact ⟨h.reqs, h.queue, h.file, h.finishing⟩
  | timeOut =>
      refine h.write rfl rfl fun h => ⟨Parting.erase ?_ _, by simp⟩
      exact ⟨h.reqs, h.queue, h.file, h.finishing⟩
  | flip =>
      refine h.congr rfl rfl rfl fun h => ⟨fun e he => ?_, h.queue, h.file, h.finishing⟩
      obtain ⟨e', he', rfl⟩ := List.mem_map.mp he
      split
      · rfl
      · exact h.reqs e' he'
  | push found shaped =>
      exact h.congr rfl rfl rfl fun h => h.push (h.shaped found shaped) _
  | pushLast found shaped =>
      exact h.congr rfl rfl rfl fun h => (h.erase _).push (h.shaped found shaped) _
  | drop queue => exact h.congr rfl rfl rfl fun h => h.drain queue
  | @drain e rest queue _ _ file =>
      refine h.write rfl rfl fun h => ⟨h.drain queue, ?_⟩
      have parts := h.queue e (queue ▸ List.mem_cons_self)
      split
      · rename_i fin
        simp [parts.1 fin]
      · simp
  | @drainFile e f rest queue _ _ file =>
      refine h.write rfl rfl fun h =>
        ⟨⟨h.reqs, (h.drain queue).queue, fun f' hf' => ?_, h.finishing⟩, by simp⟩
      obtain rfl : f = f' := by simpa using hf'
      exact (h.queue e (queue ▸ List.mem_cons_self)).2 f file
  | landed finishing gate =>
      rcases h with h | ⟨-, h | h⟩
      · simp [gate] at h
      · simp [finishing] at h
      · exact absurd (finishing ▸ List.mem_cons_self) h.finishing
  | @fileChunk p f offset remaining file =>
      refine h.write rfl rfl fun h => ⟨⟨h.reqs, h.queue, fun f' hf' => ?_, h.finishing⟩, by simp⟩
      obtain rfl : _ = f' := by simpa using hf'
      exact h.file f file
  | @fileEnd p f file =>
      exact h.write rfl rfl fun h =>
        ⟨⟨h.reqs, h.queue, by simp, h.finishing⟩, by simp [h.file f file]⟩
  | sessionPush ws part file closes =>
      exact h.congr rfl rfl rfl fun h => h.push ⟨closes, by simp [file]⟩ _

end Lane

/-! ### The discipline of a lane -/

theorem Pending.parts_of_plain {e : Pending} (h : e.credits = false) : e.parts := by
  simp only [Pending.credits, Bool.or_eq_false_iff, Bool.and_eq_false_iff] at h
  refine ⟨fun fin => by simpa [fin] using h.2, fun f hf => ?_⟩
  simp [hf] at h

/-- An entry put into the inbox is a piece of a handler's answer or of a session. -/
theorem Pending.shaped_fixed {e : Pending} {id : Nat} {loc : ReqLoc}
    (shaped : e.shaped id loc = true) : e.piece.isFixed = false := by
  simp only [Pending.shaped, Bool.and_eq_true, beq_iff_eq] at shaped
  simp [Piece.isFixed, shaped.1.1.1]

namespace Lane

/-- What admits the error answers that may overtake: the oldest finishing write does
not keep the connection. -/
def MayRefuse (l : Lane) : Move → Prop
  | .guard _ | .abort _ => l.finishing.head? ≠ some true
  | _ => True

theorem Sound.parting_of_open {l : Lane} (hs : l.Sound) (gate : l.busy = false) : l.Parting := by
  obtain ⟨reqs, queue, file, fin, -⟩ := hs.of_open gate
  exact ⟨by simp [reqs], by simp [queue], by simp [file], List.count_eq_zero.mp fin⟩

theorem Sound.parting_of_session {l : Lane} (hs : l.Sound) (ws : l.ws = true) : l.Parting := by
  obtain ⟨zero, -⟩ := hs.session ws
  simp only [credit, Nat.add_eq_zero_iff] at zero
  obtain ⟨⟨⟨reqs, queue⟩, file⟩, fin⟩ := zero
  refine ⟨by simp [List.length_eq_zero_iff.mp reqs], fun e he => ?_, ?_, List.count_eq_zero.mp fin⟩
  · exact Pending.parts_of_plain (Sound.queue_plain queue e he)
  · simp [Sound.file_none file]

/-- A request told to close is the last hope of its lane. -/
theorem Sound.parting_of_find {l : Lane} (hs : l.Sound) {id : Nat} {loc : ReqLoc}
    (found : l.find id = some loc) (closes : loc.keepAlive = false) : l.Parting := by
  obtain ⟨one, plain, file, fin, -⟩ := hs.of_find found
  obtain ⟨q, hq, rfl⟩ := mem_of_find found
  obtain ⟨q', hq'⟩ := List.length_eq_one_iff.mp one
  obtain rfl : q = q' := by simpa [hq'] using hq
  exact ⟨by simpa [hq'] using closes, fun e he => Pending.parts_of_plain (plain e he),
    by simp [file], List.count_eq_zero.mp fin⟩

/-- A closing write that no keep-alive one is ahead of. -/
theorem shut_of_write {l : Lane} (ps : List Piece) (first : l.finishing.head? ≠ some true) :
    (l.write ps (some false)).Shut := by
  refine .inr ⟨rfl, .inl ?_⟩
  simp only [write, List.head?_append]
  cases h : l.finishing.head? with
  | none => rfl
  | some ka =>
      cases ka with
      | true => exact absurd h first
      | false => rfl

structure Disciplined (l : Lane) : Prop where
  sound : l.Sound
  shut : ∀ m ∈ l.marks, m.closes = true → l.Shut
  queue : ∀ e ∈ l.queue, e.piece.isFixed = false ∧ (e.keepAlive = false → l.Shut)
  ordered : l.marks.Pairwise fun a b => a.closes = true → b.starts = false

/-- A move adds marks: whatever starts does so at an open gate, whatever closes shuts it. -/
theorem Disciplined.extend {l l' : Lane} {m : Move} {new : List Mark} (hd : l.Disciplined)
    (hstep : l.Step m l') (marks : l'.marks = l.marks ++ new)
    (ordered : new.Pairwise fun a b => a.closes = true → b.starts = false)
    (starts : ∀ b ∈ new, b.starts = true → l.open)
    (shut : ∀ b ∈ new, b.closes = true → l'.Shut)
    (queue : ∀ e ∈ l'.queue,
      e ∈ l.queue ∨ e.piece.isFixed = false ∧ (e.keepAlive = false → l'.Shut)) :
    l'.Disciplined := by
  refine ⟨hstep.sound hd.sound, fun b hb hc => ?_, fun e he => ?_, ?_⟩
  · rw [marks] at hb
    rcases List.mem_append.mp hb with hb | hb
    · exact hstep.shut (hd.shut b hb hc)
    · exact shut b hb hc
  · rcases queue e he with he | h
    · exact ⟨(hd.queue e he).1, fun hka => hstep.shut ((hd.queue e he).2 hka)⟩
    · exact h
  · rw [marks, List.pairwise_append]
    refine ⟨hd.ordered, ordered, fun a ha b hb hc => ?_⟩
    by_contra hs
    exact (hd.shut a ha hc).not_open (starts b hb (by simpa using hs))

/-- A move that marks nothing and queues nothing. -/
theorem Disciplined.silent {l l' : Lane} {m : Move} (hd : l.Disciplined) (hstep : l.Step m l')
    (marks : l'.marks = l.marks) (queue : ∀ e ∈ l'.queue, e ∈ l.queue) : l'.Disciplined :=
  hd.extend hstep (by simp [marks]) .nil (by simp) (by simp) fun e he => .inl (queue e he)

/-- A move that writes pieces, none of a static route. -/
theorem Disciplined.wrote {l l' : Lane} {m : Move} (hd : l.Disciplined) (hstep : l.Step m l')
    {ps : List Piece} {fin : Option Bool}
    (marks : l'.marks = l.marks ++ (ps.map .piece ++ fin.toList.map .finish))
    (plain : ∀ p ∈ ps, p.isFixed = false) (shut : fin = some false → l'.Shut)
    (queue : ∀ e ∈ l'.queue, e ∈ l.queue) : l'.Disciplined := by
  have dull : ∀ b ∈ ps.map Mark.piece ++ fin.toList.map Mark.finish, b.starts = false := by
    intro b hb
    rcases List.mem_append.mp hb with hb | hb
    · obtain ⟨p, hp, rfl⟩ := List.mem_map.mp hb
      exact plain p hp
    · obtain ⟨ka, -, rfl⟩ := List.mem_map.mp hb
      rfl
  refine hd.extend hstep marks (List.pairwise_of_forall_mem_list fun a _ b hb _ => dull b hb)
    (fun b hb hs => by simp [dull b hb] at hs) (fun b hb hc => ?_) fun e he => .inl (queue e he)
  rcases List.mem_append.mp hb with hb | hb
  · obtain ⟨p, -, rfl⟩ := List.mem_map.mp hb
    simp [Mark.closes] at hc
  · obtain ⟨ka, hka, rfl⟩ := List.mem_map.mp hb
    simp only [Mark.closes, Bool.not_eq_true'] at hc
    exact shut (hc ▸ Option.mem_toList.mp hka)

/-- A move that queues an answer entry. -/
theorem Disciplined.queued {l l' : Lane} {m : Move} {e : Pending} (hd : l.Disciplined)
    (hstep : l.Step m l') (marks : l'.marks = l.marks ++ [.queued e])
    (queue : l'.queue = l.queue ++ [e]) (plain : e.piece.isFixed = false)
    (shut : e.keepAlive = false → l.Shut) : l'.Disciplined := by
  refine hd.extend hstep marks (List.pairwise_singleton _ _) (by simp [Mark.starts]) ?_ ?_
  · simp only [List.mem_singleton, forall_eq, Mark.closes, Bool.not_eq_true']
    exact fun hka => hstep.shut (shut hka)
  · intro e' he'
    rw [queue] at he'
    rcases List.mem_append.mp he' with he' | he'
    · exact .inl he'
    · obtain rfl := List.mem_singleton.mp he'
      exact .inr ⟨plain, fun hka => hstep.shut (shut hka)⟩

/-- Every admitted move keeps the discipline. -/
theorem Step.disciplined {l l' : Lane} {m : Move} (hstep : l.Step m l') (hd : l.Disciplined)
    (hok : l.MayRefuse m) : l'.Disciplined := by
  have whole : ∀ {p : Piece} {o : Origin}, p.origin = o → o ≠ .fixed → p.isFixed = false := by
    rintro p o rfl ho
    simp [Piece.isFixed, ho]
  have piece : ∀ {p : Piece} {pt : Part}, p.part = pt → pt ≠ .whole → p.isFixed = false := by
    rintro p pt rfl hp
    simp [Piece.isFixed, hp]
  cases hstep with
  | endUpload => exact hd.silent .endUpload rfl fun _ he => he
  | close => exact hd.silent .close rfl fun _ he => he
  | leave http shut => exact hd.silent (.leave http shut) rfl fun _ he => he
  | leaveSession ws shut => exact hd.silent (.leaveSession ws shut) rfl fun _ he => he
  | silence inFlight => exact hd.silent (.silence inFlight) rfl fun _ he => he
  | flip => exact hd.silent .flip rfl fun _ he => he
  | drop queue shut =>
      exact hd.silent (.drop queue shut) rfl fun e he => queue ▸ List.mem_cons_of_mem _ he
  | landed fin gate => exact hd.silent (.landed fin gate) rfl fun _ he => he
  | landedLast fin shut => exact hd.silent (.landedLast fin shut) rfl fun _ he => he
  | lost fin => exact hd.silent (.lost fin) rfl fun _ he => he
  | fileLost => exact hd.silent .fileLost rfl fun _ he => he
  | skipId => exact hd.silent .skipId rfl fun _ he => he
  | @interim p gate part =>
      exact hd.extend (.interim gate part) rfl (List.pairwise_singleton _ _)
        (by simp [Mark.starts, piece part]) (by simp [Mark.closes]) fun e he => .inl he
  | @answer p ka gate part origin opens =>
      refine hd.extend (.answer gate part origin opens)
        (show _ = l.marks ++ [.piece p, .finish ka] from rfl)
        (by simp [Mark.closes]) (fun _ _ _ => gate) (fun b hb hc => ?_) fun e he => .inl he
      have parting := hd.sound.parting_of_open gate.1
      simp only [List.mem_cons, List.not_mem_nil, or_false] at hb
      rcases hb with rfl | rfl
      · simp [Mark.closes] at hc
      · simp only [Mark.closes, Bool.not_eq_true'] at hc
        exact .inr ⟨rfl, .inr (parting.write _ (by simp [hc]))⟩
  | dispatch gate =>
      exact hd.extend (.dispatch gate) rfl (List.pairwise_singleton _ _) (fun _ _ _ => gate.1)
        (by simp [Mark.closes]) fun e he => .inl he
  | dispatchStream gate =>
      exact hd.extend (.dispatchStream gate) rfl (List.pairwise_singleton _ _)
        (fun _ _ _ => gate.1) (by simp [Mark.closes]) fun e he => .inl he
  | @refuseUpload p gate part origin opens =>
      refine hd.extend (.refuseUpload gate part origin opens)
        (show _ = l.marks ++ [.dispatch l.nextId, .piece p, .finish false] by
          simp [write, register]) ?_ (fun _ _ _ => gate.1) (fun _ _ _ => ?_) fun e he => .inl he
      · simp [Mark.closes]
      · have parting := hd.sound.parting_of_open gate.1.1
        refine .inr ⟨rfl, .inr (Parting.write ?_ _ (by simp))⟩
        exact ⟨by simpa [register] using parting.reqs, parting.queue, parting.file,
          parting.finishing⟩
  | @upgrade p gate part origin opens =>
      exact hd.extend (.upgrade gate part origin opens)
        (show _ = l.marks ++ [.upgrade, .piece p] by simp [write]) (by simp [Mark.closes]) (fun _ _ _ => gate.1) (by simp [Mark.closes])
        fun e he => .inl he
  | guard busy http part origin opens =>
      exact hd.wrote (.guard busy http part origin opens) rfl (by simp [whole origin])
        (fun _ => shut_of_write _ hok) fun _ he => he
  | abort upload part origin opens =>
      exact hd.wrote (.abort upload part origin opens) rfl (by simp [whole origin])
        (fun _ => shut_of_write _ hok) fun _ he => he
  | timeOut inFlight found part origin opens =>
      refine hd.wrote (.timeOut inFlight found part origin opens) rfl (by simp [whole origin])
        (fun _ => shut_of_write _ fun first => ?_) fun _ he => he
      obtain ⟨loc, hloc⟩ := Option.isSome_iff_exists.mp found
      have fin := (hd.sound.of_find hloc).2.2.2.1
      exact List.count_eq_zero.mp fin (List.mem_of_mem_head? first)
  | @push id loc e found shaped more =>
      refine hd.queued (.push found shaped more) rfl rfl (Pending.shaped_fixed shaped) fun hka => ?_
      obtain ⟨-, -, -, -, busy, -⟩ := hd.sound.of_find found
      refine .inr ⟨busy, .inr (hd.sound.parting_of_find found ?_)⟩
      simp only [Pending.shaped, Bool.and_eq_true, beq_iff_eq] at shaped
      exact shaped.1.2 ▸ hka
  | @pushLast id loc e found shaped last =>
      refine hd.queued (.pushLast found shaped last) rfl rfl (Pending.shaped_fixed shaped)
        fun hka => ?_
      obtain ⟨-, -, -, -, busy, -⟩ := hd.sound.of_find found
      refine .inr ⟨busy, .inr (hd.sound.parting_of_find found ?_)⟩
      simp only [Pending.shaped, Bool.and_eq_true, beq_iff_eq] at shaped
      exact shaped.1.2 ▸ hka
  | @drain e rest queue live gate file =>
      have he : e ∈ l.queue := queue ▸ List.mem_cons_self
      have hstep := Step.drain queue live gate file
      refine hd.wrote hstep rfl (by simpa using (hd.queue e he).1) (fun fin => hstep.shut ?_)
        fun e' he' => queue ▸ List.mem_cons_of_mem _ he'
      refine (hd.queue e he).2 ?_
      split at fin
      · simpa using fin
      · simp at fin
  | @drainFile e f rest queue live gate file =>
      have he : e ∈ l.queue := queue ▸ List.mem_cons_self
      exact hd.wrote (.drainFile queue live gate file) rfl (by simpa using (hd.queue e he).1)
        (by simp) fun e' he' => queue ▸ List.mem_cons_of_mem _ he'
  | fileChunk file gate origin part =>
      exact hd.wrote (.fileChunk file gate origin part) rfl (by simp [piece part]) (by simp)
        fun _ he => he
  | @fileEnd p f file gate origin part =>
      have hstep := Step.fileEnd file gate origin part
      refine hd.wrote hstep rfl (by simp [piece part]) (fun fin => hstep.shut ?_) fun _ he => he
      obtain ⟨reqs, queue, fins, busy, -⟩ := hd.sound.of_file file
      refine .inr ⟨busy, .inr ⟨by simp [reqs], by simp [queue], ?_, List.count_eq_zero.mp fins⟩⟩
      simpa [file] using fin
  | sessionWrite ws part =>
      exact hd.wrote (.sessionWrite ws part) rfl (by simp [piece part]) (by simp) fun _ he => he
  | @sessionClose p ws part =>
      have hstep := Step.sessionClose ws part
      exact hd.wrote hstep rfl (by simp [piece part])
        (fun _ => hstep.shut (.inr ⟨(hd.sound.session ws).2, .inr (hd.sound.parting_of_session ws)⟩))
        fun _ he => he
  | sessionPush ws part file closes =>
      exact hd.queued (.sessionPush ws part file closes) rfl rfl (piece part (by decide))
        fun _ => .inr ⟨(hd.sound.session ws).2, .inr (hd.sound.parting_of_session ws)⟩

end Lane

/-! ### The reactor's discipline -/

/-- What a read may do: a 400 of the busy-buffer guard or a 413 of the upload cap comes
while no keep-alive answer is the next to land. -/
def refusesInTurn (env : Env) (r : Reactor) : Act → Bool
  | .read data =>
      !((r.received data).busyBufferFull env || r.uploadOverCap data) ||
        (finishingOf r.conn.writes).head? != some true
  | _ => true

theorem refusesInTurn_causes (env : Env) {r : Reactor} {a : Act}
    (h : refusesInTurn env r a = true) : Causes env Lane.MayRefuse r a where
  guard data p ha full := by
    subst ha
    simpa [refusesInTurn, full, Lane.MayRefuse, Reactor.lane] using h
  abort data p ha beyond := by
    subst ha
    simpa [refusesInTurn, beyond, Lane.MayRefuse, Reactor.lane] using h
  timeOut _ _ _ _ _ _ _ _ := trivial
  opening _ _ _ _ := trivial
  chunk _ _ _ _ _ _ := trivial

/-- Marks in order are events in order. -/
theorem pairwise_of_marks {id : Nat} {trace : List Ev}
    (h : (trace.flatMap (Ev.marks id)).Pairwise fun a b => a.closes = true → b.starts = false) :
    trace.Pairwise fun a b => a.closes id = true → b.starts = false := by
  refine (List.pairwise_flatMap.mp h).2.imp fun {a b} hab hc => ?_
  by_contra hs
  obtain ⟨m, hm, closes⟩ := Ev.closes_marks hc
  have marks : ∃ m ∈ b.marks id, m.starts = true := Ev.starts_marks (by simpa using hs)
  obtain ⟨m', hm', starts⟩ := marks
  simp [hab m hm m' hm' closes] at starts

/-- Per-connection dispatch discipline: at most one request is dispatched and
unanswered, and after an answer that closes nothing is started. -/
theorem dispatch_discipline (env : Env) {r t : Reactor} (fresh : Fresh r)
    (run : Reaches (stepOf (step env)) (fun r a => refusesInTurn env r a = true) r t) :
    t.ownReqs.length ≤ 1 ∧
      t.trace.Pairwise fun a b => a.closes t.conn.id = true → b.starts = false := by
  have plain : ∀ l m, Move.plain m = true → Lane.MayRefuse l m := by
    intro l m plain
    cases m <;> trivial
  have kept : ∀ l m, Move.keeps m = true → Lane.MayRefuse l m := by
    intro l m keeps
    cases m <;> trivial
  obtain ⟨lanes, wf⟩ :=
    run_lane env ⟨plain, fun _ _ _ => trivial⟩ fresh.wf (fun _ _ _ h _ => refusesInTurn_causes env h) kept run
  have start : r.lane.Disciplined :=
    ⟨fresh.wf.sound, by simp [fresh.lane], by simp [fresh.lane], by simp [fresh.lane]⟩
  have kept : t.lane.Disciplined :=
    lanes.invariant start fun _ _ _ hd hok hstep => hstep.disciplined hd hok
  refine ⟨?_, pairwise_of_marks kept.ordered⟩
  have single := wf.sound.single
  simp only [Lane.credit] at single
  exact le_trans (by simp only [Reactor.lane]; omega) single


/-- Two requests in one read, the second of a client that does not keep the connection. -/
def inTurn : List Act :=
  [.read (ascii "GET / HTTP/1.1\r\nHost: a\r\n\r\nGET / HTTP/1.0\r\n\r\n"),
    .respond 1 200 [] [], .async, .written true [], .respond 2 200 [] [], .async]

theorem dispatch_discipline_inTurn :
    ∃ t, Reaches (stepOf (step sampleEnv)) (fun r a => refusesInTurn sampleEnv r a = true)
        sampleConn t ∧
      (t.trace.countP Ev.starts = 2 ∧ t.trace.countP (Ev.closes 0) = 2) ∧
      t.ownReqs.length ≤ 1 ∧
      t.trace.Pairwise fun a b => a.closes t.conn.id = true → b.starts = false := by
  obtain ⟨t, ht, counts⟩ := exec_any
    (f := guarded (fun r a => refusesInTurn sampleEnv r a = true) (step sampleEnv))
    (s := sampleConn) (p := fun t => t.trace.countP Ev.starts = 2 ∧
      t.trace.countP (Ev.closes 0) = 2)
    (show (exec _ inTurn _).any _ = true by
      rw [inTurn]
      repeat rw [ascii_ofList]
      decide +kernel)
  exact ⟨t, exec_guarded ht, counts,
    dispatch_discipline sampleEnv sampleConn_fresh (exec_guarded ht)⟩

/-- A handler answers an upload before its end; the rest of the upload passes the cap,
and the 413 comes while the answer is being written. The answer lands first: the gate
opens, and the next request is dispatched. -/
def overtaking : List Act :=
  [.read (ascii "POST /up HTTP/1.1\r\nHost: a\r\nTransfer-Encoding: chunked\r\n\r\n"),
    .respond 1 200 [] [], .async, .read (ascii "5\r\nabcde"), .written true [],
    .read (ascii "GET / HTTP/1.0\r\n\r\n")]

theorem late_refusal_reopens :
    ¬ ∀ (env : Env) (r t : Reactor), Fresh r → Reaches (stepOf (step env)) anyStep r t →
      t.ownReqs.length ≤ 1 ∧
        t.trace.Pairwise fun a b => a.closes t.conn.id = true → b.starts = false := by
  intro claim
  obtain ⟨t, ht, broken⟩ := exec_any (f := step sampleEnv) (s := sampleConn)
    (p := fun t => ¬ t.trace.Pairwise fun a b => a.closes t.conn.id = true → b.starts = false)
    (show (exec _ overtaking _).any _ = true by
      rw [overtaking]
      repeat rw [ascii_ofList]
      decide +kernel)
  exact broken (claim sampleEnv sampleConn t sampleConn_fresh (exec_reaches ht)).2

end NitroServer.Engine
