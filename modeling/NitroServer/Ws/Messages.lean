/-
The messages of a client come out as they went in.

A `Transmission` is what a client sends on a session: messages, each cut into fragments
in any way, with pings and pongs between the frames; every frame has its own mask and
its own length encoding. It arrives in any segmentation, while frames of the handler go
out, writes complete and the timer runs.

* `Transmission.accepted` — the decoder takes the frames of a transmission.
* `Receiving` — where a session stands in a transmission.
* `messages_recovered` — the messages, in order, reach the runner, and each ping is
  answered.
-/

import NitroServer.Ws.Session
import NitroServer.Ws.Utf8

namespace NitroServer.Engine

open NitroServer.Lib

namespace Ws

/-! ### What a client sends -/

/-- A ping or a pong. -/
structure Control where
  pong : Bool
  mask : Bytes
  payload : Bytes
  mask_length : mask.length = 4
  short : payload.length ≤ 125

def Control.frame (c : Control) : ClientFrame where
  fin := true
  rsv1 := false
  opcode := if c.pong then kPong else kPing
  form := .short
  mask := c.mask
  payload := c.payload
  known := by cases c.pong <;> rfl
  fits := c.short
  mask_length := c.mask_length
  control := fun _ => ⟨rfl, rfl, rfl⟩

/-- The payloads of the pings. -/
def pingsOf (cs : List Control) : List Bytes :=
  (cs.filter fun c => !c.pong).map Control.payload

/-- One fragment of a message, and the control frames sent before it. -/
structure Fragment where
  before : List Control
  form : LenForm
  mask : Bytes
  payload : Bytes
  fits : form.fits payload.length
  mask_length : mask.length = 4

/-- The frame types of a data message. -/
inductive DataOp where
  | continuation | text | binary
deriving DecidableEq, Repr

def DataOp.opcode : DataOp → Nat
  | .continuation => kContinuation
  | .text => kText
  | .binary => kBinary

def Fragment.data (f : Fragment) (op : DataOp) (fin : Bool) : ClientFrame where
  fin := fin
  rsv1 := false
  opcode := op.opcode
  form := f.form
  mask := f.mask
  payload := f.payload
  known := by cases op <;> rfl
  fits := f.fits
  mask_length := f.mask_length
  control := by cases op <;> exact fun h => by cases h

def Fragment.frames (f : Fragment) (op : DataOp) (fin : Bool) : List ClientFrame :=
  f.before.map Control.frame ++ [f.data op fin]

/-- The fragments behind the first: continuations, the last with FIN. -/
def moreFrames : List Fragment → List ClientFrame
  | [] => []
  | f :: fs => f.frames .continuation fs.isEmpty ++ moreFrames fs

/-- An uncompressed message in fragments. -/
structure ClientMessage where
  binary : Bool
  first : Fragment
  more : List Fragment

namespace ClientMessage

def op (m : ClientMessage) : DataOp := if m.binary then .binary else .text

def fragments (m : ClientMessage) : List Fragment := m.first :: m.more

def payload (m : ClientMessage) : Bytes := m.fragments.flatMap Fragment.payload

def pings (m : ClientMessage) : List Bytes := m.fragments.flatMap fun f => pingsOf f.before

def frames (m : ClientMessage) : List ClientFrame :=
  m.first.frames m.op m.more.isEmpty ++ moreFrames m.more

/-- Within the cap, and text is UTF-8. -/
structure Valid (cap : Nat) (m : ClientMessage) : Prop where
  size : m.payload.length ≤ cap
  text : m.binary = false → Utf8 m.payload

end ClientMessage

/-- All a client sends: messages, and control frames behind the last. -/
structure Transmission where
  messages : List ClientMessage
  after : List Control

namespace Transmission

def frames (tx : Transmission) : List ClientFrame :=
  tx.messages.flatMap ClientMessage.frames ++ tx.after.map Control.frame

def bytes (tx : Transmission) : Bytes := tx.frames.flatMap ClientFrame.encode

def pings (tx : Transmission) : List Bytes :=
  tx.messages.flatMap ClientMessage.pings ++ pingsOf tx.after

/-- What comes out. -/
def outs (tx : Transmission) : List Out :=
  tx.messages.flatMap (fun m =>
    m.pings.map .pong ++ [.message ⟨m.op.opcode, false, m.payload⟩]) ++
    (pingsOf tx.after).map .pong

end Transmission

/-! ### The decoder takes it -/

theorem accept_control (cap : Nat) (s : Option Gathered) (cs : List Control) :
    acceptAll cap s (cs.map Control.frame) = some ((pingsOf cs).map .pong, s) := by
  induction cs with
  | nil => rfl
  | cons c cs ih =>
      have one : accept cap s c.frame = some ((pingsOf [c]).map .pong, s) := by
        cases hp : c.pong <;> simp [accept, Control.frame, pingsOf, hp, kPing, kPong]
      have split : pingsOf (c :: cs) = pingsOf [c] ++ pingsOf cs := by
        rw [pingsOf, pingsOf, pingsOf, ← List.map_append, ← List.filter_append]
        rfl
      simp [acceptAll, one, ih, split]

/-- A data frame joins what is gathered. -/
theorem accept_data (cap : Nat) (f : Fragment) (fin : Bool) (g : Gathered) :
    accept cap (some g) (f.data .continuation fin) =
      Gathered.check cap fin { g with bytes := g.bytes ++ f.payload } := by
  simp [accept, Fragment.data, DataOp.opcode, kContinuation, kPing, kPong, kClose, kText, kBinary]

theorem accept_first (cap : Nat) (f : Fragment) (fin : Bool) (op : DataOp)
    (first : op ≠ .continuation) :
    accept cap none (f.data op fin) = Gathered.check cap fin ⟨op.opcode, false, f.payload⟩ := by
  cases op with
  | continuation => exact absurd rfl first
  | text =>
      simp [accept, Fragment.data, DataOp.opcode, kPing, kPong, kClose, kText]
  | binary =>
      simp [accept, Fragment.data, DataOp.opcode, kPing, kPong, kClose, kText, kBinary]

/-- Within the cap, a fragment that is not the last is gathered. -/
theorem check_more {cap : Nat} {g : Gathered} (size : g.bytes.length ≤ cap) :
    Gathered.check cap false g = some ([], some g) := by
  rw [Gathered.check, if_neg (Nat.not_lt.mpr size)]
  rfl

/-- A whole message within the cap goes out. -/
theorem check_last {cap : Nat} {g : Gathered} (size : g.bytes.length ≤ cap)
    (text : g.opcode = kText → validUtf8 g.bytes = true) :
    Gathered.check cap true g = some ([.message g], none) := by
  rw [Gathered.check, if_neg (Nat.not_lt.mpr size), if_neg (by decide)]
  exact if_neg fun bad => bad.2.2 (text bad.1)

/-- A fragment with its control frames. -/
theorem accept_fragment {cap : Nat} {s s' : Option Gathered} {f : Fragment} {op : DataOp}
    {fin : Bool} {outs : List Out} (h : accept cap s (f.data op fin) = some (outs, s')) :
    acceptAll cap s (f.frames op fin) = some ((pingsOf f.before).map .pong ++ outs, s') :=
  acceptAll_append (accept_control cap s f.before) (by simp [acceptAll, h])

/-- The continuations of a message. -/
theorem accept_more {cap : Nat} {g : Gathered} (f : Fragment) (fs : List Fragment)
    (size : (g.bytes ++ (f :: fs).flatMap Fragment.payload).length ≤ cap)
    (text : g.opcode = kText → validUtf8 (g.bytes ++ (f :: fs).flatMap Fragment.payload) = true) :
    acceptAll cap (some g) (moreFrames (f :: fs)) =
      some (((f :: fs).flatMap fun f => pingsOf f.before).map .pong ++
        [.message { g with bytes := g.bytes ++ (f :: fs).flatMap Fragment.payload }], none) := by
  induction fs generalizing f g with
  | nil =>
      simp only [List.flatMap_cons, List.flatMap_nil, List.append_nil] at size text ⊢
      have last := accept_data cap f true g
      rw [check_last size text] at last
      simpa [moreFrames] using accept_fragment last
  | cons f' fs ih =>
      rw [List.flatMap_cons, ← List.append_assoc] at size text
      have here := accept_data cap f false g
      rw [check_more (by rw [List.length_append] at size; exact Nat.le_of_add_right_le size)] at here
      have later := ih (g := { g with bytes := g.bytes ++ f.payload }) f' size text
      have both := acceptAll_append (accept_fragment here) later
      rw [moreFrames, show (f' :: fs).isEmpty = false from rfl, both]
      simp

/-- A message. -/
theorem ClientMessage.Valid.accepted {cap : Nat} {m : ClientMessage} (valid : m.Valid cap) :
    acceptAll cap none m.frames =
      some (m.pings.map .pong ++ [.message ⟨m.op.opcode, false, m.payload⟩], none) := by
  have first : m.op ≠ .continuation := by
    unfold ClientMessage.op
    cases m.binary <;> decide
  have text : m.op.opcode = kText → validUtf8 m.payload = true := by
    intro isText
    refine (valid.text ?_).valid
    by_contra binary
    simp [ClientMessage.op, Bool.eq_true_of_not_eq_false binary, DataOp.opcode, kBinary, kText] at isText
  have size := valid.size
  unfold ClientMessage.frames ClientMessage.payload ClientMessage.pings
    ClientMessage.fragments at *
  cases hm : m.more with
  | nil =>
      simp only [hm, List.flatMap_cons, List.flatMap_nil, List.append_nil] at size text ⊢
      have whole := accept_first cap m.first true m.op first
      rw [check_last size text] at whole
      simpa [moreFrames] using accept_fragment whole
  | cons f fs =>
      rw [hm, List.flatMap_cons] at size text
      have here := accept_first cap m.first false m.op first
      rw [check_more (by rw [List.length_append] at size; exact Nat.le_of_add_right_le size)] at here
      have later := accept_more (g := ⟨m.op.opcode, false, m.first.payload⟩) f fs size text
      have both := acceptAll_append (accept_fragment here) later
      rw [show (f :: fs).isEmpty = false from rfl, both]
      simp

/-- A transmission. -/
theorem Transmission.accepted {cap : Nat} {tx : Transmission}
    (valid : ∀ m ∈ tx.messages, m.Valid cap) :
    acceptAll cap none tx.frames = some (tx.outs, none) := by
  have messages : ∀ ms : List ClientMessage, (∀ m ∈ ms, m.Valid cap) →
      acceptAll cap none (ms.flatMap ClientMessage.frames) = some (ms.flatMap fun m =>
        m.pings.map .pong ++ [.message ⟨m.op.opcode, false, m.payload⟩], none) := by
    intro ms valid
    induction ms with
    | nil => rfl
    | cons m ms ih =>
        exact acceptAll_append (valid m List.mem_cons_self).accepted
          (ih fun m' hm' => valid m' (List.mem_cons_of_mem _ hm'))
  exact acceptAll_append (messages tx.messages valid) (accept_control cap none tx.after)

/-- A frame of a fragment list is uncompressed and no longer than their payloads. -/
theorem mem_fragment {f : ClientFrame} {frag : Fragment} {op : DataOp} {fin : Bool}
    (h : f ∈ frag.frames op fin) : f.rsv1 = false ∧
      (isControl f.opcode = false → f.payload.length ≤ frag.payload.length) := by
  rcases List.mem_append.mp h with h | h
  · obtain ⟨c, -, rfl⟩ := List.mem_map.mp h
    refine ⟨rfl, fun data => ?_⟩
    cases hp : c.pong <;> simp [Control.frame, hp, isControl, kPing, kPong] at data
  · rw [List.mem_singleton.mp h]
    exact ⟨rfl, fun _ => le_refl _⟩

theorem mem_moreFrames {f : ClientFrame} {fs : List Fragment} (h : f ∈ moreFrames fs) :
    f.rsv1 = false ∧
      (isControl f.opcode = false → f.payload.length ≤ (fs.flatMap Fragment.payload).length) := by
  induction fs with
  | nil => cases h
  | cons frag fs ih =>
      rw [List.flatMap_cons, List.length_append]
      rcases List.mem_append.mp h with h | h
      · exact ⟨(mem_fragment h).1, fun data => ((mem_fragment h).2 data).trans (by omega)⟩
      · exact ⟨(ih h).1, fun data => ((ih h).2 data).trans (by omega)⟩

/-- A client may send every frame of a transmission. -/
theorem Transmission.plain {cap : Nat} {tx : Transmission}
    (valid : ∀ m ∈ tx.messages, m.Valid cap) {f : ClientFrame} (h : f ∈ tx.frames) :
    f.rsv1 = false ∧ (isControl f.opcode = false → f.payload.length ≤ cap) := by
  rcases List.mem_append.mp h with h | h
  · obtain ⟨m, hm, hf⟩ := List.mem_flatMap.mp h
    have size := (valid m hm).size
    rw [ClientMessage.payload, ClientMessage.fragments, List.flatMap_cons,
      List.length_append] at size
    rcases List.mem_append.mp hf with hf | hf
    · exact ⟨(mem_fragment hf).1, fun data => ((mem_fragment hf).2 data).trans (by omega)⟩
    · exact ⟨(mem_moreFrames hf).1, fun data => ((mem_moreFrames hf).2 data).trans (by omega)⟩
  · obtain ⟨c, -, rfl⟩ := List.mem_map.mp h
    refine ⟨rfl, fun data => ?_⟩
    cases hp : c.pong <;> simp [Control.frame, hp, isControl, kPing, kPong] at data

theorem Transmission.allowed {cap : Nat} {tx : Transmission} {deflate : Bool}
    (valid : ∀ m ∈ tx.messages, m.Valid cap) {f : ClientFrame} (h : f ∈ tx.frames) :
    f.rsv1 = false ∧ f.Allowed deflate cap := by
  obtain ⟨rsv, size⟩ := plain valid h
  exact ⟨rsv, fun set => by simp [rsv] at set, size⟩

/-! ### Beginnings of the stream -/

/-- The part left of a frame list: nothing, or a beginning of the first frame. -/
def PartOf (tail : Bytes) : List ClientFrame → Prop
  | [] => tail = []
  | f :: _ => ∃ more, more ≠ [] ∧ f.encode = tail ++ more

/-- A beginning of the stream is made of whole frames and a part of the next one. -/
theorem cut_frames (fs : List ClientFrame) {part : Bytes}
    (h : part <+: fs.flatMap ClientFrame.encode) :
    ∃ done left tail, fs = done ++ left ∧ part = done.flatMap ClientFrame.encode ++ tail ∧
      PartOf tail left := by
  induction fs generalizing part with
  | nil => exact ⟨[], [], [], rfl, by simpa using h, rfl⟩
  | cons f fs ih =>
      rw [List.flatMap_cons] at h
      rcases Nat.lt_or_ge part.length f.encode.length with short | long
      · obtain ⟨more, hmore⟩ :=
          List.prefix_of_prefix_length_le h (List.prefix_append _ _) short.le
        refine ⟨[], f :: fs, part, rfl, rfl, more, ?_, hmore.symm⟩
        rintro rfl
        simp [← hmore] at short
      · obtain ⟨rest, rfl⟩ := List.prefix_of_prefix_length_le (List.prefix_append _ _) h long
        obtain ⟨done, left, tail, rfl, rfl, part⟩ := ih ((List.prefix_append_right_inj _).mp h)
        exact ⟨f :: done, left, tail, rfl, by simp, part⟩

/-- A part of the stream is one the session waits on. -/
theorem PartOf.waits {deflate : Bool} {cap : Nat} {tail : Bytes} {left : List ClientFrame}
    (h : PartOf tail left) (allowed : ∀ f ∈ left, f.Allowed deflate cap) :
    Waits deflate cap tail := by
  cases left with
  | nil =>
      obtain rfl : tail = [] := h
      exact waits_nil deflate cap
  | cons f left =>
      obtain ⟨more, missing, hf⟩ := h
      exact ⟨f, more, allowed f List.mem_cons_self, missing, hf⟩

/-- When the whole stream has arrived, nothing is left. -/
theorem PartOf.nil {tail : Bytes} {left : List ClientFrame} (h : PartOf tail left)
    (all : left.flatMap ClientFrame.encode = tail) : left = [] ∧ tail = [] := by
  cases left with
  | nil => exact ⟨rfl, h⟩
  | cons f left =>
      obtain ⟨more, missing, hf⟩ := h
      rw [← all, List.flatMap_cons, hf] at hf
      have := congrArg List.length hf
      have := List.length_pos_of_ne_nil missing
      simp only [List.length_append] at *
      omega

end Ws

open Ws Reactor

/-! ### Runs -/

/-- A session that started in the state `s₀` has received `sent` and taken the frames
`done` of the transmission. -/
structure Position (cap : Nat) (tx : Transmission) (s₀ : Session) (sent : Bytes)
    (done left : List ClientFrame) (s : Session) : Prop where
  live : s.shut = false
  same : s.id = s₀.id ∧ s.sink = s₀.sink
  frames : tx.frames = done ++ left
  bytes : sent = done.flatMap ClientFrame.encode ++ s.buf
  taken : ∃ outs, acceptAll cap none done = some (outs, s.gathered) ∧
    s.messages = s₀.messages ++ outs.flatMap (Out.events s₀.sink s₀.id) ∧
    s.pongs = s₀.pongs ++ outs.flatMap Out.frames

/-- It has taken all the frames that are complete. -/
def Receiving (cap : Nat) (tx : Transmission) (s₀ : Session) (sent : Bytes) (s : Session) : Prop :=
  ∃ done left, Position cap tx s₀ sent done left s ∧ PartOf s.buf left

variable {env : Env}

/-- The session takes the frames that its buffer completes. -/
theorem receiving_wsProcess {tx : Transmission} {r : Reactor} {s₀ : Session} {sent : Bytes}
    {done left : List ClientFrame} (valid : ∀ m ∈ tx.messages, m.Valid env.cfg.serverMax)
    (ok : r.InSession true) (h : Position env.cfg.serverMax tx s₀ sent done left r.session)
    (within : sent <+: tx.bytes) (calm : ¬ Over env r (r.wsProcess env)) :
    (r.wsProcess env).InSession true ∧
      Receiving env.cfg.serverMax tx s₀ sent (r.wsProcess env).session := by
  obtain ⟨outs, accepted, messages, pongs⟩ := h.taken
  have buf : r.conn.buf <+: left.flatMap ClientFrame.encode := by
    rw [h.bytes, Transmission.bytes, h.frames, List.flatMap_append] at within
    exact (List.prefix_append_right_inj _).mp within
  obtain ⟨now, later, tail, rfl, hbuf, part⟩ := cut_frames left buf
  have known : ∀ f ∈ now ++ later, f ∈ tx.frames := fun f hf => by
    rw [h.frames]
    exact List.mem_append_right _ hf
  -- the frames in the buffer are accepted, since all of them are
  obtain ⟨more, g, hnow⟩ : ∃ more g,
      acceptAll env.cfg.serverMax r.gathered now = some (more, g) := by
    have all := Transmission.accepted valid
    rw [h.frames] at all
    obtain ⟨first, rest, s₁, hfirst, hrest, -⟩ := acceptAll_split all
    obtain ⟨more, -, g, hnow, -⟩ := acceptAll_split hrest
    have : r.gathered = s₁ := by
      rw [accepted, Option.some.injEq, Prod.mk.injEq] at hfirst
      exact hfirst.2
    exact ⟨more, g, this ▸ hnow⟩
  have enough : now.length < r.conn.buf.length + 1 := by
    have long : now.length ≤ (now.flatMap ClientFrame.encode).length := by
      clear hnow known h buf hbuf
      induction now with
      | nil => exact Nat.zero_le _
      | cons f now ih =>
          have := List.length_pos_of_ne_nil f.encode_ne_nil
          rw [List.flatMap_cons, List.length_append, List.length_cons]
          omega
    rw [hbuf, List.length_append]
    omega
  have leads := session_wsFrames ok h.live
    (fun f hf set => by
      simp [(Transmission.plain valid (known f (List.mem_append_left _ hf))).1] at set)
    hbuf hnow
    (part.waits fun f hf => (Transmission.allowed valid (known f (List.mem_append_right _ hf))).2)
    enough
  rcases leads.result with ⟨ok', same⟩ | ⟨-, -, beyond⟩
  · refine ⟨ok', done ++ now, later, ⟨?_, ?_, ?_, ?_, outs ++ more, ?_, ?_, ?_⟩, ?_⟩ <;>
      change (r.wsProcess env).session = _ at same
    · rw [same]
      exact h.live
    · rw [same]
      exact h.same
    · rw [h.frames, List.append_assoc]
    · rw [same, h.bytes, List.flatMap_append, List.append_assoc]
      exact congrArg _ hbuf
    · rw [same]
      exact acceptAll_append accepted hnow
    · rw [same, List.flatMap_append, ← List.append_assoc, ← messages, ← h.same.1, ← h.same.2]
      rfl
    · rw [same, List.flatMap_append, ← List.append_assoc, ← pongs]
      rfl
    · rw [same]
      exact part
  · exact absurd beyond calm

/-- A step that speaks for the session and does not pass its outbound cap. -/
def steadyStep (env : Env) (r : Reactor) (a : Act) : Option Reactor :=
  (guarded (fun r a => steady env r a = true) (step env) r a).filter
    fun r' => (r'.trace.drop r.trace.length).all fun ev => !ev.overSession env

theorem steadyStep_some {r r' : Reactor} {a : Act} (h : steadyStep env r a = some r') :
    steady env r a = true ∧ step env r a = some r' ∧ ¬ Over env r r' := by
  simp only [steadyStep, Option.filter_eq_some_iff, guarded, Option.ite_none_right_eq_some,
    List.all_eq_true, Bool.not_eq_true'] at h
  obtain ⟨⟨fit, hstep⟩, calm⟩ := h
  refine ⟨fit, hstep, ?_⟩
  rintro ⟨ev, hev, beyond⟩
  simp [calm ev hev] at beyond

theorem receiving_step {tx : Transmission} {r r' : Reactor} {a : Act} {s₀ : Session}
    {sent : Bytes} (valid : ∀ m ∈ tx.messages, m.Valid env.cfg.serverMax) (ok : r.InSession true)
    (h : Receiving env.cfg.serverMax tx s₀ sent r.session) (hstep : steadyStep env r a = some r')
    (within : sent ++ a.data <+: tx.bytes) :
    r'.InSession true ∧ Receiving env.cfg.serverMax tx s₀ (sent ++ a.data) r'.session := by
  obtain ⟨fit, hstep, calm⟩ := steadyStep_some hstep
  by_cases read : ∃ data, a = .read data
  · obtain ⟨data, rfl⟩ := read
    simp only [step, Option.ite_none_right_eq_some, Option.some.injEq] at hstep
    obtain ⟨-, rfl⟩ := hstep
    obtain ⟨done, left, at', -⟩ := h
    obtain ⟨ok', same⟩ := received_session ok data
    rw [readCb_session ok] at calm ⊢
    have now : Position env.cfg.serverMax tx s₀ (sent ++ data) done left
        (r.received data).session := by
      rw [same]
      refine ⟨at'.live, at'.same, at'.frames, ?_, at'.taken⟩
      rw [at'.bytes, List.append_assoc]
      rfl
    exact receiving_wsProcess valid ok' now within calm
  · have other : ∀ data, a ≠ .read data := fun data h => read ⟨data, h⟩
    have none : a.data = [] := by
      cases a with
      | read data => exact absurd rfl (other data)
      | _ => rfl
    rw [none, List.append_nil]
    rcases session_step ok hstep other fun _ => fit with kept | ⟨-, -, beyond⟩
    · rw [kept.same]
      exact ⟨kept.ok, h⟩
    · exact absurd (beyond rfl) calm

/-- A run of a session that is sent a beginning of a transmission. -/
theorem receiving_exec {tx : Transmission} {r t : Reactor} {acts : List Act}
    (valid : ∀ m ∈ tx.messages, m.Valid env.cfg.serverMax) (up : r.Upgraded)
    (calm : ¬ Over env r (r.wsProcess env))
    (run : exec (steadyStep env) acts (r.wsProcess env) = some t)
    (within : r.conn.buf ++ acts.flatMap Act.data <+: tx.bytes) :
    t.InSession true ∧ Receiving env.cfg.serverMax tx r.session
      (r.conn.buf ++ acts.flatMap Act.data) t.session := by
  induction acts using List.reverseRecOn generalizing t with
  | nil =>
      obtain rfl : r.wsProcess env = t := by simpa [exec] using run
      rw [List.flatMap_nil, List.append_nil] at within ⊢
      have start : Position env.cfg.serverMax tx r.session r.conn.buf [] tx.frames r.session :=
        ⟨up.live, ⟨rfl, rfl⟩, rfl, rfl, [], congrArg (fun g => some ([], g)) up.gathered.symm,
          (List.append_nil _).symm, (List.append_nil _).symm⟩
      exact receiving_wsProcess valid up.session start within calm
  | append_singleton acts a ih =>
      rw [exec_append] at run
      obtain ⟨mid, before, run⟩ := Option.bind_eq_some_iff.mp run
      obtain ⟨t', here, run⟩ := Option.bind_eq_some_iff.mp run
      obtain rfl : t' = t := by simpa [exec] using run
      simp only [List.flatMap_append, List.flatMap_singleton, ← List.append_assoc] at within ⊢
      obtain ⟨ok, held⟩ := ih before ((List.prefix_append _ _).trans within)
      exact receiving_step valid ok held here within

theorem Ws.Transmission.outs_events (tx : Transmission) (sink id : Nat) :
    tx.outs.flatMap (Out.events (some sink) id) = tx.messages.map fun m =>
      .emitWsMessage sink id m.payload m.op.opcode 0 := by
  have pongs : ∀ ps : List Bytes, (ps.map Out.pong).flatMap (Out.events (some sink) id) = [] := by
    intro ps
    simp [Out.events, List.flatMap_map]
  rw [outs, List.flatMap_append, pongs, List.append_nil]
  induction tx.messages with
  | nil => rfl
  | cons m ms ih =>
      rw [List.flatMap_cons, List.flatMap_append, List.flatMap_append, pongs, ih]
      rfl

theorem Ws.Transmission.outs_frames (tx : Transmission) :
    tx.outs.flatMap Out.frames = tx.pings.map fun p => encodeFrame kPong p true := by
  have pongs : ∀ ps : List Bytes, (ps.map Out.pong).flatMap Out.frames =
      ps.map fun p => encodeFrame kPong p true := by
    intro ps
    rw [List.flatMap_map, List.map_eq_flatMap]
    rfl
  rw [outs, pings, List.flatMap_append, pongs, List.map_append]
  congr 1
  induction tx.messages with
  | nil => rfl
  | cons m ms ih =>
      rw [List.flatMap_cons, List.flatMap_append, List.flatMap_append, pongs, ih]
      simp [Out.frames]

/-- Whatever the fragmentation, the masks, the control frames in between and the
segmentation into reads, the runner is told exactly the messages of the client, in
order, each ping is answered with its payload, and the session is ready for more. -/
theorem messages_recovered {tx : Transmission} {r t : Reactor} {acts : List Act} {sink : Nat}
    (valid : ∀ m ∈ tx.messages, m.Valid env.cfg.serverMax) (up : r.Upgraded)
    (attached : r.conn.wsEmitter = some sink) (calm : ¬ Over env r (r.wsProcess env))
    (run : exec (steadyStep env) acts (r.wsProcess env) = some t)
    (stream : r.conn.buf ++ acts.flatMap Act.data = tx.bytes) :
    t.conn.closing = false ∧ t.conn.wsClosing = false ∧ t.conn.buf = [] ∧ t.gathered = none ∧
      t.trace.filter Ev.isWsMessage = r.trace.filter Ev.isWsMessage ++
        tx.messages.map (fun m => .emitWsMessage sink r.conn.id m.payload m.op.opcode 0) ∧
      t.trace.flatMap Ev.pongs = r.trace.flatMap Ev.pongs ++
        tx.pings.map fun p => encodeFrame kPong p true := by
  obtain ⟨-, done, left, at', part⟩ :=
    receiving_exec valid up calm run (stream ▸ List.prefix_rfl)
  obtain ⟨outs, accepted, messages, pongs⟩ := at'.taken
  have all : left.flatMap ClientFrame.encode = t.session.buf := by
    have bytes := at'.bytes
    rw [stream, Transmission.bytes, at'.frames, List.flatMap_append] at bytes
    exact List.append_cancel_left bytes
  obtain ⟨rfl, empty⟩ := part.nil all
  have whole := Transmission.accepted valid
  rw [at'.frames, List.append_nil, accepted, Option.some.injEq, Prod.mk.injEq] at whole
  obtain ⟨rfl, none⟩ := whole
  have live := at'.live
  simp only [session, Reactor.shut, Bool.or_eq_false_iff] at live
  rw [Transmission.outs_frames] at pongs
  rw [show r.session.sink = some sink from attached, Transmission.outs_events] at messages
  exact ⟨live.1, live.2, empty, none, messages, pongs⟩

/-- A text in two fragments around a ping, then a byte with its length in two bytes. -/
def sampleTransmission : Transmission where
  messages :=
    [⟨false, ⟨[], .short, [1, 2, 3, 4], ascii "h", by decide, rfl⟩,
        [⟨[⟨false, [5, 6, 7, 8], [9], rfl, by decide⟩], .short, [0, 0, 0, 7], ascii "i", by decide,
          rfl⟩]⟩,
      ⟨true, ⟨[], .medium, [4, 3, 2, 1], [255], by decide, rfl⟩, []⟩]
  after := []

/-- The bytes of it, cut inside headers and payloads, while the handler sends and the
timer runs. -/
def sampleReads : List Act :=
  [.read [1, 129, 1], .wsSend [7] true false, .async,
    .read [2, 3, 4, 105, 137, 129, 5, 6, 7, 8, 12, 128], .written true [],
    .read [129, 0, 0, 0, 7, 105, 130, 254, 0], .sweep, .read [1, 4, 3, 2, 1, 251]]

theorem messages_recovered_sample :
    ∃ t, exec (steadyStep sampleEnv) sampleReads (sampleSession.wsProcess sampleEnv) = some t ∧
      t.trace.filter Ev.isWsMessage =
        [.emitWsMessage 0 0 (ascii "hi") 1 0, .emitWsMessage 0 0 [255] 2 0] ∧
      t.trace.flatMap Ev.pongs = [[138, 1, 9]] := by
  obtain ⟨t, run, -⟩ := exec_any (f := steadyStep sampleEnv) (p := fun _ => True)
    (s := sampleSession.wsProcess sampleEnv)
    (show (exec _ sampleReads _).any _ = true by decide +kernel)
  have valid : ∀ m ∈ sampleTransmission.messages, m.Valid sampleEnv.cfg.serverMax := by
    intro m hm
    simp only [sampleTransmission, List.mem_cons, List.not_mem_nil, or_false] at hm
    rcases hm with rfl | rfl
    · exact ⟨by decide +kernel, fun _ => ⟨['h', 'i'], by decide +kernel⟩⟩
    · exact ⟨by decide +kernel, fun text => by cases text⟩
  have calm : ¬ Over sampleEnv sampleSession (sampleSession.wsProcess sampleEnv) := by
    unfold Over
    decide +kernel
  obtain ⟨-, -, -, -, messages, pongs⟩ := messages_recovered valid
    sampleSession_upgraded (show sampleSession.conn.wsEmitter = some 0 by decide +kernel) calm run
    (by decide +kernel)
  refine ⟨t, run, messages.trans ?_, pongs.trans ?_⟩
  · decide +kernel
  · decide +kernel

end NitroServer.Engine
