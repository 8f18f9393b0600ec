/-
Admission: who is let in and what is counted for them (`onConnection`,
`releaseAdmission`, `onCloseConn` and the PROXY slot move of `readCb`), together with the
budget check of a dispatch, in `UvReactor.cpp`.

Every loop thread works on the shared counters. A `Server` holds them: `liveConns_`,
`ipCounts_`, `reqLoc_`, the connections that exist with their admission fields, and for
each loop the callback it is in the middle of. One step is one atomic operation or one
mutex section of one loop, or an answer call of another thread that retires a request;
any order of steps is a run, over any number of loops.

A connection exists from `new Conn` to `delete c`. The parser of the PROXY header and the
TLS library are behind the step's arguments: the address the header names (empty for a
header that names none) and whether `tlsInit` succeeded.

* `admission_exact` — the counters say what the connections' own marks say.
-/

import NitroServer.Lib.Run
import NitroServer.Lib.Table
import NitroServer.Engine.Types

namespace NitroServer.Admission

open Engine Lib

/-- The limits of `ServerConfig`; 0 or less is no limit. -/
structure Limits where
  maxConnections : Int := 0
  maxConnectionsPerIp : Int := 0
  maxInFlightRequests : Int := 0
  proxyProtocol : Bool := false

/-- The admission fields of `Conn`. -/
structure Client where
  loop : Nat
  closing : Bool := false
  counted : Bool := false
  peerIp : Bytes := []
  proxyDone : Bool := false
deriving DecidableEq, Repr

/-- What a loop does next, inside the callback it is in. -/
inductive Task where
  /-- `onConnection`: read `draining_`. -/
  | arrived (id : Nat) (ip : Bytes)
  /-- read `liveConns_`. -/
  | room (id : Nat) (ip : Bytes)
  /-- the per-IP section. -/
  | slot (id : Nat) (ip : Bytes)
  /-- `counted = true` and the increment. -/
  | count (id : Nat)
  /-- `tlsInit`, then open. -/
  | secure (id : Nat)
  /-- `releaseAdmission`: the decrement; `last` says that `delete c` follows. -/
  | release (id : Nat) (last : Bool)
  /-- `releaseAdmission`: the per-IP section. -/
  | releaseIp (id : Nat) (last : Bool)
  /-- A dispatch whose budget check has passed: insert into `reqLoc_`. -/
  | register (id : Nat)
deriving DecidableEq, Repr

structure Server where
  live : Int := 0
  ips : Table Bytes Int := .empty
  clients : Table Nat Client := .empty
  reqs : Table Nat Nat := .empty
  tasks : Table Nat Task := .empty
  draining : Bool := false
  nextId : Nat := 1

inductive Act where
  | accept (loop : Nat) (ip : Bytes)
  | acceptFailed (loop : Nat)
  /-- The loop's next operation; `tlsOk` is the outcome of `tlsInit`. -/
  | advance (loop : Nat) (tlsOk : Bool)
  /-- `readCb` has the PROXY header. -/
  | proxy (loop id : Nat) (ip : Bytes)
  /-- `uv_close`, for any of its reasons. -/
  | close (loop id : Nat)
  /-- `releaseAdmission` ahead of the close. -/
  | release (loop id : Nat)
  /-- `onCloseConn`. -/
  | closed (loop id : Nat)
  /-- `overInFlightBudget`, before a dispatch on the connection. -/
  | dispatch (loop id : Nat)
  /-- A request is answered or given up. -/
  | retire (request : Nat)
  | beginDrain
deriving DecidableEq, Repr

/-- One slot of the address goes: `--it->second <= 0` erases. -/
def giveBack (ips : Table Bytes Int) (ip : Bytes) : Table Bytes Int :=
  match ips.find ip with
  | none => ips
  | some n => if n - 1 ≤ 0 then ips.erase ip else ips.set ip (n - 1)

namespace Server

def setClient (s : Server) (id : Nat) (c : Client) : Server :=
  { s with clients := s.clients.set id c }

def setTask (s : Server) (loop : Nat) (t : Task) : Server :=
  { s with tasks := s.tasks.set loop t }

/-- The callback returns. -/
def done (s : Server) (loop : Nat) : Server := { s with tasks := s.tasks.erase loop }

/-- The refusal of `onConnection`. -/
def refuse (s : Server) (loop id : Nat) (c : Client) : Server :=
  (s.setClient id { c with closing := true }).done loop

/-- The connection takes a slot of the address. -/
def takeSlot (s : Server) (id : Nat) (c : Client) (ip : Bytes) : Server :=
  { s with
    ips := s.ips.set ip ((s.ips.find ip).getD 0 + 1)
    clients := s.clients.set id { c with peerIp := ip } }

/-- The connection's slot, if it has one, is given back. -/
def dropSlot (s : Server) (id : Nat) (c : Client) : Server :=
  if c.peerIp = [] then s
  else
    { s with
      ips := giveBack s.ips c.peerIp
      clients := s.clients.set id { c with peerIp := [] } }

section Steps

variable (cfg : Limits)

/-- The per-IP section of `onConnection`. -/
def tryIp (s : Server) (loop id : Nat) (c : Client) (ip : Bytes) : Server :=
  if cfg.maxConnectionsPerIp ≤ (s.ips.find ip).getD 0 then s.refuse loop id c
  else (s.takeSlot id c ip).setTask loop (.count id)

/-- The check against `maxConnections`. -/
def tryRoom (s : Server) (loop id : Nat) (c : Client) (ip : Bytes) : Server :=
  if 0 < cfg.maxConnections ∧ cfg.maxConnections ≤ s.live then s.refuse loop id c
  else if 0 < cfg.maxConnectionsPerIp ∧ ip ≠ [] then s.setTask loop (.slot id ip)
  else s.setTask loop (.count id)

/-- The loop's next operation on the connection its callback is about. -/
def advance (s : Server) (loop : Nat) (tlsOk : Bool) (c : Client) : Task → Server
  | .arrived id ip => if s.draining then s.refuse loop id c else s.setTask loop (.room id ip)
  | .room id ip => s.tryRoom cfg loop id c ip
  | .slot id ip => s.tryIp cfg loop id c ip
  | .count id =>
      { s.setClient id { c with counted := true } with live := s.live + 1 }.setTask loop
        (.secure id)
  | .secure id => (s.setClient id { c with closing := !tlsOk || c.closing }).done loop
  | .release id last =>
      if c.counted then
        { s.setClient id { c with counted := false } with live := s.live - 1 }.setTask loop
          (.releaseIp id last)
      else s.setTask loop (.releaseIp id last)
  | .releaseIp id last =>
      let s := (s.dropSlot id c).done loop
      if last then { s with clients := s.clients.erase id } else s
  | .register id =>
      { s with reqs := s.reqs.set s.nextId id, nextId := s.nextId + 1 }.done loop

/-- The slot moves to the address of the header: over that address's cap, the connection
is closed without one. -/
def moveSlot (s : Server) (id : Nat) (c : Client) (ip : Bytes) : Server :=
  let s := s.dropSlot id c
  if cfg.maxConnectionsPerIp ≤ (s.ips.find ip).getD 0 then
    s.setClient id { c with peerIp := [], closing := true }
  else s.takeSlot id c ip

/-- The PROXY header of the connection is complete. -/
def onProxy (s : Server) (id : Nat) (c : Client) (ip : Bytes) : Server :=
  let c := { c with proxyDone := true }
  let s := s.setClient id c
  if ip ≠ [] ∧ 0 < cfg.maxConnectionsPerIp ∧ ip ≠ c.peerIp then s.moveSlot cfg id c ip else s

/-- `overInFlightBudget`. -/
def overInFlightBudget (s : Server) : Bool :=
  0 < cfg.maxInFlightRequests && cfg.maxInFlightRequests ≤ s.reqs.entries.length

end Steps

/-- The connection, when it is the loop's and the loop is between callbacks. -/
def idle (s : Server) (loop id : Nat) : Option Client :=
  (s.clients.find id).filter fun c => c.loop == loop && (s.tasks.find loop).isNone

end Server

/-- The connection a task is about. -/
def Task.id : Task → Nat
  | .arrived id _ | .room id _ | .slot id _ | .count id | .secure id | .release id _
  | .releaseIp id _ | .register id => id

section Step

variable (cfg : Limits)

/-- One step; `none` when the action cannot happen now. -/
def step (s : Server) : Act → Option Server
  | .accept loop ip =>
      if (s.tasks.find loop).isSome then none
      else some ({ s.setClient s.nextId { loop := loop } with nextId := s.nextId + 1 }.setTask loop
        (.arrived s.nextId ip))
  | .acceptFailed loop =>
      if (s.tasks.find loop).isSome then none
      else some { s.setClient s.nextId { loop := loop, closing := true } with
        nextId := s.nextId + 1 }
  | .advance loop tlsOk => do
      let t ← s.tasks.find loop
      let c ← s.clients.find t.id
      return s.advance cfg loop tlsOk c t
  | .proxy loop id ip => do
      let c ← s.idle loop id
      if cfg.proxyProtocol ∧ ¬ c.proxyDone ∧ ¬ c.closing then return s.onProxy cfg id c ip else none
  | .close loop id => do
      let c ← s.idle loop id
      return s.setClient id { c with closing := true }
  | .release loop id => do
      let _ ← s.idle loop id
      return s.setTask loop (.release id false)
  | .closed loop id => do
      let c ← s.idle loop id
      if c.closing then return s.setTask loop (.release id true) else none
  | .dispatch loop id => do
      let c ← s.idle loop id
      if c.closing then none
      else return if s.overInFlightBudget cfg then s else s.setTask loop (.register id)
  | .retire request => some { s with reqs := s.reqs.erase request }
  | .beginDrain => some { s with draining := true }

/-- The states of the server, from its start on. -/
abbrev Reachable (s : Server) : Prop := Reaches (stepOf (step cfg)) anyStep {} s

end Step

/-! ### What the connections' marks say -/

/-- The connections that are counted. -/
def Server.admitted (s : Server) : Nat := s.clients.entries.countP fun e => e.2.counted

/-- The connections that hold a slot of the address. -/
def Server.holders (s : Server) (ip : Bytes) : Nat :=
  s.clients.entries.countP fun e => decide (e.2.peerIp = ip)

/-! ### The slots of an address -/

section Slots

variable {cfg : Limits} {ips : Table Bytes Int} {clients : Table Nat Client} {id : Nat}
  {c c' : Client} {ip : Bytes}

/-- The slots of each address, by the connections' marks. -/
def held (clients : Table Nat Client) (ip : Bytes) : ℤ :=
  clients.total fun c => if c.peerIp = ip then 1 else 0

/-- `ipCounts_` and the marks agree. -/
structure Slots (cfg : Limits) (ips : Table Bytes Int) (clients : Table Nat Client) : Prop where
  exact : ∀ ip ≠ [], (ips.find ip).getD 0 = held clients ip
  unnamed : ips.find [] = none
  positive : ∀ ip n, ips.find ip = some n → 0 < n
  capped : 0 < cfg.maxConnectionsPerIp → ∀ ip n, ips.find ip = some n →
    n ≤ cfg.maxConnectionsPerIp

namespace Slots

/-- A connection comes, goes or changes without a mark of its own in play. -/
theorem frame (h : Slots cfg ips clients) {clients' : Table Nat Client}
    (same : ∀ ip ≠ [], held clients' ip = held clients ip) : Slots cfg ips clients' where
  exact ip named := (h.exact ip named).trans (same ip named).symm
  unnamed := h.unnamed
  positive := h.positive
  capped := h.capped

theorem set (h : Slots cfg ips clients) (hc : clients.find id = some c)
    (same : c'.peerIp = c.peerIp) : Slots cfg ips (clients.set id c') := by
  refine h.frame fun ip _ => ?_
  rw [held, Table.total_set hc, same, held]
  omega

theorem insert (h : Slots cfg ips clients) (new : clients.find id = none) (bare : c.peerIp = []) :
    Slots cfg ips (clients.set id c) := by
  refine h.frame fun ip named => ?_
  rw [held, Table.total_insert new, bare, if_neg (Ne.symm named), held, add_zero]

theorem erase (h : Slots cfg ips clients) (hc : clients.find id = some c) (bare : c.peerIp = []) :
    Slots cfg ips (clients.erase id) := by
  refine h.frame fun ip named => ?_
  rw [held, Table.total_erase hc, bare, if_neg (Ne.symm named), held, sub_zero]

/-- A connection without a slot takes one. -/
theorem take (h : Slots cfg ips clients) (hc : clients.find id = some c) (bare : c.peerIp = [])
    (named : ip ≠ []) (marked : c'.peerIp = ip)
    (free : (ips.find ip).getD 0 < cfg.maxConnectionsPerIp) :
    Slots cfg (ips.set ip ((ips.find ip).getD 0 + 1)) (clients.set id c') := by
  have nonneg : 0 ≤ (ips.find ip).getD 0 := by
    cases hn : ips.find ip with
    | none => exact le_refl _
    | some n => exact (h.positive ip n hn).le
  constructor
  · intro ip' named'
    rw [held, Table.total_set hc, bare, marked, if_neg (Ne.symm named'), Table.find_set, sub_zero]
    by_cases eq : ip' = ip
    · rw [if_pos eq, if_pos eq.symm, eq, Option.getD_some, h.exact ip named]
      rfl
    · rw [if_neg eq, if_neg (Ne.symm eq), add_zero, h.exact ip' named']
      rfl
  · rw [Table.find_set, if_neg (Ne.symm named)]
    exact h.unnamed
  · intro ip' n hn
    rw [Table.find_set] at hn
    split at hn
    · cases hn
      omega
    · exact h.positive ip' n hn
  · intro on ip' n hn
    rw [Table.find_set] at hn
    split at hn
    · cases hn
      omega
    · exact h.capped on ip' n hn

theorem find_giveBack (ips : Table Bytes Int) (ip ip' : Bytes) :
    (giveBack ips ip).find ip' =
      if ip' = ip then (ips.find ip).bind fun n => if n - 1 ≤ 0 then none else some (n - 1)
      else ips.find ip' := by
  unfold giveBack
  cases hn : ips.find ip with
  | none =>
      by_cases eq : ip' = ip
      · rw [if_pos eq, eq]
        exact hn
      · rw [if_neg eq]
  | some n =>
      dsimp only [Option.bind_some]
      split
      · rw [Table.find_erase]
      · rw [Table.find_set]

/-- A connection gives its slot back. -/
theorem drop (h : Slots cfg ips clients) (hc : clients.find id = some c) (named : c.peerIp ≠ [])
    (bare : c'.peerIp = []) : Slots cfg (giveBack ips c.peerIp) (clients.set id c') := by
  -- the connection itself holds a slot, so its address has an entry
  obtain ⟨n, hn⟩ : ∃ n, ips.find c.peerIp = some n := by
    have one : 1 ≤ held clients c.peerIp := by
      have rest := Table.total_nonneg (t := clients.erase id)
        (f := fun x => if x.peerIp = c.peerIp then 1 else 0) fun _ _ _ => by split <;> decide
      rw [Table.total_erase hc, if_pos rfl] at rest
      rw [held]
      omega
    rw [← h.exact c.peerIp named] at one
    cases hn : ips.find c.peerIp with
    | none => simp [hn] at one
    | some n => exact ⟨n, rfl⟩
  have count := h.exact c.peerIp named
  rw [hn, Option.getD_some] at count
  have pos := h.positive _ n hn
  constructor
  · intro ip' named'
    rw [held, Table.total_set hc, bare, if_neg (Ne.symm named'), find_giveBack, add_zero]
    by_cases eq : ip' = c.peerIp
    · rw [if_pos eq, if_pos eq.symm, hn, Option.bind_some]
      rw [held, ← eq] at count
      split
      · rw [Option.getD_none]
        omega
      · rw [Option.getD_some, count]
    · rw [if_neg eq, if_neg (Ne.symm eq), sub_zero, h.exact ip' named']
      rfl
  · rw [find_giveBack, if_neg (Ne.symm named)]
    exact h.unnamed
  · intro ip' m hm
    rw [find_giveBack] at hm
    split at hm
    · rw [hn, Option.bind_some] at hm
      split at hm
      · cases hm
      · cases hm
        omega
    · exact h.positive ip' m hm
  · intro on ip' m hm
    rw [find_giveBack] at hm
    split at hm
    · rw [hn, Option.bind_some] at hm
      have le := h.capped on _ n hn
      split at hm
      · cases hm
      · cases hm
        omega
    · exact h.capped on ip' m hm

end Slots

end Slots

/-! ### The books -/

/-- What a connection looks like while its loop is at the task. -/
def Task.Fits (cfg : Limits) (c : Client) : Task → Prop
  | .arrived _ _ | .room _ _ => c.counted = false ∧ c.peerIp = []
  | .slot _ ip =>
      c.counted = false ∧ c.peerIp = [] ∧ ip ≠ [] ∧ 0 < cfg.maxConnectionsPerIp
  | .count _ | .releaseIp _ _ => c.counted = false
  | .secure _ | .release _ _ | .register _ => True

/-- The task of a loop is about a connection of this loop. -/
def Attended (cfg : Limits) (clients : Table Nat Client) (tasks : Table Nat Task) : Prop :=
  ∀ loop t, tasks.find loop = some t →
    ∃ c, clients.find t.id = some c ∧ c.loop = loop ∧ t.Fits cfg c

/-- The counters, the marks and the loops' places in their callbacks. -/
structure Books (cfg : Limits) (s : Server) : Prop where
  live : s.live = s.clients.total fun c => if c.counted then 1 else 0
  slots : Slots cfg s.ips s.clients
  attended : Attended cfg s.clients s.tasks
  known : ∀ id c, s.clients.find id = some c → id < s.nextId

section Books

variable {cfg : Limits} {s : Server} {loop id : Nat} {c c' : Client} {t : Task}

/-- A change at one connection and at its own loop. -/
theorem Attended.update {clients clients' : Table Nat Client} {tasks tasks' : Table Nat Task}
    (h : Attended cfg clients tasks) (hc : clients.find id = some c)
    (others : ∀ j, j ≠ id → clients'.find j = clients.find j)
    (elsewhere : ∀ l, l ≠ c.loop → tasks'.find l = tasks.find l)
    (here : ∀ t, tasks'.find c.loop = some t →
      ∃ c', clients'.find t.id = some c' ∧ c'.loop = c.loop ∧ t.Fits cfg c') :
    Attended cfg clients' tasks' := by
  intro l t ht
  by_cases hl : l = c.loop
  · rw [hl] at ht ⊢
    exact here t ht
  · rw [elsewhere l hl] at ht
    obtain ⟨x, hx, rfl, fits⟩ := h l t ht
    refine ⟨x, ?_, rfl, fits⟩
    rw [others t.id]
    · exact hx
    · intro eq
      rw [eq, hc] at hx
      cases hx
      exact hl rfl

namespace Books

/-- The connection changes and its loop goes on to the task `t`. -/
theorem goesOn (h : Books cfg s) (hc : s.clients.find id = some c) {s' : Server}
    (hlive : s'.live = s'.clients.total fun c => if c.counted then 1 else 0)
    (hslots : Slots cfg s'.ips s'.clients) (next : s'.nextId = s.nextId)
    (clients : ∀ j, j ≠ id → s'.clients.find j = s.clients.find j)
    (tasks : s'.tasks = s.tasks.set c.loop t)
    (mine : s'.clients.find id = some c') (place : c'.loop = c.loop) (about : t.id = id)
    (fits : t.Fits cfg c') : Books cfg s' where
  live := hlive
  slots := hslots
  attended := by
    refine h.attended.update hc clients (fun l hl => ?_) fun x hx => ?_
    · rw [tasks, Table.find_set, if_neg hl]
    · rw [tasks, Table.find_set, if_pos rfl] at hx
      cases hx
      rw [about]
      exact ⟨c', mine, place, fits⟩
  known j x hx := by
    rw [next]
    by_cases eq : j = id
    · rw [eq]
      exact h.known id c hc
    · rw [clients j eq] at hx
      exact h.known j x hx

/-- The connection changes or goes, and its loop is between callbacks. -/
theorem rests (h : Books cfg s) (hc : s.clients.find id = some c) {s' : Server}
    (hlive : s'.live = s'.clients.total fun c => if c.counted then 1 else 0)
    (hslots : Slots cfg s'.ips s'.clients) (next : s.nextId ≤ s'.nextId)
    (clients : ∀ j, j ≠ id → s'.clients.find j = s.clients.find j)
    (tasks : ∀ l, l ≠ c.loop → s'.tasks.find l = s.tasks.find l)
    (free : s'.tasks.find c.loop = none) : Books cfg s' where
  live := hlive
  slots := hslots
  attended := by
    refine h.attended.update hc clients tasks fun x hx => ?_
    rw [free] at hx
    cases hx
  known j x hx := by
    by_cases eq : j = id
    · rw [eq]
      exact (h.known id c hc).trans_le next
    · rw [clients j eq] at hx
      exact (h.known j x hx).trans_le next

/-- A connection's mark changes, or not. -/
theorem live_set (h : Books cfg s) (hc : s.clients.find id = some c) :
    (s.clients.set id c').total (fun c => if c.counted then 1 else 0) =
      s.live - (if c.counted then 1 else 0) + if c'.counted then 1 else 0 := by
  rw [Table.total_set hc, h.live]

theorem setTask (h : Books cfg s) (hc : s.clients.find t.id = some c) (fits : t.Fits cfg c) :
    Books cfg (s.setTask c.loop t) :=
  h.goesOn hc h.live h.slots rfl (fun _ _ => rfl) rfl hc rfl rfl fits

/-- A change of a resting connection that is no matter of admission. -/
theorem setClient (h : Books cfg s) (hc : s.clients.find id = some c)
    (free : s.tasks.find c.loop = none) (counted : c'.counted = c.counted)
    (peerIp : c'.peerIp = c.peerIp) : Books cfg (s.setClient id c') := by
  refine h.rests hc ?_ (h.slots.set hc peerIp) le_rfl (fun j hj => ?_) (fun _ _ => rfl) free
  · rw [Server.setClient, h.live_set hc, counted]
    dsimp only
    omega
  · rw [Server.setClient, Table.find_set, if_neg hj]

theorem refuse (h : Books cfg s) (hc : s.clients.find id = some c) :
    Books cfg (s.refuse c.loop id c) := by
  refine h.rests hc ?_ (h.slots.set hc rfl) le_rfl (fun j hj => ?_) (fun l hl => ?_) ?_
  · simp only [Server.refuse, Server.setClient, Server.done, h.live_set hc]
    omega
  · simp only [Server.refuse, Server.setClient, Server.done, Table.find_set, if_neg hj]
  · simp only [Server.refuse, Server.setClient, Server.done, Table.find_erase, if_neg hl]
  · simp only [Server.refuse, Server.setClient, Server.done, Table.find_erase, if_pos]

theorem tryRoom (h : Books cfg s) (hc : s.clients.find id = some c) (counted : c.counted = false)
    (bare : c.peerIp = []) (ip : Bytes) : Books cfg (s.tryRoom cfg c.loop id c ip) := by
  unfold Server.tryRoom
  split
  · exact h.refuse hc
  · split
    · rename_i named
      exact setTask (t := .slot id ip) h hc ⟨counted, bare, named.2, named.1⟩
    · exact setTask (t := .count id) h hc counted

theorem tryIp (h : Books cfg s) (hc : s.clients.find id = some c) (counted : c.counted = false)
    (bare : c.peerIp = []) {ip : Bytes} (named : ip ≠ []) :
    Books cfg (s.tryIp cfg c.loop id c ip) := by
  unfold Server.tryIp
  split
  · exact h.refuse hc
  · rename_i free
    have mine : (s.takeSlot id c ip).clients.find id = some { c with peerIp := ip } := by
      simp only [Server.takeSlot, Table.find_set, if_pos]
    refine h.goesOn hc ?_ (h.slots.take hc bare named rfl (not_le.mp free)) rfl (fun j hj => ?_)
      rfl mine rfl rfl counted
    · simp only [Server.takeSlot, Server.setTask, h.live_set hc]
      omega
    · simp only [Server.takeSlot, Server.setTask, Table.find_set, if_neg hj]

theorem count (h : Books cfg s) (hc : s.clients.find id = some c) (counted : c.counted = false)
    {tlsOk : Bool} : Books cfg (s.advance cfg c.loop tlsOk c (.count id)) := by
  have mine : (s.setClient id { c with counted := true }).clients.find id =
      some { c with counted := true } := by
    simp only [Server.setClient, Table.find_set, if_pos]
  refine h.goesOn hc ?_ (h.slots.set hc rfl) rfl (fun j hj => ?_) rfl mine rfl rfl trivial
  · simp only [Server.advance, Server.setClient, Server.setTask, h.live_set hc, counted]
    simp
  · simp only [Server.advance, Server.setClient, Server.setTask, Table.find_set, if_neg hj]

theorem secure (h : Books cfg s) (hc : s.clients.find id = some c) (tlsOk : Bool) :
    Books cfg (s.advance cfg c.loop tlsOk c (.secure id)) := by
  refine h.rests hc ?_ (h.slots.set hc rfl) le_rfl (fun j hj => ?_) (fun l hl => ?_) ?_
  · simp only [Server.advance, Server.setClient, Server.done, h.live_set hc]
    omega
  · simp only [Server.advance, Server.setClient, Server.done, Table.find_set, if_neg hj]
  · simp only [Server.advance, Server.setClient, Server.done, Table.find_erase, if_neg hl]
  · simp only [Server.advance, Server.setClient, Server.done, Table.find_erase, if_pos]

theorem release (h : Books cfg s) (hc : s.clients.find id = some c) (tlsOk last : Bool) :
    Books cfg (s.advance cfg c.loop tlsOk c (.release id last)) := by
  simp only [Server.advance]
  split
  · rename_i counted
    have mine : (s.setClient id { c with counted := false }).clients.find id =
        some { c with counted := false } := by
      simp only [Server.setClient, Table.find_set, if_pos]
    refine h.goesOn hc ?_ (h.slots.set hc rfl) rfl (fun j hj => ?_) rfl mine rfl rfl rfl
    · simp only [Server.setClient, Server.setTask, h.live_set hc, counted]
      simp
    · simp only [Server.setClient, Server.setTask, Table.find_set, if_neg hj]
  · rename_i counted
    exact setTask (t := .releaseIp id last) h hc (Bool.eq_false_iff.mpr counted)

/-- Without its slot the connection is as it was otherwise. -/
theorem dropSlot_find (hc : s.clients.find id = some c) (j : Nat) :
    (s.dropSlot id c).clients.find j =
      if j = id then some { c with peerIp := [] } else s.clients.find j := by
  unfold Server.dropSlot
  split
  · rename_i bare
    by_cases hj : j = id
    · rw [if_pos hj, hj, hc]
      cases c
      dsimp only at bare
      rw [bare]
    · rw [if_neg hj]
  · exact Table.find_set

theorem dropSlot_slots (h : Books cfg s) (hc : s.clients.find id = some c) :
    Slots cfg (s.dropSlot id c).ips (s.dropSlot id c).clients := by
  unfold Server.dropSlot
  split
  · exact h.slots
  · rename_i named
    exact h.slots.drop hc named rfl

theorem dropSlot_live (h : Books cfg s) (hc : s.clients.find id = some c) :
    s.live = (s.dropSlot id c).clients.total fun c => if c.counted then 1 else 0 := by
  unfold Server.dropSlot
  split
  · exact h.live
  · rw [h.live_set hc]
    dsimp only
    omega

theorem dropSlot_same (s : Server) (id : Nat) (c : Client) :
    (s.dropSlot id c).live = s.live ∧ (s.dropSlot id c).tasks = s.tasks ∧
      (s.dropSlot id c).nextId = s.nextId := by
  unfold Server.dropSlot
  split <;> exact ⟨rfl, rfl, rfl⟩

theorem releaseIp (h : Books cfg s) (hc : s.clients.find id = some c) (counted : c.counted = false)
    (tlsOk last : Bool) : Books cfg (s.advance cfg c.loop tlsOk c (.releaseIp id last)) := by
  obtain ⟨live, tasks, next⟩ := dropSlot_same s id c
  have mine : (s.dropSlot id c).clients.find id = some { c with peerIp := [] } := by
    rw [dropSlot_find hc, if_pos rfl]
  simp only [Server.advance]
  split
  · refine h.rests hc ?_ ((h.dropSlot_slots hc).erase mine rfl) next.ge (fun j hj => ?_)
      (fun l hl => ?_) ?_
    · simp only [Server.done, Table.total_erase mine, ← h.dropSlot_live hc, live, counted]
      simp
    · simp only [Server.done, Table.find_erase, if_neg hj, dropSlot_find hc]
    · simp only [Server.done, Table.find_erase, if_neg hl, tasks]
    · simp only [Server.done, Table.find_erase, if_pos]
  · refine h.rests hc ?_ (h.dropSlot_slots hc) next.ge (fun j hj => ?_) (fun l hl => ?_) ?_
    · simp only [Server.done, ← h.dropSlot_live hc, live]
    · simp only [Server.done, dropSlot_find hc, if_neg hj]
    · simp only [Server.done, Table.find_erase, if_neg hl, tasks]
    · simp only [Server.done, Table.find_erase, if_pos]

theorem register (h : Books cfg s) (hc : s.clients.find id = some c) (tlsOk : Bool) :
    Books cfg (s.advance cfg c.loop tlsOk c (.register id)) := by
  refine h.rests hc h.live h.slots (Nat.le_succ _) (fun _ _ => rfl) (fun l hl => ?_) ?_
  · simp only [Server.advance, Server.done, Table.find_erase, if_neg hl]
  · simp only [Server.advance, Server.done, Table.find_erase, if_pos]

/-- Every operation of a loop keeps the books. -/
theorem advance (h : Books cfg s) (ht : s.tasks.find loop = some t)
    (hc : s.clients.find t.id = some c) (tlsOk : Bool) :
    Books cfg (s.advance cfg loop tlsOk c t) := by
  obtain ⟨c', hc', rfl, fits⟩ := h.attended loop t ht
  rw [hc] at hc'
  cases hc'
  cases t with
  | arrived id ip =>
      simp only [Server.advance]
      split
      · exact h.refuse hc
      · exact setTask (t := .room id ip) h hc fits
  | room id ip => exact h.tryRoom hc fits.1 fits.2 ip
  | slot id ip => exact h.tryIp hc fits.1 fits.2.1 fits.2.2.1
  | count id => exact h.count hc fits
  | secure id => exact h.secure hc tlsOk
  | release id last => exact h.release hc tlsOk last
  | releaseIp id last => exact h.releaseIp hc fits tlsOk last
  | register id => exact h.register hc tlsOk

/-- The slot moves, or the connection loses it and is closed. -/
theorem moveSlot (h : Books cfg s) (hc : s.clients.find id = some c)
    (free : s.tasks.find c.loop = none) {ip : Bytes} (named : ip ≠ []) :
    Books cfg (s.moveSlot cfg id c ip) := by
  obtain ⟨live, tasks, next⟩ := dropSlot_same s id c
  have mine : (s.dropSlot id c).clients.find id = some { c with peerIp := [] } := by
    rw [dropSlot_find hc, if_pos rfl]
  have bare : Books cfg (s.dropSlot id c) := by
    refine h.rests hc ?_ (h.dropSlot_slots hc) next.ge (fun j hj => ?_) (fun l _ => by rw [tasks])
      (by rw [tasks, free])
    · rw [live, ← h.dropSlot_live hc]
    · rw [dropSlot_find hc, if_neg hj]
  simp only [Server.moveSlot]
  split
  · exact bare.setClient mine (by rw [tasks, free]) rfl rfl
  · rename_i room
    refine bare.rests mine ?_ (bare.slots.take mine rfl named rfl (not_le.mp room)) le_rfl
      (fun j hj => ?_) (fun _ _ => rfl) (by rw [Server.takeSlot, tasks, free])
    · simp only [Server.takeSlot, bare.live_set mine]
      omega
    · simp only [Server.takeSlot, Table.find_set, if_neg hj]

theorem onProxy (h : Books cfg s) (hc : s.clients.find id = some c)
    (free : s.tasks.find c.loop = none) (ip : Bytes) : Books cfg (s.onProxy cfg id c ip) := by
  have done : Books cfg (s.setClient id { c with proxyDone := true }) := h.setClient hc free rfl rfl
  simp only [Server.onProxy]
  split
  · rename_i moves
    have mine : (s.setClient id { c with proxyDone := true }).clients.find id =
        some { c with proxyDone := true } := by
      simp only [Server.setClient, Table.find_set, if_pos]
    exact done.moveSlot mine free moves.1
  · exact done

/-- A connection is created. -/
theorem create (h : Books cfg s) (hc : c = { loop := c.loop, closing := c.closing }) :
    Books cfg { s.setClient s.nextId c with nextId := s.nextId + 1 } := by
  have new : s.clients.find s.nextId = none := by
    rw [Option.eq_none_iff_forall_ne_some]
    intro x hx
    exact Nat.lt_irrefl _ (h.known _ x hx)
  have bare : c.counted = false ∧ c.peerIp = [] := by
    rw [hc]
    exact ⟨rfl, rfl⟩
  constructor
  · simp only [Server.setClient, Table.total_insert new, h.live, bare.1]
    simp
  · exact h.slots.insert new bare.2
  · intro l t ht
    obtain ⟨x, hx, place, fits⟩ := h.attended l t ht
    refine ⟨x, ?_, place, fits⟩
    simp only [Server.setClient, Table.find_set]
    rw [if_neg, hx]
    rintro eq
    rw [eq, new] at hx
    cases hx
  · intro j x hx
    simp only [Server.setClient, Table.find_set] at hx
    split at hx
    · rename_i eq
      exact eq ▸ Nat.lt_succ_self _
    · exact (h.known j x hx).trans (Nat.lt_succ_self _)

end Books

theorem idle_spec (h : s.idle loop id = some c) :
    s.clients.find id = some c ∧ c.loop = loop ∧ s.tasks.find loop = none := by
  simpa [Server.idle, Option.filter_eq_some_iff] using h

/-- Every step keeps the books. -/
theorem books_step {s' : Server} {a : Act} (h : Books cfg s) (hstep : step cfg s a = some s') :
    Books cfg s' := by
  cases a with
  | accept loop ip =>
      simp only [step, Option.ite_none_left_eq_some, Option.some.injEq] at hstep
      obtain ⟨-, rfl⟩ := hstep
      refine Books.setTask (t := .arrived s.nextId ip) (c := { loop := loop }) (h.create rfl) ?_
        ⟨rfl, rfl⟩
      simp only [Server.setClient, Task.id, Table.find_set, if_pos]
  | acceptFailed loop =>
      simp only [step, Option.ite_none_left_eq_some, Option.some.injEq] at hstep
      obtain ⟨-, rfl⟩ := hstep
      exact h.create rfl
  | advance loop tlsOk =>
      simp only [step, Option.bind_eq_bind, Option.bind_eq_some_iff, Option.pure_def,
        Option.some.injEq] at hstep
      obtain ⟨t, ht, c, hc, rfl⟩ := hstep
      exact h.advance ht hc tlsOk
  | proxy loop id ip =>
      simp only [step, Option.bind_eq_bind, Option.bind_eq_some_iff, Option.pure_def,
        Option.ite_none_right_eq_some, Option.some.injEq] at hstep
      obtain ⟨c, resting, -, rfl⟩ := hstep
      obtain ⟨hc, rfl, free⟩ := idle_spec resting
      exact h.onProxy hc free ip
  | close loop id =>
      simp only [step, Option.bind_eq_bind, Option.bind_eq_some_iff, Option.pure_def,
        Option.some.injEq] at hstep
      obtain ⟨c, resting, rfl⟩ := hstep
      obtain ⟨hc, rfl, free⟩ := idle_spec resting
      exact h.setClient hc free rfl rfl
  | release loop id =>
      simp only [step, Option.bind_eq_bind, Option.bind_eq_some_iff, Option.pure_def,
        Option.some.injEq] at hstep
      obtain ⟨c, resting, rfl⟩ := hstep
      obtain ⟨hc, rfl, -⟩ := idle_spec resting
      exact Books.setTask (t := .release id false) h hc trivial
  | closed loop id =>
      simp only [step, Option.bind_eq_bind, Option.bind_eq_some_iff, Option.pure_def,
        Option.ite_none_right_eq_some, Option.some.injEq] at hstep
      obtain ⟨c, resting, -, rfl⟩ := hstep
      obtain ⟨hc, rfl, -⟩ := idle_spec resting
      exact Books.setTask (t := .release id true) h hc trivial
  | dispatch loop id =>
      simp only [step, Option.bind_eq_bind, Option.bind_eq_some_iff, Option.pure_def,
        Option.ite_none_left_eq_some, Option.some.injEq] at hstep
      obtain ⟨c, resting, -, rfl⟩ := hstep
      obtain ⟨hc, rfl, -⟩ := idle_spec resting
      split
      · exact h
      · exact Books.setTask (t := .register id) h hc trivial
  | retire request | beginDrain =>
      cases hstep
      exact ⟨h.live, h.slots, h.attended, h.known⟩

theorem books_start : Books cfg {} where
  live := rfl
  slots := ⟨fun _ _ => rfl, rfl, fun _ _ h => by (cases h), fun _ _ _ h => by (cases h)⟩
  attended _ _ h := by cases h
  known _ _ h := by cases h

end Books

theorem Reachable.books {cfg : Limits} {s : Server} (h : Reachable cfg s) : Books cfg s :=
  h.invariant books_start fun _ _ _ books _ hstep => books_step books hstep

/-- Admission accounting is exact: in every state any interleaving of the loops comes to,
`liveConns_` is the number of counted connections, `ipCounts_` has for every address the
number of connections marked with it and no entry that is not positive, and no entry
exceeds the per-address limit. -/
theorem admission_exact (cfg : Limits) (s : Server) (h : Reachable cfg s) :
    s.live = s.admitted ∧
      (∀ ip, ip ≠ [] → (s.ips.find ip).getD 0 = s.holders ip) ∧
      (∀ ip n, s.ips.find ip = some n → ip ≠ [] ∧ 0 < n) ∧
      (0 < cfg.maxConnectionsPerIp → ∀ ip n, s.ips.find ip = some n →
        n ≤ cfg.maxConnectionsPerIp) := by
  have books := h.books
  refine ⟨?_, fun ip named => ?_, fun ip n hn => ⟨?_, books.slots.positive ip n hn⟩,
    books.slots.capped⟩
  · rw [books.live, Table.total_countP]
    rfl
  · have sum : held s.clients ip = s.holders ip := by
      rw [held, Server.holders, ← Table.total_countP fun c : Client => decide (c.peerIp = ip)]
      simp only [decide_eq_true_eq]
    rw [books.slots.exact ip named, sum]
  · rintro rfl
    rw [books.slots.unnamed] at hn
    cases hn

/-- Two loops, one client that asks for two connections and gets one, and a proxied
connection whose slot moves. -/
theorem admission_exact_proxied :
    ∃ s, Reachable ⟨0, 1, 0, true⟩ s ∧ s.admitted = 2 ∧ s.holders [9] = 1 ∧
      (s.live = s.admitted ∧ (∀ ip, ip ≠ [] → (s.ips.find ip).getD 0 = s.holders ip) ∧
        (∀ ip n, s.ips.find ip = some n → ip ≠ [] ∧ 0 < n) ∧
        ((0 : Int) < 1 → ∀ ip n, s.ips.find ip = some n → n ≤ 1)) := by
  obtain ⟨s, run, counts⟩ := exec_any (f := step ⟨0, 1, 0, true⟩) (s := {})
    (p := fun s => s.admitted = 2 ∧ s.holders [9] = 1)
    (show (exec _ [.accept 0 [7], .accept 1 [7], .advance 0 true, .advance 1 true, .advance 1 true,
      .advance 0 true, .advance 1 true, .advance 0 true, .advance 1 true, .advance 1 true,
      .proxy 1 2 [9], .accept 0 [7], .advance 0 true, .advance 0 true, .advance 0 true,
      .advance 0 true, .advance 0 true, .closed 0 1, .advance 0 true, .advance 0 true] _).any _ =
        true by decide +kernel)
  exact ⟨s, exec_reaches run, counts.1, counts.2, admission_exact ⟨0, 1, 0, true⟩ s (exec_reaches run)⟩

end NitroServer.Admission
