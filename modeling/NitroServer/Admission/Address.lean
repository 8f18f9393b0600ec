/-
The client's address: the text that handlers are shown (`clientIp`) and the key of `ipCounts_`.

It has three sources. `onConnection` takes the name of the socket's peer and presents a mapped
address as the IPv4 address it is; `uvParseProxyHeader` prints the bytes of a v2 header, and hands
the word of a v1 header on as it was written. The last two are not brought into one form.

* `clientIp_plain`, `clientIp_odd` — the text, for an address that comes in its own form and for
  one that does not.
* `keyed_step` — a connection's slot is kept under its own text.
* `one_key_iff` — when two connections of one client have one text and one key.
-/

import NitroServer.Admission.Gate
import NitroServer.Lib.Mapped
import NitroServer.Timer.ProxyHeader

namespace NitroServer.Admission

open Engine Lib

/-! ### Names of addresses -/

/-- `inet_ntop` and `inet_pton`, for IPv6 when the flag is set. libuv's `uv_ip4_name` and
`uv_ip6_name` print as `inet_ntop` does. -/
structure Conversions where
  ntop : Bool → Bytes → Bytes
  pton : Bool → Bytes → Option Bytes

namespace Conversions

variable (lib : Conversions)

def inet : Inet := ⟨lib.ntop, fun v6 s => (lib.pton v6 s).isSome⟩

def mappedText : Bytes := ascii "::ffff:"

/-- What is known of the texts and of what is read. -/
structure Lawful : Prop where
  sized : ∀ v6 s raw, lib.pton v6 s = some raw → raw.length = if v6 then 16 else 4
  empty : ∀ v6, lib.pton v6 [] = none
  quad : ∀ v4, v4.length = 4 → 46 ∈ lib.ntop false v4 ∧ 58 ∉ lib.ntop false v4
  mapped : ∀ v4, v4.length = 4 →
    lib.ntop true (mappedPrefix ++ v4) = mappedText ++ lib.ntop false v4
  other : ∀ raw, raw.length = 16 → ¬ Mapped raw →
    lib.ntop true raw ≠ [] ∧ ¬ (mappedText <+: lib.ntop true raw ∧ 46 ∈ lib.ntop true raw)

/-- The text of a client's address. -/
def canonical (client : Bytes) : Bytes := lib.ntop (client.length == 16) client

end Conversions

open Conversions (mappedText)

/-- An address of a socket, IPv4 or IPv6. -/
structure SockAddr where
  v6 : Bool
  raw : Bytes
  sized : raw.length = if v6 then 16 else 4

/-- `onConnection`: a mapped address without its prefix. -/
def stripMapped (name : Bytes) : Bytes :=
  if 7 < name.length ∧ name.take 7 = mappedText ∧ 46 ∈ name then name.drop 7 else name

/-- The peer's name; empty where `getpeername` fails. -/
def peerName (lib : Conversions) : Option SockAddr → Bytes
  | none => []
  | some a => stripMapped (lib.ntop a.v6 a.raw)

/-! ### Who a connection's client is -/

/-- An address in a PROXY header. -/
inductive Named where
  /-- The word of a v1 header. -/
  | v1 (v6 : Bool) (tok : Bytes)
  /-- The bytes of a v2 header. -/
  | v2 (v6 : Bool) (raw : Bytes)
deriving DecidableEq

/-- The address that a PROXY header names, if it names one. -/
def namedBy (header : Bytes) : Option Named :=
  if kV2Sig <+: header then
    if (header.getD 12 0).toNat % 16 ≠ 1 then none
    else if (header.getD 13 0).toNat / 16 = 1 then some (.v2 false ((header.drop 16).take 4))
    else if (header.getD 13 0).toNat / 16 = 2 then some (.v2 true ((header.drop 16).take 16))
    else none
  else
    match splitAtSep 32 ((header.take (header.length - 2)).drop 6) with
    | [fam, tok, _, _, _] =>
        if fam = ascii "UNKNOWN" then none else some (.v1 (fam == ascii "TCP6") tok)
    | _ => none

namespace Named

variable (lib : Conversions)

/-- What the parser hands on. -/
def text : Named → Bytes
  | .v1 _ tok => tok
  | .v2 v6 raw => lib.ntop v6 raw

/-- The client that is meant. -/
def client : Named → Option Bytes
  | .v1 v6 tok => (lib.pton v6 (cString tok)).map asV4
  | .v2 _ raw => some (asV4 raw)

/-- What the parser checks. -/
def Valid : Named → Prop
  | .v1 v6 tok => (lib.pton v6 (cString tok)).isSome = true
  | .v2 v6 raw => raw.length = if v6 then 16 else 4

/-- The client's address is written in its own form. -/
def Plain (client : Bytes) : Named → Prop
  | .v1 _ tok => tok = lib.canonical client
  | .v2 _ raw => ¬ Mapped raw

instance (client : Bytes) : DecidablePred (Plain lib client)
  | .v1 _ tok => inferInstanceAs (Decidable (tok = lib.canonical client))
  | .v2 _ raw => inferInstanceAs (Decidable (¬ Mapped raw))

/-- How it is written otherwise: as the header has it, or with the mapped prefix. -/
def written (client : Bytes) : Named → Bytes
  | .v1 _ tok => tok
  | .v2 _ _ => mappedText ++ lib.ntop false client

end Named

/-- What the reactor has learnt of a connection's client: the socket's peer, and the address that
a PROXY header names. -/
structure Origin where
  socket : Option SockAddr
  named : Option Named

namespace Origin

variable (lib : Conversions) (o : Origin)

/-- `clientIp`, of `onConnection` and then of `readCb`. -/
def clientIp : Bytes := o.named.elim (peerName lib o.socket) (Named.text lib)

/-- The client: a mapped address is the IPv4 address. -/
def client : Option Bytes := o.named.elim (o.socket.map fun a => asV4 a.raw) (Named.client lib)

def Valid : Prop := ∀ n ∈ o.named, n.Valid lib

def Plain (client : Bytes) : Prop := ∀ n ∈ o.named, n.Plain lib client

/-- The two name their client in its own form, or in one and the same other one. -/
def Alike (client : Bytes) (o p : Origin) : Prop :=
  (o.Plain lib client ∧ p.Plain lib client) ∨
    (¬ o.Plain lib client ∧ ¬ p.Plain lib client ∧
      o.named.map (Named.written lib client) = p.named.map (Named.written lib client))

end Origin

/-! ### Texts -/

section Texts

variable {lib : Conversions} {o p : Origin} {x : Bytes}

theorem canonical_v4 {v4 : Bytes} (four : v4.length = 4) :
    lib.canonical v4 = lib.ntop false v4 := by
  rw [Conversions.canonical, four]
  rfl

theorem canonical_v6 {raw : Bytes} (sixteen : raw.length = 16) :
    lib.canonical raw = lib.ntop true raw := by
  rw [Conversions.canonical, sixteen]
  rfl

theorem colon_mem_mapped (rest : Bytes) : 58 ∈ mappedText ++ rest :=
  List.mem_append_left _ (by decide)

/-- A text that the prefix is not stripped from. -/
theorem stripMapped_eq_self {name : Bytes} (other : ¬ (mappedText <+: name ∧ 46 ∈ name)) :
    stripMapped name = name := by
  refine if_neg ?_
  rintro ⟨-, front, dot⟩
  exact other ⟨front ▸ List.take_prefix 7 name, dot⟩

theorem stripMapped_mapped {rest : Bytes} (dot : 46 ∈ rest) :
    stripMapped (mappedText ++ rest) = rest := by
  have seven : mappedText.length = 7 := rfl
  have some_ : 0 < rest.length := List.length_pos_of_mem dot
  rw [stripMapped, if_pos]
  · rfl
  · refine ⟨?_, rfl, List.mem_append_right _ dot⟩
    rw [List.length_append, seven]
    omega

/-- A socket's peer is named in its own form. -/
theorem peerName_eq (lawful : lib.Lawful) (a : SockAddr) :
    peerName lib (some a) = lib.canonical (asV4 a.raw) := by
  obtain ⟨v6, raw, sized⟩ := a
  rw [peerName]
  dsimp only
  cases v6 with
  | false =>
      have four : raw.length = 4 := sized
      have noColon := (lawful.quad raw four).2
      rw [asV4_of_length (by omega), canonical_v4 four, stripMapped_eq_self]
      rintro ⟨⟨rest, text⟩, -⟩
      exact noColon (text ▸ colon_mem_mapped rest)
  | true =>
      have sixteen : raw.length = 16 := sized
      by_cases mapped : Mapped raw
      · obtain ⟨shape, four⟩ := mapped.eq_append
        rw [canonical_v4 four]
        conv_lhs => rw [shape, lawful.mapped _ four]
        exact stripMapped_mapped (lawful.quad _ four).1
      · rw [asV4, if_neg mapped, canonical_v6 sixteen,
          stripMapped_eq_self (lawful.other raw sixteen mapped).2]

/-- An address of its own form is the text of the client. -/
theorem Named.text_plain {n : Named} (valid : n.Valid lib) (client : n.client lib = some x)
    (plain : n.Plain lib x) : n.text lib = lib.canonical x := by
  cases n with
  | v1 v6 tok => exact plain
  | v2 v6 raw =>
      cases client
      have sized : raw.length = if v6 then 16 else 4 := valid
      have unmapped : ¬ Mapped raw := plain
      rw [asV4, if_neg unmapped]
      cases v6 with
      | false => exact (canonical_v4 sized).symm
      | true => exact (canonical_v6 sized).symm

/-- Another one is as it is written, and that is not the text of the client. -/
theorem Named.text_odd (lawful : lib.Lawful) {n : Named} (valid : n.Valid lib)
    (client : n.client lib = some x) (odd : ¬ n.Plain lib x) :
    n.text lib = n.written lib x ∧ n.written lib x ≠ lib.canonical x := by
  cases n with
  | v1 v6 tok => exact ⟨rfl, odd⟩
  | v2 v6 raw =>
      cases client
      have mapped : Mapped raw := of_not_not odd
      obtain ⟨shape, four⟩ := mapped.eq_append
      have v6_ : v6 = true := by
        have sized : raw.length = if v6 then 16 else 4 := valid
        rw [mapped.1] at sized
        cases v6 with
        | false => exact absurd sized (by decide)
        | true => rfl
      constructor
      · rw [Named.text, Named.written, v6_]
        conv_lhs => rw [shape, lawful.mapped _ four]
      · rw [Named.written, canonical_v4 four]
        intro same
        exact (lawful.quad _ four).2 (same ▸ colon_mem_mapped _)

theorem clientIp_plain (lawful : lib.Lawful) (valid : o.Valid lib) (client : o.client lib = some x)
    (plain : o.Plain lib x) : o.clientIp lib = lib.canonical x := by
  obtain ⟨socket, named⟩ := o
  cases named with
  | none =>
      obtain ⟨a, rfl, rfl⟩ := Option.map_eq_some_iff.mp client
      exact peerName_eq lawful a
  | some n => exact Named.text_plain (valid n rfl) client (plain n rfl)

theorem clientIp_odd (lawful : lib.Lawful) (valid : o.Valid lib) (client : o.client lib = some x)
    (odd : ¬ o.Plain lib x) :
    ∃ n, o.named = some n ∧ o.clientIp lib = n.written lib x ∧
      n.written lib x ≠ lib.canonical x := by
  obtain ⟨socket, named⟩ := o
  cases named with
  | none => exact absurd nofun odd
  | some n =>
      have odd_ : ¬ n.Plain lib x := by
        intro plain
        refine odd ?_
        rintro m ⟨⟩
        exact plain
      obtain ⟨text, differs⟩ := Named.text_odd lawful (valid n rfl) client odd_
      exact ⟨n, rfl, text, differs⟩

/-- The texts of two connections of one client. -/
theorem clientIp_eq_iff (lawful : lib.Lawful) (valid : o.Valid lib) (valid' : p.Valid lib)
    (client : o.client lib = some x) (client' : p.client lib = some x) :
    o.clientIp lib = p.clientIp lib ↔ Origin.Alike lib x o p := by
  by_cases plain : o.Plain lib x
  · rw [clientIp_plain lawful valid client plain]
    by_cases plain' : p.Plain lib x
    · rw [clientIp_plain lawful valid' client' plain']
      exact iff_of_true rfl (.inl ⟨plain, plain'⟩)
    · obtain ⟨n, -, text, differs⟩ := clientIp_odd lawful valid' client' plain'
      rw [text]
      refine iff_of_false differs.symm ?_
      rintro (⟨-, both⟩ | ⟨neither, -⟩)
      · exact plain' both
      · exact neither plain
  · obtain ⟨n, named, text, differs⟩ := clientIp_odd lawful valid client plain
    rw [text]
    by_cases plain' : p.Plain lib x
    · rw [clientIp_plain lawful valid' client' plain']
      refine iff_of_false differs ?_
      rintro (⟨both, -⟩ | ⟨-, neither, -⟩)
      · exact plain both
      · exact neither plain'
    · obtain ⟨m, named', text', -⟩ := clientIp_odd lawful valid' client' plain'
      rw [text', Origin.Alike, named, named', Option.map_some, Option.map_some,
        Option.some_inj]
      constructor
      · intro same
        exact .inr ⟨plain, plain', same⟩
      · rintro (⟨both, -⟩ | ⟨-, -, same⟩)
        · exact absurd both plain
        · exact same

end Texts

/-! ### Headers -/

section Headers

variable {lib : Conversions} {header ip : Bytes}

/-- A header's address is one, and has a text. -/
theorem Named.text_ne_nil (lawful : lib.Lawful) {n : Named} (valid : n.Valid lib) :
    n.text lib ≠ [] := by
  cases n with
  | v1 v6 tok =>
      rintro (rfl : tok = [])
      have read : (lib.pton v6 []).isSome = true := valid
      rw [lawful.empty] at read
      cases read
  | v2 v6 raw =>
      have sized : raw.length = if v6 then 16 else 4 := valid
      rw [Named.text]
      cases v6 with
      | false => exact List.ne_nil_of_mem (lawful.quad raw sized).1
      | true =>
          by_cases mapped : Mapped raw
          · obtain ⟨shape, four⟩ := mapped.eq_append
            rw [shape, lawful.mapped _ four]
            exact List.ne_nil_of_mem (colon_mem_mapped _)
          · exact (lawful.other raw sized mapped).1

/-- What a header hands on is the text of the address that it names. -/
abbrev Hands (lib : Conversions) (header ip : Bytes) : Prop :=
  ip = (namedBy header).elim [] (Named.text lib) ∧ ∀ n ∈ namedBy header, n.Valid lib

theorem hands_none (named : namedBy header = none) : Hands lib header [] := by
  rw [Hands, named]
  exact ⟨rfl, nofun⟩

theorem hands_some {n : Named} (named : namedBy header = some n) (valid : n.Valid lib) :
    Hands lib header (n.text lib) := by
  rw [Hands, named]
  refine ⟨rfl, ?_⟩
  rintro m ⟨⟩
  exact valid

theorem hands_v2 {s : Bytes}
    (accepted : uvParseProxyHeader lib.inet (kV2Sig ++ s) = .done ip (kV2Sig ++ s).length) :
    Hands lib (kV2Sig ++ s) ip := by
  by_cases short : s.length < 4
  · rw [parse_v2_short lib.inet short] at accepted
    cases accepted
  obtain ⟨c, fam, hi, lo, body, rfl⟩ := exists_fixed (not_lt.mp short)
  have named : namedBy (kV2Sig ++ c :: fam :: hi :: lo :: body) =
      if c.toNat % 16 ≠ 1 then none
      else if fam.toNat / 16 = 1 then some (.v2 false (body.take 4))
      else if fam.toNat / 16 = 2 then some (.v2 true (body.take 16))
      else none := if_pos (List.prefix_append _ _)
  have length : (kV2Sig ++ c :: fam :: hi :: lo :: body).length = 16 + body.length := by
    have twelve : kV2Sig.length = 12 := rfl
    simp only [List.length_append, List.length_cons, twelve]
    omega
  rw [length, parse_v2] at accepted
  split at accepted
  · cases accepted
  split at accepted
  · cases accepted
  rename_i whole
  split at accepted
  · rename_i localCommand
    obtain ⟨rfl, -⟩ := ProxyVerdict.done.inj accepted
    exact hands_none (named.trans (if_pos (by omega)))
  split at accepted
  · cases accepted
  rename_i command
  rw [if_neg command] at named
  obtain ⟨address, used⟩ := (proxyV2Address_done_iff (not_lt.mp whole)).mp accepted
  rw [List.take_of_length_le (by omega)] at address
  cases address with
  | unspecified unspec =>
      refine hands_none ?_
      rw [named, if_neg (by omega), if_neg (by omega)]
  | v4 af room =>
      rw [if_pos af] at named
      refine hands_some named ?_
      exact List.length_take_of_le (by omega)
  | v6 af room =>
      rw [if_neg (by omega), if_pos af] at named
      refine hands_some named ?_
      exact List.length_take_of_le (by omega)

theorem hands_v1 {s : Bytes}
    (accepted : uvParseProxyHeader lib.inet (kV1 ++ s) = .done ip (kV1 ++ s).length) :
    Hands lib (kV1 ++ s) ip := by
  rw [parse_v1] at accepted
  rcases v1_cases s with single | ⟨body, more, rfl, single⟩
  · rw [proxyV1, show findSub crlf (kV1 ++ s) = none from single] at accepted
    dsimp only at accepted
    split at accepted <;> cases accepted
  have shape : kV1 ++ (body ++ crlf ++ more) = kV1 ++ body ++ crlf ++ more := by
    simp only [List.append_assoc]
  rw [shape] at accepted ⊢
  rw [proxyV1_line lib.inet single] at accepted
  split at accepted
  · cases accepted
  obtain ⟨used, fields⟩ := proxyV1Fields_done accepted
  have two : crlf.length = 2 := rfl
  obtain rfl : more = [] := by
    rw [List.length_append, List.length_append, two] at used
    exact List.eq_nil_of_length_eq_zero (by omega)
  rw [List.append_nil]
  have line : ((kV1 ++ body ++ crlf).take ((kV1 ++ body ++ crlf).length - 2)).drop 6 = body := by
    rw [List.length_append, two, Nat.add_sub_cancel, List.take_left' rfl]
    rfl
  have text_ : ¬ kV2Sig <+: kV1 ++ body ++ crlf := by
    rw [List.append_assoc]
    exact (not_sig_of_v1 (List.prefix_append _ _)).1
  rcases fields with ⟨rfl, rest, toks⟩ | ⟨v6, dst, sport, dport, toks, valid, -⟩
  · refine hands_none ?_
    rw [namedBy, if_neg text_, line, toks]
    split
    · rename_i same
      cases same
      exact if_pos rfl
    · rfl
  · have named : namedBy (kV1 ++ body ++ crlf) = some (.v1 v6 ip) := by
      rw [namedBy, if_neg text_, line, toks]
      exact (if_neg (family_ne v6).1).trans (by rw [(family_ne v6).2.2.1])
    exact hands_some named valid

/-- What an accepted header hands on. -/
theorem parse_hands
    (accepted : uvParseProxyHeader lib.inet header = .done ip header.length) :
    Hands lib header ip := by
  by_cases binary : kV2Sig <+: header
  · obtain ⟨s, rfl⟩ := binary
    exact hands_v2 accepted
  by_cases line : kV1 <+: header
  · obtain ⟨s, rfl⟩ := line
    exact hands_v1 accepted
  · rw [uvParseProxyHeader_eq, if_neg binary, if_neg line] at accepted
    split at accepted <;> cases accepted

end Headers

/-! ### Keys -/

/-- A connection as it arrives: its socket's peer, and the PROXY header it begins with. -/
structure Arrival where
  socket : Option SockAddr
  header : Bytes := []

/-- What is learnt of its client, with its header read or not. -/
def Arrival.origin (a : Arrival) (proxyDone : Bool) : Origin :=
  ⟨a.socket, if proxyDone then namedBy a.header else none⟩

/-- The addresses that a step brings are those of the arrivals. -/
def Announced (lib : Conversions) (arr : Nat → Arrival) (s : Server) : Act → Prop
  | .accept _ ip => ip = peerName lib (arr s.nextId).socket
  | .acceptFailed _ => (arr s.nextId).socket = none
  | .proxy _ id ip =>
      uvParseProxyHeader lib.inet (arr id).header = .done ip (arr id).header.length
  | _ => True

/-- The address that a callback of `onConnection` is at. -/
def Task.announced : Task → Option Bytes
  | .arrived _ ip | .room _ ip | .slot _ ip => some ip
  | _ => none

/-- A connection's slot is kept under the text of its client. -/
structure Client.Keyed (lib : Conversions) (cfg : Limits) (a : Arrival) (c : Client) : Prop where
  key : c.peerIp = [] ∨ c.peerIp = (a.origin c.proxyDone).clientIp lib
  capped : c.peerIp ≠ [] → 0 < cfg.maxConnectionsPerIp
  valid : (a.origin c.proxyDone).Valid lib

/-- A callback of `onConnection` has the name of the peer, and comes before any header. -/
def Told (lib : Conversions) (arr : Nat → Arrival) (c : Client) (t : Task) : Prop :=
  ∀ ip ∈ t.announced, ip = peerName lib (arr t.id).socket ∧ c.proxyDone = false

structure Keyed (lib : Conversions) (cfg : Limits) (arr : Nat → Arrival) (s : Server) : Prop where
  clients : ∀ id c, s.clients.find id = some c → c.Keyed lib cfg (arr id)
  tasks : ∀ loop t c, s.tasks.find loop = some t → s.clients.find t.id = some c →
    Told lib arr c t

section Keys

variable {lib : Conversions} {cfg : Limits} {arr : Nat → Arrival} {s s' : Server}
  {loop id : Nat} {c c' : Client} {t t' : Task}

/-- What an operation of a loop does to its connection and its place: the connection may take
the slot it is at, or give up the one it has. -/
structure Advances (s s' : Server) (loop : Nat) (c : Client) (t : Task) : Prop where
  others : ∀ j, j ≠ t.id → s'.clients.find j = s.clients.find j
  mine : ∀ c', s'.clients.find t.id = some c' → c'.proxyDone = c.proxyDone ∧
    (c'.peerIp = c.peerIp ∨ c'.peerIp = [] ∨ t = .slot t.id c'.peerIp)
  elsewhere : ∀ l, l ≠ loop → s'.tasks.find l = s.tasks.find l
  here : ∀ t', s'.tasks.find loop = some t' →
    t'.id = t.id ∧ ∀ ip ∈ t'.announced, ip ∈ t.announced

/-- The callback returns. -/
theorem advances_done (others : ∀ j, j ≠ t.id → s'.clients.find j = s.clients.find j)
    (tasks : s'.tasks = s.tasks.erase loop)
    (mine : ∀ c', s'.clients.find t.id = some c' →
      c'.proxyDone = c.proxyDone ∧ (c'.peerIp = c.peerIp ∨ c'.peerIp = [])) :
    Advances s s' loop c t where
  others := others
  mine c' hc := ⟨(mine c' hc).1, (mine c' hc).2.imp_right .inl⟩
  elsewhere l hl := by rw [tasks, Table.find_erase, if_neg hl]
  here t' ht := by
    rw [tasks, Table.find_erase, if_pos rfl] at ht
    cases ht

theorem setClient_others (s : Server) (c : Client) {j : Nat} (hj : j ≠ id) :
    (s.setClient id c).clients.find j = s.clients.find j := by
  rw [Server.setClient, Table.find_set, if_neg hj]

theorem setClient_mine (s : Server) (id : Nat) (c : Client) :
    (s.setClient id c).clients.find id = some c := by
  rw [Server.setClient, Table.find_set, if_pos rfl]

theorem advances_refuse (s : Server) (loop : Nat) (c : Client) (t : Task) :
    Advances s (s.refuse loop t.id c) loop c t := by
  refine advances_done (fun j hj => setClient_others s _ hj) rfl fun c' hc => ?_
  obtain rfl := Option.some.inj ((setClient_mine s t.id _).symm.trans hc)
  exact ⟨rfl, .inl rfl⟩

/-- The connection is as it was, or is set to `c'`, and the loop goes on to `t'`. -/
theorem advances_setTask (s' : Server)
    (others : ∀ j, j ≠ t.id → s'.clients.find j = s.clients.find j)
    (tasks : s'.tasks = s.tasks) (mine : s'.clients.find t.id = some c')
    (done : c'.proxyDone = c.proxyDone)
    (key : c'.peerIp = c.peerIp ∨ c'.peerIp = [] ∨ t = .slot t.id c'.peerIp)
    (about : t'.id = t.id) (announced : ∀ ip ∈ t'.announced, ip ∈ t.announced) :
    Advances s (s'.setTask loop t') loop c t where
  others := others
  mine x hx := by
    have same : c' = x := Option.some.inj (mine.symm.trans hx)
    exact same ▸ ⟨done, key⟩
  elsewhere l hl := by rw [Server.setTask, Table.find_set, if_neg hl, tasks]
  here x hx := by
    rw [Server.setTask, Table.find_set, if_pos rfl] at hx
    have same : t' = x := Option.some.inj hx
    exact same ▸ ⟨about, announced⟩

theorem unannounced {ip : Option Bytes} {told : Bytes → Prop} (silent : ip = none) :
    ∀ announced ∈ ip, told announced := by
  intro announced mem
  rw [silent] at mem
  cases mem

/-- Every operation of a loop. -/
theorem advance_advances (hc : s.clients.find t.id = some c) (tlsOk : Bool) :
    Advances s (s.advance cfg loop tlsOk c t) loop c t := by
  cases t with
  | arrived id ip =>
      rw [Server.advance]
      split
      · exact advances_refuse s loop c (.arrived id ip)
      · exact advances_setTask s (fun _ _ => rfl) rfl hc rfl (.inl rfl) rfl fun _ told => told
  | room id ip =>
      rw [Server.advance, Server.tryRoom]
      split
      · exact advances_refuse s loop c (.room id ip)
      split
      · exact advances_setTask s (fun _ _ => rfl) rfl hc rfl (.inl rfl) rfl fun _ told => told
      · exact advances_setTask s (fun _ _ => rfl) rfl hc rfl (.inl rfl) rfl (unannounced rfl)
  | slot id ip =>
      rw [Server.advance, Server.tryIp]
      split
      · exact advances_refuse s loop c (.slot id ip)
      · exact advances_setTask (s.takeSlot id c ip) (fun j hj => setClient_others s _ hj) rfl
          (setClient_mine s id { c with peerIp := ip }) rfl (.inr (.inr rfl)) rfl (unannounced rfl)
  | count id =>
      exact advances_setTask { s.setClient id { c with counted := true } with live := s.live + 1 }
        (fun j hj => setClient_others s _ hj) rfl
        (setClient_mine s id { c with counted := true }) rfl (.inl rfl) rfl (unannounced rfl)
  | secure id =>
      refine advances_done (fun j hj => setClient_others s _ hj) rfl fun c' hc => ?_
      obtain rfl := Option.some.inj ((setClient_mine s id _).symm.trans hc)
      exact ⟨rfl, .inl rfl⟩
  | release id last =>
      rw [Server.advance]
      split
      · exact advances_setTask
          { s.setClient id { c with counted := false } with live := s.live - 1 }
          (fun j hj => setClient_others s _ hj) rfl
          (setClient_mine s id { c with counted := false }) rfl (.inl rfl) rfl (unannounced rfl)
      · exact advances_setTask s (fun _ _ => rfl) rfl hc rfl (.inl rfl) rfl (unannounced rfl)
  | releaseIp id last =>
      have dropped : ∀ j, (s.dropSlot id c).clients.find j =
          if j = id then some { c with peerIp := [] } else s.clients.find j :=
        Books.dropSlot_find hc
      have tasks := (Books.dropSlot_same s id c).2.1
      have mine : (s.dropSlot id c).clients.find id = some { c with peerIp := [] } := by
        rw [dropped, if_pos rfl]
      simp only [Server.advance]
      split
      · refine advances_done (fun j hj => ?_) (congrArg (·.erase loop) tasks) fun c' hc' => ?_
        · exact (Table.find_erase.trans (if_neg hj)).trans ((dropped j).trans (if_neg hj))
        · have gone : ((s.dropSlot id c).clients.erase id).find id = none :=
            Table.find_erase.trans (if_pos rfl)
          cases gone.symm.trans hc'
      · refine advances_done (fun j hj => (dropped j).trans (if_neg hj))
          (congrArg (·.erase loop) tasks) fun c' hc' => ?_
        obtain rfl := Option.some.inj (mine.symm.trans hc')
        exact ⟨rfl, .inr rfl⟩
  | register id =>
      refine advances_done (fun _ _ => rfl) rfl fun c' hc' => ?_
      obtain rfl := Option.some.inj (hc.symm.trans hc')
      exact ⟨rfl, .inl rfl⟩

/-- A connection that keeps its mark, or gives it up. -/
theorem Client.Keyed.of_same {a : Arrival} (h : c.Keyed lib cfg a)
    (done : c'.proxyDone = c.proxyDone)
    (key : c'.peerIp = c.peerIp ∨ c'.peerIp = []) : c'.Keyed lib cfg a := by
  constructor
  · rw [done]
    rcases key with same | none_
    · rw [same]
      exact h.key
    · exact .inl none_
  · rcases key with same | none_
    · rw [same]
      exact h.capped
    · exact fun named => absurd none_ named
  · rw [done]
    exact h.valid

theorem Keyed.advance (books : Books cfg s) (h : Keyed lib cfg arr s)
    (ht : s.tasks.find loop = some t) (hc : s.clients.find t.id = some c)
    (advances : Advances s s' loop c t) : Keyed lib cfg arr s' := by
  obtain ⟨x, hx, place, fits⟩ := books.attended loop t ht
  obtain rfl : c = x := Option.some.inj (hc.symm.trans hx)
  constructor
  · intro j c' hc'
    by_cases hj : j = t.id
    · subst hj
      obtain ⟨done, same | none_ | taken⟩ := advances.mine c' hc'
      · exact (h.clients _ c hc).of_same done (.inl same)
      · exact (h.clients _ c hc).of_same done (.inr none_)
      · obtain ⟨name, waiting⟩ := h.tasks loop t c ht hc c'.peerIp (by rw [taken]; rfl)
        rw [taken] at fits
        constructor
        · rw [done, waiting]
          exact .inr name
        · exact fun _ => fits.2.2.2
        · rw [done]
          exact (h.clients _ c hc).valid
    · rw [advances.others j hj] at hc'
      exact h.clients j c' hc'
  · intro l t' c' ht' hc'
    by_cases hl : l = loop
    · rw [hl] at ht'
      obtain ⟨about, announced⟩ := advances.here t' ht'
      intro ip mem
      obtain ⟨name, waiting⟩ := h.tasks loop t c ht hc ip (announced ip mem)
      rw [about] at hc' ⊢
      exact ⟨name, (advances.mine c' hc').1.trans waiting⟩
    · rw [advances.elsewhere l hl] at ht'
      refine h.tasks l t' c' ht' ?_
      rw [← advances.others]
      · exact hc'
      · intro same
        obtain ⟨y, hy, elsewhere, -⟩ := books.attended l t' ht'
        rw [same, hc] at hy
        obtain rfl := Option.some.inj hy
        exact hl (elsewhere.symm.trans place)

/-- A step at a connection whose loop is between callbacks. -/
theorem Keyed.change (books : Books cfg s) (h : Keyed lib cfg arr s)
    (hc : s.clients.find id = some c) (others : ∀ j, j ≠ id → s'.clients.find j = s.clients.find j)
    (mine : ∀ c', s'.clients.find id = some c' → c'.Keyed lib cfg (arr id))
    (elsewhere : ∀ l, l ≠ c.loop → s'.tasks.find l = s.tasks.find l)
    (here : ∀ t', s'.tasks.find c.loop = some t' → t'.announced = none) :
    Keyed lib cfg arr s' := by
  constructor
  · intro j c' hc'
    by_cases hj : j = id
    · subst hj
      exact mine c' hc'
    · rw [others j hj] at hc'
      exact h.clients j c' hc'
  · intro l t' c' ht' hc'
    by_cases hl : l = c.loop
    · rw [hl] at ht'
      rw [Told, here t' ht']
      exact nofun
    · rw [elsewhere l hl] at ht'
      refine h.tasks l t' c' ht' ?_
      rw [← others]
      · exact hc'
      · intro same
        obtain ⟨x, hx, place, -⟩ := books.attended l t' ht'
        rw [same, hc] at hx
        obtain rfl := Option.some.inj hx
        exact hl place.symm

/-- The loop of a connection begins with something else than `onConnection`. -/
theorem Keyed.setTask (books : Books cfg s) (h : Keyed lib cfg arr s)
    (hc : s.clients.find id = some c) (plain : t.announced = none) :
    Keyed lib cfg arr (s.setTask c.loop t) := by
  refine h.change books hc (fun _ _ => rfl) (fun x hx => h.clients id x hx) (fun l hl => ?_)
    fun t' ht' => ?_
  · rw [Server.setTask, Table.find_set, if_neg hl]
  · rw [Server.setTask, Table.find_set, if_pos rfl] at ht'
    obtain rfl := Option.some.inj ht'
    exact plain

/-- A new connection. -/
theorem Keyed.create (books : Books cfg s) (h : Keyed lib cfg arr s) (bare : c.peerIp = [])
    (undone : c.proxyDone = false) :
    Keyed lib cfg arr { s.setClient s.nextId c with nextId := s.nextId + 1 } := by
  constructor
  · intro j c' hc'
    by_cases hj : j = s.nextId
    · subst hj
      obtain rfl := Option.some.inj ((setClient_mine s s.nextId c).symm.trans hc')
      refine ⟨.inl bare, fun named => absurd bare named, ?_⟩
      rw [undone]
      exact nofun
    · exact h.clients j c' ((setClient_others s c hj).symm.trans hc')
  · intro l t' c' ht' hc'
    refine h.tasks l t' c' ht' ((setClient_others s c ?_).symm.trans hc')
    intro same
    obtain ⟨x, hx, -⟩ := books.attended l t' ht'
    exact Nat.lt_irrefl _ (same ▸ books.known _ x hx)

/-- The text of a client whose header has been read. -/
theorem origin_clientIp (lawful : lib.Lawful) {a : Arrival} {ip : Bytes}
    (hands : Hands lib a.header ip) :
    (a.origin true).clientIp lib = if ip = [] then (a.origin false).clientIp lib else ip := by
  obtain ⟨rfl, valid⟩ := hands
  simp only [Origin.clientIp, Arrival.origin, if_pos, Bool.false_eq_true, if_false]
  cases named : namedBy a.header with
  | none => exact (if_pos rfl).symm
  | some n => exact (if_neg (Named.text_ne_nil lawful (valid n named))).symm

/-- What the end of a PROXY header does to the slot. -/
theorem onProxy_shape (cfg : Limits) (s : Server) (id : Nat) (c : Client) (ip : Bytes) :
    (s.onProxy cfg id c ip).tasks = s.tasks ∧
      (∀ j, j ≠ id → (s.onProxy cfg id c ip).clients.find j = s.clients.find j) ∧
      ∃ c', (s.onProxy cfg id c ip).clients.find id = some c' ∧ c'.proxyDone = true ∧
        (c'.peerIp = [] ∨ (ip ≠ [] ∧ 0 < cfg.maxConnectionsPerIp ∧ c'.peerIp = ip) ∨
          (c'.peerIp = c.peerIp ∧ (ip = [] ∨ ¬ 0 < cfg.maxConnectionsPerIp ∨ ip = c.peerIp))) := by
  have mine := setClient_mine s id { c with proxyDone := true }
  have dropped := Books.dropSlot_find mine
  have tasks := (Books.dropSlot_same (s.setClient id { c with proxyDone := true }) id
    { c with proxyDone := true }).2.1
  have others : ∀ j, j ≠ id → ((s.setClient id { c with proxyDone := true }).dropSlot id
      { c with proxyDone := true }).clients.find j = s.clients.find j := by
    intro j hj
    rw [dropped, if_neg hj, setClient_others s _ hj]
  simp only [Server.onProxy]
  split
  · rename_i moves
    simp only [Server.moveSlot]
    split
    · refine ⟨tasks, fun j hj => (setClient_others _ _ hj).trans (others j hj), _,
        setClient_mine _ id _, rfl, .inl rfl⟩
    · refine ⟨tasks, fun j hj => (setClient_others _ _ hj).trans (others j hj), _,
        setClient_mine _ id _, rfl, .inr (.inl ⟨moves.1, moves.2.1, rfl⟩)⟩
  · rename_i stays
    refine ⟨rfl, fun j hj => setClient_others s _ hj, _, mine, rfl, .inr (.inr ⟨rfl, ?_⟩)⟩
    by_contra none_
    rw [not_or, not_or, not_not] at none_
    exact stays none_

theorem Keyed.onProxy (lawful : lib.Lawful) (books : Books cfg s) (h : Keyed lib cfg arr s)
    (hc : s.clients.find id = some c) (free : s.tasks.find c.loop = none)
    (undone : c.proxyDone = false) {ip : Bytes} (hands : Hands lib (arr id).header ip) :
    Keyed lib cfg arr (s.onProxy cfg id c ip) := by
  obtain ⟨tasks, others, c', hc', done, key⟩ := onProxy_shape cfg s id c ip
  have text := origin_clientIp lawful hands
  have before := h.clients id c hc
  have key_ := before.key
  rw [undone] at key_
  refine h.change books hc others (fun x hx => ?_) (fun l _ => by rw [tasks]) ?_
  · obtain rfl := Option.some.inj (hc'.symm.trans hx)
    constructor
    · rw [done, text]
      rcases key with bare | ⟨named, -, slot⟩ | ⟨same, why⟩
      · exact .inl bare
      · rw [if_neg named]
        exact .inr slot
      · rw [same]
        by_cases bare : c.peerIp = []
        · exact .inl bare
        · refine .inr ?_
          rcases why with none_ | off | eq
          · rw [if_pos none_]
            exact key_.resolve_left bare
          · exact absurd (before.capped bare) off
          · rw [if_neg (eq ▸ bare), eq]
    · intro slot
      rcases key with bare | ⟨-, on, -⟩ | ⟨same, -⟩
      · exact absurd bare slot
      · exact on
      · exact before.capped (same ▸ slot)
    · rw [done]
      exact hands.2
  · intro t' ht'
    rw [tasks, free] at ht'
    cases ht'

/-- Every step keeps the keys. -/
theorem keyed_step (lawful : lib.Lawful) {a : Act} (books : Books cfg s)
    (h : Keyed lib cfg arr s) (announced : Announced lib arr s a)
    (hstep : step cfg s a = some s') : Keyed lib cfg arr s' := by
  cases a with
  | accept loop ip =>
      simp only [step, Option.ite_none_left_eq_some, Option.some.injEq] at hstep
      obtain ⟨-, rfl⟩ := hstep
      have created : Keyed lib cfg arr { s.setClient s.nextId { loop := loop } with
        nextId := s.nextId + 1 } := h.create books rfl rfl
      refine ⟨created.clients, fun l t' c' ht' hc' => ?_⟩
      by_cases hl : l = loop
      · rw [hl, Server.setTask, Table.find_set, if_pos rfl] at ht'
        obtain rfl := Option.some.inj ht'
        obtain rfl := Option.some.inj ((setClient_mine s s.nextId _).symm.trans hc')
        rintro x ⟨⟩
        exact ⟨announced, rfl⟩
      · rw [Server.setTask, Table.find_set, if_neg hl] at ht'
        exact created.tasks l t' c' ht' hc'
  | acceptFailed loop =>
      simp only [step, Option.ite_none_left_eq_some, Option.some.injEq] at hstep
      obtain ⟨-, rfl⟩ := hstep
      exact h.create books rfl rfl
  | advance loop tlsOk =>
      simp only [step, Option.bind_eq_bind, Option.bind_eq_some_iff, Option.pure_def,
        Option.some.injEq] at hstep
      obtain ⟨t, ht, c, hc, rfl⟩ := hstep
      exact h.advance books ht hc (advance_advances hc tlsOk)
  | proxy loop id ip =>
      simp only [step, Option.bind_eq_bind, Option.bind_eq_some_iff, Option.pure_def,
        Option.ite_none_right_eq_some, Option.some.injEq] at hstep
      obtain ⟨c, resting, ⟨-, undone, -⟩, rfl⟩ := hstep
      obtain ⟨hc, rfl, free⟩ := idle_spec resting
      exact h.onProxy lawful books hc free (Bool.eq_false_iff.mpr undone) (parse_hands announced)
  | close loop id =>
      simp only [step, Option.bind_eq_bind, Option.bind_eq_some_iff, Option.pure_def,
        Option.some.injEq] at hstep
      obtain ⟨c, resting, rfl⟩ := hstep
      obtain ⟨hc, rfl, free⟩ := idle_spec resting
      refine h.change books hc (fun j hj => setClient_others s _ hj) (fun x hx => ?_)
        (fun _ _ => rfl) fun t' ht' => ?_
      · obtain rfl := Option.some.inj ((setClient_mine s id _).symm.trans hx)
        exact (h.clients id c hc).of_same rfl (.inl rfl)
      · cases free.symm.trans ht'
  | release loop id =>
      simp only [step, Option.bind_eq_bind, Option.bind_eq_some_iff, Option.pure_def,
        Option.some.injEq] at hstep
      obtain ⟨c, resting, rfl⟩ := hstep
      obtain ⟨hc, rfl, -⟩ := idle_spec resting
      exact h.setTask books hc rfl
  | closed loop id =>
      simp only [step, Option.bind_eq_bind, Option.bind_eq_some_iff, Option.pure_def,
        Option.ite_none_right_eq_some, Option.some.injEq] at hstep
      obtain ⟨c, resting, -, rfl⟩ := hstep
      obtain ⟨hc, rfl, -⟩ := idle_spec resting
      exact h.setTask books hc rfl
  | dispatch loop id =>
      simp only [step, Option.bind_eq_bind, Option.bind_eq_some_iff, Option.pure_def,
        Option.ite_none_left_eq_some, Option.some.injEq] at hstep
      obtain ⟨c, resting, -, rfl⟩ := hstep
      obtain ⟨hc, rfl, -⟩ := idle_spec resting
      split
      · exact h
      · exact h.setTask books hc rfl
  | retire request | beginDrain =>
      cases hstep
      exact ⟨h.clients, h.tasks⟩

end Keys

/-- One client, one key: two connections of one client have one text if and only if both of them
were told the address in its own form, or in one and the same other one; and so it is with the
keys of the slots that they hold. -/
theorem one_key_iff {lib : Conversions} (lawful : lib.Lawful) {cfg : Limits} {arr : Nat → Arrival}
    {s : Server} (run : Reaches (stepOf (step cfg)) (Announced lib arr) {} s) {i j : Nat}
    {c d : Client} {client : Bytes} (hc : s.clients.find i = some c)
    (hd : s.clients.find j = some d)
    (one : ((arr i).origin c.proxyDone).client lib = some client)
    (same : ((arr j).origin d.proxyDone).client lib = some client) :
    (((arr i).origin c.proxyDone).clientIp lib = ((arr j).origin d.proxyDone).clientIp lib ↔
        Origin.Alike lib client ((arr i).origin c.proxyDone) ((arr j).origin d.proxyDone)) ∧
      (c.peerIp ≠ [] → d.peerIp ≠ [] →
        (c.peerIp = d.peerIp ↔
          Origin.Alike lib client ((arr i).origin c.proxyDone) ((arr j).origin d.proxyDone))) := by
  obtain ⟨-, keyed⟩ : Books cfg s ∧ Keyed lib cfg arr s := by
    apply run.invariant (I := fun s => Books cfg s ∧ Keyed lib cfg arr s)
    · exact ⟨books_start, nofun, nofun⟩
    · rintro t a u ⟨books, keyed⟩ announced hstep
      exact ⟨books_step books hstep, keyed_step lawful books keyed announced hstep⟩
  have first := keyed.clients i c hc
  have second := keyed.clients j d hd
  have texts := clientIp_eq_iff lawful first.valid second.valid one same
  refine ⟨texts, fun slot slot' => ?_⟩
  rw [first.key.resolve_left slot, second.key.resolve_left slot']
  exact texts

/-! ### A client behind two spellings -/

section Spellings

def dotted (raw : Bytes) : Bytes := [46].intercalate (raw.map fun b => decimal b.toNat)

/-- Conversions that print as they should where IPv4 is concerned, and read one address. -/
def quads : Conversions where
  ntop v6 raw :=
    if v6 then
      if Mapped raw then mappedText ++ dotted (raw.drop 12)
      else raw.flatMap fun b => 58 :: decimal b.toNat
    else dotted raw
  pton v6 s := if v6 = false ∧ s = ascii "1.2.3.4" then some [1, 2, 3, 4] else none

theorem quads_lawful : quads.Lawful where
  sized := by
    intro v6 s raw read
    simp only [quads, Option.ite_none_right_eq_some, Option.some.injEq] at read
    obtain ⟨⟨rfl, -⟩, rfl⟩ := read
    rfl
  empty := by
    intro v6
    refine if_neg ?_
    rintro ⟨-, same⟩
    exact absurd same (by decide)
  quad := by
    intro v4 four
    have digits : ∀ b : UInt8, 58 ∉ decimal b.toNat := by
      have all : ∀ n < 256, 58 ∉ decimal n := by
        simp only [decimal_digits]
        decide +kernel
      exact fun b => all b.toNat b.toNat_lt
    obtain ⟨a, b, c, d, rfl⟩ := List.length_eq_four.mp four
    have shape : quads.ntop false [a, b, c, d] = decimal a.toNat ++ [46] ++
        (decimal b.toNat ++ [46] ++ (decimal c.toNat ++ [46] ++ decimal d.toNat)) := by
      simp [quads, dotted, List.intercalate, List.intersperse]
    rw [shape]
    constructor
    · exact List.mem_append_left _ (List.mem_append_right _ (List.mem_singleton_self 46))
    · simp [digits]
  mapped := by
    intro v4 four
    have mapped := mapped_append four
    simp only [quads, if_pos, mapped]
    rfl
  other := by
    intro raw sixteen unmapped
    have digits : ∀ b : UInt8, 46 ∉ 58 :: decimal b.toNat := by
      have all : ∀ n < 256, 46 ∉ 58 :: decimal n := by
        simp only [decimal_digits]
        decide +kernel
      exact fun b => all b.toNat b.toNat_lt
    have shape : quads.ntop true raw = raw.flatMap fun b => 58 :: decimal b.toNat := by
      simp [quads, unmapped]
    rw [shape]
    constructor
    · obtain ⟨b, rest, rfl⟩ := List.exists_cons_of_length_eq_add_one sixteen
      exact nofun
    · rintro ⟨-, dot⟩
      obtain ⟨b, -, mem⟩ := List.mem_flatMap.mp dot
      exact digits b mem

/-- The balancer. -/
def balancer : SockAddr := ⟨false, [10, 0, 0, 1], rfl⟩

/-- Three connections through the balancer, for one client: as a mapped address, as an IPv4 one,
and in text. -/
def through (id : Nat) : Arrival :=
  match id with
  | 1 => ⟨some balancer, kV2Sig ++ 0x21 :: 0x21 :: 0 :: 36 ::
      (mappedPrefix ++ [1, 2, 3, 4] ++ List.replicate 20 0)⟩
  | 2 => ⟨some balancer, kV2Sig ++ 0x21 :: 0x11 :: 0 :: 12 :: ([1, 2, 3, 4] ++ List.replicate 8 0)⟩
  | _ => ⟨some balancer, ascii "PROXY TCP4 1.2.3.4 1.2.3.4 1000 80" ++ crlf⟩

instance (lib : Conversions) (arr : Nat → Arrival) : ∀ s a, Decidable (Announced lib arr s a)
  | s, .accept _ ip => inferInstanceAs (Decidable (ip = peerName lib (arr s.nextId).socket))
  | s, .acceptFailed _ => inferInstanceAs (Decidable ((arr s.nextId).socket = none))
  | _, .proxy _ id ip => inferInstanceAs (Decidable
      (uvParseProxyHeader lib.inet (arr id).header = .done ip (arr id).header.length))
  | _, .advance _ _ | _, .close _ _ | _, .release _ _ | _, .closed _ _ | _, .dispatch _ _
  | _, .retire _ | _, .beginDrain => inferInstanceAs (Decidable True)

/-- A connection comes in and its header is read. -/
def arrives (id : Nat) (ip : Bytes) : List Act :=
  .accept 0 (ascii "10.0.0.1") :: List.replicate 5 (.advance 0 true) ++ [.proxy 0 id ip]

/-- An admitted connection that holds a slot of the address. -/
def slotOf (ip : Bytes) : Client := { loop := 0, counted := true, peerIp := ip, proxyDone := true }

/-- The three have a slot each, at two for an address. -/
theorem through_run : ∃ s, Reaches (stepOf (step ⟨0, 2, 0, true⟩)) (Announced quads through) {} s ∧
    s.clients.find 1 = some (slotOf (ascii "::ffff:1.2.3.4")) ∧
    s.clients.find 2 = some (slotOf (ascii "1.2.3.4")) ∧
    s.clients.find 3 = some (slotOf (ascii "1.2.3.4")) := by
  obtain ⟨s, run, slots⟩ := exec_any
    (f := guarded (Announced quads through) (step ⟨0, 2, 0, true⟩)) (s := {})
    (p := fun s => s.clients.find 1 = some (slotOf (ascii "::ffff:1.2.3.4")) ∧
      s.clients.find 2 = some (slotOf (ascii "1.2.3.4")) ∧
      s.clients.find 3 = some (slotOf (ascii "1.2.3.4")))
    (show (exec _ (arrives 1 (ascii "::ffff:1.2.3.4") ++ arrives 2 (ascii "1.2.3.4") ++
      arrives 3 (ascii "1.2.3.4")) _).any _ = true by decide +kernel)
  exact ⟨s, exec_guarded run, slots⟩

theorem one_key_iff_through : ∃ s c d,
    Reaches (stepOf (step ⟨0, 2, 0, true⟩)) (Announced quads through) {} s ∧
      s.clients.find 2 = some c ∧ s.clients.find 3 = some d ∧
      (((through 2).origin c.proxyDone).clientIp quads =
          ((through 3).origin d.proxyDone).clientIp quads ↔
        Origin.Alike quads [1, 2, 3, 4] ((through 2).origin c.proxyDone)
          ((through 3).origin d.proxyDone)) ∧
      (c.peerIp ≠ [] → d.peerIp ≠ [] →
        (c.peerIp = d.peerIp ↔
          Origin.Alike quads [1, 2, 3, 4] ((through 2).origin c.proxyDone)
            ((through 3).origin d.proxyDone))) := by
  obtain ⟨s, run, -, hc, hd⟩ := through_run
  have bytes : ((through 2).origin true).client quads = some [1, 2, 3, 4] := by decide +kernel
  have text : ((through 3).origin true).client quads = some [1, 2, 3, 4] := by decide +kernel
  exact ⟨s, _, _, run, hc, hd, one_key_iff quads_lawful run hc hd bytes text⟩

/-- The mapped address and the IPv4 one are one client's, and they have a key each. -/
theorem mapped_apart : ∃ s c d,
    Reaches (stepOf (step ⟨0, 2, 0, true⟩)) (Announced quads through) {} s ∧
      s.clients.find 1 = some c ∧ s.clients.find 2 = some d ∧
      ((through 1).origin c.proxyDone).client quads = some [1, 2, 3, 4] ∧
      ((through 2).origin d.proxyDone).client quads = some [1, 2, 3, 4] ∧
      ((through 1).origin c.proxyDone).clientIp quads ≠
        ((through 2).origin d.proxyDone).clientIp quads ∧
      c.peerIp ≠ [] ∧ d.peerIp ≠ [] ∧ c.peerIp ≠ d.peerIp := by
  obtain ⟨s, run, hc, hd, -⟩ := through_run
  refine ⟨s, _, _, run, hc, hd, ?_⟩
  decide +kernel

end Spellings

end NitroServer.Admission
