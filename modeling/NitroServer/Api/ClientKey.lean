/-
The rate-limit key of a client behind proxies (`_clientKeyBehindProxies`, `middleware.dart`).

The key of a trusted peer is the nearest untrusted hop of `X-Forwarded-For`, walked from the right,
where the trusted proxy wrote the address of its client. But `header` gives the first line of the
field only. A client that sends a line of its own, in front of the one the proxy writes to, has its
line read instead.

* `walk_last` — an untrusted address at the end of the line is the key.
* `clientKey_untrusted` — the key of a peer that is not trusted is its address.
* `forwarded_key_iff` — the key is the client's, whatever lines it sent, exactly when the proxy's
  entry is in the first line.
-/

import NitroServer.Api.Text
import NitroServer.Bridge.Subprotocol

namespace NitroServer.Api

open Bridge (DartString text dartTrim)
open Engine (Bytes)
open Lib

/-! ### Addresses -/

/-- `InternetAddress`: its bytes, 4 or 16, and its text. -/
structure InternetAddress where
  rawAddress : Bytes
  address : DartString
deriving DecidableEq, Repr

/-- What the code calls of `dart:io`. -/
structure Internet where
  /-- `InternetAddress.tryParse`. -/
  tryParse : DartString → Option InternetAddress
  /-- `InternetAddress.fromRawAddress`. -/
  fromRawAddress : Bytes → InternetAddress

/-- `_unmap`. -/
def unmap (net : Internet) (ip : InternetAddress) : InternetAddress :=
  let raw := ip.rawAddress
  if raw.length ≠ 16 then ip
  else if (raw.take 10).any (· != 0) then ip
  else if raw[10]? ≠ some 0xff ∨ raw[11]? ≠ some 0xff then ip
  else net.fromRawAddress (raw.drop 12)

/-- `_Cidr`. -/
structure Cidr where
  address : InternetAddress
  bits : Nat
deriving DecidableEq, Repr

/-- The loop of `_Cidr.contains`, with `remaining` bits to compare. -/
def sameBits : Bytes → Bytes → Nat → Bool
  | _, _, 0 => true
  | a :: as, b :: bs, remaining + 1 =>
      let take := if 8 ≤ remaining + 1 then 8 else remaining + 1
      let mask : UInt8 := UInt8.ofNat (0xff <<< (8 - take))
      if a &&& mask ≠ b &&& mask then false else sameBits as bs (remaining + 1 - take)
  | _, _, _ + 1 => true

/-- `_Cidr.contains`. -/
def Cidr.contains (net : Internet) (c : Cidr) (ip : InternetAddress) : Bool :=
  let a := (unmap net c.address).rawAddress
  let b := (unmap net ip).rawAddress
  if a.length ≠ b.length then false else sameBits a b c.bits

/-- `trustedProxies.any((c) => c.contains(ip))`. -/
def isTrusted (net : Internet) (trustedProxies : List Cidr) (ip : InternetAddress) : Bool :=
  trustedProxies.any (·.contains net ip)

/-! ### `_clientKeyBehindProxies` -/

def hopComma : UInt16 := 0x2c

/-- The loop over the hops, the last one first: the key, if a hop decides it. -/
def walkHops (net : Internet) (trustedProxies : List Cidr) : List DartString → Option DartString
  | [] => none
  | raw :: hops =>
      match net.tryParse (dartTrim raw) with
      | none => none
      | some parsedHop =>
          let hop := unmap net parsedHop
          if isTrusted net trustedProxies hop then walkHops net trustedProxies hops
          else some hop.address

/-- What is read of a request by a trusted peer's key, once no hop decides it. -/
def withoutHops (net : Internet) (request : RequestContext) (peerIp : InternetAddress) :
    DartString :=
  match net.tryParse (((request.header (text "x-real-ip")).map dartTrim).getD []) with
  | some real => (unmap net real).address
  | none => peerIp.address

/-- `_clientKeyBehindProxies`. -/
def clientKeyBehindProxies (net : Internet) (request : RequestContext)
    (trustedProxies : List Cidr) : DartString :=
  match net.tryParse request.clientIp with
  | none => text "*"
  | some parsed =>
      let peerIp := unmap net parsed
      if ¬ isTrusted net trustedProxies peerIp then peerIp.address
      else
        match request.header (text "x-forwarded-for") with
        | none => withoutHops net request peerIp
        | some fwd =>
            if fwd = [] then withoutHops net request peerIp
            else
              (walkHops net trustedProxies (splitAtSep hopComma fwd).reverse).getD
                (withoutHops net request peerIp)

/-! ### The proxy -/

/-- How a proxy adds an entry to a field. -/
inductive ProxyMode where
  /-- To the end of the last line. -/
  | appends
  /-- As a line of its own, the last one. -/
  | addsLine
deriving DecidableEq, Repr

/-- The lines that leave the proxy. -/
def forwardedLines (mode : ProxyMode) (lines : List DartString) (client : DartString) :
    List DartString :=
  match mode, lines.getLast? with
  | .appends, some last => lines.dropLast ++ [last ++ text ", " ++ client]
  | _, _ => lines ++ [client]

/-- A request of a client that sent these lines, as it leaves the proxy. -/
def viaProxy (mode : ProxyMode) (request : RequestContext) (lines : List DartString)
    (client : DartString) : RequestContext :=
  { request with
    headers := fun name =>
      if name = text "x-forwarded-for" then some (forwardedLines mode lines client)
      else request.headers name }

/-- The text of an address that is not trusted, as an entry of the field. -/
structure Untrusted (net : Internet) (trustedProxies : List Cidr) (entry : DartString)
    (ip : InternetAddress) : Prop where
  parses : net.tryParse entry = some ip
  untrusted : isTrusted net trustedProxies (unmap net ip) = false
  trimmed : dartTrim entry = entry
  single : hopComma ∉ entry
  full : entry ≠ []

section Keys

variable {net : Internet} {trustedProxies : List Cidr} {entry : DartString} {ip : InternetAddress}

/-- The nearest hop decides the key. -/
theorem walk_last (u : Untrusted net trustedProxies entry ip) {raw : DartString}
    (trims : dartTrim raw = entry) (hops : List DartString) :
    walkHops net trustedProxies (raw :: hops) = some (unmap net ip).address := by
  rw [walkHops, trims, u.parses]
  exact if_neg (Bool.eq_false_iff.mp u.untrusted)

/-- The key of a line that is the entry. -/
theorem walk_entry (u : Untrusted net trustedProxies entry ip) :
    walkHops net trustedProxies (splitAtSep hopComma entry).reverse =
      some (unmap net ip).address := by
  have free : ∀ v ∈ entry, v ≠ hopComma := fun v mem same => u.single (same ▸ mem)
  rw [splitAtSep_none free]
  exact walk_last u u.trimmed []

/-- The key of a line that ends in the entry. -/
theorem walk_appended (u : Untrusted net trustedProxies entry ip) (line : DartString) :
    walkHops net trustedProxies (splitAtSep hopComma (line ++ text ", " ++ entry)).reverse =
      some (unmap net ip).address := by
  have separator : text ", " = [hopComma, 0x20] := by decide
  have free : ∀ v ∈ (0x20 : UInt16) :: entry, v ≠ hopComma := by
    rw [List.forall_mem_cons]
    exact ⟨by decide, fun v mem same => u.single (same ▸ mem)⟩
  have cut : splitAtSep hopComma (line ++ text ", " ++ entry) =
      splitAtSep hopComma line ++ [0x20 :: entry] := by
    rw [separator, List.append_assoc, List.cons_append, List.singleton_append, splitAtSep_append,
      splitAtSep_none free]
  rw [cut, List.reverse_append, List.reverse_singleton, List.singleton_append]
  exact walk_last u u.trimmed _

/-- A peer that is not trusted is known by its own address, whatever headers it sends. -/
theorem clientKey_untrusted {request : RequestContext} {peer : InternetAddress}
    (parses : net.tryParse request.clientIp = some peer)
    (untrusted : isTrusted net trustedProxies (unmap net peer) = false) :
    clientKeyBehindProxies net request trustedProxies = (unmap net peer).address := by
  have stranger : ¬ isTrusted net trustedProxies (unmap net peer) = true :=
    Bool.eq_false_iff.mp untrusted
  rw [clientKeyBehindProxies, parses]
  exact if_pos stranger

/-- A trusted peer is known by what the first line of the field decides. -/
theorem clientKey_trusted (request : RequestContext) {peer : InternetAddress} {fwd key : DartString}
    (parses : net.tryParse request.clientIp = some peer)
    (trusted : isTrusted net trustedProxies (unmap net peer) = true)
    (first : request.header (text "x-forwarded-for") = some fwd) (full : fwd ≠ [])
    (decides : walkHops net trustedProxies (splitAtSep hopComma fwd).reverse = some key) :
    clientKeyBehindProxies net request trustedProxies = key := by
  rw [clientKeyBehindProxies, parses]
  simp only [trusted, not_true_eq_false, if_false, first, full, decides, Option.getD_some]

theorem header_viaProxy (mode : ProxyMode) (request : RequestContext) (lines : List DartString)
    (client : DartString) :
    (viaProxy mode request lines client).header (text "x-forwarded-for") =
      (forwardedLines mode lines client).head? := by
  rw [RequestContext.header, viaProxy]
  simp only [if_true, Option.bind_some]

/-- A line of the client stays the first one, unless it is the only one and is appended to. -/
theorem head?_forwardedLines {mode : ProxyMode} {line : DartString} {more : List DartString}
    (behind : mode = .addsLine ∨ more ≠ []) (client : DartString) :
    (forwardedLines mode (line :: more) client).head? = some line := by
  cases mode with
  | addsLine => rfl
  | appends =>
      obtain ⟨next, more, rfl⟩ := List.exists_cons_of_ne_nil (behind.resolve_left nofun)
      cases last : (line :: next :: more).getLast? with
      | none => simp [forwardedLines, last]
      | some v => simp [forwardedLines, last]

end Keys

/-- A trusted proxy adds the address of its client to the field. The key of the client's requests
is that address, whatever lines the client sent, if and only if it sent none, or one to which the
proxy appends. And a peer that is not trusted is known by its own address. -/
theorem forwarded_key_iff {net : Internet} {trustedProxies : List Cidr} {request : RequestContext}
    {peer ip otherIp : InternetAddress} {client other : DartString}
    (parses : net.tryParse request.clientIp = some peer)
    (clients : Untrusted net trustedProxies client ip)
    (others : Untrusted net trustedProxies other otherIp)
    (differ : (unmap net otherIp).address ≠ (unmap net ip).address) (mode : ProxyMode) (n : Nat) :
    (isTrusted net trustedProxies (unmap net peer) = true →
      ((∀ lines, lines.length = n →
        clientKeyBehindProxies net (viaProxy mode request lines client) trustedProxies =
          (unmap net ip).address) ↔ n = 0 ∨ n = 1 ∧ mode = .appends)) ∧
    (isTrusted net trustedProxies (unmap net peer) = false → ∀ headers,
      clientKeyBehindProxies net { request with headers } trustedProxies =
        (unmap net peer).address) := by
  refine ⟨fun trusted => ⟨fun same => ?_, ?_⟩, fun untrusted headers =>
    clientKey_untrusted parses untrusted⟩
  · by_contra beyond
    -- the client's own first line is the other address
    obtain ⟨m, rfl⟩ : ∃ m, n = m + 1 := ⟨n - 1, by omega⟩
    have behind : mode = .addsLine ∨ List.replicate m ([] : DartString) ≠ [] := by
      cases mode with
      | addsLine => exact .inl rfl
      | appends =>
          right
          intro none_
          have zero : m = 0 := by simpa using none_
          exact beyond (.inr ⟨by omega, rfl⟩)
    have forged := clientKey_trusted (viaProxy mode request (other :: List.replicate m []) client)
      parses trusted (by rw [header_viaProxy, head?_forwardedLines behind]) others.full
      (walk_entry others)
    rw [same _ (by simp)] at forged
    exact differ forged.symm
  · rintro (rfl | ⟨rfl, rfl⟩)
    · intro lines none_
      obtain rfl := List.length_eq_zero_iff.mp none_
      have head : (forwardedLines mode [] client).head? = some client := by
        cases mode with
        | appends => rfl
        | addsLine => rfl
      exact clientKey_trusted _ parses trusted (by rw [header_viaProxy, head]) clients.full
        (walk_entry clients)
    · intro lines one
      obtain ⟨line, rfl⟩ := List.length_eq_one_iff.mp one
      have head : (forwardedLines .appends [line] client).head? =
          some (line ++ text ", " ++ client) := rfl
      exact clientKey_trusted _ parses trusted (by rw [header_viaProxy, head])
        (by simp [clients.full]) (walk_appended clients line)

/-! ### A proxy of a private network -/

/-- The addresses of a proxy, of its client, and of somebody else. -/
def threeHosts : Internet where
  tryParse s :=
    if s = text "10.0.0.1" then some ⟨[10, 0, 0, 1], s⟩
    else if s = text "203.0.113.7" then some ⟨[203, 0, 113, 7], s⟩
    else if s = text "198.51.100.9" then some ⟨[198, 51, 100, 9], s⟩
    else none
  fromRawAddress raw := ⟨raw, [0x2e].intercalate (raw.map fun b => intText b.toNat)⟩

def privateNetwork : List Cidr := [⟨⟨[10, 0, 0, 0], text "10.0.0.0"⟩, 8⟩]

def proxied : RequestContext := { clientIp := text "10.0.0.1", headers := fun _ => none }

theorem forwarded_key_private :
    isTrusted threeHosts privateNetwork ⟨[10, 0, 0, 1], text "10.0.0.1"⟩ = true ∧
      ∀ lines, lines.length = 1 →
        clientKeyBehindProxies threeHosts
            (viaProxy .appends proxied lines (text "203.0.113.7")) privateNetwork =
          text "203.0.113.7" := by
  have client : Untrusted threeHosts privateNetwork (text "203.0.113.7")
      ⟨[203, 0, 113, 7], text "203.0.113.7"⟩ := by
    constructor <;> decide +kernel
  have other : Untrusted threeHosts privateNetwork (text "198.51.100.9")
      ⟨[198, 51, 100, 9], text "198.51.100.9"⟩ := by
    constructor <;> decide +kernel
  have parses : threeHosts.tryParse proxied.clientIp =
      some ⟨[10, 0, 0, 1], text "10.0.0.1"⟩ := by decide +kernel
  have trusted : isTrusted threeHosts privateNetwork ⟨[10, 0, 0, 1], text "10.0.0.1"⟩ = true := by
    decide +kernel
  exact ⟨trusted, ((forwarded_key_iff parses client other (by decide +kernel) .appends 1).1
    trusted).mpr (.inr ⟨rfl, rfl⟩)⟩

/-- The proxy adds a line; the client's own line is read. -/
theorem forwarded_key_forged :
    isTrusted threeHosts privateNetwork ⟨[10, 0, 0, 1], text "10.0.0.1"⟩ = true ∧
      clientKeyBehindProxies threeHosts (viaProxy .addsLine proxied [] (text "203.0.113.7"))
        privateNetwork = text "203.0.113.7" ∧
      clientKeyBehindProxies threeHosts
        (viaProxy .addsLine proxied [text "198.51.100.9"] (text "203.0.113.7")) privateNetwork =
          text "198.51.100.9" ∧
      clientKeyBehindProxies threeHosts
        (viaProxy .appends proxied [text "198.51.100.9", []] (text "203.0.113.7")) privateNetwork =
          text "198.51.100.9" := by
  decide +kernel

end NitroServer.Api
