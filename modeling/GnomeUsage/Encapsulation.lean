/-
Encapsulation and its inverse.

A packet reaches the decoder as the payload of a frame: behind a link header that names its family,
an IP header, and a TCP or UDP header that starts with the two ports.  This module writes such
frames down, byte by byte, as the protocols have them, and shows that the decoder takes them apart
again, whatever stands in the other fields.

* `NetworkAnalyzer.IpHeader` — the headers of both versions, without options or extensions and not
  of a fragment;
* `NetworkAnalyzer.LinkHeader` — the three link headers, `LinkHeader.frame` — the frame;
* `linkPayload_frame` — what the decoder finds behind the link header;
* `header_of_stored`, `decode_ip` — what it makes of an IP header;
* `decode_encapsulate` — **decoding undoes encapsulation**, identically for the three links.
-/

import GnomeUsage.Decoder

set_option relaxedAutoImplicit false
set_option autoImplicit false

namespace NetworkAnalyzer

open ByteReader

/-! ### IP headers -/

/-- An IPv4 header of five words, not of a fragment: of the flags, the bit for more fragments and
the fragment offset are zero. -/
structure Ip4Header where
  ip_tos : BitVec 8
  ip_len : BitVec 16
  ip_id : BitVec 16
  flags : BitVec 2
  ip_ttl : BitVec 8
  ip_p : BitVec 8
  ip_sum : BitVec 16
  ip_src : InAddr
  ip_dst : InAddr

/-- The twenty bytes of the header; an address is held in memory as its four bytes are sent. -/
def Ip4Header.bytes (ip : Ip4Header) : List (BitVec 8) :=
  [0x45, ip.ip_tos] ++ netBytes16 ip.ip_len ++ netBytes16 ip.ip_id ++
    [ip.flags ++ (0 : BitVec 6), 0, ip.ip_ttl, ip.ip_p] ++ netBytes16 ip.ip_sum ++
    (hostBytes32 ip.ip_src.s_addr ++ hostBytes32 ip.ip_dst.s_addr)

/-- An IPv6 header. -/
structure Ip6Header where
  /-- The traffic class and the flow label. -/
  flow : BitVec 28
  ip6_plen : BitVec 16
  ip6_nxt : BitVec 8
  ip6_hlim : BitVec 8
  ip6_src : In6Addr
  ip6_dst : In6Addr

/-- The sixteen bytes of an address. -/
def In6Addr.bytes (addr : In6Addr) : List (BitVec 8) :=
  hostBytes32 addr.s6_addr32_0 ++ (hostBytes32 addr.s6_addr32_1 ++
    (hostBytes32 addr.s6_addr32_2 ++ hostBytes32 addr.s6_addr32_3))

/-- The forty bytes of the header. -/
def Ip6Header.bytes (ip6 : Ip6Header) : List (BitVec 8) :=
  [(6 : BitVec 4) ++ ip6.flow.extractLsb' 24 4, ip6.flow.extractLsb' 16 8,
    ip6.flow.extractLsb' 8 8, ip6.flow.extractLsb' 0 8] ++ netBytes16 ip6.ip6_plen ++
    [ip6.ip6_nxt, ip6.ip6_hlim] ++ (ip6.ip6_src.bytes ++ ip6.ip6_dst.bytes)

/-- A header of either version. -/
inductive IpHeader where
  | ip (header : Ip4Header)
  | ip6 (header : Ip6Header)

def IpHeader.family : IpHeader → SaFamily
  | .ip _ => .inet
  | .ip6 _ => .inet6

/-- The protocol behind the header. -/
def IpHeader.protocol : IpHeader → BitVec 8
  | .ip header => header.ip_p
  | .ip6 header => header.ip6_nxt

def IpHeader.address : IpHeader → IPAddress
  | .ip header => .ip header.ip_src header.ip_dst
  | .ip6 header => .ip6 header.ip6_src header.ip6_dst

def IpHeader.bytes : IpHeader → List (BitVec 8)
  | .ip header => header.bytes
  | .ip6 header => header.bytes

/-! ### Frames -/

/-- A link header, without the protocol it ends with. -/
inductive LinkHeader where
  /-- The two addresses of an Ethernet frame. -/
  | ethernet (addresses : Vector (BitVec 8) 12)
  /-- The address and the control byte of a PPP frame. -/
  | ppp (fields : Vector (BitVec 8) 2)
  /-- Packet type, hardware type, address length and address of a Linux cooked frame. -/
  | linuxCooked (fields : Vector (BitVec 8) 14)

def LinkHeader.linktype : LinkHeader → ℤ
  | .ethernet _ => DLT_EN10MB
  | .ppp _ => DLT_PPP
  | .linuxCooked _ => DLT_LINUX_SLL

/-- The bytes in front of the protocol. -/
def LinkHeader.front : LinkHeader → List (BitVec 8)
  | .ethernet addresses => addresses.toList
  | .ppp fields => fields.toList
  | .linuxCooked fields => fields.toList

/-- The number the link has for a family. -/
def LinkHeader.protocolOf : LinkHeader → SaFamily → BitVec 16
  | .ethernet _, .inet | .linuxCooked _, .inet => 0x0800
  | .ethernet _, .inet6 | .linuxCooked _, .inet6 => 0x86dd
  | .ppp _, .inet => 0x0021
  | .ppp _, .inet6 => 0x0057

theorem LinkHeader.protocolOf_ne (link : LinkHeader) :
    link.protocolOf .inet6 ≠ link.protocolOf .inet := by
  have hether : (0x86dd : BitVec 16) ≠ 0x0800 := by decide
  have hppp : (0x0057 : BitVec 16) ≠ 0x0021 := by decide
  cases link with
  | ethernet addresses => exact hether
  | ppp fields => exact hppp
  | linuxCooked fields => exact hether

/-- **A frame** with a payload of the given protocol. -/
def LinkHeader.frame (link : LinkHeader) (protocol : BitVec 16) (payload : List (BitVec 8)) :
    List (BitVec 8) :=
  link.front ++ (netBytes16 protocol ++ payload)

/-- The length of the link header. -/
def LinkHeader.size (link : LinkHeader) : ℕ := link.front.length + 2

theorem stored_frame {link : LinkHeader} {protocol : BitVec 16} {payload : List (BitVec 8)}
    {mem : ℕ → BitVec 8} (h : Stored mem 0 (link.frame protocol payload)) :
    be16 mem link.front.length = protocol ∧ Stored mem link.size payload := by
  obtain ⟨_, hrest⟩ := stored_append.1 h
  obtain ⟨hprotocol, hpayload⟩ := stored_append.1 hrest
  rw [Nat.zero_add] at hprotocol hpayload
  exact ⟨be16_of_stored hprotocol, hpayload⟩

/-- **What the decoder finds behind the link header.** -/
theorem linkPayload_frame {link : LinkHeader} {mem : ℕ → BitVec 8} {protocol : BitVec 16}
    (h : be16 mem link.front.length = protocol) :
    linkPayload link.linktype mem =
      if protocol = link.protocolOf .inet then some (.inet, link.size)
      else if protocol = link.protocolOf .inet6 then some (.inet6, link.size)
      else none := by
  have hword : ∀ w : BitVec 16, protocol = w ↔ protocol.toNat = w.toNat :=
    fun w => BitVec.toNat_inj.symm
  cases link with
  | ethernet addresses =>
      have hsize : (LinkHeader.ethernet addresses).front.length = 12 := addresses.size_toArray
      rw [hsize] at h
      simp only [LinkHeader.size, hsize, LinkHeader.protocolOf, hword]
      rw [← h]
      rfl
  | ppp fields =>
      have hsize : (LinkHeader.ppp fields).front.length = 2 := fields.size_toArray
      rw [hsize] at h
      simp only [LinkHeader.size, hsize, LinkHeader.protocolOf, hword]
      rw [← h]
      rfl
  | linuxCooked fields =>
      have hsize : (LinkHeader.linuxCooked fields).front.length = 14 := fields.size_toArray
      rw [hsize] at h
      simp only [LinkHeader.size, hsize, LinkHeader.protocolOf, hword]
      rw [← h]
      rfl

/-! ### The IP header -/

theorem in6AddrAt_of_stored {mem : ℕ → BitVec 8} {o : ℕ} {addr : In6Addr}
    (h : Stored mem o addr.bytes) : in6AddrAt mem o = addr := by
  obtain ⟨h0, h⟩ := stored_append.1 h
  obtain ⟨h1, h⟩ := stored_append.1 h
  obtain ⟨h2, h3⟩ := stored_append.1 h
  have h0 := le32_of_stored h0
  have h1 : le32 mem (o + 4) = _ := le32_of_stored h1
  have h2 : le32 mem (o + 8) = _ := le32_of_stored h2
  have h3 : le32 mem (o + 12) = _ := le32_of_stored h3
  rw [in6AddrAt, h0, h1, h2, h3]

/-- **What the decoder reads of an IP header.** -/
theorem header_of_stored {ip : IpHeader} {mem : ℕ → BitVec 8} {o : ℕ}
    (h : Stored mem o ip.bytes) :
    protocolAt mem o ip.family = ip.protocol.toNat ∧ addressAt mem o ip.family = ip.address ∧
      ip.bytes.length = headerSize ip.family := by
  cases ip with
  | ip ip =>
      have hlen : (IpHeader.ip ip).bytes.length = 20 := rfl
      have hprotocol : mem (o + 9) = ip.ip_p := h 9 (by omega)
      obtain ⟨_, haddr⟩ := stored_append.1 h
      obtain ⟨hsrc, hdst⟩ := stored_append.1 haddr
      have hsrc : le32 mem (o + 12) = _ := le32_of_stored hsrc
      have hdst : le32 mem (o + 16) = _ := le32_of_stored hdst
      refine ⟨congrArg BitVec.toNat hprotocol, ?_, hlen⟩
      simp only [IpHeader.family, IpHeader.address, addressAt, hsrc, hdst]
  | ip6 ip6 =>
      have hlen : (IpHeader.ip6 ip6).bytes.length = 40 := rfl
      have hprotocol : mem (o + 6) = ip6.ip6_nxt := h 6 (by omega)
      obtain ⟨_, haddr⟩ := stored_append.1 h
      obtain ⟨hsrc, hdst⟩ := stored_append.1 haddr
      have hsrc : in6AddrAt mem (o + 8) = _ := in6AddrAt_of_stored hsrc
      have hdst : in6AddrAt mem (o + 24) = _ := in6AddrAt_of_stored hdst
      refine ⟨congrArg BitVec.toNat hprotocol, ?_, hlen⟩
      simp only [IpHeader.family, IpHeader.address, addressAt, hsrc, hdst]

/-- What the decoder makes of a frame with an IP packet. -/
theorem decode_ip {link : LinkHeader} {ip : IpHeader} {payload : List (BitVec 8)}
    {mem : ℕ → BitVec 8}
    (h : Stored mem 0 (link.frame (link.protocolOf ip.family) (ip.bytes ++ payload)))
    (header : PcapPkthdr) :
    value (pcapDispatchCb link.linktype header 0) mem =
        (if IsTransport ip.protocol.toNat then
          some ⟨header, ip.address, be16 mem (link.size + headerSize ip.family),
            be16 mem (link.size + headerSize ip.family + 2)⟩
        else none) ∧
      Stored mem (link.size + headerSize ip.family) payload := by
  obtain ⟨hprotocol, hip⟩ := stored_frame h
  obtain ⟨hip, hpayload⟩ := stored_append.1 hip
  obtain ⟨htransport, haddress, hlen⟩ := header_of_stored hip
  rw [hlen] at hpayload
  have hlink : linkPayload link.linktype mem = some (ip.family, link.size) := by
    rw [linkPayload_frame hprotocol]
    cases ip with
    | ip ip => rw [IpHeader.family, if_pos rfl]
    | ip6 ip6 => rw [IpHeader.family, if_neg link.protocolOf_ne, if_pos rfl]
  refine ⟨?_, hpayload⟩
  rw [pcapDispatchCb_value, hlink, Option.bind_some, captureOf, htransport, captureAt, haddress]

/-- **Decoding undoes encapsulation.**  Behind any of the three link headers, an IP packet with TCP
or UDP leads to one call of `push_packet`, with the addresses of its header and its ports in host
order; one with another protocol leads to none, nor does a frame with another protocol. -/
theorem decode_encapsulate (link : LinkHeader) (header : PcapPkthdr) (beyond : ℕ → BitVec 8) :
    (∀ (ip : IpHeader) (s_port d_port : BitVec 16) (rest : List (BitVec 8)),
      IsTransport ip.protocol.toNat →
        value (pcapDispatchCb link.linktype header 0)
            (memory (link.frame (link.protocolOf ip.family)
              (ip.bytes ++ (netBytes16 s_port ++ (netBytes16 d_port ++ rest)))) beyond) =
          some ⟨header, ip.address, s_port, d_port⟩) ∧
      (∀ (ip : IpHeader) (payload : List (BitVec 8)), ¬ IsTransport ip.protocol.toNat →
        value (pcapDispatchCb link.linktype header 0)
            (memory (link.frame (link.protocolOf ip.family) (ip.bytes ++ payload)) beyond) =
          none) ∧
      ∀ (protocol : BitVec 16) (payload : List (BitVec 8)),
        (∀ family, protocol ≠ link.protocolOf family) →
          value (pcapDispatchCb link.linktype header 0)
            (memory (link.frame protocol payload) beyond) = none := by
  refine ⟨?_, ?_, ?_⟩
  · intro ip s_port d_port rest htransport
    have hstored := stored_memory (link.frame (link.protocolOf ip.family)
      (ip.bytes ++ (netBytes16 s_port ++ (netBytes16 d_port ++ rest)))) beyond
    obtain ⟨hvalue, hports⟩ := decode_ip hstored header
    obtain ⟨hs, hports⟩ := stored_append.1 hports
    obtain ⟨hd, _⟩ := stored_append.1 hports
    have hd := be16_of_stored hd
    rw [hvalue, if_pos htransport, be16_of_stored hs]
    exact congrArg (fun d => some (⟨header, ip.address, s_port, d⟩ : Capture)) hd
  · intro ip payload hother
    rw [(decode_ip (stored_memory _ beyond) header).1, if_neg hother]
  · intro protocol payload hne
    obtain ⟨hprotocol, _⟩ := stored_frame (stored_memory (link.frame protocol payload) beyond)
    rw [pcapDispatchCb_value, linkPayload_frame hprotocol, if_neg (hne .inet), if_neg (hne .inet6)]
    rfl

end NetworkAnalyzer
