/-
The packet decoder (`na-pcap.c`).

`pcap_dispatch_cb` looks at the link header of a captured frame, then at the IP header behind it,
then at the ports behind that, each at a fixed offset from the one before.  The frame is a memory
of which the first `caplen` bytes were captured; the functions read it with
`GnomeUsage/ByteReader.lean`, and return the arguments of the call of `push_packet`, if they make
one.

* `parseIp`, `parseIp6`, `parseEthernet`, `parsePpp`, `parseLinuxCooked`, `pcapDispatchCb` — the
  parsers;
* `linkPayload`, `pcapDispatchCb_value` — **what the decoder returns**, in terms of the bytes of the
  frame;
* `Carries` — the frame carries a packet of the flow: a TCP or UDP header behind an IP header of
  that version, which says how long it is;
* `Framed` — the frame is one the decoder can read;
* `decoder_sound_iff` — **the decoder is right about a frame exactly when it can read it**;
* `options_misread` — a frame with IP options, of which the decoder takes the options for the
  ports.
-/

import GnomeUsage.ByteReader
import GnomeUsage.Process

set_option relaxedAutoImplicit false
set_option autoImplicit false

namespace NetworkAnalyzer

open ByteReader

/-! ### The parsers -/

def TCP_PROTOCOL_NUMBER : ℕ := 6
def UDP_PROTOCOL_NUMBER : ℕ := 17

def ETHERTYPE_IP : ℕ := 0x0800
def ETHERTYPE_IPV6 : ℕ := 0x86dd

def PPP_HDRLEN : ℕ := 4
def PPP_IP : ℕ := 0x21
def PPP_IPV6 : ℕ := 0x57

/-- The values of `linktype`, as in `pcap/bpf.h`. -/
def DLT_NULL : ℤ := 0
def DLT_EN10MB : ℤ := 1
def DLT_PPP : ℤ := 9
def DLT_RAW : ℤ := 12
def DLT_LINUX_SLL : ℤ := 113

/-- `sizeof (struct ip)`, and the offsets of its fields. -/
def sizeofIp : ℕ := 20

/-- `sizeof (struct ip6_hdr)`. -/
def sizeofIp6 : ℕ := 40

/-- `sizeof (struct ether_header)`. -/
def sizeofEther : ℕ := 14

/-- `sizeof (struct sll_header)`. -/
def sizeofSll : ℕ := 16

/-- A `struct in_addr` at an offset. -/
def loadInAddr (i : ℕ) : ByteReader InAddr := do
  let s_addr ← load32 i
  pure ⟨s_addr⟩

/-- A `struct in6_addr` at an offset. -/
def loadIn6Addr (i : ℕ) : ByteReader In6Addr := do
  let a ← load32 i
  let b ← load32 (i + 4)
  let c ← load32 (i + 8)
  let d ← load32 (i + 12)
  pure ⟨a, b, c, d⟩

/-- `parse_tcp` and `parse_udp` read the ports at the same place. -/
def parsePorts (header : PcapPkthdr) (packet : ℕ) (address : IPAddress) :
    ByteReader (Option Capture) := do
  let source ← load16 packet
  let dest ← load16 (packet + 2)
  pure (some ⟨header, address, ntohs source, ntohs dest⟩)

def parseTcp : PcapPkthdr → ℕ → IPAddress → ByteReader (Option Capture) := parsePorts

def parseUdp : PcapPkthdr → ℕ → IPAddress → ByteReader (Option Capture) := parsePorts

/-- The `switch` on the transport protocol. -/
def parseTransport (header : PcapPkthdr) (payload : ℕ) (address : IPAddress)
    (protocol : BitVec 8) : ByteReader (Option Capture) :=
  if protocol.toNat = TCP_PROTOCOL_NUMBER then parseTcp header payload address
  else if protocol.toNat = UDP_PROTOCOL_NUMBER then parseUdp header payload address
  else pure none

def parseIp (header : PcapPkthdr) (packet : ℕ) : ByteReader (Option Capture) := do
  let ip_src ← loadInAddr (packet + 12)
  let ip_dst ← loadInAddr (packet + 16)
  let ip_p ← byte (packet + 9)
  parseTransport header (packet + sizeofIp) (.ip ip_src ip_dst) ip_p

def parseIp6 (header : PcapPkthdr) (packet : ℕ) : ByteReader (Option Capture) := do
  let ip6_src ← loadIn6Addr (packet + 8)
  let ip6_dst ← loadIn6Addr (packet + 24)
  let ip6_un1_nxt ← byte (packet + 6)
  parseTransport header (packet + sizeofIp6) (.ip6 ip6_src ip6_dst) ip6_un1_nxt

def parseEthernet (header : PcapPkthdr) (packet : ℕ) : ByteReader (Option Capture) := do
  let ether_type ← load16 (packet + 12)
  if (ntohs ether_type).toNat = ETHERTYPE_IP then parseIp header (packet + sizeofEther)
  else if (ntohs ether_type).toNat = ETHERTYPE_IPV6 then parseIp6 header (packet + sizeofEther)
  else pure none

/-- The macro `PPP_PROTOCOL`. -/
def pppProtocol (packet : ℕ) : ByteReader ℕ := do
  let hi ← byte (packet + 2)
  let lo ← byte (packet + 3)
  pure (hi.toNat * 2 ^ 8 + lo.toNat)

def parsePpp (header : PcapPkthdr) (packet : ℕ) : ByteReader (Option Capture) := do
  let protocol ← pppProtocol packet
  if protocol = PPP_IP then parseIp header (packet + PPP_HDRLEN)
  else if protocol = PPP_IPV6 then parseIp6 header (packet + PPP_HDRLEN)
  else pure none

def parseLinuxCooked (header : PcapPkthdr) (packet : ℕ) : ByteReader (Option Capture) := do
  -- the protocol is compared without a conversion
  let sll_protocol ← load16 (packet + 14)
  if sll_protocol = 0x0008 then parseIp header (packet + sizeofSll)
  else if sll_protocol = 0xDD86 then parseIp6 header (packet + sizeofSll)
  else pure none

/-- `pcap_dispatch_cb`, on a handle with the given link type. -/
def pcapDispatchCb (linktype : ℤ) (header : PcapPkthdr) (packet : ℕ) :
    ByteReader (Option Capture) :=
  if linktype = DLT_EN10MB then parseEthernet header packet
  else if linktype = DLT_PPP then parsePpp header packet
  else if linktype = DLT_LINUX_SLL then parseLinuxCooked header packet
  else if linktype = DLT_RAW then parseIp header packet
  else if linktype = DLT_NULL then parseIp header packet
  else pure none

/-! ### What the decoder returns -/

/-- The family a protocol number of the link header stands for, and the offset behind the link
header. -/
def selectFamily (protocol ip ip6 payload : ℕ) : Option (SaFamily × ℕ) :=
  if protocol = ip then some (.inet, payload)
  else if protocol = ip6 then some (.inet6, payload)
  else none

/-- The family and the offset of the header the decoder reads as the IP header of a frame. -/
def linkPayload (linktype : ℤ) (mem : ℕ → BitVec 8) : Option (SaFamily × ℕ) :=
  if linktype = DLT_EN10MB then selectFamily (be16 mem 12).toNat ETHERTYPE_IP ETHERTYPE_IPV6 14
  else if linktype = DLT_PPP then selectFamily (be16 mem 2).toNat PPP_IP PPP_IPV6 4
  else if linktype = DLT_LINUX_SLL then
    selectFamily (be16 mem 14).toNat ETHERTYPE_IP ETHERTYPE_IPV6 16
  else if linktype = DLT_RAW then some (.inet, 0)
  else if linktype = DLT_NULL then some (.inet, 0)
  else none

/-- The transport protocol named by the IP header at an offset. -/
def protocolAt (mem : ℕ → BitVec 8) (o : ℕ) : SaFamily → ℕ
  | .inet => (mem (o + 9)).toNat
  | .inet6 => (mem (o + 6)).toNat

/-- TCP or UDP. -/
def IsTransport (protocol : ℕ) : Prop :=
  protocol = TCP_PROTOCOL_NUMBER ∨ protocol = UDP_PROTOCOL_NUMBER

instance (protocol : ℕ) : Decidable (IsTransport protocol) := inferInstanceAs (Decidable (_ ∨ _))

/-- The `in6_addr` of the sixteen bytes at an offset. -/
def in6AddrAt (mem : ℕ → BitVec 8) (i : ℕ) : In6Addr :=
  ⟨le32 mem i, le32 mem (i + 4), le32 mem (i + 8), le32 mem (i + 12)⟩

/-- The addresses of the IP header at an offset. -/
def addressAt (mem : ℕ → BitVec 8) (o : ℕ) : SaFamily → IPAddress
  | .inet => .ip ⟨le32 mem (o + 12)⟩ ⟨le32 mem (o + 16)⟩
  | .inet6 => .ip6 (in6AddrAt mem (o + 8)) (in6AddrAt mem (o + 24))

/-- The size of the IP header without options or extensions. -/
def headerSize : SaFamily → ℕ
  | .inet => sizeofIp
  | .inet6 => sizeofIp6

/-- What the decoder makes of an IP header at an offset. -/
def captureAt (header : PcapPkthdr) (mem : ℕ → BitVec 8) (o : ℕ) (family : SaFamily) : Capture where
  header := header
  address := addressAt mem o family
  s_port := be16 mem (o + headerSize family)
  d_port := be16 mem (o + headerSize family + 2)

/-- The same, if the header names TCP or UDP. -/
def captureOf (header : PcapPkthdr) (mem : ℕ → BitVec 8) (x : SaFamily × ℕ) : Option Capture :=
  if IsTransport (protocolAt mem x.2 x.1) then some (captureAt header mem x.2 x.1) else none

theorem parseTransport_value (header : PcapPkthdr) (payload : ℕ) (address : IPAddress)
    (protocol : BitVec 8) (mem : ℕ → BitVec 8) :
    value (parseTransport header payload address protocol) mem =
      if IsTransport protocol.toNat then
        some ⟨header, address, be16 mem payload, be16 mem (payload + 2)⟩
      else none := by
  have hports : value (parsePorts header payload address) mem =
      some ⟨header, address, be16 mem payload, be16 mem (payload + 2)⟩ := by
    simp [parsePorts]
  unfold parseTransport
  by_cases htcp : protocol.toNat = TCP_PROTOCOL_NUMBER
  · have htransport : IsTransport protocol.toNat := .inl htcp
    rw [if_pos htcp, if_pos htransport]
    exact hports
  · by_cases hudp : protocol.toNat = UDP_PROTOCOL_NUMBER
    · have htransport : IsTransport protocol.toNat := .inr hudp
      rw [if_neg htcp, if_pos hudp, if_pos htransport]
      exact hports
    · have hother : ¬ IsTransport protocol.toNat := fun h => h.elim htcp hudp
      rw [if_neg htcp, if_neg hudp, if_neg hother]
      rfl

theorem parseIp_value (header : PcapPkthdr) (o : ℕ) (mem : ℕ → BitVec 8) :
    value (parseIp header o) mem = captureOf header mem (.inet, o) := by
  simp only [parseIp, loadInAddr, value_bind, value_pure, value_load32, value_byte,
    parseTransport_value]
  rfl

theorem parseIp6_value (header : PcapPkthdr) (o : ℕ) (mem : ℕ → BitVec 8) :
    value (parseIp6 header o) mem = captureOf header mem (.inet6, o) := by
  simp only [parseIp6, loadIn6Addr, value_bind, value_pure, value_load32, value_byte,
    parseTransport_value]
  rfl

/-- The `switch` on the protocol number of a link header. -/
theorem select_value (header : PcapPkthdr) (mem : ℕ → BitVec 8) (protocol ip ip6 o : ℕ) :
    value (if protocol = ip then parseIp header o
        else if protocol = ip6 then parseIp6 header o
        else pure none) mem =
      (selectFamily protocol ip ip6 o).bind (captureOf header mem) := by
  unfold selectFamily
  split
  · exact parseIp_value header o mem
  · split
    · exact parseIp6_value header o mem
    · rfl

/-- The comparisons of `parse_linux_cooked`, on the word as loaded, are comparisons of the network
word. -/
theorem sll_protocol_eq_iff (mem : ℕ → BitVec 8) (i : ℕ) (hi lo : BitVec 8) :
    mem (i + 1) ++ mem i = lo ++ hi ↔ (be16 mem i).toNat = hi.toNat * 2 ^ 8 + lo.toNat := by
  rw [ByteReader.append_inj, be16_toNat]
  have h := (mem i).isLt
  have h' := (mem (i + 1)).isLt
  have hhi := hi.isLt
  have hlo := lo.isLt
  constructor
  · rintro ⟨rfl, rfl⟩
    rfl
  · intro heq
    exact ⟨BitVec.eq_of_toNat_eq (by omega), BitVec.eq_of_toNat_eq (by omega)⟩

theorem parseEthernet_value (header : PcapPkthdr) (mem : ℕ → BitVec 8) :
    value (parseEthernet header 0) mem =
      (selectFamily (be16 mem 12).toNat ETHERTYPE_IP ETHERTYPE_IPV6 14).bind
        (captureOf header mem) := by
  rw [← select_value, ← ntohs_load16 mem 12]
  rfl

theorem parsePpp_value (header : PcapPkthdr) (mem : ℕ → BitVec 8) :
    value (parsePpp header 0) mem =
      (selectFamily (be16 mem 2).toNat PPP_IP PPP_IPV6 4).bind (captureOf header mem) := by
  have hprotocol : value (pppProtocol 0) mem = (be16 mem 2).toNat := (be16_toNat mem 2).symm
  rw [← select_value, ← hprotocol, parsePpp, value_bind, PPP_HDRLEN]

theorem parseLinuxCooked_value (header : PcapPkthdr) (mem : ℕ → BitVec 8) :
    value (parseLinuxCooked header 0) mem =
      (selectFamily (be16 mem 14).toNat ETHERTYPE_IP ETHERTYPE_IPV6 16).bind
        (captureOf header mem) := by
  have hip : mem 15 ++ mem 14 = (0x0008 : BitVec 16) ↔ (be16 mem 14).toNat = ETHERTYPE_IP :=
    sll_protocol_eq_iff mem 14 0x08 0x00
  have hip6 : mem 15 ++ mem 14 = (0xDD86 : BitVec 16) ↔ (be16 mem 14).toNat = ETHERTYPE_IPV6 :=
    sll_protocol_eq_iff mem 14 0x86 0xDD
  rw [← select_value]
  change value (if mem 15 ++ mem 14 = (0x0008 : BitVec 16) then parseIp header 16
    else if mem 15 ++ mem 14 = (0xDD86 : BitVec 16) then parseIp6 header 16
    else pure none) mem = _
  simp only [hip, hip6]

/-- **What the decoder returns.** -/
theorem pcapDispatchCb_value (linktype : ℤ) (header : PcapPkthdr) (mem : ℕ → BitVec 8) :
    value (pcapDispatchCb linktype header 0) mem =
      (linkPayload linktype mem).bind (captureOf header mem) := by
  unfold pcapDispatchCb linkPayload
  split
  · exact parseEthernet_value header mem
  · split
    · exact parsePpp_value header mem
    · split
      · exact parseLinuxCooked_value header mem
      · split
        · exact parseIp_value header 0 mem
        · split
          · exact parseIp_value header 0 mem
          · rfl

/-! ### What a frame carries -/

/-- Where the IP header of a frame starts. -/
def payloadOffset (linktype : ℤ) : ℕ :=
  if linktype = DLT_EN10MB then 14
  else if linktype = DLT_PPP then 4
  else if linktype = DLT_LINUX_SLL then 16
  else if linktype = DLT_RAW then 0
  else 4

/-- The version of the IP header at an offset. -/
def versionAt (mem : ℕ → BitVec 8) (o : ℕ) : ℕ := (mem o).toNat / 2 ^ 4

/-- The length of the IPv4 header at an offset, in words. -/
def ihlAt (mem : ℕ → BitVec 8) (o : ℕ) : ℕ := (mem o).toNat % 2 ^ 4

/-- The fragment offset of the IPv4 header at an offset. -/
def fragmentAt (mem : ℕ → BitVec 8) (o : ℕ) : ℕ := (be16 mem (o + 6)).toNat % 2 ^ 13

/-- **The captured bytes carry, at offset `o`, a packet with these addresses and ports**: an IP
header of their version, not a later fragment, with TCP or UDP behind all of it. -/
def Carries (mem : ℕ → BitVec 8) (caplen o : ℕ) (a : Capture) : Prop :=
  match a.address with
  | .ip src dst =>
      versionAt mem o = 4 ∧ 5 ≤ ihlAt mem o ∧ o + 4 * ihlAt mem o + 4 ≤ caplen ∧
        fragmentAt mem o = 0 ∧ IsTransport (mem (o + 9)).toNat ∧
        src = ⟨le32 mem (o + 12)⟩ ∧ dst = ⟨le32 mem (o + 16)⟩ ∧
        a.s_port = be16 mem (o + 4 * ihlAt mem o) ∧ a.d_port = be16 mem (o + 4 * ihlAt mem o + 2)
  | .ip6 src dst =>
      versionAt mem o = 6 ∧ o + 44 ≤ caplen ∧ IsTransport (mem (o + 6)).toNat ∧
        src = in6AddrAt mem (o + 8) ∧ dst = in6AddrAt mem (o + 24) ∧
        a.s_port = be16 mem (o + 40) ∧ a.d_port = be16 mem (o + 42)

/-- **The frame can be read** behind the header at `r`, when the IP header is at `o`: it is of the
version the link header promises, captured up to the ports, not a later fragment, and the bytes at
the fixed places of a header without options at `r` are the addresses and the ports. -/
def Framed (mem : ℕ → BitVec 8) (caplen o r : ℕ) : SaFamily → Prop
  | .inet =>
      versionAt mem o = 4 ∧ 5 ≤ ihlAt mem o ∧ o + 4 * ihlAt mem o + 4 ≤ caplen ∧
        fragmentAt mem o = 0 ∧ IsTransport (mem (o + 9)).toNat ∧
        (∀ k < 8, mem (r + 12 + k) = mem (o + 12 + k)) ∧
        ∀ k < 4, mem (r + 20 + k) = mem (o + 4 * ihlAt mem o + k)
  | .inet6 => versionAt mem o = 6 ∧ o + 44 ≤ caplen

theorem selectFamily_some {protocol ip ip6 payload r : ℕ} {family : SaFamily}
    (h : selectFamily protocol ip ip6 payload = some (family, r)) : r = payload := by
  unfold selectFamily at h
  split at h
  · cases h
    rfl
  · split at h
    · cases h
      rfl
    · cases h

/-- IPv6 headers are looked for at the right place. -/
theorem linkPayload_inet6 {linktype : ℤ} {mem : ℕ → BitVec 8} {r : ℕ}
    (h : linkPayload linktype mem = some (.inet6, r)) : r = payloadOffset linktype := by
  unfold linkPayload at h
  unfold payloadOffset
  split at h
  · next hen =>
      rw [if_pos hen]
      exact selectFamily_some h
  · next hen =>
      rw [if_neg hen]
      split at h
      · next hppp =>
          rw [if_pos hppp]
          exact selectFamily_some h
      · next hppp =>
          rw [if_neg hppp]
          split at h
          · next hsll =>
              rw [if_pos hsll]
              exact selectFamily_some h
          · split at h
            · cases h
            · split at h <;> cases h

/-- What the decoder makes of a header at `r` is carried at `o` exactly when the frame can be
read. -/
theorem carries_captureAt_iff {header : PcapPkthdr} {mem : ℕ → BitVec 8} {o r : ℕ}
    {family : SaFamily} (h : family = .inet6 → r = o ∧ IsTransport (protocolAt mem r family)) :
    Carries mem header.caplen o (captureAt header mem r family) ↔
      Framed mem header.caplen o r family := by
  cases family with
  | inet =>
      have hsrc : (⟨le32 mem (r + 12)⟩ : InAddr) = ⟨le32 mem (o + 12)⟩ ↔
          ∀ k < 4, mem (r + 12 + k) = mem (o + 12 + k) := by
        rw [InAddr.mk.injEq, le32_eq_iff]
      have hdst : (⟨le32 mem (r + 16)⟩ : InAddr) = ⟨le32 mem (o + 16)⟩ ↔
          ∀ k < 4, mem (r + 16 + k) = mem (o + 16 + k) := by
        rw [InAddr.mk.injEq, le32_eq_iff]
      simp only [Carries, Framed, captureAt, addressAt, headerSize, sizeofIp, hsrc, hdst,
        be16_eq_iff]
      refine and_congr_right fun _ => and_congr_right fun _ => and_congr_right fun _ =>
        and_congr_right fun _ => and_congr_right fun _ => ?_
      constructor
      · rintro ⟨hs, hd, hsp, hdp⟩
        refine ⟨?_, ?_⟩
        · intro k hk
          rcases Nat.lt_or_ge k 4 with hk4 | hk4
          · exact hs k hk4
          · have h := hd (k - 4) (by omega)
            rwa [show r + 16 + (k - 4) = r + 12 + k by omega,
              show o + 16 + (k - 4) = o + 12 + k by omega] at h
        · intro k hk
          rcases Nat.lt_or_ge k 2 with hk2 | hk2
          · exact hsp k hk2
          · have h := hdp (k - 2) (by omega)
            rwa [show r + 20 + 2 + (k - 2) = r + 20 + k by omega,
              show o + 4 * ihlAt mem o + 2 + (k - 2) = o + 4 * ihlAt mem o + k by omega] at h
      · rintro ⟨haddr, hport⟩
        refine ⟨fun k hk => haddr k (by omega), ?_, fun k hk => hport k (by omega), ?_⟩
        · intro k hk
          have h := haddr (k + 4) (by omega)
          rwa [show r + 12 + (k + 4) = r + 16 + k by omega,
            show o + 12 + (k + 4) = o + 16 + k by omega] at h
        · intro k hk
          have h := hport (k + 2) (by omega)
          rwa [show r + 20 + (k + 2) = r + 20 + 2 + k by omega,
            show o + 4 * ihlAt mem o + (k + 2) = o + 4 * ihlAt mem o + 2 + k by omega] at h
  | inet6 =>
      obtain ⟨rfl, htransport⟩ := h rfl
      simp only [Carries, Framed, captureAt, addressAt, headerSize, sizeofIp6]
      constructor
      · rintro ⟨hversion, hlen, _⟩
        exact ⟨hversion, hlen⟩
      · rintro ⟨hversion, hlen⟩
        exact ⟨hversion, hlen, htransport, by simp⟩

/-- **The decoder is right about a frame exactly when it can read it**: whatever it calls
`push_packet` with is carried by the frame, if and only if a frame with TCP or UDP behind the
header it reads is framed for that header. -/
theorem decoder_sound_iff (linktype : ℤ) (header : PcapPkthdr) (mem : ℕ → BitVec 8) :
    (∀ a, value (pcapDispatchCb linktype header 0) mem = some a →
        Carries mem header.caplen (payloadOffset linktype) a) ↔
      ∀ family r, linkPayload linktype mem = some (family, r) →
        IsTransport (protocolAt mem r family) →
          Framed mem header.caplen (payloadOffset linktype) r family := by
  rw [pcapDispatchCb_value]
  constructor
  · intro h family r hlink htransport
    have hcarries := h (captureAt header mem r family)
      (by rw [hlink, Option.bind_some, captureOf, if_pos htransport])
    refine (carries_captureAt_iff ?_).1 hcarries
    intro h6
    subst h6
    exact ⟨linkPayload_inet6 hlink, htransport⟩
  · intro h a ha
    obtain ⟨⟨family, r⟩, hlink, hcapture⟩ := Option.bind_eq_some_iff.1 ha
    unfold captureOf at hcapture
    split at hcapture
    · next htransport =>
        cases hcapture
        refine (carries_captureAt_iff ?_).2 (h family r hlink htransport)
        intro h6
        obtain rfl : family = .inet6 := h6
        exact ⟨linkPayload_inet6 hlink, htransport⟩
    · cases hcapture

/-- An Ethernet frame with a TCP packet from `10.0.0.1`, port 5000, to `10.0.0.2`, port 443, whose
IPv4 header has one word of options. -/
def optionsFrame : List (BitVec 8) :=
  [0, 0, 0, 0, 0, 1, 0, 0, 0, 0, 0, 2, 0x08, 0x00,
    0x46, 0, 0, 44, 0, 0, 0x40, 0, 64, 6, 0, 0, 10, 0, 0, 1, 10, 0, 0, 2, 1, 1, 1, 0,
    0x13, 0x88, 0x01, 0xbb, 0, 0, 0, 0, 0, 0, 0, 0, 0x50, 0, 0, 0, 0, 0, 0, 0]

/-- **Options taken for ports**: the decoder calls `push_packet` with the ports 257 and 256. -/
theorem options_misread :
    ∃ a, value (pcapDispatchCb DLT_EN10MB ⟨⟨100⟩, 58, 58⟩ 0) (fun i => optionsFrame.getD i 0) =
        some a ∧
      ¬ Carries (fun i => optionsFrame.getD i 0) 58 (payloadOffset DLT_EN10MB) a := by
  refine ⟨_, rfl, ?_⟩
  rintro ⟨_, _, _, _, _, _, _, hport, _⟩
  exact absurd hport (by decide)

end NetworkAnalyzer
