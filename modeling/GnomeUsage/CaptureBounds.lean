/-
Where the decoder looks.

The decoder is given a frame of which the first `caplen` bytes were captured, and never compares
that number with anything: every header is read at its offset, whether or not it was captured.

* `NetworkAnalyzer.Complete` — the captured bytes contain the link header, the IP header it
  announces, and the ports if that announces TCP or UDP;
* `within_parseTransport`, `within_parseIp`, `within_parseIp6`, `within_pcapDispatchCb` — how far
  each parser looks;
* `decoder_confined_iff` — **the decoder stays inside the captured bytes, and drops what is too
  short, exactly when the frame is complete**;
* `truncated_frame_pushed` — a frame cut off behind its IP header, of which it pushes a packet
  with ports from beyond.
-/

import GnomeUsage.Decoder

set_option relaxedAutoImplicit false
set_option autoImplicit false

namespace NetworkAnalyzer

open ByteReader

/-! ### How far the parsers look -/

theorem within_parseTransport (header : PcapPkthdr) (payload : ℕ) (address : IPAddress)
    (protocol : BitVec 8) (mem : ℕ → BitVec 8) (n : ℕ) :
    Within (parseTransport header payload address protocol) mem n ↔
      (IsTransport protocol.toNat → payload + 4 ≤ n) := by
  have hports : Within (parsePorts header payload address) mem n ↔ payload + 4 ≤ n := by
    simp only [parsePorts, within_bind, within_load16, within_pure, and_true]
    omega
  unfold parseTransport
  by_cases htcp : protocol.toNat = TCP_PROTOCOL_NUMBER
  · have htransport : IsTransport protocol.toNat := .inl htcp
    rw [if_pos htcp, forall_prop_of_true htransport]
    exact hports
  · by_cases hudp : protocol.toNat = UDP_PROTOCOL_NUMBER
    · have htransport : IsTransport protocol.toNat := .inr hudp
      rw [if_neg htcp, if_pos hudp, forall_prop_of_true htransport]
      exact hports
    · have hother : ¬ IsTransport protocol.toNat := fun h => h.elim htcp hudp
      rw [if_neg htcp, if_neg hudp, within_pure, forall_prop_of_false hother]

/-- The captured bytes contain the IP header at an offset, and the ports behind it if it announces
TCP or UDP. -/
def CompleteIp (mem : ℕ → BitVec 8) (n o : ℕ) (family : SaFamily) : Prop :=
  o + headerSize family ≤ n ∧
    (IsTransport (protocolAt mem o family) → o + headerSize family + 4 ≤ n)

theorem within_parseIp (header : PcapPkthdr) (o : ℕ) (mem : ℕ → BitVec 8) (n : ℕ) :
    Within (parseIp header o) mem n ↔ CompleteIp mem n o .inet := by
  simp only [parseIp, loadInAddr, within_bind, within_load32, within_byte, within_pure, and_true,
    value_byte, within_parseTransport, CompleteIp, protocolAt, headerSize, sizeofIp]
  constructor
  · rintro ⟨_, hdst, _, hports⟩
    exact ⟨hdst, hports⟩
  · rintro ⟨hhead, hports⟩
    exact ⟨by omega, by omega, by omega, hports⟩

theorem within_parseIp6 (header : PcapPkthdr) (o : ℕ) (mem : ℕ → BitVec 8) (n : ℕ) :
    Within (parseIp6 header o) mem n ↔ CompleteIp mem n o .inet6 := by
  simp only [parseIp6, loadIn6Addr, within_bind, within_load32, within_byte, within_pure, and_true,
    value_byte, within_parseTransport, CompleteIp, protocolAt, headerSize, sizeofIp6]
  constructor
  · rintro ⟨_, ⟨_, _, _, hdst⟩, _, hports⟩
    exact ⟨hdst, hports⟩
  · rintro ⟨hhead, hports⟩
    refine ⟨⟨?_, ?_, ?_, ?_⟩, ⟨?_, ?_, ?_, ?_⟩, ?_, hports⟩ <;> omega

/-- The `switch` on the protocol number of a link header. -/
theorem within_select (header : PcapPkthdr) (mem : ℕ → BitVec 8) (n protocol ip ip6 o : ℕ) :
    Within (if protocol = ip then parseIp header o
        else if protocol = ip6 then parseIp6 header o
        else pure none) mem n ↔
      ∀ x ∈ selectFamily protocol ip ip6 o, CompleteIp mem n x.2 x.1 := by
  unfold selectFamily
  split
  · rw [within_parseIp]
    simp
  · split
    · rw [within_parseIp6]
      simp
    · simp

/-! ### The whole decoder -/

/-- How many bytes of a link header the decoder reads. -/
def linkHeaderSize (linktype : ℤ) : ℕ :=
  if linktype = DLT_EN10MB then sizeofEther
  else if linktype = DLT_PPP then PPP_HDRLEN
  else if linktype = DLT_LINUX_SLL then sizeofSll
  else 0

/-- **The frame is complete** in its first `n` bytes: they contain the link header, the IP header
it announces, and the ports if that announces TCP or UDP. -/
def Complete (linktype : ℤ) (mem : ℕ → BitVec 8) (n : ℕ) : Prop :=
  linkHeaderSize linktype ≤ n ∧
    ∀ x ∈ linkPayload linktype mem, CompleteIp mem n x.2 x.1

theorem within_parseEthernet (header : PcapPkthdr) (mem : ℕ → BitVec 8) (n : ℕ) :
    Within (parseEthernet header 0) mem n ↔ 14 ≤ n ∧
      ∀ x ∈ selectFamily (be16 mem 12).toNat ETHERTYPE_IP ETHERTYPE_IPV6 14,
        CompleteIp mem n x.2 x.1 := by
  rw [← within_select header, ← ntohs_load16 mem 12, ← within_load16 12 mem n]
  exact within_bind ..

theorem within_parsePpp (header : PcapPkthdr) (mem : ℕ → BitVec 8) (n : ℕ) :
    Within (parsePpp header 0) mem n ↔ 4 ≤ n ∧
      ∀ x ∈ selectFamily (be16 mem 2).toNat PPP_IP PPP_IPV6 4, CompleteIp mem n x.2 x.1 := by
  have hprotocol : value (pppProtocol 0) mem = (be16 mem 2).toNat := (be16_toNat mem 2).symm
  have hreads : Within (pppProtocol 0) mem n ↔ 4 ≤ n := by
    simp only [pppProtocol, within_bind, within_byte, within_pure, and_true]
    omega
  rw [← within_select header, ← hprotocol, ← hreads, parsePpp, within_bind, PPP_HDRLEN]

theorem within_parseLinuxCooked (header : PcapPkthdr) (mem : ℕ → BitVec 8) (n : ℕ) :
    Within (parseLinuxCooked header 0) mem n ↔ 16 ≤ n ∧
      ∀ x ∈ selectFamily (be16 mem 14).toNat ETHERTYPE_IP ETHERTYPE_IPV6 16,
        CompleteIp mem n x.2 x.1 := by
  have hip : mem 15 ++ mem 14 = (0x0008 : BitVec 16) ↔ (be16 mem 14).toNat = ETHERTYPE_IP :=
    sll_protocol_eq_iff mem 14 0x08 0x00
  have hip6 : mem 15 ++ mem 14 = (0xDD86 : BitVec 16) ↔ (be16 mem 14).toNat = ETHERTYPE_IPV6 :=
    sll_protocol_eq_iff mem 14 0x86 0xDD
  rw [← within_select header, ← within_load16 14 mem n]
  simp only [← hip, ← hip6]
  exact within_bind ..

/-- **How far the decoder looks.** -/
theorem within_pcapDispatchCb (linktype : ℤ) (header : PcapPkthdr) (mem : ℕ → BitVec 8) (n : ℕ) :
    Within (pcapDispatchCb linktype header 0) mem n ↔ Complete linktype mem n := by
  unfold pcapDispatchCb Complete linkHeaderSize linkPayload
  split
  · exact within_parseEthernet header mem n
  · split
    · exact within_parsePpp header mem n
    · split
      · exact within_parseLinuxCooked header mem n
      · split
        · rw [within_parseIp]
          simp
        · split
          · rw [within_parseIp]
            simp
          · simp

/-- **The decoder stays inside the captured bytes**, and drops what is too short for the headers
it needs, exactly when the frame is complete. -/
theorem decoder_confined_iff (linktype : ℤ) (header : PcapPkthdr) (mem : ℕ → BitVec 8) :
    ((∀ i ∈ reads (pcapDispatchCb linktype header 0) mem, i < header.caplen) ∧
        (¬ Complete linktype mem header.caplen →
          value (pcapDispatchCb linktype header 0) mem = none)) ↔
      Complete linktype mem header.caplen := by
  have hwithin := within_pcapDispatchCb linktype header mem header.caplen
  constructor
  · intro h
    exact hwithin.1 h.1
  · intro h
    exact ⟨hwithin.2 h, fun hnot => absurd h hnot⟩

/-- An Ethernet frame with a TCP packet from `10.0.0.1` to `10.0.0.2`, cut off behind its IPv4
header. -/
def truncatedFrame : List (BitVec 8) :=
  [0, 0, 0, 0, 0, 1, 0, 0, 0, 0, 0, 2, 0x08, 0x00,
    0x45, 0, 0, 40, 0, 0, 0x40, 0, 64, 6, 0, 0, 10, 0, 0, 1, 10, 0, 0, 2]

/-- **Ports from beyond the captured bytes**: whatever stands behind the frame is read, and pushed
as its ports. -/
theorem truncated_frame_pushed :
    ¬ ((∀ i ∈ reads (pcapDispatchCb DLT_EN10MB ⟨⟨100⟩, 34, 60⟩ 0)
          (memory truncatedFrame fun _ => 0xff), i < 34) ∧
        (¬ Complete DLT_EN10MB (memory truncatedFrame fun _ => 0xff) 34 →
          value (pcapDispatchCb DLT_EN10MB ⟨⟨100⟩, 34, 60⟩ 0)
            (memory truncatedFrame fun _ => 0xff) = none)) ∧
      value (pcapDispatchCb DLT_EN10MB ⟨⟨100⟩, 34, 60⟩ 0) (memory truncatedFrame fun _ => 0xff) =
        some ⟨⟨⟨100⟩, 34, 60⟩, .ip ⟨0x0100000a⟩ ⟨0x0200000a⟩, 0xffff, 0xffff⟩ := by
  refine ⟨?_, rfl⟩
  intro h
  exact absurd (h.1 34 (by decide)) (by decide)

end NetworkAnalyzer
