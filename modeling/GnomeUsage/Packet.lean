/-
Packets of the network analyzer (`na-packet.c`, `na-local-addresses.c`).

A packet record carries the addresses of both families, of which its constructor fills in one
pair and leaves the other zero; the direction and the key text of a packet are computed on first
use and remembered in the record.  `inet_ntop` and the list of local addresses come from outside
and are collected in `NetworkAnalyzer.Host`.

* `NetworkAnalyzer.NAPacket` — the record, with the two constructors `naPacketNewFromIp4` and
  `naPacketNewFromIp6`, and `NAPacket.Built`, what they guarantee;
* `naPacketMatch`, `naPacketIsOutgoing`, `naPacketNewInverted`, `naPacketGetHashstring` — the
  functions of the file;
* `NetworkAnalyzer.flowKey` — the *unordered* pair of IPv4 endpoints a packet is matched by, and
  `match_or_match_inverted_iff`: **the two lookups of a packet, as it is and inverted, find
  exactly the packets with its flow key**.
-/

import GnomeUsage.CText
import Mathlib.Data.Sym.Sym2

set_option relaxedAutoImplicit false
set_option autoImplicit false

namespace NetworkAnalyzer

/-- A C string, without its terminator. -/
abbrev CStr := List Char

/-- `struct in_addr`: the address in network order, as the word in memory. -/
structure InAddr where
  s_addr : BitVec 32
  deriving DecidableEq

/-- `struct in6_addr`: the four words of `s6_addr32`. -/
structure In6Addr where
  s6_addr32_0 : BitVec 32
  s6_addr32_1 : BitVec 32
  s6_addr32_2 : BitVec 32
  s6_addr32_3 : BitVec 32
  deriving DecidableEq

/-- `struct timeval`, of which only the seconds are read. -/
structure Timeval where
  tv_sec : ℤ
  deriving DecidableEq

inductive SaFamily where
  | inet
  | inet6
  deriving DecidableEq

inductive NAPacketDirection where
  | unknown
  | incoming
  | outgoing
  deriving DecidableEq

structure NAPacket where
  s_ip6 : In6Addr
  d_ip6 : In6Addr
  s_ip : InAddr
  d_ip : InAddr
  s_port : BitVec 16
  d_port : BitVec 16
  len : BitVec 32
  time : Timeval
  dir : NAPacketDirection
  sa_family : SaFamily
  hashstring : Option CStr
  deriving DecidableEq

/-- What the host provides: `inet_ntop` on the two families, and the local addresses found when
the analyzer was activated. -/
structure Host where
  inetNtop : InAddr → CStr
  inetNtop6 : In6Addr → CStr
  localAddresses : List CStr

/-- A host without local addresses that prints every address as nothing. -/
def silentHost : Host := ⟨fun _ => [], fun _ => [], []⟩

variable (host : Host)

/-! ### `na-local-addresses.c` -/

/-- `is_local_address`: the walk down the list. -/
def isLocalAddressIn : List CStr → CStr → Bool
  | [], _ => false
  | a :: iter, address => if a = address then true else isLocalAddressIn iter address

def isLocalAddress (address : CStr) : Bool := isLocalAddressIn host.localAddresses address

/-- `add_local_address`. -/
def addLocalAddress (address : CStr) : Host :=
  { host with localAddresses := address :: host.localAddresses }

theorem isLocalAddressIn_iff {l : List CStr} {address : CStr} :
    isLocalAddressIn l address = true ↔ address ∈ l := by
  induction l with
  | nil => simp [isLocalAddressIn]
  | cons a l ih =>
      unfold isLocalAddressIn
      by_cases h : a = address
      · simp [h]
      · have h' : ¬ address = a := fun ha => h ha.symm
        simp [h, h', ih]

theorem isLocalAddress_iff {address : CStr} :
    isLocalAddress host address = true ↔ address ∈ host.localAddresses :=
  isLocalAddressIn_iff

/-! ### `na-packet.c` -/

def naPacketNewFromIp4 (s_ip : InAddr) (s_port : BitVec 16) (d_ip : InAddr) (d_port : BitVec 16)
    (len : BitVec 32) (time : Timeval) (dir : NAPacketDirection) : NAPacket where
  s_ip6 := ⟨0, 0, 0, 0⟩
  d_ip6 := ⟨0, 0, 0, 0⟩
  s_ip := s_ip
  d_ip := d_ip
  s_port := s_port
  d_port := d_port
  len := len
  time := time
  dir := dir
  sa_family := .inet
  hashstring := none

def naPacketNewFromIp6 (s_ip : In6Addr) (s_port : BitVec 16) (d_ip : In6Addr)
    (d_port : BitVec 16) (len : BitVec 32) (time : Timeval) (dir : NAPacketDirection) :
    NAPacket where
  s_ip6 := s_ip
  d_ip6 := d_ip
  s_ip := ⟨0⟩
  d_ip := ⟨0⟩
  s_port := s_port
  d_port := d_port
  len := len
  time := time
  dir := dir
  sa_family := .inet6
  hashstring := none

/-- `na_packet_copy`: a copy of the record, with a copy of its key text. -/
def naPacketCopy (packet : NAPacket) : NAPacket :=
  { packet with hashstring := packet.hashstring }

def naPacketMatch (packet other : NAPacket) : Bool :=
  packet.s_port == other.s_port && packet.d_port == other.d_port
    && packet.s_ip.s_addr == other.s_ip.s_addr
    && packet.d_ip.s_addr == other.d_ip.s_addr

/-- The text of the source address, in the family of the packet. -/
def sourceText (packet : NAPacket) : CStr :=
  match packet.sa_family with
  | .inet => host.inetNtop packet.s_ip
  | .inet6 => host.inetNtop6 packet.s_ip6

/-- The text of the destination address, in the family of the packet. -/
def destText (packet : NAPacket) : CStr :=
  match packet.sa_family with
  | .inet => host.inetNtop packet.d_ip
  | .inet6 => host.inetNtop6 packet.d_ip6

/-- `na_packet_is_outgoing`: the answer, and the packet with its direction filled in. -/
def naPacketIsOutgoing (packet : NAPacket) : Bool × NAPacket :=
  let packet :=
    if packet.dir = .unknown then
      { packet with
        dir := if isLocalAddress host (sourceText host packet) then .outgoing else .incoming }
    else packet
  (packet.dir == .outgoing, packet)

def naPacketNewInverted (packet : NAPacket) : NAPacket :=
  match packet.sa_family with
  | .inet =>
      naPacketNewFromIp4 packet.d_ip packet.d_port packet.s_ip packet.s_port packet.len
        packet.time .unknown
  | .inet6 =>
      naPacketNewFromIp6 packet.d_ip6 packet.d_port packet.s_ip6 packet.s_port packet.len
        packet.time .unknown

/-- The format `"%s:%d-%s:%d"` of the keys of the connection table. -/
def printKey (localAddr : CStr) (localPort : ℤ) (remoteAddr : CStr) (remotePort : ℤ) : CStr :=
  localAddr ++ ':' :: (CText.printInt localPort ++ '-' :: (remoteAddr ++
    ':' :: CText.printInt remotePort))

/-- `na_packet_get_hashstring`: the key text, and the packet that now remembers it. -/
def naPacketGetHashstring (packet : NAPacket) : CStr × NAPacket :=
  match packet.hashstring with
  | some key => (key, packet)
  | none =>
      let source := sourceText host packet
      let dest := destText host packet
      let (outgoing, packet) := naPacketIsOutgoing host packet
      let key :=
        if outgoing then
          printKey source packet.s_port.toNat dest packet.d_port.toNat
        else
          printKey dest packet.d_port.toNat source packet.s_port.toNat
      (key, { packet with hashstring := some key })

/-! ### What the constructors guarantee -/

/-- A packet as its constructors leave it: the addresses of the other family are zero. -/
structure NAPacket.Built (packet : NAPacket) : Prop where
  blank_ip : packet.sa_family = .inet6 → packet.s_ip = ⟨0⟩ ∧ packet.d_ip = ⟨0⟩
  blank_ip6 : packet.sa_family = .inet →
    packet.s_ip6 = ⟨0, 0, 0, 0⟩ ∧ packet.d_ip6 = ⟨0, 0, 0, 0⟩

theorem built_newFromIp4 (s_ip : InAddr) (s_port : BitVec 16) (d_ip : InAddr)
    (d_port : BitVec 16) (len : BitVec 32) (time : Timeval) (dir : NAPacketDirection) :
    (naPacketNewFromIp4 s_ip s_port d_ip d_port len time dir).Built :=
  ⟨fun h => by simp [naPacketNewFromIp4] at h, fun _ => ⟨rfl, rfl⟩⟩

theorem built_newFromIp6 (s_ip : In6Addr) (s_port : BitVec 16) (d_ip : In6Addr)
    (d_port : BitVec 16) (len : BitVec 32) (time : Timeval) (dir : NAPacketDirection) :
    (naPacketNewFromIp6 s_ip s_port d_ip d_port len time dir).Built :=
  ⟨fun _ => ⟨rfl, rfl⟩, fun h => by simp [naPacketNewFromIp6] at h⟩

theorem built_newInverted (packet : NAPacket) : (naPacketNewInverted packet).Built := by
  unfold naPacketNewInverted
  cases packet.sa_family with
  | inet => exact built_newFromIp4 ..
  | inet6 => exact built_newFromIp6 ..

/-! ### Direction -/

/-- On a fresh packet, being outgoing is having a local source. -/
theorem isOutgoing_of_unknown {packet : NAPacket} (h : packet.dir = .unknown) :
    (naPacketIsOutgoing host packet).1 = isLocalAddress host (sourceText host packet) := by
  cases hl : isLocalAddress host (sourceText host packet) <;> simp [naPacketIsOutgoing, h, hl]

/-- The packet `na_packet_is_outgoing` leaves differs from its argument in the direction only. -/
theorem isOutgoing_eq (packet : NAPacket) :
    (naPacketIsOutgoing host packet).2 =
      { packet with dir := (naPacketIsOutgoing host packet).2.dir } := by
  unfold naPacketIsOutgoing
  by_cases h : packet.dir = .unknown
  · simp [h]
  · simp [h]

@[simp] theorem isOutgoing_len (packet : NAPacket) :
    (naPacketIsOutgoing host packet).2.len = packet.len := by
  rw [isOutgoing_eq]

@[simp] theorem isOutgoing_time (packet : NAPacket) :
    (naPacketIsOutgoing host packet).2.time = packet.time := by
  rw [isOutgoing_eq]

@[simp] theorem newInverted_dir (packet : NAPacket) :
    (naPacketNewInverted packet).dir = .unknown := by
  unfold naPacketNewInverted
  cases packet.sa_family <;> rfl

@[simp] theorem newInverted_s_port (packet : NAPacket) :
    (naPacketNewInverted packet).s_port = packet.d_port := by
  unfold naPacketNewInverted
  cases packet.sa_family <;> rfl

@[simp] theorem newInverted_d_port (packet : NAPacket) :
    (naPacketNewInverted packet).d_port = packet.s_port := by
  unfold naPacketNewInverted
  cases packet.sa_family <;> rfl

@[simp] theorem newInverted_hashstring (packet : NAPacket) :
    (naPacketNewInverted packet).hashstring = none := by
  unfold naPacketNewInverted
  cases packet.sa_family <;> rfl

theorem newInverted_s_ip {packet : NAPacket} (h : packet.Built) :
    (naPacketNewInverted packet).s_ip = packet.d_ip := by
  unfold naPacketNewInverted
  cases hf : packet.sa_family with
  | inet => rfl
  | inet6 => exact (h.blank_ip hf).2.symm

theorem newInverted_d_ip {packet : NAPacket} (h : packet.Built) :
    (naPacketNewInverted packet).d_ip = packet.s_ip := by
  unfold naPacketNewInverted
  cases hf : packet.sa_family with
  | inet => rfl
  | inet6 => exact (h.blank_ip hf).1.symm

@[simp] theorem sourceText_newInverted (packet : NAPacket) :
    sourceText host (naPacketNewInverted packet) = destText host packet := by
  unfold naPacketNewInverted sourceText destText
  cases packet.sa_family <;> rfl

/-! ### The flow a packet is matched by -/

/-- An endpoint as `na_packet_match` sees it: the IPv4 address, whatever the family, and the
port. -/
abbrev Endpoint := InAddr × BitVec 16

/-- **The flow key of a packet**: its two endpoints, without their order. -/
def flowKey (packet : NAPacket) : Sym2 Endpoint :=
  s((packet.s_ip, packet.s_port), (packet.d_ip, packet.d_port))

theorem naPacketMatch_iff {packet other : NAPacket} :
    naPacketMatch packet other = true ↔
      packet.s_ip = other.s_ip ∧ packet.s_port = other.s_port ∧
        packet.d_ip = other.d_ip ∧ packet.d_port = other.d_port := by
  have hip : ∀ a b : InAddr, a = b ↔ a.s_addr = b.s_addr := by
    intro a b
    exact ⟨fun h => h ▸ rfl, fun h => by cases a; cases b; simp_all⟩
  simp only [naPacketMatch, Bool.and_eq_true, beq_iff_eq, hip]
  tauto

theorem flowKey_newInverted {packet : NAPacket} (h : packet.Built) :
    flowKey (naPacketNewInverted packet) = flowKey packet := by
  simp only [flowKey, newInverted_s_ip h, newInverted_d_ip h, newInverted_s_port,
    newInverted_d_port]
  exact Sym2.eq_swap

/-- **The two lookups of a packet find exactly the packets with its flow key.** -/
theorem match_or_match_inverted_iff {packet other : NAPacket} (h : packet.Built) :
    naPacketMatch packet other = true ∨ naPacketMatch (naPacketNewInverted packet) other = true ↔
      flowKey packet = flowKey other := by
  simp only [naPacketMatch_iff, newInverted_s_ip h, newInverted_d_ip h, newInverted_s_port,
    newInverted_d_port, flowKey, Sym2.eq_iff, Prod.mk.injEq]
  tauto

end NetworkAnalyzer
