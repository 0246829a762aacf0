/-
The key texts of packets (`na_packet_get_hashstring`).

The key text names the local end of a packet first, whichever direction the packet travels: an
outgoing packet is printed from its source to its destination, any other from its destination to its
source.  The direction and the text are computed once and kept in the packet, so that it matters
which packets there are.

* `Host.Legible` — what is assumed of `inet_ntop`: it is injective on each family, uses the
  characters `[0-9a-f.:]`, and a `:` exactly for IPv6;
* `NAPacket.Between` — a packet between a local and a remote end;
* `NAPacket.Made` — the packets the analyzer makes, `NAPacket.Coherent` — what they remember;
* `NAPacket.Made.hashstring_eq` — **the key text of a packet is made of its ends**;
* `key_text_iff` — **the key text does not depend on the direction, and determines the ends**.
-/

import GnomeUsage.Orientation

set_option relaxedAutoImplicit false
set_option autoImplicit false

namespace NetworkAnalyzer

/-! ### The texts of addresses -/

def Address.family : Address → SaFamily
  | .ip _ => .inet
  | .ip6 _ => .inet6

/-- `[0-9a-f.:]`. -/
def isAddressChar (c : Char) : Bool :=
  c.isDigit || ('a' ≤ c && c ≤ 'f') || c == '.' || c == ':'

/-- **Legible address texts**: no two addresses of a family have the same one, all characters are
in `[0-9a-f.:]`, and exactly those of IPv6 contain a `:`. -/
structure Host.Legible (host : Host) : Prop where
  injective : ∀ a b : Address, a.family = b.family → host.text a = host.text b → a = b
  chars : ∀ addr, ∀ c ∈ host.text addr, isAddressChar c = true
  colon_iff : ∀ addr, ':' ∈ host.text addr ↔ addr.family = .inet6

variable {host : Host}

theorem Host.Legible.no_dash (h : host.Legible) (addr : Address) : '-' ∉ host.text addr := by
  intro hmem
  exact absurd (h.chars addr _ hmem) (by decide)

/-- Legible texts are readable ones, whatever the local addresses are. -/
theorem Host.Legible.readable (h : host.Legible) :
    { host with localAddresses := [] : Host }.Readable where
  inetNtop_injective := fun a b hab => Address.ip.inj (h.injective (.ip a) (.ip b) rfl hab)
  inetNtop6_injective := fun a b hab => Address.ip6.inj (h.injective (.ip6 a) (.ip6 b) rfl hab)
  no_dash := fun addr => h.no_dash (.ip addr)
  no_dash6 := fun addr => h.no_dash (.ip6 addr)
  no_colon := fun addr hmem => nomatch (h.colon_iff (.ip addr)).1 hmem
  colon6 := fun addr => (h.colon_iff (.ip6 addr)).2 rfl
  localAddresses := fun _ ha => absurd ha List.not_mem_nil

/-- **The key text of two ends determines them.** -/
theorem Host.Legible.endsKey_inj (h : host.Legible) {loc rem loc' rem' : Address × BitVec 16}
    (hkey : endsKey host loc rem = endsKey host loc' rem') : loc = loc' ∧ rem = rem' :=
  NetworkAnalyzer.endsKey_inj h.readable hkey

/-! ### The ends of a packet -/

variable (host)

/-- Whether the address of an end is one of the local addresses. -/
def isLocalEnd (e : Address × BitVec 16) : Bool := isLocalAddress host (host.text e.1)

/-- **Exactly one end is local**: a packet between the local end `loc` and the remote end `rem`, in
one direction or the other. -/
structure NAPacket.Between (packet : NAPacket) (loc rem : Address × BitVec 16) : Prop where
  local_loc : isLocalEnd host loc = true
  remote_rem : isLocalEnd host rem = false
  ends : packet.source = loc ∧ packet.dest = rem ∨ packet.source = rem ∧ packet.dest = loc

/-- The end that is printed first: the source if it is local, and the destination otherwise. -/
def firstEnd (packet : NAPacket) : Address × BitVec 16 :=
  if isLocalEnd host packet.source then packet.source else packet.dest

/-- The end that is printed last. -/
def lastEnd (packet : NAPacket) : Address × BitVec 16 :=
  if isLocalEnd host packet.source then packet.dest else packet.source

/-- The key text of the ends of a packet. -/
def keyText (packet : NAPacket) : CStr := endsKey host (firstEnd host packet) (lastEnd host packet)

variable {host} {packet other : NAPacket} {loc rem loc' rem' : Address × BitVec 16}

/-- Packets with exactly one local end are between two ends. -/
theorem exists_between_iff :
    (∃ loc rem, packet.Between host loc rem) ↔
      isLocalEnd host packet.source ≠ isLocalEnd host packet.dest := by
  constructor
  · rintro ⟨loc, rem, hloc, hrem, ⟨hs, hd⟩ | ⟨hs, hd⟩⟩
    · rw [hs, hd, hloc, hrem]
      decide
    · rw [hs, hd, hloc, hrem]
      decide
  · intro hne
    have hdest := Bool.eq_not.2 hne.symm
    cases hs : isLocalEnd host packet.source with
    | true =>
        rw [hs] at hdest
        exact ⟨_, _, hs, hdest, .inl ⟨rfl, rfl⟩⟩
    | false =>
        rw [hs] at hdest
        exact ⟨_, _, hdest, hs, .inr ⟨rfl, rfl⟩⟩

/-- **The local end is printed first.** -/
theorem NAPacket.Between.keyText_eq (h : packet.Between host loc rem) :
    keyText host packet = endsKey host loc rem := by
  unfold keyText firstEnd lastEnd
  rcases h.ends with ⟨hs, hd⟩ | ⟨hs, hd⟩
  · rw [hs, hd, h.local_loc]
    rfl
  · rw [hs, hd, h.remote_rem]
    rfl

/-- **The inverse of a packet is between the same ends.** -/
theorem NAPacket.Between.newInverted (h : packet.Between host loc rem) :
    (naPacketNewInverted packet).Between host loc rem := by
  refine ⟨h.local_loc, h.remote_rem, ?_⟩
  rw [source_newInverted, dest_newInverted]
  rcases h.ends with ⟨hs, hd⟩ | ⟨hs, hd⟩
  · exact .inr ⟨hd, hs⟩
  · exact .inl ⟨hd, hs⟩

theorem NAPacket.Between.flow_eq (h : packet.Between host loc rem) : flow packet = s(loc, rem) := by
  unfold flow
  rcases h.ends with ⟨hs, hd⟩ | ⟨hs, hd⟩
  · rw [hs, hd]
  · rw [hs, hd]
    exact Sym2.eq_swap

/-- **Two packets are between the same ends exactly when they are of the same flow.** -/
theorem NAPacket.Between.ends_eq_iff (h : packet.Between host loc rem)
    (h' : other.Between host loc' rem') : loc = loc' ∧ rem = rem' ↔ packet.SameFlow other := by
  rw [sameFlow_iff, h.flow_eq, h'.flow_eq, Sym2.eq_iff]
  constructor
  · exact .inl
  · rintro (heq | ⟨rfl, _⟩)
    · exact heq
    · -- a local end is not a remote one
      have hlocal := h.local_loc
      rw [h'.remote_rem] at hlocal
      cases hlocal

/-! ### The packets there are -/

variable (host)

/-- **The packets the analyzer makes**: every caller of the two constructors leaves the direction
unknown, and what is done to a packet from then on is done by the functions of `na-packet.c`, and
by the merge of two packets of one second. -/
inductive NAPacket.Made : NAPacket → Prop
  | newFromIp4 (s_ip : InAddr) (s_port : BitVec 16) (d_ip : InAddr) (d_port : BitVec 16)
      (len : BitVec 32) (time : Timeval) :
      Made (naPacketNewFromIp4 s_ip s_port d_ip d_port len time .unknown)
  | newFromIp6 (s_ip : In6Addr) (s_port : BitVec 16) (d_ip : In6Addr) (d_port : BitVec 16)
      (len : BitVec 32) (time : Timeval) :
      Made (naPacketNewFromIp6 s_ip s_port d_ip d_port len time .unknown)
  | newInverted {packet : NAPacket} (h : Made packet) : Made (naPacketNewInverted packet)
  | copy {packet : NAPacket} (h : Made packet) : Made (naPacketCopy packet)
  | isOutgoing {packet : NAPacket} (h : Made packet) : Made (naPacketIsOutgoing host packet).2
  | getHashstring {packet : NAPacket} (h : Made packet) :
      Made (naPacketGetHashstring host packet).2
  | merged {packet : NAPacket} (h : Made packet) (len : BitVec 32) :
      Made { packet with len := packet.len + len }

/-- **What a packet remembers**: the direction of its source, and its key text. -/
structure NAPacket.Coherent (packet : NAPacket) : Prop where
  directed : Directed host packet
  remembered : ∀ key ∈ packet.hashstring, key = keyText host packet

theorem coherent_of_unknown {packet : NAPacket} (hdir : packet.dir = .unknown)
    (hkey : packet.hashstring = none) : packet.Coherent host where
  directed := directed_of_unknown host hdir
  remembered := by
    rw [hkey]
    intro key h
    cases h

/-- The key text that is computed, where none is remembered. -/
theorem hashstring_new {packet : NAPacket} (h : Directed host packet)
    (hkey : packet.hashstring = none) :
    (naPacketGetHashstring host packet).1 = keyText host packet := by
  have hlocal : isLocalEnd host packet.source = isLocalAddress host (sourceText host packet) := by
    rw [isLocalEnd, (sourceText_eq host packet).1]
  rw [hashstring_fresh host hkey, h, ← hlocal, keyText, firstEnd, lastEnd]
  cases isLocalEnd host packet.source with
  | true => rfl
  | false => rfl

/-- **The key text of a packet is that of its ends**, remembered or not. -/
theorem NAPacket.Coherent.hashstring_eq {packet : NAPacket} (h : packet.Coherent host) :
    (naPacketGetHashstring host packet).1 = keyText host packet := by
  cases hkey : packet.hashstring with
  | some key =>
      have hget : (naPacketGetHashstring host packet).1 = key := by
        rw [naPacketGetHashstring, hkey]
      rw [hget]
      exact h.remembered key hkey
  | none => exact hashstring_new host h.directed hkey

theorem NAPacket.Coherent.isOutgoing {packet : NAPacket} (h : packet.Coherent host) :
    (naPacketIsOutgoing host packet).2.Coherent host where
  directed := Directed.isOutgoing host h.directed
  remembered := by
    rw [isOutgoing_eq]
    exact h.remembered

theorem NAPacket.Coherent.getHashstring {packet : NAPacket} (h : packet.Coherent host) :
    (naPacketGetHashstring host packet).2.Coherent host where
  directed := Directed.getHashstring host h.directed
  remembered := by
    have hends : keyText host (naPacketGetHashstring host packet).2 = keyText host packet := by
      obtain ⟨dir, hashstring, heq⟩ := getHashstring_eq host packet
      rw [heq]
      rfl
    rw [hends, ← h.hashstring_eq host]
    unfold naPacketGetHashstring
    cases hkey : packet.hashstring with
    | some key =>
        intro key' hkey'
        rw [hkey] at hkey'
        exact (Option.some_inj.1 hkey').symm
    | none =>
        intro key' hkey'
        exact (Option.some_inj.1 hkey').symm

theorem NAPacket.Coherent.merged {packet : NAPacket} (h : packet.Coherent host) (len : BitVec 32) :
    NAPacket.Coherent host { packet with len := packet.len + len } where
  directed := h.directed.congr host rfl rfl
  remembered := h.remembered

/-- **Every packet the analyzer makes is coherent.** -/
theorem NAPacket.Made.coherent {packet : NAPacket} (h : packet.Made host) :
    packet.Coherent host := by
  induction h with
  | newFromIp4 => exact coherent_of_unknown host rfl rfl
  | newFromIp6 => exact coherent_of_unknown host rfl rfl
  | newInverted =>
      exact coherent_of_unknown host (newInverted_dir _) (newInverted_hashstring _)
  | copy _ ih => exact ih
  | isOutgoing _ ih => exact ih.isOutgoing host
  | getHashstring _ ih => exact ih.getHashstring host
  | merged _ len ih => exact ih.merged host len

/-! ### Groups of an IPv6 address -/

/-- The two groups of sixteen bits of a word of an address, of which the bytes are in network
order. -/
def wordText (word : BitVec 32) : CStr :=
  CText.hex (word.toNat % 2 ^ 8 * 2 ^ 8 + word.toNat / 2 ^ 8 % 2 ^ 8) ++ ':' ::
    CText.hex (word.toNat / 2 ^ 16 % 2 ^ 8 * 2 ^ 8 + word.toNat / 2 ^ 24)

/-- `inet_ntop` on IPv6 addresses without two zero groups in a row. -/
def groupText (addr : In6Addr) : CStr :=
  wordText addr.s6_addr32_0 ++ ':' :: (wordText addr.s6_addr32_1 ++ ':' ::
    (wordText addr.s6_addr32_2 ++ ':' :: wordText addr.s6_addr32_3))

/-- A host that prints addresses so, with the given local addresses. -/
def groupHost (addresses : List Address) : Host :=
  ⟨dottedQuad, groupText, addresses.map fun
    | .ip addr => dottedQuad addr
    | .ip6 addr => groupText addr⟩

theorem isAddressChar_of_mem_hex {n : ℕ} {c : Char} (h : c ∈ CText.hex n) :
    isAddressChar c = true ∧ c ≠ ':' := by
  obtain ⟨d, hd, rfl⟩ := CText.exists_of_mem_hex h
  interval_cases d <;> decide

theorem isAddressChar_of_mem_wordText {word : BitVec 32} {c : Char} (h : c ∈ wordText word) :
    isAddressChar c = true := by
  rcases List.mem_append.1 h with h | h
  · exact (isAddressChar_of_mem_hex h).1
  · rcases List.mem_cons.1 h with rfl | h
    · decide
    · exact (isAddressChar_of_mem_hex h).1

theorem groupText_injective : Function.Injective groupText := by
  have hcolon : ∀ n, ':' ∉ CText.hex n := fun n hmem => (isAddressChar_of_mem_hex hmem).2 rfl
  have hword : ∀ {a b : BitVec 32},
      CText.hex (a.toNat % 2 ^ 8 * 2 ^ 8 + a.toNat / 2 ^ 8 % 2 ^ 8) =
        CText.hex (b.toNat % 2 ^ 8 * 2 ^ 8 + b.toNat / 2 ^ 8 % 2 ^ 8) →
      CText.hex (a.toNat / 2 ^ 16 % 2 ^ 8 * 2 ^ 8 + a.toNat / 2 ^ 24) =
        CText.hex (b.toNat / 2 ^ 16 % 2 ^ 8 * 2 ^ 8 + b.toNat / 2 ^ 24) → a = b := by
    intro a b hfirst hsecond
    have hfirst := CText.hex_injective hfirst
    have hsecond := CText.hex_injective hsecond
    -- byte by byte
    have h0 : a.toNat % 2 ^ 8 = b.toNat % 2 ^ 8 := by omega
    have h1 : a.toNat / 2 ^ 8 % 2 ^ 8 = b.toNat / 2 ^ 8 % 2 ^ 8 := by omega
    have h2 : a.toNat / 2 ^ 16 % 2 ^ 8 = b.toNat / 2 ^ 16 % 2 ^ 8 := by omega
    have h3 : a.toNat / 2 ^ 24 = b.toNat / 2 ^ 24 := by omega
    clear hfirst hsecond
    exact BitVec.eq_of_toNat_eq (by omega)
  rintro ⟨a0, a1, a2, a3⟩ ⟨b0, b1, b2, b3⟩ h
  simp only [groupText, wordText, List.append_assoc, List.cons_append] at h
  obtain ⟨h0, h⟩ := CText.split_first (hcolon _) (hcolon _) h
  obtain ⟨h0', h⟩ := CText.split_first (hcolon _) (hcolon _) h
  obtain ⟨h1, h⟩ := CText.split_first (hcolon _) (hcolon _) h
  obtain ⟨h1', h⟩ := CText.split_first (hcolon _) (hcolon _) h
  obtain ⟨h2, h⟩ := CText.split_first (hcolon _) (hcolon _) h
  obtain ⟨h2', h⟩ := CText.split_first (hcolon _) (hcolon _) h
  obtain ⟨h3, h3'⟩ := CText.split_first (hcolon _) (hcolon _) h
  rw [hword h0 h0', hword h1 h1', hword h2 h2', hword h3 h3']

theorem legible_groupHost (addresses : List Address) : (groupHost addresses).Legible where
  injective := by
    intro a b hfamily htext
    cases a with
    | ip a =>
        cases b with
        | ip b => exact congrArg Address.ip (dottedQuad_injective htext)
        | ip6 b => cases hfamily
    | ip6 a =>
        cases b with
        | ip b => cases hfamily
        | ip6 b => exact congrArg Address.ip6 (groupText_injective htext)
  chars := by
    intro addr c hc
    cases addr with
    | ip addr =>
        rcases mem_dottedQuad hc with rfl | hdigit
        · decide
        · simp [isAddressChar, hdigit]
    | ip6 addr =>
        simp only [Host.text, groupHost, groupText, List.mem_append, List.mem_cons] at hc
        rcases hc with hc | rfl | hc | rfl | hc | rfl | hc
        · exact isAddressChar_of_mem_wordText hc
        · decide
        · exact isAddressChar_of_mem_wordText hc
        · decide
        · exact isAddressChar_of_mem_wordText hc
        · decide
        · exact isAddressChar_of_mem_wordText hc
  colon_iff := by
    intro addr
    cases addr with
    | ip addr =>
        refine iff_of_false ?_ SaFamily.noConfusion
        intro hmem
        rcases mem_dottedQuad hmem with h | h <;> cases h
    | ip6 addr =>
        refine iff_of_true ?_ rfl
        exact List.mem_append_right _ List.mem_cons_self

/-! ### Key texts and flows -/

variable {host} {packet other : NAPacket} {loc rem loc' rem' : Address × BitVec 16}

/-- The key text of a packet with exactly one local end. -/
theorem NAPacket.Made.hashstring_eq (hp : packet.Made host) (h : packet.Between host loc rem) :
    (naPacketGetHashstring host packet).1 = endsKey host loc rem :=
  (hp.coherent.hashstring_eq host).trans h.keyText_eq

/-- **Two key texts are the same exactly when the ends are.** -/
theorem NAPacket.Made.hashstring_inj (h : host.Legible) (hp : packet.Made host)
    (ho : other.Made host) (hends : packet.Between host loc rem)
    (hends' : other.Between host loc' rem') :
    (naPacketGetHashstring host packet).1 = (naPacketGetHashstring host other).1 ↔
      loc = loc' ∧ rem = rem' := by
  rw [hp.hashstring_eq hends, ho.hashstring_eq hends']
  constructor
  · exact h.endsKey_inj
  · rintro ⟨rfl, rfl⟩
    rfl

/-- **The key text does not depend on the direction, and determines the ends**: of all packets the
analyzer makes with exactly one local end, it is the key text of the inverse, and two of them have
the same one exactly when they have the same family, the same local address and port and the same
remote address and port. -/
theorem key_text_iff (h : host.Legible) (hp : packet.Made host) (ho : other.Made host)
    (hends : packet.Between host loc rem) (hends' : other.Between host loc' rem') :
    (naPacketGetHashstring host packet).1 =
        (naPacketGetHashstring host (naPacketNewInverted packet)).1 ∧
      ((naPacketGetHashstring host packet).1 = (naPacketGetHashstring host other).1 ↔
        packet.sa_family = other.sa_family ∧
          (loc.1, loc.2, rem.1, rem.2) = (loc'.1, loc'.2, rem'.1, rem'.2)) := by
  refine ⟨?_, ?_⟩
  · rw [hp.hashstring_eq hends, hp.newInverted.hashstring_eq hends.newInverted]
  · rw [hp.hashstring_inj h ho hends hends']
    constructor
    · rintro ⟨rfl, rfl⟩
      -- packets of one flow are of one family
      exact ⟨((hends.ends_eq_iff hends').1 ⟨rfl, rfl⟩).1, rfl⟩
    · rintro ⟨_, heq⟩
      simp only [Prod.mk.injEq] at heq
      obtain ⟨hloc, hlport, hrem, hrport⟩ := heq
      exact ⟨Prod.ext hloc hlport, Prod.ext hrem hrport⟩

/-- The host `2001:db8:1:2:3:4:5:6`, and its peer `2001:db8:a:b:c:d:e:f`. -/
def localSocket : Address × BitVec 16 :=
  (.ip6 ⟨0xb80d0120, 0x02000100, 0x04000300, 0x06000500⟩, 6000)

def peerSocket : Address × BitVec 16 :=
  (.ip6 ⟨0xb80d0120, 0x0b000a00, 0x0d000c00, 0x0f000e00⟩, 42277)

/-- A packet from the peer, and the answer. -/
def inbound : NAPacket :=
  naPacketNewFromIp6 ⟨0xb80d0120, 0x0b000a00, 0x0d000c00, 0x0f000e00⟩ 42277
    ⟨0xb80d0120, 0x02000100, 0x04000300, 0x06000500⟩ 6000 60 ⟨100⟩ .unknown

def outbound : NAPacket :=
  naPacketNewFromIp6 ⟨0xb80d0120, 0x02000100, 0x04000300, 0x06000500⟩ 6000
    ⟨0xb80d0120, 0x0b000a00, 0x0d000c00, 0x0f000e00⟩ 42277 1500 ⟨101⟩ .unknown

theorem key_text_iff_answer :
    (naPacketGetHashstring (groupHost [localSocket.1]) inbound).1 =
        (naPacketGetHashstring (groupHost [localSocket.1]) (naPacketNewInverted inbound)).1 ∧
      ((naPacketGetHashstring (groupHost [localSocket.1]) inbound).1 =
          (naPacketGetHashstring (groupHost [localSocket.1]) outbound).1 ↔
        inbound.sa_family = outbound.sa_family ∧
          (localSocket.1, localSocket.2, peerSocket.1, peerSocket.2) =
            (localSocket.1, localSocket.2, peerSocket.1, peerSocket.2)) :=
  key_text_iff (legible_groupHost _) (.newFromIp6 ..) (.newFromIp6 ..)
    ⟨by decide, by decide, .inr ⟨rfl, rfl⟩⟩ ⟨by decide, by decide, .inl ⟨rfl, rfl⟩⟩

example : (naPacketGetHashstring (groupHost [localSocket.1]) inbound).1 =
    "2001:db8:1:2:3:4:5:6:6000-2001:db8:a:b:c:d:e:f:42277".toList := by decide

end NetworkAnalyzer
