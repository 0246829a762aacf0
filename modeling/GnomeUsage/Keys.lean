/-
The keys of connections.

The key of a connection is made of the texts of two addresses and two port numbers, joined by
separators.  It is computed in two places: from a row of the kernel, and from the reference packet
of a connection, which may be an inverted one.  Whether a key can be taken apart again depends on
the texts `inet_ntop` prints.

* `Host.Readable` — what is known of these texts: they determine the address within its family,
  contain no `-`, and contain a `:` exactly for IPv6; and the local addresses are such texts;
* `text_injective` — the text determines the address;
* `printKey_inj`, `endsKey_inj` — **a key determines its parts**;
* `dottedHost`, `readable_dottedHost` — the dotted quads of IPv4;
* `hashstring_refpacket`, `row_key_of_packet` — **the two encoders of keys agree**: the key text of
  a new connection is the key its row is inserted under.
-/

import GnomeUsage.NetRow

set_option relaxedAutoImplicit false
set_option autoImplicit false

namespace NetworkAnalyzer

/-- **Readable address texts.** -/
structure Host.Readable (host : Host) : Prop where
  inetNtop_injective : Function.Injective host.inetNtop
  inetNtop6_injective : Function.Injective host.inetNtop6
  no_dash : ∀ addr, '-' ∉ host.inetNtop addr
  no_dash6 : ∀ addr, '-' ∉ host.inetNtop6 addr
  no_colon : ∀ addr, ':' ∉ host.inetNtop addr
  colon6 : ∀ addr, ':' ∈ host.inetNtop6 addr
  /-- The local addresses were printed by `inet_ntop`. -/
  localAddresses : ∀ a ∈ host.localAddresses, ∃ addr, a = host.text addr

variable {host : Host}

theorem text_no_dash (h : host.Readable) (addr : Address) : '-' ∉ host.text addr := by
  cases addr with
  | ip addr => exact h.no_dash addr
  | ip6 addr => exact h.no_dash6 addr

/-- The text determines the address. -/
theorem text_injective (h : host.Readable) : Function.Injective host.text := by
  intro a b hab
  cases a with
  | ip a =>
      cases b with
      | ip b => exact congrArg Address.ip (h.inetNtop_injective hab)
      | ip6 b =>
          have hcolon : ':' ∈ host.text (.ip a) := by rw [hab]; exact h.colon6 b
          exact absurd hcolon (h.no_colon a)
  | ip6 a =>
      cases b with
      | ip b =>
          have hcolon : ':' ∈ host.text (.ip b) := by rw [← hab]; exact h.colon6 a
          exact absurd hcolon (h.no_colon b)
      | ip6 b => exact congrArg Address.ip6 (h.inetNtop6_injective hab)

theorem printKey_eq (x y : CStr) (m n : ℕ) : printKey x m y n =
    (x ++ ':' :: CText.decimal m) ++ '-' :: (y ++ ':' :: CText.decimal n) := by
  simp [printKey]

theorem colon_not_mem_decimal (n : ℕ) : ':' ∉ CText.decimal n := CText.not_mem_decimal (by decide)

/-- An address and a port contain no `-` if the address does not. -/
theorem no_dash_end {x : CStr} {n : ℕ} (hx : '-' ∉ x) : '-' ∉ x ++ ':' :: CText.decimal n := by
  intro hmem
  rcases List.mem_append.1 hmem with hmem | hmem
  · exact hx hmem
  · rcases List.mem_cons.1 hmem with hmem | hmem
    · cases hmem
    · exact CText.not_mem_decimal (by decide) hmem

/-- The two ends of a key, each an address and a port, determine these. -/
theorem ends_inj {a b a' b' : CStr} {p q p' q' : ℕ}
    (hleft : a ++ ':' :: CText.decimal p = a' ++ ':' :: CText.decimal p')
    (hright : b ++ ':' :: CText.decimal q = b' ++ ':' :: CText.decimal q') :
    a = a' ∧ p = p' ∧ b = b' ∧ q = q' := by
  obtain ⟨ha, hp⟩ := CText.split_last (colon_not_mem_decimal _) (colon_not_mem_decimal _) hleft
  obtain ⟨hb, hq⟩ := CText.split_last (colon_not_mem_decimal _) (colon_not_mem_decimal _) hright
  exact ⟨ha, CText.decimal_injective hp, hb, CText.decimal_injective hq⟩

/-- **A key determines its parts**, if the texts of its local addresses contain no `-`. -/
theorem printKey_inj {a b a' b' : CStr} {p q p' q' : ℕ} (ha : '-' ∉ a) (ha' : '-' ∉ a')
    (h : printKey a p b q = printKey a' p' b' q') : a = a' ∧ p = p' ∧ b = b' ∧ q = q' := by
  rw [printKey_eq, printKey_eq] at h
  obtain ⟨hleft, hright⟩ := CText.split_first (no_dash_end ha) (no_dash_end ha') h
  exact ends_inj hleft hright

/-- **A key determines its parts**, if the texts of its remote addresses contain no `-`. -/
theorem printKey_inj_remote {a b a' b' : CStr} {p q p' q' : ℕ} (hb : '-' ∉ b) (hb' : '-' ∉ b')
    (h : printKey a p b q = printKey a' p' b' q') : a = a' ∧ p = p' ∧ b = b' ∧ q = q' := by
  rw [printKey_eq, printKey_eq] at h
  obtain ⟨hleft, hright⟩ := CText.split_last (no_dash_end hb) (no_dash_end hb') h
  exact ends_inj hleft hright

/-- **The key text of two endpoints determines them.** -/
theorem endsKey_inj (h : host.Readable) {loc rem loc' rem' : Address × BitVec 16}
    (hkey : endsKey host loc rem = endsKey host loc' rem') : loc = loc' ∧ rem = rem' := by
  obtain ⟨hl, hlp, hr, hrp⟩ := printKey_inj (text_no_dash h _) (text_no_dash h _) hkey
  exact ⟨Prod.ext (text_injective h hl) (BitVec.eq_of_toNat_eq hlp),
    Prod.ext (text_injective h hr) (BitVec.eq_of_toNat_eq hrp)⟩

/-! ### Dotted quads -/

/-- `inet_ntop` on IPv4 addresses. -/
def dottedQuad (addr : InAddr) : CStr :=
  CText.decimal (addr.s_addr.toNat % 2 ^ 8) ++ '.' ::
    (CText.decimal (addr.s_addr.toNat / 2 ^ 8 % 2 ^ 8) ++ '.' ::
      (CText.decimal (addr.s_addr.toNat / 2 ^ 16 % 2 ^ 8) ++ '.' ::
        CText.decimal (addr.s_addr.toNat / 2 ^ 24)))

/-- The words of an IPv6 address, printed in full. -/
def colonWords (addr : In6Addr) : CStr := ':' :: in6Hex addr

/-- A host that prints IPv4 addresses as dotted quads, with the given IPv4 local addresses. -/
def dottedHost (addresses : List InAddr) : Host :=
  ⟨dottedQuad, colonWords, addresses.map dottedQuad⟩

theorem mem_dottedQuad {addr : InAddr} {c : Char} (h : c ∈ dottedQuad addr) :
    c = '.' ∨ c.isDigit = true := by
  simp only [dottedQuad, List.mem_append, List.mem_cons] at h
  rcases h with h | h | h | h | h | h | h
  · exact .inr (CText.isDigit_of_mem_decimal h)
  · exact .inl h
  · exact .inr (CText.isDigit_of_mem_decimal h)
  · exact .inl h
  · exact .inr (CText.isDigit_of_mem_decimal h)
  · exact .inl h
  · exact .inr (CText.isDigit_of_mem_decimal h)

theorem dottedQuad_injective : Function.Injective dottedQuad := by
  have hdot : ∀ n, '.' ∉ CText.decimal n := fun n => CText.not_mem_decimal (by decide)
  rintro ⟨a⟩ ⟨b⟩ h
  obtain ⟨h0, h⟩ := CText.split_first (hdot _) (hdot _) h
  obtain ⟨h1, h⟩ := CText.split_first (hdot _) (hdot _) h
  obtain ⟨h2, h3⟩ := CText.split_first (hdot _) (hdot _) h
  have h0 := CText.decimal_injective h0
  have h1 := CText.decimal_injective h1
  have h2 := CText.decimal_injective h2
  have h3 := CText.decimal_injective h3
  have hab : a = b := BitVec.eq_of_toNat_eq (by simp only at h0 h1 h2 h3; omega)
  rw [hab]

theorem colonWords_injective : Function.Injective colonWords := by
  intro a b h
  have hscan := congrArg scanIn6Addr (List.cons.inj h).2
  rw [scanIn6Addr_in6Hex, scanIn6Addr_in6Hex] at hscan
  exact Option.some_inj.1 hscan

theorem readable_dottedHost (addresses : List InAddr) : (dottedHost addresses).Readable where
  inetNtop_injective := dottedQuad_injective
  inetNtop6_injective := colonWords_injective
  no_dash := by
    intro addr h
    rcases mem_dottedQuad h with h | h <;> cases h
  no_dash6 := by
    intro addr h
    rcases List.mem_cons.1 h with h | h
    · cases h
    · exact absurd ((in6Hex_spec addr).2.1 _ h) (by decide)
  no_colon := by
    intro addr h
    rcases mem_dottedQuad h with h | h <;> cases h
  colon6 := fun addr => List.mem_cons_self
  localAddresses := by
    intro a h
    obtain ⟨addr, _, rfl⟩ := List.mem_map.1 h
    exact ⟨.ip addr, rfl⟩

/-! ### The key of a new connection -/

variable (host)

theorem sourceText_eq (packet : NAPacket) :
    sourceText host packet = host.text packet.source.1 ∧ packet.source.2 = packet.s_port := by
  unfold sourceText NAPacket.source
  cases packet.sa_family <;> exact ⟨rfl, rfl⟩

theorem destText_eq (packet : NAPacket) :
    destText host packet = host.text packet.dest.1 ∧ packet.dest.2 = packet.d_port := by
  unfold destText NAPacket.dest
  cases packet.sa_family <;> exact ⟨rfl, rfl⟩

/-- The key text of a packet that does not remember one. -/
theorem hashstring_fresh {packet : NAPacket} (hkey : packet.hashstring = none) :
    (naPacketGetHashstring host packet).1 =
      if (naPacketIsOutgoing host packet).1 then endsKey host packet.source packet.dest
      else endsKey host packet.dest packet.source := by
  obtain ⟨hs, hsp⟩ := sourceText_eq host packet
  obtain ⟨hd, hdp⟩ := destText_eq host packet
  have hports : (naPacketIsOutgoing host packet).2.s_port = packet.s_port ∧
      (naPacketIsOutgoing host packet).2.d_port = packet.d_port := by
    rw [isOutgoing_eq]
    exact ⟨rfl, rfl⟩
  simp only [naPacketGetHashstring, hkey, endsKey, hs, hd, hsp, hdp, hports.1, hports.2]

/-- The key text of an outgoing packet that does not remember one. -/
theorem hashstring_outgoing {packet : NAPacket} (hkey : packet.hashstring = none)
    (hout : (naPacketIsOutgoing host packet).1 = true) :
    (naPacketGetHashstring host packet).1 = endsKey host packet.source packet.dest := by
  rw [hashstring_fresh host hkey, if_pos hout]

/-- **The key text of a new connection** names the local end of its flow first, whichever
direction the packet travels. -/
theorem hashstring_refpacket {packet : NAPacket} (hp : packet.Pushed)
    {loc rem : Address × BitVec 16} (hloc : isLocalAddress host (host.text loc.1) = true)
    (hrem : isLocalAddress host (host.text rem.1) = false)
    (hflow : packet.source = loc ∧ packet.dest = rem ∨ packet.source = rem ∧ packet.dest = loc) :
    connKey host (connectionInit host packet) = endsKey host loc rem := by
  rw [connKey, refpacket_init]
  rcases hflow with ⟨rfl, rfl⟩ | ⟨rfl, rfl⟩
  · -- an outgoing packet is the reference packet
    have hout : (naPacketIsOutgoing host packet).1 = true := by
      rw [isOutgoing_of_unknown host hp.dir, (sourceText_eq host packet).1]
      exact hloc
    rw [if_pos hout, isOutgoing_eq]
    have hdir : (naPacketIsOutgoing host packet).2.dir = .outgoing := by
      simpa [naPacketIsOutgoing] using hout
    rw [hdir]
    exact @hashstring_outgoing host { packet with dir := .outgoing } hp.hashstring rfl
  · -- an incoming packet is inverted
    have hin : (naPacketIsOutgoing host packet).1 = false := by
      rw [isOutgoing_of_unknown host hp.dir, (sourceText_eq host packet).1]
      exact hrem
    rw [hin, if_neg (by decide)]
    have hout : (naPacketIsOutgoing host (naPacketNewInverted packet)).1 = true := by
      rw [isOutgoing_of_unknown host (newInverted_dir packet), sourceText_newInverted,
        (destText_eq host packet).1]
      exact hloc
    rw [hashstring_outgoing host (newInverted_hashstring packet) hout, source_newInverted,
      dest_newInverted]

/-- A number printed in hexadecimal. -/
def hexText (w n : ℕ) : HexText :=
  ⟨CText.hexFixed (w + 1) n, hexFixed_ne_nil (Nat.succ_ne_zero w),
    fun _ hc => CText.isHex_of_mem_hexFixed hc⟩

/-- The row `10: 020310AC:1770 9DD8A9C3:A525 01 00000000:00000000 00:00000000 00000000     0
0 2119 1`. -/
def establishedRow : NetRow where
  slPad := 2
  sl := 10
  ends := .ip ⟨0x020310AC⟩ ⟨0x9DD8A9C3⟩
  local_port := 0x1770
  rem_port := 0xA525
  st := hexText 1 1
  tx_queue := hexText 7 0
  rx_queue := hexText 7 0
  tr := hexText 1 0
  tmWhen := hexText 7 0
  retrnsmt := hexText 7 0
  uidPad := 4
  uid := 0
  timeoutPad := 7
  timeout := 0
  inode := 2119
  trailing := ['1']
  inode_lt := by decide
  trailing_line := by decide
  fits := by decide

end NetworkAnalyzer
