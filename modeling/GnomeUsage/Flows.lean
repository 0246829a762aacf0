/-
Flows, and the connections their bytes are accumulated in.

Two packets are of the same flow if they have the same family and the same endpoints, in the same
order or swapped.  `na_packet_match` compares the ports and the IPv4 fields only, and those are
zero in every IPv6 packet, so the look-up of a connection confuses flows that differ in their
IPv6 addresses, or in their family when the IPv4 addresses are zero as well.  This module says
exactly when it does not.

* `NAPacket.SameFlow`, `flow` — flows, and `flowKey_eq_iff`, what `na_packet_match` makes of them;
* `Separates` — the look-up of a packet finds its flow and nothing else;
* `Clear` — no connection that is blank, like the packet, has its ports and another flow;
* `Accumulated` — the packets of a run whose bytes went to a connection;
* `flow_separation_iff` — **the look-up separates flows exactly when the way is clear**, for one
  packet and along a run;
* `ip6_flows_mixed` — two IPv6 flows in one connection.
-/

import GnomeUsage.Push

set_option relaxedAutoImplicit false
set_option autoImplicit false

namespace NetworkAnalyzer

/-! ### Flows -/

/-- An address of either family. -/
inductive Address where
  | ip (addr : InAddr)
  | ip6 (addr : In6Addr)
  deriving DecidableEq

/-- The source of a packet, in its family. -/
def NAPacket.source (packet : NAPacket) : Address × BitVec 16 :=
  match packet.sa_family with
  | .inet => (.ip packet.s_ip, packet.s_port)
  | .inet6 => (.ip6 packet.s_ip6, packet.s_port)

/-- The destination of a packet, in its family. -/
def NAPacket.dest (packet : NAPacket) : Address × BitVec 16 :=
  match packet.sa_family with
  | .inet => (.ip packet.d_ip, packet.d_port)
  | .inet6 => (.ip6 packet.d_ip6, packet.d_port)

/-- **The same flow**: the same family and the same endpoints, in the same order or swapped. -/
def NAPacket.SameFlow (packet other : NAPacket) : Prop :=
  packet.sa_family = other.sa_family ∧
    (packet.source = other.source ∧ packet.dest = other.dest ∨
      packet.source = other.dest ∧ packet.dest = other.source)

/-- The flow of a packet, as the unordered pair of its endpoints. -/
def flow (packet : NAPacket) : Sym2 (Address × BitVec 16) := s(packet.source, packet.dest)

theorem family_eq_of_source {packet other : NAPacket}
    (h : packet.source = other.source ∨ packet.source = other.dest) :
    packet.sa_family = other.sa_family := by
  unfold NAPacket.source NAPacket.dest at h
  cases hp : packet.sa_family <;> cases ho : other.sa_family <;> simp [hp, ho] at h ⊢

theorem sameFlow_iff {packet other : NAPacket} :
    packet.SameFlow other ↔ flow packet = flow other := by
  simp only [NAPacket.SameFlow, flow, Sym2.eq_iff]
  constructor
  · exact And.right
  · intro h
    exact ⟨family_eq_of_source (h.imp And.left And.left), h⟩

theorem source_newInverted (packet : NAPacket) :
    (naPacketNewInverted packet).source = packet.dest := by
  unfold naPacketNewInverted NAPacket.source NAPacket.dest
  cases packet.sa_family <;> rfl

theorem dest_newInverted (packet : NAPacket) :
    (naPacketNewInverted packet).dest = packet.source := by
  unfold naPacketNewInverted NAPacket.source NAPacket.dest
  cases packet.sa_family <;> rfl

theorem flow_newInverted (packet : NAPacket) :
    flow (naPacketNewInverted packet) = flow packet := by
  rw [flow, source_newInverted, dest_newInverted]
  exact Sym2.eq_swap

/-- The reference packet of a new connection is of the flow of the packet that opened it. -/
theorem flow_refpacket_init (host : Host) (packet : NAPacket) :
    flow (connectionInit host packet).refpacket = flow packet := by
  rw [refpacket_init]
  split
  · rw [isOutgoing_eq]
    rfl
  · exact flow_newInverted packet

/-- Remembering the key text does not change the flow. -/
theorem flow_getHashstring (host : Host) (packet : NAPacket) :
    flow (naPacketGetHashstring host packet).2 = flow packet := by
  obtain ⟨dir, hashstring, heq⟩ := getHashstring_eq host packet
  rw [heq]
  rfl

/-! ### What the match makes of flows -/

/-- The IPv4 fields are zero: an IPv6 packet, or an IPv4 packet from `0.0.0.0` to `0.0.0.0`. -/
def NAPacket.Blank (packet : NAPacket) : Prop := packet.s_ip = ⟨0⟩ ∧ packet.d_ip = ⟨0⟩

/-- The same ports, in the same order or swapped. -/
def NAPacket.SamePorts (packet other : NAPacket) : Prop :=
  packet.s_port = other.s_port ∧ packet.d_port = other.d_port ∨
    packet.s_port = other.d_port ∧ packet.d_port = other.s_port

/-- The IPv4 field an address is stored in, which an IPv6 address leaves zero. -/
def Address.word : Address → InAddr
  | .ip addr => addr
  | .ip6 _ => ⟨0⟩

theorem source_word {packet : NAPacket} (h : packet.Built) :
    (packet.source.1.word, packet.source.2) = (packet.s_ip, packet.s_port) := by
  unfold NAPacket.source
  cases hf : packet.sa_family with
  | inet => rfl
  | inet6 => rw [(h.blank_ip hf).1]; rfl

theorem dest_word {packet : NAPacket} (h : packet.Built) :
    (packet.dest.1.word, packet.dest.2) = (packet.d_ip, packet.d_port) := by
  unfold NAPacket.dest
  cases hf : packet.sa_family with
  | inet => rfl
  | inet6 => rw [(h.blank_ip hf).2]; rfl

/-- The flow key forgets the IPv6 addresses. -/
theorem flowKey_eq_map {packet : NAPacket} (h : packet.Built) :
    flowKey packet = (flow packet).map fun e => (e.1.word, e.2) := by
  rw [flow, Sym2.map_mk, source_word h, dest_word h]
  rfl

theorem flowKey_eq_of_sameFlow {packet other : NAPacket} (hp : packet.Built) (ho : other.Built)
    (h : packet.SameFlow other) : flowKey packet = flowKey other := by
  rw [flowKey_eq_map hp, flowKey_eq_map ho, sameFlow_iff.1 h]

theorem flowKey_eq_of_blank {packet other : NAPacket} (hp : packet.Blank) (ho : other.Blank)
    (h : packet.SamePorts other) : flowKey packet = flowKey other := by
  rw [flowKey, flowKey, hp.1, hp.2, ho.1, ho.2, Sym2.eq_iff]
  rcases h with ⟨hs, hd⟩ | ⟨hs, hd⟩
  · left
    rw [hs, hd]
    exact ⟨rfl, rfl⟩
  · right
    rw [hs, hd]
    exact ⟨rfl, rfl⟩

theorem blank_of_flowKey_eq {packet other : NAPacket} (h : flowKey packet = flowKey other)
    (ho : other.Blank) : packet.Blank ∧ packet.SamePorts other := by
  rw [flowKey, flowKey, ho.1, ho.2, Sym2.eq_iff] at h
  simp only [Prod.mk.injEq] at h
  rcases h with ⟨⟨hsi, hsp⟩, hdi, hdp⟩ | ⟨⟨hsi, hsp⟩, hdi, hdp⟩
  · exact ⟨⟨hsi, hdi⟩, .inl ⟨hsp, hdp⟩⟩
  · exact ⟨⟨hsi, hdi⟩, .inr ⟨hsp, hdp⟩⟩

theorem NAPacket.SamePorts.symm {packet other : NAPacket} (h : packet.SamePorts other) :
    other.SamePorts packet := by
  rcases h with ⟨hs, hd⟩ | ⟨hs, hd⟩
  · exact .inl ⟨hs.symm, hd.symm⟩
  · exact .inr ⟨hd.symm, hs.symm⟩

/-- **What `na_packet_match` takes for one flow**: one flow, or two blank packets with the same
ports. -/
theorem flowKey_eq_iff {packet other : NAPacket} (hp : packet.Built) (ho : other.Built) :
    flowKey packet = flowKey other ↔
      packet.SameFlow other ∨ packet.Blank ∧ other.Blank ∧ packet.SamePorts other := by
  constructor
  · intro h
    cases hfp : packet.sa_family with
    | inet6 =>
        have hblank : packet.Blank := hp.blank_ip hfp
        obtain ⟨hother, hports⟩ := blank_of_flowKey_eq h.symm hblank
        exact .inr ⟨hblank, hother, hports.symm⟩
    | inet =>
        cases hfo : other.sa_family with
        | inet6 =>
            have hblank : other.Blank := ho.blank_ip hfo
            obtain ⟨hpacket, hports⟩ := blank_of_flowKey_eq h hblank
            exact .inr ⟨hpacket, hblank, hports⟩
        | inet =>
            left
            rw [flowKey, flowKey, Sym2.eq_iff] at h
            simp only [Prod.mk.injEq] at h
            simp only [NAPacket.SameFlow, NAPacket.source, NAPacket.dest, hfp, hfo,
              Prod.mk.injEq, Address.ip.injEq, true_and]
            exact h
  · rintro (h | ⟨hbp, hbo, hports⟩)
    · exact flowKey_eq_of_sameFlow hp ho h
    · exact flowKey_eq_of_blank hbp hbo hports

/-! ### Separation -/

/-- The look-up of a packet returns a connection only if it is of the flow of the packet, and
nothing only if no connection is. -/
def Separates (store : ConnStore) (packet : NAPacket) : Prop :=
  ∃ r, naConnectionFindFromPacket store packet = some r ∧
    (∀ c, r = some c → c ∈ store.connections ∧
      ∃ conn, store.cell c = some conn ∧ packet.SameFlow conn.refpacket) ∧
    (r = none → ∀ c ∈ store.connections, ∀ conn, store.cell c = some conn →
      ¬ packet.SameFlow conn.refpacket)

/-- No blank connection with the ports of a blank packet is of another flow. -/
def Clear (store : ConnStore) (packet : NAPacket) : Prop :=
  packet.Blank → ∀ c ∈ store.connections, ∀ conn, store.cell c = some conn →
    conn.refpacket.Blank → packet.SamePorts conn.refpacket → packet.SameFlow conn.refpacket

/-- A connection with the flow key of the packet is the one the look-up returns. -/
theorem findFromPacket_of_flowKey {store : ConnStore} (h : store.Ok) {packet : NAPacket}
    (hp : packet.Built) {c : Ptr} {conn : NAConnection} (hc : c ∈ store.connections)
    (hconn : store.cell c = some conn) (hkey : flowKey packet = flowKey conn.refpacket) :
    naConnectionFindFromPacket store packet = some (some c) := by
  obtain ⟨r, hr⟩ := findFromPacket_defined h packet
  cases r with
  | none => exact absurd hkey (findFromPacket_none h hp hr c hc conn hconn)
  | some d =>
      obtain ⟨hd, conn', hconn', hkey'⟩ := findFromPacket_some h hp hr
      obtain rfl := h.eq_of_flowKey hc hd hconn hconn' (hkey.symm.trans hkey')
      exact hr

/-- **The look-up of a packet separates flows exactly when the way is clear.** -/
theorem separates_iff {store : ConnStore} (h : store.Ok) {packet : NAPacket}
    (hp : packet.Built) : Separates store packet ↔ Clear store packet := by
  constructor
  · rintro ⟨r, hr, hsome, _⟩ hblank c hc conn hconn hother hports
    have hkey := flowKey_eq_of_blank hblank hother hports
    rw [findFromPacket_of_flowKey h hp hc hconn hkey] at hr
    obtain ⟨_, conn', hconn', hflow⟩ := hsome c (Option.some_inj.1 hr).symm
    rw [hconn] at hconn'
    cases hconn'
    exact hflow
  · intro hclear
    obtain ⟨r, hr⟩ := findFromPacket_defined h packet
    refine ⟨r, hr, ?_, ?_⟩
    · rintro c rfl
      obtain ⟨hc, conn, hconn, hkey⟩ := findFromPacket_some h hp hr
      refine ⟨hc, conn, hconn, ?_⟩
      rcases (flowKey_eq_iff hp (h.built c hc conn hconn)).1 hkey with hflow | hblank
      · exact hflow
      · exact hclear hblank.1 c hc conn hconn hblank.2.1 hblank.2.2
    · rintro rfl c hc conn hconn hflow
      have hkey := flowKey_eq_of_sameFlow hp (h.built c hc conn hconn) hflow
      exact findFromPacket_none h hp hr c hc conn hconn hkey

/-! ### Accumulation -/

/-- The connection the bytes of a packet go to: the one found, or the next one allocated. -/
def pushTarget (store : ConnStore) (packet : NAPacket) : Option Ptr :=
  (naConnectionFindFromPacket store packet).map fun r => r.getD store.fresh

variable (host : Host)

/-- **The bytes of `packet` went to the connection `c`** at some point of the run. -/
def Accumulated (es : List Event) (c : Ptr) (packet : NAPacket) : Prop :=
  ∃ pre e post σ, es = pre ++ e :: post ∧ Runs.run (step host) NAState.init pre = some σ ∧
    e.packet = some packet ∧ pushTarget σ.store packet = some c

theorem accumulated_concat {es : List Event} {e : Event} {c : Ptr} {packet : NAPacket}
    {σ : NAState}
    (hrun : Runs.run (step host) NAState.init es = some σ) :
    Accumulated host (es ++ [e]) c packet ↔
      Accumulated host es c packet ∨
        e.packet = some packet ∧ pushTarget σ.store packet = some c := by
  constructor
  · rintro ⟨pre, e', post, σ', hsplit, hrun', he, hc⟩
    rcases List.eq_nil_or_concat post with rfl | ⟨post, e'', rfl⟩
    · obtain ⟨rfl, hlast⟩ := List.append_inj' hsplit rfl
      obtain rfl := List.singleton_inj.1 hlast
      obtain rfl : σ = σ' := Option.some_inj.1 (hrun.symm.trans hrun')
      exact .inr ⟨he, hc⟩
    · have hsplit : es ++ [e] = (pre ++ e' :: post) ++ [e''] := by rw [hsplit]; simp
      obtain ⟨rfl, _⟩ := List.append_inj' hsplit rfl
      exact .inl ⟨pre, e', post, σ', rfl, hrun', he, hc⟩
  · rintro (⟨pre, e', post, σ', rfl, hrun', he, hc⟩ | ⟨he, hc⟩)
    · exact ⟨pre, e', post ++ [e], σ', by simp, hrun', he, hc⟩
    · exact ⟨es, e, [], σ, rfl, hrun, he, hc⟩

/-- The bytes accumulated in any one connection are of one flow. -/
def OneFlowEach (es : List Event) : Prop :=
  ∀ c packet other, Accumulated host es c packet → Accumulated host es c other →
    packet.SameFlow other

/-- The guard of a step: the way of its packet is clear. -/
def ClearStep (σ : NAState) (e : Event) : Prop := ∀ packet ∈ e.packet, Clear σ.store packet

/-- Connections are allocated in order, and what a live connection refers to was accumulated
in it. -/
structure Traced (es : List Event) (σ : NAState) : Prop where
  lt_fresh : ∀ c packet, Accumulated host es c packet → c < σ.store.fresh
  opened : ∀ c ∈ σ.store.connections, ∀ conn, σ.store.cell c = some conn →
    ∃ packet, Accumulated host es c packet ∧ packet.SameFlow conn.refpacket

theorem traced_init : Traced host [] NAState.init where
  lt_fresh := by
    rintro c packet ⟨pre, e, post, σ, hsplit, _⟩
    simp at hsplit
  opened := by
    intro c hc
    simp [NAState.init, ConnStore.empty] at hc

/-- Where the connections behind a packet come from: they were there before, with the same flow,
or the packet opened them. -/
theorem pushNAPacket_origin {σ σ' : NAState} (h : σ.Ok) {packet : NAPacket} (hp : packet.Built)
    {lookup : ProcessLookup} (hrun : pushNAPacket host σ packet lookup = some σ') {d : Ptr}
    (hd : pushTarget σ.store packet = some d) :
    σ.store.fresh ≤ σ'.store.fresh ∧ d < σ'.store.fresh ∧
      ∀ c ∈ σ'.store.connections, ∀ conn', σ'.store.cell c = some conn' →
        (c ∈ σ.store.connections ∧
            ∃ conn, σ.store.cell c = some conn ∧ flow conn'.refpacket = flow conn.refpacket) ∨
          c = d ∧ flow conn'.refpacket = flow packet := by
  have hstep := pushNAPacket_step host h hp hrun
  have horigin := hstep.origin host h
  cases hstep with
  | @found e conn hfind hmem _ _ heq =>
      obtain rfl : e = d := by simpa [pushTarget, hfind] using hd
      subst heq
      refine ⟨le_rfl, h.store.lt_fresh e hmem, ?_⟩
      intro c hc conn' hconn'
      rcases horigin c hc conn' hconn' with ⟨hc, conn, hconn, href⟩ | ⟨hnone, _⟩
      · exact .inl ⟨hc, conn, hconn, by rw [href]⟩
      · rw [hfind] at hnone
        cases hnone
  | opened hfind _ heq =>
      obtain rfl : σ.store.fresh = d := by simpa [pushTarget, hfind] using hd
      subst heq
      refine ⟨Nat.le_succ _, Nat.lt_succ_self _, ?_⟩
      intro c hc conn' hconn'
      rcases horigin c hc conn' hconn' with ⟨hc, conn, hconn, href⟩ | ⟨_, rfl, rfl⟩
      · exact .inl ⟨hc, conn, hconn, by rw [href]⟩
      · exact .inr ⟨rfl, by rw [keyed, flow_getHashstring, flow_refpacket_init]⟩

theorem refresh_origin {σ σ' : NAState} (h : σ.Ok) {t : Timeval} {proc_info : List NAProcInfo}
    (hrun : naProcessInfoGetAll σ t = some (σ', proc_info)) :
    σ'.store.fresh = σ.store.fresh ∧
      ∀ c ∈ σ'.store.connections, ∀ conn', σ'.store.cell c = some conn' →
        c ∈ σ.store.connections ∧
          ∃ conn, σ.store.cell c = some conn ∧ conn'.refpacket = conn.refpacket := by
  rw [naProcessInfoGetAll_eq h] at hrun
  cases hrun
  refine ⟨rfl, fun c hc conn' hconn' => ⟨(mem_connections_sweep.1 hc).1, ?_⟩⟩
  exact cell_sweep_some hconn'

/-- One more packet leaves the accumulation traced. -/
theorem traced_push {es : List Event} {e : Event} {σ σ' : NAState} (h : σ.Ok)
    (ht : Traced host es σ) (hrun : Runs.run (step host) NAState.init es = some σ)
    {packet : NAPacket} (he : e.packet = some packet) {lookup : ProcessLookup}
    (hstep : pushNAPacket host σ packet lookup = some σ') : Traced host (es ++ [e]) σ' := by
  obtain ⟨r, hr⟩ := findFromPacket_defined h.store packet
  have hd : pushTarget σ.store packet = some (r.getD σ.store.fresh) := by
    rw [pushTarget, hr]
    rfl
  obtain ⟨hfresh, hlt, horigin⟩ := pushNAPacket_origin host h (Event.built_packet he) hstep hd
  refine ⟨?_, ?_⟩
  · intro c other hc
    rcases (accumulated_concat host hrun).1 hc with hc | ⟨hother, hc⟩
    · exact (ht.lt_fresh c other hc).trans_le hfresh
    · obtain rfl : packet = other := Option.some_inj.1 (he.symm.trans hother)
      rw [hd] at hc
      cases hc
      exact hlt
  · intro c hc conn' hconn'
    rcases horigin c hc conn' hconn' with ⟨hc, conn, hconn, hflow⟩ | ⟨rfl, hflow⟩
    · obtain ⟨other, hother, hsame⟩ := ht.opened c hc conn hconn
      refine ⟨other, (accumulated_concat host hrun).2 (.inl hother), sameFlow_iff.2 ?_⟩
      exact (sameFlow_iff.1 hsame).trans hflow.symm
    · exact ⟨packet, (accumulated_concat host hrun).2 (.inr ⟨he, hd⟩), sameFlow_iff.2 hflow.symm⟩

/-- A refresh leaves the accumulation traced. -/
theorem traced_refresh {es : List Event} {t : Timeval} {σ σ' : NAState} (h : σ.Ok)
    (ht : Traced host es σ) (hrun : Runs.run (step host) NAState.init es = some σ)
    {proc_info : List NAProcInfo} (hrefresh : naProcessInfoGetAll σ t = some (σ', proc_info)) :
    Traced host (es ++ [.refresh t]) σ' := by
  obtain ⟨hfresh, horigin⟩ := refresh_origin h hrefresh
  refine ⟨?_, ?_⟩
  · intro c packet hc
    rw [hfresh]
    rcases (accumulated_concat host hrun).1 hc with hc | ⟨hpacket, _⟩
    · exact ht.lt_fresh c packet hc
    · cases hpacket
  · intro c hc conn' hconn'
    obtain ⟨hc, conn, hconn, href⟩ := horigin c hc conn' hconn'
    obtain ⟨packet, hpacket, hsame⟩ := ht.opened c hc conn hconn
    exact ⟨packet, (accumulated_concat host hrun).2 (.inl hpacket), by rw [href]; exact hsame⟩

/-- **One more step** leaves the accumulation traced. -/
theorem traced_step {es : List Event} {e : Event} {σ σ' : NAState} (h : σ.Ok)
    (ht : Traced host es σ) (hrun : Runs.run (step host) NAState.init es = some σ)
    (hstep : step host σ e = some σ') : Traced host (es ++ [e]) σ' := by
  cases e with
  | push header address s_port d_port lookup => exact traced_push host h ht hrun rfl hstep
  | refresh t =>
      obtain ⟨⟨s, proc_info⟩, hs, rfl⟩ := Option.map_eq_some_iff.1 hstep
      exact traced_refresh host h ht hrun hs

/-- A packet whose way is clear goes to a connection of its flow: what was accumulated there is of
its flow too. -/
theorem sameFlow_of_clear {es : List Event} {σ : NAState} (h : σ.Ok) (ht : Traced host es σ)
    (hone : OneFlowEach host es) {packet : NAPacket} (hp : packet.Built)
    (hclear : Clear σ.store packet) {c : Ptr} (hc : pushTarget σ.store packet = some c)
    {other : NAPacket} (hother : Accumulated host es c other) : packet.SameFlow other := by
  obtain ⟨r, hr, hsome, _⟩ := (separates_iff h.store hp).2 hclear
  rw [pushTarget, hr] at hc
  cases r with
  | none =>
      obtain rfl := Option.some_inj.1 hc
      exact absurd (ht.lt_fresh _ other hother) (lt_irrefl _)
  | some d =>
      obtain rfl := Option.some_inj.1 hc
      obtain ⟨hd, conn, hconn, hflow⟩ := hsome _ rfl
      obtain ⟨first, hfirst, hsame⟩ := ht.opened _ hd conn hconn
      have hone := hone _ first other hfirst hother
      rw [sameFlow_iff] at hflow hsame hone ⊢
      exact hflow.trans (hsame.symm.trans hone)

/-- **One more step** keeps one flow in each connection exactly when the way of its packet is
clear. -/
theorem oneFlowEach_step_iff {es : List Event} {e : Event} {σ : NAState} (h : σ.Ok)
    (ht : Traced host es σ) (hrun : Runs.run (step host) NAState.init es = some σ) :
    OneFlowEach host (es ++ [e]) ↔ OneFlowEach host es ∧ ClearStep σ e := by
  constructor
  · intro hone
    refine ⟨?_, ?_⟩
    · intro c packet other hc ho
      exact hone c packet other ((accumulated_concat host hrun).2 (.inl hc))
        ((accumulated_concat host hrun).2 (.inl ho))
    · intro packet hpacket hblank c hc conn hconn hother hports
      have hp : packet.Built := Event.built_packet hpacket
      have hkey := flowKey_eq_of_blank hblank hother hports
      have hfind := findFromPacket_of_flowKey h.store hp hc hconn hkey
      obtain ⟨other, hopen, hsame⟩ := ht.opened c hc conn hconn
      have htarget : pushTarget σ.store packet = some c := by
        rw [pushTarget, hfind]
        rfl
      have hflow := hone c packet other
        ((accumulated_concat host hrun).2 (.inr ⟨hpacket, htarget⟩))
        ((accumulated_concat host hrun).2 (.inl hopen))
      exact sameFlow_iff.2 ((sameFlow_iff.1 hflow).trans (sameFlow_iff.1 hsame))
  · rintro ⟨hone, hclear⟩
    have hnew : ∀ c packet other, e.packet = some packet → pushTarget σ.store packet = some c →
        Accumulated host es c other → packet.SameFlow other :=
      fun c packet other hpacket hc hother => sameFlow_of_clear host h ht hone
        (Event.built_packet hpacket) (hclear packet hpacket) hc hother
    intro c packet other hc ho
    rcases (accumulated_concat host hrun).1 hc with hc | ⟨hpacket, hc⟩
    · rcases (accumulated_concat host hrun).1 ho with ho | ⟨hother, ho⟩
      · exact hone c packet other hc ho
      · exact sameFlow_iff.2 (sameFlow_iff.1 (hnew c other packet hother ho hc)).symm
    · rcases (accumulated_concat host hrun).1 ho with ho | ⟨hother, ho⟩
      · exact hnew c packet other hpacket hc ho
      · obtain rfl : packet = other := Option.some_inj.1 (hpacket.symm.trans hother)
        exact sameFlow_iff.2 rfl

theorem oneFlowEach_iff (es : List Event) :
    ∃ σ, Runs.run (step host) NAState.init es = some σ ∧ σ.Ok ∧ Traced host es σ ∧
      (OneFlowEach host es ↔ Runs.Guarded (step host) ClearStep NAState.init es) := by
  induction es using List.reverseRecOn with
  | nil =>
      refine ⟨NAState.init, rfl, ok_init, traced_init host, ?_⟩
      refine ⟨fun _ => Runs.guarded_nil, ?_⟩
      intro _
      rintro c packet other ⟨pre, e, post, σ, hsplit, _⟩
      simp at hsplit
  | append_singleton es e ih =>
      obtain ⟨σ, hrun, hok, ht, hiff⟩ := ih
      obtain ⟨σ', hstep, hok'⟩ := step_ok host hok e
      refine ⟨σ', ?_, hok', traced_step host hok ht hrun hstep, ?_⟩
      · rw [Runs.run_concat, hrun]
        exact hstep
      · rw [oneFlowEach_step_iff host hok ht hrun, Runs.guarded_concat, hiff, hrun]
        simp

/-- **Flow separation.**  In every state a run reaches, the look-up of a packet finds the
connection of its flow, and nothing when there is none, if and only if its way is clear; and the
connections of a run have each accumulated the bytes of one flow only if and only if the way of
every packet of the run was clear. -/
theorem flow_separation_iff (es : List Event) :
    ∃ σ, Runs.run (step host) NAState.init es = some σ ∧
      (∀ header address s_port d_port,
        Separates σ.store (packetOf header address s_port d_port) ↔
          Clear σ.store (packetOf header address s_port d_port)) ∧
      (OneFlowEach host es ↔ Runs.Guarded (step host) ClearStep NAState.init es) := by
  obtain ⟨σ, hrun, hok, _, hiff⟩ := oneFlowEach_iff host es
  refine ⟨σ, hrun, ?_, hiff⟩
  intro header address s_port d_port
  exact separates_iff hok.store (pushed_packetOf header address s_port d_port).built

/-- A packet of second 100 from port 5000 to port 443. -/
def ip6Push (src dst : In6Addr) : Event :=
  .push ⟨⟨100⟩, 60, 60⟩ (.ip6 src dst) 5000 443 ⟨none, none⟩

/-- **Two IPv6 flows in one connection**: the first packet opens the connection that the second,
between other addresses, is found in and added to. -/
theorem ip6_flows_mixed :
    ∃ σ, Runs.run (step silentHost) NAState.init
        [ip6Push ⟨1, 0, 0, 0⟩ ⟨2, 0, 0, 0⟩] = some σ ∧
      ¬ Separates σ.store
        (packetOf ⟨⟨100⟩, 60, 60⟩ (.ip6 ⟨3, 0, 0, 0⟩ ⟨4, 0, 0, 0⟩) 5000 443) ∧
      ¬ OneFlowEach silentHost
        [ip6Push ⟨1, 0, 0, 0⟩ ⟨2, 0, 0, 0⟩, ip6Push ⟨3, 0, 0, 0⟩ ⟨4, 0, 0, 0⟩] := by
  refine ⟨_, rfl, ?_, ?_⟩
  · rintro ⟨r, hr, hsome, _⟩
    obtain rfl : r = some 0 := by
      rw [← Option.some_inj, ← hr]
      rfl
    obtain ⟨_, conn, hconn, hflow⟩ := hsome 0 rfl
    cases hconn
    exact absurd hflow.2 (by decide)
  · intro h
    have hflow := h 0 _ _
      ⟨[], ip6Push ⟨1, 0, 0, 0⟩ ⟨2, 0, 0, 0⟩, [ip6Push ⟨3, 0, 0, 0⟩ ⟨4, 0, 0, 0⟩], _, rfl, rfl,
        rfl, rfl⟩
      ⟨[ip6Push ⟨1, 0, 0, 0⟩ ⟨2, 0, 0, 0⟩], ip6Push ⟨3, 0, 0, 0⟩ ⟨4, 0, 0, 0⟩, [], _, rfl, rfl,
        rfl, rfl⟩
    exact absurd hflow.2 (by decide)

end NetworkAnalyzer
