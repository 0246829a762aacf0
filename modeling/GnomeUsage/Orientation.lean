/-
The orientation of connections.

A connection is written down in one direction: its reference packet is the packet that opened it,
inverted if that packet was not outgoing.  The direction of a packet is decided by its own source
address, when the connection is opened, when the inverted packet is asked, and again for every
packet that is added, and none of these looks at the reference packet.  The look-up is written for
reference packets that are outgoing.

* `Directed` — a packet whose direction, if it is known, is that of its source;
* `FiledIn`, `FilesByMatch` — the list a packet is filed in, and that it is the one the match with
  the reference packet asks for;
* `Oriented` — a packet for which the three decisions agree, in the state it arrives in;
* `orientation_iff` — **a run keeps all reference packets outgoing and files every packet as it is
  matched exactly when every packet is oriented**.
-/

import GnomeUsage.Keys
import GnomeUsage.Timeouts

set_option relaxedAutoImplicit false
set_option autoImplicit false

namespace NetworkAnalyzer

variable (host : Host)

/-! ### The direction a packet remembers -/

/-- The direction of the packet is that of its source, whether it is known already or not. -/
def Directed (packet : NAPacket) : Prop :=
  (naPacketIsOutgoing host packet).1 = isLocalAddress host (sourceText host packet)

theorem directed_of_unknown {packet : NAPacket} (h : packet.dir = .unknown) :
    Directed host packet := isOutgoing_of_unknown host h

theorem sourceText_isOutgoing (packet : NAPacket) :
    sourceText host (naPacketIsOutgoing host packet).2 = sourceText host packet := by
  rw [isOutgoing_eq]
  rfl

/-- Asking again gives the same answer. -/
theorem isOutgoing_isOutgoing (packet : NAPacket) :
    (naPacketIsOutgoing host (naPacketIsOutgoing host packet).2).1 =
      (naPacketIsOutgoing host packet).1 := by
  by_cases hdir : packet.dir = .unknown
  · cases hlocal : isLocalAddress host (sourceText host packet) <;>
      simp [naPacketIsOutgoing, hdir, hlocal]
  · simp [naPacketIsOutgoing, hdir]

theorem Directed.isOutgoing {packet : NAPacket} (h : Directed host packet) :
    Directed host (naPacketIsOutgoing host packet).2 := by
  rw [Directed, isOutgoing_isOutgoing, sourceText_isOutgoing]
  exact h

/-- Nothing but the direction and the source of a packet matters. -/
theorem Directed.congr {packet other : NAPacket} (h : Directed host packet)
    (hdir : other.dir = packet.dir) (hsource : sourceText host other = sourceText host packet) :
    Directed host other := by
  have hsame : (naPacketIsOutgoing host other).1 = (naPacketIsOutgoing host packet).1 := by
    by_cases hunknown : packet.dir = .unknown
    · simp [naPacketIsOutgoing, hdir, hsource, hunknown]
    · simp [naPacketIsOutgoing, hdir, hunknown]
  rw [Directed, hsame, hsource]
  exact h

theorem Directed.getHashstring {packet : NAPacket} (h : Directed host packet) :
    Directed host (naPacketGetHashstring host packet).2 := by
  unfold naPacketGetHashstring
  cases packet.hashstring with
  | some key => exact h
  | none => exact (Directed.isOutgoing host h).congr host rfl rfl

theorem directed_refpacket_init {packet : NAPacket} (h : packet.dir = .unknown) :
    Directed host (keyed host (connectionInit host packet)).refpacket := by
  refine Directed.getHashstring host ?_
  rw [refpacket_init]
  split
  · exact (directed_of_unknown host h).isOutgoing
  · exact directed_of_unknown host (newInverted_dir packet)

/-! ### The two lists of a connection -/

/-- `sent_packets` and `recv_packets`. -/
def NAConnection.lists (connection : NAConnection) : NAPacketList × NAPacketList :=
  (connection.sent_packets, connection.recv_packets)

/-- Adding a packet to one of two lists. -/
def fileIn (out : Bool) (packet : NAPacket) (lists : NAPacketList × NAPacketList) :
    NAPacketList × NAPacketList :=
  if out then (naPacketListAddPacket lists.1 packet, lists.2)
  else (lists.1, naPacketListAddPacket lists.2 packet)

/-- The two lists the packet finds: those of the connection it matches, or two new ones. -/
def NAState.lists (σ : NAState) (packet : NAPacket) : NAPacketList × NAPacketList :=
  ((naConnectionFindFromPacket σ.store packet).join.bind σ.store.cell).elim
    (naPacketListNew, naPacketListNew) NAConnection.lists

theorem lists_add (connection : NAConnection) (packet : NAPacket) :
    (connectionAdd host connection packet).lists =
      fileIn (naPacketIsOutgoing host packet).1 (naPacketIsOutgoing host packet).2
        connection.lists := by
  cases h : (naPacketIsOutgoing host packet).1
  · simp [connectionAdd, h, fileIn, NAConnection.lists]
  · simp [connectionAdd, h, fileIn, NAConnection.lists]

theorem lists_init (packet : NAPacket) :
    (connectionInit host packet).lists =
      fileIn (naPacketIsOutgoing host packet).1 (naPacketIsOutgoing host packet).2
        (naPacketListNew, naPacketListNew) := by
  cases h : (naPacketIsOutgoing host packet).1
  · simp [connectionInit, h, fileIn, NAConnection.lists]
  · simp [connectionInit, h, fileIn, NAConnection.lists]

/-- **The packet is filed** in `sent_packets`, or in `recv_packets`: the branch that is taken, and
the two lists after it. -/
structure FiledIn (σ : NAState) (packet : NAPacket) (connection : NAConnection) (out : Bool) :
    Prop where
  branch : (naPacketIsOutgoing host packet).1 = out
  lists : connection.lists = fileIn out (naPacketIsOutgoing host packet).2 (σ.lists packet)

/-- The connection that receives a packet, after it. -/
theorem push_receiver {σ σ' : NAState} {packet : NAPacket} {lookup : ProcessLookup}
    (h : PushStep host σ packet lookup σ') :
    ∃ connection, σ'.store.cell (σ.receiver packet) = some connection ∧
      connection.lists = fileIn (naPacketIsOutgoing host packet).1
        (naPacketIsOutgoing host packet).2 (σ.lists packet) := by
  cases h with
  | @found c conn hfind _ hconn _ heq =>
      subst heq
      have hreceiver : σ.receiver packet = c := NAState.receiver_of_found hfind
      have hlists : σ.lists packet = conn.lists := by simp [NAState.lists, hfind, hconn]
      rw [hreceiver, hlists]
      exact ⟨_, cell_write_self _ _ _, lists_add host conn packet⟩
  | opened hfind _ heq =>
      subst heq
      have hreceiver : σ.receiver packet = σ.store.fresh :=
        NAState.receiver_of_opened hfind
      have hlists : σ.lists packet = (naPacketListNew, naPacketListNew) := by
        simp [NAState.lists, hfind]
      rw [hreceiver, hlists]
      exact ⟨_, cell_opened_self host _ _, lists_init host packet⟩

/-! ### What is asked of a run -/

/-- The reference packets of all live connections satisfy `p`. -/
def NAState.AllRefpackets (σ : NAState) (p : NAPacket → Prop) : Prop :=
  ∀ c ∈ σ.store.connections, ∀ connection, σ.store.cell c = some connection →
    p connection.refpacket

/-- The reference packets of all live connections are outgoing. -/
def AllOutgoing (σ : NAState) : Prop :=
  σ.AllRefpackets fun refpacket => (naPacketIsOutgoing host refpacket).1 = true

/-- The packet is in `sent_packets` if it matches the reference packet as it is, and in
`recv_packets` if it matches only inverted. -/
def FiledByMatch (σ : NAState) (packet : NAPacket) (connection : NAConnection) : Prop :=
  (naPacketMatch packet connection.refpacket = true → FiledIn host σ packet connection true) ∧
    (naPacketMatch packet connection.refpacket = false →
      naPacketMatch (naPacketNewInverted packet) connection.refpacket = true →
        FiledIn host σ packet connection false)

/-- The packet of an event is filed as it matches the connection it is added to. -/
def FilesByMatch (σ : NAState) (e : Event) : Prop :=
  ∀ packet σ', e.packet = some packet → step host σ e = some σ' →
    ∃ connection, σ'.store.cell (σ.receiver packet) = some connection ∧
      FiledByMatch host σ packet connection

/-- **The packet is oriented**, in the state it arrives in: one that opens a connection has a local
end, and if that is its destination it does not match its own inverse; one that matches a
reference packet only inverted does not come from a local address; and one that matches a reference
packet as it is comes from a local address, which needs to be asked of IPv6 only. -/
structure Oriented (σ : NAState) (packet : NAPacket) : Prop where
  opens : (∀ c ∈ σ.store.connections, ∀ connection, σ.store.cell c = some connection →
      naPacketMatch packet connection.refpacket = false ∧
        naPacketMatch (naPacketNewInverted packet) connection.refpacket = false) →
    isLocalAddress host (sourceText host packet) = true ∨
      isLocalAddress host (destText host packet) = true ∧
        naPacketMatch packet (naPacketNewInverted packet) = false
  backward : ∀ c ∈ σ.store.connections, ∀ connection, σ.store.cell c = some connection →
    naPacketMatch packet connection.refpacket = false →
      naPacketMatch (naPacketNewInverted packet) connection.refpacket = true →
        isLocalAddress host (sourceText host packet) = false
  forward : ∀ c ∈ σ.store.connections, ∀ connection, σ.store.cell c = some connection →
    naPacketMatch packet connection.refpacket = true →
      packet.sa_family = .inet ∧ connection.refpacket.sa_family = .inet ∨
        isLocalAddress host (sourceText host packet) = true

/-- The packet of an event is oriented. -/
def OrientedStep (σ : NAState) (e : Event) : Prop :=
  ∀ packet, e.packet = some packet → Oriented host σ packet

/-- What is filed by match, when the lists are known. -/
theorem filedByMatch_iff {σ : NAState} {packet : NAPacket} {connection : NAConnection}
    (hdir : packet.dir = .unknown)
    (hlists : connection.lists = fileIn (naPacketIsOutgoing host packet).1
      (naPacketIsOutgoing host packet).2 (σ.lists packet)) :
    FiledByMatch host σ packet connection ↔
      (naPacketMatch packet connection.refpacket = true →
        isLocalAddress host (sourceText host packet) = true) ∧
      (naPacketMatch packet connection.refpacket = false →
        naPacketMatch (naPacketNewInverted packet) connection.refpacket = true →
          isLocalAddress host (sourceText host packet) = false) := by
  have hfiled : ∀ out, FiledIn host σ packet connection out ↔
      isLocalAddress host (sourceText host packet) = out := by
    intro out
    rw [← directed_of_unknown host hdir]
    constructor
    · intro h
      exact h.branch
    · rintro rfl
      exact ⟨rfl, hlists⟩
  simp only [FiledByMatch, hfiled]

/-! ### Matching -/

theorem match_getHashstring (packet other : NAPacket) :
    naPacketMatch packet (naPacketGetHashstring host other).2 = naPacketMatch packet other := by
  obtain ⟨dir, hashstring, heq⟩ := getHashstring_eq host other
  rw [heq]
  rfl

theorem match_self (packet : NAPacket) : naPacketMatch packet packet = true := by
  simp [naPacketMatch]

/-- The reference packet of a new connection matches what the packet, or its inverse, matches. -/
theorem match_refpacket_init (packet other : NAPacket) :
    naPacketMatch other (keyed host (connectionInit host packet)).refpacket =
      if (naPacketIsOutgoing host packet).1 then naPacketMatch other packet
      else naPacketMatch other (naPacketNewInverted packet) := by
  rw [keyed, match_getHashstring, refpacket_init]
  split
  · rw [isOutgoing_eq]
    rfl
  · rfl

/-- The reference packet of a new connection is outgoing if one of the ends of the packet is
local. -/
theorem isOutgoing_refpacket_init {packet : NAPacket} (h : packet.dir = .unknown) :
    (naPacketIsOutgoing host (keyed host (connectionInit host packet)).refpacket).1 = true ↔
      isLocalAddress host (sourceText host packet) = true ∨
        isLocalAddress host (destText host packet) = true := by
  have hsource : ∀ other : NAPacket,
      sourceText host (naPacketGetHashstring host other).2 = sourceText host other := by
    intro other
    obtain ⟨dir, hashstring, heq⟩ := getHashstring_eq host other
    rw [heq]
    rfl
  rw [directed_refpacket_init host h, keyed, hsource, refpacket_init]
  by_cases hlocal : isLocalAddress host (sourceText host packet) = true
  · rw [if_pos (by rw [directed_of_unknown host h, hlocal]), sourceText_isOutgoing]
    simp [hlocal]
  · rw [if_neg (by rw [directed_of_unknown host h]; exact hlocal), sourceText_newInverted]
    simp [hlocal]

/-! ### One packet -/

/-- What the packet matches, it matches in the flow of the connection. -/
theorem flowKey_of_either {packet other : NAPacket} (hp : packet.Built)
    (h : naPacketMatch packet other = true ∨
      naPacketMatch (naPacketNewInverted packet) other = true) :
    flowKey packet = flowKey other := (match_or_match_inverted_iff hp).1 h

/-- A packet of a known flow keeps the reference packets outgoing, and is filed as it is matched
exactly when it is oriented. -/
theorem oriented_found {σ : NAState} (h : σ.Ok) (hout : AllOutgoing host σ)
    (hdirected : σ.AllRefpackets (Directed host))
    {packet : NAPacket} (hp : packet.Built) {c : Ptr} {conn : NAConnection}
    (hc : c ∈ σ.store.connections) (hconn : σ.store.cell c = some conn)
    (hkey : flowKey packet = flowKey conn.refpacket) :
    ((naPacketMatch packet conn.refpacket = true →
        isLocalAddress host (sourceText host packet) = true) ∧
      (naPacketMatch packet conn.refpacket = false →
        naPacketMatch (naPacketNewInverted packet) conn.refpacket = true →
          isLocalAddress host (sourceText host packet) = false)) ↔
      Oriented host σ packet := by
  -- no other connection matches the packet
  have honly : ∀ d ∈ σ.store.connections, ∀ connection, σ.store.cell d = some connection →
      naPacketMatch packet connection.refpacket = true ∨
        naPacketMatch (naPacketNewInverted packet) connection.refpacket = true →
      connection = conn := by
    intro d hd connection hconnection hmatch
    obtain rfl := h.store.eq_of_flowKey hd hc hconnection hconn
      ((flowKey_of_either hp hmatch).symm.trans hkey)
    exact Option.some_inj.1 (hconnection.symm.trans hconn)
  constructor
  · rintro ⟨hforward, hbackward⟩
    refine ⟨?_, ?_, ?_⟩
    · intro hnone
      obtain ⟨hm, hmi⟩ := hnone c hc conn hconn
      rcases (match_or_match_inverted_iff hp).2 hkey with hmatch | hmatch
      · rw [hm] at hmatch
        cases hmatch
      · rw [hmi] at hmatch
        cases hmatch
    · intro d hd connection hconnection hm hmi
      obtain rfl := honly d hd connection hconnection (.inr hmi)
      exact hbackward hm hmi
    · intro d hd connection hconnection hm
      obtain rfl := honly d hd connection hconnection (.inl hm)
      exact .inr (hforward hm)
  · rintro ⟨_, hbackward, hforward⟩
    refine ⟨?_, hbackward c hc conn hconn⟩
    intro hm
    rcases hforward c hc conn hconn hm with ⟨hinet, hrefinet⟩ | hlocal
    · -- the source of the packet is that of the reference packet, which is outgoing
      have hsource : sourceText host packet = sourceText host conn.refpacket := by
        simp only [sourceText, hinet, hrefinet, (naPacketMatch_iff.1 hm).1]
      rw [hsource, ← hdirected c hc conn hconn]
      exact hout c hc conn hconn
    · exact hlocal

/-- A packet of an unknown flow gives an outgoing reference packet, and is filed as it is matched,
exactly when it is oriented. -/
theorem oriented_opened {σ : NAState} {packet : NAPacket} (hp : packet.Built)
    (hdir : packet.dir = .unknown)
    (hmissing : ∀ c ∈ σ.store.connections, ∀ connection, σ.store.cell c = some connection →
      flowKey packet ≠ flowKey connection.refpacket) :
    ((naPacketIsOutgoing host (keyed host (connectionInit host packet)).refpacket).1 = true ∧
        (naPacketMatch packet (keyed host (connectionInit host packet)).refpacket = true →
          isLocalAddress host (sourceText host packet) = true) ∧
        (naPacketMatch packet (keyed host (connectionInit host packet)).refpacket = false →
          naPacketMatch (naPacketNewInverted packet)
              (keyed host (connectionInit host packet)).refpacket = true →
            isLocalAddress host (sourceText host packet) = false)) ↔
      Oriented host σ packet := by
  have hnone : ∀ c ∈ σ.store.connections, ∀ connection, σ.store.cell c = some connection →
      naPacketMatch packet connection.refpacket = false ∧
        naPacketMatch (naPacketNewInverted packet) connection.refpacket = false := by
    intro c hc connection hconnection
    have hne := hmissing c hc connection hconnection
    exact ⟨Bool.eq_false_iff.2 fun hm => hne (flowKey_of_either hp (.inl hm)),
      Bool.eq_false_iff.2 fun hm => hne (flowKey_of_either hp (.inr hm))⟩
  rw [isOutgoing_refpacket_init host hdir, match_refpacket_init, match_refpacket_init,
    directed_of_unknown host hdir, match_self]
  constructor
  · rintro ⟨hlocal, hforward, _⟩
    refine ⟨?_, ?_, ?_⟩
    · intro _
      rcases hlocal with hsource | hdest
      · exact .inl hsource
      · by_cases hsource : isLocalAddress host (sourceText host packet) = true
        · exact .inl hsource
        · rw [if_neg hsource] at hforward
          exact .inr ⟨hdest, Bool.eq_false_iff.2 fun hm => hsource (hforward hm)⟩
    · intro c hc connection hconnection _ hmi
      rw [(hnone c hc connection hconnection).2] at hmi
      cases hmi
    · intro c hc connection hconnection hm
      rw [(hnone c hc connection hconnection).1] at hm
      cases hm
  · rintro ⟨hopens, _, _⟩
    rcases hopens hnone with hsource | ⟨hdest, hmatch⟩
    · rw [if_pos hsource, match_self]
      exact ⟨.inl hsource, fun _ => hsource, fun hm => by cases hm⟩
    · by_cases hsource : isLocalAddress host (sourceText host packet) = true
      · rw [if_pos hsource, match_self]
        exact ⟨.inl hsource, fun _ => hsource, fun hm => by cases hm⟩
      · rw [if_neg hsource, hmatch]
        exact ⟨.inr hdest, fun hm => (by cases hm), fun _ _ => Bool.eq_false_iff.2 hsource⟩

/-! ### Runs -/

/-- A well-formed state whose reference packets remember no other direction than that of their
source. -/
structure NAState.Faithful (σ : NAState) : Prop where
  ok : σ.Ok
  directed : σ.AllRefpackets (Directed host)

theorem faithful_init : NAState.Faithful host NAState.init where
  ok := ok_init
  directed := fun _ hc => absurd hc List.not_mem_nil

/-- What holds of the reference packets before a packet holds after it, if it holds of the one the
packet gives a new connection. -/
theorem refpackets_push {p : NAPacket → Prop} {σ σ' : NAState} (h : σ.Ok)
    (hall : σ.AllRefpackets p) {packet : NAPacket} {lookup : ProcessLookup}
    (hstep : PushStep host σ packet lookup σ')
    (hnew : naConnectionFindFromPacket σ.store packet = some none →
      p (keyed host (connectionInit host packet)).refpacket) :
    σ'.AllRefpackets p := by
  intro c hc connection hconnection
  rcases hstep.origin host h c hc connection hconnection with
    ⟨hc, conn, hconn, href⟩ | ⟨hnone, _, rfl⟩
  · rw [href]
    exact hall c hc conn hconn
  · exact hnew hnone

theorem refpackets_refresh {p : NAPacket → Prop} {σ σ' : NAState} (h : σ.Ok)
    (hall : σ.AllRefpackets p) {t : Timeval} (hstep : step host σ (.refresh t) = some σ') :
    σ'.AllRefpackets p := by
  obtain ⟨⟨σ', proc_info⟩, hrefresh, rfl⟩ := Option.map_eq_some_iff.1 hstep
  intro c hc connection hconnection
  obtain ⟨hc, conn, hconn, href⟩ := (refresh_origin h hrefresh).2 c hc connection hconnection
  rw [href]
  exact hall c hc conn hconn

/-- **What holds of the reference packet of every new connection** is kept by each event. -/
theorem refpackets_step {p : NAPacket → Prop}
    (hnew : ∀ header address s_port d_port,
      p (keyed host (connectionInit host (packetOf header address s_port d_port))).refpacket)
    {σ σ' : NAState} (h : σ.Ok) (hall : σ.AllRefpackets p) {e : Event}
    (hstep : step host σ e = some σ') : σ'.Ok ∧ σ'.AllRefpackets p := by
  obtain ⟨σ₁, hσ₁, hok⟩ := step_ok host h e
  obtain rfl := Option.some_inj.1 (hσ₁.symm.trans hstep)
  refine ⟨hok, ?_⟩
  cases e with
  | push header address s_port d_port lookup =>
      have hp := pushed_packetOf header address s_port d_port
      exact refpackets_push host h hall (pushNAPacket_step host h hp.built hstep)
        fun _ => hnew header address s_port d_port
  | refresh t => exact refpackets_refresh host h hall hstep

theorem faithful_step {σ σ' : NAState} (h : σ.Faithful host) {e : Event}
    (hstep : step host σ e = some σ') : σ'.Faithful host := by
  have hnew := fun header address s_port d_port =>
    directed_refpacket_init host (pushed_packetOf header address s_port d_port).dir
  obtain ⟨hok, hdirected⟩ := refpackets_step host hnew h.ok h.directed hstep
  exact ⟨hok, hdirected⟩

/-- What is asked of the filing of an event that is known. -/
theorem filesByMatch_push {σ σ' : NAState} {e : Event} {packet : NAPacket}
    (hpacket : e.packet = some packet) (hstep : step host σ e = some σ')
    {connection : NAConnection} (hcell : σ'.store.cell (σ.receiver packet) = some connection) :
    FilesByMatch host σ e ↔ FiledByMatch host σ packet connection := by
  constructor
  · intro hfiles
    obtain ⟨connection', hcell', hfiled⟩ := hfiles packet σ' hpacket hstep
    obtain rfl := Option.some_inj.1 (hcell.symm.trans hcell')
    exact hfiled
  · intro hfiled packet' σ₁ hpacket' hσ₁
    obtain rfl := Option.some_inj.1 (hpacket.symm.trans hpacket')
    obtain rfl := Option.some_inj.1 (hstep.symm.trans hσ₁)
    exact ⟨connection, hcell, hfiled⟩

theorem orientedStep_push {σ : NAState} {e : Event} {packet : NAPacket}
    (hpacket : e.packet = some packet) : OrientedStep host σ e ↔ Oriented host σ packet := by
  constructor
  · intro h
    exact h packet hpacket
  · intro h packet' hpacket'
    obtain rfl := Option.some_inj.1 (hpacket.symm.trans hpacket')
    exact h

/-- **One packet** leaves the reference packets outgoing and is filed as it is matched exactly when
it is oriented. -/
theorem oriented_push {σ σ' : NAState} (h : σ.Faithful host) (hout : AllOutgoing host σ)
    {packet : NAPacket} (hp : packet.Built) (hdir : packet.dir = .unknown)
    {lookup : ProcessLookup} (hpush : PushStep host σ packet lookup σ')
    {connection : NAConnection} (hcell : σ'.store.cell (σ.receiver packet) = some connection)
    (hlists : connection.lists = fileIn (naPacketIsOutgoing host packet).1
      (naPacketIsOutgoing host packet).2 (σ.lists packet)) :
    AllOutgoing host σ' ∧ FiledByMatch host σ packet connection ↔ Oriented host σ packet := by
  rw [filedByMatch_iff host hdir hlists]
  have hrefs := refpackets_push host h.ok hout hpush
  cases hpush with
  | @found c conn hfind hc hconn hkey heq =>
      subst heq
      have hreceiver : σ.receiver packet = c := NAState.receiver_of_found hfind
      rw [hreceiver, cell_write_self] at hcell
      obtain rfl := Option.some_inj.1 hcell
      rw [refpacket_add, oriented_found host h.ok hout h.directed hp hc hconn hkey]
      refine and_iff_right (hrefs ?_)
      intro hnone
      rw [hfind] at hnone
      cases hnone
  | opened hfind hmissing heq =>
      subst heq
      have hreceiver : σ.receiver packet = σ.store.fresh :=
        NAState.receiver_of_opened hfind
      rw [hreceiver, cell_opened_self] at hcell
      obtain rfl := Option.some_inj.1 hcell
      rw [← oriented_opened host hp hdir hmissing]
      refine and_congr_left fun _ => ⟨fun hall => ?_, fun hnew => hrefs fun _ => hnew⟩
      exact hall σ.store.fresh (List.mem_append_right _ (List.mem_singleton_self _)) _
        (cell_opened_self host _ _)

/-- **One event** leaves the reference packets outgoing and files its packet as it is matched
exactly when the packet is oriented. -/
theorem oriented_step {σ σ' : NAState} (h : σ.Faithful host) (hout : AllOutgoing host σ) {e : Event}
    (hstep : step host σ e = some σ') :
    AllOutgoing host σ' ∧ FilesByMatch host σ e ↔ OrientedStep host σ e := by
  cases e with
  | refresh t =>
      constructor
      · rintro _ packet hpacket
        cases hpacket
      · intro _
        refine ⟨refpackets_refresh host h.ok hout hstep, ?_⟩
        rintro packet _ hpacket
        cases hpacket
  | push header address s_port d_port lookup =>
      have hp := pushed_packetOf header address s_port d_port
      have hpush := pushNAPacket_step host h.ok hp.built hstep
      obtain ⟨connection, hcell, hlists⟩ := push_receiver host hpush
      rw [filesByMatch_push host rfl hstep hcell, orientedStep_push host rfl]
      exact oriented_push host h hout hp.built hp.dir hpush hcell hlists

/-- **The reference packets are outgoing and the packets filed by them**, all along a run, exactly
when every packet of the run is oriented in the state it arrives in. -/
theorem orientation_iff (es : List Event) :
    Runs.Always (step host) (AllOutgoing host) NAState.init es ∧
        Runs.Guarded (step host) (FilesByMatch host) NAState.init es ↔
      Runs.Guarded (step host) (OrientedStep host) NAState.init es := by
  obtain ⟨σ, hrun, _⟩ := run_ok host es
  refine @Runs.always_and_guarded_iff NAState Event (step host) (NAState.Faithful host)
    (AllOutgoing host) (FilesByMatch host) (OrientedStep host) (fun _ => True) ?_ ?_ _ σ
    (faithful_init host) ?_ es (fun _ _ => trivial) hrun
  · intro s e s' h _ hstep
    exact faithful_step host h hstep
  · intro s e s' h hout _ hstep
    exact oriented_step host h hout hstep
  · intro c hc
    exact absurd hc List.not_mem_nil

/-- The host `192.168.1.5`. -/
def oneAddress : Host := dottedHost [⟨0x0501A8C0⟩]

/-- A search of `192.168.1.7:1900`, sent to the group `239.255.255.250:1900`. -/
def multicast : Event :=
  .push ⟨⟨100⟩, 60, 60⟩ (.ip ⟨0x0701A8C0⟩ ⟨0xFAFFFFEF⟩) 1900 1900 ⟨none, none⟩

/-- A request of the host to itself, from the port 5000 to the port 80. -/
def request : Event :=
  .push ⟨⟨100⟩, 60, 60⟩ (.ip ⟨0x0501A8C0⟩ ⟨0x0501A8C0⟩) 5000 80 ⟨none, none⟩

/-- The reply. -/
def reply : Event :=
  .push ⟨⟨100⟩, 60, 60⟩ (.ip ⟨0x0501A8C0⟩ ⟨0x0501A8C0⟩) 80 5000 ⟨none, none⟩

/-- **The orientation is lost** by a packet neither end of which is local, and the filing by one
both ends of which are. -/
theorem orientation_lost :
    ¬ Runs.Always (step oneAddress) (AllOutgoing oneAddress) NAState.init [multicast] ∧
      ¬ Runs.Guarded (step oneAddress) (FilesByMatch oneAddress) NAState.init [request, reply] := by
  constructor
  · intro h
    have hall := h [multicast] [] _ rfl rfl
    have hout := hall 0 (by decide) _ rfl
    exact absurd hout (by decide)
  · intro h
    obtain ⟨connection, hcell, _, hinverted⟩ := h [request] reply [] _ rfl rfl _ _ rfl rfl
    cases hcell
    have hfiled := hinverted (by decide) (by decide)
    exact absurd hfiled.branch (by decide)

end NetworkAnalyzer
