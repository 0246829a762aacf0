/-
From the wire to the reports.

The pieces are put together here: the devices the analyzer listens on, the frames the capture
library hands out, cut off at the snapshot length, the decoder, the connections and the processes
behind it, and the reports.  A tick of the main loop on raw frames is a run of the analyzer on what
they decode to; so what was proved of such runs says what is reported of the traffic on the wires.

* `pcapDispatchCb_local`, `decode_congr`, `sixty_bytes_iff` — **the decoder sees sixty bytes**, so
  that the snapshot length does not matter;
* `WirePacket`, `Sighting` — a packet on a link, and the frame it is captured in;
* `decode_wire` — what the decoder makes of it;
* `Analyzer.mainLoopCb` — the main loop on raw frames, `mainLoop_run` — **the run it is**;
* `traffic_reported` — **the reports add up to the traffic on the wires**.
-/

import GnomeUsage.Accounts
import GnomeUsage.Caching
import GnomeUsage.CaptureBounds
import GnomeUsage.Devices
import GnomeUsage.Encapsulation
import GnomeUsage.Schedules

set_option relaxedAutoImplicit false
set_option autoImplicit false

namespace NetworkAnalyzer

open ByteReader

/-! ### What the decoder can see -/

theorem local_parseTransport (header : PcapPkthdr) (payload : ℕ) (address : IPAddress)
    (protocol : BitVec 8) : Local (parseTransport header payload address protocol) := by
  have hports : Local (parsePorts header payload address) :=
    local_bind (local_load16 _) fun _ => local_bind (local_load16 _) fun _ => local_pure _
  exact local_ite hports (local_ite hports (local_pure _))

theorem local_parseIp (header : PcapPkthdr) (packet : ℕ) : Local (parseIp header packet) := by
  have haddr : ∀ i, Local (loadInAddr i) := fun i =>
    local_bind (local_load32 i) fun _ => local_pure _
  exact local_bind (haddr _) fun _ => local_bind (haddr _) fun _ =>
    local_bind (local_byte _) fun _ => local_parseTransport _ _ _ _

theorem local_parseIp6 (header : PcapPkthdr) (packet : ℕ) : Local (parseIp6 header packet) := by
  have haddr : ∀ i, Local (loadIn6Addr i) := fun i =>
    local_bind (local_load32 _) fun _ => local_bind (local_load32 _) fun _ =>
      local_bind (local_load32 _) fun _ => local_bind (local_load32 _) fun _ => local_pure _
  exact local_bind (haddr _) fun _ => local_bind (haddr _) fun _ =>
    local_bind (local_byte _) fun _ => local_parseTransport _ _ _ _

/-- **The decoder depends on nothing but the bytes it reads.** -/
theorem pcapDispatchCb_local (linktype : ℤ) (header : PcapPkthdr) (packet : ℕ) :
    Local (pcapDispatchCb linktype header packet) := by
  have hethernet : Local (parseEthernet header packet) :=
    local_bind (local_load16 _) fun _ => local_ite (local_parseIp _ _)
      (local_ite (local_parseIp6 _ _) (local_pure _))
  have hppp : Local (parsePpp header packet) := by
    refine local_bind ?_ fun _ => local_ite (local_parseIp _ _)
      (local_ite (local_parseIp6 _ _) (local_pure _))
    exact local_bind (local_byte _) fun _ => local_bind (local_byte _) fun _ => local_pure _
  have hcooked : Local (parseLinuxCooked header packet) :=
    local_bind (local_load16 _) fun _ => local_ite (local_parseIp _ _)
      (local_ite (local_parseIp6 _ _) (local_pure _))
  exact local_ite hethernet (local_ite hppp (local_ite hcooked
    (local_ite (local_parseIp _ _) (local_ite (local_parseIp _ _) (local_pure _)))))

/-- No link header is longer than sixteen bytes. -/
theorem linkPayload_le {linktype : ℤ} {mem : ℕ → BitVec 8} {x : SaFamily × ℕ}
    (h : linkPayload linktype mem = some x) : x.2 ≤ 16 := by
  have hselect : ∀ {protocol ip ip6 payload : ℕ}, payload ≤ 16 →
      selectFamily protocol ip ip6 payload = some x → x.2 ≤ 16 := by
    intro protocol ip ip6 payload hle hx
    obtain ⟨family, r⟩ := x
    rwa [selectFamily_some hx]
  unfold linkPayload at h
  split at h
  · exact hselect (by omega) h
  · split at h
    · exact hselect (by omega) h
    · split at h
      · exact hselect (by omega) h
      · split at h
        · cases h
          exact Nat.zero_le _
        · split at h
          · cases h
            exact Nat.zero_le _
          · cases h

/-- **Sixty bytes contain all the decoder reads**, of any frame. -/
theorem complete_sixty (linktype : ℤ) (mem : ℕ → BitVec 8) : Complete linktype mem 60 := by
  refine ⟨?_, ?_⟩
  · unfold linkHeaderSize sizeofEther PPP_HDRLEN sizeofSll
    split_ifs <;> omega
  · intro x hx
    have hle := linkPayload_le hx
    have hsize : headerSize x.1 ≤ 40 := by
      cases x.1 with
      | inet => decide
      | inet6 => decide
    exact ⟨by omega, fun _ => by omega⟩

/-- Buffers that agree on sixty bytes decode alike. -/
theorem decode_congr (linktype : ℤ) (header : PcapPkthdr) {mem mem' : ℕ → BitVec 8}
    (h : ∀ i < 60, mem i = mem' i) :
    value (pcapDispatchCb linktype header 0) mem = value (pcapDispatchCb linktype header 0) mem' :=
  (pcapDispatchCb_local linktype header 0).value_congr
    ((within_pcapDispatchCb linktype header mem 60).2 (complete_sixty linktype mem)) h

/-- An IPv6 packet with TCP behind a Linux cooked header, whose ports end with the byte 59. -/
def lastByte (b : BitVec 8) (i : ℕ) : BitVec 8 :=
  if i = 14 then 0x86 else if i = 15 then 0xdd else if i = 22 then 6 else if i = 59 then b else 0

/-- **Sixty bytes of a frame are what the decoder needs**: frames that agree on their first `n`
bytes decode alike, on every kind of link, exactly when `n` is at least sixty. -/
theorem sixty_bytes_iff (n : ℕ) :
    (∀ (linktype : ℤ) (header : PcapPkthdr) (mem mem' : ℕ → BitVec 8),
      (∀ i < n, mem i = mem' i) →
        value (pcapDispatchCb linktype header 0) mem =
          value (pcapDispatchCb linktype header 0) mem') ↔ 60 ≤ n := by
  constructor
  · intro h
    by_contra hn
    have hagree : ∀ i < n, lastByte 0 i = lastByte 1 i := by
      intro i hi
      have hne : i ≠ 59 := by omega
      simp only [lastByte, hne, if_false]
    have hvalue := h DLT_LINUX_SLL ⟨⟨100⟩, 60, 60⟩ (lastByte 0) (lastByte 1) hagree
    have hport := congrArg (Option.map Capture.d_port) hvalue
    exact absurd hport (by decide)
  · intro hn linktype header mem mem' hagree
    exact (pcapDispatchCb_local linktype header 0).value_congr
      ((within_pcapDispatchCb linktype header mem 60).2 (complete_sixty linktype mem))
      fun i hi => hagree i (by omega)

/-! ### Packets on a link -/

/-- A packet on a link: one the decoder is there for, one of another transport protocol, or one that
is not an IP packet. -/
inductive WirePacket where
  | transport (link : LinkHeader) (ip : IpHeader) (h : IsTransport ip.protocol.toNat)
      (s_port d_port : BitVec 16) (rest : List (BitVec 8))
  | other (link : LinkHeader) (ip : IpHeader) (h : ¬ IsTransport ip.protocol.toNat)
      (payload : List (BitVec 8))
  | foreign (link : LinkHeader) (protocol : BitVec 16)
      (h : ∀ family, protocol ≠ link.protocolOf family) (payload : List (BitVec 8))

def WirePacket.link : WirePacket → LinkHeader
  | .transport link .. | .other link .. | .foreign link .. => link

/-- The bytes on the wire. -/
def WirePacket.bytes : WirePacket → List (BitVec 8)
  | .transport link ip _ s_port d_port rest => link.frame (link.protocolOf ip.family)
      (ip.bytes ++ (netBytes16 s_port ++ (netBytes16 d_port ++ rest)))
  | .other link ip _ payload => link.frame (link.protocolOf ip.family) (ip.bytes ++ payload)
  | .foreign link protocol _ payload => link.frame protocol payload

/-- What is there to be captured. -/
def WirePacket.capture (header : PcapPkthdr) : WirePacket → Option Capture
  | .transport _ ip _ s_port d_port _ => some ⟨header, ip.address, s_port, d_port⟩
  | .other .. | .foreign .. => none

/-- The source address of an IP header. -/
def IPAddress.source : IPAddress → Address
  | .ip src _ => .ip src
  | .ip6 src _ => .ip6 src

/-- The source address of what is there to be captured. -/
def WirePacket.source : WirePacket → Option Address
  | .transport _ ip _ _ _ _ => some ip.address.source
  | .other .. | .foreign .. => none

/-- A frame as it is handed to the callback: its header, and the buffer it stands in. -/
structure Frame where
  header : PcapPkthdr
  packet : ℕ → BitVec 8

/-- **The frame holds the bytes of the wire**, as far as they are captured. -/
structure Frame.Captures (frame : Frame) (bytes : List (BitVec 8)) : Prop where
  len : frame.header.len.toNat = bytes.length
  caplen : frame.header.caplen = min PCAP_SNAPLEN bytes.length
  stored : ∀ i < frame.header.caplen, ∀ h : i < bytes.length, frame.packet i = bytes[i]

/-- What the decoder makes of a whole frame in memory. -/
theorem decode_bytes (wire : WirePacket) (header : PcapPkthdr) (beyond : ℕ → BitVec 8) :
    value (pcapDispatchCb wire.link.linktype header 0) (memory wire.bytes beyond) =
      wire.capture header := by
  cases wire with
  | transport link ip htransport s_port d_port rest =>
      obtain ⟨hvalue, hports⟩ := decode_ip (stored_memory (link.frame (link.protocolOf ip.family)
        (ip.bytes ++ (netBytes16 s_port ++ (netBytes16 d_port ++ rest)))) beyond) header
      obtain ⟨hs, hports⟩ := stored_append.1 hports
      obtain ⟨hd, _⟩ := stored_append.1 hports
      have hd := be16_of_stored hd
      rw [if_pos htransport, be16_of_stored hs] at hvalue
      exact hvalue.trans
        (congrArg (fun d => some (⟨header, ip.address, s_port, d⟩ : Capture)) hd)
  | other link ip hother payload =>
      have hvalue := (decode_ip (stored_memory (link.frame (link.protocolOf ip.family)
        (ip.bytes ++ payload)) beyond) header).1
      rw [if_neg hother] at hvalue
      exact hvalue
  | foreign link protocol hne payload =>
      obtain ⟨hprotocol, _⟩ := stored_frame (stored_memory (link.frame protocol payload) beyond)
      change value (pcapDispatchCb link.linktype header 0) _ = none
      rw [pcapDispatchCb_value]
      change (linkPayload link.linktype (memory (link.frame protocol payload) beyond)).bind _ = none
      rw [linkPayload_frame hprotocol, if_neg (hne .inet), if_neg (hne .inet6)]
      rfl

/-- **What the decoder makes of a packet**, captured up to the snapshot length. -/
theorem decode_wire {wire : WirePacket} {frame : Frame} (h : frame.Captures wire.bytes) :
    value (pcapDispatchCb wire.link.linktype frame.header 0) frame.packet =
      wire.capture frame.header := by
  rw [← decode_bytes wire frame.header frame.packet]
  refine decode_congr _ _ ?_
  intro i hi
  by_cases hlen : i < wire.bytes.length
  · have hcap : i < frame.header.caplen := by
      rw [h.caplen, PCAP_SNAPLEN]
      omega
    rw [h.stored i hcap hlen]
    simp [memory, hlen]
  · simp [memory, hlen]

/-! ### The main loop on raw frames -/

/-- A frame that waits on a handle, and what is in `/proc` when it is handled. -/
structure Pending where
  proc : KernelSnapshot
  frame : Frame

/-- What happens at one tick: the pending frames of every handle, the refresh, and what is in
`/proc` at the time. -/
structure FrameTick (P : Type) where
  batch : NAPCapHandle P → List Pending
  proc : KernelSnapshot
  t : Timeval

variable (host : Host) {P : Type}

/-- `pcap_dispatch_cb`, with the call of `push_packet` it leads to. -/
def Analyzer.pcapDispatchCb (linktype : ℤ) (A : Analyzer) (pending : Pending) : Option Analyzer :=
  match value (NetworkAnalyzer.pcapDispatchCb linktype pending.frame.header 0)
      pending.frame.packet with
  | some a => A.step host pending.proc.toProc (.push a)
  | none => some A

/-- `na_pcap_dispatch` on a handle with the given pending frames. -/
def Analyzer.naPcapDispatch (linktype : ℤ) : Analyzer → List Pending → Option Analyzer
  | A, [] => some A
  | A, pending :: frames => do
      let A ← A.pcapDispatchCb host linktype pending
      A.naPcapDispatch linktype frames

/-- The loop of `main_loop_cb` over `iface_handles`. -/
def Analyzer.drain (batch : NAPCapHandle P → List Pending) :
    List (NAPCapHandle P) → Analyzer → Option Analyzer
  | [], A => some A
  | handle :: iter, A => do
      let A ← A.naPcapDispatch host handle.linktype (batch handle)
      A.drain batch iter

/-- `do_refresh`: the analyzer, and the processes of the signal `UsageChanged` if it is emitted. -/
def Analyzer.doRefresh (A : Analyzer) (proc : KernelSnapshot) (t : Timeval) :
    Option (Analyzer × Option (List NAProcInfo)) := do
  let conninode ← naConninodeTableRefresh host proc.toProc A.tables.conninode
  let (state, proc_info) ← naProcessInfoGetAll A.state t
  some (⟨state, { A.tables with conninode }⟩, if proc_info = [] then none else some proc_info)

/-- `main_loop_cb`. -/
def Analyzer.mainLoopCb (iface_handles : List (NAPCapHandle P)) (A : Analyzer)
    (tick : FrameTick P) : Option (Analyzer × Option (List NAProcInfo)) := do
  let A ← Analyzer.drain host tick.batch iface_handles A
  A.doRefresh host tick.proc tick.t

/-- What a pending frame makes the analyzer do. -/
def Pending.act (linktype : ℤ) (pending : Pending) : Option (KernelSnapshot × Act) :=
  (value (NetworkAnalyzer.pcapDispatchCb linktype pending.frame.header 0)
    pending.frame.packet).map fun a => (pending.proc, .push a)

/-- What the pending frames of a tick make the analyzer do. -/
def FrameTick.pushes (iface_handles : List (NAPCapHandle P)) (tick : FrameTick P) :
    List (KernelSnapshot × Act) :=
  iface_handles.flatMap fun handle => (tick.batch handle).filterMap (Pending.act handle.linktype)

/-- What a tick makes the analyzer do. -/
def FrameTick.acts (iface_handles : List (NAPCapHandle P)) (tick : FrameTick P) :
    List (KernelSnapshot × Act) :=
  tick.pushes iface_handles ++ [(tick.proc, .refresh tick.t)]

theorem naPcapDispatch_run (linktype : ℤ) (A : Analyzer) (frames : List Pending) :
    A.naPcapDispatch host linktype frames =
      Runs.run (Analyzer.stepAt host) A (frames.filterMap (Pending.act linktype)) := by
  induction frames generalizing A with
  | nil => rfl
  | cons pending frames ih =>
      unfold Analyzer.naPcapDispatch Analyzer.pcapDispatchCb
      cases hvalue : value (NetworkAnalyzer.pcapDispatchCb linktype pending.frame.header 0)
          pending.frame.packet with
      | some a =>
          have hact : pending.act linktype = some (pending.proc, .push a) := by
            rw [Pending.act, hvalue, Option.map_some]
          rw [List.filterMap_cons_some hact, Runs.run_cons]
          simp only [ih]
          rfl
      | none =>
          have hact : pending.act linktype = none := by
            rw [Pending.act, hvalue, Option.map_none]
          rw [List.filterMap_cons_none hact]
          exact ih A

theorem drain_run (batch : NAPCapHandle P → List Pending) (handles : List (NAPCapHandle P))
    (A : Analyzer) :
    Analyzer.drain host batch handles A =
      Runs.run (Analyzer.stepAt host) A
        (handles.flatMap fun handle => (batch handle).filterMap (Pending.act handle.linktype)) := by
  induction handles generalizing A with
  | nil => rfl
  | cons handle handles ih =>
      rw [Analyzer.drain, naPcapDispatch_run, List.flatMap_cons, Runs.run_append]
      congr 1
      funext A
      exact ih A

/-- **The run a tick is.** -/
theorem mainLoop_run (iface_handles : List (NAPCapHandle P)) (A : Analyzer) (tick : FrameTick P) :
    (A.mainLoopCb host iface_handles tick).map Prod.fst =
      Runs.run (Analyzer.stepAt host) A (tick.acts iface_handles) := by
  rw [FrameTick.acts, Runs.run_concat, Analyzer.mainLoopCb, drain_run, FrameTick.pushes]
  cases Runs.run (Analyzer.stepAt host) A _ with
  | none => rfl
  | some A₁ =>
      simp only [Option.bind_eq_bind, Option.bind_some, Analyzer.doRefresh, Analyzer.stepAt,
        Analyzer.step, Option.map_bind]
      congr 1
      funext conninode
      cases naProcessInfoGetAll A₁.state tick.t with
      | none => rfl
      | some r => rfl

/-- A run of ticks. -/
def Analyzer.ticks (iface_handles : List (NAPCapHandle P)) (A : Analyzer)
    (ticks : List (FrameTick P)) : Option Analyzer :=
  Runs.run (fun A tick => (A.mainLoopCb host iface_handles tick).map Prod.fst) A ticks

theorem ticks_run (iface_handles : List (NAPCapHandle P)) (A : Analyzer)
    (ticks : List (FrameTick P)) :
    A.ticks host iface_handles ticks =
      Runs.run (Analyzer.stepAt host) A (ticks.flatMap (FrameTick.acts iface_handles)) :=
  Runs.run_flatMap (fun A tick => mainLoop_run host iface_handles A tick) A ticks

/-! ### The events of a run -/

/-- The events of a run of the analyzer, whose look-ups are left to it. -/
def eventsOf (xs : List (KernelSnapshot × Act)) : List Event := xs.map fun x => x.2.event

theorem eventsOf_append (xs ys : List (KernelSnapshot × Act)) :
    eventsOf (xs ++ ys) = eventsOf xs ++ eventsOf ys := List.map_append

/-- **A run of the analyzer is a run of its state**, with the look-ups it has made. -/
theorem stepAt_events {A A' : Analyzer} {xs : List (KernelSnapshot × Act)}
    (h : Runs.run (Analyzer.stepAt host) A xs = some A') :
    ∃ es : List Event, es.map Event.act = (eventsOf xs).map Event.act ∧
      Runs.run (step host) A.state es = some A'.state := by
  induction xs generalizing A with
  | nil =>
      cases h
      exact ⟨[], rfl, rfl⟩
  | cons x xs ih =>
      obtain ⟨m, hm, hrun⟩ := Option.bind_eq_some_iff.1 h
      obtain ⟨es, hacts, hes⟩ := ih hrun
      obtain ⟨e, he, hstep, _⟩ := Analyzer.step_event host hm
      refine ⟨e :: es, ?_, (Runs.run_cons_of (step host) hstep es).trans hes⟩
      have hevents : eventsOf (x :: xs) = x.2.event :: eventsOf xs := rfl
      rw [hevents, List.map_cons, List.map_cons, hacts, he, Act.act_event]

theorem bytesOf_flatMap {δ : Type*} (mine : NAPacket → Bool) (c : ℤ)
    (f : δ → List (KernelSnapshot × Act)) (l : List δ) :
    bytesOf mine c (eventsOf (l.flatMap f)) =
      (l.map fun d => bytesOf mine c (eventsOf (f d))).sum := by
  induction l with
  | nil => rfl
  | cons d l ih =>
      rw [List.flatMap_cons, eventsOf_append, bytesOf_append, ih, List.map_cons, List.sum_cons]

/-! ### The traffic on the wires -/

/-- A packet on a link of the given type, and the frame it is captured in. -/
structure Sighting (linktype : ℤ) where
  wire : WirePacket
  frame : Frame
  /-- What is in `/proc` when the frame is handled. -/
  proc : KernelSnapshot
  link : wire.link.linktype = linktype
  captures : frame.Captures wire.bytes

/-- What is seen on the links of all handles up to a tick, and the tick. -/
structure WireTick (P : Type) where
  batch : (handle : NAPCapHandle P) → List (Sighting handle.linktype)
  proc : KernelSnapshot
  t : Timeval

/-- The tick as the main loop has it. -/
def WireTick.frames (tick : WireTick P) : FrameTick P where
  batch handle := (tick.batch handle).map fun s => ⟨s.proc, s.frame⟩
  proc := tick.proc
  t := tick.t

/-- The bytes of a packet on the wire, if it is one that counts: its source is one of `mine`, or is
not, and it is seen after second `c`. -/
def Sighting.amount {linktype : ℤ} (mine : List Address) (out : Bool) (c : ℤ)
    (s : Sighting linktype) : ℕ :=
  match s.wire.source with
  | some source =>
      if decide (source ∈ mine) = out ∧ c < s.frame.header.ts.tv_sec then s.wire.bytes.length else 0
  | none => 0

/-- **The traffic on the wires**: the bytes of all packets that count, on all links and in all
ticks. -/
def wireBytes (mine : List Address) (iface_handles : List (NAPCapHandle P)) (out : Bool) (c : ℤ)
    (ticks : List (WireTick P)) : ℕ :=
  (ticks.map fun tick => (iface_handles.map fun handle =>
    ((tick.batch handle).map (Sighting.amount mine out c)).sum).sum).sum

/-- The source of a packet is printed as the source address it was captured with. -/
theorem sourceText_packetOf (header : PcapPkthdr) (address : IPAddress)
    (s_port d_port : BitVec 16) :
    sourceText host (packetOf header address s_port d_port) = host.text address.source := by
  cases address <;> rfl

section Amounts

variable {host} {mine : List Address}
  (hlocal : ∀ addr, isLocalAddress host (host.text addr) = true ↔ addr ∈ mine)

include hlocal

/-- One packet on the wire. -/
theorem bytesOf_sighting {linktype : ℤ} (out : Bool) (c : ℤ) (s : Sighting linktype) :
    bytesOf (fun p => isLocalAddress host (sourceText host p) == out) c
        (eventsOf ((Pending.act linktype ⟨s.proc, s.frame⟩).toList)) =
      s.amount mine out c := by
  have hdecode : value (pcapDispatchCb linktype s.frame.header 0) s.frame.packet =
      s.wire.capture s.frame.header := by
    have hwire := decode_wire s.captures
    rwa [s.link] at hwire
  rw [Pending.act, hdecode, Sighting.amount]
  cases hwire : s.wire with
  | transport link ip htransport s_port d_port rest =>
      have hlen : s.frame.header.len.toNat =
          (WirePacket.transport link ip htransport s_port d_port rest).bytes.length :=
        hwire ▸ s.captures.len
      have hmine : isLocalAddress host (host.text ip.address.source) =
          decide (ip.address.source ∈ mine) := by
        rw [Bool.eq_iff_iff, hlocal, decide_eq_true_iff]
      have hevent : eventsOf (Option.map (fun a => (s.proc, Act.push a))
          ((WirePacket.transport link ip htransport s_port d_port rest).capture
            s.frame.header)).toList =
          [.push s.frame.header ip.address s_port d_port ⟨none, none⟩] := rfl
      rw [hevent, bytesOf_push, sourceText_packetOf, hmine, hlen]
      simp only [WirePacket.source, beq_iff_eq]
  | other link ip hother payload => rfl
  | foreign link protocol hne payload => rfl

/-- **The bytes the pending frames of a tick are counted with** are those of its traffic. -/
theorem bytesOf_pushes (iface_handles : List (NAPCapHandle P)) (out : Bool) (c : ℤ)
    (tick : WireTick P) :
    bytesOf (fun p => isLocalAddress host (sourceText host p) == out) c
        (eventsOf (tick.frames.pushes iface_handles)) =
      (iface_handles.map fun handle =>
        ((tick.batch handle).map (Sighting.amount mine out c)).sum).sum := by
  rw [FrameTick.pushes, bytesOf_flatMap]
  congr 1
  refine List.map_congr_left ?_
  intro handle _
  have hbatch : tick.frames.batch handle = (tick.batch handle).map fun s => ⟨s.proc, s.frame⟩ := rfl
  rw [hbatch, List.filterMap_map]
  generalize tick.batch handle = l
  induction l with
  | nil => rfl
  | cons s l ih =>
      have hcons : (s :: l).filterMap
          (Pending.act handle.linktype ∘ fun s : Sighting handle.linktype => ⟨s.proc, s.frame⟩) =
          (Pending.act handle.linktype ⟨s.proc, s.frame⟩).toList ++
            l.filterMap (Pending.act handle.linktype ∘
              fun s : Sighting handle.linktype => ⟨s.proc, s.frame⟩) := by
        rw [List.filterMap_cons, Function.comp_apply]
        cases Pending.act handle.linktype ⟨s.proc, s.frame⟩ <;> rfl
      rw [hcons, eventsOf_append, bytesOf_append, ih, bytesOf_sighting hlocal, List.map_cons,
        List.sum_cons]

/-- **The bytes a run of ticks is counted with** are those of the traffic on the wires. -/
theorem bytesOf_ticks (iface_handles : List (NAPCapHandle P)) (out : Bool) (c : ℤ)
    (ticks : List (WireTick P)) :
    bytesOf (fun p => isLocalAddress host (sourceText host p) == out) c
        (eventsOf ((ticks.map WireTick.frames).flatMap (FrameTick.acts iface_handles))) =
      wireBytes mine iface_handles out c ticks := by
  rw [bytesOf_flatMap, List.map_map, wireBytes]
  congr 1
  refine List.map_congr_left ?_
  intro tick _
  rw [Function.comp_apply, FrameTick.acts, eventsOf_append, bytesOf_append,
    bytesOf_pushes hlocal]
  exact Nat.add_zero _

/-- The bytes that the analyzer is given up to the pending frames of a tick. -/
theorem bytesOf_upto (iface_handles : List (NAPCapHandle P)) (out : Bool) (c : ℤ)
    (pre : List (WireTick P)) (tick : WireTick P) :
    bytesOf (fun p => isLocalAddress host (sourceText host p) == out) c
        (eventsOf ((pre.map WireTick.frames).flatMap (FrameTick.acts iface_handles) ++
          tick.frames.pushes iface_handles)) =
      wireBytes mine iface_handles out c (pre ++ [tick]) := by
  rw [eventsOf_append, bytesOf_append, bytesOf_ticks hlocal, bytesOf_pushes hlocal, wireBytes,
    wireBytes, List.map_append, List.sum_append, List.map_singleton, List.sum_singleton]

end Amounts

/-! ### From the wires to the reports -/

/-- **The books at a tick of a scheduled run**, when its pending frames are handled. -/
theorem tick_items {iface_handles : List (NAPCapHandle P)} {pre post : List (FrameTick P)}
    {tick : FrameTick P}
    (hs : Schedule (eventsOf ((pre ++ tick :: post).flatMap (FrameTick.acts iface_handles)))) :
    ∃ A A₁ es, Analyzer.init.ticks host iface_handles pre = some A ∧
      Analyzer.drain host tick.batch iface_handles A = some A₁ ∧
      packets es = packets (eventsOf
        (pre.flatMap (FrameTick.acts iface_handles) ++ tick.pushes iface_handles)) ∧
      Itemised host es tick.t.tv_sec A₁.state := by
  obtain ⟨A, hA, _⟩ := Analyzer.history_ok host (pre.flatMap (FrameTick.acts iface_handles))
  obtain ⟨A₁, hA₁, _⟩ := Analyzer.history_ok host
    (pre.flatMap (FrameTick.acts iface_handles) ++ tick.pushes iface_handles)
  have hdrain : Runs.run (Analyzer.stepAt host) A (tick.pushes iface_handles) = some A₁ := by
    rwa [Runs.run_append, hA, Option.bind_some] at hA₁
  -- the run up to the refresh, with the look-ups it has made
  obtain ⟨es, hacts, hes⟩ := stepAt_events host hA₁
  have hsplit : eventsOf ((pre ++ tick :: post).flatMap (FrameTick.acts iface_handles)) =
      eventsOf (pre.flatMap (FrameTick.acts iface_handles) ++ tick.pushes iface_handles) ++
        .refresh tick.t :: eventsOf (post.flatMap (FrameTick.acts iface_handles)) := by
    rw [List.flatMap_append, List.flatMap_cons, FrameTick.acts]
    simp only [eventsOf, List.map_append, List.append_assoc, List.map_cons, List.cons_append,
      List.nil_append]
    rfl
  have hs' : Schedule (es ++ .refresh tick.t ::
      eventsOf (post.flatMap (FrameTick.acts iface_handles))) := by
    refine Schedule.congr ?_ (hsplit ▸ hs)
    rw [List.map_append, List.map_append, hacts]
  obtain ⟨σ, hσ, hitems⟩ := @Schedule.run_init NAState (step host) (fun _ => True)
    (Itemised host)
    (fun _ _ _ _ _ _ _ _ h htime _ => itemised_push host h htime)
    (fun _ _ _ h _ => by
      obtain ⟨σ', proc_info, hrefresh, hnext⟩ := itemised_refresh host h
      exact ⟨σ', by rw [step, hrefresh, Option.map_some], hnext⟩)
    es _ tick.t NAState.init hs' (fun _ _ => trivial) (itemised_init host)
  obtain rfl : σ = A₁.state := Option.some_inj.1 (hσ.symm.trans hes)
  refine ⟨A, A₁, es, ?_, ?_, packets_congr hacts, hitems⟩
  · rw [ticks_run]
    exact hA
  · rw [drain_run]
    exact hdrain

/-- The signal of a tick, by the entries of its report. -/
theorem mainLoopCb_of_drain {iface_handles : List (NAPCapHandle P)} {A A₁ : Analyzer}
    {tick : FrameTick P} (hdrain : Analyzer.drain host tick.batch iface_handles A = some A₁)
    {σ' : NAState} {proc_info : List NAProcInfo}
    (hrefresh : naProcessInfoGetAll A₁.state tick.t = some (σ', proc_info)) :
    ∃ A', A.mainLoopCb host iface_handles tick =
      some (A', if proc_info = [] then none else some proc_info) := by
  refine ⟨⟨σ', { A₁.tables with
    conninode := refreshed host tick.proc A₁.tables.conninode }⟩, ?_⟩
  simp only [Analyzer.mainLoopCb, hdrain, Analyzer.doRefresh, naConninodeTableRefresh_eq, hrefresh,
    Option.bind_eq_bind, Option.bind_some]
  rfl

theorem getD_signal (proc_info : List NAProcInfo) :
    (if proc_info = [] then none else some proc_info).getD [] = proc_info := by
  split
  · next hnil => rw [hnil, Option.getD_none]
  · rfl

/-- **A tick of a scheduled run** reports, up to multiples of `2 ^ 32`, what the analyzer was given
in the period. -/
theorem tick_report {iface_handles : List (NAPCapHandle P)} {pre post : List (FrameTick P)}
    {tick : FrameTick P}
    (hs : Schedule (eventsOf ((pre ++ tick :: post).flatMap (FrameTick.acts iface_handles)))) :
    ∃ A A' report, Analyzer.init.ticks host iface_handles pre = some A ∧
      A.mainLoopCb host iface_handles tick = some (A', report) ∧
      ∀ out, (((report.getD []).map (NAProcInfo.bytes out)).map BitVec.toNat).sum ≡
        bytesOf (fun p => isLocalAddress host (sourceText host p) == out) (tick.t.tv_sec - PERIOD)
          (eventsOf (pre.flatMap (FrameTick.acts iface_handles) ++ tick.pushes iface_handles))
        [MOD 2 ^ 32] := by
  obtain ⟨A, A₁, es, hrun, hdrain, hpackets, hitems⟩ := tick_items host hs
  obtain ⟨σ', proc_info, hrefresh, hsent, hrecv, _⟩ := books_refresh host hitems.books
  obtain ⟨A', htick⟩ := mainLoopCb_of_drain host hdrain hrefresh
  refine ⟨A, A', _, hrun, htick, ?_⟩
  intro out
  have hbytes : (proc_info.map (NAProcInfo.bytes out)).sum =
      BitVec.ofNat 32 (bytesAfter host out (tick.t.tv_sec - PERIOD) es) := by
    cases out with
    | true => exact hsent
    | false => exact hrecv
  have hsum := sum_toNat_modEq (proc_info.map (NAProcInfo.bytes out))
  rw [hbytes, BitVec.toNat_ofNat] at hsum
  have hcount : bytesAfter host out (tick.t.tv_sec - PERIOD) es =
      bytesOf (fun p => isLocalAddress host (sourceText host p) == out) (tick.t.tv_sec - PERIOD)
        (eventsOf (pre.flatMap (FrameTick.acts iface_handles) ++ tick.pushes iface_handles)) := by
    rw [bytesAfter, bytesOf, hpackets]
  rw [getD_signal, ← hcount]
  exact hsum.trans (Nat.mod_modEq _ _)

/-- **From the wires to the reports.**  The analyzer listens on the devices it finds, and ticks as
long as it likes, on a `/proc` that may change with every frame.  If the packets it is given and the
refreshes keep to a schedule, then every tick reports as sent, up to multiples of `2 ^ 32`, the
bytes on the wires of the TCP and UDP packets of the period whose source is an address of an
activated device, and as received those of the others: whatever else is on the wires, and although
a frame is cut off behind 200 bytes. -/
theorem traffic_reported {host : Host} (hhost : host.Fresh) (pcap : Pcap P)
    (nm_devices : List NMDevice) {ticks : List (WireTick P)}
    (hs : Schedule (eventsOf ((ticks.map WireTick.frames).flatMap
      (FrameTick.acts (getDevices pcap ⟨host, []⟩ nm_devices).iface_handles))))
    (pre : List (WireTick P)) (tick : WireTick P) (post : List (WireTick P))
    (hsplit : ticks = pre ++ tick :: post) :
    ∃ A A' report,
      Analyzer.init.ticks (getDevices pcap ⟨host, []⟩ nm_devices).host
          (getDevices pcap ⟨host, []⟩ nm_devices).iface_handles (pre.map WireTick.frames) =
        some A ∧
      A.mainLoopCb (getDevices pcap ⟨host, []⟩ nm_devices).host
          (getDevices pcap ⟨host, []⟩ nm_devices).iface_handles tick.frames =
        some (A', report) ∧
      ∀ out, (((report.getD []).map (NAProcInfo.bytes out)).map BitVec.toNat).sum ≡
        wireBytes (deviceAddresses nm_devices)
          (getDevices pcap ⟨host, []⟩ nm_devices).iface_handles out (tick.t.tv_sec - PERIOD)
          (pre ++ [tick]) [MOD 2 ^ 32] := by
  subst hsplit
  have hlocal := local_getDevices_iff pcap hhost nm_devices
  generalize hlistening : getDevices pcap ⟨host, []⟩ nm_devices = listening at hs hlocal ⊢
  rw [List.map_append, List.map_cons] at hs
  obtain ⟨A, A', report, hrun, htick, hreport⟩ := tick_report listening.host hs
  refine ⟨A, A', report, hrun, htick, ?_⟩
  intro out
  rw [← bytesOf_upto hlocal]
  exact hreport out

/-- A capture library that opens an Ethernet handle on every interface. -/
def etherPcap : Pcap CStr where
  create := fun iface => .ok iface
  setSnaplen := fun pcap_handle _ => pcap_handle
  setTimeout := fun pcap_handle _ => pcap_handle
  activate := fun pcap_handle => (0, pcap_handle)
  datalink := fun _ => DLT_EN10MB

/-- An activated device with one address. -/
def etherDevice : NMDevice := ⟨100, ['e'], some [⟨1⟩], none⟩

/-- A UDP packet from that address. -/
def etherWire : WirePacket :=
  .transport (.ethernet (Vector.replicate 12 0)) (.ip ⟨0, 24, 0, 0, 64, 17, 0, ⟨1⟩, ⟨2⟩⟩)
    (by decide) 3 4 []

/-- The packet as it is captured, in second 30. -/
def etherSighting {linktype : ℤ} (h : linktype = DLT_EN10MB) : Sighting linktype where
  wire := etherWire
  frame := ⟨⟨⟨30⟩, 38, 38⟩, fun i => etherWire.bytes.getD i 0⟩
  proc := ⟨none, none, none, none, []⟩
  link := h.symm
  captures := by
    refine ⟨rfl, rfl, ?_⟩
    intro i _ hi
    change etherWire.bytes.getD i 0 = _
    rw [List.getD_eq_getElem?_getD, List.getElem?_eq_getElem hi, Option.getD_some]

/-- It waits on every Ethernet handle at the tick in second 31. -/
def etherTick : WireTick CStr where
  batch := fun handle => if h : handle.linktype = DLT_EN10MB then [etherSighting h] else []
  proc := ⟨none, none, none, none, []⟩
  t := ⟨31⟩

theorem schedule_etherTick :
    Schedule (eventsOf (([etherTick].map WireTick.frames).flatMap (FrameTick.acts
      (getDevices etherPcap ⟨dottedHost [], []⟩ [etherDevice]).iface_handles))) := by
  have hevents : eventsOf (([etherTick].map WireTick.frames).flatMap
      (FrameTick.acts (getDevices etherPcap ⟨dottedHost [], []⟩ [etherDevice]).iface_handles)) =
      [Event.push ⟨⟨30⟩, 38, 38⟩ (.ip ⟨1⟩ ⟨2⟩) 3 4 ⟨none, none⟩] ++ [.refresh ⟨31⟩] := rfl
  rw [hevents]
  exact @schedule_single [.push ⟨⟨30⟩, 38, 38⟩ (.ip ⟨1⟩ ⟨2⟩) 3 4 ⟨none, none⟩] ⟨31⟩ rfl
    (by decide) (by decide) ⟨by decide, by decide⟩

theorem traffic_reported_etherTick :
    ∃ A' report,
      Analyzer.init.mainLoopCb (getDevices etherPcap ⟨dottedHost [], []⟩ [etherDevice]).host
          (getDevices etherPcap ⟨dottedHost [], []⟩ [etherDevice]).iface_handles etherTick.frames =
        some (A', report) ∧
      (((report.getD []).map (NAProcInfo.bytes true)).map BitVec.toNat).sum ≡ 38 [MOD 2 ^ 32] := by
  obtain ⟨A, A', report, hrun, htick, hreport⟩ :=
    traffic_reported ⟨readable_dottedHost [], rfl⟩ etherPcap [etherDevice]
      schedule_etherTick [] etherTick [] rfl
  cases hrun
  exact ⟨A', report, htick, hreport true⟩

end NetworkAnalyzer
