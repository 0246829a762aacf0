/-
Connections of the network analyzer (`na-connection.c`).

A connection is a heap object referred to by its address, both from the global list
`connections` and from the list of a process.  `NetworkAnalyzer.ConnStore` is that list together
with the heap: `cell c = none` says that there is no connection at `c`, because it was never
allocated or because it was freed, and an operation that follows such a pointer has no defined
behaviour and returns `none`.

* `naPacketListAddPacket`, `naPacketListSumPackets` — the bucketed packet lists;
* `naConnectionNew`, `naConnectionFree`, `naConnectionAddPacket`, `naConnectionSumPackets`,
  `naConnectionFindFromPacket` — the operations on connections;
* `buckets_addPacket`, `buckets_sumPackets` — **a packet list is a bucketed time series**
  (`GnomeUsage/Bucketed.lean`);
* `connEntry_new`, `connEntry_addPacket` — **a connection is an entry of a flow table**
  (`GnomeUsage/FlowTable.lean`).
-/

import GnomeUsage.FlowTable
import GnomeUsage.Packet

set_option relaxedAutoImplicit false
set_option autoImplicit false

namespace NetworkAnalyzer

/-- Take the average speed over the last 5 seconds. -/
def PERIOD : ℤ := 5

/-- Conversion to the C type `int`. -/
def toInt (x : ℤ) : ℤ := x.bmod (2 ^ 32)

theorem toInt_of_range {x : ℤ} (hlo : -2 ^ 31 ≤ x) (hhi : x < 2 ^ 31) : toInt x = x := by
  unfold toInt
  rw [Int.bmod_eq_of_le_mul_two] <;> omega

/-! ### Packet lists -/

structure NAPacketList where
  list : List NAPacket
  deriving DecidableEq

def naPacketListNew : NAPacketList := ⟨[]⟩

def naPacketListAddPacket (packet_list : NAPacketList) (packet : NAPacket) : NAPacketList :=
  match packet_list.list with
  | [] => ⟨[naPacketCopy packet]⟩
  | first_packet :: rest =>
      if packet.time.tv_sec = first_packet.time.tv_sec then
        ⟨{ first_packet with len := first_packet.len + packet.len } :: rest⟩
      else ⟨naPacketCopy packet :: first_packet :: rest⟩

/-- The loop of `na_packet_list_sum_packets` from the link `iter` on: the total, and the links
that stay in the list. -/
def sumPacketsFrom (t : Timeval) (total : BitVec 32) : List NAPacket → BitVec 32 × List NAPacket
  | [] => (total, [])
  | packet :: iter =>
      if packet.time.tv_sec ≤ t.tv_sec - PERIOD then (total, [])
      else
        let (total, kept) := sumPacketsFrom t (total + packet.len) iter
        (total, packet :: kept)

def naPacketListSumPackets (packet_list : NAPacketList) (t : Timeval) :
    BitVec 32 × NAPacketList :=
  let (total, kept) := sumPacketsFrom t 0 packet_list.list
  (total, ⟨kept⟩)

/-! ### Connections -/

structure NAConnection where
  refpacket : NAPacket
  total_sent : BitVec 32
  total_received : BitVec 32
  sent_packets : NAPacketList
  recv_packets : NAPacketList
  /-- An `int`: the seconds of the last packet, narrowed. -/
  last_packet_time : ℤ
  deriving DecidableEq

/-- The address of a connection. -/
abbrev Ptr := ℕ

/-- The global list `connections` and the heap behind it. -/
structure ConnStore where
  connections : List Ptr
  cell : Ptr → Option NAConnection
  /-- The address the next allocation returns. -/
  fresh : Ptr

def ConnStore.empty : ConnStore := ⟨[], fun _ => none, 0⟩

/-- Writing a connection back to its address. -/
def ConnStore.write (store : ConnStore) (c : Ptr) (connection : NAConnection) : ConnStore :=
  { store with cell := Function.update store.cell c (some connection) }

variable (host : Host)

/-- The record `na_connection_new` fills in. -/
def connectionInit (packet : NAPacket) : NAConnection :=
  let (outgoing, packet) := naPacketIsOutgoing host packet
  if outgoing then
    { total_sent := packet.len
      total_received := 0
      refpacket := naPacketCopy packet
      sent_packets := naPacketListAddPacket naPacketListNew packet
      recv_packets := naPacketListNew
      last_packet_time := toInt packet.time.tv_sec }
  else
    { total_received := packet.len
      total_sent := 0
      refpacket := naPacketNewInverted packet
      sent_packets := naPacketListNew
      recv_packets := naPacketListAddPacket naPacketListNew packet
      last_packet_time := toInt packet.time.tv_sec }

def naConnectionNew (store : ConnStore) (packet : NAPacket) : Ptr × ConnStore :=
  let c := store.fresh
  (c, { connections := store.connections ++ [c]
        cell := Function.update store.cell c (some (connectionInit host packet))
        fresh := c + 1 })

def naConnectionFree (store : ConnStore) (c : Ptr) : Option ConnStore := do
  let _ ← store.cell c
  some { store with
    connections := store.connections.erase c
    cell := Function.update store.cell c none }

/-- The fields `na_connection_add_packet` changes. -/
def connectionAdd (connection : NAConnection) (packet : NAPacket) : NAConnection :=
  let connection := { connection with last_packet_time := toInt packet.time.tv_sec }
  let (outgoing, packet) := naPacketIsOutgoing host packet
  if outgoing then
    { connection with
      total_sent := connection.total_sent + packet.len
      sent_packets := naPacketListAddPacket connection.sent_packets packet }
  else
    { connection with
      total_received := connection.total_received + packet.len
      recv_packets := naPacketListAddPacket connection.recv_packets packet }

def naConnectionAddPacket (store : ConnStore) (c : Ptr) (packet : NAPacket) :
    Option ConnStore := do
  let connection ← store.cell c
  some (store.write c (connectionAdd host connection packet))

def naConnectionGetLastPacketTime (store : ConnStore) (c : Ptr) : Option ℤ := do
  let connection ← store.cell c
  some connection.last_packet_time

/-- What summing leaves of a connection. -/
def connectionCut (t : Timeval) (connection : NAConnection) : NAConnection :=
  { connection with
    sent_packets := (naPacketListSumPackets connection.sent_packets t).2
    recv_packets := (naPacketListSumPackets connection.recv_packets t).2 }

/-- `na_connection_sum_packets`: the amounts received and sent. -/
def naConnectionSumPackets (store : ConnStore) (c : Ptr) (t : Timeval) :
    Option (ConnStore × BitVec 32 × BitVec 32) := do
  let connection ← store.cell c
  let sent := (naPacketListSumPackets connection.sent_packets t).1
  let recv := (naPacketListSumPackets connection.recv_packets t).1
  some (store.write c (connectionCut t connection), recv, sent)

/-- One pass of `na_connection_find_from_packet` down the list. -/
def findPass (store : ConnStore) (packet : NAPacket) : List Ptr → Option (Option Ptr)
  | [] => some none
  | c :: iter => do
      let connection ← store.cell c
      if naPacketMatch packet connection.refpacket then some (some c)
      else findPass store packet iter

def naConnectionFindFromPacket (store : ConnStore) (packet : NAPacket) :
    Option (Option Ptr) := do
  match ← findPass store packet store.connections with
  | some c => some (some c)
  | none =>
      -- try again, now with the packet inverted
      findPass store (naPacketNewInverted packet) store.connections

/-! ### Packet lists are bucketed time series -/

/-- The series a packet list stands for. -/
def buckets (l : List NAPacket) : List (ℤ × BitVec 32) := l.map fun p => (p.time.tv_sec, p.len)

theorem buckets_addPacket (packet_list : NAPacketList) (packet : NAPacket) :
    buckets (naPacketListAddPacket packet_list packet).list =
      Bucketed.add packet.time.tv_sec packet.len (buckets packet_list.list) := by
  obtain ⟨l⟩ := packet_list
  cases l with
  | nil => rfl
  | cons first rest =>
      simp only [naPacketListAddPacket, buckets, List.map_cons]
      by_cases h : packet.time.tv_sec = first.time.tv_sec
      · simp [Bucketed.add, h]
      · simp [Bucketed.add, h, naPacketCopy]

theorem sumPacketsFrom_eq (t : Timeval) (total : BitVec 32) (l : List NAPacket) :
    (sumPacketsFrom t total l).1 =
        total + Bucketed.total (Bucketed.cut (t.tv_sec - PERIOD) (buckets l)) ∧
      buckets (sumPacketsFrom t total l).2 = Bucketed.cut (t.tv_sec - PERIOD) (buckets l) := by
  induction l generalizing total with
  | nil => simp [sumPacketsFrom, buckets, Bucketed.cut]
  | cons packet l ih =>
      by_cases h : packet.time.tv_sec ≤ t.tv_sec - PERIOD
      · simp [sumPacketsFrom, buckets, Bucketed.cut, h]
      · have ih := ih (total + packet.len)
        simp only [buckets] at ih
        simp [sumPacketsFrom, buckets, Bucketed.cut, h, ih, add_assoc]

/-- **Summing a packet list is querying its series.** -/
theorem buckets_sumPackets (packet_list : NAPacketList) (t : Timeval) :
    buckets (naPacketListSumPackets packet_list t).2.list =
      Bucketed.cut (t.tv_sec - PERIOD) (buckets packet_list.list) :=
  (sumPacketsFrom_eq t 0 packet_list.list).2

theorem total_sumPackets (packet_list : NAPacketList) (t : Timeval) :
    (naPacketListSumPackets packet_list t).1 =
      Bucketed.total (Bucketed.cut (t.tv_sec - PERIOD) (buckets packet_list.list)) := by
  have h := (sumPacketsFrom_eq t 0 packet_list.list).1
  rwa [zero_add] at h

/-! ### Connections are entries of a flow table -/

/-- The counters of a connection. -/
def connEntry (connection : NAConnection) : FlowTable.Entry ℤ (BitVec 32) where
  sent := buckets connection.sent_packets.list
  recv := buckets connection.recv_packets.list
  last := connection.last_packet_time

/-- The arrival a packet stands for. -/
def packetArrival (packet : NAPacket) : FlowTable.Arrival (Sym2 Endpoint) ℤ (BitVec 32) where
  key := flowKey packet
  time := packet.time.tv_sec
  mark := toInt packet.time.tv_sec
  size := packet.len
  out := (naPacketIsOutgoing host packet).1

theorem connEntry_new (packet : NAPacket) :
    connEntry (connectionInit host packet) = (packetArrival host packet).entry := by
  cases h : (naPacketIsOutgoing host packet).1 <;>
    simp [connectionInit, connEntry, packetArrival, FlowTable.Arrival.entry, h, buckets,
      naPacketListAddPacket, naPacketListNew, naPacketCopy]

theorem connEntry_addPacket (connection : NAConnection) (packet : NAPacket) :
    connEntry (connectionAdd host connection packet) =
      (connEntry connection).add (packetArrival host packet) := by
  cases h : (naPacketIsOutgoing host packet).1 <;>
    simp [connectionAdd, connEntry, packetArrival, FlowTable.Entry.add, h, buckets_addPacket]

theorem connEntry_cut (t : Timeval) (connection : NAConnection) :
    connEntry (connectionCut t connection) =
      (connEntry connection).cut (t.tv_sec - PERIOD) := by
  simp [connectionCut, connEntry, FlowTable.Entry.cut, buckets_sumPackets]

@[simp] theorem refpacket_add (connection : NAConnection) (packet : NAPacket) :
    (connectionAdd host connection packet).refpacket = connection.refpacket := by
  cases h : (naPacketIsOutgoing host packet).1 <;> simp [connectionAdd, h]

@[simp] theorem refpacket_cut (t : Timeval) (connection : NAConnection) :
    (connectionCut t connection).refpacket = connection.refpacket := rfl

/-- The reference packet of a new connection is the packet, or the packet inverted. -/
theorem refpacket_init (packet : NAPacket) :
    (connectionInit host packet).refpacket =
      if (naPacketIsOutgoing host packet).1 then (naPacketIsOutgoing host packet).2
      else naPacketNewInverted packet := by
  have hinv : naPacketNewInverted (naPacketIsOutgoing host packet).2 =
      naPacketNewInverted packet := by
    rw [isOutgoing_eq]
    rfl
  cases h : (naPacketIsOutgoing host packet).1
  · simp [connectionInit, h, hinv]
  · simp [connectionInit, h, naPacketCopy]

end NetworkAnalyzer
