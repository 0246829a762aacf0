/-
Processes of the network analyzer (`na-process.c`) and the packets pushed to them (`push_packet`
of `na-pcap.c`).

The analyzer keeps a global list of processes, each with the list of its connections; the
connections themselves live in the heap of `GnomeUsage/Connection.lean`.  A captured packet is
added to the connection it matches, or opens a connection that is attached to a process.  A
refresh walks the process list, drops the processes that timed out, frees the connections that
timed out in the others, and reports what each of those received and sent.

The look-up of the program behind a new connection is a separate matter
(`GnomeUsage/Attribution.lean`); here its result is given.

* `NetworkAnalyzer.NAState` — the two global lists and the heap;
* `naProcessSumConnections`, `naProcessInfoGetAll` — the refresh, with both loops;
* `attachConnection` — what `na_process_find_from_connection` does with the program it found;
* `pushPacket` — a captured packet;
* `NetworkAnalyzer.Event`, `NetworkAnalyzer.step` — the analyzer as a transition function.
-/

import GnomeUsage.Connection
import GnomeUsage.Inodeproc
import GnomeUsage.Runs

set_option relaxedAutoImplicit false
set_option autoImplicit false

namespace NetworkAnalyzer

/-- The amount of time after the last packet was received after which a connection is removed. -/
def CONNTIMEOUT : ℤ := 25

/-- The amount of time after the last packet was received after which a process is removed. -/
def PROCESSTIMEOUT : ℤ := 50

structure NAProcess where
  name : Option CStr
  connections : List Ptr
  pid : ℤ
  uid : ℕ
  deriving DecidableEq

structure NAProcInfo where
  name : Option CStr
  pid : ℤ
  sent : BitVec 32
  recv : BitVec 32
  deriving DecidableEq

/-- The amount of a report in one direction. -/
def NAProcInfo.bytes (out : Bool) (info : NAProcInfo) : BitVec 32 :=
  if out then info.sent else info.recv

def naProcessNew (name : Option CStr) : NAProcess where
  name := name
  connections := []
  pid := 0
  uid := 0

/-- The state of the analyzer: the heap with the global list `connections`, and the global list
`processes`. -/
structure NAState where
  store : ConnStore
  processes : List NAProcess

def NAState.init : NAState := ⟨ConnStore.empty, []⟩

/-! ### The refresh -/

/-- The loop of `na_process_get_last_packet_time`. -/
def lastPacketTimeFrom (store : ConnStore) (last_packet_time : ℤ) : List Ptr → Option ℤ
  | [] => some last_packet_time
  | c :: iter => do
      let conn_last_packet_time ← naConnectionGetLastPacketTime store c
      if conn_last_packet_time > last_packet_time then
        lastPacketTimeFrom store conn_last_packet_time iter
      else lastPacketTimeFrom store last_packet_time iter

def naProcessGetLastPacketTime (store : ConnStore) (process : NAProcess) : Option ℤ :=
  lastPacketTimeFrom store 0 process.connections

/-- The loop of `na_process_sum_connections` from the link `iter` on: the heap, the links that
stay in the list, and the amounts received and sent. -/
def sumConnectionsFrom (t : Timeval) :
    ConnStore → List Ptr → BitVec 32 → BitVec 32 →
      Option (ConnStore × List Ptr × BitVec 32 × BitVec 32)
  | store, [], recv, sent => some (store, [], recv, sent)
  | store, c :: iter, recv, sent => do
      let last_packet_time ← naConnectionGetLastPacketTime store c
      if last_packet_time ≤ t.tv_sec - CONNTIMEOUT then
        -- a stalled connection is freed and its link deleted
        let store ← naConnectionFree store c
        sumConnectionsFrom t store iter recv sent
      else
        let (store, conn_recv, conn_sent) ← naConnectionSumPackets store c t
        let (store, kept, recv, sent) ←
          sumConnectionsFrom t store iter (recv + conn_recv) (sent + conn_sent)
        some (store, c :: kept, recv, sent)

/-- `na_process_sum_connections`: the heap, the process, and the amounts received and sent. -/
def naProcessSumConnections (store : ConnStore) (process : NAProcess) (t : Timeval) :
    Option (ConnStore × NAProcess × BitVec 32 × BitVec 32) := do
  let (store, kept, recv, sent) ← sumConnectionsFrom t store process.connections 0 0
  some (store, { process with connections := kept }, recv, sent)

/-- The loop of `na_process_info_get_all` from the link `iter` on. -/
def infoGetAllFrom (t : Timeval) :
    ConnStore → List NAProcess → Option (ConnStore × List NAProcess × List NAProcInfo)
  | store, [] => some (store, [], [])
  | store, process :: iter => do
      let last_packet_time ← naProcessGetLastPacketTime store process
      if toInt (last_packet_time + PROCESSTIMEOUT) ≤ t.tv_sec then
        -- `na_process_free` does not look at the connections of the process
        infoGetAllFrom t store iter
      else
        let (store, process, recv, sent) ← naProcessSumConnections store process t
        let info : NAProcInfo := { name := process.name, pid := process.pid, sent, recv }
        let (store, kept, proc_info) ← infoGetAllFrom t store iter
        some (store, process :: kept, info :: proc_info)

/-- `na_process_info_get_all`, after the refresh of the connection table. -/
def naProcessInfoGetAll (σ : NAState) (t : Timeval) : Option (NAState × List NAProcInfo) := do
  let (store, processes, proc_info) ← infoGetAllFrom t σ.store σ.processes
  some (⟨store, processes⟩, proc_info)

/-! ### Attaching a connection -/

/-- The result of the look-up of a new connection: the program that holds its socket, if one was
found, and the owner `stat` reports for it. -/
structure ProcessLookup where
  node : Option NAProgram
  st_uid : Option ℕ
  deriving DecidableEq

/-- `find_process_from_program`, as the position in the list. -/
def findProcessFromProgram (processes : List NAProcess) (node : NAProgram) : Option ℕ :=
  processes.findIdx? fun process => node.pid == process.pid

/-- The process `get_process_from_inode` creates. -/
def newProcessOf (node : NAProgram) (st_uid : Option ℕ) : NAProcess :=
  { naProcessNew node.name with pid := node.pid, uid := st_uid.getD 0 }

/-- The process list with the process of a look-up in it, and the position of that process.  A
connection without a program gets a process of its own, named by the key of the connection. -/
def selectProcess (processes : List NAProcess) (lookup : ProcessLookup) (hashstring : CStr) :
    List NAProcess × ℕ :=
  match lookup.node with
  | some node =>
      match findProcessFromProgram processes node with
      | some i => (processes, i)
      | none => (processes ++ [newProcessOf node lookup.st_uid], processes.length)
  | none => (processes ++ [naProcessNew (some hashstring)], processes.length)

/-- `proc->connections = g_list_append (proc->connections, connection)`. -/
def NAProcess.attach (c : Ptr) (process : NAProcess) : NAProcess :=
  { process with connections := process.connections ++ [c] }

variable (host : Host)

/-- `na_process_find_from_connection`, given the result of the look-up. -/
def attachConnection (σ : NAState) (c : Ptr) (lookup : ProcessLookup) : Option NAState := do
  let connection ← σ.store.cell c
  let (hashstring, refpacket) := naPacketGetHashstring host connection.refpacket
  let store := σ.store.write c { connection with refpacket := refpacket }
  let (processes, i) := selectProcess σ.processes lookup hashstring
  some ⟨store, processes.modify i (NAProcess.attach c)⟩

/-! ### Pushing a packet -/

/-- `struct pcap_pkthdr`. -/
structure PcapPkthdr where
  ts : Timeval
  caplen : ℕ
  len : BitVec 32
  deriving DecidableEq

/-- `IPAddress` of `na-pcap.c`: the family tag and the union it selects. -/
inductive IPAddress where
  | ip (src dst : InAddr)
  | ip6 (src dst : In6Addr)
  deriving DecidableEq

/-- The packet `push_packet` builds. -/
def packetOf (header : PcapPkthdr) (address : IPAddress) (s_port d_port : BitVec 16) :
    NAPacket :=
  match address with
  | .ip src dst => naPacketNewFromIp4 src s_port dst d_port header.len header.ts .unknown
  | .ip6 src dst => naPacketNewFromIp6 src s_port dst d_port header.len header.ts .unknown

/-- The part of `push_packet` behind the construction of the packet. -/
def pushNAPacket (σ : NAState) (na_packet : NAPacket) (lookup : ProcessLookup) :
    Option NAState := do
  match ← naConnectionFindFromPacket σ.store na_packet with
  | some c => do
      let store ← naConnectionAddPacket host σ.store c na_packet
      some { σ with store }
  | none =>
      -- unknown connection, create new
      let (c, store) := naConnectionNew host σ.store na_packet
      attachConnection host { σ with store } c lookup

/-- `push_packet`. -/
def pushPacket (σ : NAState) (header : PcapPkthdr) (address : IPAddress)
    (s_port d_port : BitVec 16) (lookup : ProcessLookup) : Option NAState :=
  pushNAPacket host σ (packetOf header address s_port d_port) lookup

/-- The arguments the parsers call `push_packet` with. -/
structure Capture where
  header : PcapPkthdr
  address : IPAddress
  s_port : BitVec 16
  d_port : BitVec 16
  deriving DecidableEq

/-! ### The analyzer as a transition function -/

/-- A captured packet, with the result its process look-up would have, or a refresh. -/
inductive Event where
  | push (header : PcapPkthdr) (address : IPAddress) (s_port d_port : BitVec 16)
      (lookup : ProcessLookup)
  | refresh (t : Timeval)
  deriving DecidableEq

def step (σ : NAState) : Event → Option NAState
  | .push header address s_port d_port lookup =>
      pushPacket host σ header address s_port d_port lookup
  | .refresh t => (naProcessInfoGetAll σ t).map Prod.fst

/-- The packet of an event, as `push_packet` builds it. -/
def Event.packet : Event → Option NAPacket
  | .push header address s_port d_port _ => some (packetOf header address s_port d_port)
  | .refresh _ => none

/-- A packet just built by `push_packet`. -/
structure NAPacket.Pushed (packet : NAPacket) : Prop where
  built : packet.Built
  dir : packet.dir = .unknown
  hashstring : packet.hashstring = none

theorem pushed_packetOf (header : PcapPkthdr) (address : IPAddress) (s_port d_port : BitVec 16) :
    (packetOf header address s_port d_port).Pushed := by
  cases address with
  | ip src dst => exact ⟨built_newFromIp4 .., rfl, rfl⟩
  | ip6 src dst => exact ⟨built_newFromIp6 .., rfl, rfl⟩

theorem Event.built_packet {e : Event} {packet : NAPacket} (h : e.packet = some packet) :
    packet.Built := by
  cases e with
  | push header address s_port d_port lookup =>
      obtain rfl := Option.some_inj.1 h
      exact (pushed_packetOf header address s_port d_port).built
  | refresh t => cases h

@[simp] theorem packetOf_len (header : PcapPkthdr) (address : IPAddress)
    (s_port d_port : BitVec 16) :
    (packetOf header address s_port d_port).len = header.len := by
  cases address <;> rfl

@[simp] theorem packetOf_time (header : PcapPkthdr) (address : IPAddress)
    (s_port d_port : BitVec 16) :
    (packetOf header address s_port d_port).time = header.ts := by
  cases address <;> rfl

end NetworkAnalyzer
