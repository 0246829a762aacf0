/-
The packet lists and the naive count.

A packet list merges the packets of a second and forgets what a query finds too old.  Here it is
compared with a list that keeps every packet and filters: along any interleaving of packets and
queries, each in the order of its times, both return the same amounts.

* `NetworkAnalyzer.PacketOp` — a packet that is added, or a query;
* `sums`, `naiveSums` — the amounts the queries of an interleaving return;
* `packet_list_refines` — **the bucketed list refines the naive one**: the amounts agree, the list
  is ordered and short, and no query is disturbed by the queries before it.
-/

import GnomeUsage.Connection
import Mathlib.Data.Int.Interval

set_option relaxedAutoImplicit false
set_option autoImplicit false

namespace NetworkAnalyzer

/-- `na_packet_list_add_packet`, or `na_packet_list_sum_packets`. -/
inductive PacketOp where
  | add (packet : NAPacket)
  | sum (t : Timeval)

/-- What an operation leaves. -/
def PacketOp.apply (packet_list : NAPacketList) : PacketOp → NAPacketList
  | .add packet => naPacketListAddPacket packet_list packet
  | .sum t => (naPacketListSumPackets packet_list t).2

/-- The amounts the queries return, in their order. -/
def sums (packet_list : NAPacketList) : List PacketOp → List (BitVec 32)
  | [] => []
  | .add packet :: ops => sums (naPacketListAddPacket packet_list packet) ops
  | .sum t :: ops =>
      let (total, packet_list) := naPacketListSumPackets packet_list t
      total :: sums packet_list ops

/-! ### The naive count -/

/-- The bytes of the packets of the period before `t`. -/
def naiveSum (packets : List NAPacket) (t : Timeval) : ℕ :=
  ((packets.filter fun packet => t.tv_sec - PERIOD < packet.time.tv_sec).map fun packet =>
    packet.len.toNat).sum

/-- The amounts the queries ought to return, when every packet is kept. -/
def naiveSums (packets : List NAPacket) : List PacketOp → List ℕ
  | [] => []
  | .add packet :: ops => naiveSums (packet :: packets) ops
  | .sum t :: ops => naiveSum packets t :: naiveSums packets ops

/-- The packets that are added, the last one first. -/
def addedPackets (packets : List NAPacket) : List PacketOp → List NAPacket
  | [] => packets
  | .add packet :: ops => addedPackets (packet :: packets) ops
  | .sum _ :: ops => addedPackets packets ops

/-- The second of a packet that is added. -/
def PacketOp.addedAt : PacketOp → Option ℤ
  | .add packet => some packet.time.tv_sec
  | .sum _ => none

/-- The second of a query. -/
def PacketOp.queriedAt : PacketOp → Option ℤ
  | .add _ => none
  | .sum t => some t.tv_sec

/-! ### The relation between the two -/

theorem toNat_total {τ : Type*} (l : List (τ × BitVec 32)) :
    (Bucketed.total l).toNat = (l.map fun b => b.2.toNat).sum % 2 ^ 32 := by
  induction l with
  | nil => rfl
  | cons b l ih =>
      rw [Bucketed.total_cons, BitVec.toNat_add, ih, List.map_cons, List.sum_cons, Nat.add_mod_mod]

/-- The naive count, as a weight. -/
theorem toNat_weight_buckets (packets : List NAPacket) (t : Timeval) :
    (Bucketed.weight (t.tv_sec - PERIOD) (buckets packets)).toNat =
      naiveSum packets t % 2 ^ 32 := by
  rw [Bucketed.weight, toNat_total, naiveSum, buckets, List.filter_map, List.map_map]
  rfl

/-- **The simulation relation**, after queries in the seconds `queries`. -/
def Simulates (queries : List ℤ) (packets : List NAPacket) (packet_list : NAPacketList) : Prop :=
  Bucketed.Refines (queries.map fun s => s - PERIOD) (buckets packets) (buckets packet_list.list)

theorem simulates_new : Simulates [] [] naPacketListNew := Bucketed.refines_nil

theorem Simulates.add {queries : List ℤ} {packets : List NAPacket} {packet_list : NAPacketList}
    (h : Simulates queries packets packet_list) {packet : NAPacket}
    (hle : ∀ p ∈ packets, p.time.tv_sec ≤ packet.time.tv_sec) :
    Simulates queries (packet :: packets) (naPacketListAddPacket packet_list packet) := by
  rw [Simulates, buckets_addPacket]
  refine Bucketed.Refines.add h ?_ packet.len
  intro b hb
  obtain ⟨p, hp, rfl⟩ := List.mem_map.1 hb
  exact hle p hp

theorem Simulates.sum {queries : List ℤ} {packets : List NAPacket} {packet_list : NAPacketList}
    (h : Simulates queries packets packet_list) (t : Timeval) :
    Simulates (t.tv_sec :: queries) packets (naPacketListSumPackets packet_list t).2 := by
  rw [Simulates, buckets_sumPackets]
  exact Bucketed.Refines.cut h (t.tv_sec - PERIOD)

/-- **A query of the list returns the naive count.** -/
theorem Simulates.sum_eq {queries : List ℤ} {packets : List NAPacket} {packet_list : NAPacketList}
    (h : Simulates queries packets packet_list) {t : Timeval}
    (hle : ∀ s ∈ queries, s ≤ t.tv_sec) :
    (naPacketListSumPackets packet_list t).1 =
      Bucketed.weight (t.tv_sec - PERIOD) (buckets packets) := by
  rw [total_sumPackets]
  refine Bucketed.Refines.total_cut h ?_
  intro c hc
  obtain ⟨s, hs, rfl⟩ := List.mem_map.1 hc
  exact sub_le_sub_right (hle s hs) PERIOD

/-- The list is ordered. -/
theorem Simulates.ordered {queries : List ℤ} {packets : List NAPacket} {packet_list : NAPacketList}
    (h : Simulates queries packets packet_list) :
    (packet_list.list.map fun packet => packet.time.tv_sec).Pairwise (· > ·) := by
  have hnewest := Bucketed.Refines.newest h
  rw [Bucketed.Newest, buckets, List.pairwise_map] at hnewest
  exact List.pairwise_map.2 hnewest

/-- After a query the list has one packet for each second of the period at most. -/
theorem Simulates.length_le {queries : List ℤ} {packets : List NAPacket}
    {packet_list : NAPacketList} (h : Simulates queries packets packet_list) {t : Timeval}
    (hle : ∀ p ∈ packets, p.time.tv_sec ≤ t.tv_sec) :
    ((naPacketListSumPackets packet_list t).2.list.length : ℤ) ≤ PERIOD := by
  have hstamps : ∀ b ∈ buckets packet_list.list, b.1 ≤ t.tv_sec := by
    intro b hb
    obtain ⟨a, ha, heq⟩ := Bucketed.Refines.stamps h b hb
    obtain ⟨p, hp, rfl⟩ := List.mem_map.1 ha
    exact heq ▸ hle p hp
  have hlen := @Bucketed.length_cut_le ℤ (BitVec 32) _ _ _ (t.tv_sec - PERIOD) t.tv_sec _
    (Bucketed.Refines.newest h) hstamps
  rw [← buckets_sumPackets, buckets, List.length_map, Int.card_Ioc] at hlen
  unfold PERIOD at *
  omega

/-! ### Interleavings -/

/-- **The relation is kept along an interleaving**, and all its queries return the naive count. -/
theorem Simulates.run {ops : List PacketOp} {queries : List ℤ} {packets : List NAPacket}
    {packet_list : NAPacketList} (h : Simulates queries packets packet_list)
    (hadds : ((packets.map fun p => p.time.tv_sec).reverse ++
      ops.filterMap PacketOp.addedAt).Pairwise (· ≤ ·))
    (hqueries : (queries.reverse ++ ops.filterMap PacketOp.queriedAt).Pairwise (· ≤ ·)) :
    Simulates ((ops.filterMap PacketOp.queriedAt).reverse ++ queries) (addedPackets packets ops)
        (ops.foldl PacketOp.apply packet_list) ∧
      (sums packet_list ops).map BitVec.toNat =
        (naiveSums packets ops).map fun total => total % 2 ^ 32 := by
  induction ops generalizing queries packets packet_list with
  | nil => exact ⟨h, rfl⟩
  | cons op ops ih =>
      cases op with
      | add packet =>
          have hle : ∀ p ∈ packets, p.time.tv_sec ≤ packet.time.tv_sec := by
            intro p hp
            refine (List.pairwise_append.1 hadds).2.2 _ ?_ _ List.mem_cons_self
            exact List.mem_reverse.2 (List.mem_map.2 ⟨p, hp, rfl⟩)
          refine ih (h.add hle) ?_ hqueries
          simpa [PacketOp.addedAt] using hadds
      | sum t =>
          have hle : ∀ s ∈ queries, s ≤ t.tv_sec := fun s hs =>
            (List.pairwise_append.1 hqueries).2.2 s (List.mem_reverse.2 hs) _ List.mem_cons_self
          have hrest := ih (h.sum t) hadds (by simpa [PacketOp.queriedAt] using hqueries)
          rw [List.filterMap_cons_some (show PacketOp.queriedAt (.sum t) = some t.tv_sec from rfl),
            List.reverse_cons, List.append_assoc, List.singleton_append]
          refine ⟨hrest.1, ?_⟩
          simp only [sums, naiveSums, List.map_cons, hrest.2, h.sum_eq hle, toNat_weight_buckets]

theorem addedPackets_filter (packets : List NAPacket) (ops : List PacketOp) :
    addedPackets packets (ops.filter fun op => op.addedAt.isSome) = addedPackets packets ops := by
  induction ops generalizing packets with
  | nil => rfl
  | cons op ops ih =>
      cases op with
      | add packet => exact ih (packet :: packets)
      | sum t => exact ih packets

/-- **The bucketed packet list refines the naive one**: for packets in the order of their seconds,
interleaved in any way with queries in the order of theirs, every query returns, mod `2 ^ 32`, the
bytes of all packets of its period; the list is strictly decreasing; and a next query `t` leaves
`PERIOD` packets at most, if no packet is later, and returns what it would without the queries
before it. -/
theorem packet_list_refines {ops : List PacketOp}
    (hadds : (ops.filterMap PacketOp.addedAt).Pairwise (· ≤ ·))
    (hqueries : (ops.filterMap PacketOp.queriedAt).Pairwise (· ≤ ·)) :
    (sums naPacketListNew ops).map BitVec.toNat =
        (naiveSums [] ops).map (fun total => total % 2 ^ 32) ∧
      ((ops.foldl PacketOp.apply naPacketListNew).list.map fun packet =>
        packet.time.tv_sec).Pairwise (· > ·) ∧
      ∀ t : Timeval, (∀ s ∈ ops.filterMap PacketOp.queriedAt, s ≤ t.tv_sec) →
        ((∀ packet ∈ addedPackets [] ops, packet.time.tv_sec ≤ t.tv_sec) →
          ((naPacketListSumPackets (ops.foldl PacketOp.apply naPacketListNew) t).2.list.length :
            ℤ) ≤ PERIOD) ∧
        (naPacketListSumPackets (ops.foldl PacketOp.apply naPacketListNew) t).1 =
          (naPacketListSumPackets ((ops.filter fun op => op.addedAt.isSome).foldl PacketOp.apply
            naPacketListNew) t).1 := by
  obtain ⟨hsim, hsums⟩ := simulates_new.run hadds hqueries
  refine ⟨hsums, hsim.ordered, ?_⟩
  intro t ht
  refine ⟨hsim.length_le, ?_⟩
  have hadds' : ((ops.filter fun op => op.addedAt.isSome).filterMap
      PacketOp.addedAt).Pairwise (· ≤ ·) := by
    refine List.Pairwise.sublist ?_ hadds
    exact List.filter_sublist.filterMap _
  have hnone : (ops.filter fun op => op.addedAt.isSome).filterMap PacketOp.queriedAt = [] := by
    refine List.filterMap_eq_nil_iff.2 ?_
    intro op hop
    cases op with
    | add packet => rfl
    | sum s => simp [PacketOp.addedAt] at hop
  obtain ⟨hsim', _⟩ := simulates_new.run hadds' (by simp [hnone])
  rw [hnone, addedPackets_filter] at hsim'
  rw [hsim.sum_eq (by simpa using ht), hsim'.sum_eq (by simp)]

/-- Two packets of one second, with a query between them and one when they are too old. -/
def pairOps : List PacketOp :=
  [.add (naPacketNewFromIp4 ⟨1⟩ 3 ⟨2⟩ 4 100 ⟨10⟩ .unknown), .sum ⟨12⟩,
    .add (naPacketNewFromIp4 ⟨1⟩ 3 ⟨2⟩ 4 50 ⟨10⟩ .unknown), .sum ⟨15⟩]

theorem packet_list_refines_pairOps :
    (pairOps.filterMap PacketOp.addedAt).Pairwise (· ≤ ·) ∧
      (pairOps.filterMap PacketOp.queriedAt).Pairwise (· ≤ ·) ∧
      (sums naPacketListNew pairOps).map BitVec.toNat =
        (naiveSums [] pairOps).map fun total => total % 2 ^ 32 := by
  have hadds : (pairOps.filterMap PacketOp.addedAt).Pairwise (· ≤ ·) := by decide
  have hqueries : (pairOps.filterMap PacketOp.queriedAt).Pairwise (· ≤ ·) := by decide
  exact ⟨hadds, hqueries, (packet_list_refines hadds hqueries).1⟩

end NetworkAnalyzer
