/-
The additions of the reporting path.

The analyzer counts bytes in 32 bits: a packet is merged into the newest packet of its list, a
query sums a list, and a report sums the lists of the connections of a process.  This module lists
the operands of all these additions, loop by loop, and says when none of them wraps.

* `NetworkAnalyzer.Addition`, `NoWrap` — an addition of two `guint32`, and lists of them none of
  which wraps;
* `pushAdditions`, `infoGetAllAdditions` — the additions of a packet, and of a refresh;
* `NetworkAnalyzer.ConnStore.bytes` — what a query counts of a connection, in unbounded integers;
* `noWrap_push`, `noWrap_infoGetAll` — **no addition wraps exactly when no bucket grows to `2 ^ 32`
  bytes**, and exactly when no process is reported that many;
* `report_toNat` — a report counts the bytes mod `2 ^ 32`.
-/

import GnomeUsage.PacketList
import GnomeUsage.Push

set_option relaxedAutoImplicit false
set_option autoImplicit false

namespace NetworkAnalyzer

/-- The operands of an addition of two `guint32`. -/
abbrev Addition := BitVec 32 × BitVec 32

/-- **No addition of the list wraps.** -/
def NoWrap (additions : List Addition) : Prop := ∀ a ∈ additions, a.1.toNat + a.2.toNat < 2 ^ 32

instance (additions : List Addition) : Decidable (NoWrap additions) :=
  List.decidableBAll _ additions

@[simp] theorem noWrap_nil : NoWrap [] := fun a ha => by cases ha

@[simp] theorem noWrap_cons (a : Addition) (additions : List Addition) :
    NoWrap (a :: additions) ↔ a.1.toNat + a.2.toNat < 2 ^ 32 ∧ NoWrap additions :=
  List.forall_mem_cons

@[simp] theorem noWrap_append (additions additions' : List Addition) :
    NoWrap (additions ++ additions') ↔ NoWrap additions ∧ NoWrap additions' :=
  List.forall_mem_append

/-! ### The additions, loop by loop -/

/-- The addition of `na_packet_list_add_packet`, which merges two packets of one second. -/
def addPacketAdditions (packet_list : NAPacketList) (packet : NAPacket) : List Addition :=
  match packet_list.list with
  | [] => []
  | first_packet :: _ =>
      if packet.time.tv_sec = first_packet.time.tv_sec then [(first_packet.len, packet.len)]
      else []

/-- The additions of `na_packet_list_sum_packets`. -/
def sumPacketsAdditions (t : Timeval) (total : BitVec 32) : List NAPacket → List Addition
  | [] => []
  | packet :: iter =>
      if packet.time.tv_sec ≤ t.tv_sec - PERIOD then []
      else (total, packet.len) :: sumPacketsAdditions t (total + packet.len) iter

/-- The additions of `na_process_sum_connections`, with those of the lists it sums. -/
def sumConnectionsAdditions (t : Timeval) :
    ConnStore → List Ptr → BitVec 32 → BitVec 32 → List Addition
  | _, [], _, _ => []
  | store, c :: iter, recv, sent =>
      (store.cell c).elim [] fun connection =>
        if connection.last_packet_time ≤ t.tv_sec - CONNTIMEOUT then
          (naConnectionFree store c).elim [] fun store =>
            sumConnectionsAdditions t store iter recv sent
        else
          sumPacketsAdditions t 0 connection.sent_packets.list ++
            (sumPacketsAdditions t 0 connection.recv_packets.list ++
              (naConnectionSumPackets store c t).elim [] fun (store, conn_recv, conn_sent) =>
                (sent, conn_sent) :: (recv, conn_recv) ::
                  sumConnectionsAdditions t store iter (recv + conn_recv) (sent + conn_sent))

/-- The additions of `na_process_info_get_all`. -/
def infoGetAllAdditions (t : Timeval) : ConnStore → List NAProcess → List Addition
  | _, [] => []
  | store, process :: iter =>
      (naProcessGetLastPacketTime store process).elim [] fun last_packet_time =>
        if toInt (last_packet_time + PROCESSTIMEOUT) ≤ t.tv_sec then
          infoGetAllAdditions t store iter
        else
          sumConnectionsAdditions t store process.connections 0 0 ++
            (naProcessSumConnections store process t).elim [] fun (store, _) =>
              infoGetAllAdditions t store iter

variable (host : Host)

/-- The addition of `push_packet` on the reporting path; a new connection has empty lists. -/
def pushAdditions (σ : NAState) (packet : NAPacket) : List Addition :=
  match naConnectionFindFromPacket σ.store packet with
  | some (some c) =>
      (σ.store.cell c).elim [] fun connection =>
        if (naPacketIsOutgoing host packet).1 then
          addPacketAdditions connection.sent_packets packet
        else addPacketAdditions connection.recv_packets packet
  | _ => []

/-! ### Counting in unbounded integers -/

/-- A series with its weights as unbounded integers. -/
def wide (l : List (ℤ × BitVec 32)) : List (ℤ × ℕ) := l.map fun b => (b.1, b.2.toNat)

@[simp] theorem wide_nil : wide [] = [] := rfl

@[simp] theorem wide_cons (b : ℤ × BitVec 32) (l : List (ℤ × BitVec 32)) :
    wide (b :: l) = (b.1, b.2.toNat) :: wide l := rfl

theorem wide_cut (c : ℤ) (l : List (ℤ × BitVec 32)) :
    wide (Bucketed.cut c l) = Bucketed.cut c (wide l) := by
  induction l with
  | nil => rfl
  | cons b l ih =>
      by_cases h : b.1 ≤ c
      · simp [Bucketed.cut, h]
      · simp [Bucketed.cut, h, ih]

theorem toNat_total_wide (l : List (ℤ × BitVec 32)) :
    (Bucketed.total l).toNat = Bucketed.total (wide l) % 2 ^ 32 := by
  rw [toNat_total, Bucketed.total, wide, List.map_map]
  rfl

/-- **Adding to a series** is adding to it in unbounded integers, as long as the bucket the arrival
is merged into does not grow to `2 ^ 32`. -/
theorem wide_add {s : ℤ} {m : BitVec 32} {l : List (ℤ × BitVec 32)}
    (hfits : ∀ b ∈ l.head?, s = b.1 → b.2.toNat + m.toNat < 2 ^ 32) :
    wide (Bucketed.add s m l) = Bucketed.add s m.toNat (wide l) := by
  cases l with
  | nil => rfl
  | cons b l =>
      by_cases h : s = b.1
      · have hb := hfits b rfl h
        simp [Bucketed.add, h, BitVec.toNat_add_of_lt hb]
      · simp [Bucketed.add, h]

/-- What a query at `t` counts of the connection at `c`, in one direction and in unbounded
integers. -/
def ConnStore.bytes (store : ConnStore) (t : Timeval) (out : Bool) (c : Ptr) : ℕ :=
  (store.cell c).elim 0 fun conn =>
    Bucketed.total (Bucketed.cut (t.tv_sec - PERIOD) (wide ((connEntry conn).series out)))

theorem amount_toNat (store : ConnStore) (t : Timeval) (out : Bool) (c : Ptr) :
    (store.amount t out c).toNat = store.bytes t out c % 2 ^ 32 := by
  unfold ConnStore.amount ConnStore.bytes
  cases store.cell c with
  | none => rfl
  | some conn => rw [Option.elim_some, Option.elim_some, toNat_total_wide, wide_cut]

theorem sum_amount_toNat (store : ConnStore) (t : Timeval) (out : Bool) (l : List Ptr) :
    ((l.map (store.amount t out)).sum).toNat = (l.map (store.bytes t out)).sum % 2 ^ 32 := by
  induction l with
  | nil => rfl
  | cons c l ih =>
      rw [List.map_cons, List.sum_cons, BitVec.toNat_add, ih, amount_toNat, List.map_cons,
        List.sum_cons, Nat.add_mod_mod, Nat.mod_add_mod]

/-- The bytes a query at `t` counts of the connections of a list that are not stalled. -/
def ConnStore.counted (store : ConnStore) (t : Timeval) (out : Bool) (l : List Ptr) : ℕ :=
  ((store.keep t l).map (store.bytes t out)).sum

/-- **A report counts the bytes mod `2 ^ 32`.** -/
theorem report_toNat (store : ConnStore) (t : Timeval) (process : NAProcess) :
    (store.report t process).sent.toNat =
        store.counted t true process.connections % 2 ^ 32 ∧
      (store.report t process).recv.toNat =
        store.counted t false process.connections % 2 ^ 32 :=
  ⟨sum_amount_toNat .., sum_amount_toNat ..⟩

theorem bytes_sweep {store : ConnStore} {t : Timeval} {l : List Ptr} {c : Ptr} (h : c ∉ l)
    (out : Bool) : (store.sweep t l).bytes t out c = store.bytes t out c := by
  unfold ConnStore.bytes
  rw [cell_sweep_of_not_mem h]

/-- Sweeping other connections does not change what is counted. -/
theorem counted_sweep {store : ConnStore} {t : Timeval} {l l' : List Ptr} (h : l.Disjoint l')
    (out : Bool) : (store.sweep t l).counted t out l' = store.counted t out l' := by
  unfold ConnStore.counted
  rw [keep_sweep h]
  congr 1
  refine List.map_congr_left ?_
  intro c hc
  exact bytes_sweep (fun hl => h hl (List.mem_of_mem_filter hc)) out

theorem counted_cons (store : ConnStore) (t : Timeval) (out : Bool) (c : Ptr) (l : List Ptr) :
    store.counted t out (c :: l) =
      (if store.stalled t c then 0 else store.bytes t out c) + store.counted t out l := by
  unfold ConnStore.counted ConnStore.keep
  cases h : store.stalled t c with
  | true => simp [h]
  | false => simp [h]

/-- A count is a sum over all connections of the list, the stalled ones with no bytes. -/
theorem counted_eq_sum (store : ConnStore) (t : Timeval) (out : Bool) (l : List Ptr) :
    store.counted t out l =
      (l.map fun c => if store.stalled t c then 0 else store.bytes t out c).sum := by
  induction l with
  | nil => rfl
  | cons c l ih => rw [counted_cons, ih, List.map_cons, List.sum_cons]

/-! ### When no addition wraps -/

/-- **Summing a list**: none of its additions wraps exactly when the total does not reach
`2 ^ 32`. -/
theorem noWrap_sumPackets (t : Timeval) (total : BitVec 32) (l : List NAPacket) :
    NoWrap (sumPacketsAdditions t total l) ↔
      total.toNat + Bucketed.total (Bucketed.cut (t.tv_sec - PERIOD) (wide (buckets l))) <
        2 ^ 32 := by
  induction l generalizing total with
  | nil =>
      have hlt := total.isLt
      simp [sumPacketsAdditions, buckets, Bucketed.cut, hlt]
  | cons packet l ih =>
      by_cases hold : packet.time.tv_sec ≤ t.tv_sec - PERIOD
      · have hlt := total.isLt
        simp [sumPacketsAdditions, buckets, Bucketed.cut, hold, hlt]
      · have hcut : Bucketed.cut (t.tv_sec - PERIOD) (wide (buckets (packet :: l))) =
            (packet.time.tv_sec, packet.len.toNat) ::
              Bucketed.cut (t.tv_sec - PERIOD) (wide (buckets l)) := by
          simp [buckets, Bucketed.cut, hold]
        rw [sumPacketsAdditions, if_neg hold, noWrap_cons, ih, hcut, Bucketed.total_cons]
        constructor
        · rintro ⟨hadd, hrest⟩
          have hadd : total.toNat + packet.len.toNat < 2 ^ 32 := hadd
          rw [BitVec.toNat_add_of_lt hadd] at hrest
          omega
        · intro hall
          have hadd : total.toNat + packet.len.toNat < 2 ^ 32 := by omega
          refine ⟨hadd, ?_⟩
          rw [BitVec.toNat_add_of_lt hadd]
          omega

/-- The two sums of a connection. -/
theorem noWrap_sumPackets_series {store : ConnStore} {c : Ptr} {conn : NAConnection}
    (hconn : store.cell c = some conn) (t : Timeval) :
    (NoWrap (sumPacketsAdditions t 0 conn.sent_packets.list) ↔ store.bytes t true c < 2 ^ 32) ∧
      (NoWrap (sumPacketsAdditions t 0 conn.recv_packets.list) ↔
        store.bytes t false c < 2 ^ 32) := by
  have hbytes : ∀ out, store.bytes t out c = Bucketed.total
      (Bucketed.cut (t.tv_sec - PERIOD) (wide ((connEntry conn).series out))) := by
    intro out
    rw [ConnStore.bytes, hconn, Option.elim_some]
  have hzero : (0 : BitVec 32).toNat = 0 := rfl
  rw [noWrap_sumPackets, noWrap_sumPackets, hbytes true, hbytes false, hzero, zero_add, zero_add]
  exact ⟨Iff.rfl, Iff.rfl⟩

/-- One connection and the rest: adding its amounts to the totals so far. -/
theorem accumulate_iff {recv sent conn_recv conn_sent : BitVec 32} {brecv bsent rrecv rsent : ℕ}
    (hrecv : conn_recv.toNat = brecv % 2 ^ 32) (hsent : conn_sent.toNat = bsent % 2 ^ 32) :
    (bsent < 2 ^ 32 ∧ brecv < 2 ^ 32 ∧ sent.toNat + conn_sent.toNat < 2 ^ 32 ∧
        recv.toNat + conn_recv.toNat < 2 ^ 32 ∧
          ((recv + conn_recv).toNat + rrecv < 2 ^ 32 ∧ (sent + conn_sent).toNat + rsent < 2 ^ 32)) ↔
      recv.toNat + (brecv + rrecv) < 2 ^ 32 ∧ sent.toNat + (bsent + rsent) < 2 ^ 32 := by
  constructor
  · rintro ⟨hbs, hbr, hs, hr, hrr, hrs⟩
    rw [BitVec.toNat_add_of_lt hr, hrecv, Nat.mod_eq_of_lt hbr] at hrr
    rw [BitVec.toNat_add_of_lt hs, hsent, Nat.mod_eq_of_lt hbs] at hrs
    omega
  · rintro ⟨hr, hs⟩
    have hbr : brecv < 2 ^ 32 := by omega
    have hbs : bsent < 2 ^ 32 := by omega
    rw [Nat.mod_eq_of_lt hbr] at hrecv
    rw [Nat.mod_eq_of_lt hbs] at hsent
    have haddr : recv.toNat + conn_recv.toNat < 2 ^ 32 := by omega
    have hadds : sent.toNat + conn_sent.toNat < 2 ^ 32 := by omega
    rw [BitVec.toNat_add_of_lt haddr, BitVec.toNat_add_of_lt hadds]
    omega

/-- **Summing the connections of a process.** -/
theorem noWrap_sumConnections (t : Timeval) {store : ConnStore} {l : List Ptr}
    (hnodup : store.connections.Nodup) (hl : l.Nodup)
    (hlive : ∀ c ∈ l, ∃ conn, store.cell c = some conn) (recv sent : BitVec 32) :
    NoWrap (sumConnectionsAdditions t store l recv sent) ↔
      recv.toNat + store.counted t false l < 2 ^ 32 ∧
        sent.toNat + store.counted t true l < 2 ^ 32 := by
  induction l generalizing store recv sent with
  | nil =>
      have hrecv := recv.isLt
      have hsent := sent.isLt
      simp [sumConnectionsAdditions, ConnStore.counted, ConnStore.keep, hrecv, hsent]
  | cons c l ih =>
      obtain ⟨hc, hl⟩ := List.nodup_cons.1 hl
      obtain ⟨conn, hconn⟩ := hlive c List.mem_cons_self
      have hdisj : List.Disjoint [c] l := List.singleton_disjoint.2 hc
      have hlive' : ∀ d ∈ l, ∃ conn, (store.sweep t [c]).cell d = some conn :=
        live_sweep hdisj fun d hd => hlive d (List.mem_cons_of_mem _ hd)
      have ih := fun recv sent =>
        @ih (store.sweep t [c]) (nodup_sweep hnodup) hl hlive' recv sent
      simp only [counted_sweep hdisj] at ih
      rw [sumConnectionsAdditions, hconn, Option.elim_some, counted_cons, counted_cons,
        ← lastTime_of_cell hconn]
      cases hst : store.stalled t c with
      | true =>
          rw [if_pos (stalled_iff.1 hst), free_eq_sweep hnodup hconn hst, Option.elim_some, ih]
          simp
      | false =>
          have hle : ¬ store.lastTime c ≤ t.tv_sec - CONNTIMEOUT := by
            simp [← stalled_iff, hst]
          obtain ⟨hwsent, hwrecv⟩ := noWrap_sumPackets_series hconn t
          rw [if_neg hle, sum_eq_sweep hconn hst, Option.elim_some, noWrap_append, noWrap_append,
            noWrap_cons, noWrap_cons, ih, hwsent, hwrecv]
          exact accumulate_iff (amount_toNat store t false c) (amount_toNat store t true c)

/-- **The additions of a refresh**: none wraps exactly when no process that is reported has
`2 ^ 32` bytes in one direction. -/
theorem noWrap_infoGetAll (t : Timeval) {store : ConnStore} {processes : List NAProcess}
    (hnodup : store.connections.Nodup) (howned : (ownedBy processes).Nodup)
    (hlive : ∀ c ∈ ownedBy processes, ∃ conn, store.cell c = some conn) :
    NoWrap (infoGetAllAdditions t store processes) ↔
      ∀ process ∈ store.survivors t processes, ∀ out,
        store.counted t out process.connections < 2 ^ 32 := by
  induction processes generalizing store with
  | nil => simp [infoGetAllAdditions, ConnStore.survivors]
  | cons process processes ih =>
      rw [ownedBy_cons] at howned hlive
      obtain ⟨hp, hps, hdisj⟩ := List.nodup_append'.1 howned
      have hlivep : ∀ c ∈ process.connections, ∃ conn, store.cell c = some conn :=
        fun c hc => hlive c (List.mem_append_left _ hc)
      have hliveps : ∀ c ∈ ownedBy processes, ∃ conn, store.cell c = some conn :=
        fun c hc => hlive c (List.mem_append_right _ hc)
      have htime : naProcessGetLastPacketTime store process = some (store.processTime process) :=
        lastPacketTimeFrom_eq hlivep 0
      rw [infoGetAllAdditions, htime, Option.elim_some]
      cases hout : store.timedOut t process with
      | true =>
          have hsurv : store.survivors t (process :: processes) = store.survivors t processes := by
            rw [survivors_cons, if_pos hout]
          rw [if_pos (timedOut_iff.1 hout), ih hnodup hps hliveps, hsurv]
      | false =>
          have hle : ¬ toInt (store.processTime process + PROCESSTIMEOUT) ≤ t.tv_sec := by
            simp [← timedOut_iff, hout]
          have hsurv : store.survivors t (process :: processes) =
              process :: store.survivors t processes := by
            simp [survivors_cons, hout]
          have hlive' : ∀ c ∈ ownedBy processes,
              ∃ conn, (store.sweep t process.connections).cell c = some conn :=
            live_sweep hdisj hliveps
          have hsum := sumConnectionsFrom_eq t hnodup hp hlivep 0 0
          have hzero : (0 : BitVec 32).toNat = 0 := rfl
          have ih := ih (nodup_sweep hnodup) hps hlive'
          rw [(@survivors_sweep store t _ _ hdisj).1] at ih
          rw [if_neg hle, noWrap_append, noWrap_sumConnections t hnodup hp hlivep, hsurv,
            List.forall_mem_cons, Bool.forall_bool]
          simp only [naProcessSumConnections, hsum, Option.bind_eq_bind, Option.bind_some,
            Option.elim_some, ih, hzero, zero_add]
          refine and_congr_right ?_
          intro _
          refine forall₂_congr ?_
          intro process' hp'
          refine forall_congr' ?_
          intro out
          rw [counted_sweep (disjoint_of_mem hdisj (List.mem_of_mem_filter hp'))]

/-- **The addition of a packet**: it does not wrap exactly when the bucket the packet is merged into
does not grow to `2 ^ 32` bytes. -/
theorem noWrap_addPacket (packet_list : NAPacketList) (packet : NAPacket) :
    NoWrap (addPacketAdditions packet_list packet) ↔
      ∀ b ∈ (buckets packet_list.list).head?, packet.time.tv_sec = b.1 →
        b.2.toNat + packet.len.toNat < 2 ^ 32 := by
  unfold addPacketAdditions
  cases hlist : packet_list.list with
  | nil => simp [buckets]
  | cons first_packet rest =>
      by_cases heq : packet.time.tv_sec = first_packet.time.tv_sec
      · simp [buckets, heq]
      · simp [buckets, heq]

theorem noWrap_push {σ : NAState} {packet : NAPacket} {c : Ptr} {conn : NAConnection}
    (hfind : naConnectionFindFromPacket σ.store packet = some (some c))
    (hconn : σ.store.cell c = some conn) :
    NoWrap (pushAdditions host σ packet) ↔
      ∀ b ∈ ((connEntry conn).series (naPacketIsOutgoing host packet).1).head?,
        packet.time.tv_sec = b.1 → b.2.toNat + packet.len.toNat < 2 ^ 32 := by
  rw [pushAdditions, hfind]
  simp only [hconn, Option.elim_some]
  cases hout : (naPacketIsOutgoing host packet).1 with
  | true => exact noWrap_addPacket conn.sent_packets packet
  | false => exact noWrap_addPacket conn.recv_packets packet

end NetworkAnalyzer
