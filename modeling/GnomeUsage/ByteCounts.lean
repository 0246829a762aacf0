/-
Byte counts in 32 bits and without bounds.

Whether a 32-bit counter wraps depends on all the packets behind it.  This module writes a ledger
beside the analyzer: for every connection, ever opened, and direction, the process it was handed to
(`GnomeUsage/Credits.lean`), all packets it received, and its packet list as it would be with
unbounded lengths.  A run adds and reports exactly as long as nothing in the ledger grows to
`2 ^ 32` bytes, and nothing of the period is thrown away.

* `NetworkAnalyzer.ByteLedger`, `ByteLedger.step` — the analyzer with its ledger;
* `ByteLedger.windowBytes` — the bytes of all packets of the period on the connections ever handed
  to a process, orphans and freed ones too;
* `ByteLedger.Exact` — no addition of the step wraps, and a report gives these bytes of every
  process it lists;
* `ByteLedger.Bounded` — the guard: no merged second and no reported process has `2 ^ 32` bytes in
  one direction;
* `ByteLedger.Whole` — the packets of the period are on connections the refresh sums, and still in
  their packet lists;
* `ByteLedger.Agrees.exact_iff` — one step is exact exactly when it meets both;
* `ByteLedger.Reached`, `ByteLedger.Ordered.whole_iff` — on a clock that does not go back, only an
  orphan hides packets of the period;
* `byte_counts_iff` — **all counts of a run are exact exactly when all its steps meet both**;
* `two_packets_wrap` — two packets of one second whose sum is reported as zero.
-/

import GnomeUsage.Additions
import GnomeUsage.Credits
import GnomeUsage.TimeWidth

set_option relaxedAutoImplicit false
set_option autoImplicit false

namespace NetworkAnalyzer

/-- The analyzer with its ledger: the process every connection was handed to, the packets it
received in each direction, the newest first, and its packet lists with unbounded lengths. -/
structure ByteLedger where
  aged : Aged
  owner : Ptr → Option Account
  received : Ptr → Bool → List (ℤ × ℕ)
  held : Ptr → Bool → List (ℤ × ℕ)

def ByteLedger.init : ByteLedger := ⟨Aged.init, fun _ => none, fun _ _ => [], fun _ _ => []⟩

/-- The state of the analyzer. -/
abbrev ByteLedger.state (L : ByteLedger) : NAState := L.aged.state

/-- The connections a refresh sums or frees. -/
def ByteLedger.summed (L : ByteLedger) (t : Timeval) : List Ptr :=
  ownedBy (L.state.store.survivors t L.state.processes)

variable (host : Host)

/-- The packets received, after an event. -/
def ByteLedger.receivedAfter (L : ByteLedger) : Event → Ptr → Bool → List (ℤ × ℕ)
  | .push header address s_port d_port _ => fun c out =>
      let packet := packetOf header address s_port d_port
      if c = L.state.receiver packet ∧ out = (naPacketIsOutgoing host packet).1 then
        (header.ts.tv_sec, header.len.toNat) :: L.received c out
      else L.received c out
  | .refresh _ => L.received

/-- The packet lists with unbounded lengths, after an event. -/
def ByteLedger.heldAfter (L : ByteLedger) : Event → Ptr → Bool → List (ℤ × ℕ)
  | .push header address s_port d_port _ => fun c out =>
      let packet := packetOf header address s_port d_port
      if c = L.state.receiver packet ∧ out = (naPacketIsOutgoing host packet).1 then
        Bucketed.add header.ts.tv_sec header.len.toNat (L.held c out)
      else L.held c out
  | .refresh t => fun c out =>
      if c ∈ L.summed t then Bucketed.cut (t.tv_sec - PERIOD) (L.held c out) else L.held c out

/-- A step of the analyzer, with the ledger written beside its state. -/
def ByteLedger.step (L : ByteLedger) (e : Event) : Option ByteLedger :=
  (L.aged.step host e).map fun A =>
    ⟨A, credit L.owner A.state, L.receivedAfter host e, L.heldAfter host e⟩

theorem ByteLedger.step_state (L : ByteLedger) (e : Event) :
    (L.step host e).map ByteLedger.state = NetworkAnalyzer.step host L.state e := by
  rw [ByteLedger.step, Option.map_map]
  exact L.aged.step_state host e

/-! ### Exact counts and their guard -/

/-- The bytes of the packets of the period that a connection received. -/
def ByteLedger.window (L : ByteLedger) (t : Timeval) (out : Bool) (c : Ptr) : ℕ :=
  Bucketed.weight (t.tv_sec - PERIOD) (L.received c out)

/-- The bytes a report counts of a connection, without bounds: none if the refresh does not sum it,
or frees it. -/
def ByteLedger.counts (L : ByteLedger) (t : Timeval) (out : Bool) (c : Ptr) : ℕ :=
  if c ∈ L.summed t ∧ L.state.store.stalled t c = false then
    Bucketed.total (Bucketed.cut (t.tv_sec - PERIOD) (L.held c out))
  else 0

/-- The connections that were ever handed to the process, whether or not it lists them still. -/
def ByteLedger.connectionsOf (L : ByteLedger) (account : Account) : List Ptr :=
  creditedTo L.owner L.state account

/-- **The bytes of a process in the period**: those of all packets that the connections ever handed
to it received. -/
def ByteLedger.windowBytes (L : ByteLedger) (t : Timeval) (out : Bool) (account : Account) : ℕ :=
  ((L.connectionsOf account).map (L.window t out)).sum

/-- The bytes a report gives of a process, over all entries for it; only an unknown one can have
more than one. -/
def reportedBytes (proc_info : List NAProcInfo) (out : Bool) (account : Account) : ℕ :=
  ((proc_info.filter fun info => info.account = account).map fun info =>
    (info.bytes out).toNat).sum

/-- **An exact step**: none of its additions wraps, and a report gives the bytes of the period of
every process it lists. -/
def ByteLedger.Exact (L : ByteLedger) : Event → Prop
  | .push header address s_port d_port _ =>
      NoWrap (pushAdditions host L.state (packetOf header address s_port d_port))
  | .refresh t =>
      NoWrap (infoGetAllAdditions t L.state.store L.state.processes) ∧
        ∀ σ proc_info, naProcessInfoGetAll L.state t = some (σ, proc_info) →
          ∀ info ∈ proc_info, ∀ out,
            reportedBytes proc_info out info.account = L.windowBytes t out info.account

/-- **The guard**: the packets that are merged into one stay below `2 ^ 32` bytes, and so do the
bytes that the connections of a process received in the period, in one direction. -/
def ByteLedger.Bounded (L : ByteLedger) : Event → Prop
  | .push header address s_port d_port _ =>
      let packet := packetOf header address s_port d_port
      ∀ b ∈ (L.held (L.state.receiver packet) (naPacketIsOutgoing host packet).1).head?,
        header.ts.tv_sec = b.1 → b.2 + header.len.toNat < 2 ^ 32
  | .refresh t => ∀ process ∈ L.state.store.survivors t L.state.processes, ∀ out,
      (process.connections.map (L.window t out)).sum < 2 ^ 32

/-- **Whole lists**: the packets of the period of a reported process are all counted.  None is on an
orphan, was thrown away behind an older one, or is freed with its connection. -/
def ByteLedger.Whole (L : ByteLedger) : Event → Prop
  | .push .. => True
  | .refresh t => ∀ process ∈ L.state.store.survivors t L.state.processes, ∀ out,
      ∀ c ∈ L.connectionsOf process.account, L.counts t out c = L.window t out c

/-! ### The packet lists and the ledger -/

/-- The accounts are in order, nothing is held for an address that was never allocated, and no list
holds more than was received. -/
structure ByteLedger.Ok (L : ByteLedger) : Prop where
  state : L.state.Ok
  credited : Credited L.owner L.state
  held_fresh : ∀ c, L.state.store.fresh ≤ c → ∀ out, L.held c out = []
  weight_le : ∀ c out cutoff,
    Bucketed.weight cutoff (L.held c out) ≤ Bucketed.weight cutoff (L.received c out)

/-- **The lengths in the packet lists are the unbounded ones.** -/
def ByteLedger.Agrees (L : ByteLedger) : Prop :=
  ∀ c ∈ L.state.store.connections, ∀ conn, L.state.store.cell c = some conn → ∀ out,
    wide ((connEntry conn).series out) = L.held c out

theorem ByteLedger.ok_init : ByteLedger.init.Ok where
  state := NetworkAnalyzer.ok_init
  credited := credited_init
  held_fresh := fun _ _ _ => rfl
  weight_le := fun _ _ _ => le_rfl

theorem ByteLedger.agrees_init : ByteLedger.init.Agrees := fun c hc => by cases hc

variable {L : ByteLedger}

/-- What is counted of a process that is reported is what the ledger counts. -/
theorem ByteLedger.Agrees.counted_eq (h : L.Agrees) (hok : L.Ok) (t : Timeval) (out : Bool)
    {process : NAProcess} (hp : process ∈ L.state.store.survivors t L.state.processes) :
    L.state.store.counted t out process.connections =
      (process.connections.map (L.counts t out)).sum := by
  rw [counted_eq_sum]
  congr 1
  refine List.map_congr_left ?_
  intro c hc
  have hsummed : c ∈ L.summed t := mem_ownedBy.2 ⟨process, hp, hc⟩
  have hmem : c ∈ ownedBy L.state.processes :=
    mem_ownedBy.2 ⟨process, List.mem_of_mem_filter hp, hc⟩
  obtain ⟨conn, hconn⟩ := hok.state.live hmem
  rw [ByteLedger.counts, ConnStore.bytes, hconn, Option.elim_some,
    h c (hok.state.owned c hmem) conn hconn]
  cases hst : L.state.store.stalled t c with
  | true => rw [if_pos rfl, if_neg fun hand => Bool.noConfusion hand.2]
  | false => rw [if_neg Bool.false_ne_true, if_pos ⟨hsummed, rfl⟩]

theorem ByteLedger.Ok.counts_le (hok : L.Ok) (t : Timeval) (out : Bool) (c : Ptr) :
    L.counts t out c ≤ L.window t out c := by
  unfold ByteLedger.counts ByteLedger.window
  split
  · exact (Bucketed.total_cut_le _ _).trans (hok.weight_le c out _)
  · exact Nat.zero_le _

/-- The connections a reported process lists are among those handed to it. -/
theorem ByteLedger.Ok.mem_connectionsOf (hok : L.Ok) {process : NAProcess}
    (hp : process ∈ L.state.processes) {c : Ptr} (hc : c ∈ process.connections) :
    c ∈ L.connectionsOf process.account :=
  mem_creditedTo.2 ⟨hok.state.store.lt_fresh c
    (hok.state.owned c (mem_ownedBy.2 ⟨process, hp, hc⟩)), hok.credited.listed process hp c hc⟩

/-! ### One step -/

/-- Where nothing wraps, a report gives of a process what the ledger counts of the connections ever
handed to it. -/
theorem ByteLedger.Agrees.reportedBytes_eq (h : L.Agrees) (hok : L.Ok) {t : Timeval}
    (hno : ∀ process ∈ L.state.store.survivors t L.state.processes, ∀ out,
      L.state.store.counted t out process.connections < 2 ^ 32) (out : Bool) (account : Account) :
    reportedBytes ((L.state.store.survivors t L.state.processes).map (L.state.store.report t))
        out account =
      ((L.connectionsOf account).map (L.counts t out)).sum := by
  have hbytes : ∀ process ∈ L.state.store.survivors t L.state.processes,
      ((L.state.store.report t process).bytes out).toNat =
        (process.connections.map (L.counts t out)).sum := by
    intro process hp
    rw [← h.counted_eq hok t out hp, ← Nat.mod_eq_of_lt (hno process hp out)]
    obtain ⟨hsent, hrecv⟩ := report_toNat L.state.store t process
    cases out with
    | true => exact hsent
    | false => exact hrecv
  have hunlisted : ∀ c, c ∉ ownedBy (L.state.store.survivors t L.state.processes) →
      L.counts t out c = 0 :=
    fun c hc => if_neg fun hand => hc hand.1
  rw [ByteLedger.connectionsOf, ← sum_listed hok.state hok.credited List.filter_sublist account
    hunlisted, sum_ownedBy, reportedBytes, List.filter_map, List.map_map]
  refine congrArg List.sum (List.map_congr_left ?_)
  intro process hp
  exact hbytes process (List.mem_of_mem_filter hp)

/-- **A refresh is exact exactly when it meets the guard and the lists are whole.** -/
theorem ByteLedger.Agrees.refresh_iff (h : L.Agrees) (hok : L.Ok) (t : Timeval) :
    L.Exact host (.refresh t) ↔ L.Bounded host (.refresh t) ∧ L.Whole (.refresh t) := by
  have hnoWrap := noWrap_infoGetAll t hok.state.store.nodup hok.state.owned_nodup
    fun c hc => hok.state.live hc
  -- the report, compared with the bytes of the period
  have hreport : NoWrap (infoGetAllAdditions t L.state.store L.state.processes) →
      ((∀ σ proc_info, naProcessInfoGetAll L.state t = some (σ, proc_info) →
          ∀ info ∈ proc_info, ∀ out,
            reportedBytes proc_info out info.account = L.windowBytes t out info.account) ↔
        L.Whole (.refresh t)) := by
    intro hno
    simp only [naProcessInfoGetAll_eq hok.state, Option.some.injEq, Prod.mk.injEq, and_imp,
      forall_eq', forall_apply_eq_imp_iff, List.forall_mem_map]
    refine forall₂_congr ?_
    intro process hp
    refine forall_congr' ?_
    intro out
    rw [h.reportedBytes_eq hok (hnoWrap.1 hno), ByteLedger.windowBytes]
    exact Lists.sum_eq_iff_of_le fun c _ => hok.counts_le t out c
  -- in whole lists, what is counted of a process is what its connections received
  have hcounted : L.Whole (.refresh t) →
      ∀ process ∈ L.state.store.survivors t L.state.processes, ∀ out,
        L.state.store.counted t out process.connections =
          (process.connections.map (L.window t out)).sum := by
    intro hwhole process hp out
    rw [h.counted_eq hok t out hp]
    refine congrArg List.sum (List.map_congr_left ?_)
    intro c hc
    exact hwhole process hp out c (hok.mem_connectionsOf (List.mem_of_mem_filter hp) hc)
  have hbounded : L.Whole (.refresh t) →
      (NoWrap (infoGetAllAdditions t L.state.store L.state.processes) ↔
        L.Bounded host (.refresh t)) := by
    intro hwhole
    rw [hnoWrap]
    refine forall₂_congr ?_
    intro process hp
    refine forall_congr' ?_
    intro out
    rw [hcounted hwhole process hp out]
  rw [ByteLedger.Exact]
  constructor
  · rintro ⟨hno, heq⟩
    have hwhole := (hreport hno).1 heq
    exact ⟨(hbounded hwhole).1 hno, hwhole⟩
  · rintro ⟨hbound, hwhole⟩
    have hno := (hbounded hwhole).2 hbound
    exact ⟨hno, (hreport hno).2 hwhole⟩

/-- The newest bucket of a series, with its weight as an unbounded integer. -/
theorem forall_head_wide {p : ℤ → ℕ → Prop} (l : List (ℤ × BitVec 32)) :
    (∀ b ∈ l.head?, p b.1 b.2.toNat) ↔ ∀ b ∈ (wide l).head?, p b.1 b.2 := by
  cases l with
  | nil => simp
  | cons b l => simp

/-- **A packet is exact exactly when it meets the guard.** -/
theorem ByteLedger.Agrees.push_iff (h : L.Agrees) (hok : L.Ok) {header : PcapPkthdr}
    {address : IPAddress} {s_port d_port : BitVec 16} {lookup : ProcessLookup} {σ : NAState}
    (hstep : PushStep host L.state (packetOf header address s_port d_port) lookup σ) :
    L.Exact host (.push header address s_port d_port lookup) ↔
      L.Bounded host (.push header address s_port d_port lookup) := by
  rw [ByteLedger.Exact, ByteLedger.Bounded]
  cases hstep with
  | @found c conn hfind hc hconn _ _ =>
      have hreceiver : L.state.receiver (packetOf header address s_port d_port) = c :=
        NAState.receiver_of_found hfind
      rw [noWrap_push host hfind hconn, packetOf_time, packetOf_len, hreceiver,
        ← h c hc conn hconn]
      exact @forall_head_wide (fun s m => header.ts.tv_sec = s → m + header.len.toNat < 2 ^ 32) _
  | opened hfind _ _ =>
      have hreceiver : L.state.receiver (packetOf header address s_port d_port) =
          L.state.store.fresh :=
        NAState.receiver_of_opened hfind
      simp [pushAdditions, hfind, hreceiver, hok.held_fresh _ le_rfl]

/-- **A packet of a known connection** that meets the guard leaves the lists as in the ledger. -/
theorem ByteLedger.Agrees.push_found (h : L.Agrees) {header : PcapPkthdr}
    {address : IPAddress} {s_port d_port : BitVec 16} {lookup : ProcessLookup} {c : Ptr}
    {conn : NAConnection} (hc : c ∈ L.state.store.connections)
    (hconn : L.state.store.cell c = some conn)
    (hreceiver : L.state.receiver (packetOf header address s_port d_port) = c)
    (hbounded : L.Bounded host (.push header address s_port d_port lookup)) {d : Ptr}
    {conn' : NAConnection} (hd : d ∈ L.state.store.connections)
    (hconn' : (L.state.store.write c (connectionAdd host conn
      (packetOf header address s_port d_port))).cell d = some conn') (out : Bool) :
    wide ((connEntry conn').series out) =
      L.heldAfter host (.push header address s_port d_port lookup) d out := by
  simp only [ByteLedger.Bounded] at hbounded
  simp only [ByteLedger.heldAfter]
  rw [hreceiver] at hbounded ⊢
  by_cases hdc : d = c
  · subst hdc
    rw [cell_write_self] at hconn'
    cases hconn'
    rw [connEntry_addPacket, FlowTable.Entry.series_add]
    by_cases hout : out = (naPacketIsOutgoing host (packetOf header address s_port d_port)).1
    · subst hout
      rw [← h d hc conn hconn, ← @forall_head_wide
        (fun s m => header.ts.tv_sec = s → m + header.len.toNat < 2 ^ 32)] at hbounded
      simp only [packetArrival, packetOf_time, packetOf_len, if_true, true_and]
      rw [wide_add hbounded, h d hc conn hconn]
    · simp only [packetArrival, hout, Ne.symm hout, and_false, if_false]
      exact h d hc conn hconn out
  · rw [cell_write_of_ne hdc] at hconn'
    rw [if_neg fun hand => hdc hand.1]
    exact h d hd conn' hconn' out

/-- **The first packet of a connection** leaves the lists as in the ledger. -/
theorem ByteLedger.Agrees.push_opened (h : L.Agrees) (hok : L.Ok) {header : PcapPkthdr}
    {address : IPAddress} {s_port d_port : BitVec 16} (lookup : ProcessLookup)
    (hreceiver : L.state.receiver (packetOf header address s_port d_port) = L.state.store.fresh)
    {d : Ptr} {conn' : NAConnection}
    (hd : d ∈ (L.state.store.opened host (packetOf header address s_port d_port)).connections)
    (hconn' : (L.state.store.opened host (packetOf header address s_port d_port)).cell d =
      some conn') (out : Bool) :
    wide ((connEntry conn').series out) =
      L.heldAfter host (.push header address s_port d_port lookup) d out := by
  simp only [ByteLedger.heldAfter]
  rw [hreceiver]
  by_cases hdc : d = L.state.store.fresh
  · subst hdc
    rw [cell_opened_self] at hconn'
    cases hconn'
    have hentry : connEntry (keyed host (connectionInit host
        (packetOf header address s_port d_port))) =
          (packetArrival host (packetOf header address s_port d_port)).entry :=
      connEntry_new host _
    rw [hentry, FlowTable.Arrival.series_entry, hok.held_fresh _ le_rfl]
    simp only [packetArrival, packetOf_time, packetOf_len, true_and]
    by_cases hout : out = (naPacketIsOutgoing host (packetOf header address s_port d_port)).1
    · simp [hout, Bucketed.add]
    · simp [hout, Ne.symm hout]
  · rw [cell_opened_of_ne host hdc] at hconn'
    rw [if_neg fun hand => hdc hand.1]
    have hd : d ∈ L.state.store.connections := by
      rcases List.mem_append.1 hd with hd | hd
      · exact hd
      · exact absurd (List.mem_singleton.1 hd) hdc
    exact h d hd conn' hconn' out

/-- **A packet that meets the guard** leaves the lists as in the ledger. -/
theorem ByteLedger.Agrees.push (h : L.Agrees) (hok : L.Ok) {header : PcapPkthdr}
    {address : IPAddress} {s_port d_port : BitVec 16} {lookup : ProcessLookup} {A : Aged}
    (hstep : PushStep host L.state (packetOf header address s_port d_port) lookup A.state)
    (hbounded : L.Bounded host (.push header address s_port d_port lookup)) :
    ByteLedger.Agrees ⟨A, credit L.owner A.state,
      L.receivedAfter host (.push header address s_port d_port lookup),
      L.heldAfter host (.push header address s_port d_port lookup)⟩ := by
  intro d hd conn' hconn' out
  have hd : d ∈ A.state.store.connections := hd
  have hconn' : A.state.store.cell d = some conn' := hconn'
  cases hstep with
  | @found c conn hfind hc hconn _ heq =>
      rw [heq] at hd hconn'
      exact h.push_found host hc hconn (NAState.receiver_of_found hfind) hbounded hd hconn' out
  | opened hfind _ heq =>
      rw [heq] at hd hconn'
      exact h.push_opened host hok lookup (NAState.receiver_of_opened hfind) hd hconn' out

/-- **A refresh** leaves the lists as in the ledger. -/
theorem ByteLedger.Agrees.refresh (h : L.Agrees) (hok : L.Ok) {t : Timeval} {A : Aged}
    (hstep : NetworkAnalyzer.step host L.state (.refresh t) = some A.state) :
    ByteLedger.Agrees ⟨A, credit L.owner A.state, L.receivedAfter host (.refresh t),
      L.heldAfter host (.refresh t)⟩ := by
  simp only [NetworkAnalyzer.step, naProcessInfoGetAll_eq hok.state, Option.map_some,
    Option.some_inj] at hstep
  intro c hc conn' hconn' out
  have hc : c ∈ A.state.store.connections := hc
  have hconn' : A.state.store.cell c = some conn' := hconn'
  rw [← hstep] at hc hconn'
  obtain ⟨hc, _⟩ := mem_connections_sweep.1 hc
  change (L.state.store.sweep t (L.summed t)).cell c = some conn' at hconn'
  simp only [ByteLedger.heldAfter]
  rw [cell_sweep] at hconn'
  by_cases hmem : c ∈ L.summed t
  · rw [if_pos hmem]
    rw [if_pos hmem] at hconn'
    split at hconn'
    · cases hconn'
    · obtain ⟨conn, hconn, rfl⟩ := Option.map_eq_some_iff.1 hconn'
      rw [connEntry_cut, FlowTable.Entry.series_cut, wide_cut, h c hc conn hconn]
  · rw [if_neg hmem]
    rw [if_neg hmem] at hconn'
    exact h c hc conn' hconn' out

/-! ### Runs -/

/-- The connection a packet goes to has an address that is in use afterwards. -/
theorem PushStep.lt_fresh {σ σ' : NAState} (h : σ.Ok) {packet : NAPacket}
    {lookup : ProcessLookup} (hstep : PushStep host σ packet lookup σ') :
    σ.receiver packet < σ'.store.fresh ∧ σ.store.fresh ≤ σ'.store.fresh := by
  cases hstep with
  | @found c _ hfind hc _ _ heq =>
      have hreceiver : σ.receiver packet = c := NAState.receiver_of_found hfind
      rw [hreceiver, heq]
      exact ⟨h.store.lt_fresh c hc, le_rfl⟩
  | opened hfind _ heq =>
      have hreceiver : σ.receiver packet = σ.store.fresh :=
        NAState.receiver_of_opened hfind
      rw [hreceiver, heq]
      exact ⟨Nat.lt_succ_self _, Nat.le_succ _⟩

/-- **What an event can do to the notes on a connection**: nothing, or a packet arrives, or the
packet list is cut. -/
inductive ByteLedger.Notes (L : ByteLedger) (c : Ptr) (out : Bool) :
    Event → List (ℤ × ℕ) → List (ℤ × ℕ) → Prop
  | kept (e : Event) : L.Notes c out e (L.received c out) (L.held c out)
  | arrived (header : PcapPkthdr) (address : IPAddress) (s_port d_port : BitVec 16)
      (lookup : ProcessLookup)
      (hc : c = L.state.receiver (packetOf header address s_port d_port)) :
      L.Notes c out (.push header address s_port d_port lookup)
        ((header.ts.tv_sec, header.len.toNat) :: L.received c out)
        (Bucketed.add header.ts.tv_sec header.len.toNat (L.held c out))
  | cut (t : Timeval) : L.Notes c out (.refresh t) (L.received c out)
      (Bucketed.cut (t.tv_sec - PERIOD) (L.held c out))

theorem ByteLedger.notes_after (e : Event) (c : Ptr) (out : Bool) :
    L.Notes c out e (L.receivedAfter host e c out) (L.heldAfter host e c out) := by
  cases e with
  | push header address s_port d_port lookup =>
      simp only [ByteLedger.receivedAfter, ByteLedger.heldAfter]
      split
      · next hand => exact .arrived header address s_port d_port lookup hand.1
      · exact .kept _
  | refresh t =>
      simp only [ByteLedger.receivedAfter, ByteLedger.heldAfter]
      split
      · exact .cut t
      · exact .kept _

/-- The lists hold no more than was received. -/
theorem ByteLedger.Notes.weight_le {c : Ptr} {out : Bool} {e : Event} {received held : List (ℤ × ℕ)}
    (h : L.Notes c out e received held) {cutoff : ℤ}
    (hle : Bucketed.weight cutoff (L.held c out) ≤ Bucketed.weight cutoff (L.received c out)) :
    Bucketed.weight cutoff held ≤ Bucketed.weight cutoff received := by
  cases h with
  | kept => exact hle
  | arrived header address s_port d_port lookup _ =>
      rw [Bucketed.weight_add, Bucketed.weight_cons, add_comm]
      exact Nat.add_le_add_left hle _
  | cut t => exact (Bucketed.weight_cut_le _ _ _).trans hle

/-- A refresh allocates no address. -/
theorem fresh_refresh {σ σ' : NAState} (h : σ.Ok) {t : Timeval}
    (hstep : step host σ (.refresh t) = some σ') : σ'.store.fresh = σ.store.fresh := by
  simp only [step, naProcessInfoGetAll_eq h, Option.map_some] at hstep
  cases hstep
  rfl

theorem ByteLedger.Ok.step {L' : ByteLedger} (hok : L.Ok) {e : Event}
    (hstep : L.step host e = some L') : L'.Ok := by
  obtain ⟨A, hA, rfl⟩ := Option.map_eq_some_iff.1 hstep
  obtain ⟨σ, hσ, rfl⟩ := Option.map_eq_some_iff.1 hA
  obtain ⟨s, hs, hstate⟩ := step_ok host hok.state e
  obtain rfl : s = σ := Option.some_inj.1 (hs.symm.trans hσ)
  refine ⟨hstate, credited_step host hok.state hok.credited hσ, ?_, fun c out cutoff =>
    (L.notes_after host e c out).weight_le (hok.weight_le c out cutoff)⟩
  intro c hc out
  have hc : s.store.fresh ≤ c := hc
  change L.heldAfter host e c out = []
  have hnotes := L.notes_after host e c out
  generalize L.receivedAfter host e c out = received at hnotes
  generalize L.heldAfter host e c out = held at hnotes ⊢
  cases e with
  | push header address s_port d_port lookup =>
      have hpush := pushNAPacket_step host hok.state
        (pushed_packetOf header address s_port d_port).built hσ
      obtain ⟨hreceiver, hfresh⟩ := hpush.lt_fresh host hok.state
      cases hnotes with
      | kept => exact hok.held_fresh c (hfresh.trans hc) out
      | arrived _ _ _ _ _ heq => exact absurd (heq ▸ hc) (not_le.2 hreceiver)
  | refresh t =>
      have hnil := hok.held_fresh c ((fresh_refresh host hok.state hσ).symm.le.trans hc) out
      cases hnotes with
      | kept => exact hnil
      | cut =>
          rw [hnil]
          rfl

theorem ByteLedger.Agrees.step {L' : ByteLedger} (h : L.Agrees) (hok : L.Ok) {e : Event}
    (hbounded : L.Bounded host e) (hstep : L.step host e = some L') : L'.Agrees := by
  obtain ⟨A, hA, rfl⟩ := Option.map_eq_some_iff.1 hstep
  obtain ⟨σ, hσ, rfl⟩ := Option.map_eq_some_iff.1 hA
  cases e with
  | push header address s_port d_port lookup =>
      exact h.push host hok (pushNAPacket_step host hok.state
        (pushed_packetOf header address s_port d_port).built hσ) hbounded
  | refresh t => exact h.refresh host hok hσ

/-- **One step is exact exactly when it meets the guard and the lists are whole.** -/
theorem ByteLedger.Agrees.exact_iff (h : L.Agrees) (hok : L.Ok) (e : Event) :
    L.Exact host e ↔ L.Bounded host e ∧ L.Whole e := by
  cases e with
  | push header address s_port d_port lookup =>
      obtain ⟨σ, hσ, _⟩ := step_ok host hok.state (.push header address s_port d_port lookup)
      rw [h.push_iff host hok (pushNAPacket_step host hok.state
        (pushed_packetOf header address s_port d_port).built hσ)]
      exact (and_iff_left trivial).symm
  | refresh t => exact h.refresh_iff host hok t

/-! ### A clock that does not go back -/

/-- **Within reach**: where a reported process has packets of the period on a connection of the
global list, the refresh sums that connection.  It does not if the connection is an orphan. -/
def ByteLedger.Reached (L : ByteLedger) : Event → Prop
  | .push .. => True
  | .refresh t => ∀ process ∈ L.state.store.survivors t L.state.processes,
      ∀ c ∈ L.connectionsOf process.account, c ∈ L.state.store.connections →
        (∃ out, L.window t out c ≠ 0) → c ∈ L.summed t

/-- The packets of a connection are not newer than its last one, a connection is freed with old
packets only, and the packet lists refine what was received. -/
structure ByteLedger.Ordered (now : ℤ) (L : ByteLedger) : Prop where
  timed : L.aged.Timed now
  freed : ∀ c, c < L.state.store.fresh → c ∉ L.state.store.connections →
    L.aged.seconds c + CONNTIMEOUT ≤ now
  received_le : ∀ c out, ∀ a ∈ L.received c out, a.1 ≤ now ∧ a.1 ≤ L.aged.seconds c
  refines : ∀ c out, ∃ cuts, (∀ cutoff ∈ cuts, cutoff ≤ now - PERIOD) ∧
    Bucketed.Refines cuts (L.received c out) (L.held c out)

theorem ByteLedger.ordered_init : ByteLedger.init.Ordered 0 where
  timed := Aged.timed_init
  freed := fun c hc => absurd hc (Nat.not_lt_zero c)
  received_le := fun c out a ha => by cases ha
  refines := fun c out => ⟨[], fun _ h => absurd h List.not_mem_nil, Bucketed.refines_nil⟩

variable {now : ℤ}

/-- What a refresh frees has an old last packet. -/
theorem ByteLedger.Ordered.old_of_stalled (h : L.Ordered now) {t : Timeval} (ht : now ≤ t.tv_sec)
    {c : Ptr} (hsummed : c ∈ L.summed t) (hst : L.state.store.stalled t c = true) :
    L.aged.seconds c + CONNTIMEOUT ≤ t.tv_sec := by
  obtain ⟨process, hp, hc⟩ := mem_ownedBy.1 hsummed
  obtain ⟨hp, hstays⟩ := List.mem_filter.1 hp
  rw [h.timed.stalled_eq ht hp (by simpa using hstays) hc] at hst
  simpa [Aged.stalled] using hst

/-- A connection whose last packet is 25 seconds old has no packets of the period. -/
theorem ByteLedger.Ordered.window_of_old (h : L.Ordered now) {t : Timeval} {c : Ptr}
    (hold : L.aged.seconds c + CONNTIMEOUT ≤ t.tv_sec) (out : Bool) : L.window t out c = 0 := by
  refine Bucketed.weight_eq_zero ?_
  intro a ha
  have hle := (h.received_le c out a ha).2
  unfold CONNTIMEOUT at hold
  unfold PERIOD
  omega

/-- **On such a clock the lists are whole** exactly when all packets of the period are within
reach. -/
theorem ByteLedger.Ordered.whole_iff (h : L.Ordered now) {e : Event} (hnow : now ≤ e.stamp) :
    L.Whole e ↔ L.Reached e := by
  cases e with
  | push => exact Iff.rfl
  | refresh t =>
      have ht : now ≤ t.tv_sec := hnow
      constructor
      · rintro hwhole process hp c hc _ ⟨out, hne⟩
        by_contra hnot
        rw [← hwhole process hp out c hc] at hne
        exact hne (if_neg fun hand => hnot hand.1)
      · intro hreached process hp out c hc
        unfold ByteLedger.counts
        split
        · obtain ⟨cuts, hcuts, href⟩ := h.refines c out
          refine href.total_cut ?_
          intro cutoff hmem
          have hle := hcuts cutoff hmem
          omega
        · next hnot =>
            -- what the refresh does not count is stalled, or was freed before
            by_contra hne
            refine hne (h.window_of_old ?_ out).symm
            by_cases hin : c ∈ L.state.store.connections
            · have hsummed := hreached process hp c hc hin ⟨out, Ne.symm hne⟩
              refine h.old_of_stalled ht hsummed ?_
              rw [← Bool.not_eq_false]
              exact fun hst => hnot ⟨hsummed, hst⟩
            · exact (h.freed c (mem_creditedTo.1 hc).1 hin).trans ht

/-- The second of a connection is the old one or the one of the event. -/
theorem Aged.secondsAfter_eq (A : Aged) (e : Event) (c : Ptr) :
    A.secondsAfter e c = A.seconds c ∨ A.secondsAfter e c = e.stamp := by
  cases e with
  | push header address s_port d_port lookup =>
      rw [Aged.secondsAfter, Function.update_apply]
      split
      · exact .inr rfl
      · exact .inl rfl
  | refresh t => exact .inl rfl

/-- What was received is not newer than the clock, nor than the last packet of its connection. -/
theorem ByteLedger.Notes.received_le {c : Ptr} {out : Bool} {e : Event}
    {received held : List (ℤ × ℕ)} (hnotes : L.Notes c out e received held) (h : L.Ordered now)
    (hnow : now ≤ e.stamp) :
    ∀ a ∈ received, a.1 ≤ e.stamp ∧ a.1 ≤ L.aged.secondsAfter e c := by
  have hold : ∀ a ∈ L.received c out, a.1 ≤ e.stamp ∧ a.1 ≤ L.aged.secondsAfter e c := by
    intro a ha
    obtain ⟨hle, hsec⟩ := h.received_le c out a ha
    rcases L.aged.secondsAfter_eq e c with heq | heq
    · exact ⟨hle.trans hnow, heq ▸ hsec⟩
    · exact ⟨hle.trans hnow, heq ▸ hle.trans hnow⟩
  cases hnotes with
  | kept => exact hold
  | arrived header address s_port d_port lookup hc =>
      refine List.forall_mem_cons.2 ⟨⟨le_rfl, ?_⟩, hold⟩
      rw [Aged.secondsAfter, ← hc, Function.update_self]
  | cut => exact hold

/-- The packet lists go on refining what was received. -/
theorem ByteLedger.Notes.refines {c : Ptr} {out : Bool} {e : Event}
    {received held : List (ℤ × ℕ)} (hnotes : L.Notes c out e received held) (h : L.Ordered now)
    (hnow : now ≤ e.stamp) :
    ∃ cuts, (∀ cutoff ∈ cuts, cutoff ≤ e.stamp - PERIOD) ∧
      Bucketed.Refines cuts received held := by
  obtain ⟨cuts, hcuts, href⟩ := h.refines c out
  have hle : ∀ cutoff ∈ cuts, cutoff ≤ e.stamp - PERIOD := by
    intro cutoff hmem
    have hle := hcuts cutoff hmem
    omega
  cases hnotes with
  | kept => exact ⟨cuts, hle, href⟩
  | arrived header address s_port d_port lookup _ =>
      refine ⟨cuts, hle, href.add ?_ _⟩
      intro a ha
      exact (h.received_le c out a ha).1.trans hnow
  | cut t => exact ⟨_, List.forall_mem_cons.2 ⟨le_rfl, hle⟩, href.cut _⟩

/-- A connection is freed with old packets only, also by the next step. -/
theorem ByteLedger.Ordered.freed_after (h : L.Ordered now) (hok : L.Ok) {e : Event}
    (hnow : now ≤ e.stamp) {σ : NAState} (hstep : NetworkAnalyzer.step host L.state e = some σ)
    {c : Ptr} (hc : c < σ.store.fresh) (hnot : c ∉ σ.store.connections) :
    L.aged.secondsAfter e c + CONNTIMEOUT ≤ e.stamp := by
  cases e with
  | push header address s_port d_port lookup =>
      rw [Aged.secondsAfter]
      cases pushNAPacket_step host hok.state
        (pushed_packetOf header address s_port d_port).built hstep with
      | found hfind hmem _ _ heq =>
          subst heq
          have hne : c ≠ L.state.receiver (packetOf header address s_port d_port) := by
            rw [NAState.receiver_of_found hfind]
            rintro rfl
            exact hnot hmem
          rw [Function.update_of_ne hne]
          exact (h.freed c hc hnot).trans hnow
      | opened hfind _ heq =>
          subst heq
          obtain ⟨hnot, hfresh⟩ := not_or.1 fun hor => hnot (List.mem_append.2 hor)
          rw [List.mem_singleton] at hfresh
          rw [NAState.receiver_of_opened hfind, Function.update_of_ne hfresh]
          exact (h.freed c (lt_of_le_of_ne (Nat.lt_succ_iff.1 hc) hfresh) hnot).trans hnow
  | refresh t =>
      simp only [NetworkAnalyzer.step, naProcessInfoGetAll_eq hok.state, Option.map_some,
        Option.some_inj] at hstep
      subst hstep
      by_cases hin : c ∈ L.state.store.connections
      · have hfreed : c ∈ L.summed t ∧ L.state.store.stalled t c = true := by
          by_contra hkept
          exact hnot (mem_connections_sweep.2 ⟨hin, hkept⟩)
        exact h.old_of_stalled hnow hfreed.1 hfreed.2
      · exact (h.freed c hc hin).trans hnow

theorem ByteLedger.Ordered.step {L' : ByteLedger} (h : L.Ordered now) (hok : L.Ok) {e : Event}
    (hnow : now ≤ e.stamp) (hstep : L.step host e = some L') : L'.Ordered e.stamp := by
  obtain ⟨A, hA, rfl⟩ := Option.map_eq_some_iff.1 hstep
  have htimed := h.timed.step host hnow hA
  obtain ⟨σ, hσ, rfl⟩ := Option.map_eq_some_iff.1 hA
  refine ⟨htimed, ?_, ?_, ?_⟩
  · intro c hc hnot
    exact h.freed_after host hok hnow hσ hc hnot
  · intro c out
    exact (L.notes_after host e c out).received_le h hnow
  · intro c out
    exact (L.notes_after host e c out).refines h hnow

/-- The ledger before the events `es`, on a clock that does not go back. -/
def ByteLedger.Before (L : ByteLedger) (es : List Event) : Prop :=
  L.Ok ∧ ∃ now, L.Ordered now ∧ (now :: es.map Event.stamp).Pairwise (· ≤ ·)

/-- **On such a clock the lists are whole along a run** exactly when all packets of the period are
within reach. -/
theorem ByteLedger.guarded_whole_iff {es : List Event}
    (hclock : (0 :: es.map Event.stamp).Pairwise (· ≤ ·)) :
    Runs.Guarded (ByteLedger.step host) ByteLedger.Whole ByteLedger.init es ↔
      Runs.Guarded (ByteLedger.step host) ByteLedger.Reached ByteLedger.init es := by
  refine @Runs.guarded_congr _ _ _ ByteLedger.Before _ _ ?_ ?_ _ _
    ⟨ByteLedger.ok_init, 0, ByteLedger.ordered_init, hclock⟩
  · rintro L e es L' ⟨hok, now, hordered, hsorted⟩ hstep
    obtain ⟨hfirst, hrest⟩ := List.pairwise_cons.1 hsorted
    exact ⟨hok.step host hstep, e.stamp,
      hordered.step host hok (hfirst _ List.mem_cons_self) hstep, hrest⟩
  · rintro L e es ⟨_, now, hordered, hsorted⟩
    exact hordered.whole_iff ((List.pairwise_cons.1 hsorted).1 _ List.mem_cons_self)

/-- A refresh that drops no process with connections reaches all that is listed. -/
theorem ByteLedger.reached_of_adopted (hok : L.Ok) (hadopted : Adopted L.state) {e : Event}
    (hdrops : DropsNone L.state e) : L.Reached e := by
  cases e with
  | push => exact trivial
  | refresh t =>
      intro process _ c _ hc _
      exact mem_survivors hdrops ((adopted_iff hok.state).1 hadopted c hc)

/-- **Where no refresh drops a process with connections**, all packets are within reach. -/
theorem ByteLedger.guarded_reached {es : List Event}
    (hdrops : Runs.Guarded (ByteLedger.step host) (fun L e => DropsNone L.state e) ByteLedger.init
      es) : Runs.Guarded (ByteLedger.step host) ByteLedger.Reached ByteLedger.init es := by
  have hboth : Runs.Guarded (ByteLedger.step host)
      (fun L e => DropsNone L.state e ∧ L.Reached e) ByteLedger.init es := by
    refine (@Runs.guarded_congr_of_guarded _ _ _ (fun L => L.Ok ∧ Adopted L.state) _
      (fun L e => DropsNone L.state e) ?_ ?_ _ ⟨ByteLedger.ok_init, adopted_init⟩ es).2 hdrops
    · rintro L e L' ⟨hok, hadopted⟩ hnone hstep
      have hstate : NetworkAnalyzer.step host L.state e = some L'.state := by
        rw [← L.step_state, hstep, Option.map_some]
      exact ⟨hok.step host hstep, (adopted_step_iff host hok.state hadopted hstate).2 hnone⟩
    · rintro L e ⟨hok, hadopted⟩
      exact and_iff_left_of_imp (ByteLedger.reached_of_adopted hok hadopted)
  exact (Runs.guarded_and.1 hboth).2

/-- **All counts of a run are exact** exactly when its packets and its refreshes meet the guard and
its packet lists are whole.  Where the clock starts at zero or later and does not go back, the lists
are whole exactly when the packets of the period are within reach; and they are where no refresh
drops a process with connections. -/
theorem byte_counts_iff (es : List Event) :
    ∃ L, Runs.run (ByteLedger.step host) ByteLedger.init es = some L ∧
      Runs.run (step host) NAState.init es = some L.state ∧
      (Runs.Guarded (ByteLedger.step host) (ByteLedger.Exact host) ByteLedger.init es ↔
        Runs.Guarded (ByteLedger.step host) (ByteLedger.Bounded host) ByteLedger.init es ∧
          Runs.Guarded (ByteLedger.step host) ByteLedger.Whole ByteLedger.init es) ∧
      ((0 :: es.map Event.stamp).Pairwise (· ≤ ·) →
        (Runs.Guarded (ByteLedger.step host) (ByteLedger.Exact host) ByteLedger.init es ↔
          Runs.Guarded (ByteLedger.step host) (ByteLedger.Bounded host) ByteLedger.init es ∧
            Runs.Guarded (ByteLedger.step host) ByteLedger.Reached ByteLedger.init es)) ∧
      ((0 :: es.map Event.stamp).Pairwise (· ≤ ·) →
        Runs.Guarded (ByteLedger.step host) (fun L e => DropsNone L.state e) ByteLedger.init es →
        (Runs.Guarded (ByteLedger.step host) (ByteLedger.Exact host) ByteLedger.init es ↔
          Runs.Guarded (ByteLedger.step host) (ByteLedger.Bounded host) ByteLedger.init es)) := by
  obtain ⟨σ, hrun, _⟩ := run_ok host es
  obtain ⟨L, hL, hstate⟩ := Runs.run_lift (ByteLedger.step_state host) ByteLedger.init hrun
  have hexact : Runs.Guarded (ByteLedger.step host) (ByteLedger.Exact host) ByteLedger.init es ↔
      Runs.Guarded (ByteLedger.step host) (ByteLedger.Bounded host) ByteLedger.init es ∧
        Runs.Guarded (ByteLedger.step host) ByteLedger.Whole ByteLedger.init es := by
    rw [← Runs.guarded_and]
    refine @Runs.guarded_congr_of_guarded _ _ _ (fun L => L.Ok ∧ L.Agrees) _ _ ?_ ?_ _
      ⟨ByteLedger.ok_init, ByteLedger.agrees_init⟩ es
    · rintro L e L' ⟨hok, h⟩ ⟨hbounded, _⟩ hstep
      exact ⟨hok.step host hstep, h.step host hok hbounded hstep⟩
    · rintro L e ⟨hok, h⟩
      exact h.exact_iff host hok e
  refine ⟨L, hL, by rw [hrun, hstate], hexact, ?_, ?_⟩
  · intro hclock
    rw [hexact, ByteLedger.guarded_whole_iff host hclock]
  · intro hclock hdrops
    rw [hexact, ByteLedger.guarded_whole_iff host hclock]
    exact and_iff_left (ByteLedger.guarded_reached host hdrops)

/-- After a suspend the first connection of process 42 is an orphan; its packet belongs to the bytes
of the process all the same. -/
example :
    ((Runs.run (ByteLedger.step silentHost) ByteLedger.init
      [.push ⟨⟨100⟩, 60, 60⟩ (.ip ⟨1⟩ ⟨2⟩) 3 4 ⟨some ⟨1, 42, none⟩, none⟩, .refresh ⟨150⟩,
        .push ⟨⟨151⟩, 60, 70⟩ (.ip ⟨1⟩ ⟨2⟩) 3 4 ⟨some ⟨1, 42, none⟩, none⟩,
        .push ⟨⟨151⟩, 60, 80⟩ (.ip ⟨1⟩ ⟨2⟩) 5 6 ⟨some ⟨1, 42, none⟩, none⟩]).map fun L =>
      (L.windowBytes ⟨152⟩ false (.known 42), L.connectionsOf (.known 42), L.summed ⟨152⟩)) =
      some (150, [0, 1], [1]) := by
  decide

/-- Two packets of one second on one connection, `2 ^ 31` bytes each, and a refresh. -/
def wrappingRun : List Event :=
  [.push ⟨⟨10⟩, 60, 2147483648⟩ (.ip ⟨1⟩ ⟨2⟩) 3 4 ⟨some ⟨1, 42, none⟩, none⟩,
    .push ⟨⟨10⟩, 60, 2147483648⟩ (.ip ⟨1⟩ ⟨2⟩) 3 4 ⟨some ⟨1, 42, none⟩, none⟩,
    .refresh ⟨11⟩]

/-- **The second packet wraps the bucket of the first**, and the refresh reports no bytes at all. -/
theorem two_packets_wrap :
    ¬ Runs.Guarded (ByteLedger.step silentHost) (ByteLedger.Exact silentHost) ByteLedger.init
        wrappingRun ∧
      ((Runs.run (step silentHost) NAState.init (wrappingRun.take 2)).bind fun σ =>
        (naProcessInfoGetAll σ ⟨11⟩).map fun result =>
          result.2.map fun info => (info.sent, info.recv)) = some [(0, 0)] := by
  refine ⟨?_, by decide⟩
  intro h
  have hsecond := h (wrappingRun.take 1) (wrappingRun.get ⟨1, by decide⟩) (wrappingRun.drop 2) _
    rfl rfl
  have hsecond : NoWrap (pushAdditions silentHost _ _) := hsecond
  exact absurd hsecond (by decide)

end NetworkAnalyzer
