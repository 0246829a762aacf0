/-
The analyzer and the clock.

Nothing the analyzer decides depends on what time it is: it compares stamps with stamps, and stamps
with the time of the refresh.  The exceptions are at the two ends of the clock, where an `int` is
too narrow for a time, and where a process without connections, whose last packet came at second
0, is not old enough to be dropped.  Between the two ends, a run in which every clock is set forward
or back by the same amount goes through the same states, up to that amount, and gives the same
reports.

* `NetworkAnalyzer.NAState.later`, `NetworkAnalyzer.Event.later` — a state and an event in which
  all seconds are moved;
* `pushNAPacket_later`, `refresh_later` — the two kinds of steps commute with moving;
* `reports_later` — **the reports do not depend on what time it is**.
-/

import GnomeUsage.Orphans
import GnomeUsage.Timeouts

set_option relaxedAutoImplicit false
set_option autoImplicit false

namespace NetworkAnalyzer

/-! ### Moving all seconds -/

def Timeval.later (d : ℤ) (t : Timeval) : Timeval := ⟨t.tv_sec + d⟩

def NAPacket.later (d : ℤ) (packet : NAPacket) : NAPacket :=
  { packet with time := packet.time.later d }

def NAPacketList.later (d : ℤ) (packet_list : NAPacketList) : NAPacketList :=
  ⟨packet_list.list.map (NAPacket.later d)⟩

def NAConnection.later (d : ℤ) (connection : NAConnection) : NAConnection :=
  { connection with
    refpacket := connection.refpacket.later d
    sent_packets := connection.sent_packets.later d
    recv_packets := connection.recv_packets.later d
    last_packet_time := connection.last_packet_time + d }

def ConnStore.later (d : ℤ) (store : ConnStore) : ConnStore :=
  { store with cell := fun c => (store.cell c).map (NAConnection.later d) }

def NAState.later (d : ℤ) (σ : NAState) : NAState := ⟨σ.store.later d, σ.processes⟩

def Event.later (d : ℤ) : Event → Event
  | .push header address s_port d_port lookup =>
      .push { header with ts := header.ts.later d } address s_port d_port lookup
  | .refresh t => .refresh (t.later d)

/-- The second of the event can be moved by `d`: an `int` holds it before and after, with a process
timeout added, and a refresh is late enough to drop a process without connections. -/
def Event.Movable (d : ℤ) (e : Event) : Prop :=
  Fits e.stamp ∧ Fits (e.stamp + d) ∧
    (e.packet = none → PROCESSTIMEOUT ≤ e.stamp ∧ PROCESSTIMEOUT ≤ e.stamp + d)

instance (d : ℤ) (e : Event) : Decidable (e.Movable d) :=
  inferInstanceAs (Decidable (_ ∧ _ ∧ (_ → _)))

variable (host : Host) {d : ℤ}

theorem stamp_later (e : Event) : (e.later d).stamp = e.stamp + d := by
  cases e with
  | push header address s_port d_port lookup => rfl
  | refresh t => rfl

theorem packetOf_later (header : PcapPkthdr) (address : IPAddress) (s_port d_port : BitVec 16) :
    packetOf { header with ts := header.ts.later d } address s_port d_port =
      (packetOf header address s_port d_port).later d := by
  cases address with
  | ip src dst => rfl
  | ip6 src dst => rfl

/-! ### Packets and packet lists -/

theorem naPacketIsOutgoing_later (packet : NAPacket) :
    naPacketIsOutgoing host (packet.later d) =
      ((naPacketIsOutgoing host packet).1, (naPacketIsOutgoing host packet).2.later d) := by
  unfold naPacketIsOutgoing
  by_cases h : packet.dir = .unknown
  · have h' : (packet.later d).dir = .unknown := h
    rw [if_pos h, if_pos h']
    rfl
  · have h' : ¬ (packet.later d).dir = .unknown := h
    rw [if_neg h, if_neg h']
    rfl

theorem naPacketNewInverted_later (packet : NAPacket) :
    naPacketNewInverted (packet.later d) = (naPacketNewInverted packet).later d := by
  unfold naPacketNewInverted
  have hfamily : (packet.later d).sa_family = packet.sa_family := rfl
  rw [hfamily]
  cases packet.sa_family <;> rfl

theorem naPacketGetHashstring_later (packet : NAPacket) :
    naPacketGetHashstring host (packet.later d) =
      ((naPacketGetHashstring host packet).1, (naPacketGetHashstring host packet).2.later d) := by
  unfold naPacketGetHashstring
  have hhash : (packet.later d).hashstring = packet.hashstring := rfl
  rw [hhash]
  cases packet.hashstring with
  | some key => rfl
  | none =>
      simp only [naPacketIsOutgoing_later]
      rfl

theorem naPacketListAddPacket_later (packet_list : NAPacketList) (packet : NAPacket) :
    naPacketListAddPacket (packet_list.later d) (packet.later d) =
      (naPacketListAddPacket packet_list packet).later d := by
  obtain ⟨l⟩ := packet_list
  cases l with
  | nil => rfl
  | cons first rest =>
      have hsame : (packet.later d).time.tv_sec = (first.later d).time.tv_sec ↔
          packet.time.tv_sec = first.time.tv_sec := add_left_inj d
      simp only [naPacketListAddPacket, NAPacketList.later, List.map_cons, hsame]
      split <;> rfl

theorem sumPacketsFrom_later (t : Timeval) (total : BitVec 32) (l : List NAPacket) :
    sumPacketsFrom (t.later d) total (l.map (NAPacket.later d)) =
      ((sumPacketsFrom t total l).1, (sumPacketsFrom t total l).2.map (NAPacket.later d)) := by
  induction l generalizing total with
  | nil => rfl
  | cons packet l ih =>
      have hold : (packet.later d).time.tv_sec ≤ (t.later d).tv_sec - PERIOD ↔
          packet.time.tv_sec ≤ t.tv_sec - PERIOD := by
        simp only [NAPacket.later, Timeval.later]
        omega
      have hlen : (packet.later d).len = packet.len := rfl
      simp only [List.map_cons, sumPacketsFrom, hold, hlen, ih]
      split <;> rfl

theorem naPacketListSumPackets_later (packet_list : NAPacketList) (t : Timeval) :
    naPacketListSumPackets (packet_list.later d) (t.later d) =
      ((naPacketListSumPackets packet_list t).1,
        (naPacketListSumPackets packet_list t).2.later d) := by
  simp only [naPacketListSumPackets, NAPacketList.later, sumPacketsFrom_later]

/-! ### Connections -/

theorem connectionInit_later {packet : NAPacket}
    (hint : toInt (packet.time.tv_sec + d) = toInt packet.time.tv_sec + d) :
    connectionInit host (packet.later d) = (connectionInit host packet).later d := by
  have hlast : toInt (((naPacketIsOutgoing host packet).2.later d).time.tv_sec) =
      toInt (naPacketIsOutgoing host packet).2.time.tv_sec + d := by
    rw [isOutgoing_time]
    simpa [NAPacket.later, Timeval.later] using hint
  unfold connectionInit
  simp only [naPacketIsOutgoing_later, hlast]
  cases (naPacketIsOutgoing host packet).1 with
  | true => rfl
  | false =>
      simp only [Bool.false_eq_true, if_false, naPacketNewInverted_later]
      rfl

theorem connectionAdd_later {packet : NAPacket}
    (hint : toInt (packet.time.tv_sec + d) = toInt packet.time.tv_sec + d)
    (connection : NAConnection) :
    connectionAdd host (connection.later d) (packet.later d) =
      (connectionAdd host connection packet).later d := by
  have hlast : toInt (packet.later d).time.tv_sec = toInt packet.time.tv_sec + d := hint
  have hsent := fun p => @naPacketListAddPacket_later d connection.sent_packets p
  have hrecv := fun p => @naPacketListAddPacket_later d connection.recv_packets p
  unfold connectionAdd
  simp only [naPacketIsOutgoing_later, hlast]
  cases (naPacketIsOutgoing host packet).1 with
  | true =>
      simp only [if_true, NAConnection.later, hsent]
      rfl
  | false =>
      simp only [Bool.false_eq_true, if_false, NAConnection.later, hrecv]
      rfl

theorem connectionCut_later (t : Timeval) (connection : NAConnection) :
    connectionCut (t.later d) (connection.later d) = (connectionCut t connection).later d := by
  simp only [connectionCut, NAConnection.later, naPacketListSumPackets_later]

theorem keyed_later (connection : NAConnection) :
    keyed host (connection.later d) = (keyed host connection).later d := by
  simp only [keyed, NAConnection.later, naPacketGetHashstring_later]

theorem cell_later (store : ConnStore) (c : Ptr) :
    (store.later d).cell c = (store.cell c).map (NAConnection.later d) := rfl

theorem write_later (store : ConnStore) (c : Ptr) (connection : NAConnection) :
    (store.later d).write c (connection.later d) = (store.write c connection).later d := by
  have hcell : ((store.later d).write c (connection.later d)).cell =
      ((store.write c connection).later d).cell := by
    funext e
    by_cases he : e = c
    · subst he
      rw [cell_write_self, cell_later, cell_write_self, Option.map_some]
    · rw [cell_write_of_ne he, cell_later, cell_later, cell_write_of_ne he]
  exact congrArg (fun cell => (⟨store.connections, cell, store.fresh⟩ : ConnStore)) hcell

theorem findPass_later (store : ConnStore) (packet : NAPacket) (l : List Ptr) :
    findPass (store.later d) (packet.later d) l = findPass store packet l := by
  induction l with
  | nil => rfl
  | cons c l ih =>
      simp only [findPass, cell_later, ih]
      cases store.cell c with
      | none => rfl
      | some connection => rfl

theorem naConnectionFindFromPacket_later (store : ConnStore) (packet : NAPacket) :
    naConnectionFindFromPacket (store.later d) (packet.later d) =
      naConnectionFindFromPacket store packet := by
  unfold naConnectionFindFromPacket
  simp only [naPacketNewInverted_later, findPass_later]
  rfl

theorem naConnectionNew_later (store : ConnStore) {packet : NAPacket}
    (hint : toInt (packet.time.tv_sec + d) = toInt packet.time.tv_sec + d) :
    naConnectionNew host (store.later d) (packet.later d) =
      ((naConnectionNew host store packet).1, (naConnectionNew host store packet).2.later d) := by
  have hcell : Function.update (store.later d).cell store.fresh
        (some (connectionInit host (packet.later d))) =
      fun c => (Function.update store.cell store.fresh
        (some (connectionInit host packet)) c).map (NAConnection.later d) := by
    funext c
    by_cases hc : c = store.fresh
    · subst hc
      simp [connectionInit_later host hint]
    · simp [hc, cell_later]
  exact congrArg (fun cell =>
    (store.fresh, (⟨store.connections ++ [store.fresh], cell, store.fresh + 1⟩ : ConnStore))) hcell

theorem attachConnection_later (σ : NAState) (c : Ptr) (lookup : ProcessLookup) :
    attachConnection host (σ.later d) c lookup =
      (attachConnection host σ c lookup).map (NAState.later d) := by
  cases hconn : σ.store.cell c with
  | none => simp [attachConnection, NAState.later, cell_later, hconn]
  | some connection =>
      have hconn' : (σ.later d).store.cell c = some (connection.later d) := by
        rw [NAState.later, cell_later, hconn, Option.map_some]
      have hkey : connKey host (connection.later d) = connKey host connection := by
        simp only [connKey, NAConnection.later, naPacketGetHashstring_later]
      rw [attachConnection_eq host hconn, attachConnection_eq host hconn', hkey, keyed_later]
      simp only [NAState.later, write_later, Option.map_some]

/-- **Pushing a packet commutes with moving.** -/
theorem pushNAPacket_later (σ : NAState) {packet : NAPacket} (lookup : ProcessLookup)
    (hint : toInt (packet.time.tv_sec + d) = toInt packet.time.tv_sec + d) :
    pushNAPacket host (σ.later d) (packet.later d) lookup =
      (pushNAPacket host σ packet lookup).map (NAState.later d) := by
  have hfind : naConnectionFindFromPacket (σ.later d).store (packet.later d) =
      naConnectionFindFromPacket σ.store packet := naConnectionFindFromPacket_later σ.store packet
  unfold pushNAPacket
  rw [hfind]
  cases naConnectionFindFromPacket σ.store packet with
  | none => rfl
  | some r =>
      cases r with
      | none =>
          have hnew : naConnectionNew host (σ.later d).store (packet.later d) =
              ((naConnectionNew host σ.store packet).1,
                (naConnectionNew host σ.store packet).2.later d) :=
            naConnectionNew_later host σ.store hint
          simp only [Option.bind_eq_bind, Option.bind_some, hnew]
          exact attachConnection_later host ⟨(naConnectionNew host σ.store packet).2, σ.processes⟩
            _ lookup
      | some c =>
          simp only [Option.bind_eq_bind, Option.bind_some, naConnectionAddPacket, NAState.later,
            cell_later]
          cases σ.store.cell c with
          | none => rfl
          | some connection =>
              simp only [Option.map_some, Option.bind_some, connectionAdd_later host hint,
                write_later]
              rfl

/-! ### The refresh -/

section Refresh

variable {store : ConnStore}

theorem lastTime_later {c : Ptr} (hlive : ∃ conn, store.cell c = some conn) :
    (store.later d).lastTime c = store.lastTime c + d := by
  obtain ⟨conn, hconn⟩ := hlive
  have hconn' : (store.later d).cell c = some (conn.later d) := by
    rw [cell_later, hconn, Option.map_some]
  rw [lastTime_of_cell hconn', lastTime_of_cell hconn]
  rfl

theorem stalled_later {c : Ptr} (hlive : ∃ conn, store.cell c = some conn) (t : Timeval) :
    (store.later d).stalled (t.later d) c = store.stalled t c := by
  rw [Bool.eq_iff_iff, stalled_iff, stalled_iff, lastTime_later hlive]
  simp only [Timeval.later]
  omega

theorem keep_later {l : List Ptr} (hlive : ∀ c ∈ l, ∃ conn, store.cell c = some conn)
    (t : Timeval) : (store.later d).keep (t.later d) l = store.keep t l := by
  refine List.filter_congr ?_
  intro c hc
  rw [stalled_later (hlive c hc)]

theorem amount_later (t : Timeval) (out : Bool) (c : Ptr) :
    (store.later d).amount (t.later d) out c = store.amount t out c := by
  unfold ConnStore.amount
  rw [cell_later]
  cases store.cell c with
  | none => rfl
  | some conn =>
      have hsum := fun packet_list =>
        congrArg Prod.fst (@naPacketListSumPackets_later d packet_list t)
      simp only [total_sumPackets] at hsum
      cases out with
      | true => exact hsum conn.sent_packets
      | false => exact hsum conn.recv_packets

/-- A sweep commutes with moving. -/
theorem sweep_later {l : List Ptr} (hlive : ∀ c ∈ l, ∃ conn, store.cell c = some conn)
    (t : Timeval) : (store.later d).sweep (t.later d) l = (store.sweep t l).later d := by
  have hconnections : ((store.later d).sweep (t.later d) l).connections =
      (store.sweep t l).connections := by
    refine List.filter_congr ?_
    intro c _
    by_cases hc : c ∈ l
    · rw [stalled_later (hlive c hc)]
    · simp [hc]
  have hcell : ((store.later d).sweep (t.later d) l).cell = ((store.sweep t l).later d).cell := by
    funext c
    by_cases hc : c ∈ l
    · rw [cell_later, cell_sweep, cell_sweep, if_pos hc, if_pos hc, stalled_later (hlive c hc),
        cell_later]
      obtain ⟨conn, hconn⟩ := hlive c hc
      rw [hconn]
      split
      · rfl
      · simp only [Option.map_some, connectionCut_later]
    · rw [cell_sweep_of_not_mem hc, cell_later, cell_later, cell_sweep_of_not_mem hc]
  calc (store.later d).sweep (t.later d) l
      = ⟨((store.later d).sweep (t.later d) l).connections,
          ((store.later d).sweep (t.later d) l).cell, store.fresh⟩ := rfl
    _ = (store.sweep t l).later d := by rw [hconnections, hcell]; rfl

/-- Moving moves the last packet time of a process with connections. -/
theorem processTime_later (hfit : ∀ c, Fits (store.lastTime c))
    (hfit' : ∀ c, Fits ((store.later d).lastTime c)) {process : NAProcess}
    (hlive : ∀ c ∈ process.connections, ∃ conn, store.cell c = some conn)
    (hsome : process.connections ≠ []) :
    (store.later d).processTime process = store.processTime process + d := by
  obtain ⟨c, hc⟩ := List.exists_mem_of_ne_nil _ hsome
  have hmoved : ∀ e ∈ process.connections, (store.later d).lastTime e = store.lastTime e + d :=
    fun e he => lastTime_later (hlive e he)
  refine le_antisymm ?_ ?_
  · refine processTime_le ?_ ?_
    · have hlow := (hfit' c).1
      have hle : store.lastTime c ≤ store.processTime process := lastTime_le_processTime hc
      rw [hmoved c hc] at hlow
      omega
    · intro e he
      have hle : store.lastTime e ≤ store.processTime process := lastTime_le_processTime he
      rw [hmoved e he]
      omega
  · refine le_sub_iff_add_le.1 (processTime_le ?_ ?_)
    · have hlow := (hfit c).1
      have hle : (store.later d).lastTime c ≤ (store.later d).processTime process :=
        lastTime_le_processTime hc
      rw [hmoved c hc] at hle
      omega
    · intro e he
      have hle : (store.later d).lastTime e ≤ (store.later d).processTime process :=
        lastTime_le_processTime he
      rw [hmoved e he] at hle
      omega

theorem timedOut_later (hfit : ∀ c, Fits (store.lastTime c))
    (hfit' : ∀ c, Fits ((store.later d).lastTime c)) {process : NAProcess}
    (hlive : ∀ c ∈ process.connections, ∃ conn, store.cell c = some conn) {t : Timeval}
    (ht : PROCESSTIMEOUT ≤ t.tv_sec) (ht' : PROCESSTIMEOUT ≤ t.tv_sec + d) :
    (store.later d).timedOut (t.later d) process = store.timedOut t process := by
  rw [Bool.eq_iff_iff, timedOut_iff, timedOut_iff, (processTime_fits hfit process).toInt_add,
    (processTime_fits hfit' process).toInt_add]
  by_cases hnone : process.connections = []
  · -- a process without connections is dropped before and after
    have hzero : ∀ store : ConnStore, store.processTime process = 0 := by
      intro store
      simp [ConnStore.processTime, hnone]
    rw [hzero, hzero]
    simp only [Timeval.later]
    omega
  · rw [processTime_later hfit hfit' hlive hnone]
    simp only [Timeval.later]
    omega

end Refresh

/-- **A refresh commutes with moving**, and reports the same. -/
theorem refresh_later {σ : NAState} (hok : σ.Ok) (hok' : (σ.later d).Ok)
    (hfit : ∀ c, Fits (σ.store.lastTime c)) (hfit' : ∀ c, Fits ((σ.later d).store.lastTime c))
    {t : Timeval} (ht : PROCESSTIMEOUT ≤ t.tv_sec) (ht' : PROCESSTIMEOUT ≤ t.tv_sec + d) :
    naProcessInfoGetAll (σ.later d) (t.later d) =
      (naProcessInfoGetAll σ t).map fun x => (x.1.later d, x.2) := by
  have hlive : ∀ process ∈ σ.processes, ∀ c ∈ process.connections,
      ∃ conn, σ.store.cell c = some conn :=
    fun process hp c hc => hok.live (mem_ownedBy.2 ⟨process, hp, hc⟩)
  have hsurvivors : (σ.later d).store.survivors (t.later d) (σ.later d).processes =
      σ.store.survivors t σ.processes := by
    refine List.filter_congr ?_
    intro process hp
    exact congrArg _ (timedOut_later hfit hfit' (hlive process hp) ht ht')
  have hmem : ∀ process ∈ σ.store.survivors t σ.processes, process ∈ σ.processes :=
    fun process hp => List.mem_of_mem_filter hp
  have htrim : (σ.store.survivors t σ.processes).map ((σ.later d).store.trim (t.later d)) =
      (σ.store.survivors t σ.processes).map (σ.store.trim t) := by
    refine List.map_congr_left ?_
    intro process hp
    rw [ConnStore.trim, ConnStore.trim, NAState.later, keep_later (hlive process (hmem process hp))]
  have hreport : (σ.store.survivors t σ.processes).map ((σ.later d).store.report (t.later d)) =
      (σ.store.survivors t σ.processes).map (σ.store.report t) := by
    refine List.map_congr_left ?_
    intro process hp
    have hamount : ∀ out, (σ.store.later d).amount (t.later d) out = σ.store.amount t out :=
      fun out => funext (amount_later t out)
    simp only [ConnStore.report, NAState.later, keep_later (hlive process (hmem process hp)),
      hamount]
  have hsweep := @sweep_later d σ.store (ownedBy (σ.store.survivors t σ.processes))
    (fun c hc => hok.live (ownedBy_survivors_subset hc)) t
  rw [naProcessInfoGetAll_eq hok, naProcessInfoGetAll_eq hok', hsurvivors, htrim, hreport,
    Option.map_some]
  simp only [NAState.later, hsweep]

/-! ### Runs -/

/-- What a run keeps: the state and the moved state are well-formed, and all their times fit. -/
structure NAState.Movable (d : ℤ) (σ : NAState) : Prop where
  ok : σ.Ok
  fits : ∀ c, Fits (σ.store.lastTime c)
  ok_later : (σ.later d).Ok
  fits_later : ∀ c, Fits ((σ.later d).store.lastTime c)

theorem movable_init : NAState.init.Movable d where
  ok := ok_init
  fits := fun _ => fits_zero
  ok_later := ok_init
  fits_later := fun _ => fits_zero

theorem stepReport_later {σ : NAState} (h : σ.Movable d) {e : Event} (he : e.Movable d) :
    stepReport host (σ.later d) (e.later d) =
      (stepReport host σ e).map (Prod.map (NAState.later d) id) := by
  cases e with
  | push header address s_port d_port lookup =>
      have hint : toInt ((packetOf header address s_port d_port).time.tv_sec + d) =
          toInt (packetOf header address s_port d_port).time.tv_sec + d := by
        have hstamp : toInt header.ts.tv_sec = header.ts.tv_sec := he.1.toInt
        have hstamp' : toInt (header.ts.tv_sec + d) = header.ts.tv_sec + d := he.2.1.toInt
        rw [packetOf_time, hstamp, hstamp']
      have hpush := pushNAPacket_later host σ lookup hint
      simp only [Event.later, stepReport, pushPacket, packetOf_later, hpush, Option.map_map]
      rfl
  | refresh t =>
      obtain ⟨ht, ht'⟩ := he.2.2 rfl
      simp only [Event.later, stepReport, refresh_later h.ok h.ok_later h.fits h.fits_later ht ht',
        Option.map_map]
      rfl

/-- **A step commutes with moving**, and keeps what it takes. -/
theorem movable_step {σ σ' : NAState} (h : σ.Movable d) {e : Event} (he : e.Movable d)
    {report : Option (List NAProcInfo)} (hstep : stepReport host σ e = some (σ', report)) :
    stepReport host (σ.later d) (e.later d) = some (σ'.later d, report) ∧ σ'.Movable d := by
  have hstep' : stepReport host (σ.later d) (e.later d) = some (σ'.later d, report) := by
    rw [stepReport_later host h he, hstep]
    rfl
  have hlater : Fits (e.later d).stamp := by
    rw [stamp_later]
    exact he.2.1
  exact ⟨hstep',
    { ok := stepReport_ok host h.ok hstep
      fits := fits_step host h.ok h.fits he.1 (stepReport_some host hstep)
      ok_later := stepReport_ok host h.ok_later hstep'
      fits_later := fits_step host h.ok_later h.fits_later hlater (stepReport_some host hstep') }⟩

/-- Every run gives reports. -/
theorem collect_defined (es : List Event) :
    ∃ σ reports, Runs.collect (stepReport host) NAState.init es = some (σ, reports) := by
  obtain ⟨σ, hrun, _⟩ := run_ok host es
  have hsteps : (fun s e => (stepReport host s e).map Prod.fst) = step host := by
    funext s e
    exact stepReport_step host s e
  obtain ⟨reports, hcollect⟩ := Runs.exists_collect (hsteps ▸ hrun)
  exact ⟨σ, reports, hcollect⟩

/-- **The reports do not depend on what time it is.**  Any packets and refreshes, in any order of
times, are reported alike when all their seconds are moved by `d`, as long as an `int` holds the
seconds and no refresh comes in the first 50 of them; and the states they lead to differ by `d`. -/
theorem reports_later {es : List Event} (hes : ∀ e ∈ es, e.Movable d) :
    ∃ σ reports, Runs.collect (stepReport host) NAState.init es = some (σ, reports) ∧
      Runs.collect (stepReport host) NAState.init (es.map (Event.later d)) =
        some (σ.later d, reports) := by
  obtain ⟨σ, reports, hcollect⟩ := collect_defined host es
  refine ⟨σ, reports, hcollect, ?_⟩
  exact Runs.collect_map (fun h he hstep => movable_step host h he hstep) movable_init hes hcollect

/-- `suspendRun`, a thousand seconds later. -/
theorem reports_later_suspend :
    ∃ σ reports, Runs.collect (stepReport silentHost) NAState.init suspendRun = some (σ, reports) ∧
      Runs.collect (stepReport silentHost) NAState.init (suspendRun.map (Event.later 1000)) =
        some (σ.later 1000, reports) :=
  reports_later silentHost (by decide)

end NetworkAnalyzer
