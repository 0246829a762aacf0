/-
The order in which the capture handles are drained.

A tick of the main loop drains each handle completely before the next, so a connection that is
captured on several handles can receive older packets behind newer ones.  The packet lists and
the last packet time are made for packets in order, and the totals of later reports can then
depend on the order of the handles.  This module says when they do not.

* `Tick.SameSecond` — packets of one flow and one direction are captured on different handles
  in the same second only;
* `FreesOld` — no refresh frees a connection that still has bytes in the period;
* `Calm` — a run of ticks in which no refresh loses bytes in either way;
* `mainLoopCb_agree` — one tick in two orders keeps the flow tables in agreement, and reports the
  same totals;
* `drain_order_irrelevant` — **runs of ticks that differ in the order of the handles**;
* `drain_order_matters` — two handles that see one flow in different seconds.
-/

import GnomeUsage.MainLoop

set_option relaxedAutoImplicit false
set_option autoImplicit false

namespace NetworkAnalyzer

variable (host : Host) {ι : Type*}

/-- Packets of one flow and one direction that wait on different handles are of the same
second. -/
def Tick.SameSecond (tick : Tick ι) (iface_handles : List ι) : Prop :=
  ∀ handle ∈ iface_handles, ∀ other ∈ iface_handles, handle ≠ other →
    ∀ a ∈ tick.batch handle, ∀ b ∈ tick.batch other,
      (captureArrival host a).key = (captureArrival host b).key →
      (captureArrival host a).out = (captureArrival host b).out →
        a.header.ts.tv_sec = b.header.ts.tv_sec

/-- A connection that a refresh at `t` finds stalled has no packets left in the period. -/
def FreesOld (σ : NAState) (t : Timeval) : Prop :=
  ∀ c ∈ σ.store.connections, ∀ conn, σ.store.cell c = some conn →
    conn.last_packet_time ≤ t.tv_sec - CONNTIMEOUT →
      (naPacketListSumPackets conn.sent_packets t).2.list = [] ∧
        (naPacketListSumPackets conn.recv_packets t).2.list = []

/-- **A calm run of ticks**: no refresh drops a process that still lists a connection, or frees a
connection that still has packets in the period. -/
def Calm (lookup : NAState → Capture → ProcessLookup) (iface_handles : List ι) :
    NAState → List (Tick ι) → Prop
  | _, [] => True
  | σ, tick :: ticks => ∀ σ₁, drain host lookup tick.batch iface_handles σ = some σ₁ →
      NoLoss σ₁ tick.t ∧ FreesOld σ₁ tick.t ∧
        ∀ σ₂ report, doRefresh σ₁ tick.t = some (σ₂, report) → Calm lookup iface_handles σ₂ ticks

/-- In the flow table, what a refresh frees has nothing after the cutoff. -/
theorem FreesOld.cut {σ : NAState} {t : Timeval} (h : FreesOld σ t) :
    ∀ x ∈ σ.store.flows, stalledAt t x.2.last = true →
      ∀ out, Bucketed.cut (t.tv_sec - PERIOD) (x.2.series out) = [] := by
  intro x hx hdead out
  obtain ⟨c, hc, conn, hconn, rfl⟩ := mem_flowsOf.1 hx
  obtain ⟨hsent, hrecv⟩ := h c hc conn hconn (stalledAt_iff.1 hdead)
  cases out with
  | true =>
      have hcut := buckets_sumPackets conn.sent_packets t
      rw [hsent] at hcut
      exact hcut.symm
  | false =>
      have hcut := buckets_sumPackets conn.recv_packets t
      rw [hrecv] at hcut
      exact hcut.symm

/-- The blocks of arrivals of a tick can be exchanged. -/
theorem Tick.SameSecond.exchangeable {tick : Tick ι} {iface_handles : List ι}
    (h : tick.SameSecond host iface_handles) :
    ∀ i ∈ iface_handles, ∀ j ∈ iface_handles, i ≠ j →
      ∀ x ∈ (tick.batch i).map (captureArrival host),
        ∀ y ∈ (tick.batch j).map (captureArrival host), FlowTable.Exchangeable x y := by
  intro i hi j hj hij x hx y hy hkey hout
  obtain ⟨a, ha, rfl⟩ := List.mem_map.1 hx
  obtain ⟨b, hb, rfl⟩ := List.mem_map.1 hy
  have htime := h i hi j hj hij a ha b hb hkey hout
  simpa [captureArrival, packetArrival] using htime

/-- **One tick in two orders.** -/
theorem mainLoopCb_agree {lookup lookup' : NAState → Capture → ProcessLookup}
    {iface_handles iface_handles' : List ι} (hperm : iface_handles.Perm iface_handles')
    {σ σ' : NAState} (h : σ.Sound) (h' : σ'.Sound)
    (hagree : FlowTable.Agree σ.store.flows σ'.store.flows) {tick : Tick ι} {ticks : List (Tick ι)}
    (hsame : tick.SameSecond host iface_handles)
    (hcalm : Calm host lookup iface_handles σ (tick :: ticks))
    (hcalm' : Calm host lookup' iface_handles' σ' (tick :: ticks)) :
    ∃ σ₂ report σ₂' report',
      mainLoopCb host lookup iface_handles σ tick = some (σ₂, report) ∧
      mainLoopCb host lookup' iface_handles' σ' tick = some (σ₂', report') ∧
      totals report = totals report' ∧ σ₂.Sound ∧ σ₂'.Sound ∧
      FlowTable.Agree σ₂.store.flows σ₂'.store.flows ∧
      Calm host lookup iface_handles σ₂ ticks ∧ Calm host lookup' iface_handles' σ₂' ticks := by
  obtain ⟨σ₁, hdrain, hok₁, hadopted₁, hflows₁⟩ :=
    drain_spec host lookup h.ok tick.batch iface_handles
  obtain ⟨σ₁', hdrain', hok₁', hadopted₁', hflows₁'⟩ :=
    drain_spec host lookup' h'.ok tick.batch iface_handles'
  have hsound₁ : σ₁.Sound := ⟨hok₁, hadopted₁ h.adopted⟩
  have hsound₁' : σ₁'.Sound := ⟨hok₁', hadopted₁' h'.adopted⟩
  obtain ⟨hno, hold, hrest⟩ := hcalm σ₁ hdrain
  obtain ⟨hno', hold', hrest'⟩ := hcalm' σ₁' hdrain'
  obtain ⟨σ₂, report, hrefresh, hsound₂, hflows₂, htotals⟩ := doRefresh_spec hsound₁ hno
  obtain ⟨σ₂', report', hrefresh', hsound₂', hflows₂', htotals'⟩ := doRefresh_spec hsound₁' hno'
  have hblocks : FlowTable.Agree σ₁.store.flows σ₁'.store.flows := by
    rw [hflows₁, hflows₁']
    exact (FlowTable.agree_pushAll_perm _ hperm (hsame.exchangeable host) _).trans
      (hagree.pushAll _)
  have hagree₂ : FlowTable.Agree σ₂.store.flows σ₂'.store.flows := by
    rw [hflows₂, hflows₂']
    exact hblocks.sweep hsound₁.ok.store.distinct hsound₁'.ok.store.distinct hold.cut hold'.cut
  have hdistinct := hsound₂.ok.store.distinct
  have hdistinct' := hsound₂'.ok.store.distinct
  refine ⟨σ₂, report, σ₂', report', ?_, ?_, ?_, hsound₂, hsound₂', hagree₂,
    hrest σ₂ report hrefresh, hrest' σ₂' report' hrefresh'⟩
  · rw [mainLoopCb, hdrain]
    exact hrefresh
  · rw [mainLoopCb, hdrain']
    exact hrefresh'
  · rw [htotals, htotals', hagree₂.report hdistinct hdistinct' true,
      hagree₂.report hdistinct hdistinct' false]

theorem reports_agree {lookup lookup' : NAState → Capture → ProcessLookup}
    {iface_handles iface_handles' : List ι} (hperm : iface_handles.Perm iface_handles')
    {ticks : List (Tick ι)} {σ σ' : NAState} (h : σ.Sound) (h' : σ'.Sound)
    (hagree : FlowTable.Agree σ.store.flows σ'.store.flows)
    (hsame : ∀ tick ∈ ticks, tick.SameSecond host iface_handles)
    (hcalm : Calm host lookup iface_handles σ ticks)
    (hcalm' : Calm host lookup' iface_handles' σ' ticks) :
    ∃ rs rs', reports host lookup iface_handles σ ticks = some rs ∧
      reports host lookup' iface_handles' σ' ticks = some rs' ∧
      rs.map totals = rs'.map totals := by
  induction ticks generalizing σ σ' with
  | nil => exact ⟨[], [], rfl, rfl, rfl⟩
  | cons tick ticks ih =>
      obtain ⟨σ₂, report, σ₂', report', hloop, hloop', htotals, h₂, h₂', hagree₂, hrest, hrest'⟩ :=
        mainLoopCb_agree host hperm h h' hagree (hsame tick List.mem_cons_self) hcalm hcalm'
      obtain ⟨rs, rs', hrs, hrs', hmap⟩ := ih h₂ h₂' hagree₂
        (fun tick' hmem => hsame tick' (List.mem_cons_of_mem _ hmem)) hrest hrest'
      refine ⟨report :: rs, report' :: rs', ?_, ?_, ?_⟩
      · simp only [reports, hloop, Option.bind_eq_bind, Option.bind_some, hrs]
      · simp only [reports, hloop', Option.bind_eq_bind, Option.bind_some, hrs']
      · rw [List.map_cons, List.map_cons, htotals, hmap]

/-- **The order of the handles does not matter** to the totals of any report of a run of ticks
that follows a run without orphans, if packets of one flow and direction that wait on
different handles are always of the same second, and the ticks are calm in both orders. -/
theorem drain_order_irrelevant {lookup lookup' : NAState → Capture → ProcessLookup}
    {iface_handles iface_handles' : List ι} (hperm : iface_handles.Perm iface_handles')
    {es : List Event} {σ : NAState} (hrun : Runs.run (step host) NAState.init es = some σ)
    (hdrops : Runs.Guarded (step host) DropsNone NAState.init es) {ticks : List (Tick ι)}
    (hsame : ∀ tick ∈ ticks, tick.SameSecond host iface_handles)
    (hcalm : Calm host lookup iface_handles σ ticks)
    (hcalm' : Calm host lookup' iface_handles' σ ticks) :
    ∃ rs rs', reports host lookup iface_handles σ ticks = some rs ∧
      reports host lookup' iface_handles' σ ticks = some rs' ∧
      rs.map totals = rs'.map totals := by
  obtain ⟨σ₀, hrun₀, hok⟩ := run_ok host es
  obtain rfl : σ₀ = σ := Option.some_inj.1 (hrun₀.symm.trans hrun)
  have hadopted : Adopted σ₀ :=
    (always_adopted_iff host es).2 hdrops es [] σ₀ (List.append_nil es).symm hrun
  have hsound : σ₀.Sound := ⟨hok, hadopted⟩
  exact reports_agree host hperm hsound hsound (fun _ _ => rfl) hsame hcalm hcalm'

/-- No connection finds its program. -/
def noLookup : NAState → Capture → ProcessLookup := fun _ _ => ⟨none, none⟩

/-- 100 bytes of one flow wait on the first handle, stamped with the second `s`, and 50 bytes of
the same flow on the second handle, stamped with second 9; the refresh is in second 10. -/
def twoHandles (s : ℤ) : Tick Bool where
  batch first := [⟨⟨⟨if first then s else 9⟩, 60, if first then 100 else 50⟩,
    .ip ⟨1⟩ ⟨2⟩, 3, 4⟩]
  t := ⟨10⟩

theorem sameSecond_twoHandles : (twoHandles 9).SameSecond silentHost [true, false] := by
  intro handle _ other _ _ a ha b hb _ _
  have hsecond : ∀ first, ∀ c ∈ (twoHandles 9).batch first, c.header.ts.tv_sec = 9 := by decide
  rw [hsecond handle a ha, hsecond other b hb]

theorem calm_twoHandles (iface_handles : List Bool)
    (h : iface_handles = [true, false] ∨ iface_handles = [false, true]) :
    Calm silentHost noLookup iface_handles NAState.init [twoHandles 9] := by
  rcases h with rfl | rfl
  all_goals
    intro σ₁ hdrain
    cases hdrain
    refine ⟨?_, ?_, fun _ _ _ => trivial⟩
    · intro process hp hout
      obtain rfl := List.mem_singleton.1 hp
      exact absurd hout (by decide)
    · intro c hc conn hconn hle
      obtain rfl := List.mem_singleton.1 hc
      cases hconn
      exact absurd hle (by decide)

theorem drain_order_irrelevant_twoHandles :
    ∃ rs rs', reports silentHost noLookup [true, false] NAState.init [twoHandles 9] = some rs ∧
      reports silentHost noLookup [false, true] NAState.init [twoHandles 9] = some rs' ∧
      rs.map totals = rs'.map totals :=
  drain_order_irrelevant silentHost (List.Perm.swap false true []) rfl Runs.guarded_nil
    (fun tick h => by rw [List.mem_singleton.1 h]; exact sameSecond_twoHandles)
    (calm_twoHandles _ (.inl rfl)) (calm_twoHandles _ (.inr rfl))

/-- **The order of the handles can matter**: with the first handle in second 10, the newer packets
are behind the older ones in one order only, and a refresh in second 14 no longer sees them. -/
theorem drain_order_matters :
    (reports silentHost noLookup [true, false] NAState.init
        [twoHandles 10, ⟨fun _ => [], ⟨14⟩⟩]).map (List.map totals) =
      some [(0, 150), (0, 0)] ∧
    (reports silentHost noLookup [false, true] NAState.init
        [twoHandles 10, ⟨fun _ => [], ⟨14⟩⟩]).map (List.map totals) =
      some [(0, 150), (0, 100)] := by
  exact ⟨rfl, rfl⟩

end NetworkAnalyzer
