/-
What becomes of an orphan.

A connection that no process lists (`GnomeUsage/Ownership.lean`) is still found by the look-up of
its packets.  This module follows it to the end of any run: nothing ever frees it or lists it again,
so that it takes in all packets of its flow, and the reports are those of a run in which these
packets were never captured.

* `Orphaned` — listed in `connections`, and by no process;
* `stepReport` — a step with the report of a refresh;
* `Veiled` — states that differ in what an orphan has received only, with `veiled_push`,
  `veiled_swallow` and `veiled_refresh`;
* `orphan_silent` — **an orphan stays one, and the packets of its flow are in no report**.
-/

import GnomeUsage.Flows
import GnomeUsage.Ownership
import GnomeUsage.Unwinding

set_option relaxedAutoImplicit false
set_option autoImplicit false

namespace NetworkAnalyzer

/-- The connection at `c` is in the global list, and no process lists it. -/
def Orphaned (σ : NAState) (c : Ptr) : Prop :=
  c ∈ σ.store.connections ∧ c ∉ ownedBy σ.processes

/-! ### Stores that agree on some connections -/

section Congr

variable {store store' : ConnStore} {l : List Ptr}

theorem stalled_congr {c : Ptr} (h : store.cell c = store'.cell c) (t : Timeval) :
    store.stalled t c = store'.stalled t c := by
  unfold ConnStore.stalled ConnStore.lastTime
  rw [h]

theorem keep_congr (h : ∀ c ∈ l, store.cell c = store'.cell c) (t : Timeval) :
    store.keep t l = store'.keep t l := by
  refine List.filter_congr ?_
  intro c hc
  rw [stalled_congr (h c hc)]

theorem timedOut_congr {process : NAProcess}
    (h : ∀ c ∈ process.connections, store.cell c = store'.cell c) (t : Timeval) :
    store.timedOut t process = store'.timedOut t process := by
  have hlast : process.connections.map store.lastTime =
      process.connections.map store'.lastTime := by
    refine List.map_congr_left ?_
    intro c hc
    rw [ConnStore.lastTime, h c hc, ConnStore.lastTime]
  rw [ConnStore.timedOut, ConnStore.processTime, hlast, ConnStore.timedOut, ConnStore.processTime]

theorem report_congr {process : NAProcess}
    (h : ∀ c ∈ process.connections, store.cell c = store'.cell c) (t : Timeval) :
    store.report t process = store'.report t process := by
  have hamount : ∀ out, (store'.keep t process.connections).map (store.amount t out) =
      (store'.keep t process.connections).map (store'.amount t out) := by
    intro out
    refine List.map_congr_left ?_
    intro c hc
    rw [ConnStore.amount, h c (List.mem_of_mem_filter hc), ConnStore.amount]
  simp only [ConnStore.report, keep_congr h t, hamount]

/-- **A refresh reads the connections that are listed**, and no others. -/
theorem refresh_congr {processes : List NAProcess}
    (h : ∀ c ∈ ownedBy processes, store.cell c = store'.cell c) (t : Timeval) :
    store.survivors t processes = store'.survivors t processes ∧
      (store.survivors t processes).map (store.trim t) =
        (store'.survivors t processes).map (store'.trim t) ∧
      (store.survivors t processes).map (store.report t) =
        (store'.survivors t processes).map (store'.report t) := by
  have hown : ∀ process ∈ processes, ∀ c ∈ process.connections, store.cell c = store'.cell c :=
    fun process hp c hc => h c (mem_ownedBy.2 ⟨process, hp, hc⟩)
  have hsurvivors : store.survivors t processes = store'.survivors t processes := by
    refine List.filter_congr ?_
    intro process hp
    rw [timedOut_congr (hown process hp)]
  refine ⟨hsurvivors, ?_, ?_⟩
  · rw [hsurvivors]
    refine List.map_congr_left ?_
    intro process hp
    rw [ConnStore.trim, keep_congr (hown process (List.mem_of_mem_filter hp)), ConnStore.trim]
  · rw [hsurvivors]
    refine List.map_congr_left ?_
    intro process hp
    exact report_congr (hown process (List.mem_of_mem_filter hp)) t

end Congr

variable (host : Host)

/-! ### Steps with reports -/

/-- A step, with the report if it is a refresh. -/
def stepReport (σ : NAState) : Event → Option (NAState × Option (List NAProcInfo))
  | .push header address s_port d_port lookup =>
      (pushPacket host σ header address s_port d_port lookup).map fun σ => (σ, none)
  | .refresh t => (naProcessInfoGetAll σ t).map fun x => (x.1, some x.2)

theorem stepReport_step (σ : NAState) (e : Event) :
    (stepReport host σ e).map Prod.fst = step host σ e := by
  cases e with
  | push header address s_port d_port lookup =>
      rw [stepReport, Option.map_map, step]
      exact Option.map_id_apply
  | refresh t =>
      rw [stepReport, Option.map_map, step]
      rfl

/-- A step that is defined, with its report. -/
theorem stepReport_some {σ σ' : NAState} {e : Event} {report : Option (List NAProcInfo)}
    (h : stepReport host σ e = some (σ', report)) : step host σ e = some σ' := by
  rw [← stepReport_step, h]
  rfl

/-! ### States that differ in an orphan -/

/-- **The states differ in what the orphan at `c` has received**, and in nothing else; `ref` is its
reference packet in both. -/
structure Veiled (c : Ptr) (ref : NAPacket) (σ τ : NAState) : Prop where
  processes : σ.processes = τ.processes
  connections : σ.store.connections = τ.store.connections
  fresh : σ.store.fresh = τ.store.fresh
  cells : ∀ d, d ≠ c → σ.store.cell d = τ.store.cell d
  orphan : (σ.store.cell c).map NAConnection.refpacket = some ref
  orphan' : (τ.store.cell c).map NAConnection.refpacket = some ref
  orphaned : Orphaned σ c

variable {c : Ptr} {ref : NAPacket} {σ τ σ' : NAState}

theorem veiled_refl (horphan : Orphaned σ c)
    (href : (σ.store.cell c).map NAConnection.refpacket = some ref) : Veiled c ref σ σ where
  processes := rfl
  connections := rfl
  fresh := rfl
  cells := fun _ _ => rfl
  orphan := href
  orphan' := href
  orphaned := horphan

/-- The two states refer to connections by the same packets. -/
theorem Veiled.refpackets (h : Veiled c ref σ τ) (d : Ptr) :
    (σ.store.cell d).map NAConnection.refpacket = (τ.store.cell d).map NAConnection.refpacket := by
  by_cases hd : d = c
  · rw [hd, h.orphan, h.orphan']
  · rw [h.cells d hd]

/-- **The look-up of a packet finds the same connection in both.** -/
theorem Veiled.find_eq (h : Veiled c ref σ τ) (hσ : σ.Ok) (hτ : τ.Ok) {packet : NAPacket}
    (hp : packet.Built) :
    naConnectionFindFromPacket τ.store packet = naConnectionFindFromPacket σ.store packet := by
  have hcell : ∀ {d : Ptr} {conn : NAConnection}, τ.store.cell d = some conn →
      ∃ conn', σ.store.cell d = some conn' ∧ conn'.refpacket = conn.refpacket := by
    intro d conn hconn
    have href := h.refpackets d
    rw [hconn, Option.map_some] at href
    exact Option.map_eq_some_iff.1 href
  obtain ⟨r, hr⟩ := findFromPacket_defined hτ.store packet
  rw [hr]
  cases r with
  | some d =>
      obtain ⟨hd, conn, hconn, hkey⟩ := findFromPacket_some hτ.store hp hr
      obtain ⟨conn', hconn', href⟩ := hcell hconn
      exact (findFromPacket_of_flowKey hσ.store hp (h.connections ▸ hd) hconn'
        (hkey.trans (href ▸ rfl))).symm
  | none =>
      obtain ⟨r', hr'⟩ := findFromPacket_defined hσ.store packet
      cases r' with
      | none => exact hr'.symm
      | some d =>
          obtain ⟨hd, conn, hconn, hkey⟩ := findFromPacket_some hσ.store hp hr'
          have href := h.refpackets d
          rw [hconn, Option.map_some] at href
          obtain ⟨conn', hconn', heq⟩ := Option.map_eq_some_iff.1 href.symm
          exact absurd (hkey.trans (heq ▸ rfl))
            (findFromPacket_none hτ.store hp hr d (h.connections ▸ hd) conn' hconn')

/-- The look-up of a packet finds the orphan exactly when the packet has its flow key. -/
theorem Veiled.find_iff (h : Veiled c ref σ τ) (hσ : σ.Ok) {packet : NAPacket}
    (hp : packet.Built) :
    naConnectionFindFromPacket σ.store packet = some (some c) ↔ flowKey packet = flowKey ref := by
  obtain ⟨conn, hconn, rfl⟩ := Option.map_eq_some_iff.1 h.orphan
  constructor
  · intro hfind
    obtain ⟨_, conn', hconn', hkey⟩ := findFromPacket_some hσ.store hp hfind
    cases hconn.symm.trans hconn'
    exact hkey
  · exact findFromPacket_of_flowKey hσ.store hp h.orphaned.1 hconn

/-- **A packet for another connection** does the same to both states. -/
theorem veiled_push (h : Veiled c ref σ τ) (hσ : σ.Ok) (hτ : τ.Ok) {packet : NAPacket}
    (hp : packet.Built) {lookup : ProcessLookup}
    (hother : naConnectionFindFromPacket σ.store packet ≠ some (some c))
    (hrun : pushNAPacket host σ packet lookup = some σ') :
    ∃ τ', pushNAPacket host τ packet lookup = some τ' ∧ Veiled c ref σ' τ' := by
  obtain ⟨τ', hτ', _⟩ := pushNAPacket_spec host hτ hp lookup
  refine ⟨τ', hτ', ?_⟩
  have hfind := h.find_eq hσ hτ hp
  have hlt := hσ.store.lt_fresh c h.orphaned.1
  cases pushNAPacket_step host hσ hp hrun with
  | @found d old hd _ hold _ heq =>
      have hdc : d ≠ c := by
        rintro rfl
        exact hother hd
      cases pushNAPacket_step host hτ hp hτ' with
      | @found d' old' hd' _ hold' _ heq' =>
          rw [hfind, hd] at hd'
          cases hd'
          have hsame : old = old' := by
            rw [h.cells d hdc, hold'] at hold
            exact (Option.some_inj.1 hold).symm
          subst heq heq' hsame
          refine ⟨h.processes, h.connections, h.fresh, ?_, ?_, ?_, h.orphaned⟩
          · intro x hx
            by_cases hxd : x = d
            · subst hxd
              rw [cell_write_self, cell_write_self]
            · rw [cell_write_of_ne hxd, cell_write_of_ne hxd]
              exact h.cells x hx
          · rw [cell_write_of_ne hdc.symm]
            exact h.orphan
          · rw [cell_write_of_ne hdc.symm]
            exact h.orphan'
      | opened hnone _ _ =>
          rw [hfind, hd] at hnone
          cases hnone
  | opened hnone _ heq =>
      cases pushNAPacket_step host hτ hp hτ' with
      | found hd' _ _ _ _ =>
          rw [hfind, hnone] at hd'
          cases hd'
      | opened _ _ heq' =>
          subst heq heq'
          have hcf : c ≠ σ.store.fresh := hlt.ne
          refine ⟨?_, ?_, ?_, ?_, ?_, ?_, ?_, ?_⟩
          · simp only [h.processes, h.fresh]
          · exact congrArg₂ (· ++ [·]) h.connections h.fresh
          · exact congrArg (· + 1) h.fresh
          · intro x hx
            by_cases hxf : x = σ.store.fresh
            · rw [hxf, cell_opened_self, h.fresh, cell_opened_self]
            · rw [cell_opened_of_ne host hxf, cell_opened_of_ne host (h.fresh ▸ hxf)]
              exact h.cells x hx
          · rw [cell_opened_of_ne host hcf]
            exact h.orphan
          · rw [cell_opened_of_ne host (h.fresh ▸ hcf)]
            exact h.orphan'
          · exact List.mem_append_left _ h.orphaned.1
          · intro hmem
            rcases List.mem_cons.1 ((ownedBy_attach _ _ _ _).mem_iff.1 hmem) with hc | hc
            · exact hcf hc
            · exact h.orphaned.2 hc

/-- **A packet for the orphan** changes the orphan only. -/
theorem veiled_swallow (h : Veiled c ref σ τ) (hσ : σ.Ok) {packet : NAPacket} (hp : packet.Built)
    {lookup : ProcessLookup} (hfind : naConnectionFindFromPacket σ.store packet = some (some c))
    (hrun : pushNAPacket host σ packet lookup = some σ') : Veiled c ref σ' τ := by
  cases pushNAPacket_step host hσ hp hrun with
  | @found d conn hd _ hconn _ heq =>
      cases hd.symm.trans hfind
      subst heq
      refine ⟨h.processes, h.connections, h.fresh, ?_, ?_, h.orphan', h.orphaned⟩
      · intro x hx
        rw [cell_write_of_ne hx]
        exact h.cells x hx
      · have href := h.orphan
        rw [hconn, Option.map_some] at href
        rw [cell_write_self, Option.map_some, refpacket_add]
        exact href
  | opened hnone _ _ =>
      rw [hfind] at hnone
      cases hnone

/-- **A refresh reports the same in both states.** -/
theorem veiled_refresh (h : Veiled c ref σ τ) (hσ : σ.Ok) (hτ : τ.Ok) {t : Timeval}
    {proc_info : List NAProcInfo} (hrun : naProcessInfoGetAll σ t = some (σ', proc_info)) :
    ∃ τ', naProcessInfoGetAll τ t = some (τ', proc_info) ∧ Veiled c ref σ' τ' := by
  rw [naProcessInfoGetAll_eq hσ] at hrun
  rw [naProcessInfoGetAll_eq hτ, ← h.processes]
  have hcells : ∀ d ∈ ownedBy σ.processes, σ.store.cell d = τ.store.cell d := by
    intro d hd
    refine h.cells d ?_
    rintro rfl
    exact h.orphaned.2 hd
  obtain ⟨hsurvivors, htrim, hreport⟩ := refresh_congr hcells t
  rw [← hsurvivors] at htrim hreport
  rw [← hsurvivors, ← htrim, ← hreport]
  cases hrun
  have hlisted : ∀ d ∈ ownedBy (σ.store.survivors t σ.processes), d ∈ ownedBy σ.processes :=
    fun d hd => ownedBy_survivors_subset hd
  have hunlisted : c ∉ ownedBy (σ.store.survivors t σ.processes) :=
    fun hc => h.orphaned.2 (hlisted c hc)
  refine ⟨_, rfl, rfl, ?_, h.fresh, ?_, ?_, ?_, ?_, ?_⟩
  · rw [connections_sweep, connections_sweep, h.connections]
    refine List.filter_congr ?_
    intro d _
    by_cases hd : d ∈ ownedBy (σ.store.survivors t σ.processes)
    · rw [stalled_congr (hcells d (hlisted d hd))]
    · simp [hd]
  · intro d hdc
    rw [cell_sweep, cell_sweep, h.cells d hdc, stalled_congr (h.cells d hdc)]
  · rw [cell_sweep_of_not_mem hunlisted]
    exact h.orphan
  · rw [cell_sweep_of_not_mem hunlisted]
    exact h.orphan'
  · exact mem_connections_sweep.2 ⟨h.orphaned.1, fun hand => hunlisted hand.1⟩
  · rw [ownedBy_map_trim]
    intro hc
    exact hunlisted (mem_keep.1 hc).1

/-! ### Runs -/

/-- The event is a packet of the flow key. -/
def Event.ofKey (key : Sym2 Endpoint) (e : Event) : Bool :=
  e.packet.any fun packet => flowKey packet = key

theorem stepReport_ok {report : Option (List NAProcInfo)} {e : Event} (h : σ.Ok)
    (hstep : stepReport host σ e = some (σ', report)) : σ'.Ok := by
  obtain ⟨s, hs, hok⟩ := step_ok host h e
  rwa [Option.some_inj.1 (hs.symm.trans (stepReport_some host hstep))] at hok

/-- **A step of which both runs see the event** reports the same in both. -/
theorem veiled_step (h : Veiled c ref σ τ) (hσ : σ.Ok) (hτ : τ.Ok) {e : Event}
    (hkey : e.ofKey (flowKey ref) = false) {report : Option (List NAProcInfo)}
    (hstep : stepReport host σ e = some (σ', report)) :
    ∃ τ', stepReport host τ e = some (τ', report) ∧ Veiled c ref σ' τ' := by
  cases e with
  | push header address s_port d_port lookup =>
      have hp := (pushed_packetOf header address s_port d_port).built
      obtain ⟨s, hs, heq⟩ := Option.map_eq_some_iff.1 hstep
      cases heq
      have hother : naConnectionFindFromPacket σ.store (packetOf header address s_port d_port) ≠
          some (some c) := by
        intro hfind
        have heq := (h.find_iff hσ hp).1 hfind
        simp [Event.ofKey, Event.packet, heq] at hkey
      obtain ⟨τ', hτ', hveiled⟩ := veiled_push host h hσ hτ hp hother hs
      exact ⟨τ', by rw [stepReport, pushPacket, hτ', Option.map_some], hveiled⟩
  | refresh t =>
      obtain ⟨⟨s, proc_info⟩, hs, heq⟩ := Option.map_eq_some_iff.1 hstep
      cases heq
      obtain ⟨τ', hτ', hveiled⟩ := veiled_refresh h hσ hτ hs
      exact ⟨τ', by rw [stepReport, hτ', Option.map_some], hveiled⟩

/-- **A step whose event is a packet for the orphan** reports nothing. -/
theorem veiled_hidden (h : Veiled c ref σ τ) (hσ : σ.Ok) {e : Event}
    (hkey : e.ofKey (flowKey ref) = true) {report : Option (List NAProcInfo)}
    (hstep : stepReport host σ e = some (σ', report)) : report = none ∧ Veiled c ref σ' τ := by
  cases e with
  | push header address s_port d_port lookup =>
      have hp := (pushed_packetOf header address s_port d_port).built
      obtain ⟨s, hs, heq⟩ := Option.map_eq_some_iff.1 hstep
      cases heq
      have hflow : flowKey (packetOf header address s_port d_port) = flowKey ref := by
        simpa [Event.ofKey, Event.packet] using hkey
      exact ⟨rfl, veiled_swallow host h hσ hp ((h.find_iff hσ hp).2 hflow) hs⟩
  | refresh t => simp [Event.ofKey, Event.packet] at hkey

/-- **An orphan is for ever, and silent.**  From any reachable state in which a connection is
orphaned, whatever happens next, the connection stays in the list and stays an orphan, and the
reports are those of the run without the packets of its flow key. -/
theorem orphan_silent {pre : List Event} {σ : NAState}
    (hrun : Runs.run (step host) NAState.init pre = some σ) {c : Ptr} (horphan : Orphaned σ c)
    {conn : NAConnection} (hconn : σ.store.cell c = some conn) (es : List Event) :
    ∃ σ' τ' reports, Runs.collect (stepReport host) σ es = some (σ', reports) ∧
      Runs.collect (stepReport host) σ
          (es.filter fun e => !e.ofKey (flowKey conn.refpacket)) = some (τ', reports) ∧
      Orphaned σ' c ∧ ∃ conn', σ'.store.cell c = some conn' ∧
        conn'.refpacket = conn.refpacket := by
  have hok : σ.Ok := by
    obtain ⟨s, hs, hok⟩ := run_ok host pre
    rwa [Option.some_inj.1 (hs.symm.trans hrun)] at hok
  -- the run is defined
  obtain ⟨σ', hσ', _⟩ := Runs.run_total (fun s e hs => step_ok host hs e) hok es
  have hsteps : (fun s e => (stepReport host s e).map Prod.fst) = step host := by
    funext s e
    exact stepReport_step host s e
  obtain ⟨reports, hcollect⟩ := Runs.exists_collect (hsteps ▸ hσ')
  have hunwind := @Runs.collect_unwind NAState Event (List NAProcInfo) NAState Event
    (List NAProcInfo) (stepReport host) (stepReport host)
    (fun s t => s.Ok ∧ t.Ok ∧ Veiled c conn.refpacket s t)
    (Option.guard fun e => !e.ofKey (flowKey conn.refpacket)) id ?_ ?_ σ σ' σ es reports
    ⟨hok, hok, veiled_refl horphan (by rw [hconn, Option.map_some])⟩ hcollect
  · obtain ⟨τ', hτ', _, _, hveiled⟩ := hunwind
    rw [List.map_id, List.filterMap_eq_filter] at hτ'
    obtain ⟨conn', hconn', href⟩ := Option.map_eq_some_iff.1 hveiled.orphan
    exact ⟨σ', τ', reports, hcollect, hτ', hveiled.orphaned, conn', hconn', href⟩
  · rintro s t e e' s' report ⟨hs, ht, hveiled⟩ hguard hstep
    obtain ⟨rfl, hkey⟩ := Option.guard_eq_some_iff.1 hguard
    obtain ⟨t', ht', hveiled'⟩ := veiled_step host hveiled hs ht (by simpa using hkey) hstep
    rw [Option.map_id]
    exact ⟨t', ht', stepReport_ok host hs hstep, stepReport_ok host ht ht', hveiled'⟩
  · rintro s t e s' report ⟨hs, ht, hveiled⟩ hguard hstep
    have hkey : e.ofKey (flowKey conn.refpacket) = true := by simpa [Option.guard] using hguard
    obtain ⟨hnone, hveiled'⟩ := veiled_hidden host hveiled hs hkey hstep
    exact ⟨hnone, stepReport_ok host hs hstep, ht, hveiled'⟩

/-- After the suspend of `suspendRun`, the rest of the flow is in no report. -/
theorem orphan_silent_suspend :
    ∃ σ σ' τ' reports, Runs.run (step silentHost) NAState.init suspendRun = some σ ∧
      Runs.collect (stepReport silentHost) σ
          [.push ⟨⟨151⟩, 60, 60⟩ (.ip ⟨1⟩ ⟨2⟩) 3 4 ⟨none, none⟩, .refresh ⟨152⟩] =
        some (σ', reports) ∧
      Runs.collect (stepReport silentHost) σ [.refresh ⟨152⟩] = some (τ', reports) := by
  have hrun : Runs.run (step silentHost) NAState.init suspendRun = some _ := rfl
  obtain ⟨σ', τ', reports, hcollect, hwithout, _⟩ := orphan_silent silentHost hrun
    (c := 0) ⟨by decide, by decide⟩ rfl
    [.push ⟨⟨151⟩, 60, 60⟩ (.ip ⟨1⟩ ⟨2⟩) 3 4 ⟨none, none⟩, .refresh ⟨152⟩]
  exact ⟨_, σ', τ', reports, hrun, hcollect, hwithout⟩

end NetworkAnalyzer
