/-
The main loop of the analyzer (`na-application.c`).

A tick of the main loop drains the capture handles, one after the other, and then refreshes the
processes and reports what they received and sent.  What a handle has captured since the last
tick is given with the tick, and so is the result of the process look-up of a new connection,
which may depend on everything.

* `naPcapDispatch`, `drain` — draining one handle, and all of them;
* `doRefresh` — the refresh: no signal is emitted when there is nothing to report;
* `mainLoopCb`, `reports` — a tick, and the reports of a run of ticks;
* `drain_spec`, `doRefresh_spec` — what they do to the flow table;
* `QuietTick`, `mainLoopCb_spec` — **no tick gets stuck**, and when it emits no signal.
-/

import GnomeUsage.Ownership

set_option relaxedAutoImplicit false
set_option autoImplicit false

namespace NetworkAnalyzer

variable (host : Host) (lookup : NAState → Capture → ProcessLookup)

/-- `na_pcap_dispatch` on a handle whose pending captures are given. -/
def naPcapDispatch : NAState → List Capture → Option NAState
  | σ, [] => some σ
  | σ, a :: captures => do
      let σ ← pushPacket host σ a.header a.address a.s_port a.d_port (lookup σ a)
      naPcapDispatch σ captures

/-- What happens at one tick: the pending captures of every handle, and the time of the
refresh. -/
structure Tick (ι : Type*) where
  batch : ι → List Capture
  t : Timeval

variable {ι : Type*}

/-- The loop of `main_loop_cb` over `iface_handles`. -/
def drain (batch : ι → List Capture) : List ι → NAState → Option NAState
  | [], σ => some σ
  | handle :: iter, σ => do
      let σ ← naPcapDispatch host lookup σ (batch handle)
      drain batch iter σ

/-- `do_refresh`: the state, and the processes of the signal `UsageChanged` if it is emitted. -/
def doRefresh (σ : NAState) (t : Timeval) : Option (NAState × Option (List NAProcInfo)) := do
  let (σ, proc_info) ← naProcessInfoGetAll σ t
  if proc_info = [] then some (σ, none) else some (σ, some proc_info)

/-- `main_loop_cb`. -/
def mainLoopCb (iface_handles : List ι) (σ : NAState) (tick : Tick ι) :
    Option (NAState × Option (List NAProcInfo)) := do
  let σ ← drain host lookup tick.batch iface_handles σ
  doRefresh σ tick.t

/-- The reports of a run of ticks. -/
def reports (iface_handles : List ι) :
    NAState → List (Tick ι) → Option (List (Option (List NAProcInfo)))
  | _, [] => some []
  | σ, tick :: ticks => do
      let (σ, report) ← mainLoopCb host lookup iface_handles σ tick
      let rest ← reports iface_handles σ ticks
      some (report :: rest)

/-- The totals sent and received of a report; without a signal nothing is reported. -/
def totals (report : Option (List NAProcInfo)) : BitVec 32 × BitVec 32 :=
  (((report.getD []).map NAProcInfo.sent).sum, ((report.getD []).map NAProcInfo.recv).sum)

/-! ### What a tick does to the flow table -/

/-- The arrival a capture stands for. -/
def captureArrival (a : Capture) : FlowTable.Arrival (Sym2 Endpoint) ℤ (BitVec 32) :=
  packetArrival host (packetOf a.header a.address a.s_port a.d_port)

/-- A well-formed state without orphans. -/
structure NAState.Sound (σ : NAState) : Prop where
  ok : σ.Ok
  adopted : Adopted σ

/-- Draining one handle pushes its block of arrivals. -/
theorem naPcapDispatch_spec {σ : NAState} (h : σ.Ok) (captures : List Capture) :
    ∃ σ', naPcapDispatch host lookup σ captures = some σ' ∧ σ'.Ok ∧
      (Adopted σ → Adopted σ') ∧
      σ'.store.flows = FlowTable.pushAll (captures.map (captureArrival host)) σ.store.flows := by
  induction captures generalizing σ with
  | nil => exact ⟨σ, rfl, h, id, rfl⟩
  | cons a captures ih =>
      have hp := (pushed_packetOf a.header a.address a.s_port a.d_port).built
      obtain ⟨σ₁, hpush, hok, hflows, _⟩ := pushNAPacket_spec host h hp (lookup σ a)
      obtain ⟨σ', hrun, hok', hadopted, hrest⟩ := ih hok
      refine ⟨σ', ?_, hok', fun ha => hadopted (adopted_push host h ha hp hpush), ?_⟩
      · rw [naPcapDispatch, pushPacket, hpush]
        exact hrun
      · rw [hrest, hflows, List.map_cons, FlowTable.pushAll_cons]
        rfl

/-- **Draining the handles** pushes their blocks of arrivals, in the order of the handles. -/
theorem drain_spec {σ : NAState} (h : σ.Ok) (batch : ι → List Capture) (handles : List ι) :
    ∃ σ', drain host lookup batch handles σ = some σ' ∧ σ'.Ok ∧ (Adopted σ → Adopted σ') ∧
      σ'.store.flows =
        FlowTable.pushAll (handles.flatMap fun handle => (batch handle).map (captureArrival host))
          σ.store.flows := by
  induction handles generalizing σ with
  | nil => exact ⟨σ, rfl, h, id, rfl⟩
  | cons handle handles ih =>
      obtain ⟨σ₁, hdispatch, hok, hadopted, hflows⟩ :=
        naPcapDispatch_spec host lookup h (batch handle)
      obtain ⟨σ', hrun, hok', hadopted', hrest⟩ := ih hok
      refine ⟨σ', ?_, hok', fun ha => hadopted' (hadopted ha), ?_⟩
      · rw [drain, hdispatch]
        exact hrun
      · rw [hrest, hflows, List.flatMap_cons, FlowTable.pushAll_append]

/-- No process of the state has had a packet in the last fifty seconds. -/
def NAState.Quiet (σ : NAState) (t : Timeval) : Prop :=
  ∀ process ∈ σ.processes, σ.store.timedOut t process = true

/-- **A quiet tick**: so it is after the handles have been drained. -/
def QuietTick (iface_handles : List ι) (σ : NAState) (tick : Tick ι) : Prop :=
  ∀ σ', drain host lookup tick.batch iface_handles σ = some σ' → σ'.Quiet tick.t

instance (σ : NAState) (t : Timeval) : Decidable (σ.Quiet t) :=
  inferInstanceAs (Decidable (∀ process ∈ σ.processes, σ.store.timedOut t process = true))

instance (iface_handles : List ι) (σ : NAState) (tick : Tick ι) :
    Decidable (QuietTick host lookup iface_handles σ tick) :=
  inferInstanceAs (Decidable
    (∀ σ' ∈ drain host lookup tick.batch iface_handles σ, σ'.Quiet tick.t))

/-- **A tick is defined** in every well-formed state, and leads to one; no signal is emitted
exactly when it is quiet. -/
theorem mainLoopCb_spec {σ : NAState} (h : σ.Ok) (iface_handles : List ι) (tick : Tick ι) :
    ∃ σ' report, mainLoopCb host lookup iface_handles σ tick = some (σ', report) ∧ σ'.Ok ∧
      (report = none ↔ QuietTick host lookup iface_handles σ tick) := by
  obtain ⟨σ₁, hdrain, hok, _⟩ := drain_spec host lookup h tick.batch iface_handles
  have hrefresh := naProcessInfoGetAll_eq hok tick.t
  have hok' := naProcessInfoGetAll_ok hok hrefresh
  have hquiet : QuietTick host lookup iface_handles σ tick ↔
      σ₁.store.survivors tick.t σ₁.processes = [] := by
    simp [QuietTick, hdrain, NAState.Quiet, ConnStore.survivors, List.filter_eq_nil_iff]
  cases hsurvivors : σ₁.store.survivors tick.t σ₁.processes with
  | nil =>
      rw [hsurvivors] at hrefresh hok' hquiet
      refine ⟨_, none, ?_, hok', iff_of_true rfl (hquiet.2 rfl)⟩
      simp [mainLoopCb, hdrain, doRefresh, hrefresh]
  | cons process processes =>
      rw [hsurvivors] at hrefresh hok' hquiet
      refine ⟨_, some ((process :: processes).map (σ₁.store.report tick.t)), ?_, hok',
        iff_of_false (Option.some_ne_none _) ?_⟩
      · simp [mainLoopCb, hdrain, doRefresh, hrefresh]
      · intro hq
        exact absurd (hquiet.1 hq) (List.cons_ne_nil _ _)

theorem mainLoopCb_some {σ σ' : NAState} (h : σ.Ok) {iface_handles : List ι} {tick : Tick ι}
    {report : Option (List NAProcInfo)}
    (hloop : mainLoopCb host lookup iface_handles σ tick = some (σ', report)) :
    σ'.Ok ∧ (report = none ↔ QuietTick host lookup iface_handles σ tick) := by
  obtain ⟨σ'', report', hloop', hspec⟩ := mainLoopCb_spec host lookup h iface_handles tick
  cases hloop.symm.trans hloop'
  exact hspec

/-- **A refresh that loses nothing** sweeps the flow table and reports its totals. -/
theorem doRefresh_spec {σ : NAState} (h : σ.Sound) {t : Timeval} (hno : NoLoss σ t) :
    ∃ σ' report, doRefresh σ t = some (σ', report) ∧ σ'.Sound ∧
      σ'.store.flows = FlowTable.sweep (stalledAt t) (t.tv_sec - PERIOD) σ.store.flows ∧
      totals report =
        (FlowTable.report true σ'.store.flows, FlowTable.report false σ'.store.flows) := by
  obtain ⟨σ', proc_info, hrefresh⟩ := naProcessInfoGetAll_defined h.ok t
  have hsound : σ'.Sound :=
    ⟨naProcessInfoGetAll_ok h.ok hrefresh, (adopted_refresh_iff h.ok h.adopted hrefresh).2 hno⟩
  have hflows := flows_refresh h.ok h.adopted hno hrefresh
  obtain ⟨hsent, hrecv⟩ := report_refresh h.ok h.adopted hno hrefresh
  by_cases hnil : proc_info = []
  · refine ⟨σ', none, ?_, hsound, hflows, ?_⟩
    · simp [doRefresh, hrefresh, hnil]
    · rw [← hsent, ← hrecv, hnil]
      rfl
  · refine ⟨σ', some proc_info, ?_, hsound, hflows, ?_⟩
    · simp [doRefresh, hrefresh, hnil]
    · rw [← hsent, ← hrecv]
      rfl

end NetworkAnalyzer
