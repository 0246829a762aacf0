/-
Who owns the connections.

A connection is freed only through the process that lists it, so a connection in the global list
that no process lists is kept, and added to, for ever, and shows in no report.
`na_process_free` frees a process without looking at its connections.  This module says exactly
when that leaves a connection behind.

* `NetworkAnalyzer.Adopted` — every connection of the global list is listed by exactly one
  process;
* `NetworkAnalyzer.DropsNone` — a refresh drops no process that still lists a connection;
* `adopted_step_iff` — **a step keeps every connection adopted exactly when it drops none**;
* `flows_refresh`, `report_refresh` — when it does, a refresh is a sweep of the flow table, and
  the totals of its report are those of the table.
-/

import GnomeUsage.Push

set_option relaxedAutoImplicit false
set_option autoImplicit false

namespace NetworkAnalyzer

/-- The connection at `c` is listed by exactly one process. -/
def OwnedOnce (σ : NAState) (c : Ptr) : Prop :=
  ∃! i : ℕ, ∃ process, σ.processes[i]? = some process ∧ c ∈ process.connections

/-- **No orphans**: every connection of the global list is listed by exactly one process. -/
def Adopted (σ : NAState) : Prop := ∀ c ∈ σ.store.connections, OwnedOnce σ c

/-- No process that times out at `t` lists a connection. -/
def NoLoss (σ : NAState) (t : Timeval) : Prop :=
  ∀ process ∈ σ.processes, σ.store.timedOut t process = true → process.connections = []

/-- **The guard**: a refresh drops no process that still lists a connection. -/
def DropsNone (σ : NAState) : Event → Prop
  | .push .. => True
  | .refresh t => NoLoss σ t

/-! ### Being listed once -/

/-- In lists without a common element, an element is in at most one of them. -/
theorem index_unique_of_nodup {processes : List NAProcess} (h : (ownedBy processes).Nodup)
    {c : Ptr} {i j : ℕ} {p q : NAProcess} (hi : processes[i]? = some p) (hc : c ∈ p.connections)
    (hj : processes[j]? = some q) (hc' : c ∈ q.connections) : i = j := by
  induction processes generalizing i j with
  | nil => simp at hi
  | cons process processes ih =>
      obtain ⟨_, htail, hdisj⟩ := List.nodup_append'.1 h
      have hmem : ∀ {k : ℕ} {r : NAProcess}, processes[k]? = some r → c ∈ r.connections →
          c ∈ ownedBy processes :=
        fun hk hr => mem_ownedBy.2 ⟨_, List.mem_of_getElem? hk, hr⟩
      cases i with
      | zero =>
          cases j with
          | zero => rfl
          | succ j =>
              obtain rfl : process = p := by simpa using hi
              exact absurd (hmem (by simpa using hj) hc') (hdisj hc)
      | succ i =>
          cases j with
          | zero =>
              obtain rfl : process = q := by simpa using hj
              exact absurd (hmem (by simpa using hi) hc) (hdisj hc')
          | succ j =>
              congr 1
              exact ih htail (by simpa using hi) (by simpa using hj)

theorem ownedOnce_iff {σ : NAState} (h : σ.Ok) {c : Ptr} :
    OwnedOnce σ c ↔ c ∈ ownedBy σ.processes := by
  constructor
  · rintro ⟨i, ⟨process, hi, hc⟩, _⟩
    exact mem_ownedBy.2 ⟨process, List.mem_of_getElem? hi, hc⟩
  · intro hc
    obtain ⟨process, hp, hc⟩ := mem_ownedBy.1 hc
    obtain ⟨i, hi⟩ := List.mem_iff_getElem?.1 hp
    refine ⟨i, ⟨process, hi, hc⟩, ?_⟩
    rintro j ⟨q, hj, hcq⟩
    exact index_unique_of_nodup h.owned_nodup hj hcq hi hc

theorem adopted_iff {σ : NAState} (h : σ.Ok) :
    Adopted σ ↔ ∀ c ∈ σ.store.connections, c ∈ ownedBy σ.processes := by
  simp only [Adopted, ownedOnce_iff h]

theorem adopted_init : Adopted NAState.init := by
  intro c hc
  simp [NAState.init, ConnStore.empty] at hc

/-! ### What the survivors list -/

/-- A connection of a process that times out is listed by no survivor. -/
theorem not_mem_survivors {store : ConnStore} {t : Timeval} {processes : List NAProcess}
    (h : (ownedBy processes).Nodup) {process : NAProcess} (hp : process ∈ processes)
    (hout : store.timedOut t process = true) {c : Ptr} (hc : c ∈ process.connections) :
    c ∉ ownedBy (store.survivors t processes) := by
  intro hmem
  obtain ⟨q, hq, hcq⟩ := mem_ownedBy.1 hmem
  obtain ⟨hq, hsurv⟩ := List.mem_filter.1 hq
  obtain ⟨i, hi⟩ := List.mem_iff_getElem?.1 hp
  obtain ⟨j, hj⟩ := List.mem_iff_getElem?.1 hq
  obtain rfl := index_unique_of_nodup h hi hc hj hcq
  obtain rfl : process = q := Option.some_inj.1 (hi.symm.trans hj)
  simp [hout] at hsurv

/-- When nothing is lost, the survivors list all that was listed. -/
theorem mem_survivors {σ : NAState} {t : Timeval} (h : NoLoss σ t) {c : Ptr}
    (hc : c ∈ ownedBy σ.processes) : c ∈ ownedBy (σ.store.survivors t σ.processes) := by
  obtain ⟨process, hp, hcp⟩ := mem_ownedBy.1 hc
  refine mem_ownedBy.2 ⟨process, List.mem_filter.2 ⟨hp, ?_⟩, hcp⟩
  cases hout : σ.store.timedOut t process with
  | true =>
      rw [h process hp hout] at hcp
      simp at hcp
  | false => rfl

theorem mem_keep {store : ConnStore} {t : Timeval} {l : List Ptr} {c : Ptr} :
    c ∈ store.keep t l ↔ c ∈ l ∧ ¬ store.stalled t c = true := by
  simp [ConnStore.keep]

theorem nodup_keep {store : ConnStore} {t : Timeval} {l : List Ptr} (h : l.Nodup) :
    (store.keep t l).Nodup := h.filter _

/-! ### The exact condition -/

variable (host : Host)

/-- **A refresh keeps every connection adopted exactly when it loses none.** -/
theorem adopted_refresh_iff {σ σ' : NAState} (h : σ.Ok) (ha : Adopted σ) {t : Timeval}
    {proc_info : List NAProcInfo} (hrun : naProcessInfoGetAll σ t = some (σ', proc_info)) :
    Adopted σ' ↔ NoLoss σ t := by
  have hok' := naProcessInfoGetAll_ok h hrun
  rw [naProcessInfoGetAll_eq h] at hrun
  cases hrun
  rw [adopted_iff hok']
  rw [adopted_iff h] at ha
  simp only [mem_connections_sweep, ownedBy_map_trim, mem_keep]
  constructor
  · intro hall process hp hout
    by_contra hne
    obtain ⟨c, hc⟩ := List.exists_mem_of_ne_nil _ hne
    have hnot := not_mem_survivors h.owned_nodup hp hout hc
    have hmem := h.owned c (mem_ownedBy.2 ⟨process, hp, hc⟩)
    exact hnot (hall c ⟨hmem, fun hand => hnot hand.1⟩).1
  · rintro hno c ⟨hc, hst⟩
    have hsurv := mem_survivors hno (ha c hc)
    exact ⟨hsurv, fun hstalled => hst ⟨hsurv, hstalled⟩⟩

theorem adopted_push {σ σ' : NAState} (h : σ.Ok) (ha : Adopted σ) {packet : NAPacket}
    (hp : packet.Built) {lookup : ProcessLookup}
    (hrun : pushNAPacket host σ packet lookup = some σ') : Adopted σ' := by
  obtain ⟨s, hs, hok, _, hcases⟩ := pushNAPacket_spec host h hp lookup
  obtain rfl : s = σ' := Option.some_inj.1 (hs.symm.trans hrun)
  rw [adopted_iff h] at ha
  rw [adopted_iff hok]
  rcases hcases with ⟨hconns, hprocs⟩ | ⟨hconns, howned⟩
  · rw [hconns, hprocs]
    exact ha
  · intro c hc
    rw [hconns] at hc
    rw [howned.mem_iff]
    rcases List.mem_append.1 hc with hc | hc
    · exact List.mem_cons_of_mem _ (ha c hc)
    · obtain rfl := List.mem_singleton.1 hc
      exact List.mem_cons_self

/-- **A step keeps every connection adopted exactly when it drops none.** -/
theorem adopted_step_iff {σ σ' : NAState} (h : σ.Ok) (ha : Adopted σ) {e : Event}
    (hrun : step host σ e = some σ') : Adopted σ' ↔ DropsNone σ e := by
  cases e with
  | push header address s_port d_port lookup =>
      have hp := (pushed_packetOf header address s_port d_port).built
      exact ⟨fun _ => trivial, fun _ => adopted_push host h ha hp hrun⟩
  | refresh t =>
      obtain ⟨⟨s, proc_info⟩, hs, rfl⟩ := Option.map_eq_some_iff.1 hrun
      exact adopted_refresh_iff h ha hs

/-- **Orphans appear exactly when a refresh drops a process that still lists a connection**: the
connections are all adopted, in every state of a run, if and only if no refresh of the run drops
one. -/
theorem always_adopted_iff (es : List Event) :
    Runs.Always (step host) Adopted NAState.init es ↔
      Runs.Guarded (step host) DropsNone NAState.init es :=
  Runs.run_inv_iff (fun _ e h => step_ok host h e)
    (fun _ _ _ h ha hrun => adopted_step_iff host h ha hrun) ok_init adopted_init es

/-- One packet at second 100, then nothing until a refresh at second 150, as after a suspend. -/
def suspendRun : List Event :=
  [.push ⟨⟨100⟩, 60, 60⟩ (.ip ⟨1⟩ ⟨2⟩) 3 4 ⟨none, none⟩, .refresh ⟨150⟩]

/-- **A connection orphaned by a suspend**: its process is dropped at second 150, and no process
lists it any more. -/
theorem suspend_orphans : ¬ Runs.Always (step silentHost) Adopted NAState.init suspendRun := by
  intro h
  obtain ⟨i, ⟨process, hi, _⟩, _⟩ := h suspendRun [] _ (List.append_nil _).symm rfl 0 (by decide)
  simp at hi

/-! ### A refresh that loses nothing is a sweep of the flow table -/

/-- The test of a refresh at `t` on the last packet time of a connection. -/
def stalledAt (t : Timeval) (last : ℤ) : Bool := last ≤ t.tv_sec - CONNTIMEOUT

theorem stalledAt_iff {t : Timeval} {last : ℤ} :
    stalledAt t last = true ↔ last ≤ t.tv_sec - CONNTIMEOUT := decide_eq_true_iff

theorem stalled_of_cell {store : ConnStore} {t : Timeval} {c : Ptr} {conn : NAConnection}
    (h : store.cell c = some conn) :
    store.stalled t c = stalledAt t (connEntry conn).last := by
  unfold ConnStore.stalled stalledAt
  rw [lastTime_of_cell h]
  rfl

theorem flowsOf_sweep {store : ConnStore} {t : Timeval} {l cs : List Ptr}
    (hlive : ∀ c ∈ cs, ∃ conn, store.cell c = some conn) (hl : ∀ c ∈ cs, c ∈ l) :
    (store.sweep t l).flowsOf (store.keep t cs) =
      FlowTable.sweep (stalledAt t) (t.tv_sec - PERIOD) (store.flowsOf cs) := by
  induction cs with
  | nil => rfl
  | cons c cs ih =>
      obtain ⟨conn, hconn⟩ := hlive c List.mem_cons_self
      have hcl : c ∈ l := hl c List.mem_cons_self
      have ih := ih (fun d hd => hlive d (List.mem_cons_of_mem _ hd))
        (fun d hd => hl d (List.mem_cons_of_mem _ hd))
      rw [flowsOf_cons cs hconn, FlowTable.sweep_cons]
      simp only [← stalled_of_cell (t := t) hconn]
      cases hst : store.stalled t c with
      | true =>
          have hkeep : store.keep t (c :: cs) = store.keep t cs := by simp [ConnStore.keep, hst]
          rw [hkeep, ih, if_pos rfl]
      | false =>
          have hkeep : store.keep t (c :: cs) = c :: store.keep t cs := by
            simp [ConnStore.keep, hst]
          have hcell : (store.sweep t l).cell c = some (connectionCut t conn) := by
            simp [cell_sweep, hcl, hst, hconn]
          rw [hkeep, flowsOf_cons _ hcell, ih, connEntry_cut, refpacket_cut]
          simp

/-- The connections after a refresh that loses nothing. -/
theorem connections_sweep_eq_keep {store : ConnStore} {t : Timeval} {l : List Ptr}
    (hl : ∀ c ∈ store.connections, c ∈ l) :
    (store.sweep t l).connections = store.keep t store.connections := by
  rw [connections_sweep]
  refine List.filter_congr ?_
  intro c hc
  simp [hl c hc]

theorem report_flowsOf {store : ConnStore} {t : Timeval} {l cs : List Ptr}
    (hlive : ∀ c ∈ cs, ∃ conn, store.cell c = some conn) (hl : ∀ c ∈ cs, c ∈ l) (out : Bool) :
    FlowTable.report out ((store.sweep t l).flowsOf (store.keep t cs)) =
      ((store.keep t cs).map (store.amount t out)).sum := by
  have hlive' : ∀ c ∈ store.keep t cs, ∃ conn, store.cell c = some conn ∧
      (store.sweep t l).cell c = some (connectionCut t conn) := by
    intro c hc
    obtain ⟨hc, hst⟩ := mem_keep.1 hc
    obtain ⟨conn, hconn⟩ := hlive c hc
    exact ⟨conn, hconn, by simp [cell_sweep, hl c hc, hst, hconn]⟩
  generalize store.keep t cs = ks at hlive'
  induction ks with
  | nil => rfl
  | cons c ks ih =>
      obtain ⟨conn, hconn, hcell⟩ := hlive' c List.mem_cons_self
      have ih := ih fun d hd => hlive' d (List.mem_cons_of_mem _ hd)
      rw [flowsOf_cons ks hcell, List.map_cons, List.sum_cons, ← ih]
      simp [FlowTable.report, connEntry_cut, ConnStore.amount, hconn]

/-- **A refresh that loses nothing sweeps the flow table.** -/
theorem flows_refresh {σ σ' : NAState} (h : σ.Ok) (ha : Adopted σ) {t : Timeval}
    (hno : NoLoss σ t) {proc_info : List NAProcInfo}
    (hrun : naProcessInfoGetAll σ t = some (σ', proc_info)) :
    σ'.store.flows = FlowTable.sweep (stalledAt t) (t.tv_sec - PERIOD) σ.store.flows := by
  rw [naProcessInfoGetAll_eq h] at hrun
  cases hrun
  have hall : ∀ c ∈ σ.store.connections, c ∈ ownedBy (σ.store.survivors t σ.processes) :=
    fun c hc => mem_survivors hno ((adopted_iff h).1 ha c hc)
  rw [ConnStore.flows, connections_sweep_eq_keep hall]
  exact flowsOf_sweep h.store.live hall

theorem sum_report (store : ConnStore) (t : Timeval) (processes : List NAProcess) :
    ((processes.map (store.report t)).map NAProcInfo.sent).sum =
        ((store.keep t (ownedBy processes)).map (store.amount t true)).sum ∧
      ((processes.map (store.report t)).map NAProcInfo.recv).sum =
        ((store.keep t (ownedBy processes)).map (store.amount t false)).sum := by
  induction processes with
  | nil => exact ⟨rfl, rfl⟩
  | cons process processes ih =>
      have happ : store.keep t (ownedBy (process :: processes)) =
          store.keep t process.connections ++ store.keep t (ownedBy processes) :=
        List.filter_append ..
      rw [happ, List.map_append, List.map_append, List.sum_append, List.sum_append, ← ih.1,
        ← ih.2]
      exact ⟨rfl, rfl⟩

/-- **The totals of a report that loses nothing** are those of the flow table it leaves. -/
theorem report_refresh {σ σ' : NAState} (h : σ.Ok) (ha : Adopted σ) {t : Timeval}
    (hno : NoLoss σ t) {proc_info : List NAProcInfo}
    (hrun : naProcessInfoGetAll σ t = some (σ', proc_info)) :
    (proc_info.map NAProcInfo.sent).sum = FlowTable.report true σ'.store.flows ∧
      (proc_info.map NAProcInfo.recv).sum = FlowTable.report false σ'.store.flows := by
  rw [naProcessInfoGetAll_eq h] at hrun
  cases hrun
  have hall : ∀ c ∈ σ.store.connections, c ∈ ownedBy (σ.store.survivors t σ.processes) :=
    fun c hc => mem_survivors hno ((adopted_iff h).1 ha c hc)
  have hsub : ∀ c ∈ ownedBy (σ.store.survivors t σ.processes), c ∈ σ.store.connections :=
    fun c hc => h.owned c (ownedBy_survivors_subset hc)
  -- both lists hold the same connections, each once
  have hperm : (σ.store.keep t (ownedBy (σ.store.survivors t σ.processes))).Perm
      (σ.store.keep t σ.store.connections) := by
    refine (List.perm_ext_iff_of_nodup (nodup_keep (nodup_ownedBy_survivors h.owned_nodup))
      (nodup_keep h.store.nodup)).2 ?_
    intro c
    rw [mem_keep, mem_keep]
    exact and_congr_left fun _ => ⟨hsub c, hall c⟩
  obtain ⟨hsent, hrecv⟩ := sum_report σ.store t (σ.store.survivors t σ.processes)
  rw [hsent, hrecv, ConnStore.flows, connections_sweep_eq_keep hall,
    report_flowsOf h.store.live hall, report_flowsOf h.store.live hall]
  exact ⟨(hperm.map _).sum_eq, (hperm.map _).sum_eq⟩

end NetworkAnalyzer
