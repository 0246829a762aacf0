/-
The times a refresh decides by.

A refresh reads nothing but the last packet times of the connections, which are the seconds of
packets narrowed to an `int`.  This module follows them through a run: a packet sets the time of
the connection it goes to, and a refresh keeps the times of the connections it keeps.  As long as
all seconds fit an `int` with a timeout added, this gives the effect of a refresh in plain
arithmetic.

* `NetworkAnalyzer.Event.stamp` — the second of an event, and `NetworkAnalyzer.Fits`, the seconds
  for which nothing overflows;
* `push_times` — **a packet sets the time of one connection**, an old one or the new one;
* `lastTime_refresh` — a refresh sets none;
* `refresh_exact` — **the exact effect of a refresh**, in any reachable state.
-/

import GnomeUsage.Reachable

set_option relaxedAutoImplicit false
set_option autoImplicit false

namespace NetworkAnalyzer

/-- The second of an event: the stamp of the packet, or the time of the refresh. -/
def Event.stamp : Event → ℤ
  | .push header _ _ _ _ => header.ts.tv_sec
  | .refresh t => t.tv_sec

/-- A second that an `int` can hold with a process timeout added. -/
def Fits (s : ℤ) : Prop := 0 ≤ s ∧ s ≤ 2 ^ 31 - 51

instance (s : ℤ) : Decidable (Fits s) := inferInstanceAs (Decidable (_ ∧ _))

theorem fits_zero : Fits 0 := by decide

theorem Fits.toInt {s : ℤ} (h : Fits s) : toInt s = s :=
  toInt_of_range (by have := h.1; omega) (by have := h.2; omega)

theorem Fits.toInt_add {s : ℤ} (h : Fits s) :
    NetworkAnalyzer.toInt (s + PROCESSTIMEOUT) = s + PROCESSTIMEOUT := by
  obtain ⟨hlo, hhi⟩ := h
  unfold PROCESSTIMEOUT
  exact toInt_of_range (by omega) (by omega)

variable (host : Host)

/-! ### The times after a packet -/

theorem lastTime_write (store : ConnStore) (c : Ptr) (conn : NAConnection) :
    (store.write c conn).lastTime =
      Function.update store.lastTime c conn.last_packet_time := by
  funext d
  by_cases hd : d = c
  · subst hd
    simp [ConnStore.lastTime, ConnStore.write]
  · simp [ConnStore.lastTime, ConnStore.write, hd]

theorem last_init (packet : NAPacket) :
    (connectionInit host packet).last_packet_time = toInt packet.time.tv_sec :=
  (congrArg FlowTable.Entry.last (connEntry_new host packet)).trans
    (packetArrival host packet).last_entry

theorem last_add (connection : NAConnection) (packet : NAPacket) :
    (connectionAdd host connection packet).last_packet_time = toInt packet.time.tv_sec :=
  (congrArg FlowTable.Entry.last (connEntry_addPacket host connection packet)).trans
    (FlowTable.Entry.last_add _ _)

theorem lastTime_new (store : ConnStore) (packet : NAPacket) :
    (naConnectionNew host store packet).2.lastTime =
      Function.update store.lastTime store.fresh (toInt packet.time.tv_sec) := by
  have hwrite : (naConnectionNew host store packet).2.lastTime =
      (store.write store.fresh (connectionInit host packet)).lastTime := rfl
  rw [hwrite, lastTime_write, last_init]

/-- The connection a packet goes to: the one the look-up finds, or the one that is opened. -/
def NAState.receiver (σ : NAState) (packet : NAPacket) : Ptr :=
  (naConnectionFindFromPacket σ.store packet).join.getD σ.store.fresh

theorem NAState.receiver_of_found {σ : NAState} {packet : NAPacket} {c : Ptr}
    (hfind : naConnectionFindFromPacket σ.store packet = some (some c)) :
    σ.receiver packet = c := by
  rw [NAState.receiver, hfind]
  rfl

theorem NAState.receiver_of_opened {σ : NAState} {packet : NAPacket}
    (hfind : naConnectionFindFromPacket σ.store packet = some none) :
    σ.receiver packet = σ.store.fresh := by
  rw [NAState.receiver, hfind]
  rfl

/-- What a packet that goes to the connection at `c` does to the two global lists. -/
inductive Receives (σ σ' : NAState) (lookup : ProcessLookup) (c : Ptr) : Prop
  | known (hc : c ∈ σ.store.connections)
      (hconnections : σ'.store.connections = σ.store.connections)
      (hprocesses : σ'.processes = σ.processes)
  | opened (hc : c = σ.store.fresh)
      (hconnections : σ'.store.connections = σ.store.connections ++ [c]) (hashstring : CStr)
      (hprocesses : σ'.processes = (selectProcess σ.processes lookup hashstring).1.modify
        (selectProcess σ.processes lookup hashstring).2 (NAProcess.attach c))

/-- **A packet sets the time of one connection.** -/
theorem push_times {σ σ' : NAState} (h : σ.Ok) {packet : NAPacket} (hp : packet.Built)
    {lookup : ProcessLookup} (hrun : pushNAPacket host σ packet lookup = some σ') :
    Receives σ σ' lookup (σ.receiver packet) ∧ σ'.store.lastTime =
      Function.update σ.store.lastTime (σ.receiver packet) (toInt packet.time.tv_sec) := by
  cases pushNAPacket_step host h hp hrun with
  | @found c conn hfind hc _ _ heq =>
      subst heq
      have hreceiver : σ.receiver packet = c := NAState.receiver_of_found hfind
      rw [hreceiver]
      refine ⟨.known hc rfl rfl, ?_⟩
      rw [lastTime_write, last_add]
  | opened hfind _ heq =>
      subst heq
      have hreceiver : σ.receiver packet = σ.store.fresh :=
        NAState.receiver_of_opened hfind
      rw [hreceiver]
      refine ⟨.opened rfl rfl _ rfl, ?_⟩
      have hlast : (keyed host (connectionInit host packet)).last_packet_time =
          toInt packet.time.tv_sec := last_init host packet
      rw [ConnStore.opened, lastTime_write, lastTime_new, hlast, Function.update_idem]

/-! ### The times after a refresh -/

/-- A sweep keeps the times of the connections it keeps, and the others read as zero. -/
theorem lastTime_sweep (store : ConnStore) (t : Timeval) (l : List Ptr) (c : Ptr) :
    (store.sweep t l).lastTime c =
      if c ∈ l ∧ store.stalled t c = true then 0 else store.lastTime c := by
  unfold ConnStore.lastTime
  rw [cell_sweep]
  by_cases hl : c ∈ l
  · cases hst : store.stalled t c with
    | true => simp [hl]
    | false => cases hcell : store.cell c <;> simp [hl, connectionCut]
  · simp [hl]

theorem lastTime_refresh {σ σ' : NAState} (h : σ.Ok) {t : Timeval}
    {proc_info : List NAProcInfo} (hrun : naProcessInfoGetAll σ t = some (σ', proc_info))
    (c : Ptr) : σ'.store.lastTime c = 0 ∨ σ'.store.lastTime c = σ.store.lastTime c := by
  rw [naProcessInfoGetAll_eq h] at hrun
  cases hrun
  rw [lastTime_sweep]
  split
  · exact .inl rfl
  · exact .inr rfl

/-- A step whose second fits keeps all last packet times such that they fit. -/
theorem fits_step {σ σ' : NAState} (h : σ.Ok) (hfit : ∀ c, Fits (σ.store.lastTime c)) {e : Event}
    (he : Fits e.stamp) (hrun : step host σ e = some σ') : ∀ c, Fits (σ'.store.lastTime c) := by
  intro c
  cases e with
  | push header address s_port d_port lookup =>
      obtain ⟨_, htimes⟩ := push_times host h
        (pushed_packetOf header address s_port d_port).built hrun
      generalize σ.receiver (packetOf header address s_port d_port) = d at htimes
      have hstamp : toInt header.ts.tv_sec = header.ts.tv_sec := he.toInt
      rw [htimes, packetOf_time, hstamp]
      by_cases hcd : c = d
      · subst hcd
        rw [Function.update_self]
        exact he
      · rw [Function.update_of_ne hcd]
        exact hfit c
  | refresh t =>
      obtain ⟨⟨s, proc_info⟩, hs, rfl⟩ := Option.map_eq_some_iff.1 hrun
      rcases lastTime_refresh h hs c with hzero | hsame
      · rw [hzero]
        exact fits_zero
      · rw [hsame]
        exact hfit c

/-! ### The exact effect of a refresh -/

/-- The maximum last packet time of the connections of a process, and zero if it has none. -/
def ConnStore.maxLastTime (store : ConnStore) (process : NAProcess) : ℤ :=
  (process.connections.map store.lastTime).max?.getD 0

/-- What `na_connection_sum_packets` reports for the connection at `c`: the amounts received and
sent. -/
def ConnStore.sums (store : ConnStore) (t : Timeval) (c : Ptr) : BitVec 32 × BitVec 32 :=
  (naConnectionSumPackets store c t).elim (0, 0) Prod.snd

theorem sums_eq {store : ConnStore} {t : Timeval} {c : Ptr} :
    store.sums t c = (store.amount t false c, store.amount t true c) := by
  cases hcell : store.cell c with
  | none => simp [ConnStore.sums, ConnStore.amount, naConnectionSumPackets, hcell]
  | some conn =>
      simp only [ConnStore.sums, ConnStore.amount, naConnectionSumPackets, hcell,
        Option.bind_eq_bind, Option.bind_some, Option.elim_some, total_sumPackets]
      rfl

theorem maxLastTime_eq {store : ConnStore} (hfit : ∀ c, Fits (store.lastTime c))
    (process : NAProcess) : store.maxLastTime process = store.processTime process := by
  obtain ⟨hmem, hmax⟩ := processTime_spec store process
  unfold ConnStore.maxLastTime
  cases hl : (process.connections.map store.lastTime).max? with
  | none =>
      rw [List.max?_eq_none_iff] at hl
      simpa [hl, eq_comm] using hmem
  | some m =>
      obtain ⟨hm, hle⟩ := List.max?_eq_some_iff.1 hl
      refine le_antisymm (hmax m (List.mem_cons_of_mem _ hm)) ?_
      rcases List.mem_cons.1 hmem with hzero | hmem
      · obtain ⟨c, _, rfl⟩ := List.mem_map.1 hm
        rw [hzero]
        exact (hfit c).1
      · exact hle _ hmem

theorem processTime_fits {store : ConnStore} (hfit : ∀ c, Fits (store.lastTime c))
    (process : NAProcess) : Fits (store.processTime process) :=
  ⟨processTime_nonneg store process,
    processTime_le (by norm_num) fun c _ => (hfit c).2⟩

theorem timedOut_iff_of_fits {store : ConnStore} (hfit : ∀ c, Fits (store.lastTime c))
    {t : Timeval} {process : NAProcess} :
    store.timedOut t process = true ↔ store.maxLastTime process ≤ t.tv_sec - PROCESSTIMEOUT := by
  rw [timedOut_iff, (processTime_fits hfit process).toInt_add, maxLastTime_eq hfit,
    le_sub_iff_add_le]

/-- The state after a run of events whose seconds all fit. -/
theorem fits_run {es : List Event} (hes : ∀ e ∈ es, Fits e.stamp) :
    ∃ σ, Runs.run (step host) NAState.init es = some σ ∧ σ.Ok ∧ ∀ c, Fits (σ.store.lastTime c) := by
  have hstep : ∀ (σ : NAState) (e : Event), σ.Ok ∧ (∀ c, Fits (σ.store.lastTime c)) →
      Fits e.stamp → ∃ σ', step host σ e = some σ' ∧ σ'.Ok ∧ ∀ c, Fits (σ'.store.lastTime c) := by
    rintro σ e ⟨hok, hfit⟩ he
    obtain ⟨σ', hσ', hok'⟩ := step_ok host hok e
    exact ⟨σ', hσ', hok', fits_step host hok hfit he hσ'⟩
  exact Runs.run_total_of hstep ⟨ok_init, fun _ => fits_zero⟩ hes

/-- The connections of a process that are less than 25 seconds old at `t`. -/
def ConnStore.recent (store : ConnStore) (t : Timeval) (process : NAProcess) : List Ptr :=
  process.connections.filter fun c => t.tv_sec - CONNTIMEOUT < store.lastTime c

/-- The processes with a connection that is less than 50 seconds old at `t`. -/
def NAState.remaining (σ : NAState) (t : Timeval) : List NAProcess :=
  σ.processes.filter fun process => t.tv_sec - PROCESSTIMEOUT < σ.store.maxLastTime process

/-- **The exact effect of a refresh**, in any state reached while all seconds fit. -/
theorem refresh_exact {es : List Event} (hes : ∀ e ∈ es, Fits e.stamp) :
    ∃ σ, Runs.run (step host) NAState.init es = some σ ∧
      ∀ t : Timeval, ∃ σ' proc_info,
        naProcessInfoGetAll σ t = some (σ', proc_info) ∧
        σ'.processes = (σ.remaining t).map (fun process =>
          { process with connections := σ.store.recent t process }) ∧
        σ'.store.connections = σ.store.connections.filter (fun c =>
          ¬ ∃ process ∈ σ.remaining t, c ∈ process.connections ∧
            σ.store.lastTime c ≤ t.tv_sec - CONNTIMEOUT) ∧
        proc_info = (σ.remaining t).map fun process =>
          { name := process.name
            pid := process.pid
            sent := ((σ.store.recent t process).map fun c => (σ.store.sums t c).2).sum
            recv := ((σ.store.recent t process).map fun c => (σ.store.sums t c).1).sum } := by
  obtain ⟨σ, hrun, hok, hfit⟩ := fits_run host hes
  refine ⟨σ, hrun, ?_⟩
  intro t
  have hkeep : ∀ process : NAProcess,
      σ.store.keep t process.connections = σ.store.recent t process := by
    intro process
    refine List.filter_congr ?_
    intro c _
    rw [Bool.eq_iff_iff, Bool.not_eq_true', ← Bool.not_eq_true, stalled_iff, decide_eq_true_iff,
      not_le]
  have hremain : σ.store.survivors t σ.processes = σ.remaining t := by
    refine List.filter_congr ?_
    intro process _
    rw [Bool.eq_iff_iff, Bool.not_eq_true', ← Bool.not_eq_true, timedOut_iff_of_fits hfit,
      decide_eq_true_iff, not_le]
  have heffect := naProcessInfoGetAll_eq hok t
  rw [hremain] at heffect
  refine ⟨_, _, heffect, ?_, ?_, ?_⟩
  · refine List.map_congr_left ?_
    intro process _
    rw [ConnStore.trim, hkeep]
  · rw [connections_sweep]
    refine List.filter_congr ?_
    intro c _
    rw [Bool.eq_iff_iff, Bool.not_eq_true', ← Bool.not_eq_true, Bool.and_eq_true, stalled_iff,
      decide_eq_true_iff, decide_eq_true_iff, mem_ownedBy, ← exists_and_right]
    simp only [and_assoc]
  · refine List.map_congr_left ?_
    intro process _
    simp only [ConnStore.report, hkeep, sums_eq]

/-- Process 43 gets a packet at second 70, and process 42 two packets of two flows, at 100 and at
126. -/
def mixedRun : List Event :=
  [.push ⟨⟨70⟩, 50, 50⟩ (.ip ⟨1⟩ ⟨2⟩) 3 4 ⟨some ⟨1, 43, none⟩, none⟩,
    .push ⟨⟨100⟩, 60, 60⟩ (.ip ⟨1⟩ ⟨2⟩) 3 5 ⟨some ⟨2, 42, none⟩, none⟩,
    .push ⟨⟨126⟩, 70, 70⟩ (.ip ⟨1⟩ ⟨2⟩) 3 6 ⟨some ⟨2, 42, none⟩, none⟩]

/-- At second 130 process 43 goes, but not its connection; process 42 stays, with one of its two
connections. -/
theorem refresh_exact_mixed :
    ∃ σ, Runs.run (step silentHost) NAState.init mixedRun = some σ ∧
      σ.processes.map (fun process => (process.pid, process.connections)) =
        [(43, [0]), (42, [1, 2])] ∧
      ∃ σ' proc_info, naProcessInfoGetAll σ ⟨130⟩ = some (σ', proc_info) ∧
        σ'.processes.map (fun process => (process.pid, process.connections)) = [(42, [2])] ∧
        σ'.store.connections = [0, 2] ∧
        proc_info.map (fun info => (info.pid, info.recv, info.sent)) = [(42, 70, 0)] := by
  obtain ⟨σ, hrun, heffect⟩ := @refresh_exact silentHost mixedRun (by decide)
  obtain ⟨σ', proc_info, hσ', hprocesses, hconnections, hinfo⟩ := heffect ⟨130⟩
  cases hrun
  refine ⟨_, rfl, by decide, σ', proc_info, hσ', ?_, ?_, ?_⟩
  · rw [hprocesses]
    decide
  · rw [hconnections]
    decide
  · rw [hinfo]
    decide

end NetworkAnalyzer
