/-
The exact effect of a refresh.

`na_process_info_get_all` deletes links from two lists while it walks them, and edits a third
list from inside the inner loop.  This module shows that, on a well-formed state, none of this
shows: a refresh is a filter and a map.  `ConnStore.sweep` is its effect on the connections of a
list of addresses; the survivors of a refresh are the processes that have not timed out, each
with the connections that have not.

* `NetworkAnalyzer.ConnStore.Ok`, `NetworkAnalyzer.NAState.Ok` — well-formedness: nothing in the
  global list is freed or listed twice, and every connection a process lists is in the global list
  and listed nowhere else;
* `sumConnectionsFrom_eq`, `infoGetAllFrom_eq` — the two loops;
* `naProcessInfoGetAll_eq` — **the effect of a refresh**.
-/

import GnomeUsage.Process

set_option relaxedAutoImplicit false
set_option autoImplicit false

namespace NetworkAnalyzer

/-! ### Well-formed states -/

/-- The flow table a list of connections stands for. -/
def ConnStore.flowsOf (store : ConnStore) (l : List Ptr) :
    List (Sym2 Endpoint × FlowTable.Entry ℤ (BitVec 32)) :=
  l.filterMap fun c => (store.cell c).map fun conn => (flowKey conn.refpacket, connEntry conn)

/-- The flow table of all connections. -/
def ConnStore.flows (store : ConnStore) : List (Sym2 Endpoint × FlowTable.Entry ℤ (BitVec 32)) :=
  store.flowsOf store.connections

/-- The connections are live, listed once, and matched by different packets. -/
structure ConnStore.Ok (store : ConnStore) : Prop where
  nodup : store.connections.Nodup
  live : ∀ c ∈ store.connections, ∃ conn, store.cell c = some conn
  lt_fresh : ∀ c ∈ store.connections, c < store.fresh
  built : ∀ c ∈ store.connections, ∀ conn, store.cell c = some conn → conn.refpacket.Built
  distinct : FlowTable.Distinct store.flows

/-- The connections listed by the processes. -/
def ownedBy (processes : List NAProcess) : List Ptr :=
  processes.flatMap NAProcess.connections

/-- **Well-formedness**: what the processes list is in the global list, and listed once. -/
structure NAState.Ok (σ : NAState) : Prop where
  store : σ.store.Ok
  owned : ∀ c ∈ ownedBy σ.processes, c ∈ σ.store.connections
  owned_nodup : (ownedBy σ.processes).Nodup

@[simp] theorem ownedBy_nil : ownedBy [] = [] := rfl

@[simp] theorem ownedBy_cons (process : NAProcess) (processes : List NAProcess) :
    ownedBy (process :: processes) = process.connections ++ ownedBy processes := rfl

@[simp] theorem ownedBy_append (processes processes' : List NAProcess) :
    ownedBy (processes ++ processes') = ownedBy processes ++ ownedBy processes' :=
  List.flatMap_append

theorem mem_ownedBy {processes : List NAProcess} {c : Ptr} :
    c ∈ ownedBy processes ↔ ∃ process ∈ processes, c ∈ process.connections :=
  List.mem_flatMap

theorem NAState.Ok.live {σ : NAState} (h : σ.Ok) {c : Ptr} (hc : c ∈ ownedBy σ.processes) :
    ∃ conn, σ.store.cell c = some conn :=
  h.store.live c (h.owned c hc)

theorem ok_init : NAState.init.Ok where
  store :=
    { nodup := List.nodup_nil
      live := fun c hc => by simp [NAState.init, ConnStore.empty] at hc
      lt_fresh := fun c hc => by simp [NAState.init, ConnStore.empty] at hc
      built := fun c hc => by simp [NAState.init, ConnStore.empty] at hc
      distinct := FlowTable.distinct_nil }
  owned := fun c hc => by simp [NAState.init] at hc
  owned_nodup := List.nodup_nil

/-! ### What a refresh reads -/

/-- The last packet time of the connection at `c`. -/
def ConnStore.lastTime (store : ConnStore) (c : Ptr) : ℤ :=
  (store.cell c).elim 0 NAConnection.last_packet_time

/-- The connection at `c` timed out. -/
def ConnStore.stalled (store : ConnStore) (t : Timeval) (c : Ptr) : Bool :=
  store.lastTime c ≤ t.tv_sec - CONNTIMEOUT

/-- What a query at `t` counts of the connection at `c`, in one direction. -/
def ConnStore.amount (store : ConnStore) (t : Timeval) (out : Bool) (c : Ptr) : BitVec 32 :=
  (store.cell c).elim 0 fun conn =>
    Bucketed.total (Bucketed.cut (t.tv_sec - PERIOD) ((connEntry conn).series out))

/-- The last packet time of a process: the maximum over its connections and zero. -/
def ConnStore.processTime (store : ConnStore) (process : NAProcess) : ℤ :=
  (process.connections.map store.lastTime).foldl max 0

/-- The process timed out. -/
def ConnStore.timedOut (store : ConnStore) (t : Timeval) (process : NAProcess) : Bool :=
  toInt (store.processTime process + PROCESSTIMEOUT) ≤ t.tv_sec

/-- The connections that stay, of a list. -/
def ConnStore.keep (store : ConnStore) (t : Timeval) (l : List Ptr) : List Ptr :=
  l.filter fun c => !store.stalled t c

/-- **The effect of summing the connections of a list**: the stalled ones are freed, the others
cut. -/
def ConnStore.sweep (store : ConnStore) (t : Timeval) (l : List Ptr) : ConnStore where
  connections := store.connections.filter fun c => !(decide (c ∈ l) && store.stalled t c)
  cell := fun c =>
    if c ∈ l then if store.stalled t c then none else (store.cell c).map (connectionCut t)
    else store.cell c
  fresh := store.fresh

/-- The report on one process. -/
def ConnStore.report (store : ConnStore) (t : Timeval) (process : NAProcess) : NAProcInfo where
  name := process.name
  pid := process.pid
  sent := ((store.keep t process.connections).map (store.amount t true)).sum
  recv := ((store.keep t process.connections).map (store.amount t false)).sum

/-- A process that survives a refresh. -/
def ConnStore.trim (store : ConnStore) (t : Timeval) (process : NAProcess) : NAProcess :=
  { process with connections := store.keep t process.connections }

/-- The processes that survive a refresh. -/
def ConnStore.survivors (store : ConnStore) (t : Timeval) (processes : List NAProcess) :
    List NAProcess :=
  processes.filter fun process => !store.timedOut t process

theorem connections_sweep (store : ConnStore) (t : Timeval) (l : List Ptr) :
    (store.sweep t l).connections =
      store.connections.filter fun c => !(decide (c ∈ l) && store.stalled t c) := rfl

theorem cell_sweep (store : ConnStore) (t : Timeval) (l : List Ptr) (c : Ptr) :
    (store.sweep t l).cell c =
      if c ∈ l then if store.stalled t c then none else (store.cell c).map (connectionCut t)
      else store.cell c := rfl

theorem cell_sweep_of_not_mem {store : ConnStore} {t : Timeval} {l : List Ptr} {c : Ptr}
    (h : c ∉ l) : (store.sweep t l).cell c = store.cell c := if_neg h

/-- A sweep leaves the other connections allocated. -/
theorem live_sweep {store : ConnStore} {t : Timeval} {l l' : List Ptr} (h : l.Disjoint l')
    (hlive : ∀ c ∈ l', ∃ conn, store.cell c = some conn) :
    ∀ c ∈ l', ∃ conn, (store.sweep t l).cell c = some conn := by
  intro c hc
  rw [cell_sweep_of_not_mem fun hl => h hl hc]
  exact hlive c hc

theorem stalled_iff {store : ConnStore} {t : Timeval} {c : Ptr} :
    store.stalled t c = true ↔ store.lastTime c ≤ t.tv_sec - CONNTIMEOUT := decide_eq_true_iff

theorem timedOut_iff {store : ConnStore} {t : Timeval} {process : NAProcess} :
    store.timedOut t process = true ↔
      toInt (store.processTime process + PROCESSTIMEOUT) ≤ t.tv_sec := decide_eq_true_iff

theorem survivors_cons (store : ConnStore) (t : Timeval) (process : NAProcess)
    (processes : List NAProcess) :
    store.survivors t (process :: processes) =
      if store.timedOut t process then store.survivors t processes
      else process :: store.survivors t processes := by
  unfold ConnStore.survivors
  cases h : store.timedOut t process with
  | true => simp [h]
  | false => simp [h]

/-- The last packet time of a process is one of its connections, or zero, and none is later. -/
theorem processTime_spec (store : ConnStore) (process : NAProcess) :
    store.processTime process ∈ 0 :: process.connections.map store.lastTime ∧
      ∀ s ∈ 0 :: process.connections.map store.lastTime, s ≤ store.processTime process :=
  List.max?_eq_some_iff.1 rfl

theorem processTime_nonneg (store : ConnStore) (process : NAProcess) :
    0 ≤ store.processTime process := (processTime_spec store process).2 0 List.mem_cons_self

theorem lastTime_le_processTime {store : ConnStore} {process : NAProcess} {c : Ptr}
    (h : c ∈ process.connections) : store.lastTime c ≤ store.processTime process :=
  (processTime_spec store process).2 _ (List.mem_cons_of_mem _ (List.mem_map.2 ⟨c, h, rfl⟩))

theorem processTime_le {store : ConnStore} {process : NAProcess} {b : ℤ} (hb : 0 ≤ b)
    (h : ∀ c ∈ process.connections, store.lastTime c ≤ b) : store.processTime process ≤ b := by
  rcases List.mem_cons.1 (processTime_spec store process).1 with heq | hmem
  · rw [heq]
    exact hb
  · obtain ⟨c, hc, heq⟩ := List.mem_map.1 hmem
    rw [← heq]
    exact h c hc

/-! ### The inner loop -/

theorem lastTime_of_cell {store : ConnStore} {c : Ptr} {conn : NAConnection}
    (h : store.cell c = some conn) : store.lastTime c = conn.last_packet_time := by
  simp [ConnStore.lastTime, h]

theorem getLastPacketTime_eq {store : ConnStore} {c : Ptr} {conn : NAConnection}
    (h : store.cell c = some conn) :
    naConnectionGetLastPacketTime store c = some (store.lastTime c) := by
  simp [naConnectionGetLastPacketTime, lastTime_of_cell h, h]

theorem free_eq_sweep {store : ConnStore} {t : Timeval} {c : Ptr} {conn : NAConnection}
    (hnodup : store.connections.Nodup) (h : store.cell c = some conn)
    (hstalled : store.stalled t c = true) :
    naConnectionFree store c = some (store.sweep t [c]) := by
  have hconns : store.connections.erase c = (store.sweep t [c]).connections := by
    rw [hnodup.erase_eq_filter]
    refine List.filter_congr ?_
    intro d _
    by_cases hd : d = c
    · subst hd; simp [hstalled]
    · simp [hd]
  have hcell : Function.update store.cell c none = (store.sweep t [c]).cell := by
    funext d
    by_cases hd : d = c
    · subst hd; simp [ConnStore.sweep, hstalled]
    · simp [ConnStore.sweep, hd]
  simp only [naConnectionFree, h, Option.bind_eq_bind, Option.bind_some, hconns, hcell]
  rfl

theorem sum_eq_sweep {store : ConnStore} {t : Timeval} {c : Ptr} {conn : NAConnection}
    (h : store.cell c = some conn) (hstalled : store.stalled t c = false) :
    naConnectionSumPackets store c t =
      some (store.sweep t [c], store.amount t false c, store.amount t true c) := by
  have hconns : store.connections = (store.sweep t [c]).connections := by
    refine (List.filter_eq_self.2 ?_).symm
    intro d _
    by_cases hd : d = c
    · subst hd; simp [hstalled]
    · simp [hd]
  have hcell : Function.update store.cell c (some (connectionCut t conn)) =
      (store.sweep t [c]).cell := by
    funext d
    by_cases hd : d = c
    · subst hd; simp [ConnStore.sweep, hstalled, h]
    · simp [ConnStore.sweep, hd]
  have hstore : store.write c (connectionCut t conn) = store.sweep t [c] := by
    have hwrite : store.write c (connectionCut t conn) =
        ⟨store.connections, Function.update store.cell c (some (connectionCut t conn)),
          store.fresh⟩ := rfl
    rw [hwrite, hconns, hcell]
    rfl
  simp only [naConnectionSumPackets, h, Option.bind_eq_bind, Option.bind_some, hstore,
    ConnStore.amount, Option.elim_some, total_sumPackets]
  rfl

/-- A sweep changes nothing about the connections outside its list. -/
theorem reads_sweep {store : ConnStore} {t : Timeval} {l : List Ptr} {c : Ptr} (h : c ∉ l) :
    (store.sweep t l).lastTime c = store.lastTime c ∧
      (store.sweep t l).stalled t c = store.stalled t c ∧
      ∀ out, (store.sweep t l).amount t out c = store.amount t out c := by
  have hcell : (store.sweep t l).cell c = store.cell c := cell_sweep_of_not_mem h
  refine ⟨?_, ?_, ?_⟩
  · simp only [ConnStore.lastTime, hcell]
  · unfold ConnStore.stalled ConnStore.lastTime
    rw [hcell]
  · intro out
    unfold ConnStore.amount
    rw [hcell]

theorem keep_sweep {store : ConnStore} {t : Timeval} {l l' : List Ptr} (h : l.Disjoint l') :
    (store.sweep t l).keep t l' = store.keep t l' := by
  refine List.filter_congr ?_
  intro c hc
  rw [(reads_sweep fun hl => h hl hc).2.1]

theorem sum_amount_sweep {store : ConnStore} {t : Timeval} {l l' : List Ptr}
    (h : l.Disjoint l') (out : Bool) :
    (((store.sweep t l).keep t l').map ((store.sweep t l).amount t out)).sum =
      ((store.keep t l').map (store.amount t out)).sum := by
  rw [keep_sweep h]
  congr 1
  refine List.map_congr_left ?_
  intro c hc
  have hc' : c ∈ l' := List.mem_of_mem_filter hc
  exact (reads_sweep fun hl => h hl hc').2.2 out

/-- **Sweeps of disjoint lists add up.** -/
theorem sweep_sweep {store : ConnStore} {t : Timeval} {l l' : List Ptr} (h : l.Disjoint l') :
    (store.sweep t l).sweep t l' = store.sweep t (l ++ l') := by
  have hstalled : ∀ c ∈ l', (store.sweep t l).stalled t c = store.stalled t c :=
    fun c hc => (reads_sweep fun hl => h hl hc).2.1
  have hconns : ((store.sweep t l).sweep t l').connections =
      (store.sweep t (l ++ l')).connections := by
    rw [connections_sweep, connections_sweep, connections_sweep, List.filter_filter]
    refine List.filter_congr ?_
    intro c _
    by_cases hl' : c ∈ l'
    · have hl : c ∉ l := fun hl => h hl hl'
      simp [hl, hl', hstalled c hl']
    · simp [hl']
  have hcell : ((store.sweep t l).sweep t l').cell = (store.sweep t (l ++ l')).cell := by
    funext c
    rw [cell_sweep, cell_sweep, cell_sweep]
    by_cases hl' : c ∈ l'
    · have hl : c ∉ l := fun hl => h hl hl'
      simp [hl, hl', hstalled c hl']
    · simp [hl']
  calc (store.sweep t l).sweep t l'
      = ⟨((store.sweep t l).sweep t l').connections, ((store.sweep t l).sweep t l').cell,
          store.fresh⟩ := rfl
    _ = store.sweep t (l ++ l') := by rw [hconns, hcell]; rfl

theorem nodup_sweep {store : ConnStore} {t : Timeval} {l : List Ptr}
    (h : store.connections.Nodup) : (store.sweep t l).connections.Nodup :=
  h.filter _

/-- **The inner loop** on the connections of a process. -/
theorem sumConnectionsFrom_eq (t : Timeval) {store : ConnStore} {l : List Ptr}
    (hnodup : store.connections.Nodup) (hl : l.Nodup)
    (hlive : ∀ c ∈ l, ∃ conn, store.cell c = some conn) (recv sent : BitVec 32) :
    sumConnectionsFrom t store l recv sent =
      some (store.sweep t l, store.keep t l,
        recv + ((store.keep t l).map (store.amount t false)).sum,
        sent + ((store.keep t l).map (store.amount t true)).sum) := by
  induction l generalizing store recv sent with
  | nil =>
      have hsweep : store.sweep t [] = store := by simp [ConnStore.sweep]
      simp [sumConnectionsFrom, ConnStore.keep, hsweep]
  | cons c l ih =>
      obtain ⟨hc, hl⟩ := List.nodup_cons.1 hl
      obtain ⟨conn, hconn⟩ := hlive c List.mem_cons_self
      have hdisj : List.Disjoint [c] l := List.singleton_disjoint.2 hc
      have hlive' : ∀ d ∈ l, ∃ conn, (store.sweep t [c]).cell d = some conn :=
        live_sweep hdisj fun d hd => hlive d (List.mem_cons_of_mem _ hd)
      have ih := fun recv sent =>
        @ih (store.sweep t [c]) (nodup_sweep hnodup) hl hlive' recv sent
      simp only [keep_sweep hdisj, sweep_sweep hdisj, List.singleton_append] at ih
      have hsum : ∀ out, ((store.keep t l).map ((store.sweep t [c]).amount t out)).sum =
          ((store.keep t l).map (store.amount t out)).sum := by
        intro out
        rw [← sum_amount_sweep hdisj out, keep_sweep hdisj]
      simp only [hsum] at ih
      unfold sumConnectionsFrom
      simp only [getLastPacketTime_eq hconn, Option.bind_eq_bind, Option.bind_some]
      cases hst : store.stalled t c with
      | true =>
          have hle : store.lastTime c ≤ t.tv_sec - CONNTIMEOUT := stalled_iff.1 hst
          have hkeep : store.keep t (c :: l) = store.keep t l := by
            simp [ConnStore.keep, hst]
          rw [if_pos hle, free_eq_sweep hnodup hconn hst, Option.bind_some, ih, hkeep]
      | false =>
          have hle : ¬ store.lastTime c ≤ t.tv_sec - CONNTIMEOUT := by
            simp [← stalled_iff, hst]
          have hkeep : store.keep t (c :: l) = c :: store.keep t l := by
            simp [ConnStore.keep, hst]
          rw [if_neg hle, sum_eq_sweep hconn hst, Option.bind_some]
          simp only [ih, Option.bind_some, hkeep, List.map_cons, List.sum_cons, add_assoc]

/-! ### The outer loop -/

theorem lastPacketTimeFrom_eq {store : ConnStore} {l : List Ptr}
    (hlive : ∀ c ∈ l, ∃ conn, store.cell c = some conn) (m : ℤ) :
    lastPacketTimeFrom store m l = some ((l.map store.lastTime).foldl max m) := by
  induction l generalizing m with
  | nil => rfl
  | cons c l ih =>
      obtain ⟨conn, hconn⟩ := hlive c List.mem_cons_self
      have ih := ih fun d hd => hlive d (List.mem_cons_of_mem _ hd)
      unfold lastPacketTimeFrom
      simp only [getLastPacketTime_eq hconn, Option.bind_eq_bind, Option.bind_some, ih,
        List.map_cons, List.foldl_cons]
      split
      · next hgt => rw [max_eq_right (le_of_lt hgt)]
      · next hle => rw [max_eq_left (not_lt.1 hle)]

theorem processTime_sweep {store : ConnStore} {t : Timeval} {l : List Ptr} {process : NAProcess}
    (h : l.Disjoint process.connections) :
    (store.sweep t l).processTime process = store.processTime process := by
  unfold ConnStore.processTime
  congr 1
  exact List.map_congr_left fun c hc => (reads_sweep fun hl => h hl hc).1

theorem timedOut_sweep {store : ConnStore} {t : Timeval} {l : List Ptr} {process : NAProcess}
    (h : l.Disjoint process.connections) :
    (store.sweep t l).timedOut t process = store.timedOut t process := by
  simp only [ConnStore.timedOut, processTime_sweep h]

theorem disjoint_of_mem {l : List Ptr} {processes : List NAProcess} {process : NAProcess}
    (h : l.Disjoint (ownedBy processes)) (hmem : process ∈ processes) :
    l.Disjoint process.connections :=
  fun _ hl hc => h hl (mem_ownedBy.2 ⟨process, hmem, hc⟩)

/-- What a refresh does with the processes does not depend on a sweep of other connections. -/
theorem survivors_sweep {store : ConnStore} {t : Timeval} {l : List Ptr}
    {processes : List NAProcess} (h : l.Disjoint (ownedBy processes)) :
    (store.sweep t l).survivors t processes = store.survivors t processes ∧
      (store.survivors t processes).map ((store.sweep t l).trim t) =
        (store.survivors t processes).map (store.trim t) ∧
      (store.survivors t processes).map ((store.sweep t l).report t) =
        (store.survivors t processes).map (store.report t) := by
  have hmem : ∀ process ∈ store.survivors t processes, process ∈ processes :=
    fun process hp => List.mem_of_mem_filter hp
  refine ⟨?_, ?_, ?_⟩
  · refine List.filter_congr ?_
    intro process hp
    rw [timedOut_sweep (disjoint_of_mem h hp)]
  · refine List.map_congr_left ?_
    intro process hp
    simp only [ConnStore.trim, keep_sweep (disjoint_of_mem h (hmem process hp))]
  · refine List.map_congr_left ?_
    intro process hp
    have hd := disjoint_of_mem h (hmem process hp)
    simp only [ConnStore.report, sum_amount_sweep hd]

theorem ownedBy_survivors_subset {store : ConnStore} {t : Timeval} {processes : List NAProcess}
    {c : Ptr} (h : c ∈ ownedBy (store.survivors t processes)) : c ∈ ownedBy processes := by
  obtain ⟨process, hp, hc⟩ := mem_ownedBy.1 h
  exact mem_ownedBy.2 ⟨process, List.mem_of_mem_filter hp, hc⟩

/-- **The outer loop** on a list of processes. -/
theorem infoGetAllFrom_eq (t : Timeval) {store : ConnStore} {processes : List NAProcess}
    (hnodup : store.connections.Nodup) (howned : (ownedBy processes).Nodup)
    (hlive : ∀ c ∈ ownedBy processes, ∃ conn, store.cell c = some conn) :
    infoGetAllFrom t store processes =
      some (store.sweep t (ownedBy (store.survivors t processes)),
        (store.survivors t processes).map (store.trim t),
        (store.survivors t processes).map (store.report t)) := by
  induction processes generalizing store with
  | nil =>
      have hsweep : store.sweep t [] = store := by simp [ConnStore.sweep]
      simp [infoGetAllFrom, ConnStore.survivors, hsweep]
  | cons process processes ih =>
      rw [ownedBy_cons] at howned hlive
      obtain ⟨hp, hps, hdisj⟩ := List.nodup_append'.1 howned
      have hlivep : ∀ c ∈ process.connections, ∃ conn, store.cell c = some conn :=
        fun c hc => hlive c (List.mem_append_left _ hc)
      have hliveps : ∀ c ∈ ownedBy processes, ∃ conn, store.cell c = some conn :=
        fun c hc => hlive c (List.mem_append_right _ hc)
      have htime : naProcessGetLastPacketTime store process = some (store.processTime process) :=
        lastPacketTimeFrom_eq hlivep 0
      unfold infoGetAllFrom
      simp only [htime, Option.bind_eq_bind, Option.bind_some]
      cases hout : store.timedOut t process with
      | true =>
          have hle : toInt (store.processTime process + PROCESSTIMEOUT) ≤ t.tv_sec :=
            timedOut_iff.1 hout
          have hsurv : store.survivors t (process :: processes) = store.survivors t processes := by
            rw [survivors_cons, if_pos hout]
          rw [if_pos hle, ih hnodup hps hliveps, hsurv]
      | false =>
          have hle : ¬ toInt (store.processTime process + PROCESSTIMEOUT) ≤ t.tv_sec := by
            simp [← timedOut_iff, hout]
          have hsurv : store.survivors t (process :: processes) =
              process :: store.survivors t processes := by
            simp [survivors_cons, hout]
          have hlive' : ∀ c ∈ ownedBy processes,
              ∃ conn, (store.sweep t process.connections).cell c = some conn :=
            live_sweep hdisj hliveps
          have hsum := sumConnectionsFrom_eq t hnodup hp hlivep 0 0
          have ih := ih (nodup_sweep hnodup) hps hlive'
          obtain ⟨hsv, htrim, hrep⟩ := @survivors_sweep store t _ _ hdisj
          have hdisj' : process.connections.Disjoint (ownedBy (store.survivors t processes)) :=
            fun c hl hc => hdisj hl (ownedBy_survivors_subset hc)
          rw [hsv, htrim, hrep, sweep_sweep hdisj'] at ih
          rw [if_neg hle, hsurv]
          simp only [naProcessSumConnections, hsum, Option.bind_eq_bind, Option.bind_some, ih,
            List.map_cons, ownedBy_cons, zero_add]
          rfl

/-- **The effect of a refresh.** -/
theorem naProcessInfoGetAll_eq {σ : NAState} (h : σ.Ok) (t : Timeval) :
    naProcessInfoGetAll σ t =
      some (⟨σ.store.sweep t (ownedBy (σ.store.survivors t σ.processes)),
          (σ.store.survivors t σ.processes).map (σ.store.trim t)⟩,
        (σ.store.survivors t σ.processes).map (σ.store.report t)) := by
  have hloop := infoGetAllFrom_eq t h.store.nodup h.owned_nodup fun c hc => h.live hc
  simp only [naProcessInfoGetAll, hloop, Option.bind_eq_bind, Option.bind_some]

end NetworkAnalyzer
