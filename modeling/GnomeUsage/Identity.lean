/-
One process for each id.

Processes are created in two places: for the program that holds the socket of a new connection,
after a search of the list for its id, and without an id for a connection whose program was not
found.  Both kinds are in the same list, and the search compares ids, the missing ones included.

* `NetworkAnalyzer.Positive` — all ids found in `/proc` are positive, and what the look-up then
  finds is (`lookupProgram_positive`);
* `NetworkAnalyzer.Identified` — the invariant: an id occurs once in the list, and a process
  without one was given one connection;
* `identified_step` — it is kept by every step;
* `process_identity` — **no two processes have the same id**, in any state the analyzer reaches,
  whatever `/proc` contains at each step, and no two entries of a report.
-/

import GnomeUsage.Tracking

set_option relaxedAutoImplicit false
set_option autoImplicit false

namespace NetworkAnalyzer

/-! ### Positive ids -/

/-- All process ids found in `/proc` are positive. -/
def Positive (proc : List ProcDirent) : Prop :=
  ∀ dirent ∈ proc, dirent.isDir = true → isNumber dirent.d_name = true → 0 < direntPid dirent

instance (proc : List ProcDirent) : Decidable (Positive proc) :=
  inferInstanceAs (Decidable (∀ dirent ∈ proc, _ → _ → _))

/-- All process ids in the table are positive. -/
def PositiveTable (table : InodeprocTable) : Prop :=
  ∀ inode node, table inode = some node → 0 < node.pid

theorem positive_refresh {proc : List ProcDirent} (hproc : Positive proc) {table : InodeprocTable}
    (h : PositiveTable table) : PositiveTable (naInodeprocTableRefresh proc table) := by
  rw [refresh_eq_putAll]
  refine Overwrite.putAll_inv h ?_
  intro dirent hdirent inode node hw
  obtain ⟨⟨hdir, hnum, _⟩, rfl⟩ := direntWrites_some.1 hw
  exact hproc dirent hdirent hdir hnum

variable (host : Host)

theorem findInode_positive {snapshot : ProcSnapshot} (hproc : Positive snapshot.proc)
    {tables tables' : Tables} (h : PositiveTable tables.inodeproc) {key : CStr}
    {inode : Option (BitVec 64)}
    (hfind : findInode host snapshot tables key = some (inode, tables')) :
    PositiveTable tables'.inodeproc := by
  unfold findInode at hfind
  cases hkey : tables.conninode key with
  | some i =>
      rw [hkey] at hfind
      cases hfind
      exact h
  | none =>
      rw [hkey] at hfind
      obtain ⟨conninode, _, hfind⟩ := Option.bind_eq_some_iff.1 hfind
      cases hfind
      exact positive_refresh hproc h

theorem findPid_positive {proc : List ProcDirent} (hproc : Positive proc) {table : InodeprocTable}
    (h : PositiveTable table) (inode : BitVec 64) :
    (∀ node ∈ (naInodeprocTableFindPid proc table inode).1, 0 < node.pid) ∧
      PositiveTable (naInodeprocTableFindPid proc table inode).2 := by
  unfold naInodeprocTableFindPid
  cases hnode : table inode with
  | some node =>
      refine ⟨?_, h⟩
      rintro node' ⟨⟩
      exact h inode node hnode
  | none => exact ⟨fun node hn => positive_refresh hproc h inode node hn, positive_refresh hproc h⟩

/-- **The ids the look-up finds are positive.** -/
theorem lookupProgram_positive {snapshot : ProcSnapshot} (hproc : Positive snapshot.proc)
    {tables tables' : Tables} (h : PositiveTable tables.inodeproc) {key : CStr}
    {lookup : ProcessLookup}
    (hlookup : lookupProgram host snapshot tables key = some (lookup, tables')) :
    (∀ node ∈ lookup.node, 0 < node.pid) ∧ PositiveTable tables'.inodeproc := by
  obtain ⟨⟨inode, tables''⟩, hfind, hlookup⟩ := Option.bind_eq_some_iff.1 hlookup
  have htables := findInode_positive host hproc h hfind
  cases inode with
  | none =>
      cases hlookup
      refine ⟨?_, htables⟩
      rintro node ⟨⟩
  | some inode =>
      cases hlookup
      exact findPid_positive hproc htables inode

/-! ### The invariant -/

/-- The ids of processes, without the missing ones. -/
def knownPids (pids : List ℤ) : List ℤ := pids.filter fun pid => pid ≠ 0

/-- **One process for each id**: an id occurs once, and a process without one was given one
connection. -/
structure Identified (tracked : List TrackedProcess) : Prop where
  unique : (knownPids (tracked.map fun x => x.process.pid)).Nodup
  anonymous : ∀ x ∈ tracked, x.process.pid = 0 → x.given = 1

theorem identified_nil : Identified [] := ⟨List.nodup_nil, fun x hx => by cases hx⟩

theorem knownPids_append (pids pids' : List ℤ) :
    knownPids (pids ++ pids') = knownPids pids ++ knownPids pids' := List.filter_append ..

theorem nodup_knownPids_sublist {pids pids' : List ℤ} (h : (knownPids pids).Nodup)
    (hsub : pids'.Sublist pids) : (knownPids pids').Nodup :=
  h.sublist (hsub.filter _)

/-- **A packet keeps the invariant**, if the id of the program that was found is positive. -/
theorem identified_push {now : ℤ} {lookup : ProcessLookup} {c : Ptr}
    {tracked tracked' : List TrackedProcess} (h : Identified tracked)
    (hlookup : ∀ node ∈ lookup.node, 0 < node.pid)
    (heffect : PushEffect now lookup c tracked tracked') : Identified tracked' := by
  refine ⟨?_, heffect.forall_mem ?_ ?_ fun process _ _ => rfl⟩
  · rcases heffect.pids with hsame | ⟨pid, hmore, hpid⟩
    · rw [hsame]
      exact h.unique
    · rw [hmore, knownPids_append]
      refine List.Nodup.append h.unique (List.Nodup.filter _ (List.nodup_singleton _)) ?_
      intro pid' hmem hmem'
      obtain rfl := List.mem_singleton.1 (List.mem_of_mem_filter hmem')
      rcases hpid with hzero | hnew
      · exact absurd hzero (by simpa using (List.mem_filter.1 hmem).2)
      · exact hnew (List.mem_of_mem_filter hmem)
  · intro x hx hpid
    have hgiven : (x.after now c x.process).given = x.given := by
      simp [TrackedProcess.after]
    rw [hgiven]
    exact h.anonymous x hx hpid
  · intro x hx node hnode heq hpid
    have hpos := hlookup node hnode
    have hx0 : x.process.pid = 0 := hpid
    omega

/-- **A refresh keeps the invariant.** -/
theorem identified_refresh {tracked : List TrackedProcess} (h : Identified tracked)
    (store : ConnStore) (t : Timeval) : Identified (trackRefresh store t tracked) := by
  refine ⟨?_, ?_⟩
  · refine nodup_knownPids_sublist h.unique ?_
    rw [trackRefresh, List.map_map]
    exact List.filter_sublist.map _
  · intro y hy hy0
    obtain ⟨x, hx, rfl⟩ := List.mem_map.1 hy
    exact h.anonymous x (List.mem_of_mem_filter hx) hy0

/-- **A step keeps the invariant**, if the id of the program that was found is positive. -/
theorem identified_step {σ σ' : NAState} (hok : σ.Ok) {tracked : List TrackedProcess}
    (haligned : tracked.map TrackedProcess.process = σ.processes) (h : Identified tracked)
    {e : Event} (hlookup : ∀ node ∈ e.lookup.node, 0 < node.pid)
    (hstep : step host σ e = some σ') : Identified (history σ σ' tracked e.act) := by
  cases e with
  | push header address s_port d_port lookup =>
      obtain ⟨hreceives, _⟩ := push_times host hok
        (pushed_packetOf header address s_port d_port).built hstep
      exact identified_push h hlookup (trackPush_effect hok haligned hreceives _)
  | refresh t => exact identified_refresh h σ.store t

/-! ### Runs of the analyzer -/

/-- The analyzer with the history of every process. -/
structure Ledger where
  analyzer : Analyzer
  tracked : List TrackedProcess

def Ledger.init : Ledger := ⟨Analyzer.init, []⟩

/-- A step of the analyzer, with what is in `/proc` at the time. -/
def Analyzer.stepIn (A : Analyzer) (x : ProcSnapshot × Act) : Option Analyzer :=
  A.step host x.1 x.2

/-- The same, with the histories written beside the state. -/
def Ledger.step (L : Ledger) (x : ProcSnapshot × Act) : Option Ledger :=
  (L.analyzer.stepIn host x).map fun A =>
    ⟨A, history L.analyzer.state A.state L.tracked x.2⟩

theorem Ledger.step_analyzer (L : Ledger) (x : ProcSnapshot × Act) :
    (L.step host x).map Ledger.analyzer = L.analyzer.stepIn host x := by
  rw [Ledger.step, Option.map_map]
  exact Option.map_id_apply

/-- The invariant of the analyzer with its histories. -/
structure Ledger.Ok (L : Ledger) : Prop where
  state : L.analyzer.state.Ok
  positive : PositiveTable L.analyzer.tables.inodeproc
  aligned : L.tracked.map TrackedProcess.process = L.analyzer.state.processes
  identified : Identified L.tracked

theorem Ledger.ok_init : Ledger.init.Ok where
  state := NetworkAnalyzer.ok_init
  positive := fun inode node h => by cases h
  aligned := rfl
  identified := identified_nil

theorem Ledger.Ok.step {L L' : Ledger} (h : L.Ok) {x : ProcSnapshot × Act}
    (hproc : Positive x.1.proc) (hstep : L.step host x = some L') : L'.Ok := by
  obtain ⟨A', hA', rfl⟩ := Option.map_eq_some_iff.1 hstep
  obtain ⟨e, hact, he, hlookup⟩ := Analyzer.step_event host hA'
  have hpositive : (∀ node ∈ e.lookup.node, 0 < node.pid) ∧
      PositiveTable A'.tables.inodeproc := by
    rcases hlookup with ⟨hnone, htables⟩ | ⟨key, hfound⟩
    · rw [hnone, htables]
      refine ⟨?_, h.positive⟩
      rintro node ⟨⟩
    · exact lookupProgram_positive host hproc h.positive hfound
  refine ⟨Analyzer.step_ok host h.state hA', hpositive.2, ?_, ?_⟩
  · rw [← hact]
    exact history_processes h.state h.aligned he
  · rw [← hact]
    exact identified_step host h.state h.aligned h.identified hpositive.1 he

/-- **One process for each id.**  In every state the analyzer reaches, whatever `/proc` contains at
each step, no two processes have the same id, a process without an id was given one connection in
its life, and a refresh reports no id twice. -/
theorem process_identity {steps : List (ProcSnapshot × Act)}
    (hproc : ∀ x ∈ steps, Positive x.1.proc) {A : Analyzer}
    (hrun : Runs.run (Analyzer.stepIn host) Analyzer.init steps = some A) :
    ∃ tracked, Runs.run (Ledger.step host) Ledger.init steps = some ⟨A, tracked⟩ ∧
      tracked.map TrackedProcess.process = A.state.processes ∧
      (knownPids (A.state.processes.map NAProcess.pid)).Nodup ∧
      (∀ x ∈ tracked, x.process.pid = 0 → x.given = 1) ∧
      ∀ t σ proc_info, naProcessInfoGetAll A.state t = some (σ, proc_info) →
        (knownPids (proc_info.map NAProcInfo.pid)).Nodup := by
  obtain ⟨⟨A', tracked⟩, hL, rfl⟩ :=
    Runs.run_lift (Ledger.step_analyzer host) Ledger.init hrun
  have hok := Runs.run_inv_of (fun _ _ _ hs hx hstep => Ledger.Ok.step host hs hx hstep)
    Ledger.ok_init hproc hL
  have hpids : (knownPids (A'.state.processes.map NAProcess.pid)).Nodup := by
    have hunique := hok.identified.unique
    rw [← hok.aligned, List.map_map]
    exact hunique
  refine ⟨tracked, hL, hok.aligned, hpids, hok.identified.anonymous, ?_⟩
  intro t σ proc_info hrefresh
  rw [naProcessInfoGetAll_eq hok.state] at hrefresh
  cases hrefresh
  refine nodup_knownPids_sublist hpids ?_
  rw [List.map_map]
  exact List.filter_sublist.map _

/-- Another socket of the host, with the inode 2120. -/
def siblingRow : NetRow :=
  { establishedRow with
    local_port := 0x1771
    inode := 2120
    inode_lt := by decide
    fits := by decide }

/-- Two established TCP connections, both of the process 42. -/
def sharedSockets : KernelSnapshot where
  tcp := some ⟨['s', 'l', '\n'], [establishedRow, siblingRow], isLine_header⟩
  tcp6 := none
  udp := none
  udp6 := none
  proc := [{ holder with
    fd := some [⟨true, some (socketMark ++ ['2', '1', '1', '9', ']'])⟩,
      ⟨true, some (socketMark ++ ['2', '1', '2', '0', ']'])⟩] }]

/-- A packet for each of them, and one for each of two ports without a socket. -/
def fourFlows : List (ProcSnapshot × Act) :=
  [0x1770, 0x1771, 0x1772, 0x1773].map fun d_port => (sharedSockets.toProc,
    .push ⟨⟨⟨100⟩, 60, 60⟩, .ip ⟨0x9DD8A9C3⟩ ⟨0x020310AC⟩, 0xA525, d_port⟩)

/-- The two flows of process 42 share it, and the other two get a process each. -/
theorem process_identity_fourFlows :
    ∃ (A : Analyzer) (tracked : List TrackedProcess),
      Runs.run (Analyzer.stepIn (dottedHost [⟨0x020310AC⟩])) Analyzer.init fourFlows = some A ∧
      A.state.processes.map (fun process => (process.pid, process.connections)) =
        [(42, [0, 1]), (0, [2]), (0, [3])] ∧
      tracked.map TrackedProcess.process = A.state.processes ∧
      (knownPids (A.state.processes.map NAProcess.pid)).Nodup ∧
      ∀ x ∈ tracked, x.process.pid = 0 → x.given = 1 := by
  have hpositive : ∀ x ∈ fourFlows, Positive x.1.proc := by decide
  have hprocesses : (Runs.run (Analyzer.stepIn (dottedHost [⟨0x020310AC⟩])) Analyzer.init
      fourFlows).map (fun A => A.state.processes.map fun process =>
        (process.pid, process.connections)) = some [(42, [0, 1]), (0, [2]), (0, [3])] := by
    decide +kernel
  obtain ⟨A, hrun, hprocesses⟩ := Option.map_eq_some_iff.1 hprocesses
  obtain ⟨tracked, _, haligned, hpids, hgiven, _⟩ := process_identity _ hpositive hrun
  exact ⟨A, tracked, hrun, hprocesses, haligned, hpids, hgiven⟩

end NetworkAnalyzer
