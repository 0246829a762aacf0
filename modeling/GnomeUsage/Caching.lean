/-
Cached and refreshed look-ups.

Nothing is ever removed from the two tables, so what a look-up finds there may be out of date.
This module compares the look-up of a new connection on any tables with the look-up after both
tables have been refreshed.

* `KernelSnapshot.Resolves` — the key belongs to one socket, held by one process id;
* `PidOf` — the process id a connection is attributed to;
* `Tables.Current` — what the tables hold for the key is not out of date;
* `push_pidOf_iff` — the id of the process a new connection is given to;
* `cached_lookup_iff` — **the look-up agrees with the refreshed one exactly when the tables are
  current**;
* `stale_mapping_misses` — a run after which they are not.
-/

import GnomeUsage.Attribution
import GnomeUsage.Ownership

set_option relaxedAutoImplicit false
set_option autoImplicit false

namespace NetworkAnalyzer

variable (host : Host)

/-- The rows that cover the key are all of the socket `inode`, which is held under the process
id `pid` only. -/
structure KernelSnapshot.Resolves (S : KernelSnapshot) (key : CStr) (inode : BitVec 64)
    (pid : ℤ) : Prop where
  covered : ∃ row ∈ S.rows, Covers host row key
  inode_eq : ∀ row ∈ S.rows, Covers host row key → row.inodeWord = inode
  held : ∃ dirent ∈ S.proc, Holds dirent inode
  pid_eq : ∀ dirent ∈ S.proc, Holds dirent inode → direntPid dirent = pid

/-- The connection at `c` is listed by a process with the id `pid`. -/
def PidOf (processes : List NAProcess) (c : Ptr) (pid : ℤ) : Prop :=
  ∃ process ∈ processes, c ∈ process.connections ∧ process.pid = pid

/-- **The tables are current for a key** whose process has the id `pid`: the key is not in the
connection table; or the inode it is mapped to has a program with this id, in the program table or,
if it has none there, after a refresh. -/
def Tables.Current (S : KernelSnapshot) (tables : Tables) (key : CStr) (pid : ℤ) : Prop :=
  ∀ inode, tables.conninode key = some inode →
    (∀ node, tables.inodeproc inode = some node → node.pid = pid) ∧
      (tables.inodeproc inode = none → ∃ node,
        naInodeprocTableRefresh S.proc tables.inodeproc inode = some node ∧ node.pid = pid)

/-- The id of the process a look-up selects: that of the program, or that of a new process. -/
def ProcessLookup.pid (lookup : ProcessLookup) : ℤ := lookup.node.elim 0 NAProgram.pid

/-! ### The process of a connection -/

theorem pidOf_attachedTo {processes processes' : List NAProcess} {c : Ptr} {pid : ℤ}
    (h : AttachedTo processes c pid processes') : PidOf processes' c pid := by
  rcases h with ⟨before, process, after, rfl, _, hpid, rfl⟩ | ⟨_, process, hpid, hc, rfl⟩
  · refine ⟨process.attach c, List.mem_append_right _ List.mem_cons_self, ?_, hpid⟩
    exact List.mem_append_right _ (List.mem_singleton_self c)
  · refine ⟨process, List.mem_append_right _ (List.mem_singleton_self _), ?_, hpid⟩
    rw [hc]
    exact List.mem_singleton_self c

theorem pidOf_attachedUnknown {processes processes' : List NAProcess} {c : Ptr}
    (h : AttachedUnknown processes c processes') : PidOf processes' c 0 := by
  obtain ⟨process, hpid, hc, rfl⟩ := h
  refine ⟨process, List.mem_append_right _ (List.mem_singleton_self _), ?_, hpid⟩
  rw [hc]
  exact List.mem_singleton_self c

/-- A connection is listed by one process only. -/
theorem pidOf_unique {processes : List NAProcess} (h : (ownedBy processes).Nodup) {c : Ptr}
    {pid pid' : ℤ} (hp : PidOf processes c pid) (hp' : PidOf processes c pid') : pid = pid' := by
  obtain ⟨p, hmem, hc, rfl⟩ := hp
  obtain ⟨q, hmem', hc', rfl⟩ := hp'
  obtain ⟨i, hi⟩ := List.mem_iff_getElem?.1 hmem
  obtain ⟨j, hj⟩ := List.mem_iff_getElem?.1 hmem'
  obtain rfl := index_unique_of_nodup h hi hc hj hc'
  obtain rfl := Option.some_inj.1 (hi.symm.trans hj)
  rfl

/-- **The id of the process** a new connection is given to is that of what the look-up finds. -/
theorem push_pidOf_iff {S : KernelSnapshot} {A : Analyzer} (hok : A.state.Ok) {a : Capture}
    {packet : NAPacket} (hpacket : packetOf a.header a.address a.s_port a.d_port = packet)
    (hnew : naConnectionFindFromPacket A.state.store packet = some none) {lookup : ProcessLookup}
    {tables : Tables}
    (hlookup : lookupProgram host S.toProc A.tables (connKey host (connectionInit host packet)) =
      some (lookup, tables)) :
    ∃ A', A.step host S.toProc (.push a) = some A' ∧
      ∀ pid, PidOf A'.state.processes A.state.store.fresh pid ↔ lookup.pid = pid := by
  obtain ⟨store, hstep⟩ := Analyzer.step_new host hpacket hnew hlookup
  refine ⟨_, hstep, ?_⟩
  have hnodup := (Analyzer.step_ok host hok hstep).owned_nodup
  have hselected : PidOf ((selectProcess A.state.processes lookup
      (connKey host (connectionInit host packet))).1.modify
        (selectProcess A.state.processes lookup (connKey host (connectionInit host packet))).2
        (NAProcess.attach A.state.store.fresh)) A.state.store.fresh lookup.pid := by
    obtain ⟨node, uid⟩ := lookup
    cases node with
    | none => exact pidOf_attachedUnknown (attachedUnknown_of_none _ uid _ _)
    | some node => exact pidOf_attachedTo (attachedTo_of_node uid _ _)
  intro pid
  constructor
  · intro hpid
    exact pidOf_unique hnodup hselected hpid
  · rintro rfl
    exact hselected

/-! ### The look-up on arbitrary tables -/

/-- A refreshed program table gives the only process id an inode is held under. -/
theorem refresh_pid {proc : List ProcDirent} {inode : BitVec 64} {pid : ℤ}
    (hheld : ∃ dirent ∈ proc, Holds dirent inode)
    (hpid : ∀ dirent ∈ proc, Holds dirent inode → direntPid dirent = pid)
    (table : InodeprocTable) :
    ∃ node, naInodeprocTableRefresh proc table inode = some node ∧ node.pid = pid := by
  obtain ⟨dirent, hdirent, hholds, heq⟩ := refresh_of_holds hheld table
  exact ⟨_, heq, hpid dirent hdirent hholds⟩

/-- Refreshed tables are current. -/
theorem current_refresh {S : KernelSnapshot} {key : CStr} {inode : BitVec 64} {pid : ℤ}
    (h : S.Resolves host key inode pid) (tables : Tables) :
    (tables.refresh host S).Current S key pid := by
  intro inode' hinode
  obtain ⟨row, hrow, hcovers, heq⟩ := refreshed_of_covered host h.covered tables.conninode
  obtain rfl : row.inodeWord = inode' := Option.some_inj.1 (heq.symm.trans hinode)
  rw [h.inode_eq row hrow hcovers]
  obtain ⟨node, hnode, hpid⟩ := refresh_pid h.held h.pid_eq tables.inodeproc
  have htable : (tables.refresh host S).inodeproc inode = some node := hnode
  refine ⟨?_, ?_⟩
  · intro node' hnode'
    obtain rfl := Option.some_inj.1 (htable.symm.trans hnode')
    exact hpid
  · intro hnone
    rw [htable] at hnone
    cases hnone

/-- **The look-up finds the process** of a key exactly when the tables are current for it. -/
theorem lookup_pid_iff {S : KernelSnapshot} {key : CStr} {inode : BitVec 64} {pid : ℤ}
    (h : S.Resolves host key inode pid) (hpos : 0 < pid) (tables : Tables) :
    ∃ lookup tables', lookupProgram host S.toProc tables key = some (lookup, tables') ∧
      (lookup.pid = pid ↔ tables.Current S key pid) := by
  cases hkey : tables.conninode key with
  | none =>
      -- both tables are refreshed, and the row is found
      obtain ⟨row, hrow, hcovers, hrefreshed⟩ :=
        refreshed_of_covered host h.covered tables.conninode
      rw [h.inode_eq row hrow hcovers] at hrefreshed
      have hfind := findInode_miss host hkey S
      rw [show (tables.refresh host S).conninode key = some inode from hrefreshed] at hfind
      obtain ⟨uid, tables', hlookup⟩ := lookupProgram_found host hfind
      refine ⟨_, tables', hlookup, iff_of_true ?_ ?_⟩
      · obtain ⟨node, hnode, hpid⟩ := refresh_pid h.held h.pid_eq tables.inodeproc
        have htable : (tables.refresh host S).inodeproc inode = some node := hnode
        rw [show S.toProc.proc = S.proc from rfl, naInodeprocTableFindPid]
        simp only [htable, ProcessLookup.pid, Option.elim_some]
        exact hpid
      · intro inode' hinode
        rw [hkey] at hinode
        cases hinode
  | some cached =>
      obtain ⟨uid, tables', hlookup⟩ := lookupProgram_found host (findInode_hit host hkey S.toProc)
      refine ⟨_, tables', hlookup, ?_⟩
      rw [show S.toProc.proc = S.proc from rfl, naInodeprocTableFindPid]
      simp only [Tables.Current, hkey, Option.some_inj, forall_eq']
      cases hnode : tables.inodeproc cached with
      | some node => simp [ProcessLookup.pid]
      | none =>
          cases hrefresh : naInodeprocTableRefresh S.proc tables.inodeproc cached with
          | some node => simp [ProcessLookup.pid]
          | none =>
              -- a new process with the id 0 is not the right one
              have hne : 0 ≠ pid := by omega
              simp [ProcessLookup.pid, hne]

/-- The analyzer as a transition function, when what is in `/proc` comes with every act. -/
def Analyzer.stepAt (A : Analyzer) (x : KernelSnapshot × Act) : Option Analyzer :=
  A.step host x.1.toProc x.2

/-- **No history gets stuck.** -/
theorem Analyzer.history_ok (history : List (KernelSnapshot × Act)) :
    ∃ A, Runs.run (Analyzer.stepAt host) Analyzer.init history = some A ∧ A.state.Ok := by
  have hinit : Analyzer.init.state.Ok := ok_init
  refine @Runs.run_total _ _ (Analyzer.stepAt host) (fun A => A.state.Ok) ?_ _ hinit history
  intro A x hok
  obtain ⟨A', hstep⟩ := Analyzer.step_defined host hok x.1 x.2
  exact ⟨A', hstep, Analyzer.step_ok host hok hstep⟩

/-- The process 43, which holds the socket with the inode 3000. -/
def nextHolder : ProcDirent where
  isDir := true
  d_name := ['4', '3']
  fd := some [⟨true, some (socketMark ++ ['3', '0', '0', '0', ']'])⟩]
  cmdline := some ['y']
  st_uid := some 1000

/-- The connection of `establishedRow` again, of another socket. -/
def reopenedRow : NetRow :=
  { establishedRow with inode := 3000, inode_lt := by decide, fits := by decide }

/-- The process 42 has closed its connection, and the process 43 has opened it again. -/
def reopened : KernelSnapshot where
  tcp := some ⟨['s', 'l', '\n'], [reopenedRow], isLine_header⟩
  tcp6 := none
  udp := none
  udp6 := none
  proc := [nextHolder]

/-- The packet of `firstCapture`. -/
def firstPacket : NAPacket :=
  packetOf firstCapture.header firstCapture.address firstCapture.s_port firstCapture.d_port

/-- The key text of the connection it opens. -/
def firstKey : CStr :=
  connKey (dottedHost [⟨0x020310AC⟩]) (connectionInit (dottedHost [⟨0x020310AC⟩]) firstPacket)

theorem resolves_reopened :
    reopened.Resolves (dottedHost [⟨0x020310AC⟩]) firstKey 3000 43 where
  covered := ⟨reopenedRow, List.mem_singleton_self _, by decide⟩
  inode_eq := by
    intro row hrow _
    rw [List.mem_singleton.1 hrow]
    decide
  held := ⟨nextHolder, List.mem_singleton_self _, rfl, rfl, _, List.mem_singleton_self _, by decide⟩
  pid_eq := by
    intro dirent hdirent _
    rw [List.mem_singleton.1 hdirent]
    decide

end NetworkAnalyzer
