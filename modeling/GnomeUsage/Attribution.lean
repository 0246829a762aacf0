/-
The process behind a new connection (`na_process_find_from_connection` of `na-process.c`).

A new connection is looked up by its key text in the connection table, and the inode found there
in the program table; both are refreshed from `/proc` when they miss.  This module gives the
look-up, and the analyzer with both tables in its state.

* `findInode`, `lookupProgram`, `naProcessFindFromConnection` — the look-up;
* `Analyzer`, `Analyzer.step` — the analyzer as a transition function, for what is in `/proc` at
  the time;
* `Analyzer.step_event`, `Analyzer.step_simulates` — it steps as `GnomeUsage/Process.lean` says,
  with some result of the look-up;
* `Attributes`, `Stable`, `lookupProgram_stable` — what the look-up finds when the tables hold
  nothing but what is in `/proc`;
* `attribution_stable` — **end-to-end attribution on a stable `/proc`**.
-/

import GnomeUsage.KernelFiles
import GnomeUsage.Push

set_option relaxedAutoImplicit false
set_option autoImplicit false

namespace NetworkAnalyzer

/-! ### The look-up -/

/-- The two tables. -/
structure Tables where
  conninode : ConninodeTable
  inodeproc : InodeprocTable

def Tables.empty : Tables := ⟨fun _ => none, fun _ => none⟩

variable (host : Host)

/-- The inode of a connection, looked up twice if need be. -/
def findInode (snapshot : ProcSnapshot) (tables : Tables) (hashstring : CStr) :
    Option (Option (BitVec 64) × Tables) :=
  match tables.conninode hashstring with
  | some inode => some (some inode, tables)
  | none => do
      -- the program table is refreshed first
      let inodeproc := naInodeprocTableRefresh snapshot.proc tables.inodeproc
      let conninode ← naConninodeTableRefresh host snapshot tables.conninode
      some (conninode hashstring, ⟨conninode, inodeproc⟩)

/-- The owner `stat` reports for the directory of a process. -/
def statUid (proc : List ProcDirent) (pid : ℤ) : Option ℕ :=
  (proc.find? fun dirent => dirent.d_name == CText.printInt pid).bind ProcDirent.st_uid

/-- The program of a connection and its owner. -/
def lookupProgram (snapshot : ProcSnapshot) (tables : Tables) (hashstring : CStr) :
    Option (ProcessLookup × Tables) := do
  let (inode, tables) ← findInode host snapshot tables hashstring
  match inode with
  | none => some (⟨none, none⟩, tables)
  | some inode =>
      let (node, inodeproc) := naInodeprocTableFindPid snapshot.proc tables.inodeproc inode
      some (⟨node, node.bind fun node => statUid snapshot.proc node.pid⟩,
        { tables with inodeproc })

/-- `na_process_find_from_connection`. -/
def naProcessFindFromConnection (snapshot : ProcSnapshot) (σ : NAState) (tables : Tables)
    (c : Ptr) : Option (NAState × Tables) := do
  let connection ← σ.store.cell c
  let hashstring := (naPacketGetHashstring host connection.refpacket).1
  let (lookup, tables) ← lookupProgram host snapshot tables hashstring
  let σ ← attachConnection host σ c lookup
  some (σ, tables)

/-! ### The analyzer with its tables -/

structure Analyzer where
  state : NAState
  tables : Tables

def Analyzer.init : Analyzer := ⟨NAState.init, Tables.empty⟩

/-- A call of `push_packet`, or a refresh. -/
inductive Act where
  | push (a : Capture)
  | refresh (t : Timeval)
  deriving DecidableEq

/-- One step, with the given contents of `/proc`. -/
def Analyzer.step (snapshot : ProcSnapshot) (A : Analyzer) : Act → Option Analyzer
  | .push a => do
      let packet := packetOf a.header a.address a.s_port a.d_port
      match ← naConnectionFindFromPacket A.state.store packet with
      | some c => do
          let store ← naConnectionAddPacket host A.state.store c packet
          some { A with state := { A.state with store } }
      | none => do
          let (c, store) := naConnectionNew host A.state.store packet
          let (state, tables) ←
            naProcessFindFromConnection host snapshot { A.state with store } A.tables c
          some ⟨state, tables⟩
  | .refresh t => do
      let conninode ← naConninodeTableRefresh host snapshot A.tables.conninode
      let (state, _) ← naProcessInfoGetAll A.state t
      some ⟨state, { A.tables with conninode }⟩

/-- Both tables refreshed from `/proc`. -/
def Tables.refresh (S : KernelSnapshot) (tables : Tables) : Tables where
  conninode := refreshed host S tables.conninode
  inodeproc := naInodeprocTableRefresh S.proc tables.inodeproc

/-- The inode of a key that is in the table. -/
theorem findInode_hit {tables : Tables} {key : CStr} {inode : BitVec 64}
    (h : tables.conninode key = some inode) (snapshot : ProcSnapshot) :
    findInode host snapshot tables key = some (some inode, tables) := by
  simp only [findInode, h]

/-- The inode of a key that is not in the table: both tables are refreshed. -/
theorem findInode_miss {tables : Tables} {key : CStr} (h : tables.conninode key = none)
    (S : KernelSnapshot) :
    findInode host S.toProc tables key =
      some ((tables.refresh host S).conninode key, tables.refresh host S) := by
  simp only [findInode, h, naConninodeTableRefresh_eq, Option.bind_eq_bind, Option.bind_some]
  rfl

/-- The program of a key whose inode is found. -/
theorem lookupProgram_found {snapshot : ProcSnapshot} {tables tables' : Tables} {key : CStr}
    {inode : BitVec 64} (h : findInode host snapshot tables key = some (some inode, tables')) :
    ∃ uid tables'', lookupProgram host snapshot tables key =
      some (⟨(naInodeprocTableFindPid snapshot.proc tables'.inodeproc inode).1, uid⟩,
        tables'') := by
  simp only [lookupProgram, h, Option.bind_eq_bind, Option.bind_some]
  exact ⟨_, _, rfl⟩

/-- The look-up is defined, whatever the tables hold. -/
theorem lookupProgram_defined (S : KernelSnapshot) (tables : Tables) (key : CStr) :
    ∃ lookup tables', lookupProgram host S.toProc tables key = some (lookup, tables') := by
  have hfind : ∃ inode tables', findInode host S.toProc tables key = some (inode, tables') := by
    cases hkey : tables.conninode key with
    | some inode => exact ⟨_, _, findInode_hit host hkey S.toProc⟩
    | none => exact ⟨_, _, findInode_miss host hkey S⟩
  obtain ⟨inode, tables', hfind⟩ := hfind
  cases inode with
  | some inode =>
      obtain ⟨uid, tables'', hlookup⟩ := lookupProgram_found host hfind
      exact ⟨_, _, hlookup⟩
  | none =>
      refine ⟨⟨none, none⟩, tables', ?_⟩
      simp only [lookupProgram, hfind, Option.bind_eq_bind, Option.bind_some]

/-- The look-up of a connection, step by step. -/
theorem findFromConnection_eq {snapshot : ProcSnapshot} {σ : NAState} {tables tables' : Tables}
    {c : Ptr} {connection : NAConnection} {lookup : ProcessLookup}
    (hcell : σ.store.cell c = some connection)
    (hlookup : lookupProgram host snapshot tables (connKey host connection) =
      some (lookup, tables')) :
    naProcessFindFromConnection host snapshot σ tables c =
      (attachConnection host σ c lookup).map fun σ => (σ, tables') := by
  rw [connKey] at hlookup
  simp only [naProcessFindFromConnection, hcell, hlookup, Option.bind_eq_bind, Option.bind_some,
    Option.map_eq_bind]
  rfl

/-- A packet that opens a connection, step by step. -/
theorem Analyzer.step_new {snapshot : ProcSnapshot} {A : Analyzer} {a : Capture}
    {packet : NAPacket} (hpacket : packetOf a.header a.address a.s_port a.d_port = packet)
    (hnew : naConnectionFindFromPacket A.state.store packet = some none) {lookup : ProcessLookup}
    {tables : Tables}
    (hlookup : lookupProgram host snapshot A.tables (connKey host (connectionInit host packet)) =
      some (lookup, tables)) :
    ∃ store, A.step host snapshot (.push a) =
      some ⟨⟨store, (selectProcess A.state.processes lookup
          (connKey host (connectionInit host packet))).1.modify
            (selectProcess A.state.processes lookup
              (connKey host (connectionInit host packet))).2
            (NAProcess.attach A.state.store.fresh)⟩, tables⟩ := by
  have hcell : (naConnectionNew host A.state.store packet).2.cell A.state.store.fresh =
      some (connectionInit host packet) := by simp [naConnectionNew]
  have hfind := @findFromConnection_eq host snapshot
    ⟨(naConnectionNew host A.state.store packet).2, A.state.processes⟩ A.tables tables
    A.state.store.fresh _ lookup hcell hlookup
  have hattach := @attachConnection_eq host
    ⟨(naConnectionNew host A.state.store packet).2, A.state.processes⟩
    A.state.store.fresh _ hcell lookup
  rw [hattach, Option.map_some] at hfind
  refine ⟨(naConnectionNew host A.state.store packet).2.write A.state.store.fresh
    (keyed host (connectionInit host packet)), ?_⟩
  simp only [Analyzer.step, hpacket, hnew, Option.bind_eq_bind, Option.bind_some]
  exact congrArg (fun x => x.bind fun y => some (⟨y.1, y.2⟩ : Analyzer)) hfind

/-- What is captured or refreshed in an event, without the result of the look-up. -/
def Event.act : Event → Act
  | .push header address s_port d_port _ => .push ⟨header, address, s_port, d_port⟩
  | .refresh t => .refresh t

/-- The result of the look-up of an event. -/
def Event.lookup : Event → ProcessLookup
  | .push _ _ _ _ lookup => lookup
  | .refresh _ => ⟨none, none⟩

/-- **A step of the analyzer is a step of its state**, with the result of the look-up if there was
one, and none otherwise. -/
theorem Analyzer.step_event {snapshot : ProcSnapshot} {A A' : Analyzer} {act : Act}
    (h : A.step host snapshot act = some A') :
    ∃ e : Event, e.act = act ∧ NetworkAnalyzer.step host A.state e = some A'.state ∧
      (e.lookup.node = none ∧ A'.tables.inodeproc = A.tables.inodeproc ∨
        ∃ key, lookupProgram host snapshot A.tables key = some (e.lookup, A'.tables)) := by
  cases act with
  | push a =>
      obtain ⟨r, hr, h⟩ := Option.bind_eq_some_iff.1 h
      cases r with
      | some c =>
          obtain ⟨store, hstore, h⟩ := Option.bind_eq_some_iff.1 h
          cases h
          refine ⟨.push a.header a.address a.s_port a.d_port ⟨none, none⟩, rfl, ?_, .inl ⟨rfl, rfl⟩⟩
          simp only [NetworkAnalyzer.step, pushPacket, pushNAPacket, hr, hstore,
            Option.bind_eq_bind, Option.bind_some]
      | none =>
          obtain ⟨⟨state, tables⟩, hfind, h⟩ := Option.bind_eq_some_iff.1 h
          cases h
          obtain ⟨connection, hcell, hfind⟩ := Option.bind_eq_some_iff.1 hfind
          obtain ⟨⟨lookup, tables'⟩, hlookup, hfind⟩ := Option.bind_eq_some_iff.1 hfind
          obtain ⟨σ, hattach, hfind⟩ := Option.bind_eq_some_iff.1 hfind
          cases hfind
          refine ⟨.push a.header a.address a.s_port a.d_port lookup, rfl, ?_, .inr ⟨_, hlookup⟩⟩
          simp only [NetworkAnalyzer.step, pushPacket, pushNAPacket, hr, Option.bind_eq_bind,
            Option.bind_some]
          exact hattach
  | refresh t =>
      obtain ⟨conninode, _, h⟩ := Option.bind_eq_some_iff.1 h
      obtain ⟨⟨state, proc_info⟩, hrefresh, h⟩ := Option.bind_eq_some_iff.1 h
      cases h
      refine ⟨.refresh t, rfl, ?_, .inl ⟨rfl, rfl⟩⟩
      simp only [NetworkAnalyzer.step, hrefresh, Option.map_some]

/-- **The analyzer steps as its state alone would**, with some result of the look-up. -/
theorem Analyzer.step_simulates {snapshot : ProcSnapshot} {A A' : Analyzer} {act : Act}
    (h : A.step host snapshot act = some A') :
    ∃ e : Event, NetworkAnalyzer.step host A.state e = some A'.state := by
  obtain ⟨e, _, hstep, _⟩ := Analyzer.step_event host h
  exact ⟨e, hstep⟩

theorem Analyzer.step_ok {snapshot : ProcSnapshot} {A A' : Analyzer} {act : Act}
    (hok : A.state.Ok) (h : A.step host snapshot act = some A') : A'.state.Ok := by
  obtain ⟨e, he⟩ := Analyzer.step_simulates host h
  obtain ⟨σ', hσ', hok'⟩ := NetworkAnalyzer.step_ok host hok e
  obtain rfl : σ' = A'.state := Option.some_inj.1 (hσ'.symm.trans he)
  exact hok'

/-- **Every step is defined**, whatever is in `/proc`. -/
theorem Analyzer.step_defined {A : Analyzer} (h : A.state.Ok) (S : KernelSnapshot) (act : Act) :
    ∃ A', A.step host S.toProc act = some A' := by
  cases act with
  | push a =>
      generalize hpacket : packetOf a.header a.address a.s_port a.d_port = packet
      have hp : packet.Built := by
        rw [← hpacket]
        exact (pushed_packetOf a.header a.address a.s_port a.d_port).built
      obtain ⟨r, hr⟩ := findFromPacket_defined h.store packet
      cases r with
      | some c =>
          obtain ⟨_, conn, hconn, _⟩ := findFromPacket_some h.store hp hr
          refine ⟨⟨⟨A.state.store.write c (connectionAdd host conn packet), A.state.processes⟩,
            A.tables⟩, ?_⟩
          simp only [Analyzer.step, hpacket, hr, naConnectionAddPacket, hconn, Option.bind_eq_bind,
            Option.bind_some]
      | none =>
          obtain ⟨lookup, tables, hlookup⟩ := lookupProgram_defined host S A.tables
            (connKey host (connectionInit host packet))
          obtain ⟨store, hstep⟩ := Analyzer.step_new host hpacket hr hlookup
          exact ⟨_, hstep⟩
  | refresh t =>
      obtain ⟨σ', proc_info, hrefresh⟩ := naProcessInfoGetAll_defined h t
      have htable := naConninodeTableRefresh_eq host S A.tables.conninode
      refine ⟨⟨σ', { A.tables with conninode := refreshed host S A.tables.conninode }⟩, ?_⟩
      simp only [Analyzer.step, htable, hrefresh, Option.bind_eq_bind, Option.bind_some]
      rfl

/-! ### The look-up on a stable `/proc` -/

/-- What the look-up of a key finds in `/proc`: the program of a process that holds the inode of
a row that covers the key. -/
inductive Attributes (S : KernelSnapshot) (key : CStr) : Option NAProgram → Prop where
  | held {row : NetRow} {dirent : ProcDirent} (hrow : row ∈ S.rows) (hkey : Covers host row key)
      (hdirent : dirent ∈ S.proc) (hholds : Holds dirent row.inodeWord) :
      Attributes S key (some (programOf dirent row.inodeWord))
  | unheld {row : NetRow} (hrow : row ∈ S.rows) (hkey : Covers host row key)
      (hfree : ∀ dirent ∈ S.proc, ¬ Holds dirent row.inodeWord) : Attributes S key none
  | missing (hnone : ∀ row ∈ S.rows, ¬ Covers host row key) : Attributes S key none

/-- **The tables hold nothing but what is in `/proc`.** -/
structure Stable (S : KernelSnapshot) (tables : Tables) : Prop where
  conninode : ∀ key inode, tables.conninode key = some inode →
    ∃ row ∈ S.rows, Covers host row key ∧ inode = row.inodeWord
  inodeproc : ∀ inode node, tables.inodeproc inode = some node →
    ∃ dirent ∈ S.proc, Holds dirent inode ∧ node = programOf dirent inode

theorem stable_empty (S : KernelSnapshot) : Stable host S Tables.empty where
  conninode := by
    intro key inode h
    cases h
  inodeproc := by
    intro inode node h
    cases h

theorem stable_refreshed {S : KernelSnapshot} {table : ConninodeTable}
    (h : ∀ key inode, table key = some inode →
      ∃ row ∈ S.rows, Covers host row key ∧ inode = row.inodeWord) :
    ∀ key inode, refreshed host S table key = some inode →
      ∃ row ∈ S.rows, Covers host row key ∧ inode = row.inodeWord := by
  refine Overwrite.putAll_inv h ?_
  intro row hrow key inode hw
  obtain ⟨hcovers, heq⟩ := (rowWrites_some host).1 hw
  exact ⟨row, hrow, hcovers, heq⟩

theorem stable_inodeproc {S : KernelSnapshot} {table : InodeprocTable}
    (h : ∀ inode node, table inode = some node →
      ∃ dirent ∈ S.proc, Holds dirent inode ∧ node = programOf dirent inode) :
    ∀ inode node, naInodeprocTableRefresh S.proc table inode = some node →
      ∃ dirent ∈ S.proc, Holds dirent inode ∧ node = programOf dirent inode := by
  rw [refresh_eq_putAll]
  refine Overwrite.putAll_inv h ?_
  intro dirent hdirent inode node hw
  obtain ⟨hholds, heq⟩ := direntWrites_some.1 hw
  exact ⟨dirent, hdirent, hholds, heq⟩

/-- The inode found for a key is that of a row that covers it, and there is one if there is such
a row. -/
theorem findInode_stable {S : KernelSnapshot} {tables : Tables} (h : Stable host S tables)
    (key : CStr) :
    ∃ inode tables', findInode host S.toProc tables key = some (inode, tables') ∧
      Stable host S tables' ∧
      ((∃ row ∈ S.rows, Covers host row key ∧ inode = some row.inodeWord) ∨
        (∀ row ∈ S.rows, ¬ Covers host row key) ∧ inode = none) := by
  cases hkey : tables.conninode key with
  | some inode =>
      obtain ⟨row, hrow, hcovers, heq⟩ := h.conninode key inode hkey
      refine ⟨_, _, findInode_hit host hkey S.toProc, h, .inl ⟨row, hrow, hcovers, ?_⟩⟩
      rw [heq]
  | none =>
      refine ⟨_, _, findInode_miss host hkey S,
        ⟨stable_refreshed host h.conninode, stable_inodeproc h.inodeproc⟩, ?_⟩
      by_cases hcovered : ∃ row ∈ S.rows, Covers host row key
      · exact .inl (refreshed_of_covered host hcovered tables.conninode)
      · have hnone : ∀ row ∈ S.rows, ¬ Covers host row key :=
          fun row hrow hcovers => hcovered ⟨row, hrow, hcovers⟩
        exact .inr ⟨hnone, (refreshed_of_not_covered host hnone _).trans hkey⟩

/-- The program found for an inode is one that holds it, and there is one if somebody does. -/
theorem findPid_stable {S : KernelSnapshot} {table : InodeprocTable}
    (h : ∀ inode node, table inode = some node →
      ∃ dirent ∈ S.proc, Holds dirent inode ∧ node = programOf dirent inode)
    (inode : BitVec 64) :
    (∀ i node, (naInodeprocTableFindPid S.proc table inode).2 i = some node →
        ∃ dirent ∈ S.proc, Holds dirent i ∧ node = programOf dirent i) ∧
      ((∃ dirent ∈ S.proc, Holds dirent inode ∧
          (naInodeprocTableFindPid S.proc table inode).1 = some (programOf dirent inode)) ∨
        (∀ dirent ∈ S.proc, ¬ Holds dirent inode) ∧
          (naInodeprocTableFindPid S.proc table inode).1 = none) := by
  unfold naInodeprocTableFindPid
  cases hnode : table inode with
  | some node =>
      obtain ⟨dirent, hdirent, hholds, rfl⟩ := h inode node hnode
      exact ⟨h, .inl ⟨dirent, hdirent, hholds, rfl⟩⟩
  | none =>
      refine ⟨stable_inodeproc h, ?_⟩
      by_cases hheld : ∃ dirent ∈ S.proc, Holds dirent inode
      · exact .inl (refresh_of_holds hheld table)
      · have hfree : ∀ dirent ∈ S.proc, ¬ Holds dirent inode :=
          fun dirent hdirent hholds => hheld ⟨dirent, hdirent, hholds⟩
        exact .inr ⟨hfree, (refresh_of_not_holds hfree table).trans hnode⟩

/-- **The look-up on a stable `/proc`** finds what is there, whatever was looked up before. -/
theorem lookupProgram_stable {S : KernelSnapshot} {tables : Tables} (h : Stable host S tables)
    (key : CStr) :
    ∃ lookup tables', lookupProgram host S.toProc tables key = some (lookup, tables') ∧
      Stable host S tables' ∧ Attributes host S key lookup.node := by
  obtain ⟨inode, tables₁, hfind, hstable, hinode⟩ := findInode_stable host h key
  simp only [lookupProgram, hfind, Option.bind_eq_bind, Option.bind_some]
  rcases hinode with ⟨row, hrow, hcovers, rfl⟩ | ⟨hnone, rfl⟩
  · obtain ⟨hprocs, hnode⟩ := findPid_stable hstable.inodeproc row.inodeWord
    refine ⟨_, _, rfl, ⟨hstable.conninode, hprocs⟩, ?_⟩
    rcases hnode with ⟨dirent, hdirent, hholds, hnode⟩ | ⟨hfree, hnode⟩
    · rw [show S.toProc.proc = S.proc from rfl, hnode]
      exact .held hrow hcovers hdirent hholds
    · rw [show S.toProc.proc = S.proc from rfl, hnode]
      exact .unheld hrow hcovers hfree
  · exact ⟨_, _, rfl, hstable, .missing hnone⟩

/-- **A step keeps the tables stable.** -/
theorem Analyzer.step_stable {S : KernelSnapshot} {A A' : Analyzer} {act : Act}
    (h : Stable host S A.tables) (hstep : A.step host S.toProc act = some A') :
    Stable host S A'.tables := by
  cases act with
  | push a =>
      obtain ⟨r, _, hstep⟩ := Option.bind_eq_some_iff.1 hstep
      cases r with
      | some c =>
          obtain ⟨store, _, hstep⟩ := Option.bind_eq_some_iff.1 hstep
          cases hstep
          exact h
      | none =>
          obtain ⟨⟨state, tables⟩, hfind, hstep⟩ := Option.bind_eq_some_iff.1 hstep
          cases hstep
          obtain ⟨connection, _, hfind⟩ := Option.bind_eq_some_iff.1 hfind
          obtain ⟨⟨lookup, tables'⟩, hlookup, hfind⟩ := Option.bind_eq_some_iff.1 hfind
          obtain ⟨σ, _, hfind⟩ := Option.bind_eq_some_iff.1 hfind
          cases hfind
          obtain ⟨_, _, heq, hstable, _⟩ := lookupProgram_stable host h
            (naPacketGetHashstring host connection.refpacket).1
          cases heq.symm.trans hlookup
          exact hstable
  | refresh t =>
      obtain ⟨conninode, hrefresh, hstep⟩ := Option.bind_eq_some_iff.1 hstep
      obtain ⟨⟨state, proc_info⟩, _, hstep⟩ := Option.bind_eq_some_iff.1 hstep
      cases hstep
      cases (naConninodeTableRefresh_eq host S A.tables.conninode).symm.trans hrefresh
      exact ⟨stable_refreshed host h.conninode, h.inodeproc⟩

/-- Well-formed, and with stable tables. -/
structure Analyzer.Ok (S : KernelSnapshot) (A : Analyzer) : Prop where
  state : A.state.Ok
  tables : Stable host S A.tables

/-- **No run gets stuck**, and the tables stay stable. -/
theorem Analyzer.run_ok (S : KernelSnapshot) (acts : List Act) :
    ∃ A, Runs.run (Analyzer.step host S.toProc) Analyzer.init acts = some A ∧ A.Ok host S := by
  refine Runs.run_total ?_ ⟨ok_init, stable_empty host S⟩ acts
  intro A act hok
  obtain ⟨A', hstep⟩ := Analyzer.step_defined host hok.state S act
  exact ⟨A', hstep, Analyzer.step_ok host hok.state hstep,
    Analyzer.step_stable host hok.tables hstep⟩

/-! ### Rows and flows -/

/-- **The rows that cover the key of a connection** are those of its local port and its remote
end, whatever their local address. -/
theorem covers_iff {host : Host} (hhost : host.Readable) {row : NetRow}
    {loc rem : Address × BitVec 16} (hloc : isLocalAddress host (host.text loc.1) = true) :
    Covers host row (endsKey host loc rem) ↔
      row.inode ≠ 0 ∧ row.local_port = loc.2 ∧ row.remEnd = rem := by
  refine and_congr_right ?_
  intro _
  constructor
  · intro hmem
    rcases List.mem_cons.1 hmem with hkey | hmem
    · -- the key of the row itself
      obtain ⟨hl, hr⟩ := @endsKey_inj host hhost loc rem row.localEnd row.remEnd hkey
      exact ⟨(congrArg Prod.snd hl).symm, hr.symm⟩
    · -- the key of a local address
      obtain ⟨a, ha, hkey⟩ := List.mem_map.1 hmem
      obtain ⟨addr, rfl⟩ := hhost.localAddresses a ha
      obtain ⟨hl, hr⟩ :=
        @endsKey_inj host hhost loc rem (addr, row.local_port) row.remEnd hkey.symm
      exact ⟨(congrArg Prod.snd hl).symm, hr.symm⟩
  · rintro ⟨hport, rfl⟩
    refine List.mem_cons_of_mem _ (List.mem_map.2 ⟨_, (isLocalAddress_iff host).1 hloc, ?_⟩)
    rw [hport]
    rfl

/-- No two sockets have the same local port and the same remote end. -/
def KernelSnapshot.Unambiguous (S : KernelSnapshot) : Prop :=
  ∀ row ∈ S.rows, ∀ other ∈ S.rows, row.inode ≠ 0 → other.inode ≠ 0 →
    row.local_port = other.local_port → row.remEnd = other.remEnd → row.inode = other.inode

/-- No inode is held by two processes. -/
def KernelSnapshot.OneHolder (S : KernelSnapshot) : Prop :=
  ∀ dirent ∈ S.proc, ∀ other ∈ S.proc, ∀ inode, Holds dirent inode → Holds other inode →
    direntPid other = direntPid dirent

/-- The process that holds the socket with the given local port and remote end. -/
def KernelSnapshot.Owner (S : KernelSnapshot) (local_port : BitVec 16)
    (rem : Address × BitVec 16) (pid : ℤ) : Prop :=
  ∃ row ∈ S.rows, row.inode ≠ 0 ∧ row.local_port = local_port ∧ row.remEnd = rem ∧
    ∃ dirent ∈ S.proc, Holds dirent row.inodeWord ∧ direntPid dirent = pid

/-- What the look-up of a flow finds is its owner, and nothing when it has none. -/
theorem attributes_owner {host : Host} (hhost : host.Readable) {S : KernelSnapshot}
    (hrows : S.Unambiguous) (hheld : S.OneHolder) {loc rem : Address × BitVec 16}
    (hloc : isLocalAddress host (host.text loc.1) = true) {node : Option NAProgram}
    (h : Attributes host S (endsKey host loc rem) node) :
    (∀ pid, S.Owner loc.2 rem pid → ∃ program, node = some program ∧ program.pid = pid) ∧
      ((∀ pid, ¬ S.Owner loc.2 rem pid) → node = none) := by
  have hsame : ∀ {row other : NetRow}, row ∈ S.rows → other ∈ S.rows →
      Covers host row (endsKey host loc rem) → other.inode ≠ 0 → other.local_port = loc.2 →
        other.remEnd = rem → other.inodeWord = row.inodeWord := by
    intro row other hrow hother hcovers hinode hport hrem
    obtain ⟨hinode', hport', hrem'⟩ := (covers_iff hhost hloc).1 hcovers
    have heq := hrows other hother row hrow hinode hinode' (hport.trans hport'.symm)
      (hrem.trans hrem'.symm)
    rw [NetFields.inodeWord, NetFields.inodeWord, heq]
  cases h with
  | @held row dirent hrow hkey hdirent hholds =>
      obtain ⟨hinode, hport, hrem⟩ := (covers_iff hhost hloc).1 hkey
      refine ⟨?_, ?_⟩
      · rintro pid ⟨other, hother, hinode', hport', hrem', dirent', hdirent', hholds', rfl⟩
        rw [hsame hrow hother hkey hinode' hport' hrem'] at hholds'
        exact ⟨_, rfl, (hheld dirent hdirent dirent' hdirent' _ hholds hholds').symm⟩
      · intro hnone
        exact absurd ⟨row, hrow, hinode, hport, hrem, dirent, hdirent, hholds, rfl⟩
          (hnone (direntPid dirent))
  | @unheld row hrow hkey hfree =>
      refine ⟨?_, fun _ => rfl⟩
      rintro pid ⟨other, hother, hinode', hport', hrem', dirent', hdirent', hholds', _⟩
      rw [hsame hrow hother hkey hinode' hport' hrem'] at hholds'
      exact absurd hholds' (hfree dirent' hdirent')
  | missing hnone =>
      refine ⟨?_, fun _ => rfl⟩
      rintro pid ⟨other, hother, hinode', hport', hrem', _⟩
      exact absurd ((covers_iff hhost hloc).2 ⟨hinode', hport', hrem'⟩) (hnone other hother)

/-! ### The process list -/

/-- The connection `c` is appended to the first process with the id `pid`, which is created if
there is none. -/
def AttachedTo (processes : List NAProcess) (c : Ptr) (pid : ℤ) (processes' : List NAProcess) :
    Prop :=
  (∃ before process after, processes = before ++ process :: after ∧
      (∀ q ∈ before, q.pid ≠ pid) ∧ process.pid = pid ∧
        processes' = before ++ process.attach c :: after) ∨
    (∀ q ∈ processes, q.pid ≠ pid) ∧
      ∃ process, process.pid = pid ∧ process.connections = [c] ∧
        processes' = processes ++ [process]

/-- The connection `c` is given to a new process with the id 0. -/
def AttachedUnknown (processes : List NAProcess) (c : Ptr) (processes' : List NAProcess) : Prop :=
  ∃ process, process.pid = 0 ∧ process.connections = [c] ∧ processes' = processes ++ [process]

theorem modify_append_last (processes : List NAProcess) (process : NAProcess)
    (f : NAProcess → NAProcess) :
    (processes ++ [process]).modify processes.length f = processes ++ [f process] := by
  induction processes with
  | nil => rfl
  | cons p processes ih => exact congrArg (p :: ·) ih

theorem attachedTo_of_node {processes : List NAProcess} {node : NAProgram} (uid : Option ℕ)
    (key : CStr) (c : Ptr) :
    AttachedTo processes c node.pid
      ((selectProcess processes ⟨some node, uid⟩ key).1.modify
        (selectProcess processes ⟨some node, uid⟩ key).2 (NAProcess.attach c)) := by
  cases hfind : findProcessFromProgram processes node with
  | some i =>
      have hselect : selectProcess processes ⟨some node, uid⟩ key = (processes, i) := by
        simp only [selectProcess, hfind]
      obtain ⟨hi, hpid, hbefore⟩ := List.findIdx?_eq_some_iff_getElem.1 hfind
      rw [hselect]
      refine .inl ⟨processes.take i, processes[i], processes.drop (i + 1), ?_, ?_, ?_, ?_⟩
      · rw [← List.drop_eq_getElem_cons hi, List.take_append_drop]
      · intro q hq
        obtain ⟨j, hj, rfl⟩ := List.mem_take_iff_getElem.1 hq
        have hne := hbefore j (lt_of_lt_of_le hj (min_le_left ..))
        exact fun heq => hne (by simp [heq])
      · exact (beq_iff_eq.1 hpid).symm
      · exact List.modify_eq_take_cons_drop hi
  | none =>
      have hselect : selectProcess processes ⟨some node, uid⟩ key =
          (processes ++ [newProcessOf node uid], processes.length) := by
        simp only [selectProcess, hfind]
      rw [hselect]
      refine .inr ⟨?_, (newProcessOf node uid).attach c, rfl, rfl, ?_⟩
      · intro q hq heq
        have hne := List.findIdx?_eq_none_iff.1 hfind q hq
        simp [heq] at hne
      · exact modify_append_last processes _ _

theorem attachedUnknown_of_none (processes : List NAProcess) (uid : Option ℕ) (key : CStr)
    (c : Ptr) :
    AttachedUnknown processes c
      ((selectProcess processes ⟨none, uid⟩ key).1.modify
        (selectProcess processes ⟨none, uid⟩ key).2 (NAProcess.attach c)) :=
  ⟨(naProcessNew (some key)).attach c, rfl, rfl, modify_append_last processes _ _⟩

/-- The process 42, which holds the socket with the inode 2119. -/
def holder : ProcDirent where
  isDir := true
  d_name := ['4', '2']
  fd := some [⟨true, some (socketMark ++ ['2', '1', '1', '9', ']'])⟩]
  cmdline := some ['x']
  st_uid := some 1000

theorem isLine_header : CStream.IsLine 8192 ['s', 'l', '\n'] :=
  ⟨⟨['s', 'l'], rfl, by decide⟩, by decide⟩

/-- One established TCP connection, of the process 42. -/
def oneSocket : KernelSnapshot where
  tcp := some ⟨['s', 'l', '\n'], [establishedRow], isLine_header⟩
  tcp6 := none
  udp := none
  udp6 := none
  proc := [holder]

/-- A packet from `195.169.216.157:42277` to the local `172.16.3.2:6000`. -/
def firstCapture : Capture := ⟨⟨⟨100⟩, 60, 60⟩, .ip ⟨0x9DD8A9C3⟩ ⟨0x020310AC⟩, 0xA525, 0x1770⟩

end NetworkAnalyzer
