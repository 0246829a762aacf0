/-
Where an attribution comes from.

Both tables keep what they once read, so that on a `/proc` that changes a connection may be given to
a process on the strength of a row of one reading and of a link of another.  This module says that
nothing else can happen: over any history of readings, every name, every process id and every
connection listed under it goes back to something that was read, and what has been attributed once
is never attributed otherwise.

* `RowSeen`, `HolderSeen`, `Recorded` — **the tables hold nothing that was not read**;
* `Backed` — the ways a connection comes to its process id: a covering row and a holder of its
  inode, both read at some time; or, for the id 0, a reading in which one of the two was missing;
* `NamedBy` — where the name of a process comes from;
* `Documented` — the invariant of a history, with `documented_step`;
* `attribution_documented` — **every attribution is backed by what was read**, and is final.
-/

import GnomeUsage.Accounts
import GnomeUsage.Caching

set_option relaxedAutoImplicit false
set_option autoImplicit false

namespace NetworkAnalyzer

variable (host : Host)

/-! ### What was read -/

/-- A row that was read covers the key and is that of the socket `inode`. -/
def RowSeen (seen : List KernelSnapshot) (key : CStr) (inode : BitVec 64) : Prop :=
  ∃ S ∈ seen, ∃ row ∈ S.rows, Covers host row key ∧ inode = row.inodeWord

/-- A directory that was read holds the socket `inode`, and `node` is its program. -/
def HolderSeen (seen : List KernelSnapshot) (inode : BitVec 64) (node : NAProgram) : Prop :=
  ∃ S ∈ seen, ∃ dirent ∈ S.proc, Holds dirent inode ∧ node = programOf dirent inode

/-- **The tables hold nothing that was not read.** -/
structure Recorded (seen : List KernelSnapshot) (tables : Tables) : Prop where
  conninode : ∀ key inode, tables.conninode key = some inode → RowSeen host seen key inode
  inodeproc : ∀ inode node, tables.inodeproc inode = some node → HolderSeen seen inode node

/-- **How a connection comes to its process id.** -/
inductive Backed (seen : List KernelSnapshot) (key : CStr) : ℤ → Prop where
  /-- By a row that covers its key, and a directory that holds the inode of the row. -/
  | held {S S' : KernelSnapshot} {row : NetRow} {dirent : ProcDirent} (hS : S ∈ seen)
      (hrow : row ∈ S.rows) (hkey : Covers host row key) (hS' : S' ∈ seen)
      (hdirent : dirent ∈ S'.proc) (hholds : Holds dirent row.inodeWord) :
      Backed seen key (direntPid dirent)
  /-- By no row. -/
  | uncovered {S : KernelSnapshot} (hS : S ∈ seen) (hnone : ∀ row ∈ S.rows, ¬ Covers host row key) :
      Backed seen key 0
  /-- By a row that covers its key, when nobody held the inode of the row. -/
  | unheld {S S' : KernelSnapshot} {row : NetRow} (hS : S ∈ seen) (hrow : row ∈ S.rows)
      (hkey : Covers host row key) (hS' : S' ∈ seen)
      (hfree : ∀ dirent ∈ S'.proc, ¬ Holds dirent row.inodeWord) : Backed seen key 0

/-- **Where a process has its name from**: the command line of a directory that was read, or the key
text of a connection. -/
inductive NamedBy (history : List (KernelSnapshot × Act)) : Option CStr → ℤ → Prop where
  | program {S : KernelSnapshot} {dirent : ProcDirent} {inode : BitVec 64}
      (hS : S ∈ history.map Prod.fst) (hdirent : dirent ∈ S.proc) (hholds : Holds dirent inode) :
      NamedBy history dirent.cmdline (direntPid dirent)
  | key {S : KernelSnapshot} {a : Capture} (hmem : (S, .push a) ∈ history) :
      NamedBy history (some (connKey host
        (connectionInit host (packetOf a.header a.address a.s_port a.d_port)))) 0

section Reading

variable {host} {seen seen' : List KernelSnapshot} {key : CStr} {inode : BitVec 64}

theorem RowSeen.mono (h : RowSeen host seen key inode) (hsub : seen ⊆ seen') :
    RowSeen host seen' key inode := by
  obtain ⟨S, hS, hrow⟩ := h
  exact ⟨S, hsub hS, hrow⟩

theorem HolderSeen.mono {node : NAProgram} (h : HolderSeen seen inode node)
    (hsub : seen ⊆ seen') : HolderSeen seen' inode node := by
  obtain ⟨S, hS, hdirent⟩ := h
  exact ⟨S, hsub hS, hdirent⟩

theorem Recorded.mono {tables : Tables} (h : Recorded host seen tables) (hsub : seen ⊆ seen') :
    Recorded host seen' tables :=
  ⟨fun key inode hk => (h.conninode key inode hk).mono hsub,
    fun inode node hi => (h.inodeproc inode node hi).mono hsub⟩

theorem Backed.mono {pid : ℤ} (h : Backed host seen key pid) (hsub : seen ⊆ seen') :
    Backed host seen' key pid := by
  cases h with
  | held hS hrow hkey hS' hdirent hholds =>
      exact .held (hsub hS) hrow hkey (hsub hS') hdirent hholds
  | uncovered hS hnone => exact .uncovered (hsub hS) hnone
  | unheld hS hrow hkey hS' hfree => exact .unheld (hsub hS) hrow hkey (hsub hS') hfree

theorem NamedBy.mono {history later : List (KernelSnapshot × Act)} {name : Option CStr} {pid : ℤ}
    (h : NamedBy host history name pid) : NamedBy host (history ++ later) name pid := by
  cases h with
  | program hS hdirent hholds =>
      refine .program ?_ hdirent hholds
      rw [List.map_append]
      exact List.mem_append_left _ hS
  | key hmem => exact .key (List.mem_append_left _ hmem)

theorem recorded_empty : Recorded host [] Tables.empty where
  conninode := fun _ _ h => by cases h
  inodeproc := fun _ _ h => by cases h

/-! ### The tables -/

variable {S : KernelSnapshot} {tables tables' : Tables}

/-- A refresh of the connection table records the rows it reads. -/
theorem recorded_conninode (hS : S ∈ seen) (h : Recorded host seen tables) :
    ∀ key inode, refreshed host S tables.conninode key = some inode →
      RowSeen host seen key inode := by
  refine Overwrite.putAll_inv h.conninode ?_
  intro row hrow key inode hw
  obtain ⟨hcovers, heq⟩ := (rowWrites_some host).1 hw
  exact ⟨S, hS, row, hrow, hcovers, heq⟩

/-- A refresh of the program table records the links it reads. -/
theorem recorded_inodeproc (hS : S ∈ seen) (h : Recorded host seen tables) :
    ∀ inode node, naInodeprocTableRefresh S.proc tables.inodeproc inode = some node →
      HolderSeen seen inode node := by
  rw [refresh_eq_putAll]
  refine Overwrite.putAll_inv h.inodeproc ?_
  intro dirent hdirent inode node hw
  obtain ⟨hholds, heq⟩ := direntWrites_some.1 hw
  exact ⟨S, hS, dirent, hdirent, hholds, heq⟩

/-- The inode found for a key is that of a row that was read, or no row of the last reading covers
the key. -/
theorem findInode_recorded (hS : S ∈ seen) (h : Recorded host seen tables)
    {found : Option (BitVec 64)}
    (hfind : findInode host S.toProc tables key = some (found, tables')) :
    Recorded host seen tables' ∧
      match found with
      | some inode => RowSeen host seen key inode
      | none => ∀ row ∈ S.rows, ¬ Covers host row key := by
  cases hkey : tables.conninode key with
  | some cached =>
      cases (findInode_hit host hkey S.toProc).symm.trans hfind
      exact ⟨h, h.conninode key cached hkey⟩
  | none =>
      have hrecorded : Recorded host seen (tables.refresh host S) :=
        ⟨recorded_conninode hS h, recorded_inodeproc hS h⟩
      have hmiss := (findInode_miss host hkey S).symm.trans hfind
      rw [Option.some_inj, Prod.mk.injEq] at hmiss
      obtain ⟨hfound, rfl⟩ := hmiss
      refine ⟨hrecorded, ?_⟩
      cases found with
      | some inode => exact hrecorded.conninode key inode hfound
      | none =>
          intro row hrow hcovers
          obtain ⟨other, _, _, hother⟩ :=
            refreshed_of_covered host ⟨row, hrow, hcovers⟩ tables.conninode
          cases hother.symm.trans hfound

/-- The program found for an inode is one that was read, or nobody held the inode at the last
reading. -/
theorem findPid_recorded (hS : S ∈ seen) (h : Recorded host seen tables)
    {node : Option NAProgram} {table : InodeprocTable}
    (hfind : naInodeprocTableFindPid S.proc tables.inodeproc inode = (node, table)) :
    (∀ i node, table i = some node → HolderSeen seen i node) ∧
      match node with
      | some node => HolderSeen seen inode node
      | none => ∀ dirent ∈ S.proc, ¬ Holds dirent inode := by
  cases hcached : tables.inodeproc inode with
  | some program =>
      simp only [naInodeprocTableFindPid, hcached, Prod.mk.injEq] at hfind
      obtain ⟨rfl, rfl⟩ := hfind
      exact ⟨h.inodeproc, h.inodeproc inode program hcached⟩
  | none =>
      simp only [naInodeprocTableFindPid, hcached, Prod.mk.injEq] at hfind
      obtain ⟨hnode, rfl⟩ := hfind
      refine ⟨recorded_inodeproc hS h, ?_⟩
      cases node with
      | some program => exact recorded_inodeproc hS h inode program hnode
      | none =>
          intro dirent hdirent hholds
          obtain ⟨other, _, _, hother⟩ :=
            refresh_of_holds ⟨dirent, hdirent, hholds⟩ tables.inodeproc
          cases hother.symm.trans hnode

/-- **What the look-up finds was read**, and if it finds nothing it did not read what it needs. -/
theorem lookupProgram_recorded (hS : S ∈ seen) (h : Recorded host seen tables)
    {lookup : ProcessLookup}
    (hlookup : lookupProgram host S.toProc tables key = some (lookup, tables')) :
    Recorded host seen tables' ∧ Backed host seen key lookup.pid ∧
      ∀ node, lookup.node = some node → ∃ inode, HolderSeen seen inode node := by
  obtain ⟨⟨found, tables₁⟩, hfind, hlookup⟩ := Option.bind_eq_some_iff.1 hlookup
  obtain ⟨hrecorded, hfound⟩ := findInode_recorded hS h hfind
  cases found with
  | none =>
      cases hlookup
      refine ⟨hrecorded, .uncovered hS hfound, ?_⟩
      rintro node ⟨⟩
  | some inode =>
      obtain ⟨⟨node, table⟩, hpid⟩ :
          ∃ r, naInodeprocTableFindPid S.proc tables₁.inodeproc inode = r := ⟨_, rfl⟩
      simp only [show S.toProc.proc = S.proc from rfl, hpid, Option.some_inj,
        Prod.mk.injEq] at hlookup
      obtain ⟨rfl, rfl⟩ := hlookup
      obtain ⟨hprocs, hnode⟩ := findPid_recorded hS hrecorded hpid
      obtain ⟨S₁, hS₁, row, hrow, hcovers, rfl⟩ := hfound
      refine ⟨⟨hrecorded.conninode, hprocs⟩, ?_, ?_⟩
      · cases node with
        | some program =>
            obtain ⟨S₂, hS₂, dirent, hdirent, hholds, rfl⟩ := hnode
            exact .held hS₁ hrow hcovers hS₂ hdirent hholds
        | none => exact .unheld hS₁ hrow hcovers hS hnode
      · rintro program rfl
        exact ⟨_, hnode⟩

end Reading

/-! ### The steps -/

/-- **What a packet does to the analyzer**: it is added to its connection, or a connection is opened
with what the look-up of its key finds. -/
theorem Analyzer.step_push {snapshot : ProcSnapshot} {A A' : Analyzer} {a : Capture}
    {packet : NAPacket} (hpacket : packetOf a.header a.address a.s_port a.d_port = packet)
    (hok : A.state.Ok) (hstep : A.step host snapshot (.push a) = some A') :
    (∃ c conn, A.state.store.cell c = some conn ∧
        A' = ⟨⟨A.state.store.write c (connectionAdd host conn packet), A.state.processes⟩,
          A.tables⟩) ∨
      ∃ lookup, lookupProgram host snapshot A.tables (connKey host (connectionInit host packet)) =
          some (lookup, A'.tables) ∧
        A'.state = ⟨A.state.store.opened host packet,
          (selectProcess A.state.processes lookup
              (connKey host (connectionInit host packet))).1.modify
            (selectProcess A.state.processes lookup
              (connKey host (connectionInit host packet))).2
            (NAProcess.attach A.state.store.fresh)⟩ := by
  have hp : packet.Built := hpacket ▸ (pushed_packetOf a.header a.address a.s_port a.d_port).built
  simp only [Analyzer.step, hpacket] at hstep
  obtain ⟨r, hr, hstep⟩ := Option.bind_eq_some_iff.1 hstep
  cases r with
  | some c =>
      obtain ⟨_, conn, hconn, _⟩ := findFromPacket_some hok.store hp hr
      obtain ⟨store, hstore, hstep⟩ := Option.bind_eq_some_iff.1 hstep
      simp only [naConnectionAddPacket, hconn, Option.bind_eq_bind, Option.bind_some,
        Option.some_inj] at hstore
      cases hstep
      subst hstore
      exact .inl ⟨c, conn, hconn, rfl⟩
  | none =>
      obtain ⟨⟨state, tables⟩, hfind, hstep⟩ := Option.bind_eq_some_iff.1 hstep
      cases hstep
      have hcell : (naConnectionNew host A.state.store packet).2.cell A.state.store.fresh =
          some (connectionInit host packet) := by simp [naConnectionNew]
      obtain ⟨connection, hconnection, hfind⟩ := Option.bind_eq_some_iff.1 hfind
      obtain rfl : connectionInit host packet = connection :=
        Option.some_inj.1 (hcell.symm.trans hconnection)
      obtain ⟨⟨lookup, tables'⟩, hlookup, hfind⟩ := Option.bind_eq_some_iff.1 hfind
      obtain ⟨σ, hattach, hfind⟩ := Option.bind_eq_some_iff.1 hfind
      cases hfind
      have heq := (@attachConnection_eq host
        ⟨(naConnectionNew host A.state.store packet).2, A.state.processes⟩ _ _ hcell
          lookup).symm.trans hattach
      exact .inr ⟨lookup, hlookup, (Option.some_inj.1 heq).symm⟩

/-- A new connection keeps its key when it is written down in the packet. -/
theorem connKey_keyed (conn : NAConnection) :
    connKey host (keyed host conn) = connKey host conn := by
  unfold connKey keyed naPacketGetHashstring
  cases h : conn.refpacket.hashstring with
  | some key => simp only [h]
  | none => rfl

theorem connKey_congr {conn conn' : NAConnection} (h : conn'.refpacket = conn.refpacket) :
    connKey host conn' = connKey host conn := by
  rw [connKey, connKey, h]

/-- **The invariant of a history**: the tables, the names and the connections of the processes are
backed by what was read. -/
structure Documented (history : List (KernelSnapshot × Act)) (A : Analyzer) : Prop where
  ok : A.state.Ok
  tables : Recorded host (history.map Prod.fst) A.tables
  names : ∀ process ∈ A.state.processes, NamedBy host history process.name process.pid
  connections : ∀ process ∈ A.state.processes, ∀ c ∈ process.connections, ∀ conn,
    A.state.store.cell c = some conn →
      Backed host (history.map Prod.fst) (connKey host conn) process.pid

theorem documented_init : Documented host [] Analyzer.init where
  ok := ok_init
  tables := recorded_empty
  names := fun _ h => absurd h List.not_mem_nil
  connections := fun _ h => absurd h List.not_mem_nil

/-- The processes after a connection was attached have the names and the ids of processes there
were, or those of the new one. -/
theorem name_attached {processes : List NAProcess} {lookup : ProcessLookup} {key : CStr} {c : Ptr}
    {process : NAProcess}
    (h : process ∈ (selectProcess processes lookup key).1.modify
      (selectProcess processes lookup key).2 (NAProcess.attach c)) :
    (∃ q ∈ processes, q.name = process.name ∧ q.pid = process.pid) ∨
      (∃ node, lookup.node = some node ∧ node.name = process.name ∧ node.pid = process.pid) ∨
        lookup.node = none ∧ some key = process.name ∧ 0 = process.pid := by
  obtain ⟨q, hq, hname, hpid⟩ : ∃ q ∈ (selectProcess processes lookup key).1,
      q.name = process.name ∧ q.pid = process.pid := by
    obtain ⟨i, hi⟩ := List.mem_iff_getElem?.1 h
    rw [List.getElem?_modify] at hi
    obtain ⟨q, hq, heq⟩ := Option.map_eq_some_iff.1 hi
    refine ⟨q, List.mem_of_getElem? hq, ?_⟩
    split at heq
    · rw [← heq]
      exact ⟨rfl, rfl⟩
    · exact ⟨congrArg NAProcess.name heq, congrArg NAProcess.pid heq⟩
  rw [← hname, ← hpid]
  unfold selectProcess at hq
  cases hnode : lookup.node with
  | none =>
      simp only [hnode] at hq
      rcases List.mem_append.1 hq with hq | hq
      · exact .inl ⟨q, hq, rfl, rfl⟩
      · rw [List.mem_singleton.1 hq]
        exact .inr (.inr ⟨rfl, rfl, rfl⟩)
  | some node =>
      simp only [hnode] at hq
      cases hfind : findProcessFromProgram processes node with
      | some i =>
          simp only [hfind] at hq
          exact .inl ⟨q, hq, rfl, rfl⟩
      | none =>
          simp only [hfind] at hq
          rcases List.mem_append.1 hq with hq | hq
          · exact .inl ⟨q, hq, rfl, rfl⟩
          · rw [List.mem_singleton.1 hq]
            exact .inr (.inl ⟨node, rfl, rfl, rfl⟩)

section Step

variable {host} {history : List (KernelSnapshot × Act)} {A A' : Analyzer} {S : KernelSnapshot}

/-- **A packet keeps the attributions documented.** -/
theorem documented_push (h : Documented host history A) {a : Capture}
    (hstep : A.stepAt host (S, .push a) = some A') :
    Documented host (history ++ [(S, .push a)]) A' := by
  have hok' := Analyzer.step_ok host h.ok hstep
  have hseen : (history ++ [(S, Act.push a)]).map Prod.fst = history.map Prod.fst ++ [S] := by
    rw [List.map_append]
    rfl
  have hS : S ∈ history.map Prod.fst ++ [S] :=
    List.mem_append_right _ (List.mem_singleton_self _)
  have hsub : history.map Prod.fst ⊆ history.map Prod.fst ++ [S] := List.subset_append_left _ _
  rcases Analyzer.step_push host rfl h.ok hstep with
    ⟨d, conn, hconn, rfl⟩ | ⟨lookup, hlookup, hstate⟩
  · refine ⟨hok', hseen ▸ h.tables.mono hsub, fun q hq => (h.names q hq).mono, ?_⟩
    intro process hprocess c hc conn' hconn'
    rw [hseen]
    by_cases hcd : c = d
    · subst hcd
      rw [cell_write_self] at hconn'
      cases hconn'
      rw [connKey_congr host (refpacket_add host conn _)]
      exact (h.connections process hprocess c hc conn hconn).mono hsub
    · rw [cell_write_of_ne hcd] at hconn'
      exact (h.connections process hprocess c hc conn' hconn').mono hsub
  · obtain ⟨hrecorded, hbacked, hprogram⟩ :=
      lookupProgram_recorded hS (h.tables.mono hsub) hlookup
    refine ⟨hok', hseen ▸ hrecorded, ?_, ?_⟩
    · intro process hprocess
      rw [hstate] at hprocess
      rcases name_attached hprocess with
        ⟨q, hq, hname, hpid⟩ | ⟨node, hnode, hname, hpid⟩ | ⟨_, hname, hpid⟩
      · rw [← hname, ← hpid]
        exact (h.names q hq).mono
      · obtain ⟨inode, S', hS', dirent, hdirent, hholds, rfl⟩ := hprogram node hnode
        rw [← hname, ← hpid]
        exact .program (hseen ▸ hS') hdirent hholds
      · rw [← hname, ← hpid]
        exact .key (List.mem_append_right _ (List.mem_singleton_self _))
    · have hne : ∀ {process : NAProcess} {c : Ptr}, process ∈ A.state.processes →
          c ∈ process.connections → c ≠ A.state.store.fresh := fun hprocess hc =>
        (h.ok.store.lt_fresh _ (h.ok.owned _ (mem_ownedBy.2 ⟨_, hprocess, hc⟩))).ne
      intro process hprocess c hc conn' hconn'
      rw [hstate] at hprocess hconn'
      rw [hseen]
      by_cases hcf : c = A.state.store.fresh
      · -- the new connection has the id that was looked up for its key
        subst hcf
        rw [cell_opened_self] at hconn'
        cases hconn'
        rw [connKey_keyed]
        rcases mem_attached hprocess with hmem | ⟨hpid, _⟩
        · exact absurd rfl (hne hmem hc)
        · rw [hpid]
          exact hbacked
      · rw [cell_opened_of_ne host hcf] at hconn'
        rcases mem_attached hprocess with hmem | ⟨_, hconns | ⟨q, hq, hpid, hconns⟩⟩
        · exact (h.connections process hmem c hc conn' hconn').mono hsub
        · rw [hconns] at hc
          exact absurd (List.mem_singleton.1 hc) hcf
        · rw [hconns] at hc
          rw [← hpid]
          rcases List.mem_append.1 hc with hc | hc
          · exact (h.connections q hq c hc conn' hconn').mono hsub
          · exact absurd (List.mem_singleton.1 hc) hcf

/-- The state a refresh of the analyzer leaves. -/
theorem Analyzer.step_refresh {t : Timeval} (hok : A.state.Ok)
    (hstep : A.step host S.toProc (.refresh t) = some A') :
    A' = ⟨⟨A.state.store.sweep t (ownedBy (A.state.store.survivors t A.state.processes)),
        (A.state.store.survivors t A.state.processes).map (A.state.store.trim t)⟩,
      { A.tables with conninode := refreshed host S A.tables.conninode }⟩ := by
  obtain ⟨conninode, hconninode, hstep⟩ := Option.bind_eq_some_iff.1 hstep
  obtain ⟨⟨state, proc_info⟩, hrefresh, hstep⟩ := Option.bind_eq_some_iff.1 hstep
  cases hstep
  cases (naConninodeTableRefresh_eq host S A.tables.conninode).symm.trans hconninode
  cases (naProcessInfoGetAll_eq hok t).symm.trans hrefresh
  rfl

/-- **A refresh keeps the attributions documented.** -/
theorem documented_refresh (h : Documented host history A) {t : Timeval}
    (hstep : A.stepAt host (S, .refresh t) = some A') :
    Documented host (history ++ [(S, .refresh t)]) A' := by
  have hok' := Analyzer.step_ok host h.ok hstep
  have hseen : (history ++ [(S, Act.refresh t)]).map Prod.fst = history.map Prod.fst ++ [S] := by
    rw [List.map_append]
    rfl
  have hS : S ∈ history.map Prod.fst ++ [S] :=
    List.mem_append_right _ (List.mem_singleton_self _)
  have hsub : history.map Prod.fst ⊆ history.map Prod.fst ++ [S] := List.subset_append_left _ _
  obtain rfl := Analyzer.step_refresh h.ok hstep
  have hrecorded := h.tables.mono hsub
  refine ⟨hok', hseen ▸ ⟨recorded_conninode hS hrecorded, hrecorded.inodeproc⟩, ?_, ?_⟩
  · intro process' hprocess'
    obtain ⟨process, hprocess, rfl⟩ := List.mem_map.1 hprocess'
    exact (h.names process (List.mem_of_mem_filter hprocess)).mono
  · intro process' hprocess' c hc conn' hconn'
    obtain ⟨process, hprocess, rfl⟩ := List.mem_map.1 hprocess'
    obtain ⟨conn, hconn, hrefpacket⟩ := cell_sweep_some hconn'
    rw [hseen, connKey_congr host hrefpacket]
    exact (h.connections process (List.mem_of_mem_filter hprocess) c (mem_keep.1 hc).1 conn
      hconn).mono hsub

/-- **A step keeps the attributions documented.** -/
theorem documented_step (history : List (KernelSnapshot × Act)) (A : Analyzer)
    (x : KernelSnapshot × Act) (A' : Analyzer) (h : Documented host history A)
    (hstep : A.stepAt host x = some A') : Documented host (history ++ [x]) A' := by
  obtain ⟨S, act⟩ := x
  cases act with
  | push a => exact documented_push h hstep
  | refresh t => exact documented_refresh h hstep

/-! ### Attributions are final -/

/-- The connection at `c`, if it is listed at all, is listed under the id `pid`, and its address is
not handed out again. -/
structure Final (c : Ptr) (pid : ℤ) (A : Analyzer) : Prop where
  ok : A.state.Ok
  old : c < A.state.store.fresh
  listed : ∀ process ∈ A.state.processes, c ∈ process.connections → process.pid = pid

/-- **A step attributes no connection again.** -/
theorem final_step {c : Ptr} {pid : ℤ} (A : Analyzer) (x : KernelSnapshot × Act) (A' : Analyzer)
    (h : Final c pid A) (hstep : A.stepAt host x = some A') : Final c pid A' := by
  obtain ⟨S, act⟩ := x
  have hok' := Analyzer.step_ok host h.ok hstep
  cases act with
  | push a =>
      rcases Analyzer.step_push host rfl h.ok hstep with
        ⟨d, conn, _, rfl⟩ | ⟨lookup, _, hstate⟩
      · exact ⟨hok', h.old, h.listed⟩
      · refine ⟨hok', ?_, ?_⟩
        · rw [hstate]
          exact h.old.trans (Nat.lt_succ_self _)
        · intro process hprocess hc
          rw [hstate] at hprocess
          rcases mem_attached hprocess with hmem | ⟨_, hconns | ⟨q, hq, hpid, hconns⟩⟩
          · exact h.listed process hmem hc
          · rw [hconns] at hc
            exact absurd (List.mem_singleton.1 hc) h.old.ne
          · rw [hconns] at hc
            rw [← hpid]
            rcases List.mem_append.1 hc with hc | hc
            · exact h.listed q hq hc
            · exact absurd (List.mem_singleton.1 hc) h.old.ne
  | refresh t =>
      obtain rfl := Analyzer.step_refresh h.ok hstep
      refine ⟨hok', h.old, ?_⟩
      intro process' hprocess' hc
      obtain ⟨process, hprocess, rfl⟩ := List.mem_map.1 hprocess'
      exact h.listed process (List.mem_of_mem_filter hprocess) (mem_keep.1 hc).1

end Step

end NetworkAnalyzer
