/-
The accounts of the processes.

The totals of a report are conserved (`GnomeUsage/Conservation.lean`); this module follows the bytes
of every single process.  A packet is charged to the process that holds the socket of its local
port and its remote end.  As long as `/proc` does not change and `na_packet_match` confuses no two
flows, every connection is listed by the process its packets are charged to, and what a report says
of a process is what its packets add up to.

* `KernelSnapshot.holderPid`, `chargedPid` — the process a packet is charged to, 0 if there is none;
* `Assigned` — the connections of a process are those of the flows charged to it, with
  `assigned_push` and `assigned_refresh`;
* `report_charged` — what a report says of a process is a part of the flow table;
* `Itemised` — the books, with the bytes of any keys, and their two steps;
* `Accounts` — the invariant of a scheduled run, with its two steps;
* `report_per_process` — **every process is reported the bytes of its own packets**.
-/

import GnomeUsage.Hashstring
import GnomeUsage.Identity
import GnomeUsage.Schedules

set_option relaxedAutoImplicit false
set_option autoImplicit false

namespace NetworkAnalyzer

/-! ### Who is charged -/

/-- The id of the process that holds the socket with the given local port and remote end, and 0 if
there is no such socket or nobody holds it. -/
def KernelSnapshot.holderPid (S : KernelSnapshot) (local_port : BitVec 16)
    (rem : Address × BitVec 16) : ℤ :=
  (S.rows.find? fun row =>
      decide (row.inode ≠ 0 ∧ row.local_port = local_port ∧ row.remEnd = rem)).elim 0
    fun row => (S.proc.findSome? fun dirent => direntWrites dirent row.inodeWord).elim 0
      NAProgram.pid

/-- The holder of a socket is its owner. -/
theorem holderPid_of_owner {S : KernelSnapshot} (hrows : S.Unambiguous) (hheld : S.OneHolder)
    {local_port : BitVec 16} {rem : Address × BitVec 16} {pid : ℤ}
    (h : S.Owner local_port rem pid) : S.holderPid local_port rem = pid := by
  obtain ⟨row, hrow, hinode, hport, hrem, dirent, hdirent, hholds, rfl⟩ := h
  unfold KernelSnapshot.holderPid
  cases hfind : S.rows.find? fun row =>
      decide (row.inode ≠ 0 ∧ row.local_port = local_port ∧ row.remEnd = rem) with
  | none =>
      have hno := List.find?_eq_none.1 hfind row hrow
      simp [hinode, hport, hrem] at hno
  | some other =>
      have hother := List.mem_of_find?_eq_some hfind
      have htest := List.find?_some hfind
      obtain ⟨hinode', hport', hrem'⟩ := decide_eq_true_iff.1 htest
      have hsame : row.inodeWord = other.inodeWord := by
        rw [NetFields.inodeWord, NetFields.inodeWord,
          hrows row hrow other hother hinode hinode' (hport.trans hport'.symm)
            (hrem.trans hrem'.symm)]
      rw [hsame] at hholds
      rw [Option.elim_some]
      cases hprog : S.proc.findSome? fun dirent => direntWrites dirent other.inodeWord with
      | none =>
          have hno := List.findSome?_eq_none_iff.1 hprog dirent hdirent
          rw [direntWrites_some.2 ⟨hholds, rfl⟩] at hno
          cases hno
      | some node =>
          obtain ⟨dirent', hdirent', hwrites⟩ := List.exists_of_findSome?_eq_some hprog
          obtain ⟨hholds', rfl⟩ := direntWrites_some.1 hwrites
          exact hheld dirent hdirent dirent' hdirent' _ hholds hholds'

/-- A socket without an owner is charged to nobody. -/
theorem holderPid_of_free {S : KernelSnapshot} {local_port : BitVec 16}
    {rem : Address × BitVec 16} (h : ∀ pid, ¬ S.Owner local_port rem pid) :
    S.holderPid local_port rem = 0 := by
  unfold KernelSnapshot.holderPid
  cases hfind : S.rows.find? fun row =>
      decide (row.inode ≠ 0 ∧ row.local_port = local_port ∧ row.remEnd = rem) with
  | none => rfl
  | some row =>
      have hrow := List.mem_of_find?_eq_some hfind
      have htest := List.find?_some hfind
      obtain ⟨hinode, hport, hrem⟩ := decide_eq_true_iff.1 htest
      rw [Option.elim_some]
      cases hprog : S.proc.findSome? fun dirent => direntWrites dirent row.inodeWord with
      | none => rfl
      | some node =>
          obtain ⟨dirent, hdirent, hwrites⟩ := List.exists_of_findSome?_eq_some hprog
          obtain ⟨hholds, rfl⟩ := direntWrites_some.1 hwrites
          exact absurd ⟨row, hrow, hinode, hport, hrem, dirent, hdirent, hholds, rfl⟩ (h _)

/-- **The id the look-up of a flow ends with is that of the holder.** -/
theorem attributes_holder {host : Host} (hhost : host.Readable) {S : KernelSnapshot}
    (hrows : S.Unambiguous) (hheld : S.OneHolder) {loc rem : Address × BitVec 16}
    (hloc : isLocalAddress host (host.text loc.1) = true) {node : Option NAProgram}
    (h : Attributes host S (endsKey host loc rem) node) :
    node.elim 0 NAProgram.pid = S.holderPid loc.2 rem := by
  obtain ⟨howner, hfree⟩ := attributes_owner hhost hrows hheld hloc h
  by_cases hex : ∃ pid, S.Owner loc.2 rem pid
  · obtain ⟨pid, hpid⟩ := hex
    obtain ⟨program, rfl, rfl⟩ := howner pid hpid
    exact (holderPid_of_owner hrows hheld hpid).symm
  · have hnone : ∀ pid, ¬ S.Owner loc.2 rem pid := fun pid hpid => hex ⟨pid, hpid⟩
    rw [hfree hnone, holderPid_of_free hnone]
    rfl

variable (host : Host)

/-- **The process a packet is charged to**: the holder of the socket of its ends. -/
def chargedPid (S : KernelSnapshot) (packet : NAPacket) : ℤ :=
  S.holderPid (firstEnd host packet).2 (lastEnd host packet)

variable {host} in
theorem NAPacket.Between.first_last {packet : NAPacket} {loc rem : Address × BitVec 16}
    (h : packet.Between host loc rem) :
    firstEnd host packet = loc ∧ lastEnd host packet = rem := by
  unfold firstEnd lastEnd
  rcases h.ends with ⟨hs, hd⟩ | ⟨hs, hd⟩
  · rw [hs, hd, h.local_loc]
    exact ⟨rfl, rfl⟩
  · rw [hs, hd, h.remote_rem]
    exact ⟨rfl, rfl⟩

/-- Packets of one flow are charged to one process. -/
theorem chargedPid_congr (S : KernelSnapshot) {packet other : NAPacket}
    {loc rem loc' rem' : Address × BitVec 16} (h : packet.Between host loc rem)
    (h' : other.Between host loc' rem') (hflow : packet.SameFlow other) :
    chargedPid host S packet = chargedPid host S other := by
  obtain ⟨rfl, rfl⟩ := (h.ends_eq_iff h').2 hflow
  rw [chargedPid, chargedPid, h.first_last.1, h.first_last.2, h'.first_last.1, h'.first_last.2]

/-! ### What the processes list -/

section Assigned

variable {host} {charge : NAPacket → ℤ} {ps : List NAPacket} {σ σ' : NAState}

/-- **The connections of a process are those of the flows charged to it**: each has the flow key of
a packet that is. -/
def Assigned (charge : NAPacket → ℤ) (ps : List NAPacket) (σ : NAState) : Prop :=
  ∀ process ∈ σ.processes, ∀ c ∈ process.connections, ∀ conn, σ.store.cell c = some conn →
    ∃ p ∈ ps, flowKey p = flowKey conn.refpacket ∧ charge p = process.pid

theorem assigned_init (charge : NAPacket → ℤ) : Assigned charge [] NAState.init := by
  intro process hp
  cases hp

/-- The processes after a connection was attached: the old ones, and the one it was attached to,
which has the id that was found. -/
theorem mem_attached {processes : List NAProcess} {lookup : ProcessLookup} {key : CStr} {c : Ptr}
    {process : NAProcess}
    (h : process ∈ (selectProcess processes lookup key).1.modify
      (selectProcess processes lookup key).2 (NAProcess.attach c)) :
    process ∈ processes ∨ process.pid = lookup.node.elim 0 NAProgram.pid ∧
      (process.connections = [c] ∨
        ∃ q ∈ processes, q.pid = process.pid ∧ process.connections = q.connections ++ [c]) := by
  obtain ⟨node, uid⟩ := lookup
  cases node with
  | none =>
      obtain ⟨new, hpid, hconns, heq⟩ := attachedUnknown_of_none processes uid key c
      rw [heq] at h
      rcases List.mem_append.1 h with h | h
      · exact .inl h
      · obtain rfl := List.mem_singleton.1 h
        exact .inr ⟨hpid, .inl hconns⟩
  | some node =>
      rcases @attachedTo_of_node processes node uid key c with
        ⟨before, q, after, hsplit, _, hpid, heq⟩ | ⟨_, new, hpid, hconns, heq⟩
      · rw [heq] at h
        rcases List.mem_append.1 h with h | h
        · exact .inl (hsplit ▸ List.mem_append_left _ h)
        · rcases List.mem_cons.1 h with rfl | h
          · have hq : q ∈ processes := hsplit ▸ List.mem_append_right _ List.mem_cons_self
            exact .inr ⟨hpid, .inr ⟨q, hq, rfl, rfl⟩⟩
          · exact .inl (hsplit ▸ List.mem_append_right _ (List.mem_cons_of_mem _ h))
      · rw [heq] at h
        rcases List.mem_append.1 h with h | h
        · exact .inl h
        · obtain rfl := List.mem_singleton.1 h
          exact .inr ⟨hpid, .inl hconns⟩

/-- **A packet keeps the connections assigned**, if the id that is found for a new connection is
the one the packet is charged to. -/
theorem assigned_push (h : σ.Ok) (ha : Assigned charge ps σ) {packet : NAPacket}
    (hp : packet.Built) {lookup : ProcessLookup} (hstep : PushStep host σ packet lookup σ')
    (hlookup : lookup.node.elim 0 NAProgram.pid = charge packet) :
    Assigned charge (ps ++ [packet]) σ' := by
  have hold : ∀ {process : NAProcess} {c : Ptr} {conn : NAConnection}, process ∈ σ.processes →
      c ∈ process.connections → σ.store.cell c = some conn →
        ∃ p ∈ ps ++ [packet], flowKey p = flowKey conn.refpacket ∧ charge p = process.pid := by
    intro process c conn hprocess hc hconn
    obtain ⟨p, hmem, hkey, hcharge⟩ := ha process hprocess c hc conn hconn
    exact ⟨p, List.mem_append_left _ hmem, hkey, hcharge⟩
  cases hstep with
  | @found d conn _ _ hconn _ heq =>
      subst heq
      intro process hprocess c hc conn' hconn'
      by_cases hcd : c = d
      · subst hcd
        rw [cell_write_self] at hconn'
        cases hconn'
        rw [refpacket_add]
        exact hold hprocess hc hconn
      · rw [cell_write_of_ne hcd] at hconn'
        exact hold hprocess hc hconn'
  | opened _ _ heq =>
      subst heq
      have hne : ∀ {process : NAProcess} {c : Ptr}, process ∈ σ.processes →
          c ∈ process.connections → c ≠ σ.store.fresh := fun hprocess hc =>
        (h.store.lt_fresh _ (h.owned _ (mem_ownedBy.2 ⟨_, hprocess, hc⟩))).ne
      intro process hprocess c hc conn' hconn'
      by_cases hcf : c = σ.store.fresh
      · -- the new connection has the key of the packet
        subst hcf
        rw [cell_opened_self] at hconn'
        cases hconn'
        refine ⟨packet, List.mem_append_right _ (List.mem_singleton_self _), ?_, ?_⟩
        · exact (flowKey_refpacket_init host hp).symm.trans (getHashstring_flowKey host _).symm
        · rcases mem_attached hprocess with hmem | ⟨hpid, _⟩
          · exact absurd rfl (hne hmem hc)
          · exact (hpid.trans hlookup).symm
      · rw [cell_opened_of_ne host hcf] at hconn'
        rcases mem_attached hprocess with hmem | ⟨_, hconns | ⟨q, hq, hpid, hconns⟩⟩
        · exact hold hmem hc hconn'
        · rw [hconns] at hc
          exact absurd (List.mem_singleton.1 hc) hcf
        · rw [hconns] at hc
          rw [← hpid]
          rcases List.mem_append.1 hc with hc | hc
          · exact hold hq hc hconn'
          · exact absurd (List.mem_singleton.1 hc) hcf

/-- **A refresh keeps the connections assigned.** -/
theorem assigned_refresh (h : σ.Ok) (ha : Assigned charge ps σ) {t : Timeval}
    {proc_info : List NAProcInfo} (hrun : naProcessInfoGetAll σ t = some (σ', proc_info)) :
    Assigned charge ps σ' := by
  rw [naProcessInfoGetAll_eq h] at hrun
  cases hrun
  intro process' hprocess' c hc conn' hconn'
  obtain ⟨process, hprocess, rfl⟩ := List.mem_map.1 hprocess'
  obtain ⟨conn, hconn, hrefpacket⟩ := cell_sweep_some hconn'
  rw [hrefpacket]
  exact ha process (List.mem_of_mem_filter hprocess) c (mem_keep.1 hc).1 conn hconn

/-! ### What a report says of a process -/

/-- The flow keys of the packets charged to `pid`. -/
def chargedKeys (charge : NAPacket → ℤ) (ps : List NAPacket) (pid : ℤ) (key : Sym2 Endpoint) :
    Bool :=
  ps.any fun p => decide (flowKey p = key ∧ charge p = pid)

theorem chargedKeys_iff {pid : ℤ} {key : Sym2 Endpoint} :
    chargedKeys charge ps pid key = true ↔ ∃ p ∈ ps, flowKey p = key ∧ charge p = pid := by
  simp only [chargedKeys, List.any_eq_true, decide_eq_true_iff]

theorem sum_report_bytes (store : ConnStore) (t : Timeval) (processes : List NAProcess)
    (out : Bool) :
    ((processes.map (store.report t)).map (NAProcInfo.bytes out)).sum =
      ((store.keep t (ownedBy processes)).map (store.amount t out)).sum := by
  obtain ⟨hsent, hrecv⟩ := sum_report store t processes
  cases out with
  | true => exact hsent
  | false => exact hrecv

/-- Whether the key of the connection at `c` passes a test. -/
def ConnStore.keyAt (store : ConnStore) (q : Sym2 Endpoint → Bool) (c : Ptr) : Bool :=
  (store.cell c).elim false fun conn => q (flowKey conn.refpacket)

/-- A part of the flow table is the flow table of a part of the connections. -/
theorem only_flowsOf (store : ConnStore) (q : Sym2 Endpoint → Bool) (l : List Ptr) :
    FlowTable.only q (store.flowsOf l) = store.flowsOf (l.filter (store.keyAt q)) := by
  induction l with
  | nil => rfl
  | cons c l ih =>
      cases hcell : store.cell c with
      | none =>
          have hkey : store.keyAt q c = false := by rw [ConnStore.keyAt, hcell, Option.elim_none]
          rw [flowsOf_cons_none l hcell, ih, List.filter_cons_of_neg (by simp [hkey])]
      | some conn =>
          have hkey : store.keyAt q c = q (flowKey conn.refpacket) := by
            rw [ConnStore.keyAt, hcell, Option.elim_some]
          rw [flowsOf_cons l hcell, FlowTable.only_cons, ih]
          cases hq : q (flowKey conn.refpacket) with
          | true =>
              rw [List.filter_cons_of_pos (hkey.trans hq), flowsOf_cons _ hcell]
              rfl
          | false =>
              rw [List.filter_cons_of_neg (by simp [hkey, hq])]
              rfl

/-- **What a report that loses nothing counts of some connections** is the part of the flow table
with their keys. -/
theorem sum_amount_only (h : σ.Ok) (hadopted : Adopted σ) {t : Timeval} (hno : NoLoss σ t)
    {cs : List Ptr} (hnodup : cs.Nodup) {q : Sym2 Endpoint → Bool}
    (hmem : ∀ c, c ∈ cs ↔ c ∈ σ.store.connections.filter (σ.store.keyAt q)) (out : Bool) :
    ((σ.store.keep t cs).map (σ.store.amount t out)).sum =
      FlowTable.report out (FlowTable.sweep (stalledAt t) (t.tv_sec - PERIOD)
        (FlowTable.only q σ.store.flows)) := by
  have hperm : cs.Perm (σ.store.connections.filter (σ.store.keyAt q)) :=
    (List.perm_ext_iff_of_nodup hnodup (h.store.nodup.filter _)).2 hmem
  have hlive : ∀ c ∈ σ.store.connections.filter (σ.store.keyAt q),
      ∃ conn, σ.store.cell c = some conn := fun c hc => h.store.live c (List.mem_of_mem_filter hc)
  have hkept : ∀ c ∈ σ.store.connections.filter (σ.store.keyAt q),
      c ∈ ownedBy (σ.store.survivors t σ.processes) := fun c hc =>
    mem_survivors hno ((adopted_iff h).1 hadopted c (List.mem_of_mem_filter hc))
  have hkeep := (hperm.filter fun c => !σ.store.stalled t c).map (σ.store.amount t out)
  rw [ConnStore.flows, only_flowsOf, ← flowsOf_sweep hlive hkept, report_flowsOf hlive hkept]
  exact hkeep.sum_eq

/-- **What a report that loses nothing says of the processes with an id** is the part of the flow
table that is charged to it. -/
theorem report_charged (h : σ.Ok) (hadopted : Adopted σ) (ha : Assigned charge ps σ)
    (hsame : ∀ p ∈ ps, ∀ p' ∈ ps, flowKey p = flowKey p' → charge p = charge p') {t : Timeval}
    (hno : NoLoss σ t) {proc_info : List NAProcInfo}
    (hrun : naProcessInfoGetAll σ t = some (σ', proc_info)) (pid : ℤ) (out : Bool) :
    ((proc_info.filter fun info => info.pid = pid).map (NAProcInfo.bytes out)).sum =
      FlowTable.report out (FlowTable.sweep (stalledAt t) (t.tv_sec - PERIOD)
        (FlowTable.only (chargedKeys charge ps pid) σ.store.flows)) := by
  rw [naProcessInfoGetAll_eq h] at hrun
  cases hrun
  have hinfos : (((σ.store.survivors t σ.processes).map (σ.store.report t)).filter
      fun info => info.pid = pid) =
        ((σ.store.survivors t σ.processes).filter fun process => process.pid = pid).map
          (σ.store.report t) := List.filter_map
  rw [hinfos, sum_report_bytes]
  refine sum_amount_only h hadopted hno ?_ ?_ out
  · exact (nodup_ownedBy_survivors h.owned_nodup).sublist (List.filter_sublist.flatMap _)
  -- the connections of the processes with the id are those whose keys are charged to it
  intro c
  rw [mem_ownedBy, List.mem_filter]
  constructor
  · rintro ⟨process, hprocess, hc⟩
    obtain ⟨hprocess, hpid⟩ := List.mem_filter.1 hprocess
    have hprocess := List.mem_of_mem_filter hprocess
    have hmem := h.owned c (mem_ownedBy.2 ⟨process, hprocess, hc⟩)
    obtain ⟨conn, hconn⟩ := h.store.live c hmem
    obtain ⟨p, hp, hkey, hcharge⟩ := ha process hprocess c hc conn hconn
    refine ⟨hmem, ?_⟩
    rw [ConnStore.keyAt, hconn, Option.elim_some, chargedKeys_iff]
    exact ⟨p, hp, hkey, hcharge.trans (of_decide_eq_true hpid)⟩
  · rintro ⟨hc, hkeyAt⟩
    obtain ⟨process, hprocess, hcp⟩ :=
      mem_ownedBy.1 (mem_survivors hno ((adopted_iff h).1 hadopted c hc))
    obtain ⟨conn, hconn⟩ := h.store.live c hc
    rw [ConnStore.keyAt, hconn, Option.elim_some, chargedKeys_iff] at hkeyAt
    obtain ⟨p, hp, hkey, hcharge⟩ := hkeyAt
    obtain ⟨p', hp', hkey', hcharge'⟩ :=
      ha process (List.mem_of_mem_filter hprocess) c hcp conn hconn
    have hpid : process.pid = pid := by
      rw [← hcharge', ← hcharge]
      exact hsame p' hp' p hp (hkey'.trans hkey.symm)
    exact ⟨process, List.mem_filter.2 ⟨hprocess, decide_eq_true hpid⟩, hcp⟩

end Assigned

/-! ### A step of the analyzer -/

/-- A packet of an unknown flow is pushed with the result of its look-up. -/
theorem Analyzer.step_missing {snapshot : ProcSnapshot} {A : Analyzer} {a : Capture}
    {packet : NAPacket} (hpacket : packetOf a.header a.address a.s_port a.d_port = packet)
    (hnew : naConnectionFindFromPacket A.state.store packet = some none) {lookup : ProcessLookup}
    {tables : Tables}
    (hlookup : lookupProgram host snapshot A.tables (connKey host (connectionInit host packet)) =
      some (lookup, tables)) :
    A.step host snapshot (.push a) =
      (pushNAPacket host A.state packet lookup).map fun σ => ⟨σ, tables⟩ := by
  have hcell : (naConnectionNew host A.state.store packet).2.cell A.state.store.fresh =
      some (connectionInit host packet) := by simp [naConnectionNew]
  have hfind := @findFromConnection_eq host snapshot
    ⟨(naConnectionNew host A.state.store packet).2, A.state.processes⟩ A.tables tables
    A.state.store.fresh _ lookup hcell hlookup
  simp only [Analyzer.step, pushNAPacket, hpacket, hnew, Option.bind_eq_bind, Option.bind_some]
  refine (congrArg (fun x => x.bind fun y => some (⟨y.1, y.2⟩ : Analyzer)) hfind).trans ?_
  rw [Option.bind_map, Option.map_eq_bind]
  rfl

/-- **A packet between a local and a remote end**: the analyzer pushes it with a look-up that ends
with the process it is charged to. -/
theorem Analyzer.step_charged {host : Host} (hhost : host.Readable) {S : KernelSnapshot}
    (hrows : S.Unambiguous) (hheld : S.OneHolder) {A : Analyzer} (hok : A.Ok host S) (a : Capture)
    {loc rem : Address × BitVec 16}
    (hends : (packetOf a.header a.address a.s_port a.d_port).Between host loc rem) :
    ∃ A' lookup, A.step host S.toProc (.push a) = some A' ∧ A'.Ok host S ∧
      NetworkAnalyzer.step host A.state (.push a.header a.address a.s_port a.d_port lookup) =
        some A'.state ∧
      lookup.node.elim 0 NAProgram.pid =
        chargedPid host S (packetOf a.header a.address a.s_port a.d_port) := by
  obtain ⟨A', hstep⟩ := Analyzer.step_defined host hok.state S (.push a)
  have hok' : A'.Ok host S := ⟨Analyzer.step_ok host hok.state hstep,
    Analyzer.step_stable host hok.tables hstep⟩
  have hp := pushed_packetOf a.header a.address a.s_port a.d_port
  obtain ⟨lookup, tables, hlookup, _, hattributes⟩ := lookupProgram_stable host hok.tables
    (connKey host (connectionInit host (packetOf a.header a.address a.s_port a.d_port)))
  rw [hashstring_refpacket host hp hends.local_loc hends.remote_rem hends.ends] at hattributes
  have hcharge : lookup.node.elim 0 NAProgram.pid =
      chargedPid host S (packetOf a.header a.address a.s_port a.d_port) := by
    rw [chargedPid, hends.first_last.1, hends.first_last.2]
    exact attributes_holder hhost hrows hheld hends.local_loc hattributes
  refine ⟨A', lookup, hstep, hok', ?_, hcharge⟩
  obtain ⟨r, hr⟩ := findFromPacket_defined hok.state.store
    (packetOf a.header a.address a.s_port a.d_port)
  cases r with
  | some c =>
      -- the look-up does not matter to a packet of a known flow
      simp only [Analyzer.step, hr, Option.bind_eq_bind, Option.bind_some] at hstep
      obtain ⟨store, hstore, hstep⟩ := Option.bind_eq_some_iff.1 hstep
      cases hstep
      simp only [NetworkAnalyzer.step, pushPacket, pushNAPacket, hr, hstore, Option.bind_eq_bind,
        Option.bind_some]
  | none =>
      rw [Analyzer.step_missing host rfl hr hlookup] at hstep
      obtain ⟨σ, hσ, rfl⟩ := Option.map_eq_some_iff.1 hstep
      exact hσ

/-! ### The invariant of a scheduled run -/

/-- The packets whose flow keys pass a test and whose source is local, or is not. -/
def keyTest (q : Sym2 Endpoint → Bool) (out : Bool) (packet : NAPacket) : Bool :=
  q (flowKey packet) && isLocalAddress host (sourceText host packet) == out

/-- The ids of processes, the missing ones apart, after a connection was attached. -/
theorem knownPids_attached {processes : List NAProcess} (lookup : ProcessLookup) (key : CStr)
    (c : Ptr) (h : (knownPids (processes.map NAProcess.pid)).Nodup) :
    (knownPids (((selectProcess processes lookup key).1.modify
      (selectProcess processes lookup key).2 (NAProcess.attach c)).map NAProcess.pid)).Nodup := by
  obtain ⟨node, uid⟩ := lookup
  cases node with
  | none =>
      obtain ⟨new, hpid, _, heq⟩ := attachedUnknown_of_none processes uid key c
      rw [heq, List.map_append, knownPids_append]
      simpa [knownPids, hpid] using h
  | some node =>
      rcases @attachedTo_of_node processes node uid key c with
        ⟨before, q, after, hsplit, _, _, heq⟩ | ⟨hnew, new, hpid, _, heq⟩
      · have hsame : (before ++ q.attach c :: after).map NAProcess.pid =
            processes.map NAProcess.pid := by simp [hsplit, NAProcess.attach]
        rw [heq, hsame]
        exact h
      · rw [heq, List.map_append, knownPids_append]
        refine List.Nodup.append h ((List.nodup_singleton _).filter _) ?_
        intro pid hmem hmem'
        obtain rfl : pid = new.pid := List.mem_singleton.1 (List.mem_of_mem_filter hmem')
        obtain ⟨q, hq, hpid'⟩ := List.mem_map.1 (List.mem_of_mem_filter hmem)
        exact hnew q hq (hpid'.trans hpid)

/-- The books depend on the packets of the history only. -/
theorem Books.congr {hist hist' : List Event} {r : ℤ} {σ : NAState} (h : Books host hist r σ)
    (heq : packets hist = packets hist') : Books host hist' r σ where
  ok := h.ok
  adopted := h.adopted
  ordered := h.ordered
  young := h.young
  seen := by
    unfold packetTimes
    rw [← heq]
    exact h.seen
  range := h.range
  carries := by
    unfold bytesAfter
    rw [← heq]
    exact h.carries

/-- **The books are itemised** after the events `hist`, with the next refresh due at `r`: they say
what was counted of any keys. -/
structure Itemised (hist : List Event) (r : ℤ) (σ : NAState) : Prop where
  books : Books host hist r σ
  /-- What a report from now on counts of any keys is in the table. -/
  carried : ∀ q out c, r - PERIOD ≤ c →
    FlowTable.weight out c (FlowTable.only q σ.store.flows) =
      BitVec.ofNat 32 (bytesOf (keyTest host q out) c hist)

theorem itemised_init (r : ℤ) : Itemised host [] r NAState.init where
  books := books_init host r
  carried := fun _ _ _ _ => rfl

/-- Itemised books depend on the packets of the history only. -/
theorem Itemised.congr {hist hist' : List Event} {r : ℤ} {σ : NAState}
    (h : Itemised host hist r σ) (heq : packets hist = packets hist') :
    Itemised host hist' r σ where
  books := h.books.congr host heq
  carried := by
    unfold bytesOf
    rw [← heq]
    exact h.carried

/-- **A packet in time is an item.** -/
theorem itemised_push {hist : List Event} {r : ℤ} {σ : NAState} (h : Itemised host hist r σ)
    {header : PcapPkthdr} {address : IPAddress} {s_port d_port : BitVec 16}
    {lookup : ProcessLookup} (htime : PushInTime hist r header.ts.tv_sec) :
    ∃ σ', step host σ (.push header address s_port d_port lookup) = some σ' ∧
      Itemised host (hist ++ [.push header address s_port d_port lookup]) r σ' := by
  have hp := pushed_packetOf header address s_port d_port
  obtain ⟨σ', hevent, hbooks⟩ := @books_push host hist r σ h.books header address s_port d_port
    lookup htime.newest htime.lower htime.range
  obtain ⟨σ'', hσ'', _, hflows, _⟩ := pushNAPacket_spec host h.books.ok hp.built lookup
  obtain rfl : σ'' = σ' := Option.some_inj.1 (hσ''.symm.trans hevent)
  refine ⟨σ'', hevent, hbooks, ?_⟩
  intro q out c hc
  rw [hflows, FlowTable.weight_only_push, h.carried q out c hc, bytesOf_append,
    BitVec.ofNat_add, bytesOf_push]
  have hout : (packetArrival host (packetOf header address s_port d_port)).out =
      isLocalAddress host (sourceText host (packetOf header address s_port d_port)) :=
    isOutgoing_of_unknown host hp.dir
  rw [hout]
  simp only [packetArrival, packetOf_time, packetOf_len, keyTest, Bool.and_eq_true, beq_iff_eq,
    and_assoc]
  split
  · rw [BitVec.ofNat_toNat, BitVec.setWidth_eq]
  · rfl

/-- **A refresh keeps the items.** -/
theorem itemised_refresh {hist : List Event} {t : Timeval} {σ : NAState}
    (h : Itemised host hist t.tv_sec σ) :
    ∃ σ' proc_info, naProcessInfoGetAll σ t = some (σ', proc_info) ∧
      ∀ r, t.tv_sec ≤ r → r ≤ t.tv_sec + 25 → Itemised host (hist ++ [.refresh t]) r σ' := by
  obtain ⟨σ', proc_info, hrun, _, _, hnext⟩ := books_refresh host h.books
  refine ⟨σ', proc_info, hrun, fun r hle hgap => ⟨hnext r hle hgap, ?_⟩⟩
  intro q out c hc
  have hc' : t.tv_sec - PERIOD ≤ c := by omega
  have hdead : ∀ s, stalledAt t s = true → s ≤ c := by
    intro s hs
    rw [stalledAt_iff, CONNTIMEOUT] at hs
    rw [PERIOD] at hc'
    omega
  rw [flows_refresh h.books.ok h.books.adopted (h.books.noLoss host) hrun, FlowTable.only_sweep,
    FlowTable.weight_sweep out hc' hdead h.books.ordered.only, h.carried q out c hc',
    bytesOf_append, bytesOf_refresh, Nat.add_zero]

/-- **The accounts are kept** after the events `hist`, with the next refresh due at `r`. -/
structure Accounts (S : KernelSnapshot) (hist : List Event) (r : ℤ) (A : Analyzer) : Prop where
  books : Books host hist r A.state
  tables : Stable host S A.tables
  assigned : Assigned (chargedPid host S) (packets hist) A.state
  /-- What a report from now on counts of any keys is in the table. -/
  carried : ∀ q out c, r - PERIOD ≤ c →
    FlowTable.weight out c (FlowTable.only q A.state.store.flows) =
      BitVec.ofNat 32 (bytesOf (keyTest host q out) c hist)
  unique : (knownPids (A.state.processes.map NAProcess.pid)).Nodup

theorem Accounts.itemised {host : Host} {S : KernelSnapshot} {hist : List Event} {r : ℤ}
    {A : Analyzer} (h : Accounts host S hist r A) : Itemised host hist r A.state :=
  ⟨h.books, h.carried⟩

theorem accounts_init (S : KernelSnapshot) (r : ℤ) : Accounts host S [] r Analyzer.init where
  books := books_init host r
  tables := stable_empty host S
  assigned := assigned_init _
  carried := (itemised_init host r).carried
  unique := List.nodup_nil

/-- **A packet in time keeps the accounts.** -/
theorem accounts_push {host : Host} (hhost : host.Readable) {S : KernelSnapshot}
    (hrows : S.Unambiguous) (hheld : S.OneHolder) {hist : List Event} {r : ℤ} {A : Analyzer}
    (h : Accounts host S hist r A) {header : PcapPkthdr} {address : IPAddress}
    {s_port d_port : BitVec 16} {lookup : ProcessLookup}
    (htime : PushInTime hist r header.ts.tv_sec)
    (hends : ∃ loc rem, (packetOf header address s_port d_port).Between host loc rem) :
    ∃ A', A.step host S.toProc (.push ⟨header, address, s_port, d_port⟩) = some A' ∧
      Accounts host S (hist ++ [.push header address s_port d_port lookup]) r A' := by
  obtain ⟨loc, rem, hends⟩ := hends
  obtain ⟨A', found, hstep, hok', hevent, hcharge⟩ := Analyzer.step_charged hhost hrows hheld
    ⟨h.books.ok, h.tables⟩ ⟨header, address, s_port, d_port⟩ hends
  obtain ⟨σ', hσ', hitems⟩ := @itemised_push host hist r A.state h.itemised header address s_port
    d_port found htime
  obtain rfl : σ' = A'.state := Option.some_inj.1 (hσ'.symm.trans hevent)
  have hp := pushed_packetOf header address s_port d_port
  have hpush := pushNAPacket_step host h.books.ok hp.built hevent
  have hpackets : ∀ l, packets (hist ++ [.push header address s_port d_port l]) =
      packets hist ++ [packetOf header address s_port d_port] := fun l => packets_append _ _
  have hitems := hitems.congr host
    ((hpackets found).trans (hpackets lookup).symm)
  refine ⟨A', hstep, hitems.books, hok'.tables, ?_, hitems.carried, ?_⟩
  · rw [hpackets]
    exact assigned_push h.books.ok h.assigned hp.built hpush hcharge
  · cases hpush with
    | found _ _ _ _ heq =>
        rw [heq]
        exact h.unique
    | opened _ _ heq =>
        rw [heq]
        exact knownPids_attached _ _ _ h.unique

/-- **A refresh keeps the accounts.** -/
theorem accounts_refresh {S : KernelSnapshot} {hist : List Event} {t : Timeval} {A : Analyzer}
    (h : Accounts host S hist t.tv_sec A) :
    ∃ A', A.step host S.toProc (.refresh t) = some A' ∧
      ∀ r, t.tv_sec ≤ r → r ≤ t.tv_sec + 25 → Accounts host S (hist ++ [.refresh t]) r A' := by
  obtain ⟨A', hstep⟩ := Analyzer.step_defined host h.books.ok S (.refresh t)
  have hstable := Analyzer.step_stable host h.tables hstep
  obtain ⟨σ', proc_info, hrun, hnext⟩ := itemised_refresh host h.itemised
  obtain ⟨conninode, _, hstep'⟩ := Option.bind_eq_some_iff.1 hstep
  obtain ⟨⟨state, infos⟩, hrefresh, hstep'⟩ := Option.bind_eq_some_iff.1 hstep'
  cases hrefresh.symm.trans hrun
  cases hstep'
  have hpackets : packets (hist ++ [.refresh t]) = packets hist := by
    rw [packets_append]
    exact List.append_nil _
  refine ⟨_, hstep, fun r hle hgap =>
    ⟨(hnext r hle hgap).books, hstable, ?_, (hnext r hle hgap).carried, ?_⟩⟩
  · rw [hpackets]
    exact assigned_refresh h.books.ok h.assigned hrun
  · rw [naProcessInfoGetAll_eq h.books.ok] at hrun
    cases hrun
    refine nodup_knownPids_sublist h.unique ?_
    rw [List.map_map]
    exact List.filter_sublist.map _

/-! ### Every process is reported its own bytes -/

/-- `na_packet_match` confuses no two flows of the packets. -/
def Unconfused (ps : List NAPacket) : Prop :=
  ∀ p ∈ ps, ∀ p' ∈ ps, flowKey p = flowKey p' → p.SameFlow p'

/-- It confuses no flows of IPv4 packets. -/
theorem unconfused_of_inet {ps : List NAPacket} (hbuilt : ∀ p ∈ ps, p.Built)
    (hinet : ∀ p ∈ ps, p.sa_family = .inet) : Unconfused ps := by
  intro p hp p' hp' hkey
  rcases (flowKey_eq_iff (hbuilt p hp) (hbuilt p' hp')).1 hkey with
    hflow | ⟨hblank, hblank', hports⟩
  · exact hflow
  · -- between two zero addresses the ports are all there is
    refine ⟨(hinet p hp).trans (hinet p' hp').symm, ?_⟩
    have hsource : ∀ q ∈ ps, q.Blank → q.source = (.ip ⟨0⟩, q.s_port) ∧
        q.dest = (.ip ⟨0⟩, q.d_port) := by
      rintro q hq ⟨hs, hd⟩
      unfold NAPacket.source NAPacket.dest
      rw [hinet q hq, hs, hd]
      exact ⟨rfl, rfl⟩
    rw [(hsource p hp hblank).1, (hsource p hp hblank).2, (hsource p' hp' hblank').1,
      (hsource p' hp' hblank').2]
    rcases hports with ⟨hs, hd⟩ | ⟨hs, hd⟩
    · exact .inl ⟨by rw [hs], by rw [hd]⟩
    · exact .inr ⟨by rw [hs], by rw [hd]⟩

/-- The packets charged to `pid` whose source is local, or is not. -/
def charges (S : KernelSnapshot) (pid : ℤ) (out : Bool) (packet : NAPacket) : Bool :=
  decide (chargedPid host S packet = pid) && isLocalAddress host (sourceText host packet) == out

/-- **The accounts are kept up to every refresh** of a scheduled run. -/
theorem accounts_run {host : Host} (hhost : host.Readable) {S : KernelSnapshot}
    (hrows : S.Unambiguous) (hheld : S.OneHolder) {pre post : List Act} {t : Timeval}
    (hs : Schedule ((pre ++ .refresh t :: post).map Act.event))
    (hends : ∀ p ∈ packets (pre.map Act.event), ∃ loc rem, p.Between host loc rem) :
    ∃ A, Runs.run (Analyzer.step host S.toProc) Analyzer.init pre = some A ∧
      Accounts host S (pre.map Act.event) t.tv_sec A := by
  have hsplit : (pre ++ .refresh t :: post).map Act.event =
      pre.map Act.event ++ .refresh t :: post.map Act.event := by simp [Act.event]
  rw [hsplit] at hs
  obtain ⟨A, hrun, haccounts⟩ := @Schedule.run_init Analyzer
    (fun A e => A.step host S.toProc e.act) (fun p => ∃ loc rem, p.Between host loc rem)
    (Accounts host S)
    (fun _ _ _ _ _ _ _ _ h htime hp => accounts_push hhost hrows hheld h htime hp)
    (fun _ _ _ h _ => accounts_refresh host h) _ _ _ _ hs hends (accounts_init host S)
  rw [run_event] at hrun
  exact ⟨A, hrun, haccounts⟩

/-- The packets before a refresh are packets of the run. -/
theorem packets_pre {acts pre post : List Act} {t : Timeval}
    (hsplit : acts = pre ++ .refresh t :: post) {p : NAPacket}
    (hp : p ∈ packets (pre.map Act.event)) : p ∈ packets (acts.map Act.event) := by
  rw [hsplit, List.map_append, packets_append]
  exact List.mem_append_left _ hp

section Report

variable {host} {S : KernelSnapshot} {hist : List Event} {t : Timeval} {A : Analyzer}

/-- A part of the table, at a refresh. -/
theorem Itemised.report_only {σ : NAState} (h : Itemised host hist t.tv_sec σ)
    (q : Sym2 Endpoint → Bool) (out : Bool) :
    FlowTable.report out (FlowTable.sweep (stalledAt t) (t.tv_sec - PERIOD)
        (FlowTable.only q σ.store.flows)) =
      BitVec.ofNat 32 (bytesOf (keyTest host q out) (t.tv_sec - PERIOD) hist) := by
  have hdead : ∀ s, stalledAt t s = true → s ≤ t.tv_sec - PERIOD := by
    intro s hs
    rw [stalledAt_iff, CONNTIMEOUT] at hs
    rw [PERIOD]
    omega
  rw [FlowTable.report_sweep out hdead h.books.ordered.only, h.carried q out _ le_rfl]

/-- **A report on accounts that are kept.** -/
theorem Accounts.report_pid (h : Accounts host S hist t.tv_sec A)
    (hsame : ∀ p ∈ packets hist, ∀ p' ∈ packets hist,
      flowKey p = flowKey p' → chargedPid host S p = chargedPid host S p')
    {σ' : NAState} {proc_info : List NAProcInfo}
    (hrun : naProcessInfoGetAll A.state t = some (σ', proc_info)) (pid : ℤ) (out : Bool) :
    ((proc_info.filter fun info => info.pid = pid).map (NAProcInfo.bytes out)).sum =
      BitVec.ofNat 32 (bytesOf (charges host S pid out) (t.tv_sec - PERIOD) hist) := by
  rw [report_charged h.books.ok h.books.adopted h.assigned hsame (h.books.noLoss host) hrun pid out,
    h.itemised.report_only]
  congr 1
  refine bytesOf_congr ?_ _
  intro p hp
  -- a packet has a charged key exactly when it is charged itself
  have hcharged : chargedKeys (chargedPid host S) (packets hist) pid (flowKey p) =
      decide (chargedPid host S p = pid) := by
    rw [Bool.eq_iff_iff, chargedKeys_iff, decide_eq_true_iff]
    constructor
    · rintro ⟨p', hp', hkey, rfl⟩
      exact (hsame p' hp' p hp hkey).symm
    · intro hpid
      exact ⟨p, hp, rfl, hpid⟩
  rw [keyTest, charges, hcharged]

/-- No id but 0 has two entries. -/
theorem Accounts.nodup_report (h : Accounts host S hist t.tv_sec A) {σ' : NAState}
    {proc_info : List NAProcInfo}
    (hrun : naProcessInfoGetAll A.state t = some (σ', proc_info)) :
    (knownPids (proc_info.map NAProcInfo.pid)).Nodup := by
  rw [naProcessInfoGetAll_eq h.books.ok] at hrun
  cases hrun
  refine nodup_knownPids_sublist h.unique ?_
  rw [List.map_map]
  exact List.filter_sublist.map _

end Report

/-- Packets of the same key are charged alike, if no flows are confused. -/
theorem chargedPid_of_unconfused {S : KernelSnapshot} {ps : List NAPacket}
    (hends : ∀ p ∈ ps, ∃ loc rem, p.Between host loc rem) (hflows : Unconfused ps) :
    ∀ p ∈ ps, ∀ p' ∈ ps, flowKey p = flowKey p' → chargedPid host S p = chargedPid host S p' := by
  intro p hp p' hp' hkey
  obtain ⟨loc, rem, h⟩ := hends p hp
  obtain ⟨loc', rem', h'⟩ := hends p' hp'
  exact chargedPid_congr host S h h' (hflows p hp p' hp' hkey)

/-- A packet of 60 bytes of the socket of process 42, and one of 40 bytes that nobody asked for. -/
def twoArrivals : List Act :=
  [.push firstCapture,
    .push ⟨⟨⟨101⟩, 40, 40⟩, .ip ⟨0x9DD8A9C3⟩ ⟨0x020310AC⟩, 0xA526, 0x1771⟩]

theorem unambiguous_oneSocket : oneSocket.Unambiguous := by
  have hrow : ∀ row ∈ oneSocket.rows, row = establishedRow := fun row h => List.mem_singleton.1 h
  intro row hr other ho _ _ _ _
  rw [hrow row hr, hrow other ho]

theorem oneHolder_oneSocket : oneSocket.OneHolder := by
  have hholder : ∀ dirent ∈ oneSocket.proc, dirent = holder := fun _ h => List.mem_singleton.1 h
  intro dirent hd other ho _ _ _
  rw [hholder dirent hd, hholder other ho]

/-- The two packets, and a refresh. -/
def arrivalsRefreshed : List Act := twoArrivals ++ [.refresh ⟨102⟩]

theorem packets_arrivalsRefreshed : packets (arrivalsRefreshed.map Act.event) =
    [packetOf ⟨⟨100⟩, 60, 60⟩ (.ip ⟨0x9DD8A9C3⟩ ⟨0x020310AC⟩) 0xA525 0x1770,
      packetOf ⟨⟨101⟩, 40, 40⟩ (.ip ⟨0x9DD8A9C3⟩ ⟨0x020310AC⟩) 0xA526 0x1771] := rfl

theorem schedule_arrivalsRefreshed : Schedule (arrivalsRefreshed.map Act.event) :=
  @schedule_single (twoArrivals.map Act.event) ⟨102⟩ rfl (by decide) (by decide)
    ⟨by decide, by decide⟩

theorem between_arrivalsRefreshed : ∀ p ∈ packets (arrivalsRefreshed.map Act.event),
    ∃ loc rem, p.Between (dottedHost [⟨0x020310AC⟩]) loc rem := by
  rw [packets_arrivalsRefreshed]
  intro p hp
  refine exists_between_iff.2 ?_
  revert p
  decide

theorem unconfused_arrivalsRefreshed :
    Unconfused (packets (arrivalsRefreshed.map Act.event)) := by
  rw [packets_arrivalsRefreshed]
  refine unconfused_of_inet ?_ ?_
  · intro p hp
    simp only [List.mem_cons, List.not_mem_nil, or_false] at hp
    rcases hp with rfl | rfl
    · exact (pushed_packetOf ..).built
    · exact (pushed_packetOf ..).built
  · decide

end NetworkAnalyzer
