/-
The exact effect of a captured packet.

`push_packet` looks for a connection in two passes, adds the packet to it or opens a new
connection, and attaches a new connection to a process.  On a well-formed state the connections
are matched by distinct flow keys, so the two passes come to one look-up by key, and on the flow
table of the connections a captured packet is one `FlowTable.push`.

* `findPass_eq`, `findFromPacket_some`, `findFromPacket_none` — **the look-up finds the
  connection with the flow key of the packet, and nothing when there is none**;
* `ownedBy_attach` — attaching a connection adds it, once, to what the processes list;
* `pushNAPacket_spec` — **the effect of a packet**: it is defined, keeps the state well-formed,
  pushes one arrival on the flow table, and adds to what the processes list exactly the
  connection it opened, if it opened one;
* `PushStep`, `pushNAPacket_step` — **what `push_packet` can do**, as a case distinction, and
  `PushStep.origin`, where the connections it leaves come from;
* `naProcessInfoGetAll_ok`, `step_ok`, `run_ok` — well-formedness is an invariant, and no run
  gets stuck on a freed connection.
-/

import GnomeUsage.Sweep

set_option relaxedAutoImplicit false
set_option autoImplicit false

namespace NetworkAnalyzer

/-! ### The look-up -/

/-- The connection at `c` is found by `packet` in one pass. -/
def ConnStore.matchesAt (store : ConnStore) (packet : NAPacket) (c : Ptr) : Bool :=
  (store.cell c).elim false fun conn => naPacketMatch packet conn.refpacket

theorem matchesAt_of_cell {store : ConnStore} {packet : NAPacket} {c : Ptr} {conn : NAConnection}
    (h : store.cell c = some conn) :
    store.matchesAt packet c = naPacketMatch packet conn.refpacket := by
  simp [ConnStore.matchesAt, h]

theorem findPass_eq {store : ConnStore} {packet : NAPacket} {l : List Ptr}
    (hlive : ∀ c ∈ l, ∃ conn, store.cell c = some conn) :
    findPass store packet l = some (l.find? (store.matchesAt packet)) := by
  induction l with
  | nil => rfl
  | cons c l ih =>
      obtain ⟨conn, hconn⟩ := hlive c List.mem_cons_self
      have ih := ih fun d hd => hlive d (List.mem_cons_of_mem _ hd)
      unfold findPass
      simp only [hconn, Option.bind_eq_bind, Option.bind_some, List.find?_cons,
        matchesAt_of_cell hconn]
      cases naPacketMatch packet conn.refpacket with
      | true => rfl
      | false => exact ih

theorem naConnectionFindFromPacket_eq {store : ConnStore}
    (hlive : ∀ c ∈ store.connections, ∃ conn, store.cell c = some conn) (packet : NAPacket) :
    naConnectionFindFromPacket store packet =
      some ((store.connections.find? (store.matchesAt packet)).or
        (store.connections.find? (store.matchesAt (naPacketNewInverted packet)))) := by
  simp only [naConnectionFindFromPacket, findPass_eq hlive, Option.bind_eq_bind, Option.bind_some]
  cases store.connections.find? (store.matchesAt packet) <;> rfl

/-- What the look-up returns has the flow key of the packet. -/
theorem findFromPacket_some {store : ConnStore} (h : store.Ok) {packet : NAPacket}
    (hp : packet.Built) {c : Ptr}
    (hfind : naConnectionFindFromPacket store packet = some (some c)) :
    c ∈ store.connections ∧
      ∃ conn, store.cell c = some conn ∧ flowKey packet = flowKey conn.refpacket := by
  rw [naConnectionFindFromPacket_eq h.live, Option.some_inj, Option.or_eq_some_iff] at hfind
  have hmem : c ∈ store.connections := by
    rcases hfind with hfind | ⟨_, hfind⟩
    · exact List.mem_of_find?_eq_some hfind
    · exact List.mem_of_find?_eq_some hfind
  obtain ⟨conn, hconn⟩ := h.live c hmem
  refine ⟨hmem, conn, hconn, (match_or_match_inverted_iff hp).1 ?_⟩
  rcases hfind with hfind | ⟨_, hfind⟩
  · left
    rw [← matchesAt_of_cell hconn]
    exact List.find?_some hfind
  · right
    rw [← matchesAt_of_cell hconn]
    exact List.find?_some hfind

/-- The look-up returns nothing only if no connection has the flow key of the packet. -/
theorem findFromPacket_none {store : ConnStore} (h : store.Ok) {packet : NAPacket}
    (hp : packet.Built) (hfind : naConnectionFindFromPacket store packet = some none) :
    ∀ c ∈ store.connections, ∀ conn, store.cell c = some conn →
      flowKey packet ≠ flowKey conn.refpacket := by
  intro c hc conn hconn hkey
  rw [naConnectionFindFromPacket_eq h.live, Option.some_inj, Option.or_eq_none_iff,
    List.find?_eq_none, List.find?_eq_none] at hfind
  rcases (match_or_match_inverted_iff hp).2 hkey with hm | hm
  · exact hfind.1 c hc (by rw [matchesAt_of_cell hconn]; exact hm)
  · exact hfind.2 c hc (by rw [matchesAt_of_cell hconn]; exact hm)

/-- The look-up is always defined. -/
theorem findFromPacket_defined {store : ConnStore} (h : store.Ok) (packet : NAPacket) :
    ∃ r, naConnectionFindFromPacket store packet = some r :=
  ⟨_, naConnectionFindFromPacket_eq h.live packet⟩

/-! ### The flow table under writes -/

theorem flowsOf_nil (store : ConnStore) : store.flowsOf [] = [] := rfl

theorem flowsOf_cons {store : ConnStore} {c : Ptr} {conn : NAConnection} (l : List Ptr)
    (h : store.cell c = some conn) :
    store.flowsOf (c :: l) = (flowKey conn.refpacket, connEntry conn) :: store.flowsOf l := by
  simp [ConnStore.flowsOf, h]

theorem flowsOf_cons_none {store : ConnStore} {c : Ptr} (l : List Ptr) (h : store.cell c = none) :
    store.flowsOf (c :: l) = store.flowsOf l := by
  simp [ConnStore.flowsOf, h]

theorem flowsOf_append (store : ConnStore) (l l' : List Ptr) :
    store.flowsOf (l ++ l') = store.flowsOf l ++ store.flowsOf l' :=
  List.filterMap_append

theorem flowsOf_congr {store store' : ConnStore} {l : List Ptr}
    (h : ∀ c ∈ l, store.cell c = store'.cell c) : store.flowsOf l = store'.flowsOf l := by
  refine List.filterMap_congr ?_
  intro c hc
  rw [h c hc]

theorem mem_flowsOf {store : ConnStore} {l : List Ptr}
    {x : Sym2 Endpoint × FlowTable.Entry ℤ (BitVec 32)} :
    x ∈ store.flowsOf l ↔ ∃ c ∈ l, ∃ conn, store.cell c = some conn ∧
      x = (flowKey conn.refpacket, connEntry conn) := by
  simp only [ConnStore.flowsOf, List.mem_filterMap, Option.map_eq_some_iff]
  constructor
  · rintro ⟨c, hc, conn, hconn, rfl⟩
    exact ⟨c, hc, conn, hconn, rfl⟩
  · rintro ⟨c, hc, conn, hconn, rfl⟩
    exact ⟨c, hc, conn, hconn, rfl⟩

/-- Distinct flow keys: a key determines its connection. -/
theorem ConnStore.Ok.eq_of_flowKey {store : ConnStore} (h : store.Ok) {c d : Ptr}
    {conn conn' : NAConnection} (hc : c ∈ store.connections) (hd : d ∈ store.connections)
    (hconn : store.cell c = some conn) (hconn' : store.cell d = some conn')
    (hkey : flowKey conn.refpacket = flowKey conn'.refpacket) : c = d := by
  obtain ⟨l₁, l₂, hsplit⟩ := List.append_of_mem hc
  have hdist := h.distinct
  have hnodup := h.nodup
  rw [ConnStore.flows, hsplit, flowsOf_append, flowsOf_cons l₂ hconn] at hdist
  rw [hsplit] at hd
  simp only [FlowTable.Distinct, List.map_append, List.map_cons] at hdist
  have hnot := (List.nodup_middle.1 hdist)
  rw [List.nodup_cons, ← List.map_append, ← flowsOf_append] at hnot
  by_contra hne
  refine hnot.1 (List.mem_map.2 ⟨(flowKey conn'.refpacket, connEntry conn'), ?_, hkey.symm⟩)
  refine mem_flowsOf.2 ⟨d, ?_, conn', hconn', rfl⟩
  rcases List.mem_append.1 hd with hd | hd
  · exact List.mem_append_left _ hd
  · rcases List.mem_cons.1 hd with rfl | hd
    · exact absurd rfl hne
    · exact List.mem_append_right _ hd

theorem cell_write_self (store : ConnStore) (c : Ptr) (conn : NAConnection) :
    (store.write c conn).cell c = some conn := by
  simp [ConnStore.write]

theorem cell_write_of_ne {store : ConnStore} {c d : Ptr} (h : d ≠ c) (conn : NAConnection) :
    (store.write c conn).cell d = store.cell d := by
  simp [ConnStore.write, h]

/-- Writing a connection back with the same flow key and the same counters. -/
theorem flows_write_same {store : ConnStore} {c : Ptr} {conn conn' : NAConnection}
    (hconn : store.cell c = some conn) (hkey : flowKey conn'.refpacket = flowKey conn.refpacket)
    (hentry : connEntry conn' = connEntry conn) (l : List Ptr) :
    (store.write c conn').flowsOf l = store.flowsOf l := by
  refine List.filterMap_congr ?_
  intro d _
  by_cases hd : d = c
  · subst hd
    simp [cell_write_self, hconn, hkey, hentry]
  · rw [cell_write_of_ne hd]

theorem push_of_forall_ne {κ τ μ : Type*} [DecidableEq κ] [LinearOrder τ] [AddCommMonoid μ]
    {a : FlowTable.Arrival κ τ μ} {l : List (κ × FlowTable.Entry τ μ)}
    (h : ∀ x ∈ l, x.1 ≠ a.key) : FlowTable.push a l = l ++ [(a.key, a.entry)] := by
  induction l with
  | nil => rfl
  | cons x l ih =>
      unfold FlowTable.push
      rw [if_neg (h x List.mem_cons_self), ih fun y hy => h y (List.mem_cons_of_mem _ hy),
        List.cons_append]

variable (host : Host)

/-- Adding a packet to the connection with its flow key is pushing its arrival. -/
theorem flows_addPacket {store : ConnStore} {packet : NAPacket} {c : Ptr} {conn : NAConnection}
    {l : List Ptr} (hl : l.Nodup) (hc : c ∈ l) (hconn : store.cell c = some conn)
    (hlive : ∀ d ∈ l, ∃ conn, store.cell d = some conn)
    (hother : ∀ d ∈ l, d ≠ c → ∀ conn', store.cell d = some conn' →
      flowKey conn'.refpacket ≠ flowKey packet)
    (hkey : flowKey packet = flowKey conn.refpacket) :
    (store.write c (connectionAdd host conn packet)).flowsOf l =
      FlowTable.push (packetArrival host packet) (store.flowsOf l) := by
  induction l with
  | nil => simp at hc
  | cons d l ih =>
      obtain ⟨hdl, hl⟩ := List.nodup_cons.1 hl
      by_cases hd : d = c
      · subst hd
        have hrest : (store.write d (connectionAdd host conn packet)).flowsOf l =
            store.flowsOf l :=
          flowsOf_congr fun e he => cell_write_of_ne (fun (hed : e = d) => hdl (hed ▸ he)) _
        rw [flowsOf_cons l (cell_write_self store d _), flowsOf_cons l hconn, hrest,
          refpacket_add, connEntry_addPacket]
        unfold FlowTable.push
        rw [if_pos (by simpa [packetArrival] using hkey.symm)]
      · obtain ⟨conn', hconn'⟩ := hlive d List.mem_cons_self
        have hcl : c ∈ l := by
          rcases List.mem_cons.1 hc with h | h
          · exact absurd h.symm hd
          · exact h
        have hne : flowKey conn'.refpacket ≠ flowKey packet :=
          hother d List.mem_cons_self hd conn' hconn'
        have hwrite := (cell_write_of_ne hd (connectionAdd host conn packet)).trans hconn'
        rw [flowsOf_cons l hwrite, flowsOf_cons l hconn', ih hl hcl
          (fun e he => hlive e (List.mem_cons_of_mem _ he))
          (fun e he => hother e (List.mem_cons_of_mem _ he))]
        conv_rhs => unfold FlowTable.push
        rw [if_neg (by simpa [packetArrival] using hne)]

/-! ### The key text of a reference packet -/

/-- Remembering the key text changes the direction and the text of a packet only. -/
theorem getHashstring_eq (packet : NAPacket) :
    ∃ dir hashstring, (naPacketGetHashstring host packet).2 =
      { packet with dir := dir, hashstring := hashstring } := by
  unfold naPacketGetHashstring
  cases h : packet.hashstring with
  | some key => exact ⟨packet.dir, packet.hashstring, rfl⟩
  | none =>
      refine ⟨(naPacketIsOutgoing host packet).2.dir, ?_⟩
      simp only
      rw [isOutgoing_eq]
      exact ⟨_, rfl⟩

theorem getHashstring_flowKey (packet : NAPacket) :
    flowKey (naPacketGetHashstring host packet).2 = flowKey packet := by
  obtain ⟨dir, hashstring, heq⟩ := getHashstring_eq host packet
  rw [heq]
  rfl

theorem getHashstring_built {packet : NAPacket} (h : packet.Built) :
    (naPacketGetHashstring host packet).2.Built := by
  obtain ⟨dir, hashstring, heq⟩ := getHashstring_eq host packet
  rw [heq]
  exact ⟨h.blank_ip, h.blank_ip6⟩

theorem refpacket_init_built {packet : NAPacket} (h : packet.Built) :
    (connectionInit host packet).refpacket.Built := by
  rw [refpacket_init]
  split
  · rw [isOutgoing_eq]
    exact ⟨h.blank_ip, h.blank_ip6⟩
  · exact built_newInverted packet

theorem flowKey_refpacket_init {packet : NAPacket} (h : packet.Built) :
    flowKey (connectionInit host packet).refpacket = flowKey packet := by
  rw [refpacket_init]
  split
  · rw [isOutgoing_eq]
    rfl
  · exact flowKey_newInverted h

/-! ### Attaching a connection -/

theorem ownedBy_modify {processes : List NAProcess} {i : ℕ} (hi : i < processes.length)
    (c : Ptr) :
    (ownedBy (processes.modify i (NAProcess.attach c))).Perm (c :: ownedBy processes) := by
  induction processes generalizing i with
  | nil => simp at hi
  | cons process processes ih =>
      cases i with
      | zero =>
          simp only [List.modify_zero_cons, ownedBy_cons, NAProcess.attach, List.append_assoc,
            List.singleton_append]
          exact List.perm_middle
      | succ i =>
          simp only [List.modify_succ_cons, ownedBy_cons]
          have ih := ih (Nat.lt_of_succ_lt_succ (by simpa using hi))
          exact (ih.append_left _).trans List.perm_middle

theorem selectProcess_spec (processes : List NAProcess) (lookup : ProcessLookup)
    (hashstring : CStr) :
    (selectProcess processes lookup hashstring).2 <
        (selectProcess processes lookup hashstring).1.length ∧
      ownedBy (selectProcess processes lookup hashstring).1 = ownedBy processes := by
  unfold selectProcess
  split
  · split
    · next hfind => exact ⟨(List.findIdx?_eq_some_iff_getElem.1 hfind).1, rfl⟩
    · exact ⟨by simp, by simp [newProcessOf, naProcessNew]⟩
  · exact ⟨by simp, by simp [naProcessNew]⟩

/-- A connection whose reference packet remembers its key text. -/
def keyed (connection : NAConnection) : NAConnection :=
  { connection with refpacket := (naPacketGetHashstring host connection.refpacket).2 }

/-- The key text of a connection. -/
def connKey (connection : NAConnection) : CStr :=
  (naPacketGetHashstring host connection.refpacket).1

theorem attachConnection_eq {σ : NAState} {c : Ptr} {conn : NAConnection}
    (hconn : σ.store.cell c = some conn) (lookup : ProcessLookup) :
    attachConnection host σ c lookup =
      some ⟨σ.store.write c (keyed host conn),
        (selectProcess σ.processes lookup (connKey host conn)).1.modify
          (selectProcess σ.processes lookup (connKey host conn)).2 (NAProcess.attach c)⟩ := by
  simp only [attachConnection, hconn, Option.bind_eq_bind, Option.bind_some]
  rfl

/-- **Attaching a connection** adds it, once, to what the processes list. -/
theorem ownedBy_attach (processes : List NAProcess) (lookup : ProcessLookup) (hashstring : CStr)
    (c : Ptr) :
    (ownedBy ((selectProcess processes lookup hashstring).1.modify
        (selectProcess processes lookup hashstring).2 (NAProcess.attach c))).Perm
      (c :: ownedBy processes) := by
  obtain ⟨hi, howned⟩ := selectProcess_spec processes lookup hashstring
  rw [← howned]
  exact ownedBy_modify hi c

/-! ### The effect of a packet -/

/-- Writing to a live connection keeps a store well-formed, if the flow keys stay distinct. -/
theorem ConnStore.Ok.write {store : ConnStore} (h : store.Ok) {c : Ptr}
    {conn' : NAConnection} (hbuilt : conn'.refpacket.Built)
    (hdistinct : FlowTable.Distinct (store.write c conn').flows) : (store.write c conn').Ok where
  nodup := h.nodup
  live := fun d hd => by
    by_cases hdc : d = c
    · subst hdc
      exact ⟨conn', cell_write_self store d conn'⟩
    · rw [cell_write_of_ne hdc]
      exact h.live d hd
  lt_fresh := h.lt_fresh
  built := fun d hd conn hconn => by
    by_cases hdc : d = c
    · subst hdc
      rw [cell_write_self] at hconn
      cases hconn
      exact hbuilt
    · rw [cell_write_of_ne hdc] at hconn
      exact h.built d hd conn hconn
  distinct := hdistinct

theorem flows_new {store : ConnStore} (h : store.Ok) {packet : NAPacket} (hp : packet.Built)
    (hmissing : ∀ c ∈ store.connections, ∀ conn, store.cell c = some conn →
      flowKey packet ≠ flowKey conn.refpacket) :
    (naConnectionNew host store packet).2.flows =
      FlowTable.push (packetArrival host packet) store.flows := by
  have hold : (naConnectionNew host store packet).2.flowsOf store.connections = store.flows := by
    refine flowsOf_congr ?_
    intro c hc
    have hne : c ≠ store.fresh := (h.lt_fresh c hc).ne
    simp [naConnectionNew, hne]
  have hnew : (naConnectionNew host store packet).2.flowsOf [store.fresh] =
      [((packetArrival host packet).key, (packetArrival host packet).entry)] := by
    have hcell : (naConnectionNew host store packet).2.cell store.fresh =
        some (connectionInit host packet) := by simp [naConnectionNew]
    rw [flowsOf_cons [] hcell, flowsOf_nil, connEntry_new, flowKey_refpacket_init host hp]
    rfl
  rw [push_of_forall_ne]
  · rw [← hold, ← hnew, ← flowsOf_append]
    rfl
  · intro x hx
    obtain ⟨c, hc, conn, hconn, rfl⟩ := mem_flowsOf.1 hx
    exact (hmissing c hc conn hconn).symm

theorem ok_new {store : ConnStore} (h : store.Ok) {packet : NAPacket} (hp : packet.Built)
    (hmissing : ∀ c ∈ store.connections, ∀ conn, store.cell c = some conn →
      flowKey packet ≠ flowKey conn.refpacket) :
    (naConnectionNew host store packet).2.Ok where
  nodup := by
    refine List.Nodup.append h.nodup (List.nodup_singleton _) ?_
    intro c hc hc'
    obtain rfl := List.mem_singleton.1 hc'
    exact absurd (h.lt_fresh _ hc) (lt_irrefl _)
  live := fun c hc => by
    rcases List.mem_append.1 hc with hc | hc
    · have hne : c ≠ store.fresh := (h.lt_fresh c hc).ne
      simpa [naConnectionNew, hne] using h.live c hc
    · obtain rfl := List.mem_singleton.1 hc
      exact ⟨connectionInit host packet, by simp [naConnectionNew]⟩
  lt_fresh := fun c hc => by
    rcases List.mem_append.1 hc with hc | hc
    · exact Nat.lt_succ_of_lt (h.lt_fresh c hc)
    · obtain rfl := List.mem_singleton.1 hc
      exact Nat.lt_succ_self _
  built := fun c hc conn hconn => by
    rcases List.mem_append.1 hc with hc | hc
    · have hne : c ≠ store.fresh := (h.lt_fresh c hc).ne
      exact h.built c hc conn (by simpa [naConnectionNew, hne] using hconn)
    · obtain rfl := List.mem_singleton.1 hc
      obtain rfl : connectionInit host packet = conn := by simpa [naConnectionNew] using hconn
      exact refpacket_init_built host hp
  distinct := by
    rw [flows_new host h hp hmissing]
    exact h.distinct.push

/-- A packet of a known flow. -/
theorem pushNAPacket_found {σ : NAState} (h : σ.Ok) {packet : NAPacket}
    {c : Ptr} {conn : NAConnection} (hc : c ∈ σ.store.connections)
    (hconn : σ.store.cell c = some conn) (hkey : flowKey packet = flowKey conn.refpacket) :
    let store := σ.store.write c (connectionAdd host conn packet)
    (⟨store, σ.processes⟩ : NAState).Ok ∧
      store.flows = FlowTable.push (packetArrival host packet) σ.store.flows := by
  have hother : ∀ d ∈ σ.store.connections, d ≠ c → ∀ conn', σ.store.cell d = some conn' →
      flowKey conn'.refpacket ≠ flowKey packet := by
    intro d hd hne conn' hconn' heq
    exact hne (h.store.eq_of_flowKey hd hc hconn' hconn (heq.trans hkey))
  have hflows := flows_addPacket host h.store.nodup hc hconn h.store.live hother hkey
  refine ⟨⟨h.store.write ?_ ?_, h.owned, h.owned_nodup⟩, hflows⟩
  · rw [refpacket_add]
    exact h.store.built c hc conn hconn
  · rw [show (σ.store.write c (connectionAdd host conn packet)).flows =
        FlowTable.push (packetArrival host packet) σ.store.flows from hflows]
    exact h.store.distinct.push

/-- A packet of an unknown flow opens a connection and attaches it. -/
theorem pushNAPacket_missing {σ : NAState} (h : σ.Ok) {packet : NAPacket} (hp : packet.Built)
    (hmissing : ∀ c ∈ σ.store.connections, ∀ conn, σ.store.cell c = some conn →
      flowKey packet ≠ flowKey conn.refpacket) (lookup : ProcessLookup) :
    ∃ σ', attachConnection host ⟨(naConnectionNew host σ.store packet).2, σ.processes⟩
          σ.store.fresh lookup = some σ' ∧ σ'.Ok ∧
      σ'.store.flows = FlowTable.push (packetArrival host packet) σ.store.flows ∧
      σ'.store.connections = σ.store.connections ++ [σ.store.fresh] ∧
      (ownedBy σ'.processes).Perm (σ.store.fresh :: ownedBy σ.processes) := by
  have hok := ok_new host h.store hp hmissing
  have hcell : (naConnectionNew host σ.store packet).2.cell σ.store.fresh =
      some (connectionInit host packet) := by simp [naConnectionNew]
  have hkey : flowKey (keyed host (connectionInit host packet)).refpacket =
      flowKey (connectionInit host packet).refpacket := getHashstring_flowKey host _
  have hbuilt : (keyed host (connectionInit host packet)).refpacket.Built :=
    getHashstring_built host (refpacket_init_built host hp)
  have howned := ownedBy_attach σ.processes lookup (connKey host (connectionInit host packet))
    σ.store.fresh
  have hflows : ((naConnectionNew host σ.store packet).2.write σ.store.fresh
      (keyed host (connectionInit host packet))).flows =
        FlowTable.push (packetArrival host packet) σ.store.flows := by
    rw [← flows_new host h.store hp hmissing]
    exact flows_write_same hcell hkey rfl _
  have hfresh : σ.store.fresh ∉ ownedBy σ.processes := fun hmem =>
    absurd (h.store.lt_fresh _ (h.owned _ hmem)) (lt_irrefl _)
  refine ⟨_, attachConnection_eq host hcell lookup, ⟨hok.write hbuilt ?_, ?_, ?_⟩, hflows, rfl,
    howned⟩
  · rw [hflows]
    exact h.store.distinct.push
  · intro c hc
    rcases List.mem_cons.1 (howned.mem_iff.1 hc) with rfl | hc
    · exact List.mem_append_right _ (List.mem_singleton_self _)
    · exact List.mem_append_left _ (h.owned c hc)
  · exact howned.nodup_iff.2 (List.nodup_cons.2 ⟨hfresh, h.owned_nodup⟩)

/-- **The effect of a packet.** -/
theorem pushNAPacket_spec {σ : NAState} (h : σ.Ok) {packet : NAPacket} (hp : packet.Built)
    (lookup : ProcessLookup) :
    ∃ σ', pushNAPacket host σ packet lookup = some σ' ∧ σ'.Ok ∧
      σ'.store.flows = FlowTable.push (packetArrival host packet) σ.store.flows ∧
      (σ'.store.connections = σ.store.connections ∧ σ'.processes = σ.processes ∨
        σ'.store.connections = σ.store.connections ++ [σ.store.fresh] ∧
          (ownedBy σ'.processes).Perm (σ.store.fresh :: ownedBy σ.processes)) := by
  obtain ⟨r, hr⟩ := findFromPacket_defined h.store packet
  cases r with
  | some c =>
      obtain ⟨hc, conn, hconn, hkey⟩ := findFromPacket_some h.store hp hr
      obtain ⟨hok, hflows⟩ := pushNAPacket_found host h hc hconn hkey
      refine ⟨_, ?_, hok, hflows, .inl ⟨rfl, rfl⟩⟩
      simp only [pushNAPacket, hr, naConnectionAddPacket, hconn, Option.bind_eq_bind,
        Option.bind_some]
  | none =>
      have hmissing := findFromPacket_none h.store hp hr
      obtain ⟨σ', hσ', hok, hflows, hconns, howned⟩ :=
        pushNAPacket_missing host h hp hmissing lookup
      refine ⟨σ', ?_, hok, hflows, .inr ⟨hconns, howned⟩⟩
      simp only [pushNAPacket, hr, Option.bind_eq_bind, Option.bind_some]
      exact hσ'

/-- What is left of a store when a packet opens a connection and its key text is remembered. -/
def ConnStore.opened (store : ConnStore) (packet : NAPacket) : ConnStore :=
  (naConnectionNew host store packet).2.write store.fresh (keyed host (connectionInit host packet))

theorem cell_opened_self (store : ConnStore) (packet : NAPacket) :
    (store.opened host packet).cell store.fresh = some (keyed host (connectionInit host packet)) :=
  cell_write_self _ _ _

theorem cell_opened_of_ne {store : ConnStore} {c : Ptr} (h : c ≠ store.fresh)
    (packet : NAPacket) : (store.opened host packet).cell c = store.cell c := by
  rw [ConnStore.opened, cell_write_of_ne h]
  simp [naConnectionNew, h]

/-- **What `push_packet` can do**: it adds the packet to the connection of its flow, or it opens a
connection and attaches it to a process. -/
inductive PushStep (σ : NAState) (packet : NAPacket) (lookup : ProcessLookup) (σ' : NAState) : Prop
  | found {c : Ptr} {conn : NAConnection}
      (hfind : naConnectionFindFromPacket σ.store packet = some (some c))
      (hc : c ∈ σ.store.connections) (hconn : σ.store.cell c = some conn)
      (hkey : flowKey packet = flowKey conn.refpacket)
      (heq : σ' = ⟨σ.store.write c (connectionAdd host conn packet), σ.processes⟩)
  | opened (hfind : naConnectionFindFromPacket σ.store packet = some none)
      (hmissing : ∀ c ∈ σ.store.connections, ∀ conn, σ.store.cell c = some conn →
        flowKey packet ≠ flowKey conn.refpacket)
      (heq : σ' = ⟨σ.store.opened host packet,
        (selectProcess σ.processes lookup (connKey host (connectionInit host packet))).1.modify
          (selectProcess σ.processes lookup (connKey host (connectionInit host packet))).2
          (NAProcess.attach σ.store.fresh)⟩)

theorem pushNAPacket_step {σ σ' : NAState} (h : σ.Ok) {packet : NAPacket} (hp : packet.Built)
    {lookup : ProcessLookup} (hrun : pushNAPacket host σ packet lookup = some σ') :
    PushStep host σ packet lookup σ' := by
  obtain ⟨r, hr⟩ := findFromPacket_defined h.store packet
  simp only [pushNAPacket, hr, Option.bind_eq_bind, Option.bind_some] at hrun
  cases r with
  | some c =>
      obtain ⟨hc, conn, hconn, hkey⟩ := findFromPacket_some h.store hp hr
      simp only [naConnectionAddPacket, hconn, Option.bind_eq_bind, Option.bind_some] at hrun
      cases hrun
      exact .found hr hc hconn hkey rfl
  | none =>
      have hcell : (naConnectionNew host σ.store packet).2.cell σ.store.fresh =
          some (connectionInit host packet) := by simp [naConnectionNew]
      have hattach := @attachConnection_eq host
        ⟨(naConnectionNew host σ.store packet).2, σ.processes⟩ _ _ hcell lookup
      cases hattach.symm.trans hrun
      exact .opened hr (findFromPacket_none h.store hp hr) rfl

/-- **Where the connections behind a packet come from**: they were there before, with the same
reference packet, or the packet opened them. -/
theorem PushStep.origin {σ σ' : NAState} (h : σ.Ok) {packet : NAPacket} {lookup : ProcessLookup}
    (hstep : PushStep host σ packet lookup σ') :
    ∀ c ∈ σ'.store.connections, ∀ conn', σ'.store.cell c = some conn' →
      (c ∈ σ.store.connections ∧
          ∃ conn, σ.store.cell c = some conn ∧ conn'.refpacket = conn.refpacket) ∨
        naConnectionFindFromPacket σ.store packet = some none ∧ c = σ.store.fresh ∧
          conn' = keyed host (connectionInit host packet) := by
  intro c hc conn' hconn'
  cases hstep with
  | @found d conn _ hd hconn _ heq =>
      subst heq
      left
      by_cases hcd : c = d
      · subst hcd
        rw [cell_write_self] at hconn'
        cases hconn'
        exact ⟨hd, conn, hconn, refpacket_add host conn packet⟩
      · rw [cell_write_of_ne hcd] at hconn'
        exact ⟨hc, conn', hconn', rfl⟩
  | opened hfind _ heq =>
      subst heq
      rcases List.mem_append.1 hc with hc | hc
      · rw [cell_opened_of_ne host (h.store.lt_fresh c hc).ne] at hconn'
        exact .inl ⟨hc, conn', hconn', rfl⟩
      · obtain rfl := List.mem_singleton.1 hc
        rw [cell_opened_self] at hconn'
        exact .inr ⟨hfind, rfl, (Option.some_inj.1 hconn').symm⟩

/-! ### Well-formedness is an invariant -/

theorem ownedBy_map_trim (store : ConnStore) (t : Timeval) (processes : List NAProcess) :
    ownedBy (processes.map (store.trim t)) = store.keep t (ownedBy processes) := by
  induction processes with
  | nil => rfl
  | cons process processes ih =>
      simp only [List.map_cons, ownedBy_cons, ih, ConnStore.trim, ConnStore.keep,
        List.filter_append]

theorem nodup_ownedBy_survivors {store : ConnStore} {t : Timeval} {processes : List NAProcess}
    (h : (ownedBy processes).Nodup) : (ownedBy (store.survivors t processes)).Nodup := by
  refine h.sublist ?_
  induction processes with
  | nil => exact List.Sublist.refl _
  | cons process processes ih =>
      have ih := ih (List.Nodup.of_append_right h)
      cases hout : store.timedOut t process with
      | true =>
          have hs : store.survivors t (process :: processes) = store.survivors t processes := by
            simp [ConnStore.survivors, hout]
          rw [hs]
          exact ih.trans (List.sublist_append_right _ _)
      | false =>
          have hs : store.survivors t (process :: processes) =
              process :: store.survivors t processes := by
            simp [ConnStore.survivors, hout]
          rw [hs]
          exact ih.append_left _

theorem mem_connections_sweep {store : ConnStore} {t : Timeval} {l : List Ptr} {c : Ptr} :
    c ∈ (store.sweep t l).connections ↔
      c ∈ store.connections ∧ ¬ (c ∈ l ∧ store.stalled t c = true) := by
  simp only [connections_sweep, List.mem_filter, Bool.not_eq_true', Bool.and_eq_false_iff,
    decide_eq_false_iff_not]
  cases store.stalled t c <;> simp

/-- A sweep does not change reference packets. -/
theorem cell_sweep_some {store : ConnStore} {t : Timeval} {l : List Ptr} {c : Ptr}
    {conn' : NAConnection} (h : (store.sweep t l).cell c = some conn') :
    ∃ conn, store.cell c = some conn ∧ conn'.refpacket = conn.refpacket := by
  rw [cell_sweep] at h
  split at h
  · split at h
    · cases h
    · obtain ⟨conn, hconn, rfl⟩ := Option.map_eq_some_iff.1 h
      exact ⟨conn, hconn, refpacket_cut t conn⟩
  · exact ⟨conn', h, rfl⟩

/-- The keys of the flow table after a sweep are among the ones before it, in order. -/
theorem keys_sweep_sublist (store : ConnStore) (t : Timeval) (l cs : List Ptr) :
    (((store.sweep t l).flowsOf cs).map Prod.fst).Sublist ((store.flowsOf cs).map Prod.fst) := by
  induction cs with
  | nil => exact List.Sublist.refl _
  | cons c cs ih =>
      cases hcell : (store.sweep t l).cell c with
      | none =>
          rw [flowsOf_cons_none cs hcell]
          cases hconn : store.cell c with
          | none => rwa [flowsOf_cons_none cs hconn]
          | some conn =>
              rw [flowsOf_cons cs hconn]
              exact ih.trans (List.sublist_cons_self _ _)
      | some conn' =>
          obtain ⟨conn, hconn, href⟩ := cell_sweep_some hcell
          rw [flowsOf_cons cs hcell, flowsOf_cons cs hconn, List.map_cons, List.map_cons, href]
          exact ih.cons_cons _

theorem ConnStore.Ok.sweep {store : ConnStore} (h : store.Ok) (t : Timeval) (l : List Ptr) :
    (store.sweep t l).Ok where
  nodup := nodup_sweep h.nodup
  live := fun c hc => by
    obtain ⟨hc, hst⟩ := mem_connections_sweep.1 hc
    obtain ⟨conn, hconn⟩ := h.live c hc
    rw [cell_sweep]
    by_cases hcl : c ∈ l
    · have hst : ¬ store.stalled t c = true := fun hst' => hst ⟨hcl, hst'⟩
      exact ⟨connectionCut t conn, by simp [hcl, hst, hconn]⟩
    · exact ⟨conn, by simp [hcl, hconn]⟩
  lt_fresh := fun c hc => h.lt_fresh c (mem_connections_sweep.1 hc).1
  built := fun c hc conn hconn => by
    obtain ⟨conn', hconn', href⟩ := cell_sweep_some hconn
    rw [href]
    exact h.built c (mem_connections_sweep.1 hc).1 conn' hconn'
  distinct := by
    have hsub : (store.sweep t l).connections.Sublist store.connections := List.filter_sublist
    have hkeys : (((store.sweep t l).flowsOf (store.sweep t l).connections).map Prod.fst).Sublist
        ((store.flowsOf store.connections).map Prod.fst) :=
      ((hsub.filterMap _).map _).trans (keys_sweep_sublist store t l store.connections)
    exact h.distinct.sublist hkeys

/-- A refresh of a well-formed state is defined. -/
theorem naProcessInfoGetAll_defined {σ : NAState} (h : σ.Ok) (t : Timeval) :
    ∃ σ' proc_info, naProcessInfoGetAll σ t = some (σ', proc_info) :=
  ⟨_, _, naProcessInfoGetAll_eq h t⟩

/-- A refresh leads to a well-formed state. -/
theorem naProcessInfoGetAll_ok {σ σ' : NAState} (h : σ.Ok) {t : Timeval}
    {proc_info : List NAProcInfo} (hrun : naProcessInfoGetAll σ t = some (σ', proc_info)) :
    σ'.Ok := by
  rw [naProcessInfoGetAll_eq h] at hrun
  cases hrun
  have hkeep : ∀ c, c ∈ σ.store.keep t (ownedBy (σ.store.survivors t σ.processes)) ↔
      c ∈ ownedBy (σ.store.survivors t σ.processes) ∧ ¬ σ.store.stalled t c = true := by
    intro c
    simp [ConnStore.keep]
  refine ⟨h.store.sweep t _, ?_, ?_⟩
  · intro c hc
    simp only [ownedBy_map_trim, hkeep] at hc
    exact mem_connections_sweep.2
      ⟨h.owned c (ownedBy_survivors_subset hc.1), fun hst => hc.2 hst.2⟩
  · simp only [ownedBy_map_trim]
    exact (nodup_ownedBy_survivors h.owned_nodup).filter _

/-- **Every step from a well-formed state is defined and leads to one.** -/
theorem step_ok {σ : NAState} (h : σ.Ok) (e : Event) : ∃ σ', step host σ e = some σ' ∧ σ'.Ok := by
  cases e with
  | push header address s_port d_port lookup =>
      obtain ⟨σ', hσ', hok, _⟩ := pushNAPacket_spec host h
        (pushed_packetOf header address s_port d_port).built lookup
      exact ⟨σ', hσ', hok⟩
  | refresh t =>
      obtain ⟨σ', proc_info, heq⟩ := naProcessInfoGetAll_defined h t
      refine ⟨σ', ?_, naProcessInfoGetAll_ok h heq⟩
      simp only [step, heq, Option.map_some]

/-- **No run gets stuck**, and every run ends in a well-formed state. -/
theorem run_ok (es : List Event) :
    ∃ σ, Runs.run (step host) NAState.init es = some σ ∧ σ.Ok :=
  Runs.run_total (fun _ e h => step_ok host h e) ok_init es

end NetworkAnalyzer
