/-
What holds of every state the analyzer can reach, about its pointers and its look-ups.

Connections are referred to by raw pointers, from the global list and from the lists of the
processes, and freed while these lists are walked.  Nothing in the code checks that a pointer is
still good, or that a packet is matched by one connection only; both follow from the invariant of
`GnomeUsage/Sweep.lean`.

* `NetworkAnalyzer.ConnStore.Freed` — a connection that was allocated and freed, with what happens
  to an operation that follows a pointer to one;
* `NetworkAnalyzer.NAState.Intact` — no list refers to a freed connection, and no connection is
  listed twice;
* `pointers_intact` — **no dangling and no shared connection**, in any reachable state, and no
  operation on one;
* `one_connection_matches` — **at most one connection matches a packet**, so that neither the
  order of the list nor that of the two passes matters.
-/

import GnomeUsage.Ownership

set_option relaxedAutoImplicit false
set_option autoImplicit false

namespace NetworkAnalyzer

/-! ### Freed connections -/

/-- The connection at `c` was allocated, and freed. -/
def ConnStore.Freed (store : ConnStore) (c : Ptr) : Prop :=
  c < store.fresh ∧ store.cell c = none

/-- What follows a pointer to a freed connection is undefined. -/
theorem ConnStore.Freed.undefined {store : ConnStore} {c : Ptr} (h : store.Freed c) :
    naConnectionFree store c = none ∧ naConnectionGetLastPacketTime store c = none ∧
      (∀ t, naConnectionSumPackets store c t = none) ∧
      ∀ packet iter, findPass store packet (c :: iter) = none := by
  have hcell := h.2
  refine ⟨?_, ?_, ?_, ?_⟩
  · simp [naConnectionFree, hcell]
  · simp [naConnectionGetLastPacketTime, hcell]
  · intro t
    simp [naConnectionSumPackets, hcell]
  · intro packet iter
    simp [findPass, hcell]

/-- **No dangling and no shared connection**: every pointer of a process leads to a live
connection of the global list, and no connection is listed twice. -/
structure NAState.Intact (σ : NAState) : Prop where
  nodup : σ.store.connections.Nodup
  live : ∀ c ∈ σ.store.connections, ¬ σ.store.Freed c
  owned : ∀ process ∈ σ.processes, ∀ c ∈ process.connections, c ∈ σ.store.connections
  once : ∀ process ∈ σ.processes, process.connections.Nodup
  unshared : ∀ (i j : ℕ) (p q : NAProcess), σ.processes[i]? = some p → σ.processes[j]? = some q →
    ∀ c ∈ p.connections, c ∈ q.connections → i = j

theorem nodup_connections {processes : List NAProcess} (h : (ownedBy processes).Nodup)
    {process : NAProcess} (hp : process ∈ processes) : process.connections.Nodup :=
  (List.nodup_flatMap.1 h).1 process hp

theorem NAState.Ok.intact {σ : NAState} (h : σ.Ok) : σ.Intact where
  nodup := h.store.nodup
  live := by
    rintro c hc ⟨_, hnone⟩
    obtain ⟨conn, hconn⟩ := h.store.live c hc
    rw [hconn] at hnone
    cases hnone
  owned := fun process hp c hc => h.owned c (mem_ownedBy.2 ⟨process, hp, hc⟩)
  once := fun process hp => nodup_connections h.owned_nodup hp
  unshared := fun _ _ _ _ hi hj _ hc hc' => index_unique_of_nodup h.owned_nodup hi hc hj hc'

variable (host : Host)

/-! ### What is freed stays freed -/

theorem freed_refresh {σ σ' : NAState} (h : σ.Ok) {t : Timeval}
    {proc_info : List NAProcInfo} (hrun : naProcessInfoGetAll σ t = some (σ', proc_info)) {c : Ptr}
    (hc : σ.store.Freed c) : σ'.store.Freed c := by
  rw [naProcessInfoGetAll_eq h] at hrun
  cases hrun
  refine ⟨hc.1, ?_⟩
  rw [cell_sweep, hc.2]
  simp

theorem freed_push {σ σ' : NAState} (h : σ.Ok) {packet : NAPacket} {lookup : ProcessLookup}
    (hp : packet.Built) (hrun : pushNAPacket host σ packet lookup = some σ') {c : Ptr}
    (hc : σ.store.Freed c) : σ'.store.Freed c := by
  obtain ⟨hlt, hnone⟩ := hc
  cases pushNAPacket_step host h hp hrun with
  | @found d conn _ _ hconn _ heq =>
      subst heq
      have hne : c ≠ d := by
        rintro rfl
        rw [hconn] at hnone
        cases hnone
      exact ⟨hlt, (cell_write_of_ne hne _).trans hnone⟩
  | opened _ _ heq =>
      subst heq
      exact ⟨Nat.lt_succ_of_lt hlt, (cell_opened_of_ne host (ne_of_lt hlt) packet).trans hnone⟩

theorem freed_step {σ σ' : NAState} (h : σ.Ok) {e : Event} (hrun : step host σ e = some σ')
    {c : Ptr} (hc : σ.store.Freed c) : σ'.store.Freed c := by
  cases e with
  | push header address s_port d_port lookup =>
      exact freed_push host h (pushed_packetOf header address s_port d_port).built hrun hc
  | refresh t =>
      obtain ⟨⟨s, proc_info⟩, hs, rfl⟩ := Option.map_eq_some_iff.1 hrun
      exact freed_refresh h hs hc

theorem freed_run {σ : NAState} (h : σ.Ok) {c : Ptr} (hc : σ.store.Freed c)
    (es : List Event) :
    ∃ σ', Runs.run (step host) σ es = some σ' ∧ σ'.Ok ∧ σ'.store.Freed c := by
  have hstep : ∀ (s : NAState) (e : Event), s.Ok ∧ s.store.Freed c →
      ∃ s', step host s e = some s' ∧ s'.Ok ∧ s'.store.Freed c := by
    rintro s e ⟨hs, hsc⟩
    obtain ⟨s', hs', hok⟩ := step_ok host hs e
    exact ⟨s', hs', hok, freed_step host hs hs' hsc⟩
  exact Runs.run_total hstep ⟨h, hc⟩ es

/-- **No dangling and no shared connection**, in any reachable state: no refresh, no sum over a
process and no look-up follows a pointer to a freed connection, and what was freed is never
referred to, and hence never freed, again. -/
theorem pointers_intact (es : List Event) :
    ∃ σ, Runs.run (step host) NAState.init es = some σ ∧ σ.Intact ∧
      (∀ t, ∃ σ' proc_info, naProcessInfoGetAll σ t = some (σ', proc_info)) ∧
      (∀ process ∈ σ.processes, ∀ t,
        ∃ r, naProcessSumConnections σ.store process t = some r) ∧
      (∀ packet, ∃ r, naConnectionFindFromPacket σ.store packet = some r) ∧
      ∀ later, ∃ σ', Runs.run (step host) σ later = some σ' ∧ σ'.Intact ∧
        ∀ c, σ.store.Freed c → σ'.store.Freed c := by
  obtain ⟨σ, hrun, hok⟩ := run_ok host es
  refine ⟨σ, hrun, hok.intact, naProcessInfoGetAll_defined hok, ?_,
    findFromPacket_defined hok.store, ?_⟩
  · intro process hp t
    have hnodup := nodup_connections hok.owned_nodup hp
    have hlive : ∀ c ∈ process.connections, ∃ conn, σ.store.cell c = some conn :=
      fun c hc => hok.live (mem_ownedBy.2 ⟨process, hp, hc⟩)
    unfold naProcessSumConnections
    rw [sumConnectionsFrom_eq t hok.store.nodup hnodup hlive]
    exact ⟨_, rfl⟩
  · intro later
    obtain ⟨σ', hlater, hok'⟩ := Runs.run_total (fun _ e h => step_ok host h e) hok later
    refine ⟨σ', hlater, hok'.intact, ?_⟩
    intro c hc
    obtain ⟨s, hs, _, hfreed⟩ := freed_run host hok hc later
    obtain rfl := Option.some_inj.1 (hs.symm.trans hlater)
    exact hfreed

/-! ### At most one connection matches -/

theorem flowKey_of_match {packet other : NAPacket} (h : naPacketMatch packet other = true) :
    flowKey packet = flowKey other := by
  obtain ⟨hs, hsp, hd, hdp⟩ := naPacketMatch_iff.1 h
  simp only [flowKey, hs, hsp, hd, hdp]

/-- Two connections found by one packet, in the same pass, are the same. -/
theorem eq_of_matchesAt {store : ConnStore} (h : store.Ok) {packet : NAPacket} {c d : Ptr}
    (hc : c ∈ store.connections) (hd : d ∈ store.connections)
    (hmc : store.matchesAt packet c = true) (hmd : store.matchesAt packet d = true) : c = d := by
  obtain ⟨conn, hconn⟩ := h.live c hc
  obtain ⟨conn', hconn'⟩ := h.live d hd
  rw [matchesAt_of_cell hconn] at hmc
  rw [matchesAt_of_cell hconn'] at hmd
  exact h.eq_of_flowKey hc hd hconn hconn'
    ((flowKey_of_match hmc).symm.trans (flowKey_of_match hmd))

/-- `na_connection_find_from_packet` in a single pass, which tests both orientations of the packet
at every link. -/
def findEither (store : ConnStore) (packet : NAPacket) : List Ptr → Option (Option Ptr)
  | [] => some none
  | c :: iter => do
      let connection ← store.cell c
      if naPacketMatch packet connection.refpacket ||
          naPacketMatch (naPacketNewInverted packet) connection.refpacket then some (some c)
      else findEither store packet iter

theorem findEither_eq {store : ConnStore} {packet : NAPacket} {l : List Ptr}
    (hlive : ∀ c ∈ l, ∃ conn, store.cell c = some conn) :
    findEither store packet l = some (l.find? fun c =>
      store.matchesAt packet c || store.matchesAt (naPacketNewInverted packet) c) := by
  induction l with
  | nil => rfl
  | cons c l ih =>
      obtain ⟨conn, hconn⟩ := hlive c List.mem_cons_self
      have ih := ih fun d hd => hlive d (List.mem_cons_of_mem _ hd)
      unfold findEither
      simp only [hconn, Option.bind_eq_bind, Option.bind_some, List.find?_cons,
        matchesAt_of_cell hconn]
      cases naPacketMatch packet conn.refpacket ||
          naPacketMatch (naPacketNewInverted packet) conn.refpacket with
      | true => rfl
      | false => exact ih

/-- Searching for what at most one element satisfies does not depend on the order. -/
theorem find?_eq_of_perm {α : Type*} {p : α → Bool} {l l' : List α} (hperm : l'.Perm l)
    (huniq : ∀ a ∈ l, ∀ b ∈ l, p a = true → p b = true → a = b) : l'.find? p = l.find? p := by
  cases h : l.find? p with
  | none =>
      rw [List.find?_eq_none] at h ⊢
      exact fun a ha => h a (hperm.mem_iff.1 ha)
  | some a =>
      have ha := List.mem_of_find?_eq_some h
      have hpa := List.find?_some h
      cases h' : l'.find? p with
      | none => exact absurd hpa (List.find?_eq_none.1 h' a (hperm.mem_iff.2 ha))
      | some b =>
          have hb := hperm.mem_iff.1 (List.mem_of_find?_eq_some h')
          rw [huniq b hb a ha (List.find?_some h') hpa]

/-- Two searches, the second when the first finds nothing, are one search for either, when at most
one element satisfies either. -/
theorem find?_or_eq {α : Type*} {p q : α → Bool} {l : List α}
    (huniq : ∀ a ∈ l, ∀ b ∈ l, p a = true → q b = true → a = b) :
    (l.find? p).or (l.find? q) = l.find? fun a => p a || q a := by
  induction l with
  | nil => rfl
  | cons a l ih =>
      have ih := ih fun b hb c hc =>
        huniq b (List.mem_cons_of_mem _ hb) c (List.mem_cons_of_mem _ hc)
      simp only [List.find?_cons]
      cases hp : p a with
      | true => rfl
      | false =>
          cases hq : q a with
          | false => exact ih
          | true =>
              have hnone : l.find? p = none := by
                refine List.find?_eq_none.2 fun b hb hpb => ?_
                have hba := huniq b (List.mem_cons_of_mem _ hb) a List.mem_cons_self hpb hq
                rw [hba, hp] at hpb
                cases hpb
              rw [hnone]
              rfl

/-- **At most one connection matches**, in any reachable state: no reference packet matches
another, as it is or inverted, so the look-up of a packet depends neither on the order of the list
nor on that of its two passes. -/
theorem one_connection_matches (es : List Event) :
    ∃ σ, Runs.run (step host) NAState.init es = some σ ∧
      (∀ c ∈ σ.store.connections, ∀ d ∈ σ.store.connections, c ≠ d →
        ∀ conn conn', σ.store.cell c = some conn → σ.store.cell d = some conn' →
          naPacketMatch conn.refpacket conn'.refpacket = false ∧
            naPacketMatch conn.refpacket (naPacketNewInverted conn'.refpacket) = false) ∧
      ∀ packet : NAPacket,
        (∀ l : List Ptr, l.Perm σ.store.connections →
          naConnectionFindFromPacket { σ.store with connections := l } packet =
            naConnectionFindFromPacket σ.store packet) ∧
        (packet.Built → naConnectionFindFromPacket σ.store packet =
          findEither σ.store packet σ.store.connections) := by
  obtain ⟨σ, hrun, hok⟩ := run_ok host es
  refine ⟨σ, hrun, ?_, fun packet => ⟨?_, ?_⟩⟩
  · intro c hc d hd hne conn conn' hconn hconn'
    have hkey : flowKey conn.refpacket ≠ flowKey conn'.refpacket :=
      fun heq => hne (hok.store.eq_of_flowKey hc hd hconn hconn' heq)
    have hbuilt := hok.store.built d hd conn' hconn'
    refine ⟨?_, ?_⟩
    · exact Bool.eq_false_iff.2 fun hm => hkey (flowKey_of_match hm)
    · exact Bool.eq_false_iff.2 fun hm =>
        hkey ((flowKey_of_match hm).trans (flowKey_newInverted hbuilt))
  · intro l hperm
    have hlive : ∀ c ∈ l, ∃ conn, σ.store.cell c = some conn :=
      fun c hc => hok.store.live c (hperm.mem_iff.1 hc)
    have hfind : ∀ p, l.find? (σ.store.matchesAt p) =
        σ.store.connections.find? (σ.store.matchesAt p) :=
      fun p => find?_eq_of_perm hperm fun c hc d hd => eq_of_matchesAt hok.store hc hd
    have hl := @naConnectionFindFromPacket_eq { σ.store with connections := l } hlive packet
    refine hl.trans ?_
    rw [naConnectionFindFromPacket_eq hok.store.live, ← hfind, ← hfind]
    rfl
  · intro hp
    rw [naConnectionFindFromPacket_eq hok.store.live, findEither_eq hok.store.live, find?_or_eq]
    intro c hc d hd hmc hmd
    obtain ⟨conn, hconn⟩ := hok.store.live c hc
    obtain ⟨conn', hconn'⟩ := hok.store.live d hd
    rw [matchesAt_of_cell hconn] at hmc
    rw [matchesAt_of_cell hconn'] at hmd
    refine hok.store.eq_of_flowKey hc hd hconn hconn' ?_
    exact ((match_or_match_inverted_iff hp).1 (.inl hmc)).symm.trans
      ((match_or_match_inverted_iff hp).1 (.inr hmd))

end NetworkAnalyzer
