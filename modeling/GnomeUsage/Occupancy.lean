/-
What a refresh leaves in memory.

The analyzer runs for as long as it is asked to, so that it must forget what it no longer needs.
This module says how much it remembers: after every refresh of a scheduled run there is one
connection for every flow with a packet in the last 25 seconds and nothing else on the heap, its
packet lists have five links at most, and after a silence nothing is left.

* `NAState.Tight` — every connection on the heap is in the global list, kept by every step;
* `Occupied` — the invariant of a scheduled run, with `occupied_push` and `occupied_refresh`;
* `live_connections` — **the connections after a refresh** are the flows of the last 25 seconds;
* `silence_clears` — **two refreshes after a silence** leave no connection and no process.
-/

import GnomeUsage.Flows
import GnomeUsage.Schedules
import Mathlib.Data.Int.Interval

set_option relaxedAutoImplicit false
set_option autoImplicit false

namespace NetworkAnalyzer

variable (host : Host)

/-! ### The heap -/

/-- **Nothing is leaked**: every connection on the heap is in the global list. -/
def NAState.Tight (σ : NAState) : Prop :=
  ∀ c conn, σ.store.cell c = some conn → c ∈ σ.store.connections

theorem tight_init : NAState.init.Tight := by
  intro c conn h
  cases h

/-- **Every step frees what it takes out of the list**, and lists what it allocates. -/
theorem tight_step {σ σ' : NAState} (h : σ.Ok) (ht : σ.Tight) {e : Event}
    (hstep : step host σ e = some σ') : σ'.Tight := by
  cases e with
  | push header address s_port d_port lookup =>
      have hp := (pushed_packetOf header address s_port d_port).built
      intro c conn' hconn'
      cases pushNAPacket_step host h hp hstep with
      | @found d _ _ hd _ _ heq =>
          subst heq
          by_cases hcd : c = d
          · exact hcd ▸ hd
          · rw [cell_write_of_ne hcd] at hconn'
            exact ht c conn' hconn'
      | opened _ _ heq =>
          subst heq
          by_cases hcf : c = σ.store.fresh
          · subst hcf
            exact List.mem_append_right _ (List.mem_singleton_self _)
          · rw [cell_opened_of_ne host hcf] at hconn'
            exact List.mem_append_left _ (ht c conn' hconn')
  | refresh t =>
      simp only [step, naProcessInfoGetAll_eq h, Option.map_some] at hstep
      cases hstep
      intro c conn' hconn'
      obtain ⟨conn, hconn, _⟩ := cell_sweep_some hconn'
      refine mem_connections_sweep.2 ⟨ht c conn hconn, ?_⟩
      rintro ⟨hl, hst⟩
      simp [cell_sweep, hl, hst] at hconn'

/-! ### The invariant of a scheduled run -/

/-- The arrivals of the packets of a run. -/
def arrivals (es : List Event) : List (FlowTable.Arrival (Sym2 Endpoint) ℤ (BitVec 32)) :=
  (packets es).map (packetArrival host)

/-- **The memory is kept in order** after the events `hist`, with the next refresh due at `r`. -/
structure Occupied (hist : List Event) (r : ℤ) (σ : NAState) : Prop where
  books : Books host hist r σ
  tight : σ.Tight
  remembers : FlowTable.Remembers (arrivals host hist) (r - CONNTIMEOUT) σ.store.flows
  upper : ∀ x ∈ σ.store.flows, x.2.last ≤ r
  range : ∀ s ∈ packetTimes hist, InRange s

theorem occupied_init (r : ℤ) : Occupied host [] r NAState.init where
  books := books_init host r
  tight := tight_init
  remembers := FlowTable.remembers_nil _
  upper := fun _ hx => absurd hx List.not_mem_nil
  range := fun _ hs => absurd hs List.not_mem_nil

/-- The mark of a packet in range is its second. -/
theorem mark_packetArrival {packet : NAPacket} (h : InRange packet.time.tv_sec) :
    (packetArrival host packet).mark = packet.time.tv_sec := by
  obtain ⟨hlo, hhi⟩ := h
  exact toInt_of_range (by omega) (by omega)

/-- **A packet in time keeps the memory in order.** -/
theorem occupied_push {hist : List Event} {r : ℤ} {σ : NAState} (h : Occupied host hist r σ)
    {header : PcapPkthdr} {address : IPAddress} {s_port d_port : BitVec 16}
    {lookup : ProcessLookup} (htime : PushInTime hist r header.ts.tv_sec) :
    ∃ σ', step host σ (.push header address s_port d_port lookup) = some σ' ∧
      Occupied host (hist ++ [.push header address s_port d_port lookup]) r σ' := by
  have hp := (pushed_packetOf header address s_port d_port).built
  obtain ⟨σ', hstep, hbooks⟩ := @books_push host hist r σ h.books header address s_port d_port
    lookup htime.newest htime.lower htime.range
  obtain ⟨σ'', hσ'', _, hflows, _⟩ := pushNAPacket_spec host h.books.ok hp lookup
  obtain rfl : σ'' = σ' := Option.some_inj.1 (hσ''.symm.trans hstep)
  have hmark : (packetArrival host (packetOf header address s_port d_port)).mark =
      header.ts.tv_sec := by
    rw [mark_packetArrival host (by rw [packetOf_time]; exact htime.range), packetOf_time]
  have harrivals : arrivals host (hist ++ [.push header address s_port d_port lookup]) =
      arrivals host hist ++ [packetArrival host (packetOf header address s_port d_port)] := by
    rw [arrivals, packets_append, List.map_append]
    rfl
  refine ⟨σ'', hstep, hbooks, tight_step host h.books.ok h.tight hstep, ?_, ?_, ?_⟩
  · rw [harrivals, hflows]
    refine h.remembers.push ?_
    intro a ha
    obtain ⟨p, hp, rfl⟩ := List.mem_map.1 ha
    have hmem : p.time.tv_sec ∈ packetTimes hist := List.mem_map.2 ⟨p, hp, rfl⟩
    rw [mark_packetArrival host (h.range _ hmem), hmark]
    exact htime.newest _ hmem
  · intro x hx
    rw [hflows] at hx
    rcases FlowTable.mem_push hx with hx | ⟨_, hlast⟩
    · exact h.upper x hx
    · rw [hlast, hmark]
      exact htime.upper
  · intro s hs
    rw [packetTimes_append] at hs
    rcases List.mem_append.1 hs with hs | hs
    · exact h.range s hs
    · obtain rfl : s = (packetOf header address s_port d_port).time.tv_sec :=
        List.mem_singleton.1 hs
      rw [packetOf_time]
      exact htime.range

/-- **A refresh keeps the memory in order.** -/
theorem occupied_refresh {hist : List Event} {t : Timeval} {σ : NAState}
    (h : Occupied host hist t.tv_sec σ) :
    ∃ σ', step host σ (.refresh t) = some σ' ∧
      ∀ r, t.tv_sec ≤ r → r ≤ t.tv_sec + 25 → Occupied host (hist ++ [.refresh t]) r σ' := by
  obtain ⟨σ', proc_info, hrun, _, _, hnext⟩ := books_refresh host h.books
  have hstep : step host σ (.refresh t) = some σ' := by rw [step, hrun, Option.map_some]
  have hpackets : packets (hist ++ [.refresh t]) = packets hist := by
    rw [packets_append]
    exact List.append_nil _
  have hflows := flows_refresh h.books.ok h.books.adopted (h.books.noLoss host) hrun
  refine ⟨σ', hstep, fun r hle hgap => ⟨hnext r hle hgap, tight_step host h.books.ok h.tight hstep,
    ?_, ?_, ?_⟩⟩
  · have hswept := h.remembers.sweep (d := t.tv_sec - PERIOD) le_rfl (fun _ => stalledAt_iff)
    rw [arrivals, hpackets, hflows]
    exact ⟨hswept.touched, fun a ha hlt => hswept.kept a ha (by omega)⟩
  · intro x hx
    rw [hflows] at hx
    obtain ⟨y, hy, rfl⟩ := List.mem_map.1 hx
    exact (h.upper y (List.mem_of_mem_filter hy)).trans hle
  · rw [packetTimes, hpackets]
    exact h.range

/-! ### The connections after a refresh -/

/-- The connections of a store with live connections are as many as its flows. -/
theorem ConnStore.Ok.length_flows {store : ConnStore} (h : store.Ok) :
    store.flows.length = store.connections.length := by
  have hlen : ∀ l : List Ptr, (∀ c ∈ l, ∃ conn, store.cell c = some conn) →
      (store.flowsOf l).length = l.length := by
    intro l hl
    induction l with
    | nil => rfl
    | cons c l ih =>
        obtain ⟨conn, hconn⟩ := hl c List.mem_cons_self
        rw [flowsOf_cons l hconn, List.length_cons, List.length_cons,
          ih fun d hd => hl d (List.mem_cons_of_mem _ hd)]
  exact hlen store.connections h.live

/-- The flow keys of the packets of a run after second `c`. -/
def keysAfter (c : ℤ) (es : List Event) : Finset (Sym2 Endpoint) :=
  (((packets es).filter fun p => c < p.time.tv_sec).map flowKey).toFinset

theorem mem_keysAfter {c : ℤ} {es : List Event} {key : Sym2 Endpoint} :
    key ∈ keysAfter c es ↔ ∃ p ∈ packets es, flowKey p = key ∧ c < p.time.tv_sec := by
  simp only [keysAfter, List.mem_toFinset, List.mem_map, List.mem_filter, decide_eq_true_iff]
  constructor
  · rintro ⟨p, ⟨hp, hc⟩, hkey⟩
    exact ⟨p, hp, hkey, hc⟩
  · rintro ⟨p, hp, hkey, hc⟩
    exact ⟨p, ⟨hp, hc⟩, hkey⟩

/-- **What a refresh leaves in memory.** -/
theorem Occupied.after {hist : List Event} {t : Timeval} {σ σ' : NAState}
    {proc_info : List NAProcInfo} (h : Occupied host hist t.tv_sec σ)
    (hrun : naProcessInfoGetAll σ t = some (σ', proc_info)) :
    (σ'.store.flows.map Prod.fst).toFinset = keysAfter (t.tv_sec - 25) hist ∧
      σ'.store.connections.length = (keysAfter (t.tv_sec - 25) hist).card ∧
      (∀ c conn, σ'.store.cell c = some conn → c ∈ σ'.store.connections ∧
        conn.sent_packets.list.length ≤ 5 ∧ conn.recv_packets.list.length ≤ 5) := by
  have hok' := naProcessInfoGetAll_ok h.books.ok hrun
  have hflows := flows_refresh h.books.ok h.books.adopted (h.books.noLoss host) hrun
  have hkeys : (σ'.store.flows.map Prod.fst).toFinset = keysAfter (t.tv_sec - 25) hist := by
    ext key
    rw [List.mem_toFinset, hflows, h.remembers.key_sweep_iff le_rfl (fun _ => stalledAt_iff),
      mem_keysAfter]
    constructor
    · rintro ⟨a, ha, hkey, hlt⟩
      obtain ⟨p, hp, rfl⟩ := List.mem_map.1 ha
      rw [mark_packetArrival host (h.range _ (List.mem_map.2 ⟨p, hp, rfl⟩))] at hlt
      exact ⟨p, hp, hkey, hlt⟩
    · rintro ⟨p, hp, hkey, hlt⟩
      refine ⟨_, List.mem_map.2 ⟨p, hp, rfl⟩, hkey, ?_⟩
      rw [mark_packetArrival host (h.range _ (List.mem_map.2 ⟨p, hp, rfl⟩))]
      exact hlt
  refine ⟨hkeys, ?_, ?_⟩
  · rw [← hkeys, List.toFinset_card_of_nodup hok'.store.distinct, List.length_map,
      hok'.store.length_flows]
  · intro c conn hconn
    have hstep : step host σ (.refresh t) = some σ' := by rw [step, hrun, Option.map_some]
    have hc := tight_step host h.books.ok h.tight hstep c conn hconn
    have hmem : (flowKey conn.refpacket, connEntry conn) ∈ σ'.store.flows :=
      mem_flowsOf.2 ⟨c, hc, conn, hconn, rfl⟩
    rw [hflows] at hmem
    obtain ⟨y, hy, heq⟩ := List.mem_map.1 hmem
    have hy := List.mem_of_mem_filter hy
    have hcut : connEntry conn = y.2.cut (t.tv_sec - PERIOD) := (congrArg Prod.snd heq).symm
    -- a cut series has one link for each second of the period
    have hlen : ∀ out, ((connEntry conn).series out).length ≤ 5 := by
      intro out
      rw [hcut, FlowTable.Entry.series_cut]
      refine (Bucketed.length_cut_le ((h.books.ordered y hy).newest out) fun b hb =>
        ((h.books.ordered y hy).le_last out b hb).trans (h.upper y hy)).trans ?_
      rw [Int.card_Ioc, PERIOD]
      omega
    have hsent := hlen true
    have hrecv := hlen false
    simp only [FlowTable.Entry.series, connEntry, buckets, List.length_map, if_true] at hsent
    simp only [FlowTable.Entry.series, connEntry, buckets, List.length_map, if_false,
      Bool.false_eq_true] at hrecv
    exact ⟨hc, hsent, hrecv⟩

/-- A scheduled run up to a refresh. -/
theorem Schedule.occupied {pre post : List Event} {t : Timeval}
    (hs : Schedule (pre ++ .refresh t :: post)) :
    ∃ σ, Runs.run (step host) NAState.init pre = some σ ∧ Occupied host pre t.tv_sec σ :=
  @Schedule.run_init NAState (step host) (fun _ => True) (Occupied host)
    (fun _ _ _ _ _ _ _ _ h htime _ => occupied_push host h htime)
    (fun _ _ _ h _ => occupied_refresh host h) pre post t NAState.init hs (fun _ _ => trivial)
    (occupied_init host)

/-- **The connections after a refresh.**  In a scheduled run, every refresh leaves one connection
for each flow key with a packet in the last 25 seconds, no connection on the heap besides, and at
most five links in each packet list. -/
theorem live_connections {es : List Event} (hs : Schedule es) (pre : List Event) (t : Timeval)
    (post : List Event) (hsplit : es = pre ++ .refresh t :: post) :
    ∃ σ σ' proc_info, Runs.run (step host) NAState.init pre = some σ ∧
      naProcessInfoGetAll σ t = some (σ', proc_info) ∧
      (∀ key, (∃ c ∈ σ'.store.connections, ∃ conn, σ'.store.cell c = some conn ∧
          flowKey conn.refpacket = key) ↔
        ∃ p ∈ packets pre, flowKey p = key ∧ t.tv_sec - 25 < p.time.tv_sec) ∧
      σ'.store.connections.length = (keysAfter (t.tv_sec - 25) pre).card ∧
      (∀ c conn, σ'.store.cell c = some conn → c ∈ σ'.store.connections ∧
        conn.sent_packets.list.length ≤ 5 ∧ conn.recv_packets.list.length ≤ 5) := by
  subst hsplit
  obtain ⟨σ, hrun, hoccupied⟩ := Schedule.occupied host hs
  obtain ⟨σ', proc_info, hrefresh⟩ := naProcessInfoGetAll_defined hoccupied.books.ok t
  obtain ⟨hkeys, hlen, hheap⟩ := hoccupied.after host hrefresh
  refine ⟨σ, σ', proc_info, hrun, hrefresh, ?_, hlen, hheap⟩
  intro key
  rw [← mem_keysAfter, ← hkeys, List.mem_toFinset, List.mem_map]
  constructor
  · rintro ⟨c, hc, conn, hconn, rfl⟩
    exact ⟨_, mem_flowsOf.2 ⟨c, hc, conn, hconn, rfl⟩, rfl⟩
  · rintro ⟨x, hx, rfl⟩
    obtain ⟨c, hc, conn, hconn, rfl⟩ := mem_flowsOf.1 hx
    exact ⟨c, hc, conn, hconn, rfl⟩

theorem live_connections_pairRun :
    ∃ σ σ' proc_info, Runs.run (step pairHost) NAState.init pairRun = some σ ∧
      naProcessInfoGetAll σ ⟨31⟩ = some (σ', proc_info) ∧ σ'.store.connections.length = 1 := by
  obtain ⟨σ, σ', proc_info, hrun, hrefresh, _, hlen, _⟩ :=
    live_connections pairHost schedule_pairRun pairRun ⟨31⟩ [] rfl
  exact ⟨σ, σ', proc_info, hrun, hrefresh, hlen⟩

/-! ### Silence -/

/-- A refresh drops a process without connections, from second 50 on. -/
theorem timedOut_of_nil (store : ConnStore) {process : NAProcess} {t : Timeval}
    (h : process.connections = []) (ht : 50 ≤ t.tv_sec) : store.timedOut t process = true := by
  have htime : store.processTime process = 0 := by rw [ConnStore.processTime, h]; rfl
  rw [timedOut_iff, htime]
  exact ht

/-- **Nothing is left after a silence.**  When no packet came in the last 25 seconds before a
refresh of a scheduled run, and the next event is another refresh, from second 50 on, then there are
no connections and no processes any more, nothing is on the heap, and nothing is reported. -/
theorem silence_clears {es : List Event} (hs : Schedule es) (pre : List Event) (t t' : Timeval)
    (post : List Event) (hsplit : es = pre ++ .refresh t :: .refresh t' :: post)
    (hsilent : ∀ p ∈ packets pre, p.time.tv_sec ≤ t.tv_sec - 25) (ht' : 50 ≤ t'.tv_sec) :
    ∃ σ σ', Runs.run (step host) NAState.init (pre ++ [.refresh t]) = some σ ∧
      naProcessInfoGetAll σ t' = some (σ', []) ∧ σ'.processes = [] ∧
      σ'.store.connections = [] ∧ ∀ c, σ'.store.cell c = none := by
  subst hsplit
  obtain ⟨σ₀, hrun, hoccupied⟩ := Schedule.occupied host hs
  obtain ⟨σ, proc_info, hrefresh⟩ := naProcessInfoGetAll_defined hoccupied.books.ok t
  obtain ⟨_, hlen, hheap⟩ := hoccupied.after host hrefresh
  have hok := naProcessInfoGetAll_ok hoccupied.books.ok hrefresh
  have hempty : keysAfter (t.tv_sec - 25) pre = ∅ := by
    refine Finset.eq_empty_of_forall_notMem ?_
    intro key hkey
    obtain ⟨p, hp, _, hlt⟩ := mem_keysAfter.1 hkey
    exact absurd (hsilent p hp) (not_le.2 hlt)
  rw [hempty, Finset.card_empty] at hlen
  have hnone : σ.store.connections = [] := List.eq_nil_of_length_eq_zero hlen
  -- so that no process lists one, and the next refresh drops them all
  have hprocesses : ∀ process ∈ σ.processes, process.connections = [] := by
    intro process hp
    refine List.eq_nil_iff_forall_not_mem.2 ?_
    intro c hc
    have hmem := hok.owned c (mem_ownedBy.2 ⟨process, hp, hc⟩)
    rw [hnone] at hmem
    cases hmem
  have hsurvivors : σ.store.survivors t' σ.processes = [] := by
    refine List.filter_eq_nil_iff.2 ?_
    intro process hp
    simp [timedOut_of_nil σ.store (hprocesses process hp) ht']
  have hrefresh' := naProcessInfoGetAll_eq hok t'
  rw [hsurvivors] at hrefresh'
  have hcell : ∀ c, σ.store.cell c = none := by
    intro c
    cases hconn : σ.store.cell c with
    | none => rfl
    | some conn =>
        have hc := (hheap c conn hconn).1
        rw [hnone] at hc
        cases hc
  refine ⟨σ, _, ?_, hrefresh', rfl, ?_, ?_⟩
  · rw [Runs.run_concat, hrun, Option.bind_some, step, hrefresh, Option.map_some]
  · rw [connections_sweep, hnone]
    rfl
  · intro c
    exact (cell_sweep_of_not_mem List.not_mem_nil).trans (hcell c)

theorem silence_clears_pairRun :
    ∃ σ σ', Runs.run (step pairHost) NAState.init (pairRun ++ [.refresh ⟨31⟩, .refresh ⟨56⟩]) =
        some σ ∧
      naProcessInfoGetAll σ ⟨57⟩ = some (σ', []) ∧ σ'.processes = [] ∧
      σ'.store.connections = [] ∧ ∀ c, σ'.store.cell c = none := by
  have hs56 := @Schedule.refresh_again pairRun ⟨31⟩ ⟨56⟩ schedule_pairRun (by decide) (by decide)
    ⟨by decide, by decide⟩
  have hs := @Schedule.refresh_again (pairRun ++ [.refresh ⟨31⟩]) ⟨56⟩ ⟨57⟩ hs56 (by decide)
    (by decide) ⟨by decide, by decide⟩
  have hpackets : packets (pairRun ++ [Event.refresh ⟨31⟩]) = packets pairRun := rfl
  exact silence_clears pairHost hs (pairRun ++ [.refresh ⟨31⟩]) ⟨56⟩ ⟨57⟩ [] rfl
    (by rw [hpackets]; decide) (by decide)

end NetworkAnalyzer
