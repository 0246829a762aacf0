/-
Conservation of bytes.

Bytes flow through a lot of bookkeeping on their way to a report: packets of one second are merged
into a bucket, old buckets are cut off while a report is computed, connections are freed after 25
seconds of silence, and processes are dropped after 50.  This module shows that, for a run that
keeps to a schedule, the reports come out as if every packet had been kept: the total of a report
is the number of bytes of all packets of its window.

* `NetworkAnalyzer.Schedule` — the schedule: packets and refreshes in order, refreshes at most 25
  seconds apart, and packets stamped within 25 seconds of the refresh that follows them;
* `NetworkAnalyzer.OpenBooks` — the invariant: nothing is orphaned, the flow table is ordered, and
  it carries the bytes of every packet that a later report will count;
* `NetworkAnalyzer.Books` — the same, and the next refresh will orphan nothing;
* `openBooks_push`, `openBooks_refresh`, `books_push`, `books_refresh` — the two steps.

What a whole run conserves is in `GnomeUsage/Openings.lean`.
-/

import GnomeUsage.Ownership
import Mathlib.Data.Nat.ModEq

set_option relaxedAutoImplicit false
set_option autoImplicit false

namespace NetworkAnalyzer

/-! ### Packets and refreshes of a run -/

/-- The time of a refresh. -/
def Event.time : Event → Option ℤ
  | .push .. => none
  | .refresh t => some t.tv_sec

/-- The packets pushed in a run, in order. -/
def packets (es : List Event) : List NAPacket := es.filterMap Event.packet

/-- The seconds of the packets pushed in a run, in order. -/
def packetTimes (es : List Event) : List ℤ := (packets es).map fun p => p.time.tv_sec

/-- The seconds of the refreshes of a run, in order. -/
def refreshTimes (es : List Event) : List ℤ := es.filterMap Event.time

/-- **A scheduled run.** -/
structure Schedule (es : List Event) : Prop where
  /-- Packets are stamped in the order they are pushed. -/
  packets_le : (packetTimes es).Pairwise (· ≤ ·)
  /-- Refreshes follow each other by at most 25 seconds. -/
  refresh_le : (refreshTimes es).Pairwise (· ≤ ·)
  refresh_gap : (refreshTimes es).IsChain fun s t => t ≤ s + 25
  /-- A packet is stamped no later than the refresh that follows it, and at most 25 seconds
  before. -/
  in_time : ∀ pre e mid t post, es = pre ++ e :: (mid ++ .refresh t :: post) →
    refreshTimes mid = [] → ∀ p ∈ e.packet,
      t.tv_sec - 25 ≤ p.time.tv_sec ∧ p.time.tv_sec ≤ t.tv_sec
  /-- The clock stays within what an `int` can hold and a timeout can be added to. -/
  in_range : ∀ s, s ∈ packetTimes es ∨ s ∈ refreshTimes es → 25 ≤ s ∧ s ≤ 2 ^ 31 - 51

variable (host : Host)

/-- The bytes of the packets of a run that are stamped after `c` and whose source is local, or is
not. -/
def bytesAfter (out : Bool) (c : ℤ) (es : List Event) : ℕ :=
  (((packets es).filter fun p =>
    isLocalAddress host (sourceText host p) == out && c < p.time.tv_sec).map
      fun p => p.len.toNat).sum

theorem packets_append (es fs : List Event) : packets (es ++ fs) = packets es ++ packets fs :=
  List.filterMap_append

theorem packetTimes_append (es fs : List Event) :
    packetTimes (es ++ fs) = packetTimes es ++ packetTimes fs := by
  simp only [packetTimes, packets_append, List.map_append]

theorem refreshTimes_append (es fs : List Event) :
    refreshTimes (es ++ fs) = refreshTimes es ++ refreshTimes fs :=
  List.filterMap_append

theorem bytesAfter_append (out : Bool) (c : ℤ) (es fs : List Event) :
    bytesAfter host out c (es ++ fs) = bytesAfter host out c es + bytesAfter host out c fs := by
  simp only [bytesAfter, packets_append, List.filter_append, List.map_append, List.sum_append]

theorem bytesAfter_refresh (out : Bool) (c : ℤ) (t : Timeval) :
    bytesAfter host out c [.refresh t] = 0 := rfl

theorem bytesAfter_push (out : Bool) (c : ℤ) (header : PcapPkthdr) (address : IPAddress)
    (s_port d_port : BitVec 16) (lookup : ProcessLookup) :
    BitVec.ofNat 32 (bytesAfter host out c [.push header address s_port d_port lookup]) =
      if (packetArrival host (packetOf header address s_port d_port)).out = out ∧
          c < header.ts.tv_sec then header.len else 0 := by
  have hout : (packetArrival host (packetOf header address s_port d_port)).out =
      isLocalAddress host (sourceText host (packetOf header address s_port d_port)) :=
    isOutgoing_of_unknown host (pushed_packetOf header address s_port d_port).dir
  rw [hout]
  have hpackets : packets [.push header address s_port d_port lookup] =
      [packetOf header address s_port d_port] := rfl
  rw [bytesAfter, hpackets]
  by_cases h : isLocalAddress host (sourceText host (packetOf header address s_port d_port)) = out
  · by_cases hc : c < header.ts.tv_sec
    · simp [h, hc]
    · simp [h, hc]
  · simp [h]

/-! ### The invariant -/

/-- **The books are open** after the events `hist`, with the next refresh due at `t`. -/
structure OpenBooks (hist : List Event) (t : ℤ) (σ : NAState) : Prop where
  ok : σ.Ok
  adopted : Adopted σ
  ordered : FlowTable.Ordered σ.store.flows
  seen : ∀ x ∈ σ.store.flows, x.2.last ∈ packetTimes hist
  range : ∀ x ∈ σ.store.flows, 25 ≤ x.2.last ∧ x.2.last ≤ 2 ^ 31 - 51
  /-- What a report from now on counts is in the table. -/
  carries : ∀ out c, t - PERIOD ≤ c →
    FlowTable.weight out c σ.store.flows = BitVec.ofNat 32 (bytesAfter host out c hist)

/-- **The books are kept**: no connection will be older than a process timeout either. -/
structure Books (hist : List Event) (t : ℤ) (σ : NAState) : Prop extends
    OpenBooks host hist t σ where
  young : ∀ x ∈ σ.store.flows, t - 50 < x.2.last

theorem books_init (t : ℤ) : Books host [] t NAState.init where
  ok := ok_init
  adopted := adopted_init
  ordered := fun x hx => by simp [NAState.init, ConnStore.empty, ConnStore.flows,
    ConnStore.flowsOf] at hx
  young := fun x hx => by simp [NAState.init, ConnStore.empty, ConnStore.flows,
    ConnStore.flowsOf] at hx
  seen := fun x hx => by simp [NAState.init, ConnStore.empty, ConnStore.flows,
    ConnStore.flowsOf] at hx
  range := fun x hx => by simp [NAState.init, ConnStore.empty, ConnStore.flows,
    ConnStore.flowsOf] at hx
  carries := fun out c _ => rfl

/-- An entry after a packet is an old one, or was last touched by it. -/
theorem last_push {σ σ' : NAState} {header : PcapPkthdr} {address : IPAddress}
    {s_port d_port : BitVec 16}
    (hflows : σ'.store.flows =
      FlowTable.push (packetArrival host (packetOf header address s_port d_port)) σ.store.flows)
    (hrange : 25 ≤ header.ts.tv_sec ∧ header.ts.tv_sec ≤ 2 ^ 31 - 51) :
    ∀ x ∈ σ'.store.flows, x ∈ σ.store.flows ∨ x.2.last = header.ts.tv_sec := by
  intro x hx
  rw [hflows] at hx
  refine (FlowTable.mem_push hx).imp_right ?_
  rintro ⟨_, hlast⟩
  simp only [hlast, packetArrival, packetOf_time]
  exact toInt_of_range (by omega) (by omega)

/-- **A packet in order keeps the books open.** -/
theorem openBooks_push {hist : List Event} {t : ℤ} {σ : NAState} (h : OpenBooks host hist t σ)
    {header : PcapPkthdr} {address : IPAddress} {s_port d_port : BitVec 16}
    {lookup : ProcessLookup} (hle : ∀ s ∈ packetTimes hist, s ≤ header.ts.tv_sec)
    (hrange : 25 ≤ header.ts.tv_sec ∧ header.ts.tv_sec ≤ 2 ^ 31 - 51) :
    ∃ σ', step host σ (.push header address s_port d_port lookup) = some σ' ∧
      OpenBooks host (hist ++ [.push header address s_port d_port lookup]) t σ' ∧
      ∀ x ∈ σ'.store.flows, x ∈ σ.store.flows ∨ x.2.last = header.ts.tv_sec := by
  have hp := pushed_packetOf header address s_port d_port
  obtain ⟨σ', hσ', hok, hflows, hcases⟩ := pushNAPacket_spec host h.ok hp.built lookup
  have hmarktime : (packetArrival host (packetOf header address s_port d_port)).mark =
      (packetArrival host (packetOf header address s_port d_port)).time := by
    simp only [packetArrival, packetOf_time]
    exact toInt_of_range (by omega) (by omega)
  have hlast := last_push host hflows hrange
  have hnew : packetTimes [.push header address s_port d_port lookup] = [header.ts.tv_sec] := by
    simp [packetTimes, packets, Event.packet]
  refine ⟨σ', hσ', ⟨hok, adopted_push host h.ok h.adopted hp.built hσ', ?_, ?_, ?_, ?_⟩, hlast⟩
  · rw [hflows]
    refine h.ordered.push hmarktime ?_
    intro x hx _
    simp only [packetArrival, packetOf_time]
    exact hle _ (h.seen x hx)
  · intro x hx
    rw [packetTimes_append, hnew]
    rcases hlast x hx with hx | hx
    · exact List.mem_append_left _ (h.seen x hx)
    · exact List.mem_append_right _ (by simp [hx])
  · intro x hx
    rcases hlast x hx with hx | hx
    · exact h.range x hx
    · rw [hx]
      exact hrange
  · intro out c hc
    rw [hflows, FlowTable.weight_push, h.carries out c hc, bytesAfter_append, BitVec.ofNat_add,
      bytesAfter_push]
    simp [packetArrival]

/-- **A packet in time keeps the books.** -/
theorem books_push {hist : List Event} {t : ℤ} {σ : NAState} (h : Books host hist t σ)
    {header : PcapPkthdr} {address : IPAddress} {s_port d_port : BitVec 16}
    {lookup : ProcessLookup} (hle : ∀ s ∈ packetTimes hist, s ≤ header.ts.tv_sec)
    (htime : t - 25 ≤ header.ts.tv_sec)
    (hrange : 25 ≤ header.ts.tv_sec ∧ header.ts.tv_sec ≤ 2 ^ 31 - 51) :
    ∃ σ', step host σ (.push header address s_port d_port lookup) = some σ' ∧
      Books host (hist ++ [.push header address s_port d_port lookup]) t σ' := by
  obtain ⟨σ', hσ', hopen, hlast⟩ := openBooks_push host h.toOpenBooks hle hrange
  refine ⟨σ', hσ', hopen, ?_⟩
  intro x hx
  rcases hlast x hx with hx | hx
  · exact h.young x hx
  · omega

/-- A refresh of kept books drops no process that still lists a connection. -/
theorem Books.noLoss {hist : List Event} {t : Timeval} {σ : NAState}
    (h : Books host hist t.tv_sec σ) : NoLoss σ t := by
  intro process hp hout
  by_contra hne
  obtain ⟨c, hc⟩ := List.exists_mem_of_ne_nil _ hne
  -- the last packet times of the process lie in the range of the clock
  have hentry : ∀ d ∈ process.connections, ∃ x ∈ σ.store.flows, x.2.last = σ.store.lastTime d := by
    intro d hd
    have hmem := h.ok.owned d (mem_ownedBy.2 ⟨process, hp, hd⟩)
    obtain ⟨conn, hconn⟩ := h.ok.store.live d hmem
    exact ⟨_, mem_flowsOf.2 ⟨d, hmem, conn, hconn, rfl⟩, (lastTime_of_cell hconn).symm⟩
  have hhi : σ.store.processTime process ≤ 2 ^ 31 - 51 := by
    refine processTime_le (by omega) ?_
    intro d hd
    obtain ⟨x, hx, hlast⟩ := hentry d hd
    rw [← hlast]
    exact (h.range x hx).2
  have hlo := processTime_nonneg σ.store process
  obtain ⟨x, hx, hlast⟩ := hentry c hc
  have hle : σ.store.lastTime c ≤ _ := lastTime_le_processTime hc
  have hyoung := h.young x hx
  rw [timedOut_iff, PROCESSTIMEOUT, toInt_of_range (by omega) (by omega)] at hout
  omega

/-- **A refresh of open books** that drops no process with a connection reports the bytes of its
window, and the books are kept for the next one. -/
theorem openBooks_refresh {hist : List Event} {t : Timeval} {σ : NAState}
    (h : OpenBooks host hist t.tv_sec σ) (hno : NoLoss σ t) :
    ∃ σ' proc_info, naProcessInfoGetAll σ t = some (σ', proc_info) ∧
      (proc_info.map NAProcInfo.sent).sum =
        BitVec.ofNat 32 (bytesAfter host true (t.tv_sec - PERIOD) hist) ∧
      (proc_info.map NAProcInfo.recv).sum =
        BitVec.ofNat 32 (bytesAfter host false (t.tv_sec - PERIOD) hist) ∧
      ∀ t' : ℤ, t.tv_sec ≤ t' → t' ≤ t.tv_sec + 25 → Books host (hist ++ [.refresh t]) t' σ' := by
  obtain ⟨σ', proc_info, hrun⟩ := naProcessInfoGetAll_defined h.ok t
  have hflows := flows_refresh h.ok h.adopted hno hrun
  obtain ⟨hsent, hrecv⟩ := report_refresh h.ok h.adopted hno hrun
  -- what is dropped is older than any window from now on
  have hdead : ∀ s, stalledAt t s = true → s ≤ t.tv_sec - PERIOD := by
    intro s hs
    rw [stalledAt_iff, CONNTIMEOUT] at hs
    rw [PERIOD]
    omega
  have hmem : ∀ x ∈ FlowTable.sweep (stalledAt t) (t.tv_sec - PERIOD) σ.store.flows,
      ∃ y ∈ σ.store.flows, y.2.last = x.2.last ∧ t.tv_sec - CONNTIMEOUT < x.2.last := by
    intro x hx
    obtain ⟨y, hy, rfl⟩ := List.mem_map.1 hx
    obtain ⟨hy, halive⟩ := List.mem_filter.1 hy
    refine ⟨y, hy, rfl, not_le.1 ?_⟩
    intro hle
    have hst : stalledAt t y.2.last = true := stalledAt_iff.2 hle
    rw [hst] at halive
    cases halive
  refine ⟨σ', proc_info, hrun, ?_, ?_, ?_⟩
  · rw [hsent, hflows, FlowTable.report_sweep true hdead h.ordered, h.carries true _ le_rfl]
  · rw [hrecv, hflows, FlowTable.report_sweep false hdead h.ordered, h.carries false _ le_rfl]
  · intro t' hle hgap
    refine ⟨⟨naProcessInfoGetAll_ok h.ok hrun, (adopted_refresh_iff h.ok h.adopted hrun).2 hno,
      ?_, ?_, ?_, ?_⟩, ?_⟩
    · rw [hflows]
      exact h.ordered.sweep
    · intro x hx
      rw [hflows] at hx
      obtain ⟨y, hy, hlast, _⟩ := hmem x hx
      rw [packetTimes_append, ← hlast]
      exact List.mem_append_left _ (h.seen y hy)
    · intro x hx
      rw [hflows] at hx
      obtain ⟨y, hy, hlast, _⟩ := hmem x hx
      rw [← hlast]
      exact h.range y hy
    · intro out c hc
      have hc' : t.tv_sec - PERIOD ≤ c := by omega
      rw [hflows, FlowTable.weight_sweep out hc' (fun s hs => (hdead s hs).trans hc') h.ordered,
        h.carries out c hc', bytesAfter_append, bytesAfter_refresh, Nat.add_zero]
    · intro x hx
      rw [hflows] at hx
      obtain ⟨y, _, _, hlast⟩ := hmem x hx
      rw [CONNTIMEOUT] at hlast
      omega

/-- **A refresh of kept books** reports the bytes of its window, and keeps the books for the next
one. -/
theorem books_refresh {hist : List Event} {t : Timeval} {σ : NAState}
    (h : Books host hist t.tv_sec σ) :
    ∃ σ' proc_info, naProcessInfoGetAll σ t = some (σ', proc_info) ∧
      (proc_info.map NAProcInfo.sent).sum =
        BitVec.ofNat 32 (bytesAfter host true (t.tv_sec - PERIOD) hist) ∧
      (proc_info.map NAProcInfo.recv).sum =
        BitVec.ofNat 32 (bytesAfter host false (t.tv_sec - PERIOD) hist) ∧
      ∀ t' : ℤ, t.tv_sec ≤ t' → t' ≤ t.tv_sec + 25 → Books host (hist ++ [.refresh t]) t' σ' :=
  openBooks_refresh host h.toOpenBooks (h.noLoss host)

/-! ### The schedule, seen from a step -/

/-- The run in front of its first refresh. -/
theorem exists_first_refresh {es : List Event} {r : ℤ} (h : (refreshTimes es).head? = some r) :
    ∃ mid t post, es = mid ++ .refresh t :: post ∧ refreshTimes mid = [] ∧ t.tv_sec = r := by
  induction es with
  | nil => cases h
  | cons e es ih =>
      cases e with
      | push header address s_port d_port lookup =>
          obtain ⟨mid, t, post, rfl, hmid, ht⟩ := ih h
          exact ⟨.push header address s_port d_port lookup :: mid, t, post, rfl, hmid, ht⟩
      | refresh t => exact ⟨[], t, es, rfl, rfl, by simpa [refreshTimes, Event.time] using h⟩

/-- What the schedule says about the next packet. -/
theorem Schedule.push {hist rest : List Event} {header : PcapPkthdr} {address : IPAddress}
    {s_port d_port : BitVec 16} {lookup : ProcessLookup} {r : ℤ}
    (h : Schedule (hist ++ .push header address s_port d_port lookup :: rest))
    (hr : (refreshTimes rest).head? = some r) :
    (∀ s ∈ packetTimes hist, s ≤ header.ts.tv_sec) ∧ r - 25 ≤ header.ts.tv_sec ∧
      25 ≤ header.ts.tv_sec ∧ header.ts.tv_sec ≤ 2 ^ 31 - 51 := by
  have hmem : header.ts.tv_sec ∈
      packetTimes (.push header address s_port d_port lookup :: rest) := by
    simp [packetTimes, packets, Event.packet]
  have hle := h.packets_le
  rw [packetTimes_append] at hle
  refine ⟨fun s hs => (List.pairwise_append.1 hle).2.2 s hs _ hmem, ?_, ?_⟩
  · obtain ⟨mid, t, post, rfl, hmid, rfl⟩ := exists_first_refresh hr
    have htime := (h.in_time hist _ mid t post rfl hmid _ rfl).1
    rwa [packetOf_time] at htime
  · refine h.in_range _ (.inl ?_)
    rw [packetTimes_append]
    exact List.mem_append_right _ hmem

/-- The refresh after a refresh. -/
theorem refresh_next {hist rest : List Event} {t : Timeval} {r : ℤ}
    (hle : (refreshTimes (hist ++ .refresh t :: rest)).Pairwise (· ≤ ·))
    (hgap : (refreshTimes (hist ++ .refresh t :: rest)).IsChain fun s t => t ≤ s + 25)
    (hr : (refreshTimes rest).head? = some r) : t.tv_sec ≤ r ∧ r ≤ t.tv_sec + 25 := by
  have htimes : refreshTimes (hist ++ .refresh t :: rest) =
      refreshTimes hist ++ t.tv_sec :: refreshTimes rest := refreshTimes_append ..
  obtain ⟨times, htail⟩ : ∃ times, refreshTimes rest = r :: times := by
    cases hrest : refreshTimes rest with
    | nil => rw [hrest] at hr; cases hr
    | cons s times => rw [hrest] at hr; cases hr; exact ⟨times, rfl⟩
  rw [htimes, htail] at hle hgap
  refine ⟨?_, ?_⟩
  · exact (List.pairwise_cons.1 (List.pairwise_append.1 hle).2.1).1 r List.mem_cons_self
  · exact (List.isChain_cons_cons.1 hgap.right_of_append).1

/-- A run that goes on to a refresh has a first one. -/
theorem exists_next_refresh (pre : List Event) (t : Timeval) (post : List Event) :
    ∃ r, (refreshTimes (pre ++ .refresh t :: post)).head? = some r := by
  rw [refreshTimes_append]
  cases refreshTimes pre with
  | nil => exact ⟨t.tv_sec, rfl⟩
  | cons s times => exact ⟨s, rfl⟩

/-- What the schedule says about the refresh after a refresh. -/
theorem Schedule.refresh {hist rest : List Event} {t : Timeval} {r : ℤ}
    (h : Schedule (hist ++ .refresh t :: rest)) (hr : (refreshTimes rest).head? = some r) :
    t.tv_sec ≤ r ∧ r ≤ t.tv_sec + 25 :=
  refresh_next h.refresh_le h.refresh_gap hr

/-! ### Sums of words -/

/-- A sum of words is congruent to the sum of their values. -/
theorem sum_toNat_modEq (l : List (BitVec 32)) :
    (l.map BitVec.toNat).sum ≡ l.sum.toNat [MOD 2 ^ 32] := by
  induction l with
  | nil => exact Nat.ModEq.refl _
  | cons b l ih =>
      rw [List.map_cons, List.sum_cons, List.sum_cons, BitVec.toNat_add]
      exact (Nat.ModEq.add_left _ ih).trans (Nat.mod_modEq _ _).symm

theorem sum_modEq_of_eq {ι : Type*} {l : List ι} {f : ι → BitVec 32} {n : ℕ}
    (h : (l.map f).sum = BitVec.ofNat 32 n) :
    (l.map fun i => (f i).toNat).sum ≡ n [MOD 2 ^ 32] := by
  have hsum := sum_toNat_modEq (l.map f)
  rw [List.map_map, h, BitVec.toNat_ofNat] at hsum
  exact hsum.trans (Nat.mod_modEq _ _)

/-! ### A run -/

/-- A host with the one local address `a`. -/
def pairHost : Host :=
  ⟨fun a => if a = ⟨1⟩ then ['a'] else ['b'], fun _ => [], [['a']]⟩

/-- A packet of 60 bytes is sent in second 30, one of 40 bytes is received in second 31. -/
def pairRun : List Event :=
  [.push ⟨⟨30⟩, 60, 60⟩ (.ip ⟨1⟩ ⟨2⟩) 3 4 ⟨none, none⟩,
    .push ⟨⟨31⟩, 40, 40⟩ (.ip ⟨2⟩ ⟨1⟩) 4 3 ⟨none, none⟩]

theorem schedule_pairRun : Schedule (pairRun ++ [.refresh ⟨31⟩]) where
  packets_le := by decide
  refresh_le := by decide
  refresh_gap := by decide
  in_time := by
    intro pre e mid t post hsplit _ p hp
    have hle : ∀ q ∈ packets (pairRun ++ [.refresh ⟨31⟩]),
        (31 : ℤ) - 25 ≤ q.time.tv_sec ∧ q.time.tv_sec ≤ 31 := by decide
    have hmem : p ∈ packets (pairRun ++ [.refresh ⟨31⟩]) := by
      rw [hsplit]
      exact List.mem_filterMap.2 ⟨e, by simp, hp⟩
    have htime : t.tv_sec ∈ refreshTimes (pairRun ++ [.refresh ⟨31⟩]) := by
      rw [hsplit]
      exact List.mem_filterMap.2 ⟨.refresh t, by simp, rfl⟩
    have hrefresh : refreshTimes (pairRun ++ [.refresh ⟨31⟩]) = [31] := by decide
    rw [hrefresh, List.mem_singleton] at htime
    rw [htime]
    exact hle p hmem
  in_range := by
    have htimes : packetTimes (pairRun ++ [.refresh ⟨31⟩]) = [30, 31] := by decide
    have hrefresh : refreshTimes (pairRun ++ [.refresh ⟨31⟩]) = [31] := by decide
    intro s hs
    rw [htimes, hrefresh] at hs
    simp only [List.mem_cons, List.not_mem_nil, or_false] at hs
    omega

end NetworkAnalyzer
