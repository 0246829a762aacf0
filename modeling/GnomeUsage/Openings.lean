/-
Conservation of bytes, and what may happen before the first refresh.

A run may be paced, packets and refreshes in order and close together from its first refresh on,
and nothing said of the packets before that one: the analyzer may have slept in between.  A report
then still counts every packet of its window, in the right direction, exactly as long as the first
refresh drops no process that lists a connection; what it orphans is lost to all later reports
(`GnomeUsage/Orphans.lean`).

* `Paced` — packets and refreshes in order, and in time between two refreshes;
* `ReportsWindow` — every report adds up to the bytes of its window;
* `OpensInTime` — the first refresh drops no process that lists a connection;
* `openBooks_run`, `books_run` — the books of a paced run, up to its first refresh and behind it;
* `exists_lossy` — a run that opens late has a continuation that loses a packet;
* `report_conserves_bytes_iff` — **conservation**: all continuations of an opening report their
  windows exactly when it is in time;
* `Schedule.reportsWindow` — a run that is in time from its start reports its windows;
* `late_opening_loses` — a packet that is in no report.
-/

import GnomeUsage.Orphans
import GnomeUsage.Schedules

set_option relaxedAutoImplicit false
set_option autoImplicit false

namespace NetworkAnalyzer

/-- **A paced run**: what comes between two refreshes is in time. -/
structure Paced (es : List Event) : Prop where
  /-- Packets are stamped in the order they are pushed. -/
  packets_le : (packetTimes es).Pairwise (· ≤ ·)
  /-- Refreshes follow each other by at most 25 seconds. -/
  refresh_le : (refreshTimes es).Pairwise (· ≤ ·)
  refresh_gap : (refreshTimes es).IsChain fun s t => t ≤ s + 25
  /-- A packet between two refreshes is stamped no later than the second one, and at most 25 seconds
  before. -/
  between : ∀ pre e mid t post, es = pre ++ e :: (mid ++ .refresh t :: post) →
    refreshTimes pre ≠ [] → refreshTimes mid = [] → ∀ p ∈ e.packet,
      t.tv_sec - 25 ≤ p.time.tv_sec ∧ p.time.tv_sec ≤ t.tv_sec
  /-- The clock stays within what an `int` can hold and a timeout can be added to. -/
  in_range : ∀ s, s ∈ packetTimes es ∨ s ∈ refreshTimes es → InRange s

variable (host : Host)

/-- **The reports add up**: at every refresh of the run, the amounts reported as sent add up, modulo
`2 ^ 32`, to the bytes of all packets pushed before it that are stamped within the period and have a
local source, and the amounts reported as received to those of the packets whose source is not
local. -/
def ReportsWindow (es : List Event) : Prop :=
  ∀ pre t post, es = pre ++ .refresh t :: post →
    ∃ σ σ' proc_info, Runs.run (step host) NAState.init pre = some σ ∧
      naProcessInfoGetAll σ t = some (σ', proc_info) ∧
      (proc_info.map fun info => info.sent.toNat).sum ≡
        bytesAfter host true (t.tv_sec - PERIOD) pre [MOD 2 ^ 32] ∧
      (proc_info.map fun info => info.recv.toNat).sum ≡
        bytesAfter host false (t.tv_sec - PERIOD) pre [MOD 2 ^ 32]

/-- **The opening is in time**: the refresh at `t` drops no process that the packets before it gave
a connection. -/
def OpensInTime (pre : List Event) (t : Timeval) : Prop :=
  ∀ σ, Runs.run (step host) NAState.init pre = some σ → NoLoss σ t

/-! ### What the pace says of one step -/

section Step

variable {hist rest : List Event} {header : PcapPkthdr} {address : IPAddress}
  {s_port d_port : BitVec 16} {lookup : ProcessLookup}

/-- A packet is stamped in order and in range. -/
theorem Paced.push (h : Paced (hist ++ .push header address s_port d_port lookup :: rest)) :
    (∀ s ∈ packetTimes hist, s ≤ header.ts.tv_sec) ∧ InRange header.ts.tv_sec := by
  have hmem : header.ts.tv_sec ∈
      packetTimes (.push header address s_port d_port lookup :: rest) := by
    simp [packetTimes, packets, Event.packet]
  have hle := h.packets_le
  rw [packetTimes_append] at hle
  refine ⟨fun s hs => (List.pairwise_append.1 hle).2.2 s hs _ hmem, h.in_range _ (.inl ?_)⟩
  rw [packetTimes_append]
  exact List.mem_append_right _ hmem

/-- Behind the first refresh it is in time for the next one. -/
theorem Paced.push_in_time {r : ℤ}
    (h : Paced (hist ++ .push header address s_port d_port lookup :: rest))
    (hafter : refreshTimes hist ≠ []) (hr : (refreshTimes rest).head? = some r) :
    r - 25 ≤ header.ts.tv_sec := by
  obtain ⟨mid, t, post, rfl, hmid, rfl⟩ := exists_first_refresh hr
  have htime := (h.between hist _ mid t post rfl hafter hmid _ rfl).1
  rwa [packetOf_time] at htime

/-- The refresh after a refresh. -/
theorem Paced.refresh {t : Timeval} {r : ℤ} (h : Paced (hist ++ .refresh t :: rest))
    (hr : (refreshTimes rest).head? = some r) : t.tv_sec ≤ r ∧ r ≤ t.tv_sec + 25 :=
  refresh_next h.refresh_le h.refresh_gap hr

end Step

/-! ### Runs -/

variable {host}

/-- The books are open as long as no refresh comes. -/
theorem openBooks_run {hist es rest : List Event} {t : ℤ} {σ : NAState}
    (hs : Paced (hist ++ (es ++ rest))) (hno : refreshTimes es = [])
    (h : OpenBooks host hist t σ) :
    ∃ σ', Runs.run (step host) σ es = some σ' ∧ OpenBooks host (hist ++ es) t σ' := by
  induction es generalizing hist σ with
  | nil => exact ⟨σ, rfl, by rwa [List.append_nil]⟩
  | cons e es ih =>
      cases e with
      | refresh u => simp [refreshTimes, Event.time] at hno
      | push header address s_port d_port lookup =>
          obtain ⟨hle, hrange⟩ := Paced.push hs
          obtain ⟨m, hm, hopen, _⟩ := @openBooks_push host hist t σ h header address s_port d_port
            lookup hle hrange
          have hassoc : hist ++ (.push header address s_port d_port lookup :: es ++ rest) =
              (hist ++ [.push header address s_port d_port lookup]) ++ (es ++ rest) := by simp
          obtain ⟨σ', hrun, hσ'⟩ := ih (hassoc ▸ hs) hno hopen
          rw [List.append_assoc] at hσ'
          exact ⟨σ', (Runs.run_cons_of _ hm _).trans hrun, hσ'⟩

/-- Behind the first refresh, the books are kept up to every other one. -/
theorem books_run {hist pre post : List Event} {t : Timeval} {σ : NAState} {r : ℤ}
    (hs : Paced (hist ++ (pre ++ .refresh t :: post))) (hafter : refreshTimes hist ≠ [])
    (h : Books host hist r σ) (hr : (refreshTimes (pre ++ .refresh t :: post)).head? = some r) :
    ∃ σ', Runs.run (step host) σ pre = some σ' ∧ Books host (hist ++ pre) t.tv_sec σ' := by
  induction pre generalizing hist σ r with
  | nil =>
      obtain rfl : t.tv_sec = r := by simpa [refreshTimes, Event.time] using hr
      exact ⟨σ, rfl, by rwa [List.append_nil]⟩
  | cons e pre ih =>
      have hassoc : hist ++ (e :: pre ++ .refresh t :: post) =
          (hist ++ [e]) ++ (pre ++ .refresh t :: post) := by simp
      have hafter' : refreshTimes (hist ++ [e]) ≠ [] := by
        rw [refreshTimes_append]
        exact List.append_ne_nil_of_left_ne_nil hafter _
      have hsplit : hist ++ e :: pre = hist ++ [e] ++ pre := by simp
      rw [hsplit]
      cases e with
      | push header address s_port d_port lookup =>
          have hr : (refreshTimes (pre ++ .refresh t :: post)).head? = some r := hr
          obtain ⟨hle, hrange⟩ := Paced.push hs
          obtain ⟨m, hm, hbooks⟩ := @books_push host hist r σ h header address s_port d_port lookup
            hle (Paced.push_in_time hs hafter hr) hrange
          obtain ⟨σ', hrun, hσ'⟩ := ih (hassoc ▸ hs) hafter' hbooks hr
          exact ⟨σ', (Runs.run_cons_of _ hm _).trans hrun, hσ'⟩
      | refresh u =>
          obtain rfl : u.tv_sec = r := by simpa [refreshTimes, Event.time] using hr
          obtain ⟨m, proc_info, hm, _, _, hnext⟩ := books_refresh host h
          -- the run goes on to the refresh at `t`, so there is a next one
          obtain ⟨r', hr'⟩ := exists_next_refresh pre t post
          obtain ⟨hle, hgap⟩ := Paced.refresh hs hr'
          obtain ⟨σ', hrun, hσ'⟩ := ih (hassoc ▸ hs) hafter' (hnext r' hle hgap) hr'
          have hstep : step host σ (.refresh u) = some m := by rw [step, hm, Option.map_some]
          exact ⟨σ', (Runs.run_cons_of _ hstep _).trans hrun, hσ'⟩

/-- A refresh behind the first events is the first one, or behind that. -/
theorem first_refresh_cases {pre pre' post post' : List Event} {t t' : Timeval}
    (hno : refreshTimes pre = [])
    (h : pre ++ .refresh t :: post = pre' ++ .refresh t' :: post') :
    (pre' = pre ∧ t' = t ∧ post' = post) ∨
      ∃ mid, pre' = pre ++ .refresh t :: mid ∧ post = mid ++ .refresh t' :: post' := by
  rcases List.append_eq_append_iff.1 h with ⟨mid, rfl, heq⟩ | ⟨mid, rfl, heq⟩
  · cases mid with
    | nil =>
        obtain ⟨heq, rfl⟩ := List.cons.inj heq
        cases heq
        exact .inl ⟨List.append_nil pre, rfl, rfl⟩
    | cons e mid =>
        obtain ⟨rfl, rfl⟩ := List.cons.inj heq
        exact .inr ⟨mid, rfl, rfl⟩
  · cases mid with
    | nil =>
        obtain ⟨heq, rfl⟩ := List.cons.inj heq
        cases heq
        exact .inl ⟨(List.append_nil pre').symm, rfl, rfl⟩
    | cons e mid =>
        obtain ⟨rfl, _⟩ := List.cons.inj heq
        simp [refreshTimes, Event.time] at hno

/-- **A paced run that opens in time** reports its windows. -/
theorem reportsWindow_of_opensInTime {pre post : List Event} {t : Timeval}
    (hno : refreshTimes pre = []) (hs : Paced (pre ++ .refresh t :: post))
    (hopen : OpensInTime host pre t) : ReportsWindow host (pre ++ .refresh t :: post) := by
  intro pre' t' post' hsplit
  obtain ⟨σ, hrun, hbooks⟩ :=
    @openBooks_run host [] pre _ t.tv_sec NAState.init hs hno (books_init host t.tv_sec).toOpenBooks
  rw [List.nil_append] at hbooks
  obtain ⟨σ₁, proc_info, hrefresh, hsent, hrecv, hnext⟩ :=
    openBooks_refresh host hbooks (hopen σ hrun)
  rcases first_refresh_cases hno hsplit with ⟨rfl, rfl, rfl⟩ | ⟨mid, rfl, rfl⟩
  · exact ⟨σ, σ₁, proc_info, hrun, hrefresh, sum_modEq_of_eq hsent, sum_modEq_of_eq hrecv⟩
  · have hstep : step host σ (.refresh t) = some σ₁ := by rw [step, hrefresh, Option.map_some]
    obtain ⟨r, hr⟩ := exists_next_refresh mid t' post'
    obtain ⟨hle, hgap⟩ := Paced.refresh hs hr
    have hafter : refreshTimes (pre ++ [.refresh t]) ≠ [] := by
      rw [refreshTimes_append]
      exact List.append_ne_nil_of_right_ne_nil _ (List.cons_ne_nil _ _)
    obtain ⟨σ₂, hrun₂, hbooks₂⟩ := books_run (List.append_cons pre _ _ ▸ hs) hafter
      (hnext r hle hgap) hr
    obtain ⟨σ₃, proc_info', hrefresh', hsent', hrecv', _⟩ := books_refresh host hbooks₂
    rw [List.append_assoc] at hsent' hrecv'
    refine ⟨σ₂, σ₃, proc_info', ?_, hrefresh', sum_modEq_of_eq hsent', sum_modEq_of_eq hrecv'⟩
    rw [Runs.run_append, hrun, Option.bind_some]
    exact (Runs.run_cons_of _ hstep _).trans hrun₂

/-! ### A continuation that loses a packet -/

/-- A paced run that ends with a refresh may go on with another one. -/
theorem Paced.refresh_again {es : List Event} {t t' : Timeval} (h : Paced (es ++ [.refresh t]))
    (hle : t.tv_sec ≤ t'.tv_sec) (hgap : t'.tv_sec ≤ t.tv_sec + 25)
    (hrange : InRange t'.tv_sec) : Paced ((es ++ [.refresh t]) ++ [.refresh t']) := by
  obtain ⟨hmono, hchain⟩ := refreshTimes_next h.refresh_le h.refresh_gap hle hgap
  refine ⟨?_, hmono, hchain, ?_, ?_⟩
  · rw [packetTimes_concat]
    exact h.packets_le
  · intro pre e mid u post hsplit hpre hmid p hp
    rcases Lists.append_singleton_split hsplit with ⟨hes, _⟩ | ⟨post', hes⟩
    · rw [packet_behind_refresh hes hmid] at hp
      cases hp
    · exact h.between pre e mid u post' hes hpre hmid p hp
  · intro s hs
    rw [packetTimes_concat, refreshTimes_concat _ t'] at hs
    rcases hs with hs | hs
    · exact h.in_range s (.inl hs)
    · rcases List.mem_append.1 hs with hs | hs
      · exact h.in_range s (.inr hs)
      · rw [List.mem_singleton.1 hs]
        exact hrange

/-- Refreshes lead a paced run to any later second. -/
theorem Paced.refresh_until {m : ℤ} (hm : InRange m) (n : ℕ) {es : List Event} {t : Timeval}
    (h : Paced (es ++ [.refresh t])) (hle : t.tv_sec ≤ m) (hn : m ≤ t.tv_sec + 25 * n) :
    ∃ ts : List Timeval, Paced (es ++ .refresh t :: ts.map .refresh ++ [.refresh ⟨m⟩]) := by
  induction n generalizing es t with
  | zero => exact ⟨[], h.refresh_again hle (by simp at hn ⊢; omega) hm⟩
  | succ n ih =>
      by_cases hnear : m ≤ t.tv_sec + 25
      · exact ⟨[], h.refresh_again hle hnear hm⟩
      · have hrange : InRange (t.tv_sec + 25) := by
          have hlo := (h.in_range t.tv_sec (.inr (by simp [refreshTimes_concat]))).1
          exact ⟨by omega, by have := hm.2; omega⟩
        obtain ⟨ts, hts⟩ := @ih (es ++ [.refresh t]) ⟨t.tv_sec + 25⟩
          (h.refresh_again (by simp) (le_refl (t.tv_sec + 25)) hrange)
          (show t.tv_sec + 25 ≤ m by omega) (by push_cast at hn ⊢; omega)
        exact ⟨⟨t.tv_sec + 25⟩ :: ts, by simpa using hts⟩

/-- A packet stamped at the last refresh, and another one then. -/
theorem Paced.push_refresh {es : List Event} {t : Timeval} (h : Paced (es ++ [.refresh t]))
    (hnewest : ∀ s ∈ packetTimes es, s ≤ t.tv_sec) (header : PcapPkthdr) (address : IPAddress)
    (s_port d_port : BitVec 16) (lookup : ProcessLookup) (htime : header.ts = t) :
    Paced (es ++ [.refresh t, .push header address s_port d_port lookup, .refresh t]) := by
  have hagain := h.refresh_again le_rfl (by omega)
    (h.in_range _ (.inr (by simp [refreshTimes_concat])))
  have hrefresh : refreshTimes
      (es ++ [.refresh t, .push header address s_port d_port lookup, .refresh t]) =
        refreshTimes (es ++ [.refresh t] ++ [.refresh t]) := by
    rw [refreshTimes_concat _ t, refreshTimes_concat, refreshTimes_append, List.append_assoc]
    rfl
  have hpackets : packetTimes
      (es ++ [.refresh t, .push header address s_port d_port lookup, .refresh t]) =
        packetTimes es ++ [t.tv_sec] := by
    rw [packetTimes_append]
    change packetTimes es ++ [(packetOf header address s_port d_port).time.tv_sec] = _
    rw [packetOf_time, htime]
  have hes : packetTimes (es ++ [.refresh t]) = packetTimes es := packetTimes_concat es t
  have hsplit : es ++ [.refresh t, .push header address s_port d_port lookup, .refresh t] =
      ((es ++ [.refresh t]) ++ [.push header address s_port d_port lookup]) ++ [.refresh t] := by
    simp
  refine ⟨?_, hrefresh ▸ hagain.refresh_le, hrefresh ▸ hagain.refresh_gap, ?_, ?_⟩
  · rw [hpackets]
    refine List.pairwise_append.2 ⟨hes ▸ h.packets_le, List.pairwise_singleton .., ?_⟩
    intro a ha b hb
    rw [List.mem_singleton.1 hb]
    exact hnewest a ha
  · intro pre e mid u post heq hpre hmid p hp
    rcases Lists.append_singleton_split (hsplit.symm.trans heq) with ⟨hfront, hu⟩ | ⟨post', hfront⟩
    · obtain rfl : u = t := by simpa using hu
      rcases List.eq_nil_or_concat' mid with rfl | ⟨mid', last, rfl⟩
      · -- the packet is the one that was added
        have hlast := (List.cons.inj (List.append_inj_right' hfront rfl)).1
        rw [← hlast] at hp
        cases hp
        rw [packetOf_time, htime]
        omega
      · have hback : es ++ [.refresh u] = pre ++ e :: mid' :=
          List.append_inj_left' (hfront.trans (by simp :
            pre ++ e :: (mid' ++ [last]) = (pre ++ e :: mid') ++ [last])) rfl
        rw [refreshTimes_append] at hmid
        rw [packet_behind_refresh hback (List.append_eq_nil_iff.1 hmid).1] at hp
        cases hp
    · rcases Lists.append_singleton_split hfront with ⟨_, hu⟩ | ⟨post'', hes⟩
      · cases hu
      · exact h.between pre e mid u post'' hes hpre hmid p hp
  · intro s hs
    rw [hpackets, hrefresh] at hs
    rcases hs with hs | hs
    · rcases List.mem_append.1 hs with hs | hs
      · exact h.in_range s (.inl (hes.symm ▸ hs))
      · refine hagain.in_range s (.inr ?_)
        rw [List.mem_singleton.1 hs, refreshTimes_concat _ t]
        exact List.mem_append_right _ (List.mem_singleton_self _)
    · exact hagain.in_range s (.inr hs)

/-- **Refreshes leave an orphan an orphan.** -/
theorem orphan_refreshes {c : Ptr} {ref : NAPacket} {σ : NAState} (hok : σ.Ok)
    (horphan : Orphaned σ c) (href : (σ.store.cell c).map NAConnection.refpacket = some ref)
    (ts : List Timeval) :
    ∃ σ', Runs.run (step host) σ (ts.map .refresh) = some σ' ∧ σ'.Ok ∧ Orphaned σ' c ∧
      (σ'.store.cell c).map NAConnection.refpacket = some ref := by
  refine @Runs.run_total_of NAState Event (step host) (fun σ => σ.Ok ∧ Orphaned σ c ∧
    (σ.store.cell c).map NAConnection.refpacket = some ref) (fun e => ∃ t, e = .refresh t) ?_ σ
    ⟨hok, horphan, href⟩ _ ?_
  · rintro s _ ⟨hs, horphan, href⟩ ⟨t, rfl⟩
    obtain ⟨s', proc_info, hrun⟩ := naProcessInfoGetAll_defined hs t
    obtain ⟨_, _, hveiled⟩ := veiled_refresh (veiled_refl horphan href) hs hs hrun
    exact ⟨s', by rw [step, hrun, Option.map_some], naProcessInfoGetAll_ok hs hrun,
      hveiled.orphaned, hveiled.orphan⟩
  · intro e he
    obtain ⟨t, _, rfl⟩ := List.mem_map.1 he
    exact ⟨t, rfl⟩

/-- A second that is not before any of some others. -/
theorem exists_newest (a : ℤ) (l : List ℤ) :
    ∃ m, a ≤ m ∧ (∀ s ∈ l, s ≤ m) ∧ (m = a ∨ m ∈ l) := by
  induction l with
  | nil => exact ⟨a, le_rfl, fun _ h => absurd h List.not_mem_nil, .inl rfl⟩
  | cons s l ih =>
      obtain ⟨m, ha, hl, hm⟩ := ih
      by_cases hsm : s ≤ m
      · exact ⟨m, ha, List.forall_mem_cons.2 ⟨hsm, hl⟩, hm.imp_right (List.mem_cons_of_mem _)⟩
      · exact ⟨s, by omega, List.forall_mem_cons.2 ⟨le_rfl, fun x hx => (hl x hx).trans (by omega)⟩,
          .inr List.mem_cons_self⟩

/-- One byte more of the period changes what a report has to say. -/
theorem reports_differ {es : List Event} {m : ℤ} {ev : Event} {σ σ' σ₁ σ₂ : NAState}
    {proc_info : List NAProcInfo} (out : Bool)
    (hone : BitVec.ofNat 32 (bytesAfter host out (m - PERIOD) [ev]) = 1)
    (hσ : Runs.run (step host) NAState.init es = some σ)
    (hσ' : Runs.run (step host) NAState.init (es ++ [ev]) = some σ')
    (hrun : naProcessInfoGetAll σ ⟨m⟩ = some (σ₁, proc_info))
    (hrun' : naProcessInfoGetAll σ' ⟨m⟩ = some (σ₂, proc_info))
    (h : ReportsWindow host (es ++ [.refresh ⟨m⟩])) :
    ¬ ReportsWindow host (es ++ [ev, .refresh ⟨m⟩]) := by
  intro h'
  obtain ⟨s, _, info, hs, hinfo, hsent, hrecv⟩ := h es ⟨m⟩ [] rfl
  obtain ⟨s', _, info', hs', hinfo', hsent', hrecv'⟩ := h' (es ++ [ev]) ⟨m⟩ [] (by simp)
  obtain rfl : σ = s := Option.some_inj.1 (hσ.symm.trans hs)
  obtain rfl : σ' = s' := Option.some_inj.1 (hσ'.symm.trans hs')
  cases hrun.symm.trans hinfo
  cases hrun'.symm.trans hinfo'
  rw [bytesAfter_append] at hsent' hrecv'
  have hzero : ∀ {a w : ℕ}, a ≡ w [MOD 2 ^ 32] →
      a ≡ w + bytesAfter host out (m - PERIOD) [ev] [MOD 2 ^ 32] → False := by
    intro a w ha ha'
    have hmod : w + 0 ≡ w + bytesAfter host out (m - PERIOD) [ev] [MOD 2 ^ 32] := ha.symm.trans ha'
    have hbytes := congrArg BitVec.toNat hone
    rw [BitVec.toNat_ofNat, ← Nat.ModEq.add_left_cancel' w hmod] at hbytes
    cases hbytes
  cases out with
  | true => exact hzero hsent hsent'
  | false => exact hzero hrecv hrecv'

/-- A packet of one byte, with the flow key of another one. -/
def packetLike (ref : NAPacket) (m : ℤ) : Event :=
  .push ⟨⟨m⟩, 0, 1⟩ (.ip ref.s_ip ref.d_ip) ref.s_port ref.d_port ⟨none, none⟩

/-- **An orphan swallows a packet of its flow**: a report does not show whether it came. -/
theorem orphan_swallows {c : Ptr} {ref : NAPacket} {σ : NAState} (hok : σ.Ok)
    (horphan : Orphaned σ c) (href : (σ.store.cell c).map NAConnection.refpacket = some ref)
    (m : ℤ) :
    ∃ σ' σ₁ σ₂ proc_info, step host σ (packetLike ref m) = some σ' ∧
      naProcessInfoGetAll σ ⟨m⟩ = some (σ₁, proc_info) ∧
      naProcessInfoGetAll σ' ⟨m⟩ = some (σ₂, proc_info) := by
  have hveiled := veiled_refl horphan href
  have hp := (pushed_packetOf ⟨⟨m⟩, 0, 1⟩ (.ip ref.s_ip ref.d_ip) ref.s_port ref.d_port).built
  obtain ⟨σ', hσ', hok', _⟩ := pushNAPacket_spec host hok hp ⟨none, none⟩
  have hswallow := veiled_swallow host hveiled hok hp ((hveiled.find_iff hok hp).2 rfl) hσ'
  obtain ⟨σ₂, proc_info, hrun'⟩ := naProcessInfoGetAll_defined hok' ⟨m⟩
  obtain ⟨σ₁, hrun, _⟩ := veiled_refresh hswallow hok' hok hrun'
  exact ⟨σ', σ₁, σ₂, proc_info, hσ', hrun, hrun'⟩

/-- A paced run that ends in an orphan, with no packet newer than its last refresh, goes on to one
of which a report does not add up. -/
theorem lossy_of_orphan {es : List Event} {m : ℤ} {σ : NAState} {c : Ptr} {ref : NAPacket}
    (hpaced : Paced (es ++ [.refresh ⟨m⟩])) (hnewest : ∀ s ∈ packetTimes es, s ≤ m)
    (hrun : Runs.run (step host) NAState.init (es ++ [.refresh ⟨m⟩]) = some σ) (hok : σ.Ok)
    (horphan : Orphaned σ c) (href : (σ.store.cell c).map NAConnection.refpacket = some ref) :
    ∃ post, Paced (es ++ .refresh ⟨m⟩ :: post) ∧
      ¬ ReportsWindow host (es ++ .refresh ⟨m⟩ :: post) := by
  obtain ⟨σ', σ₁, σ₂, proc_info, hstep, hinfo, hinfo'⟩ := @orphan_swallows host c ref σ hok horphan
    href m
  by_cases hplain : ReportsWindow host ((es ++ [.refresh ⟨m⟩]) ++ [.refresh ⟨m⟩])
  · refine ⟨[packetLike ref m, .refresh ⟨m⟩], hpaced.push_refresh hnewest _ _ _ _ _ rfl, ?_⟩
    have hone : BitVec.ofNat 32 (bytesAfter host
        (packetArrival host (packetOf ⟨⟨m⟩, 0, 1⟩ (.ip ref.s_ip ref.d_ip) ref.s_port
          ref.d_port)).out (m - PERIOD) [packetLike ref m]) = 1 := by
      rw [packetLike, bytesAfter_push, if_pos ⟨rfl, show m - 5 < m by omega⟩]
    have hrun' : Runs.run (step host) NAState.init
        ((es ++ [.refresh ⟨m⟩]) ++ [packetLike ref m]) = some σ' := by
      rw [Runs.run_concat, hrun, Option.bind_some, hstep]
    have hdiffer := reports_differ _ hone hrun hrun' hinfo hinfo' hplain
    rwa [List.append_assoc] at hdiffer
  · refine ⟨[.refresh ⟨m⟩], ?_, ?_⟩
    · have hagain := hpaced.refresh_again le_rfl (by omega)
        (hpaced.in_range m (.inr (by simp [refreshTimes_concat])))
      rwa [List.append_assoc] at hagain
    · rwa [List.append_assoc] at hplain

/-- **What opens late loses a packet**: an opening whose refresh drops a process with a connection
goes on to a paced run of which a report does not add up. -/
theorem exists_lossy {pre : List Event} {t : Timeval} (hno : refreshTimes pre = [])
    (hs : Paced (pre ++ [.refresh t])) (hlate : ¬ OpensInTime host pre t) :
    ∃ post, Paced (pre ++ .refresh t :: post) ∧
      ¬ ReportsWindow host (pre ++ .refresh t :: post) := by
  obtain ⟨σ, hrun, hbooks⟩ :=
    @openBooks_run host [] pre _ t.tv_sec NAState.init hs hno (books_init host t.tv_sec).toOpenBooks
  have hloss : ¬ NoLoss σ t := by
    intro hno
    refine hlate fun s hs => ?_
    obtain rfl : σ = s := Option.some_inj.1 (hrun.symm.trans hs)
    exact hno
  -- the refresh leaves an orphan
  obtain ⟨σ₁, proc_info, hrefresh⟩ := naProcessInfoGetAll_defined hbooks.ok t
  have hok₁ := naProcessInfoGetAll_ok hbooks.ok hrefresh
  have hstep : step host σ (.refresh t) = some σ₁ := by rw [step, hrefresh, Option.map_some]
  obtain ⟨c, horphan⟩ : ∃ c, Orphaned σ₁ c := by
    have hnot := mt (adopted_refresh_iff hbooks.ok hbooks.adopted hrefresh).1 hloss
    rw [adopted_iff hok₁] at hnot
    push Not at hnot
    exact hnot
  obtain ⟨conn, hconn⟩ := hok₁.store.live c horphan.1
  -- refreshes go on until no packet is newer
  obtain ⟨m, hle, hnewest, hmem⟩ := exists_newest t.tv_sec (packetTimes pre)
  have hm : InRange m := by
    rcases hmem with rfl | hmem
    · exact hs.in_range _ (.inr (by simp [refreshTimes_concat]))
    · exact hs.in_range m (.inl (by rwa [packetTimes_concat]))
  obtain ⟨ts, hpaced⟩ := hs.refresh_until hm (m - t.tv_sec).toNat hle (by omega)
  obtain ⟨σ₂, hrun₂, hok₂, horphan₂, href₂⟩ := @orphan_refreshes host c conn.refpacket σ₁ hok₁
    horphan (by rw [hconn, Option.map_some]) (ts ++ [⟨m⟩])
  have hes : Runs.run (step host) NAState.init
      (pre ++ .refresh t :: ts.map .refresh ++ [.refresh ⟨m⟩]) = some σ₂ := by
    rw [List.append_assoc, Runs.run_append, hrun, Option.bind_some, List.cons_append,
      Runs.run_cons_of _ hstep, ← hrun₂, List.map_append]
    rfl
  have hnewest₂ : ∀ s ∈ packetTimes (pre ++ .refresh t :: ts.map .refresh), s ≤ m := by
    intro s hs
    obtain ⟨p, hp, rfl⟩ := List.mem_map.1 hs
    obtain ⟨e, he, hpe⟩ := List.mem_filterMap.1 hp
    rcases List.mem_append.1 he with he | he
    · exact hnewest _ (List.mem_map.2 ⟨p, List.mem_filterMap.2 ⟨e, he, hpe⟩, rfl⟩)
    · obtain ⟨u, _, rfl⟩ := List.mem_map.1 (show e ∈ (t :: ts).map Event.refresh from he)
      cases hpe
  obtain ⟨post, hpost, hlossy⟩ := lossy_of_orphan hpaced hnewest₂ hes hok₂ horphan₂ href₂
  rw [List.append_assoc, List.cons_append] at hpost hlossy
  exact ⟨_, hpost, hlossy⟩

/-! ### Openings in time -/

/-- An opening whose packets are stamped less than a process timeout before the refresh is in
time. -/
theorem opensInTime_of_young {pre post : List Event} {t : Timeval} (hno : refreshTimes pre = [])
    (hs : Paced (pre ++ .refresh t :: post)) (hyoung : ∀ s ∈ packetTimes pre, t.tv_sec - 50 < s) :
    OpensInTime host pre t := by
  intro σ hrun
  obtain ⟨σ', hrun', hbooks⟩ :=
    @openBooks_run host [] pre _ t.tv_sec NAState.init hs hno (books_init host t.tv_sec).toOpenBooks
  obtain rfl : σ' = σ := Option.some_inj.1 (hrun'.symm.trans hrun)
  exact Books.noLoss host ⟨hbooks, fun x hx => hyoung _ (hbooks.seen x hx)⟩

theorem Schedule.paced {es : List Event} (h : Schedule es) : Paced es where
  packets_le := h.packets_le
  refresh_le := h.refresh_le
  refresh_gap := h.refresh_gap
  between := fun pre e mid t post hsplit _ => h.in_time pre e mid t post hsplit
  in_range := h.in_range

/-! ### Conservation -/

/-- **Conservation of bytes.**  For the beginning of a paced run up to its first refresh, all paced
runs it goes on to report their windows exactly when that refresh drops no process with a
connection. -/
theorem report_conserves_bytes_iff (host : Host) {pre : List Event} {t : Timeval}
    (hno : refreshTimes pre = []) (hs : Paced (pre ++ [.refresh t])) :
    (∀ post, Paced (pre ++ .refresh t :: post) → ReportsWindow host (pre ++ .refresh t :: post)) ↔
      OpensInTime host pre t := by
  constructor
  · intro h
    by_contra hlate
    obtain ⟨post, hpaced, hlossy⟩ := exists_lossy hno hs hlate
    exact hlossy (h post hpaced)
  · intro hopen post hpaced
    exact reportsWindow_of_opensInTime hno hpaced hopen

theorem report_conserves_bytes_pairRun : ReportsWindow pairHost (pairRun ++ [.refresh ⟨31⟩]) :=
  (report_conserves_bytes_iff pairHost rfl schedule_pairRun.paced).2
    (opensInTime_of_young rfl schedule_pairRun.paced (by decide)) [] schedule_pairRun.paced

/-- **A scheduled run reports its windows**: what comes before the first refresh is in time, too. -/
theorem Schedule.reportsWindow {es : List Event} (h : Schedule es) : ReportsWindow host es := by
  intro pre t post hsplit
  obtain ⟨r, hr⟩ := exists_next_refresh pre t post
  obtain ⟨opening, first, rest, hfirst, hno, _⟩ := exists_first_refresh hr
  obtain rfl : es = opening ++ .refresh first :: rest := hsplit.trans hfirst
  have hyoung : ∀ s ∈ packetTimes opening, first.tv_sec - 50 < s := by
    intro s hs
    obtain ⟨p, hp, rfl⟩ := List.mem_map.1 hs
    obtain ⟨e, he, hpacket⟩ := List.mem_filterMap.1 hp
    obtain ⟨before, mid, rfl⟩ := List.append_of_mem he
    have hmid : refreshTimes mid = [] := by
      rw [List.append_cons, refreshTimes_append] at hno
      exact (List.append_eq_nil_iff.1 hno).2
    have htime := (h.in_time before e mid first rest (by simp) hmid p hpacket).1
    omega
  exact reportsWindow_of_opensInTime hno h.paced (opensInTime_of_young hno h.paced hyoung)
    pre t post hsplit

/-- A packet of 60 bytes in second 100 and a first refresh in second 150, as after a suspend; then
70 bytes more of the same flow, and a refresh. -/
def sleptRun : List Event :=
  [.push ⟨⟨100⟩, 60, 60⟩ (.ip ⟨1⟩ ⟨2⟩) 3 4 ⟨none, none⟩, .refresh ⟨150⟩,
    .push ⟨⟨151⟩, 70, 70⟩ (.ip ⟨1⟩ ⟨2⟩) 3 4 ⟨none, none⟩, .refresh ⟨152⟩]

theorem paced_sleptRun : Paced sleptRun where
  packets_le := by decide
  refresh_le := by decide
  refresh_gap := by decide
  between := by
    intro pre e mid t post hsplit hpre hmid p hp
    rcases pre with _ | ⟨a, _ | ⟨b, _ | ⟨c, pre⟩⟩⟩
    · exact absurd rfl hpre
    · obtain ⟨rfl, _⟩ := List.cons.inj hsplit
      exact absurd rfl hpre
    · simp only [sleptRun, List.cons_append, List.nil_append, List.cons.injEq] at hsplit
      obtain ⟨_, _, rfl, hrest⟩ := hsplit
      cases mid with
      | nil =>
          obtain ⟨hu, _⟩ := List.cons.inj hrest
          cases hu
          cases hp
          decide
      | cons x mid => simp at hrest
    · simp only [sleptRun, List.cons_append, List.cons.injEq] at hsplit
      have hlen := congrArg List.length hsplit.2.2.2
      simp only [List.length_append, List.length_cons, List.length_nil] at hlen
      omega
  in_range := by
    have htimes : packetTimes sleptRun = [100, 151] := by decide
    have hrefresh : refreshTimes sleptRun = [150, 152] := by decide
    intro s hs
    rw [htimes, hrefresh] at hs
    simp only [List.mem_cons, List.not_mem_nil, or_false] at hs
    rw [InRange]
    omega

/-- **A late opening loses 70 bytes**: the refresh at second 150 drops the process of the first
packet but not its connection, and the second packet is in no report. -/
theorem late_opening_loses : ¬ ∀ es, Paced es → ReportsWindow pairHost es := by
  intro h
  obtain ⟨σ, σ', proc_info, hrun, hrefresh, hsent, _⟩ :=
    h sleptRun paced_sleptRun (sleptRun.take 3) ⟨152⟩ [] rfl
  have hreport : ((Runs.run (step pairHost) NAState.init (sleptRun.take 3)).bind fun σ =>
      (naProcessInfoGetAll σ ⟨152⟩).map Prod.snd) = some [] := by decide
  rw [hrun, Option.bind_some, hrefresh, Option.map_some] at hreport
  obtain rfl : proc_info = [] := Option.some_inj.1 hreport
  exact absurd hsent (by decide)

end NetworkAnalyzer
