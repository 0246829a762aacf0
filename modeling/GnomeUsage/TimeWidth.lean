/-
Timeouts in wide times and narrow ones.

The seconds of packets are 64 bits wide, but a connection stores the second of its last packet in
an `int`, and the process timeout is added to it as an `int`.  This module writes the exact second
beside every connection and compares the decisions of a refresh with those of a refresh that
computes in unbounded integers.

* `NetworkAnalyzer.Aged` — the analyzer with the exact second of the last packet of every
  connection;
* `Aged.Decides` — a refresh keeps what it would keep in unbounded integers;
* `Aged.Settled` — the guard: no process without connections before second 50, and none whose
  newest packet has a second that overflows an `int` with the timeout added and is not 50 seconds
  old;
* `Aged.Timed.timedOut_eq_iff`, `Aged.Timed.stalled_eq` — one decision on a process, and on a
  connection;
* `decisions_exact_iff` — **all decisions of a run are exact exactly when its refreshes are
  settled**;
* `late_clock_expires` — a process that is dropped one second after its packet.
-/

import GnomeUsage.ProcessTimeout

set_option relaxedAutoImplicit false
set_option autoImplicit false

namespace NetworkAnalyzer

/-- The analyzer with the exact second of the last packet of every connection. -/
structure Aged where
  state : NAState
  seconds : Ptr → ℤ

def Aged.init : Aged := ⟨NAState.init, fun _ => 0⟩

/-- The seconds after an event: a packet sets the one of the connection it goes to. -/
def Aged.secondsAfter (A : Aged) : Event → Ptr → ℤ
  | .push header address s_port d_port _ =>
      Function.update A.seconds (A.state.receiver (packetOf header address s_port d_port))
        header.ts.tv_sec
  | .refresh _ => A.seconds

variable (host : Host)

/-- A step of the analyzer, with the exact seconds written beside its state. -/
def Aged.step (A : Aged) (e : Event) : Option Aged :=
  (NetworkAnalyzer.step host A.state e).map fun σ => ⟨σ, A.secondsAfter e⟩

theorem Aged.step_state (A : Aged) (e : Event) :
    (A.step host e).map Aged.state = NetworkAnalyzer.step host A.state e := by
  rw [Aged.step, Option.map_map]
  exact Option.map_id_apply

/-! ### Decisions in unbounded integers -/

/-- The last packet of the connection is at least 25 seconds old. -/
def Aged.stalled (A : Aged) (t : Timeval) (c : Ptr) : Bool := A.seconds c + CONNTIMEOUT ≤ t.tv_sec

/-- The newest packet of the connections of the process is at least 50 seconds old, or it has
none. -/
def Aged.timedOut (A : Aged) (t : Timeval) (process : NAProcess) : Bool :=
  process.connections.all fun c => A.seconds c + PROCESSTIMEOUT ≤ t.tv_sec

/-- A process with its connections that are not stalled. -/
def Aged.trim (A : Aged) (t : Timeval) (process : NAProcess) : NAProcess :=
  { process with connections := process.connections.filter fun c => !A.stalled t c }

/-- **Exact decisions**: a refresh keeps the processes that have not timed out, each with the
connections that are not stalled. -/
def Aged.Decides (A : Aged) : Event → Prop
  | .push .. => True
  | .refresh t => ∀ σ proc_info, naProcessInfoGetAll A.state t = some (σ, proc_info) →
      σ.processes =
        (A.state.processes.filter fun process => !A.timedOut t process).map (A.trim t)

/-- The narrow decision on a process is the wide one. -/
def Aged.SettledFor (A : Aged) (t : Timeval) (process : NAProcess) : Prop :=
  if process.connections = [] then PROCESSTIMEOUT ≤ t.tv_sec
  else
    (∀ c ∈ process.connections, A.seconds c + PROCESSTIMEOUT < 2 ^ 31) ∨
      ∀ c ∈ process.connections, A.seconds c + PROCESSTIMEOUT ≤ t.tv_sec

/-- **The guard**: a process without connections is met from second 50 on only; any other has the
timeout within the range of an `int` after all its packets, or behind it. -/
def Aged.Settled (A : Aged) : Event → Prop
  | .push .. => True
  | .refresh t => ∀ process ∈ A.state.processes, A.SettledFor t process

/-! ### One decision -/

/-- The times of a store are the exact seconds, narrowed; none is after `now`. -/
structure Aged.Timed (now : ℤ) (A : Aged) : Prop where
  ok : A.state.Ok
  nonneg : 0 ≤ now
  seconds_nonneg : ∀ c ∈ A.state.store.connections, 0 ≤ A.seconds c
  seconds_le : ∀ c ∈ A.state.store.connections, A.seconds c ≤ now
  lastTime_eq : ∀ c ∈ A.state.store.connections, A.state.store.lastTime c = toInt (A.seconds c)

theorem Aged.timed_init : Aged.init.Timed 0 where
  ok := ok_init
  nonneg := le_rfl
  seconds_nonneg := fun c hc => by cases hc
  seconds_le := fun c hc => by cases hc
  lastTime_eq := fun c hc => by cases hc

variable {A : Aged} {now : ℤ}

theorem Aged.Timed.owned (h : A.Timed now) {process : NAProcess}
    (hp : process ∈ A.state.processes) {c : Ptr} (hc : c ∈ process.connections) :
    c ∈ A.state.store.connections :=
  h.ok.owned c (mem_ownedBy.2 ⟨process, hp, hc⟩)

theorem Aged.timedOut_iff {t : Timeval} {process : NAProcess} :
    A.timedOut t process = true ↔
      ∀ c ∈ process.connections, A.seconds c + PROCESSTIMEOUT ≤ t.tv_sec := by
  simp [Aged.timedOut]

/-- A process whose packets all leave room for the timeout: the decisions are the same. -/
theorem Aged.Timed.timedOut_iff_of_fits (h : A.Timed now) {t : Timeval} {process : NAProcess}
    (hp : process ∈ A.state.processes) (hne : process.connections ≠ [])
    (hfit : ∀ c ∈ process.connections, A.seconds c + PROCESSTIMEOUT < 2 ^ 31) :
    A.state.store.timedOut t process = true ↔ A.timedOut t process = true := by
  unfold PROCESSTIMEOUT at hfit
  have hlast : ∀ c ∈ process.connections, A.state.store.lastTime c = A.seconds c := by
    intro c hc
    have hmem := h.owned hp hc
    have hnonneg := h.seconds_nonneg c hmem
    have hlt := hfit c hc
    rw [h.lastTime_eq c hmem, toInt_of_range (by omega) (by omega)]
  obtain ⟨hmax, hle⟩ := processTime_spec A.state.store process
  obtain ⟨d, hd⟩ := List.exists_mem_of_ne_nil _ hne
  have hd_nonneg := h.seconds_nonneg d (h.owned hp hd)
  have hnonneg := processTime_nonneg A.state.store process
  -- the last packet time of the process is the exact second of one of its connections
  have hbound : ∃ c ∈ process.connections,
      A.state.store.processTime process = A.seconds c := by
    rcases List.mem_cons.1 hmax with hzero | hmem
    · have hle_d := @lastTime_le_processTime A.state.store process d hd
      rw [hlast d hd, hzero] at hle_d
      exact ⟨d, hd, by omega⟩
    · obtain ⟨c, hc, heq⟩ := List.mem_map.1 hmem
      exact ⟨c, hc, heq.symm.trans (hlast c hc)⟩
  obtain ⟨c, hc, heq⟩ := hbound
  have hlt := hfit c hc
  rw [NetworkAnalyzer.timedOut_iff, Aged.timedOut_iff]
  unfold PROCESSTIMEOUT
  rw [toInt_of_range (by omega) (by omega)]
  constructor
  · intro hout e he
    have hle_e := @lastTime_le_processTime A.state.store process e he
    rw [hlast e he] at hle_e
    omega
  · intro hout
    have hout_c := hout c hc
    omega

/-- A process with a packet that leaves no room for the timeout is always dropped. -/
theorem Aged.Timed.timedOut_of_not_fits (h : A.Timed now) {t : Timeval} (ht : now ≤ t.tv_sec)
    {process : NAProcess} (hp : process ∈ A.state.processes) {c : Ptr}
    (hc : c ∈ process.connections) (hout : 2 ^ 31 ≤ A.seconds c + PROCESSTIMEOUT) :
    A.state.store.timedOut t process = true := by
  have hmem := h.owned hp hc
  have hle_c := h.seconds_le c hmem
  have hnow := h.nonneg
  have hnonneg := processTime_nonneg A.state.store process
  have hle_m := @lastTime_le_processTime A.state.store process c hc
  rw [h.lastTime_eq c hmem] at hle_m
  have hlt_m : A.state.store.processTime process < 2 ^ 31 := by
    rcases List.mem_cons.1 (processTime_spec A.state.store process).1 with hzero | hmax
    · rw [hzero]
      norm_num
    · obtain ⟨d, hd, heq⟩ := List.mem_map.1 hmax
      rw [← heq, h.lastTime_eq d (h.owned hp hd)]
      exact toInt_lt _
  rw [NetworkAnalyzer.timedOut_iff]
  unfold PROCESSTIMEOUT at *
  generalize A.state.store.processTime process = m at *
  rcases lt_or_ge (m + 50) (2 ^ 31) with hfit | hover
  · rw [toInt_of_range (by omega) hfit]
    rcases lt_or_ge (A.seconds c) (2 ^ 31) with hlt | hge
    · rw [toInt_of_range (by have := h.seconds_nonneg c hmem; omega) hlt] at hle_m
      omega
    · omega
  · -- the sum has wrapped
    have hwrap : toInt (m + 50) < 0 := by
      unfold toInt Int.bmod
      simp only
      split <;> omega
    omega

/-- **One decision on a process**: it is exact exactly when the process is settled. -/
theorem Aged.Timed.timedOut_eq_iff (h : A.Timed now) {t : Timeval} (ht : now ≤ t.tv_sec)
    {process : NAProcess} (hp : process ∈ A.state.processes) :
    (A.state.store.timedOut t process = true ↔ A.timedOut t process = true) ↔
      A.SettledFor t process := by
  unfold Aged.SettledFor
  split
  · next hnil =>
      have hzero : A.state.store.processTime process = 0 := by
        simp [ConnStore.processTime, hnil]
      have hwide : A.timedOut t process = true := by
        rw [Aged.timedOut_iff, hnil]
        intro c hc
        cases hc
      rw [iff_true_right hwide, NetworkAnalyzer.timedOut_iff, hzero]
      unfold PROCESSTIMEOUT
      rw [toInt_of_range (by norm_num) (by norm_num), zero_add]
  · next hne =>
      by_cases hfit : ∀ c ∈ process.connections, A.seconds c + PROCESSTIMEOUT < 2 ^ 31
      · exact iff_of_true (h.timedOut_iff_of_fits hp hne hfit) (.inl hfit)
      · rw [or_iff_right hfit, ← Aged.timedOut_iff]
        obtain ⟨c, hnot⟩ := not_forall.1 hfit
        obtain ⟨hc, hout⟩ := Classical.not_imp.1 hnot
        rw [iff_true_left (h.timedOut_of_not_fits ht hp hc (not_lt.1 hout))]

/-- The packets of a process that stays leave room for the timeout. -/
theorem Aged.Timed.fits_of_stays (h : A.Timed now) {t : Timeval} (ht : now ≤ t.tv_sec)
    {process : NAProcess} (hp : process ∈ A.state.processes)
    (hstays : A.state.store.timedOut t process = false) :
    ∀ c ∈ process.connections, A.seconds c + PROCESSTIMEOUT < 2 ^ 31 := by
  intro c hc
  by_contra hout
  rw [h.timedOut_of_not_fits ht hp hc (not_lt.1 hout)] at hstays
  cases hstays

/-- **One decision on a connection** of a process that stays is always exact. -/
theorem Aged.Timed.stalled_eq (h : A.Timed now) {t : Timeval} (ht : now ≤ t.tv_sec)
    {process : NAProcess} (hp : process ∈ A.state.processes)
    (hstays : A.state.store.timedOut t process = false) {c : Ptr} (hc : c ∈ process.connections) :
    A.state.store.stalled t c = A.stalled t c := by
  have hmem := h.owned hp hc
  have hnonneg := h.seconds_nonneg c hmem
  have hfit := h.fits_of_stays ht hp hstays c hc
  unfold PROCESSTIMEOUT at hfit
  rw [Bool.eq_iff_iff, stalled_iff, h.lastTime_eq c hmem, toInt_of_range (by omega) (by omega),
    Aged.stalled, decide_eq_true_iff, le_sub_iff_add_le]

/-! ### One refresh -/

/-- Before second 50, what stays in wide times stays in narrow ones. -/
theorem Aged.Timed.stays_of_early (h : A.Timed now) {t : Timeval} (ht : now ≤ t.tv_sec)
    (hearly : t.tv_sec < PROCESSTIMEOUT) {process : NAProcess} (hp : process ∈ A.state.processes)
    (hstays : A.timedOut t process = false) : A.state.store.timedOut t process = false := by
  have hne : process.connections ≠ [] := by
    intro hnil
    simp [Aged.timedOut, hnil] at hstays
  have hfit : ∀ c ∈ process.connections, A.seconds c + PROCESSTIMEOUT < 2 ^ 31 := by
    intro c hc
    have hle := h.seconds_le c (h.owned hp hc)
    unfold PROCESSTIMEOUT at *
    omega
  rw [← Bool.not_eq_true] at hstays ⊢
  rwa [h.timedOut_iff_of_fits hp hne hfit]

/-- From second 50 on, what stays in narrow times stays in wide ones. -/
theorem Aged.Timed.stays_of_late (h : A.Timed now) {t : Timeval} (ht : now ≤ t.tv_sec)
    (hlate : PROCESSTIMEOUT ≤ t.tv_sec) {process : NAProcess} (hp : process ∈ A.state.processes)
    (hstays : A.state.store.timedOut t process = false) : A.timedOut t process = false := by
  have hsettled : A.SettledFor t process := by
    unfold Aged.SettledFor
    split
    · exact hlate
    · exact .inl (h.fits_of_stays ht hp hstays)
  rw [← Bool.not_eq_true] at hstays ⊢
  rwa [← (h.timedOut_eq_iff ht hp).2 hsettled]

/-- Two refreshes that keep equally many processes keep the same ones: at any second, one of the two
conditions is the weaker one. -/
theorem Aged.Timed.agree_of_length (h : A.Timed now) {t : Timeval} (ht : now ≤ t.tv_sec)
    (hlen : (A.state.store.survivors t A.state.processes).length =
      (A.state.processes.filter fun process => !A.timedOut t process).length) :
    ∀ process ∈ A.state.processes,
      A.state.store.timedOut t process = A.timedOut t process := by
  intro process hp
  refine Bool.not_inj_iff.1 (Bool.eq_iff_iff.2 ?_)
  rcases lt_or_ge t.tv_sec PROCESSTIMEOUT with hearly | hlate
  · have hweak : ∀ process ∈ A.state.processes, (!A.timedOut t process) = true →
        (!A.state.store.timedOut t process) = true := by
      intro process hp hstays
      rw [Bool.not_eq_true'] at hstays ⊢
      exact h.stays_of_early ht hearly hp hstays
    exact ⟨Lists.forall_of_length_filter hweak hlen.symm process hp, hweak process hp⟩
  · have hweak : ∀ process ∈ A.state.processes, (!A.state.store.timedOut t process) = true →
        (!A.timedOut t process) = true := by
      intro process hp hstays
      rw [Bool.not_eq_true'] at hstays ⊢
      exact h.stays_of_late ht hlate hp hstays
    exact ⟨hweak process hp, Lists.forall_of_length_filter hweak hlen process hp⟩

/-- When the decisions on the processes agree, so does all that a refresh leaves of them. -/
theorem Aged.Timed.trim_of_agree (h : A.Timed now) {t : Timeval} (ht : now ≤ t.tv_sec)
    (hagree : ∀ process ∈ A.state.processes,
      A.state.store.timedOut t process = A.timedOut t process) :
    (A.state.store.survivors t A.state.processes).map (A.state.store.trim t) =
      (A.state.processes.filter fun process => !A.timedOut t process).map (A.trim t) := by
  have hfilter : A.state.store.survivors t A.state.processes =
      A.state.processes.filter fun process => !A.timedOut t process :=
    List.filter_congr fun process hp => by rw [hagree process hp]
  rw [← hfilter]
  refine List.map_congr_left ?_
  intro process hp
  obtain ⟨hp, hstays⟩ := List.mem_filter.1 hp
  rw [ConnStore.trim, ConnStore.keep, Aged.trim]
  congr 1
  refine List.filter_congr ?_
  intro c hc
  rw [h.stalled_eq ht hp (by simpa using hstays) hc]

/-- **A refresh decides exactly when it is settled.** -/
theorem Aged.Timed.decides_iff (h : A.Timed now) {e : Event} (hnow : now ≤ e.stamp) :
    A.Decides e ↔ A.Settled e := by
  cases e with
  | push header address s_port d_port lookup => exact Iff.rfl
  | refresh t =>
      have ht : now ≤ t.tv_sec := hnow
      have hone : ∀ process ∈ A.state.processes,
          (A.state.store.timedOut t process = A.timedOut t process ↔ A.SettledFor t process) := by
        intro process hp
        rw [Bool.eq_iff_iff]
        exact h.timedOut_eq_iff ht hp
      simp only [Aged.Decides, naProcessInfoGetAll_eq h.ok]
      constructor
      · intro hdecides process hp
        have hlen := congrArg List.length (hdecides _ _ rfl)
        rw [List.length_map, List.length_map] at hlen
        exact (hone process hp).1 (h.agree_of_length ht hlen process hp)
      · rintro hsettled σ proc_info ⟨⟩
        exact h.trim_of_agree ht fun process hp => (hone process hp).2 (hsettled process hp)

/-! ### Runs -/

theorem Aged.Timed.push (h : A.Timed now) {header : PcapPkthdr} {address : IPAddress}
    {s_port d_port : BitVec 16} {lookup : ProcessLookup} (hnow : now ≤ header.ts.tv_sec)
    {σ : NAState} (hok : σ.Ok) (hstep : NetworkAnalyzer.step host A.state
      (.push header address s_port d_port lookup) = some σ) :
    Aged.Timed header.ts.tv_sec
      ⟨σ, A.secondsAfter (.push header address s_port d_port lookup)⟩ := by
  obtain ⟨hreceives, htimes⟩ := push_times host h.ok
    (pushed_packetOf header address s_port d_port).built hstep
  rw [packetOf_time] at htimes
  have hnonneg := h.nonneg.trans hnow
  -- what holds of the new second and of the old ones holds of all
  have hall : ∀ {p : Ptr → ℤ → Prop},
      p (A.state.receiver (packetOf header address s_port d_port)) header.ts.tv_sec →
      (∀ c ∈ A.state.store.connections,
        c ≠ A.state.receiver (packetOf header address s_port d_port) → p c (A.seconds c)) →
      ∀ c ∈ σ.store.connections,
        p c (A.secondsAfter (.push header address s_port d_port lookup) c) := by
    intro p hnew hold c hc
    rw [Aged.secondsAfter]
    by_cases hcr : c = A.state.receiver (packetOf header address s_port d_port)
    · rw [hcr, Function.update_self]
      exact hnew
    · rw [Function.update_of_ne hcr]
      refine hold c ?_ hcr
      cases hreceives with
      | known _ hconnections _ => exact hconnections ▸ hc
      | opened _ hconnections _ _ =>
          rw [hconnections] at hc
          rcases List.mem_append.1 hc with hc | hc
          · exact hc
          · exact absurd (List.mem_singleton.1 hc) hcr
  refine ⟨hok, hnonneg, ?_, ?_, ?_⟩
  · exact @hall (fun _ s => 0 ≤ s) hnonneg fun c hc _ => h.seconds_nonneg c hc
  · exact @hall (fun _ s => s ≤ header.ts.tv_sec) le_rfl fun c hc _ =>
      (h.seconds_le c hc).trans hnow
  · refine @hall (fun c s => σ.store.lastTime c = toInt s) ?_ ?_
    · rw [htimes, Function.update_self]
    · intro c hc hcr
      rw [htimes, Function.update_of_ne hcr]
      exact h.lastTime_eq c hc

theorem Aged.Timed.refresh (h : A.Timed now) {t : Timeval} (hnow : now ≤ t.tv_sec) {σ : NAState}
    (hok : σ.Ok) (hstep : NetworkAnalyzer.step host A.state (.refresh t) = some σ) :
    Aged.Timed t.tv_sec ⟨σ, A.seconds⟩ := by
  simp only [NetworkAnalyzer.step, naProcessInfoGetAll_eq h.ok, Option.map_some] at hstep
  cases hstep
  refine ⟨hok, h.nonneg.trans hnow, ?_, ?_, ?_⟩
  · intro c hc
    exact h.seconds_nonneg c (List.mem_of_mem_filter hc)
  · intro c hc
    exact (h.seconds_le c (List.mem_of_mem_filter hc)).trans hnow
  · intro c hc
    obtain ⟨hmem, hkeep⟩ := List.mem_filter.1 hc
    rw [lastTime_sweep, if_neg]
    · exact h.lastTime_eq c hmem
    · rintro ⟨hl, hst⟩
      simp [hl, hst] at hkeep

theorem Aged.Timed.step {A' : Aged} (h : A.Timed now) {e : Event} (hnow : now ≤ e.stamp)
    (hstep : A.step host e = some A') : A'.Timed e.stamp := by
  obtain ⟨σ, hσ, rfl⟩ := Option.map_eq_some_iff.1 hstep
  obtain ⟨s, hs, hok⟩ := step_ok host h.ok e
  obtain rfl : s = σ := Option.some_inj.1 (hs.symm.trans hσ)
  cases e with
  | push header address s_port d_port lookup => exact h.push host hnow hok hσ
  | refresh t => exact h.refresh host hnow hok hσ

/-- The invariant before the events `es`, on a clock that does not go back. -/
def Aged.Before (A : Aged) (es : List Event) : Prop :=
  ∃ now, A.Timed now ∧ (now :: es.map Event.stamp).Pairwise (· ≤ ·)

/-- **All decisions of a run are exact exactly when its refreshes are settled**, for every run on a
clock that starts at zero or later and never goes back, however late it gets. -/
theorem decisions_exact_iff {es : List Event}
    (hclock : (0 :: es.map Event.stamp).Pairwise (· ≤ ·)) :
    ∃ A, Runs.run (Aged.step host) Aged.init es = some A ∧
      Runs.run (step host) NAState.init es = some A.state ∧
      (Runs.Guarded (Aged.step host) Aged.Decides Aged.init es ↔
        Runs.Guarded (Aged.step host) Aged.Settled Aged.init es) := by
  obtain ⟨σ, hrun, _⟩ := run_ok host es
  obtain ⟨A, hA, hstate⟩ := Runs.run_lift (Aged.step_state host) Aged.init hrun
  refine ⟨A, hA, by rw [hrun, hstate], ?_⟩
  refine @Runs.guarded_congr _ _ _ Aged.Before _ _ ?_ ?_ _ _ ⟨0, Aged.timed_init, hclock⟩
  · rintro A e es A' ⟨now, htimed, hsorted⟩ hstep
    obtain ⟨hfirst, hrest⟩ := List.pairwise_cons.1 hsorted
    exact ⟨e.stamp, htimed.step host (hfirst _ List.mem_cons_self) hstep, hrest⟩
  · rintro A e es ⟨now, htimed, hsorted⟩
    exact htimed.decides_iff ((List.pairwise_cons.1 hsorted).1 _ List.mem_cons_self)

/-- One packet at second `2 ^ 31`, which no `int` holds, and a refresh one second later. -/
def lateRun : List Event :=
  [.push ⟨⟨2147483648⟩, 60, 60⟩ (.ip ⟨1⟩ ⟨2⟩) 3 4 ⟨some ⟨1, 42, none⟩, none⟩,
    .refresh ⟨2147483649⟩]

/-- **A late clock**: the second of the packet is stored as a negative number, and the process is
dropped one second after it. -/
theorem late_clock_expires :
    (0 :: lateRun.map Event.stamp).Pairwise (· ≤ ·) ∧
      ¬ Runs.Guarded (Aged.step silentHost) Aged.Decides Aged.init lateRun := by
  refine ⟨by decide, ?_⟩
  intro h
  have hlate := h (lateRun.take 1) (.refresh ⟨2147483649⟩) [] _ rfl rfl _ _ rfl
  exact absurd hlate (by decide)

theorem decisions_exact_iff_busy :
    (0 :: busyRun.map Event.stamp).Pairwise (· ≤ ·) ∧
      (Runs.Guarded (Aged.step silentHost) Aged.Decides Aged.init busyRun ↔
        Runs.Guarded (Aged.step silentHost) Aged.Settled Aged.init busyRun) := by
  have hclock : (0 :: busyRun.map Event.stamp).Pairwise (· ≤ ·) := by decide
  obtain ⟨A, _, _, hiff⟩ := decisions_exact_iff silentHost hclock
  exact ⟨hclock, hiff⟩

end NetworkAnalyzer
