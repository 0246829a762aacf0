/-
When a process is removed.

A process is to be removed 50 seconds after its last packet.  But the time of that packet is not
stored: it is recomputed at every refresh from the connections that are still there, and these are
freed after 25 seconds.  A process that outlives its connections therefore counts as one that never
received a packet.

* `NetworkAnalyzer.Track` — the analyzer with the history of every process;
* `Track.OnTime` — a refresh reports exactly the processes whose last packet is less than 50
  seconds old;
* `TrackedProcess.Timely`, `timely_push`, `TrackedProcess.Timely.refresh` — what the connections of
  a process still tell of its history;
* `Track.Attended` — the guard: no refresh came 25 seconds or more after the last packet of a
  process that is to stay;
* `process_timeout_iff` — **all refreshes of a run are on time exactly when all are attended**;
* `quiet_process_leaves_early` — a process that is removed 26 seconds after its last packet.
-/

import GnomeUsage.Lists
import GnomeUsage.Tracking

set_option relaxedAutoImplicit false
set_option autoImplicit false

namespace NetworkAnalyzer

/-- The analyzer with the history of every process. -/
structure Track where
  state : NAState
  tracked : List TrackedProcess

def Track.init : Track := ⟨NAState.init, []⟩

variable (host : Host)

/-- A step of the analyzer, with the histories written beside its state. -/
def Track.step (T : Track) (e : Event) : Option Track :=
  (NetworkAnalyzer.step host T.state e).map fun σ => ⟨σ, history T.state σ T.tracked e.act⟩

theorem Track.step_state (T : Track) (e : Event) :
    (T.step host e).map Track.state = NetworkAnalyzer.step host T.state e := by
  rw [Track.step, Option.map_map]
  exact Option.map_id_apply

/-! ### The law and the guard -/

/-- **A refresh on time**: the report lists exactly the processes whose last packet is less than
50 seconds old. -/
def Track.OnTime (T : Track) : Event → Prop
  | .push .. => True
  | .refresh t => ∀ σ proc_info, naProcessInfoGetAll T.state t = some (σ, proc_info) →
      proc_info.map NAProcInfo.pid =
        (T.tracked.filter fun x => t.tv_sec < x.last + PROCESSTIMEOUT).map fun x => x.process.pid

/-- **The guard**: a process whose last packet is less than 50 seconds old is safe as long as the
clock has not reached 50, or its last packet has a second that an `int` can hold with a timeout
added, and no refresh came 25 seconds or more after it. -/
def Track.Attended (T : Track) : Event → Prop
  | .push .. => True
  | .refresh t => ∀ x ∈ T.tracked, t.tv_sec < x.last + PROCESSTIMEOUT →
      t.tv_sec < PROCESSTIMEOUT ∨
        x.last + PROCESSTIMEOUT < 2 ^ 31 ∧ ∀ r ∈ x.refreshed, r < x.last + CONNTIMEOUT

/-! ### What the connections tell of the history -/

/-- Narrowing a second never moves it forward. -/
theorem toInt_le {s : ℤ} (h : 0 ≤ s) : toInt s ≤ s := by
  unfold toInt Int.bmod
  simp only
  split <;> omega

theorem toInt_lt (s : ℤ) : toInt s < 2 ^ 31 := by
  unfold toInt Int.bmod
  simp only
  split <;> omega

/-- Adding a timeout to a second near the end of the range leads behind every later second. -/
theorem toInt_add_le {s last t : ℤ} (hlo : last < 2 ^ 31 → last ≤ s) (hhi : s ≤ last)
    (hout : 2 ^ 31 ≤ last + 50) (ht : last ≤ t) : toInt (s + 50) ≤ t := by
  have hlt := toInt_lt (s + 50)
  rcases lt_or_ge last (2 ^ 31) with hlast | hlast
  · have hlo := hlo hlast
    unfold toInt Int.bmod
    simp only
    split <;> omega
  · omega

/-- **What the connections of a process tell of its history**, at the second `now`: none is later
than its last packet; one is of that packet, if an `int` can hold its second, until a refresh comes
25 seconds after it; and then there are none. -/
structure TrackedProcess.Timely (store : ConnStore) (now : ℤ) (x : TrackedProcess) : Prop where
  last_nonneg : 0 ≤ x.last
  last_le : x.last ≤ now
  refreshed_le : ∀ r ∈ x.refreshed, r ≤ now
  older : ∀ c ∈ x.process.connections, ∃ s, 0 ≤ s ∧ s ≤ x.last ∧ store.lastTime c = toInt s
  newest : x.last < 2 ^ 31 → (∀ r ∈ x.refreshed, r < x.last + CONNTIMEOUT) →
    ∃ c ∈ x.process.connections, store.lastTime c = x.last
  idle : ∀ r ∈ x.refreshed, x.last + CONNTIMEOUT ≤ r → x.process.connections = []

variable {store : ConnStore} {now : ℤ} {x : TrackedProcess}

theorem TrackedProcess.Timely.processTime_le_last (h : x.Timely store now) :
    store.processTime x.process ≤ x.last := by
  refine processTime_le h.last_nonneg ?_
  intro c hc
  obtain ⟨s, hs, hle, heq⟩ := h.older c hc
  rw [heq]
  exact (toInt_le hs).trans hle

/-- **The process stays** exactly when its last packet is less than 50 seconds old and the guard
holds. -/
theorem TrackedProcess.Timely.stays_iff (h : x.Timely store now) {t : Timeval}
    (ht : now ≤ t.tv_sec) :
    store.timedOut t x.process = false ↔ t.tv_sec < x.last + PROCESSTIMEOUT ∧
      (t.tv_sec < PROCESSTIMEOUT ∨
        x.last + PROCESSTIMEOUT < 2 ^ 31 ∧ ∀ r ∈ x.refreshed, r < x.last + CONNTIMEOUT) := by
  have hnonneg := h.last_nonneg
  have hlast := h.last_le
  have hle := h.processTime_le_last
  have htime := processTime_nonneg store x.process
  rw [← Bool.not_eq_true, timedOut_iff, not_le]
  unfold PROCESSTIMEOUT CONNTIMEOUT at *
  by_cases hseen : ∀ r ∈ x.refreshed, r < x.last + 25
  · have hge : x.last < 2 ^ 31 → x.last ≤ store.processTime x.process := by
      intro hfit
      obtain ⟨c, hc, heq⟩ := h.newest hfit hseen
      rw [← heq]
      exact lastTime_le_processTime hc
    by_cases hfit : x.last + 50 < 2 ^ 31
    · -- the last packet is that of a connection
      have hge := hge (by omega)
      rw [toInt_of_range (by omega) (by omega)]
      exact ⟨fun hlt => ⟨by omega, .inr ⟨hfit, hseen⟩⟩, fun hand => by omega⟩
    · -- the second of the last packet is out of range
      have hle' := toInt_add_le hge hle (not_lt.1 hfit) (hlast.trans ht)
      refine ⟨fun hlt => absurd hlt (not_lt.2 hle'), ?_⟩
      rintro ⟨_, hlt | ⟨hfit', _⟩⟩
      · omega
      · exact absurd hfit' hfit
  · -- the connections are gone
    obtain ⟨r, hr⟩ := not_forall.1 hseen
    obtain ⟨hr, hge⟩ := Classical.not_imp.1 hr
    have hzero : store.processTime x.process = 0 := by
      refine le_antisymm (processTime_le le_rfl ?_) htime
      intro c hc
      rw [h.idle r hr (not_lt.1 hge)] at hc
      cases hc
    rw [hzero, toInt_of_range (by norm_num) (by norm_num)]
    refine ⟨fun hlt => ⟨by omega, .inl (by omega)⟩, ?_⟩
    rintro ⟨_, hlt | ⟨_, hall⟩⟩
    · omega
    · exact absurd hall hseen

/-! ### A packet -/

/-- A process that did not receive the packet. -/
theorem TrackedProcess.Timely.other (h : x.Timely store now) {store' : ConnStore} {c : Ptr} {m : ℤ}
    (htimes : store'.lastTime = Function.update store.lastTime c m)
    (hc : c ∉ x.process.connections) {now' : ℤ} (hnow : now ≤ now') : x.Timely store' now' := by
  have hsame : ∀ d ∈ x.process.connections, store'.lastTime d = store.lastTime d := by
    intro d hd
    have hne : d ≠ c := fun heq => hc (heq ▸ hd)
    rw [htimes, Function.update_of_ne hne]
  refine ⟨h.last_nonneg, h.last_le.trans hnow, fun r hr => (h.refreshed_le r hr).trans hnow, ?_, ?_,
    h.idle⟩
  · intro d hd
    rw [hsame d hd]
    exact h.older d hd
  · intro hfit hseen
    obtain ⟨d, hd, heq⟩ := h.newest hfit hseen
    exact ⟨d, hd, (hsame d hd).trans heq⟩

/-- A process that received the packet, on the connection at `c`. -/
theorem timely_received {store' : ConnStore} {c : Ptr} {now' : ℤ} (hnonneg : 0 ≤ now')
    (htimes : store'.lastTime = Function.update store.lastTime c (toInt now'))
    {process : NAProcess} (hc : c ∈ process.connections)
    (hold : ∀ d ∈ process.connections, d ≠ c →
      ∃ s, 0 ≤ s ∧ s ≤ now' ∧ store.lastTime d = toInt s) (given : ℕ) :
    (⟨process, given, now', none⟩ : TrackedProcess).Timely store' now' where
  last_nonneg := hnonneg
  last_le := le_rfl
  refreshed_le := fun r hr => by cases hr
  older := fun d hd => by
    by_cases hdc : d = c
    · exact ⟨now', hnonneg, le_rfl, by rw [htimes, hdc, Function.update_self]⟩
    · rw [htimes, Function.update_of_ne hdc]
      exact hold d hd hdc
  newest := fun hfit _ => by
    have hfit : now' < 2 ^ 31 := hfit
    exact ⟨c, hc, by rw [htimes, Function.update_self, toInt_of_range (by omega) hfit]⟩
  idle := fun r hr => by cases hr

/-- **After a packet**, the connections of every process tell of its history. -/
theorem timely_push {σ σ' : NAState} (hok : σ.Ok) {tracked : List TrackedProcess}
    (haligned : tracked.map TrackedProcess.process = σ.processes) {lookup : ProcessLookup}
    {c : Ptr} (hreceives : Receives σ σ' lookup c) {now' : ℤ}
    (htimes : σ'.store.lastTime = Function.update σ.store.lastTime c (toInt now'))
    (h : ∀ x ∈ tracked, x.Timely σ.store now) (hnonneg : 0 ≤ now') (hnow : now ≤ now') :
    ∀ y ∈ trackPush now' c tracked σ'.processes, y.Timely σ'.store now' := by
  have hold : ∀ x ∈ tracked, ∀ d ∈ x.process.connections,
      ∃ s, 0 ≤ s ∧ s ≤ now' ∧ σ.store.lastTime d = toInt s := by
    intro x hx d hd
    obtain ⟨s, hs, hle, heq⟩ := (h x hx).older d hd
    exact ⟨s, hs, (hle.trans (h x hx).last_le).trans hnow, heq⟩
  refine PushEffect.forall_mem (trackPush_effect hok haligned hreceives now') ?_ ?_ ?_
  · intro x hx
    by_cases hc : c ∈ x.process.connections
    · have hafter : x.after now' c x.process = ⟨x.process, x.given, now', none⟩ := by
        simp [TrackedProcess.after, hc]
      rw [hafter]
      exact timely_received hnonneg htimes hc (fun d hd _ => hold x hx d hd) x.given
    · rw [TrackedProcess.after_other hc]
      exact (h x hx).other htimes hc hnow
  · intro x hx node _ _
    refine timely_received hnonneg htimes
      (List.mem_append_right _ (List.mem_singleton_self c)) ?_ _
    intro d hd hne
    rcases List.mem_append.1 hd with hd | hd
    · exact hold x hx d hd
    · exact absurd (List.mem_singleton.1 hd) hne
  · intro process hprocess
    refine timely_received hnonneg htimes (by simp [hprocess]) ?_ 1
    intro d hd hne
    rw [hprocess] at hd
    exact absurd (List.mem_singleton.1 hd) hne

/-! ### A refresh -/

/-- **After a refresh**, the connections of a process that stays tell of its history. -/
theorem TrackedProcess.Timely.refresh (h : x.Timely store now) {t : Timeval}
    (hnow : now ≤ t.tv_sec) (l : List Ptr) :
    ({ x with process := store.trim t x.process, refreshed := some t.tv_sec } :
      TrackedProcess).Timely (store.sweep t l) t.tv_sec := by
  have hkept : ∀ d ∈ store.keep t x.process.connections,
      d ∈ x.process.connections ∧ (store.sweep t l).lastTime d = store.lastTime d := by
    intro d hd
    obtain ⟨hd, hst⟩ := mem_keep.1 hd
    exact ⟨hd, by rw [lastTime_sweep, if_neg fun hand => hst hand.2]⟩
  refine ⟨h.last_nonneg, h.last_le.trans hnow, ?_, ?_, ?_, ?_⟩
  · rintro r ⟨⟩
    exact le_rfl
  · intro d hd
    obtain ⟨hmem, heq⟩ := hkept d hd
    rw [heq]
    exact h.older d hmem
  · intro hfit hseen
    have ht : t.tv_sec < x.last + CONNTIMEOUT := hseen _ rfl
    obtain ⟨d, hd, heq⟩ :=
      h.newest hfit fun r hr => lt_of_le_of_lt ((h.refreshed_le r hr).trans hnow) ht
    have hkeep : d ∈ store.keep t x.process.connections := by
      refine mem_keep.2 ⟨hd, ?_⟩
      rw [stalled_iff, heq]
      omega
    exact ⟨d, hkeep, (hkept d hkeep).2.trans heq⟩
  · rintro r ⟨⟩ hge
    refine List.eq_nil_iff_forall_not_mem.2 ?_
    intro d hd
    obtain ⟨hd, hst⟩ := mem_keep.1 hd
    obtain ⟨s, hs, hle, heq⟩ := h.older d hd
    have hto := toInt_le hs
    refine hst (stalled_iff.2 ?_)
    simp only at hge
    omega

/-! ### The law -/

/-- The invariant of a run, at the second `now`. -/
structure Track.Timely (now : ℤ) (T : Track) : Prop where
  ok : T.state.Ok
  aligned : T.tracked.map TrackedProcess.process = T.state.processes
  nonneg : 0 ≤ now
  tracked : ∀ x ∈ T.tracked, x.Timely T.state.store now

theorem Track.timely_init : Track.init.Timely 0 where
  ok := ok_init
  aligned := rfl
  nonneg := le_rfl
  tracked := fun x hx => by cases hx

theorem Track.Timely.step {T T' : Track} (h : T.Timely now) {e : Event} (hnow : now ≤ e.stamp)
    (hstep : T.step host e = some T') : T'.Timely e.stamp := by
  obtain ⟨σ', hσ', rfl⟩ := Option.map_eq_some_iff.1 hstep
  obtain ⟨s, hs, hok⟩ := step_ok host h.ok e
  obtain rfl : s = σ' := Option.some_inj.1 (hs.symm.trans hσ')
  refine ⟨hok, history_processes h.ok h.aligned hσ', h.nonneg.trans hnow, ?_⟩
  cases e with
  | push header address s_port d_port lookup =>
      obtain ⟨hreceives, htimes⟩ := push_times host h.ok
        (pushed_packetOf header address s_port d_port).built hσ'
      rw [packetOf_time] at htimes
      exact timely_push h.ok h.aligned hreceives htimes h.tracked (h.nonneg.trans hnow) hnow
  | refresh t =>
      simp only [NetworkAnalyzer.step, naProcessInfoGetAll_eq h.ok, Option.map_some] at hσ'
      cases hσ'
      intro y hy
      obtain ⟨x, hx, rfl⟩ := List.mem_map.1 hy
      exact (h.tracked x (List.mem_of_mem_filter hx)).refresh hnow _

/-- **A refresh is on time exactly when it is attended.** -/
theorem Track.Timely.onTime_iff {T : Track} (h : T.Timely now) {e : Event}
    (hnow : now ≤ e.stamp) : T.OnTime e ↔ T.Attended e := by
  cases e with
  | push header address s_port d_port lookup => exact Iff.rfl
  | refresh t =>
      have hstays : ∀ x ∈ T.tracked, T.state.store.timedOut t x.process = false ↔ _ :=
        fun x hx => (h.tracked x hx).stays_iff hnow
      -- the ids of the report are those of the tracked processes that stay
      have hpids : ((T.state.store.survivors t T.state.processes).map
          (T.state.store.report t)).map NAProcInfo.pid =
            (T.tracked.filter fun x => !T.state.store.timedOut t x.process).map
              fun x => x.process.pid := by
        rw [← h.aligned, ConnStore.survivors, List.filter_map, List.map_map, List.map_map]
        rfl
      have hlaw : T.OnTime (.refresh t) ↔
          (T.tracked.filter fun x => !T.state.store.timedOut t x.process).map
              (fun x => x.process.pid) =
            (T.tracked.filter fun x => t.tv_sec < x.last + PROCESSTIMEOUT).map
              fun x => x.process.pid := by
        simp only [Track.OnTime, naProcessInfoGetAll_eq h.ok]
        rw [← hpids]
        constructor
        · intro hall
          exact hall _ _ rfl
        · rintro heq σ proc_info ⟨⟩
          exact heq
      rw [hlaw, Lists.map_filter_eq_iff]
      · refine forall₂_congr ?_
        intro x hx
        rw [decide_eq_true_iff, Bool.not_eq_true', hstays x hx]
        exact imp_congr_right fun hlt => and_iff_right hlt
      · intro x hx hst
        rw [Bool.not_eq_true', hstays x hx] at hst
        exact decide_eq_true hst.1

/-- The invariant before the events `es`, on a clock that does not go back. -/
def Track.Before (T : Track) (es : List Event) : Prop :=
  ∃ now, T.Timely now ∧ (now :: es.map Event.stamp).Pairwise (· ≤ ·)

/-- **All refreshes of a run are on time exactly when all are attended**, for every run on a
clock that starts at zero or later and never goes back: a process is reported until 50 seconds
after its last packet, and from then on no more, unless a refresh came 25 to 50 seconds after that
packet, with another before the 50 seconds were over. -/
theorem process_timeout_iff {es : List Event}
    (hclock : (0 :: es.map Event.stamp).Pairwise (· ≤ ·)) :
    ∃ T, Runs.run (Track.step host) Track.init es = some T ∧
      Runs.run (step host) NAState.init es = some T.state ∧
      (Runs.Guarded (Track.step host) Track.OnTime Track.init es ↔
        Runs.Guarded (Track.step host) Track.Attended Track.init es) := by
  obtain ⟨σ, hrun, _⟩ := run_ok host es
  obtain ⟨T, hT, hstate⟩ := Runs.run_lift (Track.step_state host) Track.init hrun
  refine ⟨T, hT, by rw [hrun, hstate], ?_⟩
  refine @Runs.guarded_congr _ _ _ Track.Before _ _ (fun T e es T' h hstep => ?_)
    (fun T e es h => ?_) _ _ ⟨0, Track.timely_init, hclock⟩
  · obtain ⟨now, htimely, hsorted⟩ := h
    obtain ⟨hfirst, hrest⟩ := List.pairwise_cons.1 hsorted
    exact ⟨e.stamp, htimely.step host (hfirst _ List.mem_cons_self) hstep, hrest⟩
  · obtain ⟨now, htimely, hsorted⟩ := h
    exact htimely.onTime_iff ((List.pairwise_cons.1 hsorted).1 _ List.mem_cons_self)

/-- One packet at second 100, then a refresh every second up to 126. -/
def quietRun : List Event :=
  .push ⟨⟨100⟩, 60, 60⟩ (.ip ⟨1⟩ ⟨2⟩) 3 4 ⟨some ⟨1, 42, none⟩, none⟩ ::
    (List.range 27).map fun i => .refresh ⟨100 + i⟩

/-- **A process that leaves early**: its connection is freed at second 125, and at 126 it counts as
one without packets, 24 seconds before its time. -/
theorem quiet_process_leaves_early :
    (0 :: quietRun.map Event.stamp).Pairwise (· ≤ ·) ∧
      ¬ Runs.Guarded (Track.step silentHost) Track.OnTime Track.init quietRun := by
  refine ⟨by decide, ?_⟩
  intro h
  have hlate := h (quietRun.take 27) (.refresh ⟨126⟩) [] _ rfl rfl _ _ rfl
  exact absurd hlate (by decide)

/-- A packet every second, with a refresh after each. -/
def busyRun : List Event :=
  [.push ⟨⟨100⟩, 60, 60⟩ (.ip ⟨1⟩ ⟨2⟩) 3 4 ⟨some ⟨1, 42, none⟩, none⟩, .refresh ⟨100⟩,
    .push ⟨⟨101⟩, 60, 60⟩ (.ip ⟨1⟩ ⟨2⟩) 3 4 ⟨some ⟨1, 42, none⟩, none⟩, .refresh ⟨101⟩]

theorem process_timeout_iff_busy :
    (0 :: busyRun.map Event.stamp).Pairwise (· ≤ ·) ∧
      (Runs.Guarded (Track.step silentHost) Track.OnTime Track.init busyRun ↔
        Runs.Guarded (Track.step silentHost) Track.Attended Track.init busyRun) := by
  have hclock : (0 :: busyRun.map Event.stamp).Pairwise (· ≤ ·) := by decide
  obtain ⟨T, _, _, hiff⟩ := process_timeout_iff silentHost hclock
  exact ⟨hclock, hiff⟩

end NetworkAnalyzer
