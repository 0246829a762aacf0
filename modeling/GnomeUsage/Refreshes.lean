/-
How often the analyzer refreshes.

The main loop asks for a report every second, but a loaded machine may skip a second or come twice
in one.  A refresh cuts the packet lists, frees connections and drops processes, and all of it is
decided by ages, so that whatever a refresh takes away the next one would not have counted.  Hence
refreshes that come in between, with no packet among them, do not show in the next report, but for
processes that have nothing to report.

* `NAProcInfo.busy` — an entry with an amount in it;
* `report_sweep`, `processTime_sweep_trim`, `survives_iff_of_busy` — what a process reports, and
  whether it does, after a refresh that came before;
* `refresh_between` — one refresh in between;
* `extra_refreshes` — **extra refreshes do not change what is reported**.
-/

import GnomeUsage.Accounts
import GnomeUsage.Timeouts

set_option relaxedAutoImplicit false
set_option autoImplicit false

namespace NetworkAnalyzer

/-- Something was sent or received. -/
def NAProcInfo.busy (info : NAProcInfo) : Bool := info.sent != 0 || info.recv != 0

section Sweep

variable {store : ConnStore} {t t' : Timeval} {l : List Ptr}

/-- What is stalled stays so. -/
theorem stalled_mono (hle : t.tv_sec ≤ t'.tv_sec) {c : Ptr} (h : store.stalled t c = true) :
    store.stalled t' c = true := by
  rw [stalled_iff] at h ⊢
  omega

theorem lastTime_sweep_of_keep {c : Ptr} (hc : store.stalled t c = false) :
    (store.sweep t l).lastTime c = store.lastTime c := by
  rw [lastTime_sweep, if_neg]
  rintro ⟨_, hstalled⟩
  rw [hc] at hstalled
  cases hstalled

/-- **The connections that a later refresh keeps.** -/
theorem keep_keep_sweep (hle : t.tv_sec ≤ t'.tv_sec) (cs : List Ptr) :
    (store.sweep t l).keep t' (store.keep t cs) = store.keep t' cs := by
  simp only [ConnStore.keep, List.filter_filter]
  refine List.filter_congr ?_
  intro c _
  cases hstalled : store.stalled t c with
  | true => simp [stalled_mono hle hstalled]
  | false =>
      simp only [ConnStore.stalled, lastTime_sweep_of_keep hstalled, Bool.not_false, Bool.and_true]

/-- **What a later query counts** of a connection that is kept. -/
theorem amount_sweep_later (hle : t.tv_sec ≤ t'.tv_sec) {c : Ptr} (hc : store.stalled t c = false)
    (out : Bool) : (store.sweep t l).amount t' out c = store.amount t' out c := by
  unfold ConnStore.amount
  rw [cell_sweep]
  by_cases hl : c ∈ l
  · rw [if_pos hl, hc, if_neg Bool.false_ne_true]
    cases store.cell c with
    | none => rfl
    | some conn =>
        have hcut : t.tv_sec - PERIOD ≤ t'.tv_sec - PERIOD := by omega
        rw [Option.map_some, Option.elim_some, Option.elim_some, connEntry_cut]
        cases out with
        | true => exact congrArg _ (Bucketed.cut_cut hcut _)
        | false => exact congrArg _ (Bucketed.cut_cut hcut _)
  · rw [if_neg hl]

/-- **What a process reports later** does not change. -/
theorem report_sweep (hle : t.tv_sec ≤ t'.tv_sec) (process : NAProcess) :
    (store.sweep t l).report t' (store.trim t process) = store.report t' process := by
  have hamount : ∀ out, (store.keep t' process.connections).map ((store.sweep t l).amount t' out) =
      (store.keep t' process.connections).map (store.amount t' out) := by
    intro out
    refine List.map_congr_left ?_
    intro c hc
    have hkept : store.stalled t' c = false := by
      simpa [ConnStore.keep] using (List.mem_filter.1 hc).2
    refine amount_sweep_later hle ?_ out
    by_contra hstalled
    rw [stalled_mono hle (by simpa using hstalled)] at hkept
    cases hkept
  simp only [ConnStore.report, ConnStore.trim, keep_keep_sweep hle, hamount]

/-- The last packet time of a process gets smaller at most. -/
theorem processTime_sweep_le (process : NAProcess) :
    (store.sweep t l).processTime (store.trim t process) ≤ store.processTime process := by
  refine processTime_le (processTime_nonneg store process) ?_
  intro c hc
  obtain ⟨hc, hkept⟩ := List.mem_filter.1 hc
  rw [lastTime_sweep_of_keep (by simpa using hkept)]
  exact lastTime_le_processTime hc

/-- **The last packet time of a process** is the same as before, or it was old and is gone. -/
theorem processTime_sweep_trim (process : NAProcess) :
    (store.sweep t l).processTime (store.trim t process) = store.processTime process ∨
      (store.sweep t l).processTime (store.trim t process) = 0 ∧
        store.processTime process ≤ t.tv_sec - CONNTIMEOUT := by
  have hle : (store.sweep t l).processTime (store.trim t process) ≤ store.processTime process :=
    processTime_sweep_le process
  have hnonneg := processTime_nonneg (store.sweep t l) (store.trim t process)
  rcases List.mem_cons.1 (processTime_spec store process).1 with hzero | hmax
  · exact .inl (by omega)
  · obtain ⟨d, hd, hlast⟩ := List.mem_map.1 hmax
    cases hstalled : store.stalled t d with
    | false =>
        have hkept : d ∈ (store.trim t process).connections :=
          List.mem_filter.2 ⟨hd, by simpa using hstalled⟩
        have hge : (store.sweep t l).lastTime d ≤ _ := lastTime_le_processTime hkept
        rw [lastTime_sweep_of_keep hstalled] at hge
        exact .inl (by omega)
    | true =>
        have hold := stalled_iff.1 hstalled
        refine .inr ⟨?_, by omega⟩
        rcases List.mem_cons.1
          (processTime_spec (store.sweep t l) (store.trim t process)).1 with hzero | hmax'
        · exact hzero
        · -- a connection that is kept has a later packet than one that is not
          obtain ⟨c, hc, hlast'⟩ := List.mem_map.1 hmax'
          have hkept : store.stalled t c = false := by simpa using (List.mem_filter.1 hc).2
          rw [lastTime_sweep_of_keep hkept] at hlast'
          rw [← Bool.not_eq_true, stalled_iff] at hkept
          omega

/-- **A process with something to report** survives both refreshes exactly when it survives the
second one alone. -/
theorem survives_iff_of_busy (hle : t.tv_sec ≤ t'.tv_sec) {process : NAProcess}
    (hbusy : (store.report t' process).busy = true) :
    store.timedOut t' process = false ↔
      store.timedOut t process = false ∧
        (store.sweep t l).timedOut t' (store.trim t process) = false := by
  obtain ⟨c, hc⟩ : ∃ c, c ∈ store.keep t' process.connections := by
    refine List.exists_mem_of_ne_nil _ ?_
    intro hnil
    simp [NAProcInfo.busy, ConnStore.report, hnil] at hbusy
  obtain ⟨hmem, hkept⟩ := List.mem_filter.1 hc
  have hrecent : t'.tv_sec - CONNTIMEOUT < store.lastTime c := by
    rw [← not_le, ← stalled_iff]
    simpa using hkept
  have hlast : store.lastTime c ≤ store.processTime process := lastTime_le_processTime hmem
  have hsame : (store.sweep t l).processTime (store.trim t process) =
      store.processTime process := by
    rcases @processTime_sweep_trim store t l process with heq | ⟨_, hold⟩
    · exact heq
    · omega
  simp only [← Bool.not_eq_true, timedOut_iff, hsame]
  omega

/-- A process that survives both refreshes survives the second one alone. -/
theorem survives_alone (hle : t.tv_sec ≤ t'.tv_sec) {process : NAProcess}
    (h : (store.sweep t l).timedOut t' (store.trim t process) = false) :
    store.timedOut t' process = false := by
  rw [← Bool.not_eq_true, timedOut_iff] at h ⊢
  rcases @processTime_sweep_trim store t l process with heq | ⟨hzero, hold⟩
  · rwa [heq] at h
  · -- second 50 is over: the process was last heard of 25 seconds ago, or its timeout fits
    have hnonneg := processTime_nonneg store process
    rw [hzero] at h
    unfold PROCESSTIMEOUT CONNTIMEOUT at *
    rw [toInt_of_range (by norm_num) (by norm_num)] at h
    intro hout
    rcases lt_or_ge (store.processTime process + 50) (2 ^ 31) with hfit | hlarge
    · rw [toInt_of_range (by omega) hfit] at hout
      omega
    · omega

end Sweep

/-! ### Reports -/

/-- **One refresh in between**: the report has the same entries with an amount, in the same order,
and no others than it would have without. -/
theorem refresh_between {σ σ₁ τ τ₁ : NAState} {t t' : Timeval}
    {proc_info proc_info₁ skipped : List NAProcInfo} (hok : σ.Ok)
    (hle : t.tv_sec ≤ t'.tv_sec) (hbetween : naProcessInfoGetAll σ t = some (σ₁, skipped))
    (h : naProcessInfoGetAll σ t' = some (τ, proc_info))
    (h₁ : naProcessInfoGetAll σ₁ t' = some (τ₁, proc_info₁)) :
    proc_info₁.Sublist proc_info ∧
      proc_info₁.filter NAProcInfo.busy = proc_info.filter NAProcInfo.busy := by
  rw [naProcessInfoGetAll_eq (naProcessInfoGetAll_ok hok hbetween)] at h₁
  rw [naProcessInfoGetAll_eq hok] at h hbetween
  cases h
  cases hbetween
  cases h₁
  generalize ownedBy (σ.store.survivors t σ.processes) = l
  -- both reports are about the processes of `σ`
  have hreports : ((σ.store.sweep t l).survivors t'
        ((σ.store.survivors t σ.processes).map (σ.store.trim t))).map
          ((σ.store.sweep t l).report t') =
      (σ.processes.filter fun process =>
        !(σ.store.sweep t l).timedOut t' (σ.store.trim t process) &&
          !σ.store.timedOut t process).map (σ.store.report t') := by
    simp only [ConnStore.survivors, List.filter_map, List.map_map, List.filter_filter]
    refine List.map_congr_left ?_
    intro process _
    exact report_sweep hle process
  rw [hreports]
  refine ⟨?_, ?_⟩
  · have hboth : (σ.processes.filter fun process =>
          !(σ.store.sweep t l).timedOut t' (σ.store.trim t process) &&
            !σ.store.timedOut t process) =
        (σ.store.survivors t' σ.processes).filter fun process =>
          !(σ.store.sweep t l).timedOut t' (σ.store.trim t process) &&
            !σ.store.timedOut t process := by
      rw [ConnStore.survivors, List.filter_filter]
      refine List.filter_congr ?_
      intro process _
      cases hout : (σ.store.sweep t l).timedOut t' (σ.store.trim t process) with
      | true => rfl
      | false => simp [survives_alone hle hout]
    rw [hboth]
    exact List.filter_sublist.map _
  · rw [ConnStore.survivors, List.filter_map, List.filter_map, List.filter_filter,
      List.filter_filter]
    congr 1
    refine List.filter_congr ?_
    intro process _
    cases hbusy : (σ.store.report t' process).busy with
    | false => simp [hbusy]
    | true =>
        have hiff := @survives_iff_of_busy σ.store t t' l hle process hbusy
        rw [Function.comp_apply, hbusy, Bool.true_and, Bool.true_and, Bool.eq_iff_iff,
          Bool.and_eq_true, Bool.not_eq_true', Bool.not_eq_true', Bool.not_eq_true', hiff, and_comm]

variable (host : Host)

/-- The same for any number of refreshes. -/
theorem refreshes_between {σ σ' τ τ' : NAState} {ts : List Timeval} {t : Timeval}
    {proc_info proc_info' : List NAProcInfo} (hok : σ.Ok)
    (hts : ∀ s ∈ ts, s.tv_sec ≤ t.tv_sec)
    (hrun : Runs.run (step host) σ (ts.map Event.refresh) = some σ')
    (h : naProcessInfoGetAll σ t = some (τ, proc_info))
    (h' : naProcessInfoGetAll σ' t = some (τ', proc_info')) :
    proc_info'.Sublist proc_info ∧
      proc_info'.filter NAProcInfo.busy = proc_info.filter NAProcInfo.busy := by
  induction ts generalizing σ τ proc_info with
  | nil =>
      cases hrun
      cases h.symm.trans h'
      exact ⟨List.Sublist.refl _, rfl⟩
  | cons s ts ih =>
      obtain ⟨hle, hts⟩ := List.forall_mem_cons.1 hts
      obtain ⟨σ₁, hstep, hrest⟩ := Option.bind_eq_some_iff.1 hrun
      obtain ⟨⟨_, skipped⟩, hbetween, rfl⟩ := Option.map_eq_some_iff.1 hstep
      have hok₁ := naProcessInfoGetAll_ok hok hbetween
      obtain ⟨τ₁, proc_info₁, h₁⟩ := naProcessInfoGetAll_defined hok₁ t
      obtain ⟨hsub, hsame⟩ := refresh_between hok hle hbetween h h₁
      obtain ⟨hsub', hsame'⟩ := ih hok₁ hts hrest h₁
      exact ⟨hsub'.trans hsub, hsame'.trans hsame⟩

/-- **Extra refreshes do not change what is reported.**  After any packets and refreshes, in any
order of times, let there be more refreshes, none of them after `t` and no packets among them: then
the report at `t` has the same entries with an amount as it would have without them, in the same
order, and no entries that it would not have. -/
theorem extra_refreshes (es : List Event) {ts : List Timeval} {t : Timeval}
    (hts : ∀ s ∈ ts, s.tv_sec ≤ t.tv_sec) :
    ∃ σ σ' τ τ' proc_info proc_info', Runs.run (step host) NAState.init es = some σ ∧
      Runs.run (step host) NAState.init (es ++ ts.map Event.refresh) = some σ' ∧
      naProcessInfoGetAll σ t = some (τ, proc_info) ∧
      naProcessInfoGetAll σ' t = some (τ', proc_info') ∧ proc_info'.Sublist proc_info ∧
      proc_info'.filter NAProcInfo.busy = proc_info.filter NAProcInfo.busy := by
  obtain ⟨σ, hrun, hok⟩ := run_ok host es
  obtain ⟨σ', hrun', hok'⟩ := Runs.run_total (fun s e hs => step_ok host hs e) hok
    (ts.map Event.refresh)
  obtain ⟨τ, proc_info, h⟩ := naProcessInfoGetAll_defined hok t
  obtain ⟨τ', proc_info', h'⟩ := naProcessInfoGetAll_defined hok' t
  have hsame := refreshes_between host hok hts hrun' h h'
  refine ⟨σ, σ', τ, τ', proc_info, proc_info', hrun, ?_, h, h', hsame⟩
  rw [Runs.run_append, hrun]
  exact hrun'

/-- Three refreshes behind `pairRun`, two of them in one second. -/
theorem extra_refreshes_pairRun :
    ∃ σ σ' τ τ' proc_info proc_info',
      Runs.run (step pairHost) NAState.init pairRun = some σ ∧
      Runs.run (step pairHost) NAState.init
        (pairRun ++ [⟨31⟩, ⟨31⟩, ⟨33⟩].map Event.refresh) = some σ' ∧
      naProcessInfoGetAll σ ⟨34⟩ = some (τ, proc_info) ∧
      naProcessInfoGetAll σ' ⟨34⟩ = some (τ', proc_info') ∧ proc_info'.Sublist proc_info ∧
      proc_info'.filter NAProcInfo.busy = proc_info.filter NAProcInfo.busy :=
  extra_refreshes pairHost pairRun (by decide)

end NetworkAnalyzer
