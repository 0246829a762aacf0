/-
The loads of the system monitor (`usage-system-monitor.vala`).

Each load is a quotient of two differences: what was used since the last tick, and what time has
gone by since then.  The first tick has no tick before it, and shows the load since the machine was
started.  So a load is a share of the time between two ticks, and the loads of many ticks, each
times the time it is about, are together what was used in all of them, up to their roundings.

* `Ratio.value`, `Ratio.double` — the exact quotient, and the double that is kept;
* `Ratio.close_double` — the one is the other up to four roundings;
* `Counters`, `Counters.Advance` — what the kernel counts, and how that may change;
* `SystemMonitor.tick_load`, `SystemMonitor.tick_entry` — **one tick**, for the machine and for a
  process;
* `SystemMonitor.stepWork` — a tick, with the work it shows;
* `loads_add_up` — **the loads of many ticks add up** to the CPU time that was used.
-/

import GnomeUsage.Doubles
import GnomeUsage.SystemMonitor
import GnomeUsage.Unwinding
import Mathlib.Algebra.Group.Prod
import Mathlib.Algebra.Order.Field.Rat
import Mathlib.Data.List.Chain
import Mathlib.Data.List.Induction
import Mathlib.Tactic.FieldSimp

set_option relaxedAutoImplicit false
set_option autoImplicit false

namespace Usage

open FloatRounding (Close unit unit_pos unit_le_one)

/-! ### Quotients -/

/-- The number `num / den`. -/
def Ratio.value (ratio : Ratio) : ℚ := ratio.num.toNat / ratio.den.toNat

/-- `(double) num / den`, as it is computed: both words are converted. -/
def Ratio.double (ratio : Ratio) : ℚ :=
  Usage.double (Usage.double ratio.num.toNat / Usage.double ratio.den.toNat)

theorem Ratio.value_nonneg (ratio : Ratio) : 0 ≤ ratio.value :=
  div_nonneg (Nat.cast_nonneg _) (Nat.cast_nonneg _)

theorem Ratio.double_nonneg (ratio : Ratio) : 0 ≤ ratio.double :=
  Usage.double_nonneg (div_nonneg (Usage.double_nonneg (Nat.cast_nonneg _))
    (Usage.double_nonneg (Nat.cast_nonneg _)))

/-- A share is at most 1, also as it is computed. -/
theorem Ratio.double_le_one {ratio : Ratio} (h : ratio.num.toNat ≤ ratio.den.toNat) :
    ratio.double ≤ 1 := by
  have hnum : 0 ≤ Usage.double ratio.num.toNat := Usage.double_nonneg (Nat.cast_nonneg _)
  have hle : Usage.double ratio.num.toNat ≤ Usage.double ratio.den.toNat :=
    double_mono (Nat.cast_nonneg _) (by exact_mod_cast h)
  exact Usage.double_le_one (div_nonneg hnum (hnum.trans hle))
    (div_le_one_of_le₀ hle (hnum.trans hle))

/-- What the roundings of a load may take away: those of the two words and of the quotient. -/
def loadLo : ℚ := (1 - unit 53) / (1 + unit 53) * (1 - unit 53)

/-- What they may add. -/
def loadHi : ℚ := (1 + unit 53) / (1 - unit 53) * (1 + unit 53)

/-- **A load is right up to its roundings.** -/
theorem Ratio.close_double (ratio : Ratio) : Close loadLo loadHi ratio.value ratio.double := by
  have hlo : (0 : ℚ) < 1 - unit 53 := by
    norm_num [unit]
  have hhi : (0 : ℚ) < 1 + unit 53 := add_pos one_pos (unit_pos 53)
  have hnum := Usage.close_double (x := ratio.num.toNat) (Nat.cast_nonneg _)
  have hden := Usage.close_double (x := ratio.den.toNat) (Nat.cast_nonneg _)
  have hquotient := hnum.div hden hlo.le (Nat.cast_nonneg _) hlo (Nat.cast_nonneg _)
  exact hquotient.rnd (p := 53) (div_nonneg hlo.le hhi.le) ratio.value_nonneg

/-! ### The counters -/

/-- `cpu_data.user + cpu_data.nice + cpu_data.sys`. -/
def GTopCpu.used (cpu : GTopCpu) : BitVec 64 := cpu.user + cpu.nice + cpu.sys

/-- What the machine has used, and what time has gone by, since it was started. -/
structure Counters where
  used : ℕ
  total : ℕ
  deriving DecidableEq

/-- From one tick to the next time goes by, and no more of it is used. -/
structure Counters.Advance (a b : Counters) : Prop where
  used_le : a.used ≤ b.used
  total_lt : a.total < b.total
  share : b.used - a.used ≤ b.total - a.total

instance (a b : Counters) : Decidable (a.Advance b) :=
  decidable_of_iff (a.used ≤ b.used ∧ a.total < b.total ∧ b.used - a.used ≤ b.total - a.total)
    ⟨fun ⟨h, h', h''⟩ => ⟨h, h', h''⟩, fun ⟨h, h', h''⟩ => ⟨h, h', h''⟩⟩

def SystemTick.counters (t : SystemTick) : Counters := ⟨t.cpu.used.toNat, t.cpu.total.toNat⟩

/-- The counters of the last tick. -/
def SystemMonitor.counters (monitor : SystemMonitor) : Counters :=
  ⟨monitor.cpu_last_used.toNat, monitor.cpu_last_total.toNat⟩

/-- The CPU time of a process. -/
def SystemTick.rtime (pid : Pid) (t : SystemTick) : ℕ := (t.lastRtime pid).elim 0 BitVec.toNat

/-! ### One tick -/

/-- A quotient of differences, times the time that has gone by. -/
theorem value_mul_elapsed {a b : BitVec 64} {c d : ℕ} (hb : b.toNat = d - c) (hlt : c < d) :
    (Ratio.mk a b).value * (d - c) = a.toNat := by
  have hne : (d : ℚ) - c ≠ 0 := by
    have hlt : (c : ℚ) < d := by exact_mod_cast hlt
    exact (sub_pos.2 hlt).ne'
  rw [Ratio.value, hb, Nat.cast_sub hlt.le]
  field_simp

/-- What a tick keeps of the machine. -/
theorem SystemMonitor.of_tick {monitor monitor' : SystemMonitor} {t : SystemTick}
    (h : monitor.tick t = some monitor') : ∃ table, monitor' = monitor.read t table := by
  simp only [SystemMonitor.tick, Option.bind_eq_bind, Option.bind_eq_some_iff] at h
  obtain ⟨_, _, _, _, table, _, heq⟩ := h
  exact ⟨table, (Option.some_inj.1 heq).symm⟩

theorem SystemMonitor.counters_of_tick {monitor monitor' : SystemMonitor} {t : SystemTick}
    (h : monitor.tick t = some monitor') : monitor'.counters = t.counters := by
  obtain ⟨table, rfl⟩ := SystemMonitor.of_tick h
  rfl

/-- **The load of the machine**: it is a share, and times the time that has gone by it is what was
used. -/
theorem SystemMonitor.tick_load {monitor monitor' : SystemMonitor} {t : SystemTick}
    (h : monitor.tick t = some monitor') (hadvance : monitor.counters.Advance t.counters) :
    monitor'.cpu_load.value * (t.counters.total - monitor.counters.total) =
        t.counters.used - monitor.counters.used ∧
      0 ≤ monitor'.cpu_load.value ∧ monitor'.cpu_load.value ≤ 1 := by
  obtain ⟨hused, htotal, hshare⟩ := hadvance
  obtain ⟨table, rfl⟩ := SystemMonitor.of_tick h
  have hnum : (t.cpu.used - monitor.cpu_last_used).toNat =
      t.counters.used - monitor.counters.used := BitVec.toNat_sub_of_le hused
  have hden : (t.cpu.total - monitor.cpu_last_total).toNat =
      t.counters.total - monitor.counters.total := BitVec.toNat_sub_of_le htotal.le
  have hload : (monitor.read t table).cpu_load =
      ⟨t.cpu.used - monitor.cpu_last_used, t.cpu.total - monitor.cpu_last_total⟩ := rfl
  refine ⟨?_, ?_, ?_⟩
  · rw [hload, value_mul_elapsed hden htotal, hnum, Nat.cast_sub hused]
  · exact Ratio.value_nonneg _
  · rw [hload, Ratio.value, hnum, hden]
    exact div_le_one_of_le₀ (by exact_mod_cast hshare) (Nat.cast_nonneg _)

/-- **The load of a process** that is listed once and has an entry: times the time that has gone by
it is what the process has used since its CPU time was read last. -/
theorem SystemMonitor.tick_entry {monitor monitor' : SystemMonitor} {t : SystemTick}
    (hok : monitor.process_table.Ok Process.pid) (h : monitor.tick t = some monitor')
    (htotal : monitor.counters.total < t.counters.total) {pid : Pid} {process : Process}
    (hfind : monitor.process_table.find pid = some process) {listed : ListedProcess}
    (hturns : turns pid t.proclist = [listed])
    (hrtime : process.cpu_last_used.toNat ≤ t.rtime pid) :
    ∃ process', monitor'.process_table.find pid = some process' ∧
      process'.cpu_last_used.toNat = t.rtime pid ∧
      process'.cpu_load.value * (t.counters.total - monitor.counters.total) =
        t.rtime pid - process.cpu_last_used.toNat := by
  obtain ⟨_, htick, _, hticked⟩ := SystemMonitor.tick_spec hok t
  obtain rfl := Option.some_inj.1 (h.symm.trans htick)
  have hread : t.rtime pid = listed.rtime.toNat := by
    rw [SystemTick.rtime, SystemTick.lastRtime, hturns]
    rfl
  have hden : (t.cpu.total - monitor.cpu_last_total).toNat =
      t.counters.total - monitor.counters.total := BitVec.toNat_sub_of_le htotal.le
  rw [hread] at hrtime
  have hnum : (listed.rtime - process.cpu_last_used).toNat =
      listed.rtime.toNat - process.cpu_last_used.toNat := BitVec.toNat_sub_of_le hrtime
  refine ⟨process.clearAlive.updated (t.cpu.total - monitor.cpu_last_total) t.mem.total listed,
    ?_, hread.symm, ?_⟩
  · rw [hticked.find_eq, SystemTick.shown, hturns, hfind]
    rfl
  · have hload : (process.clearAlive.updated (t.cpu.total - monitor.cpu_last_total) t.mem.total
        listed).cpu_load =
      ⟨listed.rtime - process.cpu_last_used, t.cpu.total - monitor.cpu_last_total⟩ := rfl
    rw [hload, value_mul_elapsed hden htotal, hnum, Nat.cast_sub hrtime, hread]

/-! ### Many ticks -/

/-- The load that is shown for a pid, or zero. -/
def SystemMonitor.loadOf (monitor : SystemMonitor) (pid : Pid) : ℚ :=
  (monitor.process_table.find pid).elim 0 fun process => process.cpu_load.double

/-- A tick, with the work it shows, of the machine and of a process: their loads times the time that
has gone by. -/
def SystemMonitor.stepWork (pid : Pid) (monitor : SystemMonitor) (t : SystemTick) :
    Option (SystemMonitor × Option (ℚ × ℚ)) :=
  (monitor.tick t).map fun monitor' =>
    (monitor', some
      (monitor'.cpu_load.double * (t.counters.total - monitor.counters.total),
        monitor'.loadOf pid * (t.counters.total - monitor.counters.total)))

/-- What was used, of the machine and of a process, and what is shown of it. -/
def CloseWork (used shown : ℚ × ℚ) : Prop :=
  Close loadLo loadHi used.1 shown.1 ∧ Close loadLo loadHi used.2 shown.2

theorem CloseWork.add {used shown used' shown' : ℚ × ℚ} (h : CloseWork used shown)
    (h' : CloseWork used' shown') : CloseWork (used + used') (shown + shown') :=
  ⟨h.1.add h'.1, h.2.add h'.2⟩

/-- What the machine and the process had used at the last tick. -/
def SystemMonitor.usedBy (pid : Pid) (monitor : SystemMonitor) : ℚ × ℚ :=
  (monitor.counters.used, (monitor.process_table.find pid).elim 0 fun process =>
    (process.cpu_last_used.toNat : ℚ))

/-- **What the ticks to come must keep to**: the counters advance, and the process is listed once by
each, with a CPU time that does not get less. -/
structure SystemMonitor.Followed (pid : Pid) (monitor : SystemMonitor) (ticks : List SystemTick) :
    Prop where
  ok : monitor.process_table.Ok Process.pid
  advance : (monitor.counters :: ticks.map SystemTick.counters).IsChain Counters.Advance
  listed : ∀ t ∈ ticks, ∃ listed, turns pid t.proclist = [listed]
  entry : ∃ process, monitor.process_table.find pid = some process ∧
    (process.cpu_last_used.toNat :: ticks.map (SystemTick.rtime pid)).IsChain (· ≤ ·)

/-- **One tick pays** for what has been used. -/
theorem SystemMonitor.Followed.step {pid : Pid} {monitor : SystemMonitor} {t : SystemTick}
    {ticks : List SystemTick} (h : monitor.Followed pid (t :: ticks)) :
    ∃ monitor' work, monitor.stepWork pid t = some (monitor', some work) ∧
      CloseWork (monitor'.usedBy pid - monitor.usedBy pid) work ∧
      monitor'.Followed pid ticks := by
  obtain ⟨monitor', htick, _, hticked⟩ := SystemMonitor.tick_spec h.ok t
  obtain ⟨process, hfind, hrtimes⟩ := h.entry
  obtain ⟨listed, hturns⟩ := h.listed t List.mem_cons_self
  have hcounters := SystemMonitor.counters_of_tick htick
  have hadvance := h.advance
  rw [List.map_cons, List.isChain_cons_cons] at hadvance hrtimes
  obtain ⟨process', hfind', hused', hentry⟩ := SystemMonitor.tick_entry h.ok htick
    hadvance.1.total_lt hfind hturns hrtimes.1
  have hload := (SystemMonitor.tick_load htick hadvance.1).1
  have helapsed : (0 : ℚ) ≤ t.counters.total - monitor.counters.total :=
    sub_nonneg.2 (by exact_mod_cast hadvance.1.total_lt.le)
  refine ⟨monitor', _, by rw [SystemMonitor.stepWork, htick, Option.map_some], ?_, ⟨hticked.ok, ?_,
    fun t ht => h.listed t (List.mem_cons_of_mem _ ht), process', hfind', ?_⟩⟩
  · -- what was used is the exact load times the time that has gone by
    have hused : monitor'.usedBy pid - monitor.usedBy pid =
        (monitor'.cpu_load.value * (t.counters.total - monitor.counters.total),
          process'.cpu_load.value * (t.counters.total - monitor.counters.total)) := by
      rw [hload, hentry, SystemMonitor.usedBy, SystemMonitor.usedBy, hfind, hfind', hcounters,
        Option.elim_some, Option.elim_some, hused']
      rfl
    rw [hused, SystemMonitor.loadOf, hfind', Option.elim_some]
    exact ⟨(monitor'.cpu_load.close_double).mul_const helapsed,
      (process'.cpu_load.close_double).mul_const helapsed⟩
  · rw [hcounters]
    exact hadvance.2
  · rw [hused']
    exact hrtimes.2

theorem SystemMonitor.stepWork_fst (pid : Pid) (monitor : SystemMonitor) (t : SystemTick) :
    (monitor.stepWork pid t).map Prod.fst = monitor.tick t := by
  rw [SystemMonitor.stepWork, Option.map_map]
  exact Option.map_id_apply

/-- **After a tick that lists a process** its entry has the CPU time that was read. -/
theorem entry_of_run {ticks : List SystemTick} {t : SystemTick} {monitor : SystemMonitor}
    (hrun : Runs.run SystemMonitor.tick SystemMonitor.init (ticks ++ [t]) = some monitor)
    {pid : Pid} (hpid : pid ∈ t.pids) :
    monitor.process_table.Ok Process.pid ∧ monitor.counters = t.counters ∧
      ∃ process, monitor.process_table.find pid = some process ∧
        process.cpu_last_used.toNat = t.rtime pid := by
  obtain ⟨middle, hmiddle, hok⟩ := run_tick_ok ticks
  obtain ⟨monitor', htick, _, hticked⟩ := SystemMonitor.tick_spec hok t
  rw [Runs.run_concat, hmiddle, Option.bind_some, htick] at hrun
  obtain rfl := Option.some_inj.1 hrun
  obtain ⟨process, hprocess, hlast⟩ := SystemTick.shown_of_mem hpid
    (t.cpu.total - middle.cpu_last_total) (middle.process_table.find pid)
  refine ⟨hticked.ok, SystemMonitor.counters_of_tick htick, process, ?_, ?_⟩
  · rw [hticked.find_eq, hprocess]
  · rw [SystemTick.rtime, hlast, Option.elim_some]

theorem mem_pids_of_turns {t : SystemTick} {pid : Pid} {listed : ListedProcess}
    (h : turns pid t.proclist = [listed]) : pid ∈ t.pids := by
  by_contra hmem
  rw [turns_eq_nil_iff.2 hmem] at h
  cases h

/-- What was used, at the last tick of a run. -/
theorem usedBy_of_run {ticks : List SystemTick} {t : SystemTick} {monitor : SystemMonitor}
    (hrun : Runs.run SystemMonitor.tick SystemMonitor.init (ticks ++ [t]) = some monitor)
    {pid : Pid} (hpid : pid ∈ t.pids) :
    monitor.usedBy pid = ((t.counters.used : ℚ), (t.rtime pid : ℚ)) := by
  obtain ⟨_, hcounters, process, hfind, hused⟩ := entry_of_run hrun hpid
  rw [SystemMonitor.usedBy, hcounters, hfind, Option.elim_some, hused]

/-- **The loads of many ticks add up.**  After any ticks and a first one that lists a process, let
there be more that all list it once: then the loads of the machine, each times the time that has
gone by, are together what the machine has used since the first tick, and those of the process what
the process has used, up to the roundings of one load. -/
theorem loads_add_up (pid : Pid) (before : List SystemTick) {first last : SystemTick}
    {ticks : List SystemTick}
    (hcounters : (⟨0, 0⟩ :: (before ++ first :: ticks).map SystemTick.counters).IsChain
      Counters.Advance)
    (hlisted : ∀ t ∈ first :: ticks, ∃ listed, turns pid t.proclist = [listed])
    (hrtime : ((first :: ticks).map (SystemTick.rtime pid)).IsChain (· ≤ ·))
    (hlast : (first :: ticks).getLast? = some last) :
    ∃ monitor monitor' works,
      Runs.run SystemMonitor.tick SystemMonitor.init (before ++ [first]) = some monitor ∧
      Runs.collect (SystemMonitor.stepWork pid) monitor ticks = some (monitor', works) ∧
      CloseWork ((last.counters.used - first.counters.used : ℚ),
        (last.rtime pid - first.rtime pid : ℚ)) works.sum := by
  obtain ⟨monitor, hrun, _⟩ := run_tick_ok (before ++ [first])
  obtain ⟨listed, hturns⟩ := hlisted first List.mem_cons_self
  have hfirst := mem_pids_of_turns hturns
  obtain ⟨hok, hcount, process, hfind, hused⟩ := entry_of_run hrun hfirst
  have hfollowed : monitor.Followed pid ticks := by
    refine ⟨hok, ?_, fun t ht => hlisted t (List.mem_cons_of_mem _ ht), process, hfind, ?_⟩
    · rw [List.map_append, ← List.cons_append] at hcounters
      rw [hcount]
      exact hcounters.right_of_append
    · rw [hused]
      exact hrtime
  obtain ⟨monitor', works, hcollect, hsum, _⟩ :=
    Runs.collect_sum (R := CloseWork) ⟨Close.zero _ _, Close.zero _ _⟩ CloseWork.add
      SystemMonitor.Followed.step hfollowed
  refine ⟨monitor, monitor', works, hrun, hcollect, ?_⟩
  -- the last state is the one after the last tick
  obtain ⟨pre, hsplit⟩ := List.getLast?_eq_some_iff.1 hlast
  have hrun' : Runs.run SystemMonitor.tick SystemMonitor.init ((before ++ pre) ++ [last]) =
      some monitor' := by
    have hsteps : (fun monitor t => (SystemMonitor.stepWork pid monitor t).map Prod.fst) =
        SystemMonitor.tick := by
      funext monitor t
      exact monitor.stepWork_fst pid t
    have hticks := Runs.collect_run (SystemMonitor.stepWork pid) monitor ticks
    rw [hsteps, hcollect, Option.map_some] at hticks
    rw [List.append_assoc, ← hsplit, ← List.singleton_append, ← List.append_assoc,
      Runs.run_append, hrun, Option.bind_some, ← hticks]
  have hmem : last ∈ first :: ticks := by
    rw [hsplit]
    exact List.mem_append_right _ List.mem_cons_self
  obtain ⟨listed', hturns'⟩ := hlisted last hmem
  rw [usedBy_of_run hrun' (mem_pids_of_turns hturns'), usedBy_of_run hrun hfirst] at hsum
  exact hsum

/-- A tick that lists the process 7. -/
def tickOf (used total rtime : BitVec 64) : SystemTick :=
  ⟨⟨total, used, 0, 0⟩, ⟨8, 4, 1, 1⟩, ⟨2, 1⟩, [⟨7, "usage", rtime, fun _ => ⟨3, 1⟩⟩]⟩

theorem loads_add_up_tickOf :
    ∃ monitor monitor' works,
      Runs.run SystemMonitor.tick SystemMonitor.init [tickOf 40 100 10] = some monitor ∧
      Runs.collect (SystemMonitor.stepWork 7) monitor [tickOf 90 200 30, tickOf 90 300 30] =
        some (monitor', works) ∧
      CloseWork (((90 : ℕ) - (40 : ℕ) : ℚ), ((30 : ℕ) - (10 : ℕ) : ℚ)) works.sum := by
  refine @loads_add_up 7 [] (tickOf 40 100 10) (tickOf 90 300 30) _ (by decide) ?_ (by decide) rfl
  intro t ht
  simp only [List.mem_cons, List.not_mem_nil, or_false] at ht
  rcases ht with rfl | rfl | rfl <;> exact ⟨_, rfl⟩

end Usage
