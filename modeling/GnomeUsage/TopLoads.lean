/-
The processes that the views show, by what they have used
(`usage-system-monitor.vala`, `usage-cpu-view.vala`, `usage-memory-view.vala`).

The views sort the processes by the thousandfold of their loads, cut off to an `int`, and a load is
a quotient of two words, computed in doubles.  All loads of one tick have the same denominator, but
for those of processes that were not there before, which are zero; so the order is that of what
the processes have used, up to thousandths.

* `Rounding.double` — the conversion as it is computed;
* `Loaded` — a load of a process that has used so much;
* `topSix_of_loaded` — **the six rows of such loads**;
* `SystemTick.usedSince`, `SystemTick.memorySince` — what a process has used, from what is listed;
* `loaded_of_tick` — the entries after a tick;
* `top_six_used` — **the views show the six processes that have used the most**, after any ticks.
-/

import GnomeUsage.Loads
import GnomeUsage.TopProcesses
import GnomeUsage.Views

set_option relaxedAutoImplicit false
set_option autoImplicit false

namespace Usage

open DifferenceOrder (Before)
open FloatRounding (rnd_zero)

/-! ### Loads in doubles -/

theorem thousandfold_nonneg (load : Ratio) : 0 ≤ double (1000 * load.double) :=
  double_nonneg (mul_nonneg (by positivity) load.double_nonneg)

/-- `(int) (1000 * load)`, as it is computed. -/
def Rounding.double : Rounding where
  sortId := fun load =>
    if load.den ≠ 0 then castInt (Usage.double (1000 * load.double)) else none
  range := by
    intro load sort_id h
    obtain ⟨_, h⟩ := Option.ite_none_right_eq_some.1 h
    rw [castInt, if_pos (thousandfold_nonneg load)] at h
    obtain ⟨hint, h⟩ := Option.ite_none_right_eq_some.1 h
    obtain rfl := Option.some_inj.1 h
    exact ⟨Int.floor_nonneg.2 (thousandfold_nonneg load), Int.le_sub_one_of_lt hint.2⟩

/-- The thousandths of a load, cut off. -/
def thousandths (total usage : BitVec 64) : ℤ := ⌊double (1000 * (Ratio.mk usage total).double)⌋

/-- **More usage is not a smaller load.** -/
theorem thousandths_mono {total usage usage' : BitVec 64} (h : usage.toNat ≤ usage'.toNat) :
    thousandths total usage ≤ thousandths total usage' := by
  have hnonneg : 0 ≤ double usage.toNat := double_nonneg (Nat.cast_nonneg _)
  have hnum : double usage.toNat ≤ double usage'.toNat :=
    double_mono (Nat.cast_nonneg _) (by exact_mod_cast h)
  have hden : 0 ≤ double total.toNat := double_nonneg (Nat.cast_nonneg _)
  have hload : (Ratio.mk usage total).double ≤ (Ratio.mk usage' total).double :=
    double_mono (div_nonneg hnonneg hden) (div_le_div_of_nonneg_right hnum hden)
  exact Int.floor_le_floor (double_mono (mul_nonneg (by positivity) (Ratio.double_nonneg _))
    (mul_le_mul_of_nonneg_left hload (by positivity)))

/-- **The id of a share** is its thousandths. -/
theorem sortId_share {total usage : BitVec 64} (htotal : total ≠ 0)
    (h : usage.toNat ≤ total.toNat) :
    Rounding.double.sortId ⟨usage, total⟩ = some (thousandths total usage) := by
  have hle : double (1000 * (Ratio.mk usage total).double) ≤ (1000 : ℕ) := by
    have hone := @Ratio.double_le_one ⟨usage, total⟩ h
    refine double_le_natCast (by decide) (mul_nonneg (by positivity) (Ratio.double_nonneg _)) ?_
    push_cast
    linarith
  have hrange : (1000 : ℤ) < 2 ^ 31 := by decide
  have hcast : castInt (double (1000 * (Ratio.mk usage total).double)) =
      some (thousandths total usage) :=
    (castInt_of_mem hrange (thousandfold_nonneg _) (by exact_mod_cast hle)).1
  rw [← hcast]
  exact if_pos htotal

/-- **The load of a process** that has used so much of a total: a process that is new has none. -/
inductive Loaded (total : BitVec 64) : BitVec 64 → Ratio → Prop where
  | new : Loaded total 0 .zero
  | used {usage : BitVec 64} (h : usage.toNat ≤ total.toNat) : Loaded total usage ⟨usage, total⟩

theorem Loaded.sortId {total usage : BitVec 64} {load : Ratio} (htotal : total ≠ 0)
    (h : Loaded total usage load) :
    Rounding.double.sortId load = some (thousandths total usage) := by
  cases h with
  | new =>
      rw [Ratio.zero, sortId_share (by decide) (by decide)]
      simp [thousandths, Ratio.double, double]
  | used h => exact sortId_share htotal h

/-- **The double of a load**: the quotient as it is computed. -/
theorem Loaded.double {total usage : BitVec 64} {load : Ratio} (h : Loaded total usage load) :
    load.double = Usage.double (Usage.double usage.toNat / Usage.double total.toNat) := by
  cases h with
  | new =>
      have hzero : Usage.double 0 = 0 := rnd_zero 53
      simp [Ratio.double, Ratio.zero, hzero]
  | used h => rfl

/-! ### The six rows -/

/-- **The order of two processes**: the first has used at least as much, or both loads have the same
thousandths. -/
def Busier (total usage usage' : BitVec 64) : Prop :=
  usage'.toNat ≤ usage.toNat ∨ thousandths total usage = thousandths total usage'

theorem busier_of_thousandths {total usage usage' : BitVec 64}
    (h : thousandths total usage' ≤ thousandths total usage) : Busier total usage usage' := by
  by_cases hle : usage'.toNat ≤ usage.toNat
  · exact .inl hle
  · exact .inr (le_antisymm (thousandths_mono (by omega)) h)

/-- **Rows of six processes**, with the quotients of what they have used, as computed.  None of them
has used less than another one below it, or one that is not shown, up to thousandths. -/
def TopSix (total : BitVec 64) (usage : Pid → BitVec 64) (pids : List Pid)
    (rows : List ElementRow) : Prop :=
  ∃ shown omitted,
    (shown ++ omitted).Perm pids ∧ shown.length = MAX_NUM_ELEMENTS ∧
    List.Forall₂ (fun row pid => row.is_headline = false ∧
      row.load.double = double (double (usage pid).toNat / double total.toNat)) rows shown ∧
    shown.Pairwise (fun pid pid' => Busier total (usage pid) (usage pid')) ∧
    ∀ pid ∈ shown, ∀ pid' ∈ omitted, Busier total (usage pid) (usage pid')

theorem TopSix.filter_eq {total : BitVec 64} {usage : Pid → BitVec 64} {pids : List Pid}
    {rows : List ElementRow} (h : TopSix total usage pids rows) :
    rows.filter (fun row => !row.is_headline) = rows := by
  obtain ⟨shown, _, _, _, hrows, _, _⟩ := h
  rw [List.filter_eq_self]
  clear * - hrows
  induction hrows with
  | nil => exact fun _ hmem => absurd hmem List.not_mem_nil
  | cons hrow _ ih => exact List.forall_mem_cons.2 ⟨by rw [hrow.1]; rfl, ih⟩

/-- **The six rows of some loads.** -/
theorem topSix_of_loaded {load : Process → Ratio} {total : BitVec 64} {usage : Pid → BitVec 64}
    {processes : List Process} {pids : List Pid} (htotal : total ≠ 0)
    (hpids : (processes.map Process.pid).Perm pids)
    (hload : ∀ process ∈ processes, Loaded total (usage process.pid) (load process))
    (hsix : MAX_NUM_ELEMENTS ≤ processes.length) :
    ∃ rows, processRows .double load processes = some rows ∧
      TopSix total usage pids rows := by
  have hrow : ∀ process ∈ processes, elementRow .double load process =
      some ⟨process.cmdline, load process, false, thousandths total (usage process.pid)⟩ := by
    intro process hprocess
    rw [elementRow, (hload process hprocess).sortId htotal, Option.map_some]
  have hall : processes.mapM (elementRow .double load) = some (processes.map fun process =>
      ⟨process.cmdline, load process, false, thousandths total (usage process.pid)⟩) := by
    rw [Lists.mapM_eq_some_iff, List.forall₂_map_right_iff, List.forall₂_same]
    exact hrow
  obtain ⟨rows, hrows, htop, _⟩ := processRows_of_le hall hsix
  obtain ⟨rest, hperm, hrest⟩ := htop.top
  -- the processes behind the rows
  obtain ⟨behind, hbehind, hprocesses⟩ :=
    (congrFun (congrFun (List.eq_map_comp_perm _) (rows ++ rest)) processes).mpr hperm.symm
  obtain ⟨shown, omitted, rfl, rfl, rfl⟩ := List.append_eq_map_iff.1 hbehind
  refine ⟨_, hrows, shown.map Process.pid, omitted.map Process.pid, ?_, ?_, ?_, ?_, ?_⟩
  · rw [← List.map_append]
    exact (hprocesses.map _).trans hpids
  · have hlen := htop.length_eq
    rw [List.length_map, List.length_map] at hlen
    rw [List.length_map]
    omega
  · rw [List.forall₂_map_left_iff, List.forall₂_map_right_iff, List.forall₂_same]
    intro process hprocess
    exact ⟨rfl, (hload process (hprocesses.mem_iff.1 (List.mem_append_left _ hprocess))).double⟩
  · rw [List.pairwise_map]
    exact (List.pairwise_map.1 htop.sorted).imp busier_of_thousandths
  · intro pid hpid pid' hpid'
    obtain ⟨process, hprocess, rfl⟩ := List.mem_map.1 hpid
    obtain ⟨process', hprocess', rfl⟩ := List.mem_map.1 hpid'
    exact busier_of_thousandths
      (hrest _ (List.mem_map_of_mem hprocess) _ (List.mem_map_of_mem hprocess'))

/-! ### What is listed of a process -/

/-- What a process has used since it was listed by the tick before, if it was. -/
def SystemTick.usedSince (last t : SystemTick) (pid : Pid) : BitVec 64 :=
  match last.lastRtime pid, t.lastRtime pid with
  | some before, some now => now - before
  | _, _ => 0

/-- The memory of a process that was listed by the tick before, too. -/
def SystemTick.memorySince (last t : SystemTick) (pid : Pid) : BitVec 64 :=
  match last.lastRtime pid, (turns pid t.proclist).getLast? with
  | some _, some listed => (listed.procMem pid).resident - (listed.procMem pid).share
  | _, _ => 0

/-- **The table has the times that were read last.** -/
theorem last_of_run {ticks : List SystemTick} {last : SystemTick} {monitor : SystemMonitor}
    (hrun : Runs.run SystemMonitor.tick SystemMonitor.init (ticks ++ [last]) = some monitor) :
    monitor.cpu_last_total = last.cpu.total ∧ ∀ pid,
      (monitor.process_table.find pid).map Process.cpu_last_used = last.lastRtime pid := by
  obtain ⟨middle, hmiddle, hok⟩ := run_tick_ok ticks
  obtain ⟨monitor', htick, htotal, hticked⟩ := SystemMonitor.tick_spec hok last
  rw [Runs.run_concat, hmiddle, Option.bind_some, htick] at hrun
  obtain rfl := Option.some_inj.1 hrun
  refine ⟨htotal, fun pid => ?_⟩
  rw [hticked.find_eq]
  by_cases hmem : pid ∈ last.pids
  · obtain ⟨process, hprocess, hrtime⟩ := SystemTick.shown_of_mem hmem
      (last.cpu.total - middle.cpu_last_total) (middle.process_table.find pid)
    rw [hprocess, hrtime, Option.map_some]
  · rw [SystemTick.shown_of_not_mem hmem, Option.map_none, SystemTick.lastRtime,
      turns_eq_nil_iff.2 hmem]
    rfl

/-! ### After any ticks -/

/-- **What the next tick must keep to**: it lists six processes or more, each of them once, time has
gone by, and none of them has used more time or memory than there is. -/
structure SystemTick.Metered (last t : SystemTick) : Prop where
  six : MAX_NUM_ELEMENTS ≤ t.pids.length
  nodup : t.pids.Nodup
  total_ne : t.cpu.total - last.cpu.total ≠ 0
  memory_ne : t.mem.total ≠ 0
  share : ∀ pid ∈ t.pids,
    (last.usedSince t pid).toNat ≤ (t.cpu.total - last.cpu.total).toNat
  memory_share : ∀ pid ∈ t.pids, (last.memorySince t pid).toNat ≤ t.mem.total.toNat

/-- A pid that is listed once has one turn. -/
theorem exists_turn {t : SystemTick} (h : t.pids.Nodup) {pid : Pid} (hmem : pid ∈ t.pids) :
    ∃ listed, turns pid t.proclist = [listed] := by
  rw [← List.length_eq_one_iff, turns, ← List.countP_eq_length_filter]
  have hcount := List.count_eq_one_of_mem h hmem
  rw [SystemTick.pids, List.count, List.countP_map] at hcount
  rw [← hcount]
  congr 1

/-- **The entries after a tick** have the loads of what their processes have used. -/
theorem loaded_of_tick {last t : SystemTick} (h : last.Metered t)
    {process_table process_table' : ObjectTable Pid Process}
    (hok : process_table.Ok Process.pid)
    (hlast : ∀ pid, (process_table.find pid).map Process.cpu_last_used = last.lastRtime pid)
    (hticked : Ticked (t.cpu.total - last.cpu.total) t process_table process_table')
    {pid : Pid} {process : Process} (hfind : process_table'.find pid = some process) :
    Loaded (t.cpu.total - last.cpu.total) (last.usedSince t pid) process.cpu_load ∧
      Loaded t.mem.total (last.memorySince t pid) process.mem_usage := by
  have hmem : pid ∈ t.pids := by
    by_contra hnot
    rw [hticked.find_eq, SystemTick.shown_of_not_mem hnot] at hfind
    cases hfind
  have hshare := h.share pid hmem
  have hmemory := h.memory_share pid hmem
  obtain ⟨listed, hturns⟩ := exists_turn h.nodup hmem
  have hnow : t.lastRtime pid = some listed.rtime := by
    rw [SystemTick.lastRtime, hturns]
    rfl
  rw [hticked.find_eq, SystemTick.shown, hturns] at hfind
  have hbefore := hlast pid
  cases hprev : process_table.find pid with
  | none =>
      rw [hprev, Option.map_none] at hbefore
      rw [hprev] at hfind
      obtain rfl := Option.some_inj.1 hfind
      unfold SystemTick.usedSince SystemTick.memorySince
      rw [← hbefore]
      exact ⟨.new, .new⟩
  | some prev =>
      obtain ⟨p, haddr, hheap⟩ := Option.bind_eq_some_iff.1 hprev
      obtain ⟨prev', hprev', hpid⟩ := hok.object pid p haddr
      obtain rfl : prev' = prev := Option.some_inj.1 (hprev'.symm.trans hheap)
      rw [hprev, Option.map_some] at hbefore
      rw [hprev] at hfind
      obtain rfl := Option.some_inj.1 hfind
      have hused : last.usedSince t pid = listed.rtime - prev'.cpu_last_used := by
        rw [SystemTick.usedSince, ← hbefore, hnow]
      have hmemoryOf : last.memorySince t pid =
          (listed.procMem prev'.pid).resident - (listed.procMem prev'.pid).share := by
        rw [SystemTick.memorySince, ← hbefore, hturns, hpid]
        rfl
      rw [hused] at hshare ⊢
      rw [hmemoryOf] at hmemory ⊢
      exact ⟨.used hshare, .used hmemory⟩

/-- **The processes of a table** are the entries of its keys, in their order. -/
theorem pids_of_processes {monitor : SystemMonitor} {processes : List Process}
    (hok : monitor.process_table.Ok Process.pid) (h : monitor.processes = some processes) :
    processes.map Process.pid = monitor.process_table.table.keys ∧
      ∀ process ∈ processes, monitor.process_table.find process.pid = some process := by
  have hentries : List.Forall₂ (fun (entry : (_ : Pid) × ℕ) process =>
      monitor.process_table.heap entry.2 = some process)
      monitor.process_table.table.entries processes := by
    rw [SystemMonitor.processes, Lists.mapM_eq_some_iff, SystemMonitor.getProcesses,
      ObjectTable.values, List.forall₂_map_left_iff] at h
    exact h
  clear h
  have hkey : ∀ entry ∈ monitor.process_table.table.entries, ∀ process,
      monitor.process_table.heap entry.2 = some process →
        process.pid = entry.1 ∧ monitor.process_table.find entry.1 = some process := by
    rintro ⟨pid, p⟩ hentry process hheap
    have haddr : monitor.process_table.address pid = some p := AList.mem_lookup_iff.2 hentry
    obtain ⟨process', hprocess', hpid⟩ := hok.object pid p haddr
    obtain rfl := Option.some_inj.1 (hprocess'.symm.trans hheap)
    refine ⟨hpid, ?_⟩
    rw [ObjectTable.find, haddr]
    exact hheap
  rw [AList.keys, List.keys]
  generalize monitor.process_table.table.entries = entries at hentries hkey
  induction hentries with
  | nil => exact ⟨rfl, fun _ hmem => absurd hmem List.not_mem_nil⟩
  | cons hheap _ ih =>
      obtain ⟨hfirst, hkey⟩ := List.forall_mem_cons.1 hkey
      obtain ⟨hpid, hfind⟩ := hfirst _ hheap
      obtain ⟨hpids, hfinds⟩ := ih hkey
      refine ⟨?_, List.forall_mem_cons.2 ⟨?_, hfinds⟩⟩
      · rw [List.map_cons, List.map_cons, hpid, hpids]
      · rw [hpid]
        exact hfind

/-- **The views show the six processes that have used the most**, of those that are listed, and what
they have used: CPU time since the tick before, and memory.  A process that the tick before did not
list has used nothing. -/
theorem top_six_used (ticks : List SystemTick) {last t : SystemTick} (h : last.Metered t) :
    ∃ monitor processes rows memory_rows,
      Runs.run SystemMonitor.tick SystemMonitor.init (ticks ++ [last] ++ [t]) = some monitor ∧
      monitor.processes = some processes ∧
      cpuRows .double processes = some rows ∧
      memoryRows .double monitor processes = some memory_rows ∧
      TopSix (t.cpu.total - last.cpu.total) (last.usedSince t) t.pids rows ∧
      TopSix t.mem.total (last.memorySince t) t.pids
        (memory_rows.filter fun row => !row.is_headline) := by
  obtain ⟨before, hbefore, hok⟩ := run_tick_ok (ticks ++ [last])
  obtain ⟨monitor, htick, _, hticked⟩ := SystemMonitor.tick_spec hok t
  obtain ⟨htotal, hlast⟩ := last_of_run hbefore
  rw [htotal] at hticked
  have hrun : Runs.run SystemMonitor.tick SystemMonitor.init (ticks ++ [last] ++ [t]) =
      some monitor := by
    rw [Runs.run_concat, hbefore, Option.bind_some, htick]
  obtain ⟨monitor', processes, hrun', hprocesses⟩ := processes_of_run (ticks ++ [last] ++ [t])
  obtain rfl := Option.some_inj.1 (hrun'.symm.trans hrun)
  obtain ⟨hpids, hfind⟩ := pids_of_processes hticked.ok hprocesses
  have hperm : (processes.map Process.pid).Perm t.pids := by
    rw [hpids, List.perm_ext_iff_of_nodup (AList.keys_nodup _) h.nodup]
    intro pid
    rw [← AList.mem_keys, ← hticked.address_isSome, ← AList.lookup_isSome,
      Option.isSome_iff_exists]
    rfl
  have hloaded := fun process hprocess =>
    loaded_of_tick h hok hlast hticked (hfind process hprocess)
  have hsix : MAX_NUM_ELEMENTS ≤ processes.length := by
    have hlen := hperm.length_eq
    rw [List.length_map] at hlen
    exact hlen ▸ h.six
  obtain ⟨rows, hrows, htop⟩ :=
    topSix_of_loaded h.total_ne hperm (fun process hp => (hloaded process hp).1) hsix
  obtain ⟨memory, hmemory, hmemory_top⟩ :=
    topSix_of_loaded h.memory_ne hperm (fun process hp => (hloaded process hp).2) hsix
  have hmemory_rows : memoryRows .double monitor' processes =
      some ([⟨"<b>Memory</b>", monitor'.mem_usage, true, 0⟩,
        ⟨"<b>Swap</b>", monitor'.swap_usage, true, 0⟩] ++ memory) := by
    rw [memoryRows, hmemory, Option.map_some]
    rfl
  refine ⟨monitor', processes, rows, _, hrun, hprocesses, hrows, hmemory_rows, htop, ?_⟩
  rw [List.filter_append, hmemory_top.filter_eq]
  exact hmemory_top

/-- A tick that lists the processes of `sixTick`, which have all used time since, and a new one. -/
def sevenTick : SystemTick :=
  ⟨⟨2000, 700, 0, 0⟩, ⟨8, 4, 1, 1⟩, ⟨2, 1⟩,
    [(1, 30), (2, 50), (3, 70), (4, 90), (5, 110), (6, 130), (7, 90)].map fun x =>
      ⟨x.1, "usage", x.2, fun _ => ⟨3, 1⟩⟩⟩

theorem metered_sevenTick : sixTick.Metered sevenTick := by
  have hpids : sevenTick.pids = [1, 2, 3, 4, 5, 6, 7] := rfl
  refine ⟨by decide, by decide, by decide, by decide, ?_, ?_⟩
  · rw [hpids]
    intro pid hpid
    fin_cases hpid <;> decide
  · rw [hpids]
    intro pid hpid
    fin_cases hpid <;> decide

theorem top_six_used_sevenTick :
    ∃ monitor processes rows memory_rows,
      Runs.run SystemMonitor.tick SystemMonitor.init ([] ++ [sixTick] ++ [sevenTick]) =
        some monitor ∧
      monitor.processes = some processes ∧
      cpuRows .double processes = some rows ∧
      memoryRows .double monitor processes = some memory_rows ∧
      TopSix 1000 (sixTick.usedSince sevenTick) [1, 2, 3, 4, 5, 6, 7] rows ∧
      TopSix 8 (sixTick.memorySince sevenTick) [1, 2, 3, 4, 5, 6, 7]
        (memory_rows.filter fun row => !row.is_headline) :=
  top_six_used [] metered_sevenTick

end Usage
