/-
The process lists of the views (`usage-cpu-view.vala`, `usage-memory-view.vala`).

Both views show the processes with the largest loads.  They insert a row for every process into a
sorted list, by a comparison that subtracts, and take six rows off its front.  Nothing checks that
there are six.

* `ElementRow`, `processRows` — a row, and the rows that a view adds for the processes;
* `cpuRows`, `memoryRows` — the callbacks of the two views;
* `TopRows` — the rows are the top six, in order;
* `processRows_isSome_iff` — **the rows are added exactly when there are six processes**, all with
  a load whose thousandfold is an `int`;
* `top_six_iff` — **both views show the top six exactly then**;
* `no_processes_crash` — the views before there is any process.
-/

import GnomeUsage.DifferenceOrder
import GnomeUsage.Lists
import GnomeUsage.SystemMonitor

set_option relaxedAutoImplicit false
set_option autoImplicit false

namespace Usage

open DifferenceOrder (difference insertSorted Before)

/-- `View.MAX_NUM_ELEMENTS`. -/
def MAX_NUM_ELEMENTS : ℕ := 6

/-- How the machine computes `(int) (1000 * load)`: `none` when the double has no value in the range
of an `int`, which no conversion is defined for.  Loads are not negative. -/
structure Rounding where
  sortId : Ratio → Option ℤ
  range : ∀ load sort_id, sortId load = some sort_id → 0 ≤ sort_id ∧ sort_id ≤ 2 ^ 31 - 1

/-- The conversion of the exact quotient. -/
def Rounding.exact : Rounding where
  sortId := fun load =>
    let thousandfold := 1000 * load.num.toNat / load.den.toNat
    if load.den ≠ 0 ∧ thousandfold < 2 ^ 31 then some (thousandfold : ℤ) else none
  range := by
    intro load sort_id h
    obtain ⟨⟨_, hlt⟩, heq⟩ := Option.ite_none_right_eq_some.1 h
    obtain rfl := Option.some_inj.1 heq
    generalize 1000 * load.num.toNat / load.den.toNat = thousandfold at hlt
    omega

structure ElementRow where
  text : String
  load : Ratio
  is_headline : Bool
  sort_id : ℤ
  deriving DecidableEq

/-! ### The callbacks -/

variable (rounding : Rounding)

/-- The row of a process. -/
def elementRow (load : Process → Ratio) (process : Process) : Option ElementRow :=
  (rounding.sortId (load process)).map fun sort_id =>
    ⟨process.cmdline, load process, false, sort_id⟩

/-- The sorted list of the rows. -/
def widgetList (load : Process → Ratio) (processes : List Process) : Option (List ElementRow) :=
  processes.foldlM (fun widget_list process =>
    (elementRow rounding load process).bind fun proc_widget =>
      insertSorted (difference ElementRow.sort_id) proc_widget widget_list) []

/-- The loop that takes rows off the front of a list; `none` when it reads the data of an empty
list. -/
def takeRows : ℕ → List ElementRow → Option (List ElementRow)
  | 0, _ => some []
  | _ + 1, [] => none
  | n + 1, row :: widget_list => (takeRows n widget_list).map (row :: ·)

/-- The rows that are added for the processes. -/
def processRows (load : Process → Ratio) (processes : List Process) : Option (List ElementRow) :=
  (widgetList rounding load processes).bind (takeRows MAX_NUM_ELEMENTS)

/-- The callback of `CPUView`. -/
def cpuRows (processes : List Process) : Option (List ElementRow) :=
  processRows rounding Process.cpu_load processes

/-- The callback of `MemoryView`. -/
def memoryRows (monitor : SystemMonitor) (processes : List Process) : Option (List ElementRow) :=
  (processRows rounding Process.mem_usage processes).map fun rows =>
    ⟨"<b>Memory</b>", monitor.mem_usage, true, 0⟩ ::
      ⟨"<b>Swap</b>", monitor.swap_usage, true, 0⟩ :: rows

/-- The processes of `get_processes`; `none` when one has been freed. -/
def SystemMonitor.processes (monitor : SystemMonitor) : Option (List Process) :=
  monitor.getProcesses.mapM monitor.process_table.heap

/-! ### The top six -/

/-- **The rows are the top six** of `all`, in order. -/
structure TopRows (all rows : List ElementRow) : Prop where
  length_eq : rows.length = min all.length MAX_NUM_ELEMENTS
  sorted : rows.Pairwise (Before ElementRow.sort_id)
  top : ∃ omitted, all.Perm (rows ++ omitted) ∧
    ∀ row ∈ rows, ∀ other ∈ omitted, other.sort_id ≤ row.sort_id

/-- **A view shows the top six**: its rows are added, and those that are not headlines are the top
six of the rows of all processes. -/
def ShowsTop (load : Process → Ratio) (processes : List Process) (rows : Option (List ElementRow)) :
    Prop :=
  ∃ all shown, processes.mapM (elementRow rounding load) = some all ∧ rows = some shown ∧
    TopRows all (shown.filter fun row => !row.is_headline)

theorem takeRows_eq_some_iff {n : ℕ} {widget_list rows : List ElementRow} :
    takeRows n widget_list = some rows ↔ n ≤ widget_list.length ∧ widget_list.take n = rows := by
  induction n generalizing widget_list rows with
  | zero => simp [takeRows]
  | succ n ih =>
      cases widget_list with
      | nil => simp [takeRows]
      | cons row widget_list =>
          rw [takeRows, Option.map_eq_some_iff]
          constructor
          · rintro ⟨rest, hrest, rfl⟩
            obtain ⟨hle, rfl⟩ := ih.1 hrest
            exact ⟨Nat.succ_le_succ hle, rfl⟩
          · rintro ⟨hle, rfl⟩
            exact ⟨_, ih.2 ⟨Nat.le_of_succ_le_succ hle, rfl⟩, rfl⟩

/-! ### The rows of all processes -/

/-- **The processes of a monitor**: after every run there is an object behind every address of
`get_processes`. -/
theorem processes_of_run (ticks : List SystemTick) :
    ∃ monitor processes, Runs.run SystemMonitor.tick SystemMonitor.init ticks = some monitor ∧
      monitor.processes = some processes := by
  obtain ⟨monitor, hrun, hok⟩ := run_tick_ok ticks
  have hall : ∀ p ∈ monitor.getProcesses, (monitor.process_table.heap p).isSome = true := by
    intro p hp
    obtain ⟨pid, hpid⟩ := ObjectTable.mem_values.1 hp
    obtain ⟨process, hprocess, _⟩ := hok.object pid p hpid
    rw [hprocess]
    rfl
  obtain ⟨processes, hprocesses⟩ := Lists.exists_mapM_iff.2 hall
  exact ⟨monitor, processes, hrun, hprocesses⟩

variable {rounding}

theorem elementRow_some {load : Process → Ratio} {process : Process} {row : ElementRow}
    (h : elementRow rounding load process = some row) :
    row.is_headline = false ∧ 0 ≤ row.sort_id ∧ row.sort_id ≤ 2 ^ 31 - 1 := by
  obtain ⟨sort_id, hid, rfl⟩ := Option.map_eq_some_iff.1 h
  exact ⟨rfl, rounding.range _ _ hid⟩

/-- The rows of all processes are no headlines, and their ids are not negative. -/
theorem rows_of_mapM {load : Process → Ratio} {processes : List Process} {all : List ElementRow}
    (h : processes.mapM (elementRow rounding load) = some all) :
    ∀ row ∈ all, row.is_headline = false ∧ 0 ≤ row.sort_id ∧ row.sort_id ≤ 2 ^ 31 - 1 := by
  have hall := Lists.mapM_eq_some_iff.1 h
  clear h
  induction hall with
  | nil => exact fun row hrow => absurd hrow List.not_mem_nil
  | cons hrow _ ih => exact List.forall_mem_cons.2 ⟨elementRow_some hrow, ih⟩

/-- **The sorted list** of the rows of all processes. -/
theorem widgetList_of_mapM {load : Process → Ratio} {processes : List Process}
    {all : List ElementRow} (h : processes.mapM (elementRow rounding load) = some all) :
    ∃ widget_list, widgetList rounding load processes = some widget_list ∧
      widget_list.Pairwise (Before ElementRow.sort_id) ∧ widget_list.Perm all := by
  obtain ⟨widget_list, hlist, hsorted, hperm⟩ :=
    @DifferenceOrder.foldlM_insertSorted ElementRow ElementRow.sort_id 0 (2 ^ 31 - 1)
      (by decide) all [] (fun row hrow => (rows_of_mapM h row hrow).2) nofun List.Pairwise.nil
  refine ⟨widget_list, ?_, hsorted, by simpa using hperm⟩
  rw [widgetList, Lists.foldlM_bind, h, Option.bind_some, hlist]

/-- **The first rows of the sorted list** are the top six. -/
theorem topRows_take {all widget_list : List ElementRow}
    (hsorted : widget_list.Pairwise (Before ElementRow.sort_id)) (hperm : widget_list.Perm all) :
    TopRows all (widget_list.take MAX_NUM_ELEMENTS) where
  length_eq := by rw [List.length_take, hperm.length_eq, min_comm]
  sorted := hsorted.sublist (List.take_sublist _ _)
  top := by
    refine ⟨widget_list.drop MAX_NUM_ELEMENTS, ?_, ?_⟩
    · rw [List.take_append_drop]
      exact hperm.symm
    · rw [← List.take_append_drop MAX_NUM_ELEMENTS widget_list] at hsorted
      exact (List.pairwise_append.1 hsorted).2.2

/-! ### The two views -/

/-- **With fewer than six processes** an empty list is read. -/
theorem processRows_of_lt {load : Process → Ratio} {processes : List Process}
    {all : List ElementRow} (h : processes.mapM (elementRow rounding load) = some all)
    (hlt : processes.length < MAX_NUM_ELEMENTS) : processRows rounding load processes = none := by
  obtain ⟨widget_list, hlist, _, hperm⟩ := widgetList_of_mapM h
  have hlen := (Lists.mapM_eq_some_iff.1 h).length_eq
  rw [processRows, hlist, Option.bind_some, Option.eq_none_iff_forall_ne_some]
  intro rows hrows
  have hle := (takeRows_eq_some_iff.1 hrows).1
  rw [hperm.length_eq] at hle
  omega

/-- **With six processes** or more the top six are added. -/
theorem processRows_of_le {load : Process → Ratio} {processes : List Process}
    {all : List ElementRow} (h : processes.mapM (elementRow rounding load) = some all)
    (hle : MAX_NUM_ELEMENTS ≤ processes.length) :
    ∃ rows, processRows rounding load processes = some rows ∧ TopRows all rows ∧
      ∀ row ∈ rows, row.is_headline = false := by
  obtain ⟨widget_list, hlist, hsorted, hperm⟩ := widgetList_of_mapM h
  have hlen := (Lists.mapM_eq_some_iff.1 h).length_eq
  have htake : takeRows MAX_NUM_ELEMENTS widget_list =
      some (widget_list.take MAX_NUM_ELEMENTS) := by
    refine takeRows_eq_some_iff.2 ⟨?_, rfl⟩
    rw [hperm.length_eq]
    omega
  refine ⟨_, ?_, topRows_take hsorted hperm, ?_⟩
  · rw [processRows, hlist, Option.bind_some, htake]
  · intro row hrow
    exact (rows_of_mapM h row (hperm.mem_iff.1 (List.mem_of_mem_take hrow))).1

theorem exists_rows_iff {load : Process → Ratio} {processes : List Process} :
    (∃ all, processes.mapM (elementRow rounding load) = some all) ↔
      ∀ process ∈ processes, (rounding.sortId (load process)).isSome = true := by
  simp [Lists.exists_mapM_iff, elementRow]

/-- **The rows are added exactly when there are six processes** and all their loads have an id. -/
theorem processRows_isSome_iff {load : Process → Ratio} {processes : List Process} :
    (processRows rounding load processes).isSome = true ↔ MAX_NUM_ELEMENTS ≤ processes.length ∧
      ∀ process ∈ processes, (rounding.sortId (load process)).isSome = true := by
  rw [← exists_rows_iff, Option.isSome_iff_exists]
  constructor
  · rintro ⟨rows, hrows⟩
    obtain ⟨widget_list, hlist, _⟩ := Option.bind_eq_some_iff.1 hrows
    rw [widgetList, Lists.foldlM_bind] at hlist
    obtain ⟨all, hall, _⟩ := Option.bind_eq_some_iff.1 hlist
    refine ⟨?_, all, hall⟩
    by_contra hlt
    rw [processRows_of_lt hall (not_le.1 hlt)] at hrows
    cases hrows
  · rintro ⟨hle, all, hall⟩
    obtain ⟨rows, hrows, _⟩ := processRows_of_le hall hle
    exact ⟨rows, hrows⟩

/-- **A view shows the top six**, below its headlines, exactly when there are six processes and all
their loads have an id. -/
theorem showsTop_iff (load : Process → Ratio) (processes : List Process)
    {headlines : List ElementRow} (hheadlines : ∀ row ∈ headlines, row.is_headline = true) :
    ShowsTop rounding load processes
        ((processRows rounding load processes).map fun rows => headlines ++ rows) ↔
      MAX_NUM_ELEMENTS ≤ processes.length ∧
        ∀ process ∈ processes, (rounding.sortId (load process)).isSome = true := by
  constructor
  · rintro ⟨_, shown, _, hrows, _⟩
    rw [← processRows_isSome_iff, Option.isSome_iff_exists]
    obtain ⟨rows, hrows, _⟩ := Option.map_eq_some_iff.1 hrows
    exact ⟨rows, hrows⟩
  · rintro ⟨hle, hids⟩
    obtain ⟨all, hall⟩ := exists_rows_iff.2 hids
    obtain ⟨rows, hrows, htop, hnone⟩ := processRows_of_le hall hle
    refine ⟨all, headlines ++ rows, hall, by rw [hrows, Option.map_some], ?_⟩
    have hfilter : (headlines ++ rows).filter (fun row => !row.is_headline) = rows := by
      rw [List.filter_append, List.filter_eq_nil_iff.2, List.filter_eq_self.2, List.nil_append]
      · intro row hrow
        simp [hnone row hrow]
      · intro row hrow
        simp [hheadlines row hrow]
    rw [hfilter]
    exact htop

/-- **Both views show the top six**, and read no empty list, exactly when there are six processes
with loads whose thousandfold is an `int`. -/
theorem top_six_iff (rounding : Rounding) (monitor : SystemMonitor) (processes : List Process) :
    (ShowsTop rounding Process.cpu_load processes (cpuRows rounding processes) ↔
      MAX_NUM_ELEMENTS ≤ processes.length ∧
        ∀ process ∈ processes, (rounding.sortId process.cpu_load).isSome = true) ∧
    (ShowsTop rounding Process.mem_usage processes (memoryRows rounding monitor processes) ↔
      MAX_NUM_ELEMENTS ≤ processes.length ∧
        ∀ process ∈ processes, (rounding.sortId process.mem_usage).isSome = true) := by
  refine ⟨?_, ?_⟩
  · have hcpu := @showsTop_iff rounding Process.cpu_load processes [] nofun
    simpa [cpuRows] using hcpu
  · exact @showsTop_iff rounding Process.mem_usage processes
      [⟨"<b>Memory</b>", monitor.mem_usage, true, 0⟩, ⟨"<b>Swap</b>", monitor.swap_usage, true, 0⟩]
      (by simp)

/-- **Before there is a process**, both views read the data of an empty list. -/
theorem no_processes_crash :
    cpuRows .exact [] = none ∧ memoryRows .exact .init [] = none ∧
      ¬ ShowsTop .exact Process.cpu_load [] (cpuRows .exact []) ∧
      ¬ ShowsTop .exact Process.mem_usage [] (memoryRows .exact .init []) := by
  refine ⟨rfl, rfl, ?_, ?_⟩
  · rintro ⟨_, _, _, hrows, _⟩
    cases hrows
  · rintro ⟨_, _, _, hrows, _⟩
    cases hrows

end Usage
