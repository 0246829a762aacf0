/-
The system monitor (`usage-system-monitor.vala`).

Once a second the monitor reads the load of the machine and of the processes of the user.  Its table
of processes is brought up to date in three passes: the flags of all entries are cleared, the
listed processes are inserted or updated, and the entries whose flag is still clear are removed.

* `Process`, `SystemMonitor` — an entry, and the monitor;
* `SystemTick` — what a tick reads of the machine;
* `listProcess`, `SystemMonitor.tick` — one listed process, and the callback of the timeout;
* `Process.visited`, `SystemTick.shown` — what a tick makes of the entry of one pid;
* `SystemMonitor.tick_spec` — **the three passes, pid by pid**;
* `mark_and_sweep` — **after every tick the table has the listed pids**, the old entries in place
  and the new ones fresh.

A double that is computed as a quotient of two `guint64` is kept as the pair of them.
-/

import GnomeUsage.ObjectTable
import GnomeUsage.Runs

set_option relaxedAutoImplicit false
set_option autoImplicit false

namespace Usage

abbrev Pid := BitVec 32

/-- The double `(double) num / den`. -/
structure Ratio where
  num : BitVec 64
  den : BitVec 64
  deriving DecidableEq

/-- The double `0`. -/
def Ratio.zero : Ratio := ⟨0, 1⟩

/-! ### The monitor -/

structure Process where
  pid : Pid
  cmdline : String
  cpu_load : Ratio
  cpu_last_used : BitVec 64
  mem_usage : Ratio
  alive : Bool
  deriving DecidableEq

structure SystemMonitor where
  cpu_load : Ratio
  mem_usage : Ratio
  swap_usage : Ratio
  cpu_last_used : BitVec 64
  cpu_last_total : BitVec 64
  process_table : ObjectTable Pid Process

def SystemMonitor.init : SystemMonitor :=
  ⟨.zero, .zero, .zero, 0, 0, ObjectTable.empty⟩

/-- `get_processes`. -/
def SystemMonitor.getProcesses (monitor : SystemMonitor) : List ℕ := monitor.process_table.values

/-! ### What a tick reads -/

/-- `GTop.Cpu`. -/
structure GTopCpu where
  total : BitVec 64
  user : BitVec 64
  nice : BitVec 64
  sys : BitVec 64

/-- `GTop.Mem`. -/
structure GTopMem where
  total : BitVec 64
  used : BitVec 64
  buffer : BitVec 64
  cached : BitVec 64

/-- `GTop.Swap`. -/
structure GTopSwap where
  total : BitVec 64
  used : BitVec 64

/-- `GTop.ProcMem`. -/
structure GTopProcMem where
  resident : BitVec 64
  share : BitVec 64

/-- A pid of `GTop.get_proclist`, with what is read of the process at its turn. -/
structure ListedProcess where
  pid : Pid
  cmd : String
  rtime : BitVec 64
  /-- What `GTop.get_proc_mem` reads of a pid. -/
  procMem : Pid → GTopProcMem

structure SystemTick where
  cpu : GTopCpu
  mem : GTopMem
  swap : GTopSwap
  proclist : List ListedProcess

/-- The pids of a tick. -/
def SystemTick.pids (t : SystemTick) : List Pid := t.proclist.map ListedProcess.pid

/-- The turns of a pid. -/
def turns (pid : Pid) (proclist : List ListedProcess) : List ListedProcess :=
  proclist.filter fun listed => listed.pid = pid

/-- The rtime that is read of a pid last. -/
def SystemTick.lastRtime (t : SystemTick) (pid : Pid) : Option (BitVec 64) :=
  (turns pid t.proclist).getLast?.map ListedProcess.rtime

/-! ### The callback -/

/-- A new entry. -/
def Process.new (listed : ListedProcess) : Process where
  pid := listed.pid
  cmdline := listed.cmd
  cpu_load := .zero
  cpu_last_used := listed.rtime
  mem_usage := .zero
  alive := true

/-- An entry that is updated, where `total` of the time of the machine has gone by. -/
def Process.updated (total mem_total : BitVec 64) (listed : ListedProcess) (process : Process) :
    Process :=
  let proc_mem := listed.procMem process.pid
  { process with
    cpu_load := ⟨listed.rtime - process.cpu_last_used, total⟩
    alive := true
    cpu_last_used := listed.rtime
    mem_usage := ⟨proc_mem.resident - proc_mem.share, mem_total⟩ }

/-- The first pass, for one entry. -/
def Process.clearAlive (process : Process) : Process := { process with alive := false }

/-- The second pass, for one listed process; `none` when an entry has been freed. -/
def listProcess (total mem_total : BitVec 64) (process_table : ObjectTable Pid Process)
    (listed : ListedProcess) : Option (ObjectTable Pid Process) :=
  match process_table.address listed.pid with
  | none => some (process_table.insert listed.pid (.new listed))
  | some process => process_table.update process (.updated total mem_total listed)

/-- What a tick keeps of the machine, with the table that the three passes leave. -/
def SystemMonitor.read (monitor : SystemMonitor) (t : SystemTick)
    (process_table : ObjectTable Pid Process) : SystemMonitor :=
  let used := t.cpu.user + t.cpu.nice + t.cpu.sys
  { cpu_load := ⟨used - monitor.cpu_last_used, t.cpu.total - monitor.cpu_last_total⟩
    mem_usage := ⟨t.mem.used - t.mem.buffer - t.mem.cached, t.mem.total⟩
    swap_usage := ⟨t.swap.used, t.swap.total⟩
    cpu_last_used := used
    cpu_last_total := t.cpu.total
    process_table := process_table }

/-- The callback of the timeout. -/
def SystemMonitor.tick (monitor : SystemMonitor) (t : SystemTick) : Option SystemMonitor := do
  let process_table ← ObjectTable.updateAll Process.clearAlive monitor.process_table.values
    monitor.process_table
  let process_table ← t.proclist.foldlM
    (listProcess (t.cpu.total - monitor.cpu_last_total) t.mem.total) process_table
  let process_table ← ObjectTable.removeDead Process.pid (fun process => process.alive == false)
    process_table.values process_table
  some (monitor.read t process_table)

/-! ### What a tick makes of one entry -/

/-- A listed process is inserted, or updated. -/
def Process.visited (total mem_total : BitVec 64) (process : Option Process)
    (listed : ListedProcess) : Option Process :=
  some (process.elim (.new listed) (.updated total mem_total listed))

/-- **What a tick makes of the entry of a pid**, given the turns of the pid. -/
def SystemTick.shown (t : SystemTick) (total : BitVec 64) (pid : Pid) (process : Option Process) :
    Option Process :=
  ((turns pid t.proclist).foldl (Process.visited total t.mem.total)
    (process.map Process.clearAlive)).filter Process.alive

theorem turns_cons (pid : Pid) (listed : ListedProcess) (proclist : List ListedProcess) :
    turns pid (listed :: proclist) =
      if listed.pid = pid then listed :: turns pid proclist else turns pid proclist := by
  by_cases h : listed.pid = pid
  · simp [turns, h]
  · simp [turns, h]

theorem turns_eq_nil_iff {pid : Pid} {proclist : List ListedProcess} :
    turns pid proclist = [] ↔ pid ∉ proclist.map ListedProcess.pid := by
  simp [turns, List.filter_eq_nil_iff]

theorem Process.pid_updated (total mem_total : BitVec 64) (listed : ListedProcess)
    (process : Process) : (process.updated total mem_total listed).pid = process.pid := rfl

theorem Process.pid_clearAlive (process : Process) : process.clearAlive.pid = process.pid := rfl

/-- A pid that is not listed loses its entry. -/
theorem SystemTick.shown_of_not_mem {t : SystemTick} {pid : Pid} (h : pid ∉ t.pids)
    (total : BitVec 64) (process : Option Process) : t.shown total pid process = none := by
  rw [SystemTick.shown, turns_eq_nil_iff.2 h, List.foldl_nil]
  cases process with
  | none => rfl
  | some process => rfl

/-- **A pid that is listed** has an entry with the rtime that was read last. -/
theorem SystemTick.shown_of_mem {t : SystemTick} {pid : Pid} (h : pid ∈ t.pids)
    (total : BitVec 64) (process : Option Process) :
    ∃ process', t.shown total pid process = some process' ∧
      t.lastRtime pid = some process'.cpu_last_used := by
  have hne : turns pid t.proclist ≠ [] := fun hnil => turns_eq_nil_iff.1 hnil h
  obtain ⟨before, listed, hlast⟩ := (List.eq_nil_or_concat' (turns pid t.proclist)).resolve_left hne
  rw [SystemTick.shown, SystemTick.lastRtime, hlast, List.foldl_append, List.foldl_cons,
    List.foldl_nil, List.getLast?_concat]
  cases before.foldl (Process.visited total t.mem.total) (process.map Process.clearAlive) with
  | none => exact ⟨_, rfl, rfl⟩
  | some process => exact ⟨_, rfl, rfl⟩

/-! ### The second pass -/

/-- **One listed process.** -/
theorem listProcess_spec {process_table : ObjectTable Pid Process}
    (h : process_table.Ok Process.pid) (total mem_total : BitVec 64) (listed : ListedProcess) :
    ∃ process_table', listProcess total mem_total process_table listed = some process_table' ∧
      process_table'.Ok Process.pid ∧ process_table.fresh ≤ process_table'.fresh ∧
      process_table'.find = Function.update process_table.find listed.pid
        (Process.visited total mem_total (process_table.find listed.pid) listed) ∧
      ∀ pid, process_table'.address pid = process_table.address pid ∨
        process_table.address pid = none ∧
          process_table'.address pid = some process_table.fresh := by
  unfold listProcess
  cases haddr : process_table.address listed.pid with
  | none =>
      obtain ⟨hok, haddr', hfind⟩ := @ObjectTable.Ok.insert_spec _ _ _ _ _ h listed.pid
        (.new listed) rfl
      refine ⟨_, rfl, hok, Nat.le_succ _, ?_, ?_⟩
      · rw [hfind, h.find_eq_none_iff.2 haddr]
        rfl
      · intro pid
        rw [haddr']
        by_cases hpid : pid = listed.pid
        · subst hpid
          exact .inr ⟨haddr, Function.update_self ..⟩
        · exact .inl (Function.update_of_ne hpid _ _)
  | some p =>
      obtain ⟨table', hupdate, hok, htable, hfresh, hfind⟩ :=
        h.update_spec haddr (Process.pid_updated total mem_total listed)
      obtain ⟨process, hprocess, _, _⟩ := h.find_of_address haddr
      refine ⟨table', hupdate, hok, Nat.le_of_eq hfresh.symm, ?_, ?_⟩
      · rw [hfind, hprocess]
        rfl
      · intro pid
        rw [ObjectTable.address, ObjectTable.address, htable]
        exact .inl rfl

/-- **The second pass**: every pid has its turns, and its address is kept or new. -/
theorem foldlM_listProcess {process_table : ObjectTable Pid Process}
    (h : process_table.Ok Process.pid) (total mem_total : BitVec 64)
    (proclist : List ListedProcess) :
    ∃ process_table', proclist.foldlM (listProcess total mem_total) process_table =
        some process_table' ∧
      process_table'.Ok Process.pid ∧ process_table.fresh ≤ process_table'.fresh ∧
      (∀ pid, process_table'.find pid = (turns pid proclist).foldl
        (Process.visited total mem_total) (process_table.find pid)) ∧
      ∀ pid, process_table'.address pid = process_table.address pid ∨
        process_table.address pid = none ∧
          ∀ p, process_table'.address pid = some p → process_table.fresh ≤ p := by
  induction proclist generalizing process_table with
  | nil => exact ⟨process_table, rfl, h, le_rfl, fun _ => rfl, fun _ => .inl rfl⟩
  | cons listed proclist ih =>
      obtain ⟨middle, hmiddle, hok, hfresh, hfind, haddr⟩ :=
        listProcess_spec h total mem_total listed
      obtain ⟨table', htable', hok', hfresh', hfind', haddr'⟩ := ih hok
      refine ⟨table', ?_, hok', Nat.le_trans hfresh hfresh', ?_, ?_⟩
      · rw [List.foldlM_cons, hmiddle]
        exact htable'
      · intro pid
        rw [hfind', hfind, turns_cons]
        by_cases hpid : listed.pid = pid
        · subst hpid
          rw [if_pos rfl, Function.update_self, List.foldl_cons]
        · rw [if_neg hpid, Function.update_of_ne (Ne.symm hpid)]
      · intro pid
        rcases haddr pid with heq | ⟨hnone, heq⟩
        · rw [← heq]
          rcases haddr' pid with heq' | ⟨hnone', hle⟩
          · exact .inl heq'
          · exact .inr ⟨hnone', fun p hp => Nat.le_trans hfresh (hle p hp)⟩
        · refine .inr ⟨hnone, ?_⟩
          intro p hp
          rcases haddr' pid with heq' | ⟨hnone', hle⟩
          · rw [heq', heq] at hp
            cases hp
            exact le_rfl
          · exact Nat.le_trans hfresh (hle p hp)

/-! ### The three passes -/

/-- The addresses and the entries after a tick. -/
structure Ticked (total : BitVec 64) (t : SystemTick)
    (process_table process_table' : ObjectTable Pid Process) : Prop where
  ok : process_table'.Ok Process.pid
  find_eq : ∀ pid, process_table'.find pid = t.shown total pid (process_table.find pid)
  /-- An entry stays where it is, or is new. -/
  address : ∀ pid p, process_table'.address pid = some p →
    process_table.address pid = some p ∨
      process_table.address pid = none ∧ process_table.fresh ≤ p

/-- **A tick is defined**, and does to every pid what its turns say. -/
theorem SystemMonitor.tick_spec {monitor : SystemMonitor}
    (h : monitor.process_table.Ok Process.pid) (t : SystemTick) :
    ∃ monitor', monitor.tick t = some monitor' ∧ monitor'.cpu_last_total = t.cpu.total ∧
      Ticked (t.cpu.total - monitor.cpu_last_total) t monitor.process_table
        monitor'.process_table := by
  obtain ⟨marked, hmarked, hok, htable, hfresh, hfind⟩ :=
    h.updateAll_values Process.pid_clearAlive
  have haddr : marked.address = monitor.process_table.address := by
    funext pid
    rw [ObjectTable.address, ObjectTable.address, htable]
  obtain ⟨listed, hlisted, hok', _, hfind', haddr'⟩ :=
    foldlM_listProcess hok (t.cpu.total - monitor.cpu_last_total) t.mem.total t.proclist
  obtain ⟨swept, hswept, hok'', _, hfind'', haddr''⟩ :=
    hok'.removeDead_values fun process => process.alive == false
  have htick : monitor.tick t = some (monitor.read t swept) := by
    simp only [SystemMonitor.tick, hmarked, hlisted, hswept, Option.bind_eq_bind,
      Option.bind_some]
  refine ⟨monitor.read t swept, htick, rfl, ⟨hok'', ?_, ?_⟩⟩
  · intro pid
    change swept.find pid = _
    rw [hfind'', hfind', hfind, SystemTick.shown]
    congr 1
    funext process
    cases process.alive <;> rfl
  · intro pid p hp
    have hp' := haddr'' pid p hp
    rw [← haddr, ← hfresh]
    rcases haddr' pid with heq | ⟨hnone, hle⟩
    · exact .inl (heq ▸ hp')
    · exact .inr ⟨hnone, hle p hp'⟩

/-- **The keys after a tick** are the listed pids. -/
theorem Ticked.address_isSome {total : BitVec 64} {t : SystemTick}
    {process_table process_table' : ObjectTable Pid Process}
    (h : Ticked total t process_table process_table') (pid : Pid) :
    (∃ p, process_table'.address pid = some p) ↔ pid ∈ t.pids := by
  rw [← Option.ne_none_iff_exists', Ne, ← h.ok.find_eq_none_iff, h.find_eq]
  constructor
  · intro hne
    by_contra hmem
    exact hne (SystemTick.shown_of_not_mem hmem _ _)
  · intro hmem hnone
    obtain ⟨process, hprocess, _⟩ := SystemTick.shown_of_mem hmem total (process_table.find pid)
    rw [hprocess] at hnone
    cases hnone

/-- A key of the table is listed, and its entry is up to date. -/
theorem Ticked.entry {total : BitVec 64} {t : SystemTick}
    {process_table process_table' : ObjectTable Pid Process}
    (h : Ticked total t process_table process_table') {pid : Pid} {p : ℕ}
    (hp : process_table'.address pid = some p) :
    ∃ process, process_table'.heap p = some process ∧ process.pid = pid ∧
      t.lastRtime pid = some process.cpu_last_used := by
  have hmem : pid ∈ t.pids := (h.address_isSome pid).1 ⟨p, hp⟩
  obtain ⟨process, hfind, hheap, hpid⟩ := h.ok.find_of_address hp
  obtain ⟨process', hprocess', hrtime⟩ :=
    SystemTick.shown_of_mem hmem total (process_table.find pid)
  rw [h.find_eq, hprocess'] at hfind
  cases hfind
  exact ⟨process, hheap, hpid, hrtime⟩

/-! ### Runs -/

/-- The pids that the last of some ticks lists. -/
def lastPids (ticks : List SystemTick) : List Pid := ticks.getLast?.elim [] SystemTick.pids

/-- **No run of the monitor gets stuck.** -/
theorem run_tick_ok (ticks : List SystemTick) :
    ∃ monitor, Runs.run SystemMonitor.tick SystemMonitor.init ticks = some monitor ∧
      monitor.process_table.Ok Process.pid := by
  refine @Runs.run_total _ _ _
    (fun monitor : SystemMonitor => monitor.process_table.Ok Process.pid) ?_ _
    ObjectTable.ok_empty ticks
  intro monitor t h
  obtain ⟨monitor', htick, _, hticked⟩ := SystemMonitor.tick_spec h t
  exact ⟨monitor', htick, hticked.ok⟩

/-- The keys after a run are the pids of its last tick. -/
theorem address_of_run {ticks : List SystemTick} {monitor : SystemMonitor}
    (hrun : Runs.run SystemMonitor.tick SystemMonitor.init ticks = some monitor) (pid : Pid) :
    (∃ p, monitor.process_table.address pid = some p) ↔ pid ∈ lastPids ticks := by
  rcases List.eq_nil_or_concat' ticks with rfl | ⟨before, t, rfl⟩
  · cases hrun
    simp [SystemMonitor.init, ObjectTable.empty, ObjectTable.address, lastPids]
  · obtain ⟨middle, hmiddle, hok⟩ := run_tick_ok before
    obtain ⟨monitor', htick, _, hticked⟩ := SystemMonitor.tick_spec hok t
    rw [Runs.run_concat, hmiddle, Option.bind_some, htick] at hrun
    cases hrun
    rw [hticked.address_isSome, lastPids, List.getLast?_concat]
    rfl

/-- **Mark and sweep**: after any ticks and one more, the keys of the table are the pids it lists;
every key has one entry, with its pid and the rtime that was read of it last; the entry of a pid
that the tick before listed too is the same object; and that of any other pid is an object that did
not exist before. -/
theorem mark_and_sweep (ticks : List SystemTick) (t : SystemTick) :
    ∃ monitor monitor',
      Runs.run SystemMonitor.tick SystemMonitor.init ticks = some monitor ∧
      monitor.tick t = some monitor' ∧
      (∀ pid, pid ∈ monitor'.process_table.table ↔ pid ∈ t.pids) ∧
      (∀ pid p, monitor'.process_table.address pid = some p →
        ∃ process, monitor'.process_table.heap p = some process ∧ process.pid = pid ∧
          t.lastRtime pid = some process.cpu_last_used) ∧
      (∀ pid ∈ t.pids, pid ∈ lastPids ticks →
        monitor'.process_table.address pid = monitor.process_table.address pid) ∧
      ∀ pid ∈ t.pids, pid ∉ lastPids ticks → ∀ p,
        monitor'.process_table.address pid = some p → monitor.process_table.fresh ≤ p := by
  obtain ⟨monitor, hrun, hok⟩ := run_tick_ok ticks
  obtain ⟨monitor', htick, _, hticked⟩ := SystemMonitor.tick_spec hok t
  refine ⟨monitor, monitor', hrun, htick, ?_, fun _ _ hp => hticked.entry hp, ?_, ?_⟩
  · intro pid
    rw [← hticked.address_isSome, ← AList.lookup_isSome, Option.isSome_iff_exists]
    rfl
  · intro pid hpid hlast
    obtain ⟨p, hp⟩ := (hticked.address_isSome pid).2 hpid
    obtain ⟨q, hq⟩ := (address_of_run hrun pid).2 hlast
    rcases hticked.address pid p hp with heq | ⟨hnone, _⟩
    · rw [hp, heq]
    · rw [hnone] at hq
      cases hq
  · intro pid _ hlast p hp
    rcases hticked.address pid p hp with heq | ⟨_, hle⟩
    · exact absurd ((address_of_run hrun pid).1 ⟨p, heq⟩) hlast
    · exact hle

end Usage
