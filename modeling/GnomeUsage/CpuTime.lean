/-
CPU time, and what is subtracted to get it.

The monitor keeps the CPU time of a process when it was read last, and shows how much more it is at
the next tick.  The table knows a process by its pid only, so the two times may be those of two
processes; and a process that is gone by the time it is read has no CPU time.  Here every turn of
a pid comes with the process it is the turn of.

* `Turn`, `LifeTick` — a turn of a pid, and a tick, with what is true of the processes;
* `SystemMonitor.deltas` — the subtractions of a tick;
* `Turn.ExactDelta` — a subtraction does not wrap and gives the CPU time since the tick before;
* `Turn.Continues` — the guard: what was read last is the CPU time at the tick before;
* `lastUsed_of_run` — **the table has the time that was read last** of every listed pid;
* `cpu_deltas_iff` — **all subtractions of a run are exact exactly when all turns continue**;
* `Lives`, `cpu_deltas_of_lives` — what is true of processes, and **the guard for processes**: none
  that has used any time exits before it is read, or has its pid taken over;
* `exited_process_wraps` — a process that exits before it is read.
-/

import GnomeUsage.SystemMonitor
import Mathlib.Data.List.Chain
import Mathlib.Data.List.Induction

set_option relaxedAutoImplicit false
set_option autoImplicit false

namespace Usage

/-! ### Turns and the processes behind them -/

/-- A turn of a pid, of the process that has it, which had used the time `before` at the tick
before (none, if it has been started since) and has used the time `used` now. -/
structure Turn where
  pid : Pid
  cmd : String
  procMem : Pid → GTopProcMem
  process : ℕ
  before : BitVec 64
  used : BitVec 64
  /-- The process exits between `get_proclist` and `get_proc_time`. -/
  gone : Bool
  before_le : before ≤ used

/-- The rtime that is read. -/
def Turn.read (turn : Turn) : BitVec 64 := if turn.gone then 0 else turn.used

/-- What the monitor gets. -/
def Turn.listed (turn : Turn) : ListedProcess := ⟨turn.pid, turn.cmd, turn.read, turn.procMem⟩

/-- A tick, with the processes behind the pids it lists. -/
structure LifeTick where
  cpu : GTopCpu
  mem : GTopMem
  swap : GTopSwap
  turns : List Turn

/-- What the monitor reads. -/
def LifeTick.tick (t : LifeTick) : SystemTick :=
  ⟨t.cpu, t.mem, t.swap, t.turns.map Turn.listed⟩

/-- A step of the monitor. -/
def SystemMonitor.lifeTick (monitor : SystemMonitor) (t : LifeTick) : Option SystemMonitor :=
  monitor.tick t.tick

/-- The last turn of a pid. -/
def lastTurn (pid : Pid) (turns : List Turn) : Option Turn :=
  (turns.filter fun turn => turn.pid = pid).getLast?

/-- The turns of the last of some ticks. -/
def lastTurns (ticks : List LifeTick) : List Turn := ticks.getLast?.elim [] LifeTick.turns

/-! ### The subtractions -/

/-- The subtractions of the second pass: the turns of pids that have an entry, each with the time
that is subtracted. -/
def listDeltas (total mem_total : BitVec 64) :
    List Turn → ObjectTable Pid Process → List (Turn × BitVec 64)
  | [], _ => []
  | turn :: turns, process_table =>
      ((process_table.find turn.pid).map fun process => (turn, process.cpu_last_used)).toList ++
        (listProcess total mem_total process_table turn.listed).elim []
          (listDeltas total mem_total turns)

/-- The subtractions of a tick. -/
def SystemMonitor.deltas (monitor : SystemMonitor) (t : LifeTick) : List (Turn × BitVec 64) :=
  (ObjectTable.updateAll Process.clearAlive monitor.process_table.values
    monitor.process_table).elim []
      (listDeltas (t.cpu.total - monitor.cpu_last_total) t.mem.total t.turns)

/-- **An exact subtraction**: it does not wrap, and gives what the process has used since the tick
before. -/
def Turn.ExactDelta (turn : Turn) (cpu_last_used : BitVec 64) : Prop :=
  cpu_last_used.toNat ≤ turn.read.toNat ∧
    (turn.read - cpu_last_used).toNat = turn.used.toNat - turn.before.toNat

instance (turn : Turn) (cpu_last_used : BitVec 64) : Decidable (turn.ExactDelta cpu_last_used) :=
  inferInstanceAs (Decidable (_ ∧ _))

/-- **An exact tick.** -/
def SystemMonitor.Exact (monitor : SystemMonitor) (t : LifeTick) : Prop :=
  ∀ delta ∈ monitor.deltas t, delta.1.ExactDelta delta.2

instance (monitor : SystemMonitor) (t : LifeTick) : Decidable (monitor.Exact t) :=
  inferInstanceAs (Decidable (∀ delta ∈ monitor.deltas t, _))

/-- **The guard**: the turn continues where the last turn of the pid has left off.  What was read
then is the time that the process had used at the tick before; and if the process is gone, it has
never used any. -/
def Turn.Continues (turn last : Turn) : Prop :=
  if turn.gone then last.read = 0 ∧ turn.used = turn.before else last.read = turn.before

/-- All turns of a list continue, where `seen` are those before them. -/
def Continue (seen turns : List Turn) : Prop :=
  ∀ earlier turn later, turns = earlier ++ turn :: later →
    ∀ last ∈ lastTurn turn.pid (seen ++ earlier), turn.Continues last

/-! ### One turn -/

/-- **One subtraction is exact exactly when its turn continues.** -/
theorem Turn.exactDelta_iff (turn last : Turn) :
    turn.ExactDelta last.read ↔ turn.Continues last := by
  have hle : turn.before.toNat ≤ turn.used.toNat := turn.before_le
  unfold Turn.ExactDelta Turn.Continues
  generalize last.read = r
  cases hgone : turn.gone with
  | true =>
      have hread : turn.read = 0 := by simp [Turn.read, hgone]
      rw [if_pos rfl, hread]
      constructor
      · rintro ⟨hwrap, hdelta⟩
        have hr : r = 0 := BitVec.eq_of_toNat_eq (Nat.le_zero.1 hwrap)
        subst hr
        have hzero : ((0 : BitVec 64) - 0).toNat = 0 := rfl
        rw [hzero] at hdelta
        exact ⟨rfl, BitVec.eq_of_toNat_eq (by omega)⟩
      · rintro ⟨rfl, heq⟩
        rw [heq, Nat.sub_self]
        exact ⟨le_rfl, rfl⟩
  | false =>
      have hread : turn.read = turn.used := by simp [Turn.read, hgone]
      rw [if_neg Bool.false_ne_true, hread]
      constructor
      · rintro ⟨hwrap, hdelta⟩
        rw [BitVec.toNat_sub_of_le hwrap] at hdelta
        exact BitVec.eq_of_toNat_eq (by omega)
      · rintro rfl
        exact ⟨hle, BitVec.toNat_sub_of_le hle⟩

theorem lastTurn_concat_self (turns : List Turn) (turn : Turn) :
    lastTurn turn.pid (turns ++ [turn]) = some turn := by
  simp [lastTurn]

theorem lastTurn_concat_of_ne {pid : Pid} (turns : List Turn) {turn : Turn} (h : turn.pid ≠ pid) :
    lastTurn pid (turns ++ [turn]) = lastTurn pid turns := by
  simp [lastTurn, h]

/-! ### One tick -/

/-- The table has the time that was read last of every pid, where `seen` are the turns so far. -/
def Remembers (process_table : ObjectTable Pid Process) (seen : List Turn) : Prop :=
  ∀ pid, (process_table.find pid).map Process.cpu_last_used = (lastTurn pid seen).map Turn.read

/-- A turn is remembered. -/
theorem Remembers.listed {process_table process_table' : ObjectTable Pid Process}
    {seen : List Turn} (h : Remembers process_table seen) (turn : Turn)
    {total mem_total : BitVec 64} (hfind : process_table'.find =
      Function.update process_table.find turn.pid
        (Process.visited total mem_total (process_table.find turn.pid) turn.listed)) :
    Remembers process_table' (seen ++ [turn]) := by
  intro pid
  rw [hfind]
  by_cases hpid : pid = turn.pid
  · subst hpid
    rw [Function.update_self, lastTurn_concat_self]
    cases process_table.find turn.pid with
    | none => rfl
    | some process => rfl
  · rw [Function.update_of_ne hpid, lastTurn_concat_of_ne _ (Ne.symm hpid), h pid]

/-- A turn, and the turns behind it. -/
theorem continue_cons {seen turns : List Turn} {turn : Turn} :
    Continue seen (turn :: turns) ↔
      (∀ last ∈ lastTurn turn.pid seen, turn.Continues last) ∧
        Continue (seen ++ [turn]) turns := by
  constructor
  · intro h
    refine ⟨?_, ?_⟩
    · intro last hlast
      exact h [] turn turns rfl last (by rwa [List.append_nil])
    · intro earlier turn' later hsplit last hlast
      refine h (turn :: earlier) turn' later (by rw [hsplit]; rfl) last ?_
      rwa [List.append_assoc] at hlast
  · rintro ⟨hfirst, hrest⟩ earlier turn' later hsplit last hlast
    cases earlier with
    | nil =>
        obtain ⟨rfl, _⟩ := List.cons.inj hsplit
        rw [List.append_nil] at hlast
        exact hfirst last hlast
    | cons turn'' earlier =>
        obtain ⟨rfl, htail⟩ := List.cons.inj hsplit
        refine hrest earlier turn' later htail last ?_
        rwa [List.append_assoc]

/-- **The subtractions of the second pass.** -/
theorem listDeltas_iff {process_table : ObjectTable Pid Process}
    (h : process_table.Ok Process.pid) {seen : List Turn} (hseen : Remembers process_table seen)
    (total mem_total : BitVec 64) (turns : List Turn) :
    (∀ delta ∈ listDeltas total mem_total turns process_table, delta.1.ExactDelta delta.2) ↔
      Continue seen turns := by
  induction turns generalizing process_table seen with
  | nil =>
      refine iff_of_true (fun _ hd => absurd hd List.not_mem_nil) ?_
      intro earlier turn later hsplit
      simp at hsplit
  | cons turn turns ih =>
      obtain ⟨table', htable', hok, _, hfind, _⟩ := listProcess_spec h total mem_total turn.listed
      have hrest := ih hok (hseen.listed turn hfind)
      rw [continue_cons, listDeltas, htable', Option.elim_some, List.forall_mem_append, hrest]
      refine and_congr_left' ?_
      have hlast := hseen turn.pid
      cases hprocess : process_table.find turn.pid with
      | none =>
          rw [hprocess, Option.map_none, eq_comm, Option.map_eq_none_iff] at hlast
          simp [hlast]
      | some process =>
          rw [hprocess, Option.map_some, eq_comm, Option.map_eq_some_iff] at hlast
          obtain ⟨last, hlast, hread⟩ := hlast
          simp [hlast, ← hread, turn.exactDelta_iff]

/-! ### Runs -/

/-- The rtime a tick reads of a pid last is that of its last turn. -/
theorem lastRtime_tick (t : LifeTick) (pid : Pid) :
    t.tick.lastRtime pid = (lastTurn pid t.turns).map Turn.read := by
  have hturns : turns pid t.tick.proclist =
      (t.turns.filter fun turn => turn.pid = pid).map Turn.listed := by
    rw [turns, LifeTick.tick, List.filter_map]
    rfl
  rw [SystemTick.lastRtime, hturns, List.getLast?_map, Option.map_map, lastTurn]
  rfl

/-- What a tick leaves in the table. -/
theorem Ticked.remembers {total : BitVec 64} {t : LifeTick}
    {process_table process_table' : ObjectTable Pid Process}
    (h : Ticked total t.tick process_table process_table') :
    Remembers process_table' t.turns := by
  intro pid
  rw [← lastRtime_tick, h.find_eq]
  by_cases hmem : pid ∈ t.tick.pids
  · obtain ⟨process, hprocess, hrtime⟩ :=
      SystemTick.shown_of_mem hmem total (process_table.find pid)
    rw [hprocess, hrtime, Option.map_some]
  · rw [SystemTick.shown_of_not_mem hmem, SystemTick.lastRtime, turns_eq_nil_iff.2 hmem]
    rfl

/-- **After every run the table has the time that was read last** of every listed pid. -/
theorem lastUsed_of_run (ticks : List LifeTick) :
    ∃ monitor, Runs.run SystemMonitor.lifeTick SystemMonitor.init ticks = some monitor ∧
      monitor.process_table.Ok Process.pid ∧
      Remembers monitor.process_table (lastTurns ticks) := by
  induction ticks using List.reverseRecOn with
  | nil =>
      refine ⟨SystemMonitor.init, rfl, ObjectTable.ok_empty, ?_⟩
      intro pid
      rfl
  | append_singleton ticks t ih =>
      obtain ⟨monitor, hrun, hok, _⟩ := ih
      obtain ⟨monitor', htick, _, hticked⟩ := SystemMonitor.tick_spec hok t.tick
      refine ⟨monitor', ?_, hticked.ok, ?_⟩
      · rw [Runs.run_concat, hrun]
        exact htick
      · rw [lastTurns, List.getLast?_concat]
        exact hticked.remembers

/-- **The subtractions of one tick** are exact exactly when its turns continue. -/
theorem SystemMonitor.exact_iff {monitor : SystemMonitor}
    (h : monitor.process_table.Ok Process.pid) {seen : List Turn}
    (hseen : Remembers monitor.process_table seen) (t : LifeTick) :
    monitor.Exact t ↔ Continue seen t.turns := by
  obtain ⟨marked, hmarked, hok, _, _, hfind⟩ := h.updateAll_values Process.pid_clearAlive
  have hseen' : Remembers marked seen := by
    intro pid
    rw [hfind, Option.map_map]
    exact hseen pid
  rw [SystemMonitor.Exact, SystemMonitor.deltas, hmarked, Option.elim_some]
  exact listDeltas_iff hok hseen' _ _ t.turns

theorem SystemMonitor.exact_iff_of_run {before : List LifeTick} {monitor : SystemMonitor}
    (hrun : Runs.run SystemMonitor.lifeTick SystemMonitor.init before = some monitor)
    (t : LifeTick) : monitor.Exact t ↔ Continue (lastTurns before) t.turns := by
  obtain ⟨monitor', hrun', hok, hseen⟩ := lastUsed_of_run before
  obtain rfl := Option.some_inj.1 (hrun.symm.trans hrun')
  exact SystemMonitor.exact_iff hok hseen t

/-- **All subtractions of a run are exact**, they do not wrap and give what the process that has the
pid now has used since the tick before, exactly when every turn continues where the last turn of
its pid in this tick or the one before has left off. -/
theorem cpu_deltas_iff (ticks : List LifeTick) :
    Runs.Guarded SystemMonitor.lifeTick SystemMonitor.Exact SystemMonitor.init ticks ↔
      ∀ before t after, ticks = before ++ t :: after → Continue (lastTurns before) t.turns := by
  constructor
  · intro h before t after hsplit
    obtain ⟨monitor, hrun, _⟩ := lastUsed_of_run before
    exact (SystemMonitor.exact_iff_of_run hrun t).1 (h before t after monitor hsplit hrun)
  · intro h before t after monitor hsplit hrun
    exact (SystemMonitor.exact_iff_of_run hrun t).2 (h before t after hsplit)

/-! ### Lives of processes -/

/-- **What is true of processes** from one tick to the next: the CPU total grows; a process that
keeps its pid was not gone, and had used then what it has used `before`; and one that has taken over
the pid has been started since. -/
def Lives (t t' : LifeTick) : Prop :=
  t.cpu.total < t'.cpu.total ∧ ∀ turn ∈ t'.turns, ∀ last ∈ lastTurn turn.pid t.turns,
    (turn.process = last.process → last.gone = false ∧ turn.before = last.used) ∧
      (turn.process ≠ last.process → turn.before = 0)

/-- **A process that keeps its pid** continues unless it is gone, or if it never used any time. -/
theorem Turn.continues_of_same {turn last : Turn} (hgone : last.gone = false)
    (hbefore : turn.before = last.used) :
    turn.Continues last ↔ turn.gone = false ∨ turn.used = 0 := by
  have hread : last.read = turn.before := by simp [Turn.read, hgone, hbefore]
  have hle : turn.before.toNat ≤ turn.used.toNat := turn.before_le
  rw [Turn.Continues, hread]
  cases turn.gone with
  | false => simp
  | true =>
      rw [if_pos rfl, or_iff_right (by simp)]
      constructor
      · rintro ⟨hzero, heq⟩
        rw [heq, hzero]
      · intro hzero
        rw [hzero] at hle
        have hbefore : turn.before = 0 := BitVec.eq_of_toNat_eq (Nat.le_zero.1 hle)
        exact ⟨hbefore, hzero.trans hbefore.symm⟩

/-- **A process that has taken over its pid** continues if nothing was read of the one before. -/
theorem Turn.continues_of_reused {turn last : Turn} (hbefore : turn.before = 0) :
    turn.Continues last ↔ last.read = 0 ∧ (turn.gone = true → turn.used = 0) := by
  rw [Turn.Continues, hbefore]
  cases turn.gone with
  | false => simp
  | true => simp

/-- **A turn that gives no trouble**: a process that keeps its pid is not gone, if it has used any
time; and one that has taken it over finds no time that was read of the one before. -/
def Turn.Regular (turn last : Turn) : Prop :=
  if turn.process = last.process then turn.gone = false ∨ turn.used = 0
  else last.read = 0 ∧ (turn.gone = true → turn.used = 0)

theorem Lives.continues_iff {t t' : LifeTick} (h : Lives t t') {turn last : Turn}
    (hturn : turn ∈ t'.turns) (hlast : last ∈ lastTurn turn.pid t.turns) :
    turn.Continues last ↔ turn.Regular last := by
  obtain ⟨hsame, hreused⟩ := h.2 turn hturn last hlast
  unfold Turn.Regular
  by_cases hprocess : turn.process = last.process
  · obtain ⟨hgone, hbefore⟩ := hsame hprocess
    rw [if_pos hprocess, Turn.continues_of_same hgone hbefore]
  · rw [if_neg hprocess, Turn.continues_of_reused (hreused hprocess)]

/-- When every pid is listed once, its last turn is one of the tick before. -/
theorem continue_iff_of_nodup {seen turns : List Turn} (h : (turns.map Turn.pid).Nodup) :
    Continue seen turns ↔
      ∀ turn ∈ turns, ∀ last ∈ lastTurn turn.pid seen, turn.Continues last := by
  have hseen : ∀ {earlier turn later}, turns = earlier ++ turn :: later →
      lastTurn turn.pid (seen ++ earlier) = lastTurn turn.pid seen := by
    rintro earlier turn later rfl
    have hnone : (earlier.filter fun other => other.pid = turn.pid) = [] := by
      rw [List.filter_eq_nil_iff]
      intro other hother heq
      rw [List.map_append, List.map_cons] at h
      exact (List.nodup_append.1 h).2.2 _ (List.mem_map_of_mem hother) _ List.mem_cons_self
        (of_decide_eq_true heq)
    rw [lastTurn, List.filter_append, hnone, List.append_nil, lastTurn]
  constructor
  · intro hcontinue turn hturn last hlast
    obtain ⟨earlier, later, hsplit⟩ := List.append_of_mem hturn
    exact hcontinue earlier turn later hsplit last (hseen hsplit ▸ hlast)
  · intro hall earlier turn later hsplit last hlast
    refine hall turn ?_ last (hseen hsplit ▸ hlast)
    rw [hsplit]
    exact List.mem_append_right _ List.mem_cons_self

/-- **The subtractions of a run, for processes that live as they do** and are listed once by each
tick: all of them are exact exactly when all turns are regular, next to those of the tick before. -/
theorem cpu_deltas_of_lives {ticks : List LifeTick} (hlives : ticks.IsChain Lives)
    (honce : ∀ t ∈ ticks, (t.turns.map Turn.pid).Nodup) :
    Runs.Guarded SystemMonitor.lifeTick SystemMonitor.Exact SystemMonitor.init ticks ↔
      ∀ before t t' after, ticks = before ++ t :: t' :: after →
        ∀ turn ∈ t'.turns, ∀ last ∈ lastTurn turn.pid t.turns, turn.Regular last := by
  have hpair : ∀ {before t t' after}, ticks = before ++ t :: t' :: after → Lives t t' ∧
      (Continue (lastTurns (before ++ [t])) t'.turns ↔
        ∀ turn ∈ t'.turns, ∀ last ∈ lastTurn turn.pid t.turns, turn.Continues last) := by
    rintro before t t' after rfl
    have hlast : lastTurns (before ++ [t]) = t.turns := by
      rw [lastTurns, List.getLast?_concat]
      rfl
    rw [hlast]
    exact ⟨(List.isChain_cons_cons.1 hlives.right_of_append).1,
      continue_iff_of_nodup (honce t' (by simp))⟩
  constructor
  · intro h before t t' after hsplit turn hturn last hlast
    obtain ⟨hlives, hiff⟩ := hpair hsplit
    obtain ⟨monitor, hrun, _⟩ := lastUsed_of_run (before ++ [t])
    have hexact := h (before ++ [t]) t' after monitor (by rw [hsplit]; simp) hrun
    rw [SystemMonitor.exact_iff_of_run hrun, hiff] at hexact
    exact (hlives.continues_iff hturn hlast).1 (hexact turn hturn last hlast)
  · intro h before t' after monitor hsplit hrun
    rw [SystemMonitor.exact_iff_of_run hrun]
    rcases List.eq_nil_or_concat' before with rfl | ⟨before, t, rfl⟩
    · -- at the first tick there is nothing to subtract
      rw [continue_iff_of_nodup (honce t' (by rw [hsplit]; simp))]
      intro turn _ last hlast
      cases hlast
    · have hsplit : ticks = before ++ t :: t' :: after := by rw [hsplit]; simp
      obtain ⟨hlives, hiff⟩ := hpair hsplit
      rw [hiff]
      intro turn hturn last hlast
      exact (hlives.continues_iff hturn hlast).2 (h before t t' after hsplit turn hturn last hlast)

/-- A process that has used 100 ticks, and that exits before it is read again. -/
def exitRun : List LifeTick :=
  [⟨⟨1000, 0, 0, 0⟩, ⟨1, 0, 0, 0⟩, ⟨1, 0⟩,
      [⟨7, "init", fun _ => ⟨0, 0⟩, 1, 0, 100, false, by decide⟩]⟩,
    ⟨⟨1400, 0, 0, 0⟩, ⟨1, 0, 0, 0⟩, ⟨1, 0⟩,
      [⟨7, "init", fun _ => ⟨0, 0⟩, 1, 100, 120, true, by decide⟩]⟩]

/-- **A process that exits before it is read**: `0 - 100` wraps. -/
theorem exited_process_wraps :
    List.IsChain Lives exitRun ∧
      ¬ Runs.Guarded SystemMonitor.lifeTick SystemMonitor.Exact SystemMonitor.init exitRun := by
  refine ⟨List.IsChain.cons_cons ⟨by decide, ?_⟩ (.singleton _), by decide⟩
  intro turn hturn last hlast
  obtain rfl := List.mem_singleton.1 hturn
  obtain rfl := Option.some_inj.1 hlast
  exact ⟨fun _ => ⟨rfl, rfl⟩, fun hne => absurd rfl hne⟩

end Usage
