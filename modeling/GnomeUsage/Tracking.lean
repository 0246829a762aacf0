/-
A process list with its history.

The analyzer does not remember when a process last received a packet, or how many connections it
was ever given: connections are freed, and both are recomputed from those that are left.  To say
what the analyzer ought to do with a process, this module writes that history beside the process
list.  Nothing the analyzer does depends on it.

* `NetworkAnalyzer.TrackedProcess` — a process with the number of connections it was given, the
  second of its last packet, and the refresh it was last seen by since;
* `trackPush`, `trackRefresh`, `history` — the histories after a packet, a refresh, and any step;
* `PushEffect`, `trackPush_effect` — **what a packet does to the tracked list**: it goes to a
  connection of some process, to a new connection of one, or to a new process;
* `PushEffect.forall_mem`, `PushEffect.pids` — what holds of the tracked processes after a packet,
  and their ids;
* `history_processes` — the tracked processes are the processes.
-/

import GnomeUsage.Attribution
import GnomeUsage.Timeouts

set_option relaxedAutoImplicit false
set_option autoImplicit false

namespace NetworkAnalyzer

/-- A process with its history. -/
structure TrackedProcess where
  process : NAProcess
  /-- How many connections it was given. -/
  given : ℕ
  /-- The second of the last packet one of its connections received. -/
  last : ℤ
  /-- The second of the last refresh since that packet. -/
  refreshed : Option ℤ
  deriving DecidableEq

/-- The history of a process after a packet of the second `now`, which went to the connection at
`c` and left the process as given. -/
def TrackedProcess.after (now : ℤ) (c : Ptr) (x : TrackedProcess) (process : NAProcess) :
    TrackedProcess where
  process := process
  given := if c ∈ process.connections ∧ c ∉ x.process.connections then x.given + 1 else x.given
  last := if c ∈ process.connections then now else x.last
  refreshed := if c ∈ process.connections then none else x.refreshed

/-- The histories after a packet, for the process list it left. -/
def trackPush (now : ℤ) (c : Ptr) : List TrackedProcess → List NAProcess → List TrackedProcess
  | x :: tracked, process :: processes => x.after now c process :: trackPush now c tracked processes
  | _, processes => processes.map fun process => ⟨process, process.connections.length, now, none⟩

/-- The histories after a refresh at `t`. -/
def trackRefresh (store : ConnStore) (t : Timeval) (tracked : List TrackedProcess) :
    List TrackedProcess :=
  (tracked.filter fun x => !store.timedOut t x.process).map fun x =>
    { x with process := store.trim t x.process, refreshed := some t.tv_sec }

/-- The histories after a step from `σ` to `σ'`. -/
def history (σ σ' : NAState) (tracked : List TrackedProcess) : Act → List TrackedProcess
  | .push a =>
      let packet := packetOf a.header a.address a.s_port a.d_port
      trackPush a.header.ts.tv_sec (σ.receiver packet) tracked σ'.processes
  | .refresh t => trackRefresh σ.store t tracked

/-! ### The tracked processes are the processes -/

theorem trackPush_processes (now : ℤ) (c : Ptr) (tracked : List TrackedProcess)
    (processes : List NAProcess) :
    (trackPush now c tracked processes).map TrackedProcess.process = processes := by
  induction tracked generalizing processes with
  | nil => simp [trackPush, Function.comp_def]
  | cons x tracked ih =>
      cases processes with
      | nil => rfl
      | cons process processes =>
          simp only [trackPush, List.map_cons, ih]
          rfl

theorem trackRefresh_processes (store : ConnStore) (t : Timeval) (tracked : List TrackedProcess) :
    (trackRefresh store t tracked).map TrackedProcess.process =
      (store.survivors t (tracked.map TrackedProcess.process)).map (store.trim t) := by
  simp only [trackRefresh, ConnStore.survivors, List.map_map, List.filter_map]
  rfl

/-- **The tracked processes are the processes**, after any step. -/
theorem history_processes {host : Host} {σ σ' : NAState} (h : σ.Ok)
    {tracked : List TrackedProcess}
    (haligned : tracked.map TrackedProcess.process = σ.processes) {e : Event}
    (hstep : step host σ e = some σ') :
    (history σ σ' tracked e.act).map TrackedProcess.process = σ'.processes := by
  cases e with
  | push header address s_port d_port lookup => exact trackPush_processes ..
  | refresh t =>
      simp only [step, naProcessInfoGetAll_eq h, Option.map_some] at hstep
      cases hstep
      simp only [history, Event.act, trackRefresh_processes, haligned]

/-! ### The effect of a packet -/

theorem trackPush_append {now : ℤ} {c : Ptr} {xs : List TrackedProcess} {ps : List NAProcess}
    (hlen : xs.length = ps.length) (ys : List TrackedProcess) (qs : List NAProcess) :
    trackPush now c (xs ++ ys) (ps ++ qs) = trackPush now c xs ps ++ trackPush now c ys qs := by
  induction xs generalizing ps with
  | nil =>
      obtain rfl := List.length_eq_zero_iff.1 hlen.symm
      rfl
  | cons x xs ih =>
      cases ps with
      | nil => cases hlen
      | cons p ps => simp only [List.cons_append, trackPush, ih (Nat.succ.inj hlen)]

theorem trackPush_same (now : ℤ) (c : Ptr) (tracked : List TrackedProcess) :
    trackPush now c tracked (tracked.map TrackedProcess.process) =
      tracked.map fun x => x.after now c x.process := by
  induction tracked with
  | nil => rfl
  | cons x tracked ih => simp only [List.map_cons, trackPush, ih]

/-- A packet for another process changes nothing. -/
theorem TrackedProcess.after_other {now : ℤ} {c : Ptr} {x : TrackedProcess}
    (h : c ∉ x.process.connections) : x.after now c x.process = x := by
  simp [TrackedProcess.after, h]

theorem trackPush_other {now : ℤ} {c : Ptr} {tracked : List TrackedProcess}
    (h : ∀ x ∈ tracked, c ∉ x.process.connections) :
    trackPush now c tracked (tracked.map TrackedProcess.process) = tracked := by
  rw [trackPush_same]
  exact (List.map_congr_left fun x hx => TrackedProcess.after_other (h x hx)).trans
    (List.map_id' tracked)

/-- A connection that is new to the process it is given to. -/
theorem TrackedProcess.after_attach {now : ℤ} {c : Ptr} {x : TrackedProcess}
    (h : c ∉ x.process.connections) :
    x.after now c (x.process.attach c) = ⟨x.process.attach c, x.given + 1, now, none⟩ := by
  have hc : c ∈ (x.process.attach c).connections :=
    List.mem_append_right _ (List.mem_singleton_self c)
  simp [TrackedProcess.after, hc, h]

/-- **What a packet does to the tracked list**, when it goes to the connection at `c`. -/
inductive PushEffect (now : ℤ) (lookup : ProcessLookup) (c : Ptr)
    (tracked : List TrackedProcess) : List TrackedProcess → Prop
  /-- The connection was there already. -/
  | received : PushEffect now lookup c tracked (tracked.map fun x => x.after now c x.process)
  /-- The connection is new, and given to the process of the program that was found. -/
  | attached {before after : List TrackedProcess} {x : TrackedProcess} {node : NAProgram}
      (hfresh : ∀ y ∈ tracked, c ∉ y.process.connections) (hnode : lookup.node = some node)
      (hsplit : tracked = before ++ x :: after) (hpid : x.process.pid = node.pid) :
      PushEffect now lookup c tracked
        (before ++ ⟨x.process.attach c, x.given + 1, now, none⟩ :: after)
  /-- The connection is new, and so is the process of the program that was found. -/
  | opened {process : NAProcess} {node : NAProgram}
      (hfresh : ∀ y ∈ tracked, c ∉ y.process.connections) (hnode : lookup.node = some node)
      (hpid : process.pid = node.pid) (hnew : ∀ y ∈ tracked, y.process.pid ≠ node.pid)
      (hconnections : process.connections = [c]) :
      PushEffect now lookup c tracked (tracked ++ [⟨process, 1, now, none⟩])
  /-- The connection is new, and no program was found. -/
  | unknown {process : NAProcess} (hfresh : ∀ y ∈ tracked, c ∉ y.process.connections)
      (hnode : lookup.node = none) (hpid : process.pid = 0)
      (hconnections : process.connections = [c]) :
      PushEffect now lookup c tracked (tracked ++ [⟨process, 1, now, none⟩])

theorem trackPush_new {now : ℤ} {c : Ptr} {tracked : List TrackedProcess} {process : NAProcess}
    (h : ∀ x ∈ tracked, c ∉ x.process.connections) (hprocess : process.connections = [c]) :
    trackPush now c tracked (tracked.map TrackedProcess.process ++ [process]) =
      tracked ++ [⟨process, 1, now, none⟩] := by
  have hlen : tracked.length = (tracked.map TrackedProcess.process).length :=
    (List.length_map _).symm
  have happend := @trackPush_append now c _ _ hlen [] [process]
  rw [List.append_nil, trackPush_other h] at happend
  rw [happend]
  simp [trackPush, hprocess]

theorem trackPush_effect {σ σ' : NAState} (hok : σ.Ok) {tracked : List TrackedProcess}
    (haligned : tracked.map TrackedProcess.process = σ.processes) {lookup : ProcessLookup}
    {c : Ptr} (h : Receives σ σ' lookup c) (now : ℤ) :
    PushEffect now lookup c tracked (trackPush now c tracked σ'.processes) := by
  cases h with
  | known hc hconnections hprocesses =>
      rw [hprocesses, ← haligned, trackPush_same]
      exact .received
  | opened hc hconnections key hprocesses =>
      have hfresh : ∀ x ∈ tracked, c ∉ x.process.connections := by
        intro x hx hmem
        have hprocess : x.process ∈ σ.processes := haligned ▸ List.mem_map_of_mem hx
        have hlt := hok.store.lt_fresh c (hok.owned c (mem_ownedBy.2 ⟨_, hprocess, hmem⟩))
        exact absurd hlt (by rw [hc]; exact lt_irrefl _)
      obtain ⟨node, uid⟩ := lookup
      cases node with
      | none =>
          obtain ⟨process, hpid, hprocess, heq⟩ :=
            attachedUnknown_of_none σ.processes uid key c
          rw [hprocesses, heq, ← haligned, trackPush_new hfresh hprocess]
          exact .unknown hfresh rfl hpid hprocess
      | some node =>
          rcases @attachedTo_of_node σ.processes node uid key c with
            ⟨before, process, after, hsplit, _, hpid, heq⟩ | ⟨hnew, process, hpid, hprocess, heq⟩
          · rw [hprocesses, heq]
            rw [← haligned] at hsplit
            obtain ⟨before, xs, rfl, rfl, hxs⟩ := List.map_eq_append_iff.1 hsplit
            obtain ⟨x, after, rfl, rfl, rfl⟩ := List.map_eq_cons_iff.1 hxs
            have hx := hfresh x (List.mem_append_right _ List.mem_cons_self)
            have hbefore := @trackPush_other now c before fun y hy =>
              hfresh y (List.mem_append_left _ hy)
            have hafter := @trackPush_other now c after fun y hy =>
              hfresh y (List.mem_append_right _ (List.mem_cons_of_mem _ hy))
            rw [trackPush_append (List.length_map _).symm, trackPush, hbefore, hafter,
              TrackedProcess.after_attach hx]
            exact .attached hfresh rfl rfl hpid
          · rw [hprocesses, heq, ← haligned, trackPush_new hfresh hprocess]
            refine .opened hfresh rfl hpid ?_ hprocess
            intro x hx
            exact hnew x.process (haligned ▸ List.mem_map_of_mem hx)

/-! ### What holds after a packet -/

variable {now : ℤ} {lookup : ProcessLookup} {c : Ptr} {tracked tracked' : List TrackedProcess}

/-- What holds of all tracked processes after a packet: it holds of the old ones with the packet
noted, of the one that is given the connection, and of a new one. -/
theorem PushEffect.forall_mem {p : TrackedProcess → Prop}
    (h : PushEffect now lookup c tracked tracked')
    (hold : ∀ x ∈ tracked, p (x.after now c x.process))
    (hattached : ∀ x ∈ tracked, ∀ node, lookup.node = some node → x.process.pid = node.pid →
      p ⟨x.process.attach c, x.given + 1, now, none⟩)
    (hnew : ∀ process : NAProcess, process.connections = [c] → p ⟨process, 1, now, none⟩) :
    ∀ y ∈ tracked', p y := by
  have hother : ∀ x ∈ tracked, c ∉ x.process.connections → p x := by
    intro x hx hc
    have hsame := hold x hx
    rwa [TrackedProcess.after_other hc] at hsame
  intro y hy
  cases h with
  | received =>
      obtain ⟨x, hx, rfl⟩ := List.mem_map.1 hy
      exact hold x hx
  | @attached before after x node hfresh hnode hsplit hpid =>
      have hmem : ∀ {z}, z ∈ before ∨ z = x ∨ z ∈ after → z ∈ tracked := by
        intro z hz
        rw [hsplit, List.mem_append, List.mem_cons]
        exact hz
      rw [List.mem_append, List.mem_cons] at hy
      rcases hy with hy | rfl | hy
      · exact hother y (hmem (.inl hy)) (hfresh y (hmem (.inl hy)))
      · exact hattached x (hmem (.inr (.inl rfl))) node hnode hpid
      · exact hother y (hmem (.inr (.inr hy))) (hfresh y (hmem (.inr (.inr hy))))
  | @opened process node hfresh _ _ _ hconnections =>
      rcases List.mem_append.1 hy with hy | hy
      · exact hother y hy (hfresh y hy)
      · exact List.mem_singleton.1 hy ▸ hnew process hconnections
  | @unknown process hfresh _ _ hconnections =>
      rcases List.mem_append.1 hy with hy | hy
      · exact hother y hy (hfresh y hy)
      · exact List.mem_singleton.1 hy ▸ hnew process hconnections

/-- The ids after a packet: the same, or one more, which is zero or new. -/
theorem PushEffect.pids (h : PushEffect now lookup c tracked tracked') :
    tracked'.map (fun x => x.process.pid) = tracked.map (fun x => x.process.pid) ∨
      ∃ pid, tracked'.map (fun x => x.process.pid) =
          tracked.map (fun x => x.process.pid) ++ [pid] ∧
        (pid = 0 ∨ pid ∉ tracked.map fun x => x.process.pid) := by
  cases h with
  | received =>
      left
      rw [List.map_map]
      rfl
  | attached _ _ hsplit _ =>
      left
      rw [hsplit, List.map_append, List.map_append, List.map_cons, List.map_cons]
      rfl
  | @opened process node _ _ hpid hnew _ =>
      refine .inr ⟨process.pid, List.map_append, .inr ?_⟩
      intro hmem
      obtain ⟨x, hx, heq⟩ := List.mem_map.1 hmem
      exact hnew x hx (heq.trans hpid)
  | @unknown process _ _ hpid _ => exact .inr ⟨process.pid, List.map_append, .inl hpid⟩

end NetworkAnalyzer
