/-
The views of the loads (`usage-cpu-view.vala`, `usage-memory-view.vala`, `usage-element-list.vala`).

The monitor and the two views each have a timer of their own, and the timers go off in any order: a
view shows what the monitor has read last, maybe twice, maybe not at all.  What is shown is a level
bar, a percentage and a graph of the CPU load, and headlines with the use of memory and swap space,
each of them on a scale of its own.

* `CPUView`, `MemoryView`, `Views` — the views, with the monitor;
* `CPUView.refresh`, `MemoryView.refresh`, `Views.step` — the callbacks of the three timers;
* `SystemTick.Sound` — what the kernel says of its memory makes sense;
* `InScale` — **the invariant**;
* `ViewEvent.Fed` — a view finds the six processes that it shows;
* `views_in_scale` — **as long as the views find six processes they go on**, whatever the timers do,
  and stay on their scales, and the graph has the last loads that were shown.

All amounts are doubles; a quotient by zero is not a number.
-/

import GnomeUsage.GraphWidget
import GnomeUsage.Loads
import GnomeUsage.NetworkList
import GnomeUsage.TopProcesses

set_option relaxedAutoImplicit false
set_option autoImplicit false

namespace Usage

/-- `MainLevelBar.NUM_LEVELS`. -/
def NUM_LEVELS : ℚ := 20

/-- `(int) (scale * load)`, undefined when the load is not a number. -/
def Ratio.scaled (scale : ℚ) (ratio : Ratio) : Option ℤ :=
  if ratio.den = 0 then none else castInt (Usage.double (scale * ratio.double))

/-- `(int) Math.ceil (load * level_bar.NUM_LEVELS)`. -/
def Ratio.level (ratio : Ratio) : Option ℤ :=
  if ratio.den = 0 then none else castInt ⌈Usage.double (ratio.double * NUM_LEVELS)⌉

/-- The percentage at the end of a row. -/
def ElementRow.endLabel (row : ElementRow) : Option ℤ := row.load.scaled 100

/-! ### The views -/

/-- The labels of a view are given by their percentages. -/
structure CPUView where
  level_bar : ℤ
  label : Option ℤ
  graph : GraphWidget
  proc_list : List ElementRow

structure MemoryView where
  proc_list : List ElementRow

structure Views where
  monitor : SystemMonitor
  cpu : CPUView
  memory : MemoryView

def Views.init : Views := ⟨.init, ⟨0, none, {}, []⟩, ⟨[]⟩⟩

variable (rounding : Rounding)

/-- The callback of `CPUView`; `none` when something in it is not defined. -/
def CPUView.refresh (view : CPUView) (monitor : SystemMonitor) : Option CPUView := do
  let level ← monitor.cpu_load.level
  let percentage ← monitor.cpu_load.scaled 100
  let processes ← monitor.processes
  let rows ← cpuRows rounding processes
  some
    { level_bar := level
      label := some percentage
      graph := view.graph.push monitor.cpu_load.double
      proc_list := rows }

/-- The callback of `MemoryView`. -/
def MemoryView.refresh (monitor : SystemMonitor) : Option MemoryView := do
  let processes ← monitor.processes
  let rows ← memoryRows rounding monitor processes
  some ⟨rows⟩

/-- A timer goes off. -/
inductive ViewEvent where
  | tick (t : SystemTick)
  | cpu
  | memory

/-- A timer, with the load that is shown if it is that of `CPUView`. -/
def Views.step (views : Views) : ViewEvent → Option (Views × Option ℚ)
  | .tick t => (views.monitor.tick t).map fun monitor => ({ views with monitor }, none)
  | .cpu => (views.cpu.refresh rounding views.monitor).map fun cpu =>
      ({ views with cpu }, some views.monitor.cpu_load.double)
  | .memory => (MemoryView.refresh rounding views.monitor).map fun memory =>
      ({ views with memory }, none)

/-- The ticks of some events. -/
def ticksOf (es : List ViewEvent) : List SystemTick :=
  es.filterMap fun
    | .tick t => some t
    | _ => none

/-! ### Shares -/

/-- A share of something that there is. -/
structure Ratio.Share (ratio : Ratio) : Prop where
  den_ne : ratio.den ≠ 0
  num_le : ratio.num.toNat ≤ ratio.den.toNat

theorem share_zero : Ratio.zero.Share := ⟨by decide, by decide⟩

theorem Ratio.Share.double_mem {ratio : Ratio} (h : ratio.Share) :
    0 ≤ ratio.double ∧ ratio.double ≤ 1 :=
  ⟨ratio.double_nonneg, Ratio.double_le_one h.num_le⟩

/-- **The percentage of a share.** -/
theorem Ratio.Share.scaled {ratio : Ratio} (h : ratio.Share) :
    ratio.scaled 100 = some ⌊Usage.double (100 * ratio.double)⌋ ∧
      0 ≤ ⌊Usage.double (100 * ratio.double)⌋ ∧ ⌊Usage.double (100 * ratio.double)⌋ ≤ 100 := by
  obtain ⟨h₀, h₁⟩ := h.double_mem
  have hnonneg : 0 ≤ 100 * ratio.double := by positivity
  have hle := @double_le_natCast _ 100 (by decide) hnonneg (by push_cast; linarith)
  rw [Ratio.scaled, if_neg h.den_ne]
  exact castInt_of_mem (by decide) (Usage.double_nonneg hnonneg) (by exact_mod_cast hle)

/-- **The level of a share.** -/
theorem Ratio.Share.level {ratio : Ratio} (h : ratio.Share) :
    ratio.level = some ⌈Usage.double (ratio.double * NUM_LEVELS)⌉ ∧
      0 ≤ ⌈Usage.double (ratio.double * NUM_LEVELS)⌉ ∧
      ⌈Usage.double (ratio.double * NUM_LEVELS)⌉ ≤ 20 := by
  obtain ⟨h₀, h₁⟩ := h.double_mem
  have hnonneg : 0 ≤ ratio.double * NUM_LEVELS := by
    unfold NUM_LEVELS
    positivity
  have hle := @double_le_natCast _ 20 (by decide) hnonneg (by
    unfold NUM_LEVELS
    push_cast
    linarith)
  have hlo := Int.ceil_nonneg (Usage.double_nonneg hnonneg)
  have hhi : ⌈Usage.double (ratio.double * NUM_LEVELS)⌉ ≤ 20 :=
    Int.ceil_le.2 (by exact_mod_cast hle)
  obtain ⟨hcast, _⟩ := @castInt_of_mem ⌈Usage.double (ratio.double * NUM_LEVELS)⌉ 20 (by decide)
    (by exact_mod_cast hlo) (by exact_mod_cast hhi)
  rw [Int.floor_intCast] at hcast
  exact ⟨by rw [Ratio.level, if_neg h.den_ne, hcast], hlo, hhi⟩

/-! ### The monitor -/

/-- **Memory figures that make sense**: buffers and caches are part of what is used, and there is no
more used than there is; and there is some memory and some swap space. -/
structure SystemTick.Sound (t : SystemTick) : Prop where
  mem_ne : t.mem.total ≠ 0
  parts_le : t.mem.buffer.toNat + t.mem.cached.toNat ≤ t.mem.used.toNat
  used_le : t.mem.used.toNat ≤ t.mem.total.toNat
  swap_ne : t.swap.total ≠ 0
  swap_le : t.swap.used.toNat ≤ t.swap.total.toNat

/-- All three loads of a monitor are shares. -/
structure SystemMonitor.InScale (monitor : SystemMonitor) : Prop where
  cpu_load : monitor.cpu_load.Share
  mem_usage : monitor.mem_usage.Share
  swap_usage : monitor.swap_usage.Share

theorem SystemMonitor.inScale_init : SystemMonitor.init.InScale :=
  ⟨share_zero, share_zero, share_zero⟩

/-- **A tick leaves the monitor with shares.** -/
theorem SystemMonitor.inScale_tick {monitor monitor' : SystemMonitor} {t : SystemTick}
    (h : monitor.tick t = some monitor') (hadvance : monitor.counters.Advance t.counters)
    (hsound : t.Sound) : monitor'.InScale := by
  obtain ⟨table, rfl⟩ := SystemMonitor.of_tick h
  obtain ⟨hused, htotal, hshare⟩ := hadvance
  have hden : (t.cpu.total - monitor.cpu_last_total).toNat =
      t.counters.total - monitor.counters.total := BitVec.toNat_sub_of_le htotal.le
  refine ⟨⟨?_, ?_⟩, ⟨hsound.mem_ne, ?_⟩, ⟨hsound.swap_ne, hsound.swap_le⟩⟩
  · intro hzero
    have hzero : (t.cpu.total - monitor.cpu_last_total).toNat = 0 := congrArg BitVec.toNat hzero
    omega
  · have hnum : (t.cpu.used - monitor.cpu_last_used).toNat =
        t.counters.used - monitor.counters.used := BitVec.toNat_sub_of_le hused
    exact hnum.trans_le (hshare.trans_eq hden.symm)
  · have hparts := hsound.parts_le
    have hle := hsound.used_le
    have hbuffer : (t.mem.used - t.mem.buffer).toNat = t.mem.used.toNat - t.mem.buffer.toNat :=
      BitVec.toNat_sub_of_le (BitVec.le_def.2 (by omega))
    have hcached : (t.mem.used - t.mem.buffer - t.mem.cached).toNat =
        (t.mem.used - t.mem.buffer).toNat - t.mem.cached.toNat :=
      BitVec.toNat_sub_of_le (BitVec.le_def.2 (by omega))
    change (t.mem.used - t.mem.buffer - t.mem.cached).toNat ≤ t.mem.total.toNat
    omega

/-! ### The views -/

/-- **The headlines** of the memory view have percentages. -/
theorem MemoryView.headlines {monitor : SystemMonitor} {view : MemoryView}
    (h : monitor.InScale) (hrefresh : MemoryView.refresh rounding monitor = some view) :
    ∀ row ∈ view.proc_list, row.is_headline = true →
      ∃ percentage, row.endLabel = some percentage ∧ 0 ≤ percentage ∧ percentage ≤ 100 := by
  simp only [MemoryView.refresh, Option.bind_eq_bind, Option.bind_eq_some_iff] at hrefresh
  obtain ⟨processes, _, rows, hrows, heq⟩ := hrefresh
  obtain rfl := Option.some_inj.1 heq
  obtain ⟨below, hbelow, rfl⟩ := Option.map_eq_some_iff.1 hrows
  have hnone : ∀ row ∈ below, row.is_headline = false := by
    obtain ⟨widget_list, hlist, htake⟩ := Option.bind_eq_some_iff.1 hbelow
    obtain ⟨_, rfl⟩ := takeRows_eq_some_iff.1 htake
    rw [widgetList, Lists.foldlM_bind] at hlist
    obtain ⟨all, hall, hfold⟩ := Option.bind_eq_some_iff.1 hlist
    obtain ⟨widget_list', hlist', _, hperm⟩ := widgetList_of_mapM hall
    rw [widgetList, Lists.foldlM_bind, hall, Option.bind_some, hfold] at hlist'
    obtain rfl := Option.some_inj.1 hlist'
    intro row hrow
    exact (rows_of_mapM hall row (hperm.mem_iff.1 (List.mem_of_mem_take hrow))).1
  intro row hrow hheadline
  rcases List.mem_cons.1 hrow with rfl | hrow
  · exact ⟨_, h.mem_usage.scaled⟩
  · rcases List.mem_cons.1 hrow with rfl | hrow
    · exact ⟨_, h.swap_usage.scaled⟩
    · rw [hnone row hrow] at hheadline
      cases hheadline

/-- What `CPUView` shows of a load. -/
structure CPUView.Shows (view : CPUView) (load : ℚ) : Prop where
  label : view.label = some ⌊double (100 * load)⌋
  level_bar : view.level_bar = ⌈double (load * NUM_LEVELS)⌉
  label_mem : 0 ≤ ⌊double (100 * load)⌋ ∧ ⌊double (100 * load)⌋ ≤ 100
  level_mem : 0 ≤ view.level_bar ∧ view.level_bar ≤ 20

theorem CPUView.shows_refresh {monitor : SystemMonitor} {view view' : CPUView}
    (h : monitor.InScale) (hrefresh : view.refresh rounding monitor = some view') :
    view'.graph = view.graph.push monitor.cpu_load.double ∧
      view'.Shows monitor.cpu_load.double := by
  obtain ⟨hlevel, hlevel_mem⟩ := h.cpu_load.level
  obtain ⟨hlabel, hlabel_mem⟩ := h.cpu_load.scaled
  simp only [CPUView.refresh, hlevel, hlabel, Option.bind_eq_bind, Option.bind_some,
    Option.bind_eq_some_iff] at hrefresh
  obtain ⟨processes, _, rows, _, heq⟩ := hrefresh
  obtain rfl := Option.some_inj.1 heq
  exact ⟨rfl, rfl, rfl, hlabel_mem, hlevel_mem⟩

/-- **The invariant**, where `loads` have been shown and `es` are yet to come. -/
structure InScale (loads : List ℚ) (views : Views) (es : List ViewEvent) : Prop where
  advance : (views.monitor.counters :: (ticksOf es).map SystemTick.counters).IsChain
    Counters.Advance
  sound : ∀ t ∈ ticksOf es, t.Sound
  monitor : views.monitor.InScale
  shares : ∀ load ∈ loads, 0 ≤ load ∧ load ≤ 1
  graph : views.cpu.graph = loads.foldl GraphWidget.push {}
  shown : ∀ load ∈ loads.getLast?, views.cpu.Shows load
  headlines : ∀ row ∈ views.memory.proc_list, row.is_headline = true →
    ∃ percentage, row.endLabel = some percentage ∧ 0 ≤ percentage ∧ percentage ≤ 100

theorem inScale_init {es : List ViewEvent}
    (hadvance : (⟨0, 0⟩ :: (ticksOf es).map SystemTick.counters).IsChain Counters.Advance)
    (hsound : ∀ t ∈ ticksOf es, t.Sound) : InScale [] Views.init es where
  advance := hadvance
  sound := hsound
  monitor := SystemMonitor.inScale_init
  shares := nofun
  graph := rfl
  shown := nofun
  headlines := nofun

/-- **Whichever timer goes off**, the invariant holds after it. -/
theorem InScale.step {loads : List ℚ} {views views' : Views} {e : ViewEvent}
    {es : List ViewEvent} {answer : Option ℚ} (h : InScale loads views (e :: es))
    (hstep : views.step rounding e = some (views', answer)) :
    InScale (loads ++ answer.toList) views' es := by
  cases e with
  | tick t =>
      obtain ⟨monitor, htick, heq⟩ := Option.map_eq_some_iff.1 hstep
      cases heq
      have hadvance := h.advance
      have hticks : ticksOf (.tick t :: es) = t :: ticksOf es := rfl
      rw [hticks, List.map_cons, List.isChain_cons_cons] at hadvance
      have hsound := h.sound
      rw [hticks] at hsound
      obtain ⟨hsound, hrest⟩ := List.forall_mem_cons.1 hsound
      rw [Option.toList_none, List.append_nil]
      exact
        { h with
          advance := by
            rw [SystemMonitor.counters_of_tick htick]
            exact hadvance.2
          sound := hrest
          monitor := SystemMonitor.inScale_tick htick hadvance.1 hsound }
  | cpu =>
      obtain ⟨cpu, hrefresh, heq⟩ := Option.map_eq_some_iff.1 hstep
      cases heq
      obtain ⟨hgraph, hshows⟩ := CPUView.shows_refresh rounding h.monitor hrefresh
      refine
        { h with
          shares := ?_
          graph := ?_
          shown := ?_ }
      · intro load hload
        rcases List.mem_append.1 hload with hload | hload
        · exact h.shares load hload
        · obtain rfl := List.mem_singleton.1 hload
          exact h.monitor.cpu_load.double_mem
      · rw [Option.toList_some, List.foldl_append, ← h.graph]
        exact hgraph
      · intro load hload
        rw [Option.toList_some, List.getLast?_concat] at hload
        obtain rfl := Option.some_inj.1 hload
        exact hshows
  | memory =>
      obtain ⟨memory, hrefresh, heq⟩ := Option.map_eq_some_iff.1 hstep
      cases heq
      rw [Option.toList_none, List.append_nil]
      exact { h with headlines := MemoryView.headlines rounding h.monitor hrefresh }

/-! ### Whether the views go on -/

/-- After some ticks there are six processes, all with a load that a row can have. -/
def FedBy (load : Process → Ratio) (ticks : List SystemTick) : Prop :=
  ∃ monitor processes, Runs.run SystemMonitor.tick SystemMonitor.init ticks = some monitor ∧
    monitor.processes = some processes ∧ MAX_NUM_ELEMENTS ≤ processes.length ∧
    ∀ process ∈ processes, (rounding.sortId (load process)).isSome = true

/-- **A view that refreshes finds its six processes**, after the ticks that there were. -/
def ViewEvent.Fed (ticks : List SystemTick) : ViewEvent → Prop
  | .tick _ => True
  | .cpu => FedBy rounding Process.cpu_load ticks
  | .memory => FedBy rounding Process.mem_usage ticks

theorem fedBy_iff {load : Process → Ratio} {ticks : List SystemTick} {monitor : SystemMonitor}
    (hrun : Runs.run SystemMonitor.tick SystemMonitor.init ticks = some monitor) :
    FedBy rounding load ticks ↔
      ∃ processes, monitor.processes = some processes ∧
        (processRows rounding load processes).isSome = true := by
  constructor
  · rintro ⟨monitor', processes, hrun', hprocesses, hfed⟩
    obtain rfl := Option.some_inj.1 (hrun.symm.trans hrun')
    exact ⟨processes, hprocesses, processRows_isSome_iff.2 hfed⟩
  · rintro ⟨processes, hprocesses, hrows⟩
    exact ⟨monitor, processes, hrun, hprocesses, processRows_isSome_iff.1 hrows⟩

/-- A timer, without the load that is shown. -/
def Views.next (views : Views) (e : ViewEvent) : Option Views :=
  (views.step rounding e).map Prod.fst

/-- The monitor has seen the ticks. -/
theorem monitor_of_run {es : List ViewEvent} {views : Views}
    (hrun : Runs.run (Views.next rounding) Views.init es = some views) :
    Runs.run SystemMonitor.tick SystemMonitor.init (ticksOf es) = some views.monitor := by
  refine @Runs.run_history Views ViewEvent (Views.next rounding)
    (fun es views => Runs.run SystemMonitor.tick SystemMonitor.init (ticksOf es) =
      some views.monitor) ?_ [] Views.init views es rfl hrun
  intro hist views e views' h hnext
  obtain ⟨⟨_, answer⟩, hstep, rfl⟩ := Option.map_eq_some_iff.1 hnext
  rw [ticksOf, List.filterMap_append, ← ticksOf]
  cases e with
  | tick t =>
      obtain ⟨monitor, htick, heq⟩ := Option.map_eq_some_iff.1 hstep
      cases heq
      rw [← htick]
      exact (Runs.run_concat _ _ _ t).trans (by rw [h, Option.bind_some])
  | cpu =>
      obtain ⟨cpu, _, heq⟩ := Option.map_eq_some_iff.1 hstep
      cases heq
      exact (congrArg _ (List.append_nil _)).trans h
  | memory =>
      obtain ⟨memory, _, heq⟩ := Option.map_eq_some_iff.1 hstep
      cases heq
      exact (congrArg _ (List.append_nil _)).trans h

/-- **A step is defined** when the view finds its six processes. -/
theorem step_isSome_iff {es : List ViewEvent} {views : Views} (hscale : views.monitor.InScale)
    (hrun : Runs.run SystemMonitor.tick SystemMonitor.init (ticksOf es) = some views.monitor)
    (e : ViewEvent) : (views.next rounding e).isSome = true ↔ e.Fed rounding (ticksOf es) := by
  obtain ⟨monitor, processes, hmonitor, hprocesses⟩ := processes_of_run (ticksOf es)
  obtain rfl := Option.some_inj.1 (hmonitor.symm.trans hrun)
  rw [Views.next, Option.isSome_map]
  cases e with
  | tick t =>
      obtain ⟨monitor', hrun', hok⟩ := run_tick_ok (ticksOf es)
      obtain rfl := Option.some_inj.1 (hrun'.symm.trans hrun)
      obtain ⟨_, htick, _⟩ := SystemMonitor.tick_spec hok t
      rw [Views.step, htick]
      exact iff_of_true rfl trivial
  | cpu =>
      have hlevel := hscale.cpu_load.level.1
      have hlabel := hscale.cpu_load.scaled.1
      rw [Views.step, Option.isSome_map, ViewEvent.Fed, fedBy_iff rounding hrun]
      simp only [CPUView.refresh, hlevel, hlabel, hprocesses, Option.bind_eq_bind, Option.bind_some,
        Option.isSome_bind, Option.isSome_some, Option.some_inj, exists_eq_left', cpuRows,
        Option.any_true]
  | memory =>
      rw [Views.step, Option.isSome_map, ViewEvent.Fed, fedBy_iff rounding hrun]
      simp only [MemoryView.refresh, hprocesses, Option.bind_eq_bind, Option.bind_some,
        Option.isSome_bind, Option.isSome_some, Option.some_inj, exists_eq_left', memoryRows,
        Option.any_true, Option.isSome_map]

variable {rounding}

/-- What holds of the ticks of some events holds of those before. -/
theorem advance_of_append {pre post : List ViewEvent}
    (h : (⟨0, 0⟩ :: (ticksOf (pre ++ post)).map SystemTick.counters).IsChain Counters.Advance) :
    (⟨0, 0⟩ :: (ticksOf pre).map SystemTick.counters).IsChain Counters.Advance := by
  rw [ticksOf, List.filterMap_append, List.map_append, ← List.cons_append] at h
  exact h.left_of_append

theorem inScale_of_collect {es : List ViewEvent}
    (hadvance : (⟨0, 0⟩ :: (ticksOf es).map SystemTick.counters).IsChain Counters.Advance)
    (hsound : ∀ t ∈ ticksOf es, t.Sound) {views : Views} {loads : List ℚ}
    (hrun : Runs.collect (Views.step rounding) Views.init es = some (views, loads)) :
    InScale loads views [] :=
  Runs.collect_history (fun h hstep => h.step rounding hstep) (inScale_init hadvance hsound) hrun

/-- **The views go on** as long as they find six processes. -/
theorem views_isSome_iff {es : List ViewEvent}
    (hadvance : (⟨0, 0⟩ :: (ticksOf es).map SystemTick.counters).IsChain Counters.Advance)
    (hsound : ∀ t ∈ ticksOf es, t.Sound) :
    (Runs.collect (Views.step rounding) Views.init es).isSome = true ↔
      ∀ pre e post, es = pre ++ e :: post → e.Fed rounding (ticksOf pre) := by
  have hrun : (Runs.collect (Views.step rounding) Views.init es).map Prod.fst =
      Runs.run (Views.next rounding) Views.init es := Runs.collect_run _ _ es
  have hstep : ∀ pre e post views, es = pre ++ e :: post →
      Runs.run (Views.next rounding) Views.init pre = some views →
      ((views.next rounding e).isSome = true ↔ e.Fed rounding (ticksOf pre)) := by
    rintro pre e post views rfl hpre
    obtain ⟨loads, hcollect⟩ := Runs.exists_collect hpre
    have hscale := inScale_of_collect (advance_of_append hadvance) (fun t ht => hsound t (by
      rw [ticksOf, List.filterMap_append]
      exact List.mem_append_left _ ht)) hcollect
    exact step_isSome_iff rounding hscale.monitor (monitor_of_run rounding hpre) e
  rw [← Option.isSome_map, hrun]
  constructor
  · intro hsome pre e post hsplit
    obtain ⟨views, hviews⟩ := Option.isSome_iff_exists.1 hsome
    obtain ⟨middle, hpre, _⟩ := Runs.run_append_some _ (hsplit ▸ hviews)
    exact (hstep pre e post middle hsplit hpre).1 (Runs.run_isSome_iff.1 hsome pre e post middle
      hsplit hpre)
  · intro hfed
    rw [Runs.run_isSome_iff]
    intro pre e post views hsplit hpre
    exact (hstep pre e post views hsplit hpre).2 (hfed pre e post hsplit)

variable (rounding)

/-- **The views stay on their scales.**  Let the three timers go off in any order, with ticks whose
counters advance and whose memory figures make sense.  The program goes on exactly as long as every
view that refreshes finds six processes, with loads that a row can have.  Then every load that was
shown is a share; the graph has the last 40 of them, and the curve it draws does not leave the
widget; the label and the level bar are those of the last load, on their scales of 100 and of 20;
and all headlines have a percentage. -/
theorem views_in_scale {es : List ViewEvent}
    (hadvance : (⟨0, 0⟩ :: (ticksOf es).map SystemTick.counters).IsChain Counters.Advance)
    (hsound : ∀ t ∈ ticksOf es, t.Sound) :
    ((Runs.collect (Views.step rounding) Views.init es).isSome = true ↔
      ∀ pre e post, es = pre ++ e :: post → e.Fed rounding (ticksOf pre)) ∧
    ∀ views loads, Runs.collect (Views.step rounding) Views.init es = some (views, loads) →
      (∀ load ∈ loads, 0 ≤ load ∧ load ≤ 1) ∧ views.cpu.graph.points = loads.rtake 40 ∧
      (∀ width height : ℕ, height < 2 ^ 31 →
        ∀ curve ∈ curves 0 0 (views.cpu.graph.draw width height), ∀ t, 0 ≤ t → t ≤ 1 →
          curve.x t ∈ Set.Icc (0 : ℚ) width ∧ curve.y t ∈ Set.Icc (0 : ℚ) height) ∧
      (∀ load ∈ loads.getLast?, views.cpu.Shows load) ∧
      ∀ row ∈ views.memory.proc_list, row.is_headline = true →
        ∃ percentage, row.endLabel = some percentage ∧ 0 ≤ percentage ∧ percentage ≤ 100 := by
  refine ⟨views_isSome_iff hadvance hsound, ?_⟩
  intro views loads hrun
  have hscale := inScale_of_collect hadvance hsound hrun
  have hpoints : views.cpu.graph.points = loads.rtake 40 := by
    rw [hscale.graph]
    exact (GraphWidget.points_of_pushes 40 loads).2
  have hbounded : views.cpu.graph.Bounded := by
    rw [hscale.graph]
    exact GraphWidget.bounded_of_pushes (by decide) (by decide) loads
  refine ⟨hscale.shares, hpoints, ?_, hscale.shown, hscale.headlines⟩
  intro width height hheight curve hcurve t h₀ h₁
  refine GraphWidget.curve_inside hbounded ?_ width hheight hcurve h₀ h₁
  intro p hp
  rw [hpoints] at hp
  exact hscale.shares p (List.mem_of_mem_drop hp)

/-- A tick that lists six processes. -/
def sixTick : SystemTick :=
  ⟨⟨1000, 250, 0, 0⟩, ⟨8, 4, 1, 1⟩, ⟨2, 1⟩,
    [1, 2, 3, 4, 5, 6].map fun pid => ⟨pid, "usage", 10, fun _ => ⟨3, 1⟩⟩⟩

theorem sound_sixTick : sixTick.Sound :=
  ⟨by decide, by decide, by decide, by decide, by decide⟩

theorem fedBy_sixTick : FedBy .exact Process.cpu_load [sixTick] ∧
    FedBy .exact Process.mem_usage [sixTick] := by
  obtain ⟨monitor, processes, hrun, hprocesses⟩ := processes_of_run [sixTick]
  have hall : ((Runs.run SystemMonitor.tick SystemMonitor.init [sixTick]).bind
      SystemMonitor.processes).map (fun processes =>
        decide (MAX_NUM_ELEMENTS ≤ processes.length ∧ ∀ process ∈ processes,
          (Rounding.exact.sortId process.cpu_load).isSome = true ∧
          (Rounding.exact.sortId process.mem_usage).isSome = true)) = some true := by
    decide +kernel
  rw [hrun, Option.bind_some, hprocesses, Option.map_some, Option.some_inj,
    decide_eq_true_eq] at hall
  obtain ⟨hsix, hids⟩ := hall
  exact ⟨⟨monitor, processes, hrun, hprocesses, hsix, fun process h => (hids process h).1⟩,
    ⟨monitor, processes, hrun, hprocesses, hsix, fun process h => (hids process h).2⟩⟩

/-- One tick, and each of the views: they go on, and would not have before the tick. -/
theorem views_in_scale_sixTick :
    (∃ views loads,
      Runs.collect (Views.step .exact) Views.init [.tick sixTick, .cpu, .memory, .cpu] =
        some (views, loads) ∧
      views.cpu.graph.points = loads.rtake 40 ∧
      ∀ load ∈ loads.getLast?, views.cpu.Shows load) ∧
    Runs.collect (Views.step .exact) Views.init [.cpu] = none := by
  have hsound : ∀ t ∈ ticksOf [.tick sixTick, .cpu, .memory, .cpu], t.Sound := by
    intro t ht
    obtain rfl := List.mem_singleton.1 ht
    exact sound_sixTick
  obtain ⟨hgoes, hviews⟩ := views_in_scale .exact (by decide) hsound
  refine ⟨?_, Option.isNone_iff_eq_none.1 (by decide +kernel)⟩
  have hsome := hgoes.2 (by
    intro pre e post hsplit
    rcases pre with _ | ⟨_, _ | ⟨_, _ | ⟨_, _ | ⟨_, pre⟩⟩⟩⟩
    · cases hsplit
      trivial
    · cases hsplit
      exact fedBy_sixTick.1
    · cases hsplit
      exact fedBy_sixTick.2
    · cases hsplit
      exact fedBy_sixTick.1
    · simp at hsplit)
  obtain ⟨⟨views, loads⟩, hrun⟩ := Option.isSome_iff_exists.1 hsome
  obtain ⟨_, hpoints, _, hshows, _⟩ := hviews views loads hrun
  exact ⟨views, loads, hrun, hpoints, hshows⟩

end Usage
