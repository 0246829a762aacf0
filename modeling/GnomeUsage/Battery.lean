/-
The battery view (`usage-battery-view.vala`).

Once a second the view asks the power manager for its devices and shows the first battery: the time
that is left in hours and minutes, the charge as a percentage and as a level, and a graph of it.
Devices come and go, and as long as there is no battery the view stays as it is.  Nothing catches
the error of a call that fails: it is logged, the callback returns false, and the timer is gone.

* `UpDevice`, `UpDevice.timestring` — a device, and the text about its time;
* `BatteryView`, `BatteryView.refresh` — the view, and the callback of its timer;
* `BatteryView.second` — a second, with the timer or without it;
* `UpDevice.SameTime`, `timestring_eq_iff` — **what the text about the time says**;
* `batteries`, `BatteryView.run_eq` — the batteries that are shown, and what is made of them;
* `battery_history` — **what the view shows after any seconds**: it stops with the first call that
  fails, and not before.

All amounts are doubles.
-/

import GnomeUsage.CText
import GnomeUsage.Views

set_option relaxedAutoImplicit false
set_option autoImplicit false

namespace Usage

open CText (printInt)
open NetworkAnalyzer (CStr)
open FloatRounding (Close unit unit_le_one)

/-! ### Devices -/

/-- `UpDeviceKind.BATTERY`. -/
def UpDeviceKind.BATTERY : BitVec 32 := 2

/-- `UpDeviceState.CHARGING`. -/
def UpDeviceState.CHARGING : BitVec 32 := 1

/-- `UpDeviceState.FULLY_CHARGED`. -/
def UpDeviceState.FULLY_CHARGED : BitVec 32 := 4

/-- What the power manager says of a device, as far as it is looked at. -/
structure UpDevice where
  kind : BitVec 32
  percentage : ℚ
  state : BitVec 32
  seconds : BitVec 64

namespace UpDevice

/-- `(int) (device.seconds / 60)`. -/
def time (device : UpDevice) : ℤ := ((device.seconds / 60).setWidth 32).toInt

/-- `"%d:%d"` of the hours and the minutes. -/
def clock (device : UpDevice) : CStr :=
  printInt (device.time.tdiv 60) ++ ':' :: printInt (device.time.tmod 60)

def timestring (device : UpDevice) : CStr :=
  if device.state = UpDeviceState.CHARGING then
    device.clock ++ " hours remaining to complete charge".toList
  else if device.state = UpDeviceState.FULLY_CHARGED then "Fully charged".toList
  else device.clock ++ " hours remaining".toList

end UpDevice

/-! ### The view -/

structure BatteryView where
  graph : GraphWidget := { num_points := 400 }
  time_label : Option CStr := none
  level_bar : ℚ := 0
  percent_label : Option CStr := none
  /-- Whether the timer is still there. -/
  timer : Bool := true

/-- What the callback does with the battery; `none` when something in it is not defined. -/
def BatteryView.show (view : BatteryView) (device : UpDevice) : Option BatteryView :=
  (castInt device.percentage).map fun percentage =>
    { view with
      graph := view.graph.push (double (device.percentage / 100))
      time_label := some device.timestring
      level_bar := double (double (device.percentage * NUM_LEVELS) / 100)
      percent_label := some (printInt percentage ++ ['%']) }

/-- The battery among some devices: the first one, as the loop ends there. -/
def batteryOf (devices : List UpDevice) : Option UpDevice :=
  devices.find? fun device => device.kind = UpDeviceKind.BATTERY

variable (power_manager : Bool)

/-- The callback, with what it returns.  The call answers with the devices or fails; without a power
manager there is none. -/
def BatteryView.refresh (view : BatteryView) (get_devices : Option (List UpDevice)) :
    Option (BatteryView × Bool) :=
  if power_manager then
    match get_devices with
    -- the error is not caught
    | none => some (view, false)
    | some devices =>
        match batteryOf devices with
        | none => some (view, true)
        | some device => (view.show device).map fun view => (view, true)
  else some (view, true)

/-- A second goes by: the timer goes off, if it is there, and is gone when its callback returns
false. -/
def BatteryView.second (view : BatteryView) (get_devices : Option (List UpDevice)) :
    Option BatteryView :=
  if view.timer then
    (view.refresh power_manager get_devices).map fun (view, again) => { view with timer := again }
  else some view

/-! ### What the time says -/

/-- **The same time**: both are fully charged, or both are charging or neither is, and the whole
minutes are the same, as far as an `int` tells them apart. -/
def UpDevice.SameTime (device other : UpDevice) : Prop :=
  device.state = UpDeviceState.FULLY_CHARGED ∧ other.state = UpDeviceState.FULLY_CHARGED ∨
    device.state ≠ UpDeviceState.FULLY_CHARGED ∧ other.state ≠ UpDeviceState.FULLY_CHARGED ∧
      (device.state = UpDeviceState.CHARGING ↔ other.state = UpDeviceState.CHARGING) ∧
      device.seconds.toNat / 60 ≡ other.seconds.toNat / 60 [MOD 2 ^ 32]

theorem UpDevice.time_eq_iff {device other : UpDevice} :
    device.time = other.time ↔
      device.seconds.toNat / 60 ≡ other.seconds.toNat / 60 [MOD 2 ^ 32] := by
  rw [UpDevice.time, UpDevice.time, BitVec.toInt_inj, ← BitVec.toNat_inj, BitVec.toNat_setWidth,
    BitVec.toNat_setWidth, BitVec.toNat_udiv, BitVec.toNat_udiv]
  rfl

/-- Behind the clock there is a blank, and the text up to it is that of the time. -/
theorem UpDevice.clock_append_inj {device other : UpDevice} {rest rest' : CStr}
    (h : device.clock ++ ' ' :: rest = other.clock ++ ' ' :: rest') :
    device.time = other.time ∧ rest = rest' := by
  have hdigits : ∀ n : ℤ, ':' ∉ printInt n ∧ ' ' ∉ printInt n := fun n =>
    ⟨CText.not_mem_printInt (by decide) (by decide), CText.not_mem_printInt (by decide) (by decide)⟩
  rw [UpDevice.clock, UpDevice.clock, List.append_assoc, List.append_assoc, List.cons_append,
    List.cons_append] at h
  obtain ⟨hhours, h⟩ := CText.split_first (hdigits _).1 (hdigits _).1 h
  obtain ⟨hminutes, hrest⟩ := CText.split_first (hdigits _).2 (hdigits _).2 h
  refine ⟨?_, hrest⟩
  rw [← Int.mul_tdiv_add_tmod device.time 60, ← Int.mul_tdiv_add_tmod other.time 60,
    CText.printInt_injective hhours, CText.printInt_injective hminutes]

/-- What is behind the clock and a blank. -/
def UpDevice.remaining (device : UpDevice) : CStr :=
  if device.state = UpDeviceState.CHARGING then "hours remaining to complete charge".toList
  else "hours remaining".toList

theorem UpDevice.remaining_eq_iff {device other : UpDevice} :
    device.remaining = other.remaining ↔
      (device.state = UpDeviceState.CHARGING ↔ other.state = UpDeviceState.CHARGING) := by
  unfold UpDevice.remaining
  by_cases hstate : device.state = UpDeviceState.CHARGING
  · by_cases hother : other.state = UpDeviceState.CHARGING
    · simp [hstate, hother]
    · simp [hstate, hother]
  · by_cases hother : other.state = UpDeviceState.CHARGING
    · simp [hstate, hother]
    · simp [hstate, hother]

theorem UpDevice.timestring_of_full {device : UpDevice}
    (h : device.state = UpDeviceState.FULLY_CHARGED) :
    device.timestring = "Fully charged".toList := by
  have hne : UpDeviceState.FULLY_CHARGED ≠ UpDeviceState.CHARGING := by decide
  rw [UpDevice.timestring, h, if_neg hne, if_pos rfl]

theorem UpDevice.timestring_of_not_full {device : UpDevice}
    (h : device.state ≠ UpDeviceState.FULLY_CHARGED) :
    device.timestring = device.clock ++ ' ' :: device.remaining := by
  rw [UpDevice.timestring, if_neg h, UpDevice.remaining]
  split <;> rfl

/-- There is a colon in a time. -/
theorem UpDevice.full_of_timestring {device other : UpDevice}
    (hother : other.state = UpDeviceState.FULLY_CHARGED)
    (h : device.timestring = other.timestring) : device.state = UpDeviceState.FULLY_CHARGED := by
  by_contra hdevice
  have hcolon : ':' ∈ device.timestring := by
    rw [timestring_of_not_full hdevice, clock]
    simp
  rw [h, timestring_of_full hother] at hcolon
  exact absurd hcolon (by decide)

/-- **The text about the time says whether the battery is charged or charging, and how many minutes
are left.** -/
theorem timestring_eq_iff {device other : UpDevice} :
    device.timestring = other.timestring ↔ device.SameTime other := by
  by_cases hdevice : device.state = UpDeviceState.FULLY_CHARGED
  · constructor
    · intro h
      exact .inl ⟨hdevice, UpDevice.full_of_timestring hdevice h.symm⟩
    · rintro (⟨_, hother⟩ | ⟨hne, _⟩)
      · rw [UpDevice.timestring_of_full hdevice, UpDevice.timestring_of_full hother]
      · exact absurd hdevice hne
  · constructor
    · intro h
      have hother : other.state ≠ UpDeviceState.FULLY_CHARGED := fun hother =>
        hdevice (UpDevice.full_of_timestring hother h)
      rw [UpDevice.timestring_of_not_full hdevice, UpDevice.timestring_of_not_full hother] at h
      obtain ⟨htime, hremaining⟩ := UpDevice.clock_append_inj h
      exact .inr ⟨hdevice, hother, UpDevice.remaining_eq_iff.1 hremaining,
        UpDevice.time_eq_iff.1 htime⟩
    · rintro (⟨hfull, _⟩ | ⟨_, hother, hcharging, htime⟩)
      · exact absurd hfull hdevice
      · rw [UpDevice.timestring_of_not_full hdevice, UpDevice.timestring_of_not_full hother,
          UpDevice.remaining_eq_iff.2 hcharging, UpDevice.clock, UpDevice.clock,
          UpDevice.time_eq_iff.2 htime]

/-! ### What the view shows -/

/-- What becomes of a view that shows a battery. -/
def BatteryView.shown (view : BatteryView) (device : UpDevice) : BatteryView :=
  { view with
    graph := view.graph.push (double (device.percentage / 100))
    time_label := some device.timestring
    level_bar := double (double (device.percentage * NUM_LEVELS) / 100)
    percent_label := some (printInt ⌊device.percentage⌋ ++ ['%']) }

/-- A charge in percent. -/
structure UpDevice.InScale (device : UpDevice) : Prop where
  nonneg : 0 ≤ device.percentage
  le : device.percentage ≤ 100

theorem BatteryView.show_eq (view : BatteryView) {device : UpDevice} (h : device.InScale) :
    view.show device = some (view.shown device) := by
  obtain ⟨hcast, _⟩ := @castInt_of_mem device.percentage 100 (by decide) h.nonneg
    (by exact_mod_cast h.le)
  rw [BatteryView.show, hcast, Option.map_some]
  rfl

/-- **The batteries that are shown**: those of the calls before the first one that fails. -/
def batteries (answers : List (Option (List UpDevice))) : List UpDevice :=
  if power_manager then (answers.takeWhile Option.isSome).filterMap fun answer =>
    answer.bind batteryOf
  else []

variable {power_manager}

theorem batteries_nil : batteries power_manager [] = [] := by
  cases power_manager <;> rfl

/-- A view without its timer stays as it is. -/
theorem BatteryView.run_of_not_timer {view : BatteryView} (h : view.timer = false)
    (answers : List (Option (List UpDevice))) :
    Runs.run (BatteryView.second power_manager) view answers = some view := by
  induction answers with
  | nil => rfl
  | cons answer answers ih =>
      have hsecond : view.second power_manager answer = some view := by
        rw [BatteryView.second, h]
        rfl
      rw [Runs.run_cons_of _ hsecond, ih]

/-- **The view after any seconds** has shown the batteries, and has its timer unless a call has
failed. -/
theorem BatteryView.run_eq {answers : List (Option (List UpDevice))}
    (hscale : ∀ device ∈ batteries power_manager answers, device.InScale) {view : BatteryView}
    (h : view.timer = true) :
    Runs.run (BatteryView.second power_manager) view answers = some
      { (batteries power_manager answers).foldl BatteryView.shown view with
        timer := !(power_manager && answers.any Option.isNone) } := by
  induction answers generalizing view with
  | nil =>
      rw [batteries_nil, Runs.run_nil, List.foldl_nil, List.any_nil, Bool.and_false,
        Bool.not_false, ← h]
  | cons answer answers ih =>
      rw [Runs.run_cons, BatteryView.second, if_pos h]
      unfold BatteryView.refresh
      cases power_manager with
      | false => exact ih (fun _ hmem => absurd hmem List.not_mem_nil) rfl
      | true =>
          cases answer with
          | none => exact run_of_not_timer rfl answers
          | some devices =>
              cases hbattery : batteryOf devices with
              | none =>
                  have hcons : batteries true (some devices :: answers) =
                      batteries true answers := by
                    simp [batteries, hbattery]
                  rw [hcons] at hscale ⊢
                  have hrest := ih hscale h
                  have hview : { view with timer := true } = view := by rw [← h]
                  simpa [hbattery, hview] using hrest
              | some device =>
                  have hcons : batteries true (some devices :: answers) =
                      device :: batteries true answers := by
                    simp [batteries, hbattery]
                  rw [hcons] at hscale ⊢
                  obtain ⟨hdevice, hscale⟩ := List.forall_mem_cons.1 hscale
                  have hshow := view.show_eq hdevice
                  have htimer : (view.shown device).timer = true := h
                  have hview : { view.shown device with timer := true } = view.shown device := by
                    rw [← htimer]
                  simpa [hbattery, hshow, hview] using ih hscale htimer

/-- The graph gets the charges. -/
theorem BatteryView.graph_foldl (devices : List UpDevice) (view : BatteryView) :
    (devices.foldl BatteryView.shown view).graph =
      (devices.map fun device => double (device.percentage / 100)).foldl GraphWidget.push
        view.graph := by
  induction devices generalizing view with
  | nil => rfl
  | cons device devices ih => exact ih (view.shown device)

/-- What is shown is that of the last battery. -/
theorem BatteryView.foldl_last {devices : List UpDevice} {device : UpDevice}
    (h : device ∈ devices.getLast?) (view : BatteryView) :
    ∃ before : BatteryView, devices.foldl BatteryView.shown view = before.shown device := by
  obtain ⟨before, rfl⟩ := List.getLast?_eq_some_iff.1 h
  exact ⟨before.foldl BatteryView.shown view, by rw [List.foldl_append]; rfl⟩

/-- The roundings of the level of a charge. -/
def levelLo : ℚ := (1 - unit 53) * (1 - unit 53)

def levelHi : ℚ := (1 + unit 53) * (1 + unit 53)

/-- **The level of a charge** is on its scale, and right up to its roundings. -/
theorem UpDevice.InScale.level {device : UpDevice} (h : device.InScale) :
    0 ≤ double (double (device.percentage * NUM_LEVELS) / 100) ∧
      double (double (device.percentage * NUM_LEVELS) / 100) ≤ 20 ∧
      Close levelLo levelHi (device.percentage * NUM_LEVELS / 100)
        (double (double (device.percentage * NUM_LEVELS) / 100)) := by
  obtain ⟨hlo, hhi⟩ := h
  have hnonneg : 0 ≤ device.percentage * NUM_LEVELS := by
    unfold NUM_LEVELS
    positivity
  have hproduct := @double_le_natCast _ 2000 (by decide) hnonneg (by
    unfold NUM_LEVELS
    push_cast
    linarith)
  push_cast at hproduct
  have hquotient : 0 ≤ double (device.percentage * NUM_LEVELS) / 100 :=
    div_nonneg (double_nonneg hnonneg) (by positivity)
  have hlevel := @double_le_natCast _ 20 (by decide) hquotient (by
    push_cast
    linarith)
  refine ⟨double_nonneg hquotient, by exact_mod_cast hlevel, ?_⟩
  exact ((close_double hnonneg).div_const (by positivity)).rnd (sub_nonneg.2 (unit_le_one 53))
    (by positivity)

/-- **The battery view after any seconds**, of batteries whose percentages are such.  It has its
timer unless a call has failed, and goes on as long as it has it.  The graph has the last 400
charges that were shown, and its curve does not leave the widget; and of the last battery that was
shown, the level bar has the charge on its scale of 20, up to two roundings, the one label tells the
whole percents, and the other one is the text of another battery exactly if their times are the
same. -/
theorem battery_history {answers : List (Option (List UpDevice))}
    (hscale : ∀ device ∈ batteries power_manager answers, device.InScale) :
    ∃ view, Runs.run (BatteryView.second power_manager) {} answers = some view ∧
      (view.timer = false ↔ power_manager = true ∧ none ∈ answers) ∧
      view.graph.points = ((batteries power_manager answers).map fun device =>
        double (device.percentage / 100)).rtake 400 ∧
      (∀ width height : ℕ, height < 2 ^ 31 →
        ∀ curve ∈ curves 0 0 (view.graph.draw width height), ∀ t, 0 ≤ t → t ≤ 1 →
          curve.x t ∈ Set.Icc (0 : ℚ) width ∧ curve.y t ∈ Set.Icc (0 : ℚ) height) ∧
      ∀ device ∈ (batteries power_manager answers).getLast?,
        (0 ≤ view.level_bar ∧ view.level_bar ≤ 20 ∧
          Close levelLo levelHi (device.percentage * NUM_LEVELS / 100) view.level_bar) ∧
        (∀ other : UpDevice,
          view.percent_label = some (printInt ⌊other.percentage⌋ ++ ['%']) ↔
            ⌊device.percentage⌋ = ⌊other.percentage⌋) ∧
        ∀ other : UpDevice, view.time_label = some other.timestring ↔ device.SameTime other := by
  have hgraph := BatteryView.graph_foldl (batteries power_manager answers) {}
  have hpoints : ((batteries power_manager answers).foldl BatteryView.shown {}).graph.points =
      ((batteries power_manager answers).map fun device =>
        double (device.percentage / 100)).rtake 400 := by
    rw [hgraph]
    exact (GraphWidget.points_of_pushes 400 _).2
  have hbounded : ((batteries power_manager answers).foldl BatteryView.shown {}).graph.Bounded := by
    rw [hgraph]
    exact GraphWidget.bounded_of_pushes (by decide) (by decide) _
  refine ⟨_, BatteryView.run_eq hscale rfl, ?_, hpoints, ?_, ?_⟩
  · simp [List.any_eq_true]
  · intro width height hheight curve hcurve t h₀ h₁
    refine GraphWidget.curve_inside hbounded ?_ width hheight hcurve h₀ h₁
    intro p hp
    rw [hpoints] at hp
    obtain ⟨device, hdevice, rfl⟩ := List.mem_map.1 (List.mem_of_mem_drop hp)
    obtain ⟨hlo, hhi⟩ := hscale device hdevice
    have hshare : 0 ≤ device.percentage / 100 := by positivity
    exact ⟨double_nonneg hshare, double_le_one hshare (by linarith)⟩
  · intro device hdevice
    obtain ⟨before, hbefore⟩ := BatteryView.foldl_last hdevice {}
    rw [hbefore]
    refine ⟨(hscale device (List.mem_of_getLast? hdevice)).level, ?_, ?_⟩
    · intro other
      rw [BatteryView.shown, Option.some_inj, List.append_left_inj]
      exact ⟨fun h => CText.printInt_injective h, congrArg printInt⟩
    · intro other
      rw [BatteryView.shown, Option.some_inj]
      exact timestring_eq_iff

/-- A mouse, and a battery that is charged for 90 minutes more; then a call fails, and the battery
that is told of next is not shown. -/
theorem battery_history_charging :
    ∃ view, Runs.run (BatteryView.second true) {}
        [some [⟨5, 80, 2, 0⟩, ⟨2, 50, 1, 5400⟩], some [], none, some [⟨2, 51, 1, 5340⟩]] =
          some view ∧
      view.timer = false ∧ view.graph.points = [double (50 / 100)] ∧
      view.time_label = some "1:30 hours remaining to complete charge".toList := by
  obtain ⟨view, hrun, htimer, hpoints, _, hlast⟩ := @battery_history true
    [some [⟨5, 80, 2, 0⟩, ⟨2, 50, 1, 5400⟩], some [], none, some [⟨2, 51, 1, 5340⟩]] (by
      intro device hdevice
      obtain rfl : device = ⟨2, 50, 1, 5400⟩ := List.mem_singleton.1 hdevice
      exact ⟨by norm_num, by norm_num⟩)
  obtain ⟨_, _, htime⟩ := hlast ⟨2, 50, 1, 5400⟩ rfl
  refine ⟨view, hrun, htimer.2 ⟨rfl, by simp⟩, hpoints, ?_⟩
  have hsame : UpDevice.SameTime ⟨2, 50, 1, 5400⟩ ⟨2, 50, 1, 5400⟩ := timestring_eq_iff.1 rfl
  rw [(htime ⟨2, 50, 1, 5400⟩).2 hsame]
  rfl

end Usage
