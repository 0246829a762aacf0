/-
From the wires to the screen.

The list of the network view is built from what the analyzer reports, and the analyzer reports what
it captures.  The two ends are put together here, with the decoder, the connections, the processes
and the conversions to floats and doubles that lie between them.

* `total_of_floatLayout` — what the lowest row shows;
* `traffic_shown` — **the list shows the traffic on the wires**, up to the roundings.
-/

import GnomeUsage.FloatRates
import GnomeUsage.Frames
import GnomeUsage.Rates

set_option relaxedAutoImplicit false
set_option autoImplicit false

namespace Usage

open NetworkAnalyzer (Analyzer bytesAfter bytesOf bytesOf_upto deviceAddresses dottedHost
  etherDevice etherPcap etherTick eventsOf FrameTick getDevices Host itemised_refresh
  local_getDevices_iff mainLoopCb_of_drain NAProcInfo NMDevice Pcap PERIOD readable_dottedHost
  Schedule schedule_etherTick tick_items wireBytes WireTick)
open DifferenceOrder (difference Arranges)

/-- **The lowest row** shows the rates of all bytes of the report. -/
theorem total_of_floatLayout {report : List NAProcInfo} {shown : List NetworkListRow}
    (h : FloatLayout report shown) :
    ∃ received sent, shown.getLast? = some (totalRow received sent) ∧
      ShowsRate report.length (rate (claimed false report)) received ∧
      ShowsRate report.length (rate (claimed true report)) sent := by
  obtain ⟨infos, _, _, received, sent, rfl, _, _, _, _, _, hreceived, hsent⟩ := h
  refine ⟨received, sent, ?_, ?_, ?_⟩
  · rw [← List.cons_append, ← List.append_assoc, List.getLast?_concat]
  · rw [← sum_tokbps]
    exact hreceived
  · rw [← sum_tokbps]
    exact hsent

/-- **From the wires to the screen.** The analyzer listens on the devices it finds, and ticks as
long as it likes, on a `/proc` that may change with every frame. If the packets it is given and the
refreshes keep to a schedule, and the bytes of a period fit into a word in each direction, then a
tick emits no signal only if there were none; the entries of a signal have, together, exactly the
bytes on the wires; and in whatever way the list box sorts the rows that are built for it, they are
laid out, and the lowest shows the rates on the wires, up to the roundings. -/
theorem traffic_shown {P : Type} {host : Host} (hhost : host.Fresh) (pcap : Pcap P)
    (nm_devices : List NMDevice) {ticks : List (WireTick P)}
    (hs : Schedule (eventsOf ((ticks.map WireTick.frames).flatMap
      (FrameTick.acts (getDevices pcap ⟨host, []⟩ nm_devices).iface_handles))))
    (pre : List (WireTick P)) (tick : WireTick P) (post : List (WireTick P))
    (hsplit : ticks = pre ++ tick :: post)
    (hbytes : ∀ out, wireBytes (deviceAddresses nm_devices)
      (getDevices pcap ⟨host, []⟩ nm_devices).iface_handles out (tick.t.tv_sec - PERIOD)
      (pre ++ [tick]) < 2 ^ 32) :
    ∃ A A' signal,
      Analyzer.init.ticks (getDevices pcap ⟨host, []⟩ nm_devices).host
          (getDevices pcap ⟨host, []⟩ nm_devices).iface_handles (pre.map WireTick.frames) =
        some A ∧
      A.mainLoopCb (getDevices pcap ⟨host, []⟩ nm_devices).host
          (getDevices pcap ⟨host, []⟩ nm_devices).iface_handles tick.frames =
        some (A', signal) ∧
      (∀ out, claimed out (signal.getD []) = wireBytes (deviceAddresses nm_devices)
        (getDevices pcap ⟨host, []⟩ nm_devices).iface_handles out (tick.t.tv_sec - PERIOD)
        (pre ++ [tick])) ∧
      ∀ report ∈ signal, ∃ rows, usageRows .binary (doRefresh .binary report) = some rows ∧
        (∃ shown, Arranges (difference NetworkListRow.sort_id) rows shown) ∧
        ∀ shown, Arranges (difference NetworkListRow.sort_id) rows shown →
          FloatLayout report shown ∧ ∃ received sent,
            shown.getLast? = some (totalRow received sent) ∧
            ShowsRate report.length (rate (wireBytes (deviceAddresses nm_devices)
              (getDevices pcap ⟨host, []⟩ nm_devices).iface_handles false
              (tick.t.tv_sec - PERIOD) (pre ++ [tick]))) received ∧
            ShowsRate report.length (rate (wireBytes (deviceAddresses nm_devices)
              (getDevices pcap ⟨host, []⟩ nm_devices).iface_handles true
              (tick.t.tv_sec - PERIOD) (pre ++ [tick]))) sent := by
  subst hsplit
  have hlocal := local_getDevices_iff pcap hhost nm_devices
  generalize getDevices pcap ⟨host, []⟩ nm_devices = listening at hs hlocal hbytes ⊢
  rw [List.map_append, List.map_cons] at hs
  obtain ⟨A, A₁, es, hrun, hdrain, hpackets, hitems⟩ := tick_items listening.host hs
  obtain ⟨σ', proc_info, hrefresh, _⟩ := itemised_refresh listening.host hitems
  obtain ⟨A', htick⟩ := mainLoopCb_of_drain listening.host hdrain hrefresh
  -- what the analyzer was given is what was on the wires
  have hwires : ∀ out, bytesAfter listening.host out (tick.t.tv_sec - PERIOD) es =
      wireBytes (deviceAddresses nm_devices) listening.iface_handles out (tick.t.tv_sec - PERIOD)
        (pre ++ [tick]) := by
    intro out
    rw [← bytesOf_upto hlocal, bytesAfter, bytesOf, hpackets]
  have hclaimed : ∀ out, claimed out proc_info = wireBytes (deviceAddresses nm_devices)
      listening.iface_handles out (tick.t.tv_sec - PERIOD) (pre ++ [tick]) := by
    intro out
    rw [claimed_total hitems ((hwires out).trans_lt (hbytes out)) hrefresh]
    exact hwires out
  refine ⟨A, A', _, hrun, htick, ?_, ?_⟩
  · rw [NetworkAnalyzer.getD_signal]
    exact hclaimed
  · intro report hreport
    obtain ⟨_, hreport⟩ := Option.ite_none_left_eq_some.1 hreport
    obtain rfl := Option.some_inj.1 hreport
    have hrange : (2 ^ 31 - 3 : ℤ) - -2 < 2 ^ 31 := by decide
    refine ⟨_, usageRows_binary_eq proc_info, ?_, ?_⟩
    · exact DifferenceOrder.exists_arranges hrange fun row hrow => sort_id_built hrow
    · intro shown harranges
      have hlayout := floatLayout_of_before harranges.before harranges.perm
      obtain ⟨received, sent, hlast, hreceived, hsent⟩ := total_of_floatLayout hlayout
      rw [hclaimed false] at hreceived
      rw [hclaimed true] at hsent
      exact ⟨hlayout, received, sent, hlast, hreceived, hsent⟩

/-- One packet of 38 bytes is sent in the period: the lowest row shows its rate. -/
theorem traffic_shown_etherTick :
    ∃ A' report rows,
      Analyzer.init.mainLoopCb (getDevices etherPcap ⟨dottedHost [], []⟩ [etherDevice]).host
          (getDevices etherPcap ⟨dottedHost [], []⟩ [etherDevice]).iface_handles etherTick.frames =
        some (A', some report) ∧
      usageRows .binary (doRefresh .binary report) = some rows ∧
      ∃ shown received sent, Arranges (difference NetworkListRow.sort_id) rows shown ∧
        shown.getLast? = some (totalRow received sent) ∧
        ShowsRate report.length (rate 0) received ∧ ShowsRate report.length (rate 38) sent := by
  have hwires : ∀ out, wireBytes (deviceAddresses [etherDevice])
      (getDevices etherPcap ⟨dottedHost [], []⟩ [etherDevice]).iface_handles out (31 - PERIOD)
      ([] ++ [etherTick]) = if out then 38 else 0 := by
    intro out
    cases out <;> rfl
  obtain ⟨A, A', signal, hrun, htick, hclaimed, hsome⟩ :=
    traffic_shown ⟨readable_dottedHost [], rfl⟩ etherPcap [etherDevice] schedule_etherTick []
      etherTick [] rfl (by
        intro out
        refine (hwires out).trans_lt ?_
        cases out <;> decide)
  cases hrun
  cases signal with
  | none =>
      have hsent := (hclaimed true).trans (hwires true)
      cases hsent
  | some report =>
      obtain ⟨rows, hrows, ⟨shown, hshown⟩, hlayout⟩ := hsome report rfl
      obtain ⟨_, received, sent, hlast, hreceived, hsent⟩ := hlayout shown hshown
      exact ⟨A', report, rows, htick, hrows, shown, received, sent, hshown, hlast, hreceived, hsent⟩

end Usage
