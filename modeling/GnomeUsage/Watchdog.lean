/-
The watchdog of the network view.

Every report re-arms a timeout of two seconds, which asks for a new proxy when it fires.  The id of
the timeout is kept in a variable of the handler of the proxy.  This module takes the view by
itself, with signals, firings and completions in any order, and asks when there is never more
than one timeout.

* `NetworkView.Act`, `NetworkView.step` — what happens to the view;
* `Session.run_view` — **what a session does to its view** is a run of these;
* `NetworkView.Watched` — one timeout at most, added by the handler of the installed proxy;
* `NetworkView.RemovesPending` — no `Source.remove` with the id of a timeout that is gone;
* `Undisturbed` — the guard: no signal between a firing and the next completion;
* `NetworkView.Phase` — the four situations of a run that meets the guard;
* `single_watchdog_iff` — **a run has a single watchdog exactly when it meets the guard**;
* `late_signal_doubles` — a signal in between, which leaves two timeouts.
-/

import GnomeUsage.Runs
import GnomeUsage.Session

set_option relaxedAutoImplicit false
set_option autoImplicit false

namespace NetworkAnalyzer

/-! ### The view by itself -/

/-- What happens to the view. -/
inductive NetworkView.Act where
  /-- A signal `usage_changed`, at the given time. -/
  | signal (now : ℕ)
  /-- The timeout with the given id fires. -/
  | fires (id : ℕ)
  /-- A request of a proxy completes. -/
  | completes
  /-- A request of a proxy fails. -/
  | fails

/-- One step of the view; `none` when the act cannot happen. -/
def NetworkView.step (view : NetworkView) : NetworkView.Act → Option NetworkView
  | .signal now =>
      match view.network_analyzer with
      | none => none
      | some proxy => some (view.usageChanged now proxy)
  | .fires id =>
      if ∃ timeout ∈ view.timeouts, timeout.id = id then
        some (NetworkView.startNetworkAnalyzer
          { view with timeouts := sourceRemove id view.timeouts })
      else none
  | .completes =>
      if 0 < view.requests then
        some (NetworkView.connectNetworkAnalyzerSignal { view with requests := view.requests - 1 })
      else none
  | .fails => if 0 < view.requests then some { view with requests := view.requests - 1 } else none

section Session

variable {ι : Type*} {host : Host} {lookup : NAState → Capture → ProcessLookup}
  {iface_handles : List ι}

/-- **A step of a session** leaves its view as it is, or is a step of the view. -/
theorem Session.step_view {s s' : Session} {act : Session.Act ι}
    (h : s.step host lookup iface_handles act = some s') :
    s'.view = s.view ∨ ∃ a, s.view.step a = some s'.view := by
  cases act with
  | elapse d =>
      rw [Session.step_elapse h]
      exact .inl rfl
  | dbusStarts =>
      obtain ⟨_, _, rfl⟩ := Session.step_dbusStarts h
      exact .inl rfl
  | nameAcquired =>
      obtain ⟨_, _, _, rfl⟩ := Session.step_nameAcquired h
      exact .inl rfl
  | refresh tick =>
      obtain ⟨_, _, _, _, _, _, _, _, rfl⟩ := Session.step_refresh h
      exact .inl rfl
  | quitFires =>
      obtain ⟨_, _, _, rfl⟩ := Session.step_quitFires h
      exact .inl rfl
  | deliverAck =>
      obtain ⟨_, _, _, rfl⟩ := Session.step_deliverAck h
      exact .inl rfl
  | proxyCompletes =>
      obtain ⟨_, hreq, rfl⟩ := Session.step_proxyCompletes h
      exact .inr ⟨.completes, if_pos hreq⟩
  | proxyFails =>
      obtain ⟨hreq, rfl⟩ := Session.step_proxyFails h
      exact .inr ⟨.fails, if_pos hreq⟩
  | deliverSignal =>
      obtain ⟨_, _, _, ⟨_, rfl⟩ | ⟨proxy, hproxy, rfl⟩⟩ := Session.step_deliverSignal h
      · exact .inl rfl
      · exact .inr ⟨.signal s.now, by rw [NetworkView.step, hproxy]⟩
  | watchdogFires id =>
      obtain ⟨timeout, hmem, hid, _, rfl⟩ := Session.step_watchdogFires h
      exact .inr ⟨.fires id, if_pos ⟨timeout, hmem, hid⟩⟩

/-- **What a session does to its view** is a run of the view. -/
theorem Session.run_view {s s' : Session} {acts : List (Session.Act ι)}
    (h : Runs.run (Session.step host lookup iface_handles) s acts = some s') :
    ∃ view_acts, Runs.run NetworkView.step s.view view_acts = some s'.view := by
  induction acts generalizing s with
  | nil =>
      cases h
      exact ⟨[], rfl⟩
  | cons act acts ih =>
      obtain ⟨m, hm, hrun⟩ := Option.bind_eq_some_iff.1 h
      obtain ⟨view_acts, hview⟩ := ih hrun
      rcases Session.step_view hm with heq | ⟨a, ha⟩
      · exact ⟨view_acts, heq ▸ hview⟩
      · exact ⟨a :: view_acts, by rw [Runs.run_cons_of _ ha, hview]⟩

end Session

/-! ### A single watchdog, and its guard -/

/-- **A single watchdog**: one timeout at most is pending, and the handler of the proxy that is
installed has added it. -/
structure NetworkView.Watched (view : NetworkView) : Prop where
  length_le : view.timeouts.length ≤ 1
  owned : ∀ timeout ∈ view.timeouts, ∃ proxy ∈ view.network_analyzer, proxy.serial = timeout.owner

/-- **No stale id**: what the handler removes is pending. -/
def NetworkView.RemovesPending (view : NetworkView) : NetworkView.Act → Prop
  | .signal _ => ∀ proxy ∈ view.network_analyzer, 0 < proxy.network_analyzer_timeout_id →
      ∃ timeout ∈ view.timeouts, timeout.id = proxy.network_analyzer_timeout_id
  | _ => True

/-- **The guard**: no signal arrives between a firing and the next completion; `fired` tells whether
a timeout has fired and no request has completed since. -/
def Undisturbed (fired : Bool) : List NetworkView.Act → Prop
  | [] => True
  | .signal _ :: acts => fired = false ∧ Undisturbed fired acts
  | .fires _ :: acts => Undisturbed true acts
  | .completes :: acts => Undisturbed false acts
  | .fails :: acts => Undisturbed fired acts

/-- **The situations** of a run that meets the guard. -/
inductive NetworkView.Phase (view : NetworkView) : Bool → Prop
  /-- There has been no proxy. -/
  | unconnected (hproxy : view.network_analyzer = none) (hrequests : view.requests ≤ 1)
      (htimeouts : view.timeouts = []) : view.Phase false
  /-- The proxy has had no signal. -/
  | connected {proxy : Proxy} (hproxy : view.network_analyzer = some proxy)
      (hid : proxy.network_analyzer_timeout_id = 0) (hrequests : view.requests = 0)
      (htimeouts : view.timeouts = []) : view.Phase false
  /-- The timeout of the last signal is pending. -/
  | armed {proxy : Proxy} (hproxy : view.network_analyzer = some proxy)
      (hid : 0 < proxy.network_analyzer_timeout_id) (hrequests : view.requests = 0)
      (htimeouts : ∃ due, view.timeouts =
        [⟨proxy.network_analyzer_timeout_id, proxy.serial, due⟩]) : view.Phase false
  /-- The timeout has fired, and the variable of the handler still has its id. -/
  | fired {proxy : Proxy} (hproxy : view.network_analyzer = some proxy)
      (hid : 0 < proxy.network_analyzer_timeout_id) (hrequests : view.requests ≤ 1)
      (htimeouts : view.timeouts = []) : view.Phase true

variable {view view' : NetworkView} {has_fired : Bool}

theorem NetworkView.phase_init : NetworkView.init.Phase false := .unconnected rfl le_rfl rfl

theorem NetworkView.Phase.watched (h : view.Phase has_fired) : view.Watched := by
  cases h with
  | unconnected _ _ htimeouts => exact ⟨by simp [htimeouts], by simp [htimeouts]⟩
  | connected _ _ _ htimeouts => exact ⟨by simp [htimeouts], by simp [htimeouts]⟩
  | @armed proxy hproxy _ _ htimeouts =>
      obtain ⟨due, htimeouts⟩ := htimeouts
      exact ⟨by simp [htimeouts], by simp [htimeouts, hproxy]⟩
  | fired _ _ _ htimeouts => exact ⟨by simp [htimeouts], by simp [htimeouts]⟩

/-! ### One act -/

/-- **A signal** removes the pending timeout, if there is one, and adds its own; after a firing it
removes a timeout that is gone. -/
theorem NetworkView.Phase.signal (h : view.Phase has_fired) (hnext : 0 < view.next_id) {now : ℕ}
    (hstep : view.step (.signal now) = some view') :
    (view.RemovesPending (.signal now) ↔ has_fired = false) ∧
      (has_fired = false → view'.Phase false) := by
  cases h with
  | unconnected hproxy _ _ => simp [NetworkView.step, hproxy] at hstep
  | @connected proxy hproxy hid hrequests htimeouts =>
      simp only [NetworkView.step, hproxy, Option.some_inj] at hstep
      subst hstep
      refine ⟨?_, ?_⟩
      · simp [NetworkView.RemovesPending, hproxy, hid]
      · intro _
        refine .armed rfl hnext hrequests ⟨timeoutAddSeconds now NETWORK_ANALYZER_TIMEOUT, ?_⟩
        simp only [NetworkView.usageChanged, hid, htimeouts, lt_irrefl, if_false, List.nil_append]
  | @armed proxy hproxy hid hrequests htimeouts =>
      obtain ⟨due, htimeouts⟩ := htimeouts
      simp only [NetworkView.step, hproxy, Option.some_inj] at hstep
      subst hstep
      refine ⟨?_, ?_⟩
      · simp [NetworkView.RemovesPending, hproxy, htimeouts]
      · intro _
        refine .armed rfl hnext hrequests ⟨timeoutAddSeconds now NETWORK_ANALYZER_TIMEOUT, ?_⟩
        -- the pending timeout is the one that is removed
        have hremoved : sourceRemove proxy.network_analyzer_timeout_id view.timeouts = [] := by
          simp [sourceRemove, htimeouts]
        simp only [NetworkView.usageChanged, if_pos hid, hremoved, List.nil_append]
  | @fired proxy hproxy hid _ htimeouts =>
      refine ⟨?_, nofun⟩
      simp [NetworkView.RemovesPending, hproxy, htimeouts, hid.ne']

/-- **A firing**: only the one timeout can fire, and its request is the only one then. -/
theorem NetworkView.Phase.fires (h : view.Phase has_fired) {id : ℕ}
    (hstep : view.step (.fires id) = some view') : view'.Phase true := by
  obtain ⟨⟨timeout, hmem, hid⟩, hview⟩ := Option.ite_none_right_eq_some.1 hstep
  cases hview
  cases h with
  | unconnected _ _ htimeouts => simp [htimeouts] at hmem
  | connected _ _ _ htimeouts => simp [htimeouts] at hmem
  | @armed proxy hproxy hpos hrequests htimeouts =>
      obtain ⟨due, htimeouts⟩ := htimeouts
      rw [htimeouts, List.mem_singleton] at hmem
      subst hmem
      refine .fired hproxy hpos ?_ ?_
      · simp [NetworkView.startNetworkAnalyzer, hrequests]
      · simp [NetworkView.startNetworkAnalyzer, sourceRemove, htimeouts, ← hid]
  | fired _ _ _ htimeouts => simp [htimeouts] at hmem

/-- **A completion** installs a proxy while no timeout is pending. -/
theorem NetworkView.Phase.completes (h : view.Phase has_fired)
    (hstep : view.step .completes = some view') : view'.Phase false := by
  obtain ⟨hpos, hview⟩ := Option.ite_none_right_eq_some.1 hstep
  cases hview
  have hinstalled : view.requests ≤ 1 → view.timeouts = [] →
      (NetworkView.connectNetworkAnalyzerSignal
        { view with requests := view.requests - 1 }).Phase false := by
    intro hle htimeouts
    refine .connected rfl rfl ?_ htimeouts
    simp only [NetworkView.connectNetworkAnalyzerSignal]
    omega
  cases h with
  | unconnected _ hrequests htimeouts => exact hinstalled hrequests htimeouts
  | connected _ _ hrequests _ => omega
  | armed _ _ hrequests _ => omega
  | fired _ _ hrequests htimeouts => exact hinstalled hrequests htimeouts

theorem NetworkView.Phase.fails (h : view.Phase has_fired)
    (hstep : view.step .fails = some view') : view'.Phase has_fired := by
  obtain ⟨hpos, hview⟩ := Option.ite_none_right_eq_some.1 hstep
  cases hview
  cases h with
  | unconnected hproxy hrequests htimeouts =>
      exact .unconnected hproxy ((Nat.sub_le _ _).trans hrequests) htimeouts
  | connected _ _ hrequests _ => omega
  | armed _ _ hrequests _ => omega
  | fired hproxy hid hrequests htimeouts =>
      exact .fired hproxy hid ((Nat.sub_le _ _).trans hrequests) htimeouts

/-- Only a signal uses up an id. -/
theorem NetworkView.next_id_pos (hnext : 0 < view.next_id) {act : NetworkView.Act}
    (hstep : view.step act = some view') : 0 < view'.next_id := by
  cases act with
  | signal now =>
      cases hproxy : view.network_analyzer with
      | none => simp [NetworkView.step, hproxy] at hstep
      | some proxy =>
          simp only [NetworkView.step, hproxy, Option.some_inj] at hstep
          subst hstep
          exact Nat.succ_pos _
  | fires id =>
      obtain ⟨_, hview⟩ := Option.ite_none_right_eq_some.1 hstep
      cases hview
      exact hnext
  | completes =>
      obtain ⟨_, hview⟩ := Option.ite_none_right_eq_some.1 hstep
      cases hview
      exact hnext
  | fails =>
      obtain ⟨_, hview⟩ := Option.ite_none_right_eq_some.1 hstep
      cases hview
      exact hnext

/-! ### Runs -/

/-- A run that starts in one of the situations. -/
theorem NetworkView.Phase.run_iff (h : view.Phase has_fired) (hnext : 0 < view.next_id)
    {acts : List NetworkView.Act} (hrun : Runs.run NetworkView.step view acts = some view') :
    Runs.Always NetworkView.step NetworkView.Watched view acts ∧
        Runs.Guarded NetworkView.step NetworkView.RemovesPending view acts ↔
      Undisturbed has_fired acts := by
  induction acts generalizing view has_fired with
  | nil => exact iff_of_true ⟨Runs.always_nil.2 h.watched, Runs.guarded_nil⟩ trivial
  | cons act acts ih =>
      obtain ⟨m, hm, hrest⟩ := Option.bind_eq_some_iff.1 hrun
      have hnext' := NetworkView.next_id_pos hnext hm
      rw [Runs.always_cons hm, Runs.guarded_cons hm]
      simp only [h.watched, true_and]
      cases act with
      | signal now =>
          obtain ⟨hremoves, hphase⟩ := h.signal hnext hm
          rw [hremoves, Undisturbed]
          constructor
          · rintro ⟨hall, hfired, hguarded⟩
            subst hfired
            exact ⟨rfl, (ih (hphase rfl) hnext' hrest).1 ⟨hall, hguarded⟩⟩
          · rintro ⟨hfired, hprompt⟩
            subst hfired
            obtain ⟨hall, hguarded⟩ := (ih (hphase rfl) hnext' hrest).2 hprompt
            exact ⟨hall, rfl, hguarded⟩
      | fires id =>
          rw [Undisturbed, ← ih (h.fires hm) hnext' hrest]
          exact and_congr_right fun _ => and_iff_right trivial
      | completes =>
          rw [Undisturbed, ← ih (h.completes hm) hnext' hrest]
          exact and_congr_right fun _ => and_iff_right trivial
      | fails =>
          rw [Undisturbed, ← ih (h.fails hm) hnext' hrest]
          exact and_congr_right fun _ => and_iff_right trivial

/-- **There is a single watchdog in every state of a run**, and only pending timeouts are removed,
exactly when no signal arrives between a firing and the next completion. -/
theorem single_watchdog_iff {acts : List NetworkView.Act} {view : NetworkView}
    (hrun : Runs.run NetworkView.step NetworkView.init acts = some view) :
    Runs.Always NetworkView.step NetworkView.Watched NetworkView.init acts ∧
        Runs.Guarded NetworkView.step NetworkView.RemovesPending NetworkView.init acts ↔
      Undisturbed false acts :=
  NetworkView.phase_init.run_iff Nat.one_pos hrun

/-- A timeout fires and the view reconnects. -/
def reconnect : List NetworkView.Act :=
  [.completes, .signal 1000, .fires 1, .completes, .signal 4000]

theorem single_watchdog_iff_reconnect :
    Runs.run NetworkView.step NetworkView.init reconnect =
        some ⟨some ⟨2, 2⟩, 0, [⟨2, 2, 6000⟩], 2, 3⟩ ∧
      (Runs.Always NetworkView.step NetworkView.Watched NetworkView.init reconnect ∧
          Runs.Guarded NetworkView.step NetworkView.RemovesPending NetworkView.init reconnect ↔
        Undisturbed false reconnect) := by
  have hrun : Runs.run NetworkView.step NetworkView.init reconnect =
      some ⟨some ⟨2, 2⟩, 0, [⟨2, 2, 6000⟩], 2, 3⟩ := by decide
  exact ⟨hrun, single_watchdog_iff hrun⟩

/-- The second signal arrives after the timeout of the first has fired, and before the request it
makes completes. -/
def lateSignal : List NetworkView.Act :=
  [.completes, .signal 1000, .fires 1, .signal 3100, .completes, .signal 4000]

/-- **A late signal** leaves a timeout that no handler removes: the next proxy adds a second one. -/
theorem late_signal_doubles :
    ((Runs.run NetworkView.step NetworkView.init lateSignal).map fun view =>
        view.timeouts.map Timeout.owner) = some [1, 2] ∧
      ¬ (Runs.Always NetworkView.step NetworkView.Watched NetworkView.init lateSignal ∧
        Runs.Guarded NetworkView.step NetworkView.RemovesPending NetworkView.init lateSignal) := by
  refine ⟨by decide, ?_⟩
  rintro ⟨hall, _⟩
  have hlen := (hall lateSignal [] _ (List.append_nil _).symm rfl).length_le
  exact absurd hlen (by decide)

end NetworkAnalyzer
