/-
The analyzer and the network view that keeps it alive (`na-application.c`,
`usage-network-view.vala`).

The analyzer quits when it has not been acknowledged for five seconds, and the view acknowledges
every report it receives.  The view asks for a new proxy, which makes D-Bus start the analyzer, when
two seconds have gone by since the last report.  Both are given here as one transition system,
with the messages that are under way between them.

Time is counted in milliseconds.  A timeout may fire at any time after it is due, so that only what
is assumed of a run can make it fire on time; and events of the two programs and deliveries of
messages may come in any order.

* `NAApplication`, `NetworkView` — the timers and what else the two programs remember;
* `Session`, `Session.Act`, `Session.step` — the transition system;
* `NetworkView.usageChanged` — the handler of `usage_changed`;
-/

import GnomeUsage.MainLoop

set_option relaxedAutoImplicit false
set_option autoImplicit false

namespace NetworkAnalyzer

/-- `QUIT_TIMEOUT_DURATION`, in seconds. -/
def QUIT_TIMEOUT_DURATION : ℕ := 5

/-- `DEFAULT_REFRESH_DELAY`, in seconds. -/
def DEFAULT_REFRESH_DELAY : ℕ := 1

/-- `NETWORK_ANALYZER_TIMEOUT`, in seconds. -/
def NETWORK_ANALYZER_TIMEOUT : ℕ := 2

/-- When a timeout is due that `g_timeout_add_seconds` adds now. -/
def timeoutAddSeconds (now seconds : ℕ) : ℕ := now + 1000 * seconds

/-! ### The analyzer -/

structure NAApplication where
  state : NAState
  /-- When the quit timeout is due. -/
  quit_timeout : ℕ
  /-- When the next refresh is due, once the name is acquired. -/
  refresh_timeout : Option ℕ

/-- `reset_quit_timeout`: the timeout that is pending is removed, and a new one added. -/
def NAApplication.resetQuitTimeout (now : ℕ) (application : NAApplication) : NAApplication :=
  { application with quit_timeout := timeoutAddSeconds now QUIT_TIMEOUT_DURATION }

/-- `na_application_init`. -/
def naApplicationInit (now : ℕ) : NAApplication :=
  NAApplication.resetQuitTimeout now ⟨NAState.init, 0, none⟩

/-- `on_name_acquired`. -/
def NAApplication.onNameAcquired (now : ℕ) (application : NAApplication) : NAApplication :=
  { application with refresh_timeout := some (timeoutAddSeconds now DEFAULT_REFRESH_DELAY) }

/-! ### The view -/

/-- A pending timeout of the view. -/
structure Timeout where
  id : ℕ
  /-- The proxy whose handler has added it. -/
  owner : ℕ
  due : ℕ
  deriving DecidableEq

/-- A proxy of the analyzer, with the variable its handler has captured. -/
structure Proxy where
  serial : ℕ
  network_analyzer_timeout_id : ℕ
  deriving DecidableEq

structure NetworkView where
  network_analyzer : Option Proxy
  /-- The calls of `Bus.get_proxy` that have not completed. -/
  requests : ℕ
  timeouts : List Timeout
  /-- How many proxies there have been. -/
  proxies : ℕ
  /-- The id of the next timeout. -/
  next_id : ℕ
  deriving DecidableEq

/-- `start_network_analyzer`. -/
def NetworkView.startNetworkAnalyzer (view : NetworkView) : NetworkView :=
  { view with requests := view.requests + 1 }

/-- The view as it is constructed. -/
def NetworkView.init : NetworkView :=
  NetworkView.startNetworkAnalyzer ⟨none, 0, [], 0, 1⟩

/-- The request of a proxy completes: the proxy is installed in place of the one before, and
`connect_network_analyzer_signal` gives it a handler. -/
def NetworkView.connectNetworkAnalyzerSignal (view : NetworkView) : NetworkView :=
  { view with
    network_analyzer := some ⟨view.proxies + 1, 0⟩
    proxies := view.proxies + 1 }

/-- `Source.remove`. -/
def sourceRemove (id : ℕ) (timeouts : List Timeout) : List Timeout :=
  timeouts.filter fun timeout => timeout.id ≠ id

/-- The handler of `usage_changed`, of the proxy that is installed, up to `acknowledge`. -/
def NetworkView.usageChanged (now : ℕ) (view : NetworkView) (proxy : Proxy) : NetworkView :=
  let timeouts :=
    if proxy.network_analyzer_timeout_id > 0 then
      sourceRemove proxy.network_analyzer_timeout_id view.timeouts
    else view.timeouts
  { view with
    network_analyzer := some { proxy with network_analyzer_timeout_id := view.next_id }
    timeouts := timeouts ++
      [⟨view.next_id, proxy.serial, timeoutAddSeconds now NETWORK_ANALYZER_TIMEOUT⟩]
    next_id := view.next_id + 1 }

/-! ### The two together -/

/-- The two programs and the messages under way, every message with the time of the report it
is or answers. -/
structure Session where
  now : ℕ
  /-- `none` when the analyzer is not running. -/
  application : Option NAApplication
  view : NetworkView
  /-- The signals `UsageChanged` under way. -/
  signals : List ℕ
  /-- The calls of `Acknowledge` under way. -/
  acks : List ℕ

def Session.init : Session := ⟨0, none, NetworkView.init, [], []⟩

variable {ι : Type*}

inductive Session.Act (ι : Type*) where
  /-- Time goes by. -/
  | elapse (d : ℕ)
  /-- D-Bus starts the analyzer, for a proxy that is requested. -/
  | dbusStarts
  | nameAcquired
  | refresh (tick : Tick ι)
  | quitFires
  | deliverAck
  | proxyCompletes
  | proxyFails
  | deliverSignal
  /-- The timeout of the view with the given id fires. -/
  | watchdogFires (id : ℕ)

variable (host : Host) (lookup : NAState → Capture → ProcessLookup) (iface_handles : List ι)

/-- The session after a tick of the main loop of the analyzer. -/
def Session.refreshed (s : Session) (application : NAApplication) (state : NAState)
    (report : Option (List NAProcInfo)) : Session :=
  { s with
    application := some { application with
      state := state
      refresh_timeout := some (timeoutAddSeconds s.now DEFAULT_REFRESH_DELAY) }
    -- without a report no signal is emitted
    signals := s.signals ++ report.elim [] fun _ => [s.now] }

/-- One step; `none` when the act cannot happen. -/
def Session.step (s : Session) : Session.Act ι → Option Session
  | .elapse d => some { s with now := s.now + d }
  | .dbusStarts =>
      match s.application with
      | some _ => none
      | none =>
          if 0 < s.view.requests then some { s with application := some (naApplicationInit s.now) }
          else none
  | .nameAcquired => do
      let application ← s.application
      match application.refresh_timeout with
      | some _ => none
      | none => some { s with application := some (application.onNameAcquired s.now) }
  | .refresh tick => do
      let application ← s.application
      let due ← application.refresh_timeout
      if due ≤ s.now then do
        let (state, report) ← mainLoopCb host lookup iface_handles application.state tick
        some (s.refreshed application state report)
      else none
  | .quitFires => do
      let application ← s.application
      if application.quit_timeout ≤ s.now then some { s with application := none } else none
  | .deliverAck =>
      match s.acks with
      | [] => none
      | _ :: acks =>
          -- the call is lost when the analyzer is not running
          some { s with
            application := s.application.map (NAApplication.resetQuitTimeout s.now)
            acks := acks }
  | .proxyCompletes =>
      -- D-Bus has started the analyzer by then
      if s.application.isSome ∧ 0 < s.view.requests then
        some { s with
          view := NetworkView.connectNetworkAnalyzerSignal
            { s.view with requests := s.view.requests - 1 } }
      else none
  | .proxyFails =>
      -- the error is printed
      if 0 < s.view.requests then
        some { s with view := { s.view with requests := s.view.requests - 1 } }
      else none
  | .deliverSignal =>
      match s.signals with
      | [] => none
      | sent :: signals =>
          match s.view.network_analyzer with
          | none => some { s with signals := signals }
          | some proxy =>
              some { s with
                view := s.view.usageChanged s.now proxy
                signals := signals
                acks := s.acks ++ [sent] }
  | .watchdogFires id =>
      match s.view.timeouts.find? fun timeout => timeout.id = id with
      | none => none
      | some timeout =>
          if timeout.due ≤ s.now then
            some { s with
              view := NetworkView.startNetworkAnalyzer
                { s.view with timeouts := sourceRemove id s.view.timeouts } }
          else none

/-! ### What one act can do -/

variable {host lookup iface_handles} {s s' : Session}

theorem Session.step_elapse {d : ℕ}
    (h : s.step host lookup iface_handles (.elapse d) = some s') :
    s' = { s with now := s.now + d } := (Option.some_inj.1 h).symm

theorem Session.step_dbusStarts
    (h : s.step host lookup iface_handles .dbusStarts = some s') :
    s.application = none ∧ 0 < s.view.requests ∧
      s' = { s with application := some (naApplicationInit s.now) } := by
  rw [step] at h
  cases happ : s.application with
  | some application => simp [happ] at h
  | none =>
      simp only [happ, Option.ite_none_right_eq_some, Option.some_inj] at h
      exact ⟨rfl, h.1, h.2.symm⟩

theorem Session.step_nameAcquired
    (h : s.step host lookup iface_handles .nameAcquired = some s') :
    ∃ application, s.application = some application ∧ application.refresh_timeout = none ∧
      s' = { s with application := some (application.onNameAcquired s.now) } := by
  obtain ⟨application, happ, h⟩ := Option.bind_eq_some_iff.1 h
  cases hdue : application.refresh_timeout with
  | some due => simp [hdue] at h
  | none =>
      simp only [hdue, Option.some_inj] at h
      exact ⟨application, happ, hdue, h.symm⟩

theorem Session.step_refresh {tick : Tick ι}
    (h : s.step host lookup iface_handles (.refresh tick) = some s') :
    ∃ application due state report, s.application = some application ∧
      application.refresh_timeout = some due ∧ due ≤ s.now ∧
      mainLoopCb host lookup iface_handles application.state tick = some (state, report) ∧
      s' = s.refreshed application state report := by
  obtain ⟨application, happ, h⟩ := Option.bind_eq_some_iff.1 h
  obtain ⟨due, hdue, h⟩ := Option.bind_eq_some_iff.1 h
  obtain ⟨hle, h⟩ := Option.ite_none_right_eq_some.1 h
  obtain ⟨⟨state, report⟩, hloop, h⟩ := Option.bind_eq_some_iff.1 h
  exact ⟨application, due, state, report, happ, hdue, hle, hloop, (Option.some_inj.1 h).symm⟩

theorem Session.step_quitFires
    (h : s.step host lookup iface_handles .quitFires = some s') :
    ∃ application, s.application = some application ∧ application.quit_timeout ≤ s.now ∧
      s' = { s with application := none } := by
  obtain ⟨application, happ, h⟩ := Option.bind_eq_some_iff.1 h
  obtain ⟨hle, h⟩ := Option.ite_none_right_eq_some.1 h
  exact ⟨application, happ, hle, (Option.some_inj.1 h).symm⟩

theorem Session.step_deliverAck
    (h : s.step host lookup iface_handles .deliverAck = some s') :
    ∃ sent acks, s.acks = sent :: acks ∧
      s' = { s with
        application := s.application.map (NAApplication.resetQuitTimeout s.now)
        acks := acks } := by
  rw [step] at h
  cases hacks : s.acks with
  | nil => simp [hacks] at h
  | cons sent acks =>
      simp only [hacks, Option.some_inj] at h
      exact ⟨sent, acks, rfl, h.symm⟩

theorem Session.step_proxyCompletes
    (h : s.step host lookup iface_handles .proxyCompletes = some s') :
    s.application.isSome = true ∧ 0 < s.view.requests ∧
      s' = { s with
        view := NetworkView.connectNetworkAnalyzerSignal
          { s.view with requests := s.view.requests - 1 } } := by
  obtain ⟨⟨happ, hreq⟩, h⟩ := Option.ite_none_right_eq_some.1 h
  exact ⟨happ, hreq, (Option.some_inj.1 h).symm⟩

theorem Session.step_proxyFails
    (h : s.step host lookup iface_handles .proxyFails = some s') :
    0 < s.view.requests ∧
      s' = { s with view := { s.view with requests := s.view.requests - 1 } } := by
  obtain ⟨hreq, h⟩ := Option.ite_none_right_eq_some.1 h
  exact ⟨hreq, (Option.some_inj.1 h).symm⟩

/-- A signal is lost when no proxy is installed; otherwise the handler answers it. -/
theorem Session.step_deliverSignal
    (h : s.step host lookup iface_handles .deliverSignal = some s') :
    ∃ sent signals, s.signals = sent :: signals ∧
      (s.view.network_analyzer = none ∧ s' = { s with signals := signals } ∨
        ∃ proxy, s.view.network_analyzer = some proxy ∧
          s' = { s with
            view := s.view.usageChanged s.now proxy
            signals := signals
            acks := s.acks ++ [sent] }) := by
  rw [step] at h
  cases hsignals : s.signals with
  | nil => simp [hsignals] at h
  | cons sent signals =>
      refine ⟨sent, signals, rfl, ?_⟩
      cases hproxy : s.view.network_analyzer with
      | none =>
          simp only [hsignals, hproxy, Option.some_inj] at h
          exact .inl ⟨rfl, h.symm⟩
      | some proxy =>
          simp only [hsignals, hproxy, Option.some_inj] at h
          exact .inr ⟨proxy, rfl, h.symm⟩

theorem Session.step_watchdogFires {id : ℕ}
    (h : s.step host lookup iface_handles (.watchdogFires id) = some s') :
    ∃ timeout ∈ s.view.timeouts, timeout.id = id ∧ timeout.due ≤ s.now ∧
      s' = { s with
        view := NetworkView.startNetworkAnalyzer
          { s.view with timeouts := sourceRemove id s.view.timeouts } } := by
  rw [step] at h
  cases hfind : s.view.timeouts.find? fun timeout => timeout.id = id with
  | none => simp [hfind] at h
  | some timeout =>
      simp only [hfind, Option.ite_none_right_eq_some, Option.some_inj] at h
      refine ⟨timeout, List.mem_of_find?_eq_some hfind, ?_, h.1, h.2.symm⟩
      simpa using List.find?_some hfind

end NetworkAnalyzer
