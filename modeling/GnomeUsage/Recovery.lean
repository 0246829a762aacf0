/-
Whether the view can restart the analyzer.

The view asks for a proxy, for which D-Bus starts the analyzer, when it is constructed and when a
timeout of the handler of `usage_changed` fires.  Such a timeout is only added when a report comes
in, so that a proxy whose handler has not heard of the analyzer has none.

* `Session.Recoverable` — a stopped analyzer will be restarted;
* `NetworkView.Settled`, `NetworkView.Heard` — nothing but the installed proxy can restart it; its
  handler has received a report;
* `NetworkView.Ok` — the invariant of the view;
* `recoverable_iff` — **a run stays recoverable exactly when the analyzer only quits on a view
  whose handler has heard of it**;
* `quiet_strands` — a run without traffic that does not.
-/

import GnomeUsage.KeepAlive

set_option relaxedAutoImplicit false
set_option autoImplicit false

namespace NetworkAnalyzer

/-- **Recoverable**: if the analyzer is not running, the view has a timeout pending or has asked
for a proxy. -/
def Session.Recoverable (s : Session) : Prop :=
  s.application = none → s.view.timeouts ≠ [] ∨ 0 < s.view.requests

/-- No proxy is requested, and no timeout of the handler of an earlier proxy is pending. -/
def NetworkView.Settled (view : NetworkView) : Prop :=
  view.requests = 0 ∧ ∀ timeout ∈ view.timeouts,
    ∃ proxy, view.network_analyzer = some proxy ∧ timeout.owner = proxy.serial

instance (view : NetworkView) : Decidable view.Settled :=
  inferInstanceAs (Decidable (view.requests = 0 ∧ ∀ timeout ∈ view.timeouts,
    ∃ proxy ∈ view.network_analyzer, timeout.owner = proxy.serial))

/-- The handler of the installed proxy has received a `usage_changed`. -/
def NetworkView.Heard (view : NetworkView) : Prop :=
  ∃ proxy, view.network_analyzer = some proxy ∧ proxy.network_analyzer_timeout_id ≠ 0

instance (view : NetworkView) : Decidable view.Heard :=
  inferInstanceAs (Decidable (∃ proxy ∈ view.network_analyzer,
    proxy.network_analyzer_timeout_id ≠ 0))

/-- **The guard**: the analyzer quits only when, if the view is settled, its handler has received
a report. -/
def Session.QuitsHeard {ι : Type*} (s : Session) : Session.Act ι → Prop
  | .quitFires => s.view.Settled → s.view.Heard
  | _ => True

instance {ι : Type*} (s : Session) (act : Session.Act ι) : Decidable (s.QuitsHeard act) :=
  match act with
  | .quitFires => inferInstanceAs (Decidable (_ → _))
  | .elapse _ | .dbusStarts | .nameAcquired | .refresh _ | .deliverAck | .proxyCompletes
  | .proxyFails | .deliverSignal | .watchdogFires _ => .isTrue trivial

/-! ### The invariant of the view -/

structure NetworkView.Ok (view : NetworkView) : Prop where
  heard : view.Heard → view.timeouts ≠ [] ∨ 0 < view.requests
  own : ∀ proxy, view.network_analyzer = some proxy → ∀ timeout ∈ view.timeouts,
    timeout.owner = proxy.serial → proxy.network_analyzer_timeout_id ≠ 0
  serial_le : ∀ proxy, view.network_analyzer = some proxy → proxy.serial ≤ view.proxies
  owner_le : ∀ timeout ∈ view.timeouts, timeout.owner ≤ view.proxies
  next_id_pos : 0 < view.next_id

theorem NetworkView.ok_init : NetworkView.init.Ok where
  heard := fun _ => .inr Nat.one_pos
  own := by
    intro proxy hproxy
    cases hproxy
  serial_le := by
    intro proxy hproxy
    cases hproxy
  owner_le := by
    intro timeout ht
    cases ht
  next_id_pos := Nat.one_pos

theorem mem_sourceRemove {id : ℕ} {timeouts : List Timeout} {timeout : Timeout}
    (h : timeout ∈ sourceRemove id timeouts) : timeout ∈ timeouts :=
  (List.mem_filter.1 h).1

/-- A timeout that has fired has asked for a proxy. -/
theorem NetworkView.Ok.fired {view : NetworkView} (h : view.Ok) (id : ℕ) :
    (NetworkView.startNetworkAnalyzer
      { view with timeouts := sourceRemove id view.timeouts }).Ok where
  heard := fun _ => .inr (Nat.succ_pos _)
  own := fun proxy hproxy timeout ht => h.own proxy hproxy timeout (mem_sourceRemove ht)
  serial_le := h.serial_le
  owner_le := fun timeout ht => h.owner_le timeout (mem_sourceRemove ht)
  next_id_pos := h.next_id_pos

/-- A new proxy has no timeouts. -/
theorem NetworkView.Ok.connected {view : NetworkView} (h : view.Ok) :
    (NetworkView.connectNetworkAnalyzerSignal
      { view with requests := view.requests - 1 }).Ok where
  heard := by
    rintro ⟨proxy, hproxy, hid⟩
    cases hproxy
    exact absurd rfl hid
  own := by
    intro proxy hproxy timeout ht howner
    cases hproxy
    have hle : timeout.owner ≤ view.proxies := h.owner_le timeout ht
    have heq : timeout.owner = view.proxies + 1 := howner
    omega
  serial_le := by
    intro proxy hproxy
    cases hproxy
    exact le_rfl
  owner_le := fun timeout ht => Nat.le_succ_of_le (h.owner_le timeout ht)
  next_id_pos := h.next_id_pos

theorem NetworkView.usageChanged_ne_nil (now : ℕ) (view : NetworkView) (proxy : Proxy) :
    (view.usageChanged now proxy).timeouts ≠ [] :=
  List.append_ne_nil_of_right_ne_nil _ (List.cons_ne_nil _ _)

/-- The timeouts the handler leaves are old ones, and its own. -/
theorem NetworkView.mem_usageChanged {now : ℕ} {view : NetworkView} {proxy : Proxy}
    {timeout : Timeout} (h : timeout ∈ (view.usageChanged now proxy).timeouts) :
    timeout ∈ view.timeouts ∨ timeout.owner = proxy.serial := by
  rcases List.mem_append.1 h with hold | hnew
  · left
    split at hold
    · exact mem_sourceRemove hold
    · exact hold
  · right
    rw [List.mem_singleton.1 hnew]

theorem NetworkView.Ok.reported {view : NetworkView} (h : view.Ok) {proxy : Proxy}
    (hproxy : view.network_analyzer = some proxy) (now : ℕ) :
    (view.usageChanged now proxy).Ok where
  heard := fun _ => .inl (usageChanged_ne_nil now view proxy)
  own := by
    intro proxy' hproxy' timeout _ _
    cases hproxy'
    exact Nat.pos_iff_ne_zero.1 h.next_id_pos
  serial_le := by
    intro proxy' hproxy'
    cases hproxy'
    exact h.serial_le proxy hproxy
  owner_le := by
    intro timeout ht
    rcases mem_usageChanged ht with hold | hown
    · exact h.owner_le timeout hold
    · rw [hown]
      exact h.serial_le proxy hproxy
  next_id_pos := Nat.succ_pos _

/-- **What can restart the analyzer**: the view has a timeout pending or has asked for a proxy
exactly when, if it is settled, its handler has received a report. -/
theorem NetworkView.Ok.pending_iff {view : NetworkView} (h : view.Ok) :
    (view.timeouts ≠ [] ∨ 0 < view.requests) ↔ (view.Settled → view.Heard) := by
  constructor
  · rintro hpending ⟨hreq, hown⟩
    have hne : view.timeouts ≠ [] := hpending.resolve_right (by omega)
    obtain ⟨timeout, ht⟩ := List.exists_mem_of_ne_nil _ hne
    obtain ⟨proxy, hproxy, howner⟩ := hown timeout ht
    exact ⟨proxy, hproxy, h.own proxy hproxy timeout ht howner⟩
  · intro hheard
    by_contra hpending
    obtain ⟨hnil, hreq⟩ := not_or.1 hpending
    rw [not_not] at hnil
    refine hpending (h.heard (hheard ⟨by omega, ?_⟩))
    rw [hnil]
    intro timeout ht
    cases ht

/-! ### Runs -/

variable {ι : Type*} {host : Host} {lookup : NAState → Capture → ProcessLookup}
variable {iface_handles : List ι}

/-- Every act but a failing request keeps the invariant of the view. -/
theorem Session.step_view_ok {s s' : Session} {act : Session.Act ι} (h : s.view.Ok)
    (hact : act ≠ .proxyFails) (hstep : s.step host lookup iface_handles act = some s') :
    s'.view.Ok := by
  cases act with
  | elapse d =>
      obtain rfl := step_elapse hstep
      exact h
  | dbusStarts =>
      obtain ⟨_, _, rfl⟩ := step_dbusStarts hstep
      exact h
  | nameAcquired =>
      obtain ⟨_, _, _, rfl⟩ := step_nameAcquired hstep
      exact h
  | refresh tick =>
      obtain ⟨_, _, _, _, _, _, _, _, rfl⟩ := step_refresh hstep
      exact h
  | quitFires =>
      obtain ⟨_, _, _, rfl⟩ := step_quitFires hstep
      exact h
  | deliverAck =>
      obtain ⟨_, _, _, rfl⟩ := step_deliverAck hstep
      exact h
  | proxyCompletes =>
      obtain ⟨_, _, rfl⟩ := step_proxyCompletes hstep
      exact h.connected
  | proxyFails => exact absurd rfl hact
  | deliverSignal =>
      obtain ⟨_, _, _, ⟨_, rfl⟩ | ⟨proxy, hproxy, rfl⟩⟩ := step_deliverSignal hstep
      · exact h
      · exact h.reported hproxy s.now
  | watchdogFires id =>
      obtain ⟨_, _, _, _, rfl⟩ := step_watchdogFires hstep
      exact h.fired id

/-- **One step** keeps a session recoverable exactly when it meets the guard. -/
theorem Session.step_recoverable_iff {s s' : Session} {act : Session.Act ι} (h : s.view.Ok)
    (hrec : s.Recoverable) (hact : act ≠ .proxyFails)
    (hstep : s.step host lookup iface_handles act = some s') :
    s'.Recoverable ↔ s.QuitsHeard act := by
  cases act with
  | elapse d =>
      obtain rfl := step_elapse hstep
      exact iff_of_true hrec trivial
  | dbusStarts =>
      obtain ⟨_, _, rfl⟩ := step_dbusStarts hstep
      exact iff_of_true (fun hnone => by cases hnone) trivial
  | nameAcquired =>
      obtain ⟨_, _, _, rfl⟩ := step_nameAcquired hstep
      exact iff_of_true (fun hnone => by cases hnone) trivial
  | refresh tick =>
      obtain ⟨_, _, _, _, _, _, _, _, rfl⟩ := step_refresh hstep
      exact iff_of_true (fun hnone => by cases hnone) trivial
  | quitFires =>
      -- the analyzer is gone, and all hangs on the view
      obtain ⟨_, _, _, rfl⟩ := step_quitFires hstep
      refine Iff.trans ?_ h.pending_iff
      exact ⟨fun hpending => hpending rfl, fun hpending _ => hpending⟩
  | deliverAck =>
      obtain ⟨_, _, _, rfl⟩ := step_deliverAck hstep
      exact iff_of_true (fun hnone => hrec (Option.map_eq_none_iff.1 hnone)) trivial
  | proxyCompletes =>
      obtain ⟨happ, _, rfl⟩ := step_proxyCompletes hstep
      refine iff_of_true ?_ trivial
      intro hnone
      rw [show s.application = none from hnone] at happ
      cases happ
  | proxyFails => exact absurd rfl hact
  | deliverSignal =>
      obtain ⟨_, _, _, ⟨_, rfl⟩ | ⟨proxy, _, rfl⟩⟩ := step_deliverSignal hstep
      · exact iff_of_true hrec trivial
      · exact iff_of_true (fun _ => .inl (NetworkView.usageChanged_ne_nil _ _ _)) trivial
  | watchdogFires id =>
      obtain ⟨_, _, _, _, rfl⟩ := step_watchdogFires hstep
      exact iff_of_true (fun _ => .inr (Nat.succ_pos _)) trivial

/-- **Recoverability.**  A run in which no request for a proxy fails is recoverable in every state
it passes through exactly when, whenever the analyzer quits, a proxy is requested, or a timeout of
an earlier proxy is pending, or the handler of the installed proxy has received a report. -/
theorem recoverable_iff {acts : List (Session.Act ι)} {s : Session}
    (hrun : Runs.run (Session.step host lookup iface_handles) Session.init acts = some s)
    (hacts : Session.Act.proxyFails ∉ acts) :
    Runs.Always (Session.step host lookup iface_handles) Session.Recoverable Session.init acts ↔
      Runs.Guarded (Session.step host lookup iface_handles) Session.QuitsHeard Session.init
        acts := by
  refine @Runs.always_iff_guarded _ _ (Session.step host lookup iface_handles)
    (fun s => s.view.Ok) _ _ (fun act => act ≠ .proxyFails) ?_ ?_ _ s NetworkView.ok_init ?_ acts ?_
    hrun
  · intro s act s' h hact hstep
    exact Session.step_view_ok h hact hstep
  · intro s act s' h hrec hact hstep
    exact Session.step_recoverable_iff h hrec hact hstep
  · intro _
    exact .inr Nat.one_pos
  · rintro act hmem rfl
    exact hacts hmem

/-- The view hears of one report, and the analyzer quits before the timeout of the view fires; then
the timeout has it started again. -/
def restartRun : List (Session.Act Unit) :=
  startUp ++ (busySecond ⟨100⟩ ++
    [.elapse 5000, .quitFires, .watchdogFires 1, .dbusStarts, .proxyCompletes])

theorem recoverable_iff_restart :
    (∃ s, Runs.run (Session.step silentHost (fun _ _ => ⟨none, none⟩) [()]) Session.init
        restartRun = some s ∧ s.application.isSome = true) ∧
      Runs.Always (Session.step silentHost (fun _ _ => ⟨none, none⟩) [()]) Session.Recoverable
        Session.init restartRun := by
  have hrun : ((Runs.run (Session.step silentHost (fun _ _ => ⟨none, none⟩) [()]) Session.init
      restartRun).map fun s => s.application.isSome) = some true := by decide
  obtain ⟨s, hrun, happ⟩ := Option.map_eq_some_iff.1 hrun
  refine ⟨⟨s, hrun, happ⟩, ?_⟩
  exact (recoverable_iff hrun (by simp [restartRun, startUp, busySecond])).2 (by decide)

/-- Five seconds without traffic, after which nothing restarts the analyzer. -/
theorem quiet_strands :
    ∃ s, Runs.run (Session.step silentHost (fun _ _ => ⟨none, none⟩) [()]) Session.init
        (startUp ++ quietSecond ⟨1⟩ ++ quietSecond ⟨2⟩ ++ quietSecond ⟨3⟩ ++ quietSecond ⟨4⟩ ++
          quietSecond ⟨5⟩ ++ [.quitFires]) = some s ∧ ¬ s.Recoverable := by
  refine ⟨⟨5000, none, ⟨some ⟨1, 0⟩, 0, [], 1, 1⟩, [], []⟩, rfl, ?_⟩
  intro h
  rcases h rfl with hne | hreq
  · exact hne rfl
  · cases hreq

end NetworkAnalyzer
