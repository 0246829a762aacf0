/-
How long the analyzer is kept alive.

The analyzer is acknowledged by a view that receives its reports, but without a process to report on
it sends none.  Whether it quits therefore depends on how often it has something to report.

* `Session.Prompt` — what is assumed of a run: a view is connected, the refreshes come every
  second, and every report is answered within a second;
* `Session.Steady` — the guard: a quiet refresh comes soon after the last acknowledgement, or when
  the next is under way;
* `Session.Alive` — the invariant: what is under way, or the next refresh, comes in time;
* `quit_never_fires_of_steady` — **the quit timeout never fires in a prompt run that is steady**,
  and can fire behind any refresh that is not;
* `quiet_quits` — a prompt run without traffic in which it does.
-/

import GnomeUsage.Session

set_option relaxedAutoImplicit false
set_option autoImplicit false

namespace NetworkAnalyzer

variable {ι : Type*} (host : Host) (lookup : NAState → Capture → ProcessLookup)
variable (iface_handles : List ι)

/-- **A prompt state**: no refresh is late, and no report or its answer has been under way for
more than a second; and a view has been connected within a second of the start of the analyzer,
when the quit timeout was added. -/
structure Session.Prompt (s : Session) : Prop where
  delivered : ∀ sent ∈ s.signals ++ s.acks, s.now ≤ sent + 1000
  refreshed : ∀ application ∈ s.application, ∀ due ∈ application.refresh_timeout, s.now ≤ due
  connected : ∀ application ∈ s.application,
    application.refresh_timeout = none ∨ s.view.network_analyzer = none →
      s.now + 4000 ≤ application.quit_timeout

instance (s : Session) : Decidable s.Prompt :=
  decidable_of_iff
    ((∀ sent ∈ s.signals ++ s.acks, s.now ≤ sent + 1000) ∧
      (∀ application ∈ s.application, ∀ due ∈ application.refresh_timeout, s.now ≤ due) ∧
      ∀ application ∈ s.application,
        application.refresh_timeout = none ∨ s.view.network_analyzer = none →
          s.now + 4000 ≤ application.quit_timeout)
    ⟨fun h => ⟨h.1, h.2.1, h.2.2⟩, fun h => ⟨h.delivered, h.refreshed, h.connected⟩⟩

/-- **The guard**: when a refresh has nothing to report, a report or its answer is under way, or
the quit timeout was added less than three seconds ago. -/
def Session.Steady (s : Session) : Session.Act ι → Prop
  | .refresh tick => ∀ application ∈ s.application,
      QuietTick host lookup iface_handles application.state tick →
        s.signals ++ s.acks ≠ [] ∨ s.now + 2000 < application.quit_timeout
  | _ => True

instance (s : Session) : (act : Session.Act ι) →
    Decidable (s.Steady host lookup iface_handles act)
  | .refresh tick =>
      inferInstanceAs (Decidable (∀ application ∈ s.application,
        QuietTick host lookup iface_handles application.state tick →
          s.signals ++ s.acks ≠ [] ∨ s.now + 2000 < application.quit_timeout))
  | .elapse _ | .dbusStarts | .nameAcquired | .quitFires | .deliverAck | .proxyCompletes
  | .proxyFails | .deliverSignal | .watchdogFires _ => isTrue trivial

/-- The tick of a refresh. -/
def Session.Act.tick : Session.Act ι → Option (Tick ι)
  | .refresh tick => some tick
  | _ => none

/-- The quit timeout is not due. -/
def Session.NotDue (s : Session) : Prop :=
  ∀ application ∈ s.application, s.now < application.quit_timeout

/-! ### The invariant -/

/-- The state of the analyzer is well-formed. -/
def Session.StateOk (s : Session) : Prop := ∀ application ∈ s.application, application.state.Ok

/-- **The invariant**: the next refresh is at most a second away; and the quit timeout will not
have fired a second after some report that is under way, or answered, or a second after the next
refresh. -/
structure Session.Alive (s : Session) : Prop where
  sent_le : ∀ sent ∈ s.signals ++ s.acks, sent ≤ s.now
  due_le : ∀ application ∈ s.application, ∀ due ∈ application.refresh_timeout, due ≤ s.now + 1000
  safe : ∀ application ∈ s.application,
    (∃ sent ∈ s.signals ++ s.acks, sent + 1000 < application.quit_timeout) ∨
      ∀ due ∈ application.refresh_timeout, due + 1000 < application.quit_timeout

/-- **In a prompt state the quit timeout is not due.** -/
theorem Session.Alive.notDue {s : Session} (h : s.Alive) (hprompt : s.Prompt) : s.NotDue := by
  intro application happ
  rcases h.safe application happ with ⟨sent, hsent, hlt⟩ | hdue
  · have hle := hprompt.delivered sent hsent
    omega
  · cases hrefresh : application.refresh_timeout with
    | none =>
        have hle := hprompt.connected application happ (.inl hrefresh)
        omega
    | some due =>
        have hle := hprompt.refreshed application happ due hrefresh
        have hlt := hdue due hrefresh
        omega

theorem Session.alive_init : Session.init.Alive where
  sent_le := by
    intro sent hsent
    cases hsent
  due_le := by
    intro application happ
    cases happ
  safe := by
    intro application happ
    cases happ

variable {host lookup iface_handles}

/-- Every act keeps the state of the analyzer well-formed. -/
theorem Session.step_stateOk {s s' : Session} {act : Session.Act ι} (h : s.StateOk)
    (hstep : s.step host lookup iface_handles act = some s') : s'.StateOk := by
  cases act with
  | elapse d =>
      obtain rfl := step_elapse hstep
      exact h
  | dbusStarts =>
      obtain ⟨_, _, rfl⟩ := step_dbusStarts hstep
      intro application happ
      cases happ
      exact ok_init
  | nameAcquired =>
      obtain ⟨application, happ, _, rfl⟩ := step_nameAcquired hstep
      intro application' happ'
      cases happ'
      exact h application happ
  | refresh tick =>
      obtain ⟨application, _, state, report, happ, _, _, hloop, rfl⟩ := step_refresh hstep
      obtain ⟨hok, _⟩ := mainLoopCb_some host lookup (h application happ) hloop
      intro application' happ'
      cases happ'
      exact hok
  | quitFires =>
      obtain ⟨_, _, _, rfl⟩ := step_quitFires hstep
      intro application happ
      cases happ
  | deliverAck =>
      obtain ⟨_, _, _, rfl⟩ := step_deliverAck hstep
      intro application happ
      obtain ⟨application', happ', rfl⟩ := Option.map_eq_some_iff.1 happ
      exact h application' happ'
  | proxyCompletes =>
      obtain ⟨_, _, rfl⟩ := step_proxyCompletes hstep
      exact h
  | proxyFails =>
      obtain ⟨_, rfl⟩ := step_proxyFails hstep
      exact h
  | deliverSignal =>
      obtain ⟨_, _, _, ⟨_, rfl⟩ | ⟨_, _, rfl⟩⟩ := step_deliverSignal hstep
      · exact h
      · exact h
  | watchdogFires id =>
      obtain ⟨_, _, _, _, rfl⟩ := step_watchdogFires hstep
      exact h

/-- Time going by. -/
theorem Session.Alive.later {s : Session} (h : s.Alive) (d : ℕ) :
    Session.Alive { s with now := s.now + d } where
  sent_le := fun sent hsent => Nat.le_add_right_of_le (h.sent_le sent hsent)
  due_le := by
    intro application happ due hdue
    have hle := h.due_le application happ due hdue
    show due ≤ s.now + d + 1000
    omega
  safe := h.safe

/-- A refresh: a report is under way, or one was before, or the next refresh comes in time. -/
theorem Session.Alive.refresh {s : Session} (h : s.Alive) (hprompt : s.Prompt)
    {application : NAApplication} (happ : s.application = some application) {due : ℕ}
    (hdue : application.refresh_timeout = some due) (hle : due ≤ s.now)
    {report : Option (List NAProcInfo)}
    (hsteady : report = none →
      s.signals ++ s.acks ≠ [] ∨ s.now + 2000 < application.quit_timeout) (state : NAState) :
    (s.refreshed application state report).Alive where
  sent_le := by
    intro sent hsent
    rcases List.mem_append.1 hsent with hsignal | hack
    · rcases List.mem_append.1 hsignal with hold | hnew
      · exact h.sent_le sent (List.mem_append_left _ hold)
      · cases report with
        | none => cases hnew
        | some report => exact (List.mem_singleton.1 hnew).le
    · exact h.sent_le sent (List.mem_append_right _ hack)
  due_le := by
    intro application' happ' due' hdue'
    cases happ'
    cases hdue'
    exact le_rfl
  safe := by
    intro application' happ'
    cases happ'
    have hnow := hprompt.refreshed application happ due hdue
    -- what is under way was sent in time, as the refresh that is now would have been
    have hsent : ∀ sent ∈ s.signals ++ s.acks, sent + 1000 < application.quit_timeout ∨
        ∃ sent ∈ s.signals ++ s.acks, sent + 1000 < application.quit_timeout := by
      intro sent hsent
      rcases h.safe application happ with hsome | hall
      · exact .inr hsome
      · have hlt := hall due hdue
        have hbefore := h.sent_le sent hsent
        left
        omega
    have hold : (∃ sent ∈ s.signals ++ s.acks, sent + 1000 < application.quit_timeout) →
        ∃ sent ∈ (s.refreshed application state report).signals ++ s.acks,
          sent + 1000 < application.quit_timeout := by
      rintro ⟨sent, hmem, hlt⟩
      refine ⟨sent, ?_, hlt⟩
      simp only [Session.refreshed, List.mem_append] at hmem ⊢
      exact hmem.imp_left Or.inl
    cases report with
    | some report =>
        left
        rcases h.safe application happ with hsome | hall
        · exact hold hsome
        · have hlt := hall due hdue
          refine ⟨s.now, by simp [Session.refreshed], ?_⟩
          show s.now + 1000 < application.quit_timeout
          omega
    | none =>
        rcases hsteady rfl with hne | hlate
        · left
          obtain ⟨sent, hmem⟩ := List.exists_mem_of_ne_nil _ hne
          rcases hsent sent hmem with hlt | hsome
          · exact hold ⟨sent, hmem, hlt⟩
          · exact hold hsome
        · right
          intro due' hdue'
          cases hdue'
          show s.now + 1000 + 1000 < application.quit_timeout
          omega

/-- A state whose next refresh comes in time. -/
theorem Session.alive_of_refreshed {s : Session}
    (hsent : ∀ sent ∈ s.signals ++ s.acks, sent ≤ s.now)
    (hdue : ∀ application ∈ s.application, ∀ due ∈ application.refresh_timeout,
      due ≤ s.now + 1000 ∧ due + 1000 < application.quit_timeout) : s.Alive where
  sent_le := hsent
  due_le := fun application happ due hmem => (hdue application happ due hmem).1
  safe := fun application happ => .inr fun due hmem => (hdue application happ due hmem).2

/-- The name is acquired soon after the start. -/
theorem Session.Alive.nameAcquired {s : Session} (h : s.Alive) (hprompt : s.Prompt)
    {application : NAApplication} (happ : s.application = some application)
    (hnone : application.refresh_timeout = none) :
    Session.Alive { s with application := some (application.onNameAcquired s.now) } := by
  have hstart := hprompt.connected application happ (.inl hnone)
  refine alive_of_refreshed h.sent_le ?_
  intro application' happ' due hdue
  cases happ'
  cases hdue
  refine ⟨le_rfl, ?_⟩
  show s.now + 1000 + 1000 < application.quit_timeout
  omega

/-- An answer arms the quit timeout again. -/
theorem Session.Alive.acknowledged {s : Session} (h : s.Alive) {sent : ℕ} {acks : List ℕ}
    (hacks : s.acks = sent :: acks) :
    Session.Alive { s with
      application := s.application.map (NAApplication.resetQuitTimeout s.now)
      acks := acks } := by
  refine alive_of_refreshed (fun sent' hsent' => h.sent_le sent' ?_)
    fun application happ due hdue => ?_
  · rw [hacks]
    simp only [List.mem_append, List.mem_cons] at hsent' ⊢
    exact hsent'.imp_right Or.inr
  · obtain ⟨application', happ', rfl⟩ := Option.map_eq_some_iff.1 happ
    have hle := h.due_le application' happ' due hdue
    refine ⟨hle, ?_⟩
    show due + 1000 < s.now + 5000
    omega

/-- A report that is lost: the analyzer has just been started. -/
theorem Session.Alive.lost {s : Session} (h : s.Alive) (hprompt : s.Prompt) {sent : ℕ}
    {signals : List ℕ} (hsignals : s.signals = sent :: signals)
    (hnone : s.view.network_analyzer = none) :
    Session.Alive { s with signals := signals } := by
  refine alive_of_refreshed (fun sent' hsent' => h.sent_le sent' ?_)
    fun application happ due hdue => ?_
  · rw [hsignals, List.cons_append]
    exact List.mem_cons_of_mem _ hsent'
  · have hle := h.due_le application happ due hdue
    have hstart := hprompt.connected application happ (.inr hnone)
    refine ⟨hle, ?_⟩
    omega

/-- A report that is answered stays under way. -/
theorem Session.Alive.answered {s : Session} (h : s.Alive) {sent : ℕ} {signals : List ℕ}
    (hsignals : s.signals = sent :: signals) (view : NetworkView) :
    Session.Alive { s with view := view, signals := signals, acks := s.acks ++ [sent] } := by
  have hmem : ∀ sent', sent' ∈ signals ++ (s.acks ++ [sent]) ↔ sent' ∈ s.signals ++ s.acks := by
    intro sent'
    rw [hsignals]
    simp only [List.mem_append, List.mem_cons, List.not_mem_nil, or_false]
    tauto
  refine ⟨fun sent' hsent' => h.sent_le sent' ((hmem sent').1 hsent'), h.due_le, ?_⟩
  intro application happ
  refine (h.safe application happ).imp_left ?_
  rintro ⟨sent', hsent', hlt⟩
  exact ⟨sent', (hmem sent').2 hsent', hlt⟩

/-- **A prompt and steady step keeps the analyzer alive.** -/
theorem Session.step_alive {s s' : Session} {act : Session.Act ι} (hok : s.StateOk) (h : s.Alive)
    (hprompt : s.Prompt) (hsteady : s.Steady host lookup iface_handles act)
    (hstep : s.step host lookup iface_handles act = some s') : s'.Alive := by
  cases act with
  | elapse d =>
      obtain rfl := step_elapse hstep
      exact h.later d
  | dbusStarts =>
      obtain ⟨_, _, rfl⟩ := step_dbusStarts hstep
      refine alive_of_refreshed h.sent_le ?_
      intro application happ due hdue
      cases happ
      cases hdue
  | nameAcquired =>
      obtain ⟨application, happ, hnone, rfl⟩ := step_nameAcquired hstep
      exact h.nameAcquired hprompt happ hnone
  | refresh tick =>
      obtain ⟨application, due, state, report, happ, hdue, hle, hloop, rfl⟩ := step_refresh hstep
      obtain ⟨_, hquiet⟩ := mainLoopCb_some host lookup (hok application happ) hloop
      exact h.refresh hprompt happ hdue hle
        (fun hnone => hsteady application happ (hquiet.1 hnone)) state
  | quitFires =>
      obtain ⟨_, _, _, rfl⟩ := step_quitFires hstep
      refine alive_of_refreshed h.sent_le ?_
      intro application happ
      cases happ
  | deliverAck =>
      obtain ⟨sent, acks, hacks, rfl⟩ := step_deliverAck hstep
      exact h.acknowledged hacks
  | proxyCompletes =>
      obtain ⟨_, _, rfl⟩ := step_proxyCompletes hstep
      exact ⟨h.sent_le, h.due_le, h.safe⟩
  | proxyFails =>
      obtain ⟨_, rfl⟩ := step_proxyFails hstep
      exact ⟨h.sent_le, h.due_le, h.safe⟩
  | deliverSignal =>
      obtain ⟨sent, signals, hsignals, ⟨hnone, rfl⟩ | ⟨proxy, _, rfl⟩⟩ := step_deliverSignal hstep
      · exact h.lost hprompt hsignals hnone
      · exact h.answered hsignals _
  | watchdogFires id =>
      obtain ⟨_, _, _, _, rfl⟩ := step_watchdogFires hstep
      exact ⟨h.sent_le, h.due_le, h.safe⟩

/-! ### Runs -/

/-- Every state a run passes through is well-formed. -/
theorem Session.run_stateOk {acts : List (Session.Act ι)} {s : Session}
    (hrun : Runs.run (Session.step host lookup iface_handles) Session.init acts = some s) :
    s.StateOk := by
  refine Runs.run_inv ?_ ?_ hrun
  · intro s act s' hok hstep
    exact step_stateOk hok hstep
  · intro application happ
    cases happ

/-- **In a prompt and steady run the quit timeout is never due.** -/
theorem Session.always_notDue {acts : List (Session.Act ι)}
    (hprompt : Runs.Always (Session.step host lookup iface_handles) Session.Prompt Session.init
      acts)
    (hsteady : Runs.Guarded (Session.step host lookup iface_handles)
      (Session.Steady host lookup iface_handles) Session.init acts) :
    Runs.Always (Session.step host lookup iface_handles) Session.NotDue Session.init acts := by
  have hguard : Runs.Guarded (Session.step host lookup iface_handles)
      (fun s act => s.Prompt ∧ s.Steady host lookup iface_handles act) Session.init acts := by
    intro pre act post s hsplit hrun
    exact ⟨hprompt pre (act :: post) s hsplit hrun, hsteady pre act post s hsplit hrun⟩
  have halive : Runs.Always (Session.step host lookup iface_handles)
      (fun s => s.StateOk ∧ s.Alive) Session.init acts := by
    refine Runs.always_of_guarded ?_ ⟨?_, alive_init⟩ hguard
    · rintro s act s' ⟨hok, h⟩ ⟨hp, hs⟩ hstep
      exact ⟨step_stateOk hok hstep, step_alive hok h hp hs hstep⟩
    · intro application happ
      cases happ
  intro pre post s hsplit hrun
  exact (halive pre post s hsplit hrun).2.notDue (hprompt pre post s hsplit hrun)

/-- A state in which a view is connected is prompt when nothing is late. -/
theorem Session.prompt_of_connected {s : Session} {application : NAApplication}
    (happ : s.application = some application) {due : ℕ}
    (hdue : application.refresh_timeout = some due) (hle : s.now ≤ due)
    (hproxy : s.view.network_analyzer ≠ none)
    (hsent : ∀ sent ∈ s.signals ++ s.acks, s.now ≤ sent + 1000) : s.Prompt where
  delivered := hsent
  refreshed := by
    intro application' happ' due' hdue'
    cases happ.symm.trans happ'
    cases hdue.symm.trans hdue'
    exact hle
  connected := by
    rintro application' happ' (hnone | hnone)
    · cases happ.symm.trans happ'
      cases hdue.symm.trans hnone
    · exact absurd hnone hproxy

/-- After a refresh that found nothing under way only its own report is, and the state is
prompt. -/
theorem Session.prompt_refreshed {s : Session} (hproxy : s.view.network_analyzer ≠ none)
    (hmsg : s.signals ++ s.acks = []) (application : NAApplication) (state : NAState)
    (report : Option (List NAProcInfo)) :
    (∀ sent ∈ (s.refreshed application state report).signals ++
        (s.refreshed application state report).acks, sent = s.now) ∧
      (s.refreshed application state report).Prompt := by
  obtain ⟨hsignals, hacks⟩ := List.append_eq_nil_iff.1 hmsg
  have hsent : ∀ sent ∈ (s.refreshed application state report).signals ++
      (s.refreshed application state report).acks, sent = s.now := by
    intro sent hmem
    cases report with
    | none => simp [refreshed, hsignals, hacks] at hmem
    | some report => simpa [refreshed, hsignals, hacks] using hmem
  refine ⟨hsent, prompt_of_connected rfl rfl (Nat.le_add_right _ _) hproxy ?_⟩
  intro sent hmem
  have heq := hsent sent hmem
  show s.now ≤ sent + 1000
  omega

/-- When the quit timeout is due before the next refresh, and before anything under way has to
arrive, it may fire. -/
theorem Session.coast {s : Session} (hprompt : s.Prompt) {application : NAApplication}
    (happ : s.application = some application) {due : ℕ}
    (hdue : application.refresh_timeout = some due) (hproxy : s.view.network_analyzer ≠ none)
    (hbefore : application.quit_timeout ≤ due)
    (hsent : ∀ sent ∈ s.signals ++ s.acks, application.quit_timeout ≤ sent + 1000) :
    ∃ s', Runs.run (Session.step host lookup iface_handles) s
        [.elapse (application.quit_timeout - s.now), .quitFires] = some s' ∧
      Runs.Always (Session.step host lookup iface_handles) Session.Prompt s
        [.elapse (application.quit_timeout - s.now), .quitFires] := by
  have hnow := hprompt.refreshed application happ due hdue
  have hlater : Session.Prompt { s with now := s.now + (application.quit_timeout - s.now) } := by
    refine prompt_of_connected happ hdue ?_ hproxy ?_
    · show s.now + (application.quit_timeout - s.now) ≤ due
      omega
    · intro sent hmem
      have hle := hprompt.delivered sent hmem
      have hle' := hsent sent hmem
      show s.now + (application.quit_timeout - s.now) ≤ sent + 1000
      omega
  have hquit : Session.step host lookup iface_handles
      { s with now := s.now + (application.quit_timeout - s.now) } .quitFires =
        some { s with
          now := s.now + (application.quit_timeout - s.now)
          application := none } := by
    have hle : application.quit_timeout ≤ s.now + (application.quit_timeout - s.now) := by omega
    simp only [step, happ, Option.bind_eq_bind, Option.bind_some, if_pos hle]
  refine ⟨{ s with
    now := s.now + (application.quit_timeout - s.now)
    application := none }, ?_, ?_⟩
  · rw [Runs.run_cons, step, Option.bind_some, Runs.run_singleton, hquit]
  · refine (Runs.always_cons rfl).2 ⟨hprompt, (Runs.always_cons hquit).2 ⟨hlater, ?_⟩⟩
    refine Runs.always_nil.2 ⟨hlater.delivered, ?_, ?_⟩
    · intro application' happ'
      cases happ'
    · intro application' happ'
      cases happ'

/-- A refresh with the acts before and after it. -/
theorem Session.step_refresh_eq {s : Session} {application : NAApplication}
    (happ : s.application = some application) {due : ℕ}
    (hdue : application.refresh_timeout = some due) (hle : due ≤ s.now) {tick : Tick ι}
    {state : NAState} {report : Option (List NAProcInfo)}
    (hloop : mainLoopCb host lookup iface_handles application.state tick = some (state, report)) :
    s.step host lookup iface_handles (.refresh tick) =
      some (s.refreshed application state report) := by
  simp only [step, happ, hdue, hle, hloop, Option.bind_eq_bind, Option.bind_some, if_true]

/-- When nothing is under way, and the quit timeout is due at most a second after the next refresh,
it may fire before that, or before the report of that refresh is answered. -/
theorem Session.quits_by_next {s : Session} (hok : s.StateOk) (hprompt : s.Prompt)
    {application : NAApplication} (happ : s.application = some application) {due : ℕ}
    (hdue : application.refresh_timeout = some due) (hproxy : s.view.network_analyzer ≠ none)
    (hmsg : s.signals ++ s.acks = []) (hquit : application.quit_timeout ≤ due + 1000)
    (next : Tick ι) :
    ∃ more s', more.filterMap Session.Act.tick <+: [next] ∧
      Runs.run (Session.step host lookup iface_handles) s (more ++ [.quitFires]) = some s' ∧
      Runs.Always (Session.step host lookup iface_handles) Session.Prompt s
        (more ++ [.quitFires]) := by
  have hnone : ∀ sent, sent ∉ s.signals ++ s.acks := by
    rw [hmsg]
    exact fun sent => List.not_mem_nil
  have hnow := hprompt.refreshed application happ due hdue
  by_cases hsoon : application.quit_timeout ≤ due
  · obtain ⟨s', hrun, hall⟩ := coast hprompt happ hdue hproxy hsoon
      fun sent hmem => absurd hmem (hnone sent)
    exact ⟨[.elapse (application.quit_timeout - s.now)], s', List.nil_prefix, hrun, hall⟩
  · obtain ⟨state, report, hloop, _⟩ :=
      mainLoopCb_spec host lookup (hok application happ) iface_handles next
    -- time goes by until the refresh, and the refresh takes place
    obtain ⟨s₁, hs₁⟩ : ∃ s₁, s₁ = { s with now := s.now + (due - s.now) } := ⟨_, rfl⟩
    have happ₁ : s₁.application = some application := by rw [hs₁]; exact happ
    have hnow₁ : s₁.now = due := by
      rw [hs₁]
      show s.now + (due - s.now) = due
      omega
    have hview₁ : s₁.view = s.view := by rw [hs₁]
    have hmsg₁ : s₁.signals ++ s₁.acks = [] := by rw [hs₁]; exact hmsg
    have hprompt₁ : s₁.Prompt :=
      prompt_of_connected happ₁ hdue hnow₁.le (hview₁ ▸ hproxy) fun sent hmem => by
        rw [hmsg₁] at hmem
        cases hmem
    have hrefresh := step_refresh_eq happ₁ hdue hnow₁.ge hloop
    obtain ⟨hsent, hprompt₂⟩ :=
      prompt_refreshed (hview₁ ▸ hproxy) hmsg₁ application state report
    -- its report, if there is one, is not answered in time
    obtain ⟨s', hrun, hall⟩ := coast hprompt₂ rfl rfl (hview₁ ▸ hproxy)
      (show application.quit_timeout ≤ s₁.now + 1000 by omega) fun sent hmem => by
        have heq := hsent sent hmem
        show application.quit_timeout ≤ sent + 1000
        omega
    have helapse : s.step host lookup iface_handles (.elapse (due - s.now)) = some s₁ := by
      rw [hs₁]
      rfl
    refine ⟨[.elapse (due - s.now), .refresh next, .elapse (application.quit_timeout - s₁.now)], s',
      List.prefix_rfl, ?_, ?_⟩
    · exact (Runs.run_cons_of _ helapse _).trans ((Runs.run_cons_of _ hrefresh _).trans hrun)
    · exact (Runs.always_cons helapse).2 ⟨hprompt, (Runs.always_cons hrefresh).2 ⟨hprompt₁, hall⟩⟩

/-- **After a refresh that is not steady the quit timeout may fire**, whatever the next refresh
finds. -/
theorem Session.unsteady_quits {s s' : Session} (hok : s.StateOk) (hprompt : s.Prompt)
    {tick : Tick ι} (hunsteady : ¬ s.Steady host lookup iface_handles (.refresh tick))
    (hstep : s.step host lookup iface_handles (.refresh tick) = some s') (next : Tick ι) :
    ∃ more s'', more.filterMap Session.Act.tick <+: [next] ∧
      Runs.run (Session.step host lookup iface_handles) s' (more ++ [.quitFires]) = some s'' ∧
      Runs.Always (Session.step host lookup iface_handles) Session.Prompt s'
        (more ++ [.quitFires]) := by
  have hok' := step_stateOk hok hstep
  obtain ⟨application, due, state, report, happ, hdue, hle, hloop, rfl⟩ := step_refresh hstep
  obtain ⟨_, hquiet⟩ := mainLoopCb_some host lookup (hok application happ) hloop
  -- nothing is under way, and at most two seconds are left
  have hlate : QuietTick host lookup iface_handles application.state tick ∧
      s.signals ++ s.acks = [] ∧ application.quit_timeout ≤ s.now + 2000 := by
    by_contra hcon
    refine hunsteady ?_
    intro application' happ' hq
    cases happ.symm.trans happ'
    by_contra hno
    obtain ⟨hmsg, hquit⟩ := not_or.1 hno
    exact hcon ⟨hq, not_not.1 hmsg, by omega⟩
  obtain ⟨hq, hmsg, hquit⟩ := hlate
  obtain rfl := hquiet.2 hq
  have hproxy : s.view.network_analyzer ≠ none := by
    intro hnone
    have hstart := hprompt.connected application happ (.inr hnone)
    omega
  have hnil : (s.refreshed application state none).signals ++ s.acks = [] := by
    simpa [refreshed] using hmsg
  obtain ⟨_, hprompt'⟩ := prompt_refreshed hproxy hmsg application state none
  exact quits_by_next hok' hprompt' rfl rfl hproxy hnil hquit next

/-- **Keep-alive.**  In a run that is prompt and steady, for all traffic, the quit timeout never
fires; and a prompt run with a refresh that is not steady can go on, promptly, so that it fires,
whatever the next refresh finds and before there is another one. -/
theorem quit_never_fires_of_steady {acts : List (Session.Act ι)} {s : Session}
    (hrun : Runs.run (Session.step host lookup iface_handles) Session.init acts = some s)
    (hprompt : Runs.Always (Session.step host lookup iface_handles) Session.Prompt Session.init
      acts) :
    (Runs.Guarded (Session.step host lookup iface_handles)
        (Session.Steady host lookup iface_handles) Session.init acts →
      Session.Act.quitFires ∉ acts ∧
        Runs.Always (Session.step host lookup iface_handles) Session.NotDue Session.init acts) ∧
      ∀ pre tick post, acts = pre ++ .refresh tick :: post →
        (∀ m, Runs.run (Session.step host lookup iface_handles) Session.init pre = some m →
          ¬ m.Steady host lookup iface_handles (.refresh tick)) →
        ∀ next, ∃ more s'', more.filterMap Session.Act.tick <+: [next] ∧
          Runs.run (Session.step host lookup iface_handles) Session.init
            (pre ++ .refresh tick :: (more ++ [.quitFires])) = some s'' ∧
          Runs.Always (Session.step host lookup iface_handles) Session.Prompt Session.init
            (pre ++ .refresh tick :: (more ++ [.quitFires])) := by
  refine ⟨?_, ?_⟩
  · intro hsteady
    have hnotDue := Session.always_notDue hprompt hsteady
    refine ⟨?_, hnotDue⟩
    intro hmem
    obtain ⟨pre, post, rfl⟩ := List.append_of_mem hmem
    obtain ⟨m, hm, hrest⟩ := Runs.run_append_some _ hrun
    obtain ⟨m', hquit, _⟩ := Option.bind_eq_some_iff.1 hrest
    obtain ⟨application, happ, hle, _⟩ := Session.step_quitFires hquit
    have hlt := hnotDue pre _ m rfl hm application happ
    omega
  · rintro pre tick post rfl hunsteady next
    obtain ⟨m, hm, hrest⟩ := Runs.run_append_some _ hrun
    obtain ⟨m', hstep, _⟩ := Option.bind_eq_some_iff.1 hrest
    have hpm := hprompt pre _ m rfl hm
    obtain ⟨more, s'', hnext, hrun', hall⟩ :=
      Session.unsteady_quits (Session.run_stateOk hm) hpm (hunsteady m hm) hstep next
    refine ⟨more, s'', hnext, ?_, ?_⟩
    · rw [Runs.run_append, hm, Option.bind_some, Runs.run_cons_of _ hstep]
      exact hrun'
    · refine (Runs.always_append hm).2 ⟨?_, (Runs.always_cons hstep).2 ⟨hpm, hall⟩⟩
      exact ((Runs.always_append hm).1 hprompt).1

/-- The analyzer is started and the view connected. -/
def startUp : List (Session.Act Unit) := [.dbusStarts, .nameAcquired, .proxyCompletes]

/-- A second without traffic. -/
def quietSecond (t : Timeval) : List (Session.Act Unit) :=
  [.elapse 1000, .refresh ⟨fun _ => [], t⟩]

/-- A second in which a packet is captured, with the answer to its report. -/
def busySecond (t : Timeval) : List (Session.Act Unit) :=
  [.elapse 1000, .refresh ⟨fun _ => [⟨⟨t, 60, 60⟩, .ip ⟨1⟩ ⟨2⟩, 5000, 443⟩], t⟩, .deliverSignal,
    .deliverAck]

theorem quit_never_fires_of_steady_busy :
    Session.Act.quitFires ∉ startUp ++ (busySecond ⟨100⟩ ++ quietSecond ⟨101⟩) := by
  have hrun : (Runs.run (Session.step silentHost (fun _ _ => ⟨none, none⟩) [()]) Session.init
      (startUp ++ (busySecond ⟨100⟩ ++ quietSecond ⟨101⟩))).isSome = true := by decide
  obtain ⟨s, hrun⟩ := Option.isSome_iff_exists.1 hrun
  exact ((quit_never_fires_of_steady hrun (by decide)).1 (by decide)).1

/-- Five seconds without traffic, and the quit timeout fires. -/
theorem quiet_quits :
    ¬ ∀ (acts : List (Session.Act Unit)) (s : Session),
      Runs.run (Session.step silentHost (fun _ _ => ⟨none, none⟩) [()]) Session.init acts = some s →
      Runs.Always (Session.step silentHost (fun _ _ => ⟨none, none⟩) [()]) Session.Prompt
        Session.init acts →
      Session.Act.quitFires ∉ acts := by
  intro h
  have hrun : (Runs.run (Session.step silentHost (fun _ _ => ⟨none, none⟩) [()]) Session.init
      (startUp ++ quietSecond ⟨1⟩ ++ quietSecond ⟨2⟩ ++ quietSecond ⟨3⟩ ++ quietSecond ⟨4⟩ ++
        quietSecond ⟨5⟩ ++ [.quitFires])).isSome = true := by decide
  obtain ⟨s, hrun⟩ := Option.isSome_iff_exists.1 hrun
  exact h _ s hrun (by decide) (by simp)

end NetworkAnalyzer
