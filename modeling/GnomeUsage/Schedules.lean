/-
Runs that keep to a schedule.

A schedule (`GnomeUsage/Conservation.lean`) says when packets and refreshes may come.  What a
proof about scheduled runs needs of it is said here once: an invariant may depend on the events so
far and on the time of the next refresh, and is carried to every refresh if packets and refreshes
in time keep it.

* `Schedule.run_inv` — **the induction over a scheduled run**, for any transition function;
* `schedule_single`, `Schedule.refresh_again` — how schedules are made, and longer;
* `Act.event`, `run_event` — acts as events whose look-up is not given, and their runs;
* `Schedule.congr` — **a schedule does not look at the look-ups**;
* `bytesOf` — the bytes of the packets of a run that pass a test.
-/

import GnomeUsage.Attribution
import GnomeUsage.Conservation
import GnomeUsage.Lists

set_option relaxedAutoImplicit false
set_option autoImplicit false

namespace NetworkAnalyzer

/-! ### The induction -/

/-- A scheduled second of the clock. -/
def InRange (s : ℤ) : Prop := 25 ≤ s ∧ s ≤ 2 ^ 31 - 51

/-- **A packet in time**, after the events `hist` and with the next refresh due at `r`. -/
structure PushInTime (hist : List Event) (r : ℤ) (now : ℤ) : Prop where
  newest : ∀ s ∈ packetTimes hist, s ≤ now
  lower : r - 25 ≤ now
  upper : now ≤ r
  range : InRange now

theorem Schedule.pushInTime {hist rest : List Event} {header : PcapPkthdr} {address : IPAddress}
    {s_port d_port : BitVec 16} {lookup : ProcessLookup} {r : ℤ}
    (h : Schedule (hist ++ .push header address s_port d_port lookup :: rest))
    (hr : (refreshTimes rest).head? = some r) : PushInTime hist r header.ts.tv_sec := by
  obtain ⟨hle, hlower, hrange⟩ := Schedule.push h hr
  refine ⟨hle, hlower, ?_, hrange⟩
  obtain ⟨mid, t, post, rfl, hmid, rfl⟩ := exists_first_refresh hr
  have htime := (h.in_time hist _ mid t post rfl hmid _ rfl).2
  rwa [packetOf_time] at htime

/-- **The induction over a scheduled run.**  What packets and refreshes in time keep holds up to
every refresh. -/
theorem Schedule.run_inv {τ : Type*} {next : τ → Event → Option τ} {ok : NAPacket → Prop}
    {Inv : List Event → ℤ → τ → Prop}
    (hpush : ∀ hist r s header address s_port d_port lookup, Inv hist r s →
      PushInTime hist r header.ts.tv_sec → ok (packetOf header address s_port d_port) →
        ∃ s', next s (.push header address s_port d_port lookup) = some s' ∧
          Inv (hist ++ [.push header address s_port d_port lookup]) r s')
    (hrefresh : ∀ hist (t : Timeval) s, Inv hist t.tv_sec s → InRange t.tv_sec →
      ∃ s', next s (.refresh t) = some s' ∧
        ∀ r, t.tv_sec ≤ r → r ≤ t.tv_sec + 25 → Inv (hist ++ [.refresh t]) r s')
    {hist pre post : List Event} {t : Timeval} {s : τ} {r : ℤ}
    (hs : Schedule (hist ++ (pre ++ .refresh t :: post))) (hok : ∀ p ∈ packets pre, ok p)
    (h : Inv hist r s) (hr : (refreshTimes (pre ++ .refresh t :: post)).head? = some r) :
    ∃ s', Runs.run next s pre = some s' ∧ Inv (hist ++ pre) t.tv_sec s' := by
  induction pre generalizing hist s r with
  | nil =>
      obtain rfl : t.tv_sec = r := by simpa [refreshTimes, Event.time] using hr
      exact ⟨s, rfl, by rwa [List.append_nil]⟩
  | cons e pre ih =>
      have hassoc : hist ++ (e :: pre ++ .refresh t :: post) =
          (hist ++ [e]) ++ (pre ++ .refresh t :: post) := by simp
      have hsplit : hist ++ e :: pre = hist ++ [e] ++ pre := by simp
      rw [hsplit]
      cases e with
      | push header address s_port d_port lookup =>
          have hr : (refreshTimes (pre ++ .refresh t :: post)).head? = some r := hr
          obtain ⟨m, hm, hinv⟩ := hpush hist r s _ _ _ _ _ h (Schedule.pushInTime hs hr)
            (hok _ List.mem_cons_self)
          obtain ⟨s', hrun, hs'⟩ :=
            ih (hassoc ▸ hs) (fun p hp => hok p (List.mem_cons_of_mem _ hp)) hinv hr
          exact ⟨s', (Runs.run_cons_of _ hm _).trans hrun, hs'⟩
      | refresh u =>
          obtain rfl : u.tv_sec = r := by simpa [refreshTimes, Event.time] using hr
          have hrange : InRange u.tv_sec := by
            refine hs.in_range _ (.inr ?_)
            rw [refreshTimes_append]
            exact List.mem_append_right _ List.mem_cons_self
          obtain ⟨m, hm, hnext⟩ := hrefresh hist u s h hrange
          -- the run goes on to the refresh at `t`, so there is a next one
          obtain ⟨r', hr'⟩ := exists_next_refresh pre t post
          obtain ⟨hle, hgap⟩ := Schedule.refresh hs hr'
          obtain ⟨s', hrun, hs'⟩ := ih (hassoc ▸ hs) hok (hnext r' hle hgap) hr'
          exact ⟨s', (Runs.run_cons_of _ hm _).trans hrun, hs'⟩

/-- **What holds up to every refresh of a scheduled run**, when it holds at the start. -/
theorem Schedule.run_init {τ : Type*} {next : τ → Event → Option τ} {ok : NAPacket → Prop}
    {Inv : List Event → ℤ → τ → Prop}
    (hpush : ∀ hist r s header address s_port d_port lookup, Inv hist r s →
      PushInTime hist r header.ts.tv_sec → ok (packetOf header address s_port d_port) →
        ∃ s', next s (.push header address s_port d_port lookup) = some s' ∧
          Inv (hist ++ [.push header address s_port d_port lookup]) r s')
    (hrefresh : ∀ hist (t : Timeval) s, Inv hist t.tv_sec s → InRange t.tv_sec →
      ∃ s', next s (.refresh t) = some s' ∧
        ∀ r, t.tv_sec ≤ r → r ≤ t.tv_sec + 25 → Inv (hist ++ [.refresh t]) r s')
    {pre post : List Event} {t : Timeval} {s : τ} (hs : Schedule (pre ++ .refresh t :: post))
    (hok : ∀ p ∈ packets pre, ok p) (h : ∀ r, Inv [] r s) :
    ∃ s', Runs.run next s pre = some s' ∧ Inv pre t.tv_sec s' := by
  obtain ⟨r, hr⟩ := exists_next_refresh pre t post
  exact @Schedule.run_inv τ next ok Inv hpush hrefresh [] pre post t s r hs hok (h r) hr

/-- Packets in order and a refresh within 25 seconds are a scheduled run. -/
theorem schedule_single {es : List Event} {t : Timeval} (hno : refreshTimes es = [])
    (hle : (packetTimes es).Pairwise (· ≤ ·))
    (hin : ∀ s ∈ packetTimes es, t.tv_sec - 25 ≤ s ∧ s ≤ t.tv_sec ∧ 25 ≤ s)
    (hrange : InRange t.tv_sec) : Schedule (es ++ [.refresh t]) := by
  have hpackets : packets (es ++ [.refresh t]) = packets es := by
    rw [packets_append]
    exact List.append_nil _
  have htimes : packetTimes (es ++ [.refresh t]) = packetTimes es := by
    rw [packetTimes, hpackets, packetTimes]
  have hrefresh : refreshTimes (es ++ [.refresh t]) = [t.tv_sec] := by
    rw [refreshTimes_append, hno]
    rfl
  refine ⟨by rwa [htimes], ?_, ?_, ?_, ?_⟩
  · rw [hrefresh]
    exact List.pairwise_singleton ..
  · rw [hrefresh]
    exact List.isChain_singleton _
  · intro pre e mid u post hsplit _ p hp
    have hmem : p ∈ packets (es ++ [.refresh t]) := by
      rw [hsplit]
      exact List.mem_filterMap.2 ⟨e, by simp, hp⟩
    have hu : u.tv_sec ∈ refreshTimes (es ++ [.refresh t]) := by
      rw [hsplit]
      exact List.mem_filterMap.2 ⟨.refresh u, by simp, rfl⟩
    rw [hrefresh, List.mem_singleton] at hu
    rw [hpackets] at hmem
    rw [hu]
    have htime := hin p.time.tv_sec (List.mem_map.2 ⟨p, hmem, rfl⟩)
    exact ⟨htime.1, htime.2.1⟩
  · intro s hs
    rw [htimes, hrefresh, List.mem_singleton] at hs
    rcases hs with hs | rfl
    · have htime := hin s hs
      exact ⟨htime.2.2, htime.2.1.trans hrange.2⟩
    · exact hrange

/-- Behind the last of some events, a refresh, there is no packet. -/
theorem packet_behind_refresh {es pre mid : List Event} {e : Event} {t : Timeval}
    (h : es ++ [.refresh t] = pre ++ e :: mid) (hmid : refreshTimes mid = []) :
    e.packet = none := by
  rcases List.eq_nil_or_concat' mid with rfl | ⟨mid', last, rfl⟩
  · have hlast : [Event.refresh t] = [e] := List.append_inj_right' h rfl
    rw [List.cons.injEq] at hlast
    rw [← hlast.1]
    rfl
  · have hlast : [Event.refresh t] = [last] :=
      List.append_inj_right' (h.trans (by simp :
        pre ++ e :: (mid' ++ [last]) = (pre ++ e :: mid') ++ [last])) rfl
    rw [List.cons.injEq] at hlast
    rw [refreshTimes_append, ← hlast.1] at hmid
    exact absurd hmid (by simp [refreshTimes, Event.time])

theorem refreshTimes_concat (es : List Event) (t : Timeval) :
    refreshTimes (es ++ [.refresh t]) = refreshTimes es ++ [t.tv_sec] :=
  refreshTimes_append ..

theorem packetTimes_concat (es : List Event) (t : Timeval) :
    packetTimes (es ++ [.refresh t]) = packetTimes es := by
  rw [packetTimes_append]
  exact List.append_nil _

/-- One more refresh, not before the last one and at most 25 seconds behind it. -/
theorem refreshTimes_next {es : List Event} {t t' : Timeval}
    (hmono : (refreshTimes (es ++ [.refresh t])).Pairwise (· ≤ ·))
    (hchain : (refreshTimes (es ++ [.refresh t])).IsChain fun s t => t ≤ s + 25)
    (hle : t.tv_sec ≤ t'.tv_sec) (hgap : t'.tv_sec ≤ t.tv_sec + 25) :
    (refreshTimes (es ++ [.refresh t] ++ [.refresh t'])).Pairwise (· ≤ ·) ∧
      (refreshTimes (es ++ [.refresh t] ++ [.refresh t'])).IsChain fun s t => t ≤ s + 25 := by
  rw [refreshTimes_concat _ t']
  refine ⟨List.pairwise_append.2 ⟨hmono, List.pairwise_singleton .., ?_⟩,
    hchain.append (List.isChain_singleton _) ?_⟩
  · intro a ha b hb
    obtain rfl := List.mem_singleton.1 hb
    rw [refreshTimes_concat] at ha hmono
    rcases List.mem_append.1 ha with ha' | ha'
    · exact ((List.pairwise_append.1 hmono).2.2 a ha' _ (List.mem_singleton_self _)).trans hle
    · exact (List.mem_singleton.1 ha').trans_le hle
  · intro a ha b hb
    rw [refreshTimes_concat, List.getLast?_concat, Option.mem_some_iff] at ha
    rw [List.head?_cons, Option.mem_some_iff] at hb
    rw [← ha, ← hb]
    exact hgap

/-- A scheduled run that ends with a refresh may go on with another one. -/
theorem Schedule.refresh_again {es : List Event} {t t' : Timeval}
    (h : Schedule (es ++ [.refresh t])) (hle : t.tv_sec ≤ t'.tv_sec)
    (hgap : t'.tv_sec ≤ t.tv_sec + 25) (hrange : InRange t'.tv_sec) :
    Schedule ((es ++ [.refresh t]) ++ [.refresh t']) := by
  obtain ⟨hmono, hchain⟩ := refreshTimes_next h.refresh_le h.refresh_gap hle hgap
  refine ⟨?_, hmono, hchain, ?_, ?_⟩
  · rw [packetTimes_concat]
    exact h.packets_le
  · intro pre e mid u post hsplit hmid p hp
    rcases Lists.append_singleton_split hsplit with ⟨hes, _⟩ | ⟨post', hes⟩
    · rw [packet_behind_refresh hes hmid] at hp
      cases hp
    · exact h.in_time pre e mid u post' hes hmid p hp
  · intro s hs
    rw [packetTimes_concat, refreshTimes_concat _ t'] at hs
    rcases hs with hs | hs
    · exact h.in_range s (.inl hs)
    · rcases List.mem_append.1 hs with hs | hs
      · exact h.in_range s (.inr hs)
      · rw [List.mem_singleton.1 hs]
        exact hrange

/-! ### Acts as events -/

/-- An act as an event, whose look-up is left to the analyzer. -/
def Act.event : Act → Event
  | .push a => .push a.header a.address a.s_port a.d_port ⟨none, none⟩
  | .refresh t => .refresh t

@[simp] theorem Act.act_event (act : Act) : act.event.act = act := by
  cases act <;> rfl

/-- A run of acts is a run of their events. -/
theorem run_event {τ : Type*} (next : τ → Act → Option τ) (s : τ) (acts : List Act) :
    Runs.run (fun s (e : Event) => next s e.act) s (acts.map Act.event) = Runs.run next s acts := by
  induction acts generalizing s with
  | nil => rfl
  | cons act acts ih => simp only [List.map_cons, Runs.run_cons, Act.act_event, ih]

theorem Event.packet_congr {e e' : Event} (h : e.act = e'.act) : e.packet = e'.packet := by
  cases e <;> cases e' <;> cases h <;> rfl

theorem Event.time_congr {e e' : Event} (h : e.act = e'.act) : e.time = e'.time := by
  cases e <;> cases e' <;> cases h <;> rfl

/-- What does not look at the look-ups is the same for runs with the same acts. -/
theorem filterMap_congr_act {β : Type*} {f : Event → Option β}
    (hf : ∀ e e' : Event, e.act = e'.act → f e = f e') {es fs : List Event}
    (h : es.map Event.act = fs.map Event.act) : es.filterMap f = fs.filterMap f := by
  induction es generalizing fs with
  | nil =>
      obtain rfl : fs = [] := List.map_eq_nil_iff.1 h.symm
      rfl
  | cons e es ih =>
      obtain ⟨e', fs, rfl, he, hfs⟩ := List.map_eq_cons_iff.1 h.symm
      rw [List.filterMap_cons, List.filterMap_cons, hf e e' he.symm, ih hfs.symm]

theorem packets_congr {es fs : List Event} (h : es.map Event.act = fs.map Event.act) :
    packets es = packets fs := filterMap_congr_act (fun _ _ => Event.packet_congr) h

theorem refreshTimes_congr {es fs : List Event} (h : es.map Event.act = fs.map Event.act) :
    refreshTimes es = refreshTimes fs := filterMap_congr_act (fun _ _ => Event.time_congr) h

/-- **A schedule does not look at the look-ups.** -/
theorem Schedule.congr {es fs : List Event} (h : es.map Event.act = fs.map Event.act)
    (hs : Schedule es) : Schedule fs := by
  have hpackets := packets_congr h
  have hrefresh := refreshTimes_congr h
  refine ⟨?_, ?_, ?_, ?_, ?_⟩
  · rw [packetTimes, ← hpackets]
    exact hs.packets_le
  · rw [← hrefresh]
    exact hs.refresh_le
  · rw [← hrefresh]
    exact hs.refresh_gap
  · rintro pre e mid t post rfl hmid p hp
    rw [List.map_append] at h
    obtain ⟨pre', rest, rfl, _, hrest⟩ := List.map_eq_append_iff.1 h
    obtain ⟨e', rest, rfl, he, hrest⟩ := List.map_eq_cons_iff.1 hrest
    rw [List.map_append] at hrest
    obtain ⟨mid', rest, rfl, hmid', hrest⟩ := List.map_eq_append_iff.1 hrest
    obtain ⟨u, post', rfl, hu, _⟩ := List.map_eq_cons_iff.1 hrest
    cases u with
    | push header address s_port d_port lookup => cases hu
    | refresh u =>
        obtain rfl : u = t := by simpa [Event.act] using hu
        refine hs.in_time pre' e' mid' u post' rfl ?_ p ?_
        · rw [refreshTimes_congr hmid']
          exact hmid
        · rw [Event.packet_congr he]
          exact hp
  · intro s hs'
    rw [packetTimes, ← hpackets, ← hrefresh] at hs'
    exact hs.in_range s hs'

/-! ### Bytes that pass a test -/

/-- The bytes of the packets of a run that pass the test and are stamped after `c`. -/
def bytesOf (mine : NAPacket → Bool) (c : ℤ) (es : List Event) : ℕ :=
  (((packets es).filter fun p => mine p && c < p.time.tv_sec).map fun p => p.len.toNat).sum

theorem bytesOf_append (mine : NAPacket → Bool) (c : ℤ) (es fs : List Event) :
    bytesOf mine c (es ++ fs) = bytesOf mine c es + bytesOf mine c fs := by
  simp only [bytesOf, packets_append, List.filter_append, List.map_append, List.sum_append]

@[simp] theorem bytesOf_refresh (mine : NAPacket → Bool) (c : ℤ) (t : Timeval) :
    bytesOf mine c [.refresh t] = 0 := rfl

theorem bytesOf_push (mine : NAPacket → Bool) (c : ℤ) (header : PcapPkthdr) (address : IPAddress)
    (s_port d_port : BitVec 16) (lookup : ProcessLookup) :
    bytesOf mine c [.push header address s_port d_port lookup] =
      if mine (packetOf header address s_port d_port) = true ∧ c < header.ts.tv_sec then
        header.len.toNat
      else 0 := by
  have hpackets : packets [.push header address s_port d_port lookup] =
      [packetOf header address s_port d_port] := rfl
  rw [bytesOf, hpackets]
  cases hmine : mine (packetOf header address s_port d_port) with
  | true =>
      by_cases hc : c < header.ts.tv_sec
      · simp [hmine, hc]
      · simp [hmine, hc]
  | false => simp [hmine]

/-- Two tests that agree on the packets of a run count the same bytes. -/
theorem bytesOf_congr {mine mine' : NAPacket → Bool} {es : List Event}
    (h : ∀ p ∈ packets es, mine p = mine' p) (c : ℤ) : bytesOf mine c es = bytesOf mine' c es := by
  unfold bytesOf
  congr 2
  refine List.filter_congr ?_
  intro p hp
  rw [h p hp]

end NetworkAnalyzer
