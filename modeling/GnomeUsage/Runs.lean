/-
Runs of a partial transition function.

A program that reacts to events is given by a function `step : σ → ε → Option σ`, where `none`
stands for a step the program has no defined behaviour for.  This module runs such a function on
a list of events and packages the two inductions every safety argument about it needs, so that
a development only proves what *one* step does.

* `Runs.run` — running a list of events, and how it splits (`Runs.run_append`);
* `Runs.run_inv_of`, `Runs.run_inv` — what every step preserves holds after every run, and
  `Runs.run_history`, the same for what depends on the events so far;
* `Runs.run_total_of`, `Runs.run_total` — a state in which every step is defined stays so, hence no
  run is stuck;
* `Runs.run_flatMap` — a system whose steps are runs of this one;
* `Runs.run_map`, `Runs.run_lift` — a projection of the steps is a projection of the runs;
* `Runs.guarded_congr`, `Runs.guarded_congr_of_guarded` — two guards that an invariant makes
  agree;
* `Runs.run_isSome_iff` — a run is defined when its steps are;
* `Runs.always_of_guarded` — what every step that meets its guard preserves;
* `Runs.always_and_guarded_iff`, `Runs.always_iff_guarded`, `Runs.run_inv_iff` — an invariant that
  a step keeps *exactly* when its guard holds is kept along a run exactly when all the guards of
  the run hold.
-/

import Mathlib.Data.List.Basic
import Mathlib.Data.List.TakeDrop

set_option relaxedAutoImplicit false
set_option autoImplicit false

namespace Runs

variable {σ ε : Type*} (step : σ → ε → Option σ)

/-- **A run**: the events are taken in order, and an undefined step leaves the run undefined. -/
def run : σ → List ε → Option σ
  | s, [] => some s
  | s, e :: es => (step s e).bind fun s' => run s' es

@[simp] theorem run_nil (s : σ) : run step s [] = some s := rfl

theorem run_cons (s : σ) (e : ε) (es : List ε) :
    run step s (e :: es) = (step s e).bind fun s' => run step s' es := rfl

theorem run_cons_of {s m : σ} {e : ε} (hm : step s e = some m) (es : List ε) :
    run step s (e :: es) = run step m es := by
  rw [run_cons, hm, Option.bind_some]

theorem run_append (s : σ) (es fs : List ε) :
    run step s (es ++ fs) = (run step s es).bind fun s' => run step s' fs := by
  induction es generalizing s with
  | nil => rfl
  | cons e es ih =>
      simp only [List.cons_append, run_cons]
      cases step s e with
      | none => rfl
      | some s' => exact ih s'

@[simp] theorem run_singleton (s : σ) (e : ε) : run step s [e] = step s e := by
  rw [run_cons]
  cases step s e <;> rfl

theorem run_concat (s : σ) (es : List ε) (e : ε) :
    run step s (es ++ [e]) = (run step s es).bind fun s' => step s' e := by
  rw [run_append]
  simp only [run_singleton]

/-- A run of `es ++ fs` passes through a state reached by `es`. -/
theorem run_append_some {s s' : σ} {es fs : List ε} (h : run step s (es ++ fs) = some s') :
    ∃ m, run step s es = some m ∧ run step m fs = some s' := by
  rw [run_append] at h
  exact Option.bind_eq_some_iff.1 h

variable {step}

/-- **Invariants**: what every step with an `ok` event preserves holds after every run of such
events. -/
theorem run_inv_of {Inv : σ → Prop} {ok : ε → Prop}
    (hstep : ∀ s e s', Inv s → ok e → step s e = some s' → Inv s')
    {s s' : σ} {es : List ε} (hs : Inv s) (hok : ∀ e ∈ es, ok e) (h : run step s es = some s') :
    Inv s' := by
  induction es generalizing s with
  | nil => cases h; exact hs
  | cons e es ih =>
      obtain ⟨m, hm, hrun⟩ := Option.bind_eq_some_iff.1 h
      have hm := hstep s e m hs (hok e List.mem_cons_self) hm
      exact ih hm (fun e' he' => hok e' (List.mem_cons_of_mem _ he')) hrun

/-- The same, when every step preserves it. -/
theorem run_inv {Inv : σ → Prop} (hstep : ∀ s e s', Inv s → step s e = some s' → Inv s')
    {s s' : σ} {es : List ε} (hs : Inv s) (h : run step s es = some s') : Inv s' :=
  @run_inv_of σ ε step Inv (fun _ => True) (fun s e s' hs _ => hstep s e s' hs) s s' es hs
    (fun _ _ => trivial) h

/-- **Invariants of a history**: what every step preserves, with its event added to the events so
far, holds after every run. -/
theorem run_history {Inv : List ε → σ → Prop}
    (hstep : ∀ hist s e s', Inv hist s → step s e = some s' → Inv (hist ++ [e]) s')
    {hist : List ε} {s s' : σ} {es : List ε} (hs : Inv hist s) (h : run step s es = some s') :
    Inv (hist ++ es) s' := by
  induction es generalizing hist s with
  | nil =>
      cases h
      rwa [List.append_nil]
  | cons e es ih =>
      obtain ⟨m, hm, hrun⟩ := Option.bind_eq_some_iff.1 h
      have hrest := ih (hstep hist s e m hs hm) hrun
      rwa [List.append_assoc] at hrest

/-- **Progress**: if the invariant makes every step with an `ok` event defined, every run of such
events is defined and ends in the invariant. -/
theorem run_total_of {Inv : σ → Prop} {ok : ε → Prop}
    (hstep : ∀ s e, Inv s → ok e → ∃ s', step s e = some s' ∧ Inv s')
    {s : σ} (hs : Inv s) {es : List ε} (hok : ∀ e ∈ es, ok e) :
    ∃ s', run step s es = some s' ∧ Inv s' := by
  induction es generalizing s with
  | nil => exact ⟨s, rfl, hs⟩
  | cons e es ih =>
      obtain ⟨m, hm, hinv⟩ := hstep s e hs (hok e List.mem_cons_self)
      obtain ⟨s', hrun, hs'⟩ := ih hinv fun e' he' => hok e' (List.mem_cons_of_mem _ he')
      exact ⟨s', by rw [run_cons, hm]; exact hrun, hs'⟩

/-- The same, when the invariant makes every step defined. -/
theorem run_total {Inv : σ → Prop} (hstep : ∀ s e, Inv s → ∃ s', step s e = some s' ∧ Inv s')
    {s : σ} (hs : Inv s) (es : List ε) : ∃ s', run step s es = some s' ∧ Inv s' :=
  @run_total_of σ ε step Inv (fun _ => True) (fun s e h _ => hstep s e h) s hs es
    fun _ _ => trivial

/-- **Refinement by blocks**: if every step of another system is a run of this one, so is every run
of it. -/
theorem run_flatMap {δ : Type*} {step' : σ → δ → Option σ} {f : δ → List ε}
    (h : ∀ s d, step' s d = run step s (f d)) (s : σ) (ds : List δ) :
    run step' s ds = run step s (ds.flatMap f) := by
  induction ds generalizing s with
  | nil => rfl
  | cons d ds ih =>
      rw [run_cons, h, List.flatMap_cons, run_append]
      congr 1
      funext m
      exact ih m

/-- **Projection**: if `f` takes every step to a step of another system, it takes runs to runs. -/
theorem run_map {τ : Type*} {step' : τ → ε → Option τ} {f : σ → τ}
    (h : ∀ s e, (step s e).map f = step' (f s) e) (s : σ) (es : List ε) :
    (run step s es).map f = run step' (f s) es := by
  induction es generalizing s with
  | nil => rfl
  | cons e es ih =>
      rw [run_cons, run_cons, ← h]
      cases step s e with
      | none => rfl
      | some m => exact ih m

/-- **Lifting**: a run of the other system is the projection of a run. -/
theorem run_lift {τ : Type*} {step' : τ → ε → Option τ} {f : σ → τ}
    (h : ∀ s e, (step s e).map f = step' (f s) e) (s : σ) {es : List ε} {t : τ}
    (hrun : run step' (f s) es = some t) : ∃ s', run step s es = some s' ∧ f s' = t := by
  rw [← run_map h] at hrun
  exact Option.map_eq_some_iff.1 hrun

/-- Every state a run passes through satisfies `Q`. -/
def Always (step : σ → ε → Option σ) (Q : σ → Prop) (s : σ) (es : List ε) : Prop :=
  ∀ pre post s', es = pre ++ post → run step s pre = some s' → Q s'

/-- Every step of a run is taken in a state that meets its guard. -/
def Guarded (step : σ → ε → Option σ) (guard : σ → ε → Prop) (s : σ) (es : List ε) : Prop :=
  ∀ pre e post s', es = pre ++ e :: post → run step s pre = some s' → guard s' e

theorem always_nil {Q : σ → Prop} {s : σ} : Always step Q s [] ↔ Q s := by
  constructor
  · intro h
    exact h [] [] s rfl rfl
  · intro h pre post s' hsplit hrun
    obtain ⟨rfl, rfl⟩ := List.append_eq_nil_iff.1 hsplit.symm
    cases hrun
    exact h

theorem always_cons {Q : σ → Prop} {s m : σ} {e : ε} {es : List ε} (hm : step s e = some m) :
    Always step Q s (e :: es) ↔ Q s ∧ Always step Q m es := by
  constructor
  · intro h
    refine ⟨h [] (e :: es) s rfl rfl, ?_⟩
    intro pre post s' hsplit hrun
    exact h (e :: pre) post s' (by rw [hsplit]; rfl) (by rw [run_cons, hm]; exact hrun)
  · rintro ⟨hs, h⟩ pre post s' hsplit hrun
    cases pre with
    | nil => cases hrun; exact hs
    | cons e' pre =>
        obtain ⟨rfl, htail⟩ := List.cons.inj hsplit
        rw [run_cons, hm] at hrun
        exact h pre post s' htail hrun

theorem always_cons_none {Q : σ → Prop} {s : σ} {e : ε} {es : List ε} (hm : step s e = none) :
    Always step Q s (e :: es) ↔ Q s := by
  constructor
  · intro h
    exact h [] (e :: es) s rfl rfl
  · intro hs pre post s' hsplit hrun
    cases pre with
    | nil =>
        cases hrun
        exact hs
    | cons e' pre =>
        obtain ⟨rfl, _⟩ := List.cons.inj hsplit
        rw [run_cons, hm] at hrun
        cases hrun

instance decidableAlways {Q : σ → Prop} [DecidablePred Q] :
    ∀ (s : σ) (es : List ε), Decidable (Always step Q s es)
  | s, [] => decidable_of_iff (Q s) always_nil.symm
  | s, e :: es =>
      match hm : step s e with
      | none => decidable_of_iff (Q s) (always_cons_none hm).symm
      | some m =>
          haveI : Decidable (Always step Q m es) := decidableAlways m es
          decidable_of_iff (Q s ∧ Always step Q m es) (always_cons hm).symm

theorem always_append {Q : σ → Prop} {s m : σ} {es fs : List ε} (hm : run step s es = some m) :
    Always step Q s (es ++ fs) ↔ Always step Q s es ∧ Always step Q m fs := by
  induction es generalizing s with
  | nil =>
      cases hm
      constructor
      · intro h
        exact ⟨always_nil.2 (h [] fs m rfl rfl), h⟩
      · intro h
        exact h.2
  | cons e es ih =>
      obtain ⟨s', hs', hrun⟩ := Option.bind_eq_some_iff.1 hm
      rw [List.cons_append, always_cons hs', always_cons hs', ih hrun, and_assoc]

theorem guarded_nil {guard : σ → ε → Prop} {s : σ} : Guarded step guard s [] := by
  intro pre e post s' hsplit
  simp at hsplit

theorem guarded_cons {guard : σ → ε → Prop} {s m : σ} {e : ε} {es : List ε}
    (hm : step s e = some m) :
    Guarded step guard s (e :: es) ↔ guard s e ∧ Guarded step guard m es := by
  constructor
  · intro h
    refine ⟨h [] e es s rfl rfl, ?_⟩
    intro pre e' post s' hsplit hrun
    exact h (e :: pre) e' post s' (by rw [hsplit]; rfl) (by rw [run_cons, hm]; exact hrun)
  · rintro ⟨hs, h⟩ pre e' post s' hsplit hrun
    cases pre with
    | nil =>
        obtain ⟨rfl, _⟩ := List.cons.inj hsplit
        cases hrun
        exact hs
    | cons e'' pre =>
        obtain ⟨rfl, htail⟩ := List.cons.inj hsplit
        rw [run_cons, hm] at hrun
        exact h pre e' post s' htail hrun

theorem guarded_cons_none {guard : σ → ε → Prop} {s : σ} {e : ε} {es : List ε}
    (hm : step s e = none) : Guarded step guard s (e :: es) ↔ guard s e := by
  constructor
  · intro h
    exact h [] e es s rfl rfl
  · intro hg pre e' post s' hsplit hrun
    cases pre with
    | nil =>
        obtain ⟨rfl, _⟩ := List.cons.inj hsplit
        cases hrun
        exact hg
    | cons e'' pre =>
        obtain ⟨rfl, _⟩ := List.cons.inj hsplit
        rw [run_cons, hm] at hrun
        cases hrun

instance decidableGuarded {guard : σ → ε → Prop} [∀ s e, Decidable (guard s e)] :
    ∀ (s : σ) (es : List ε), Decidable (Guarded step guard s es)
  | _, [] => isTrue guarded_nil
  | s, e :: es =>
      match hm : step s e with
      | none => decidable_of_iff (guard s e) (guarded_cons_none hm).symm
      | some m =>
          haveI : Decidable (Guarded step guard m es) := decidableGuarded m es
          decidable_of_iff (guard s e ∧ Guarded step guard m es) (guarded_cons hm).symm

theorem guarded_concat {guard : σ → ε → Prop} {s : σ} {es : List ε} {e : ε} :
    Guarded step guard s (es ++ [e]) ↔
      Guarded step guard s es ∧ ∀ s', run step s es = some s' → guard s' e := by
  constructor
  · intro h
    refine ⟨?_, ?_⟩
    · intro pre e' post s' hsplit hrun
      exact h pre e' (post ++ [e]) s' (by rw [hsplit]; simp) hrun
    · intro s' hrun
      exact h es e [] s' rfl hrun
  · rintro ⟨h, hlast⟩ pre e' post s' hsplit hrun
    rcases List.eq_nil_or_concat post with rfl | ⟨post, e'', rfl⟩
    · obtain ⟨rfl, he⟩ := List.append_inj' hsplit rfl
      obtain rfl := List.singleton_inj.1 he
      exact hlast s' hrun
    · have hsplit : es ++ [e] = (pre ++ e' :: post) ++ [e''] := by rw [hsplit]; simp
      obtain ⟨rfl, _⟩ := List.append_inj' hsplit rfl
      exact h pre e' post s' rfl hrun

/-- **A run is defined** when each of its steps is. -/
theorem run_isSome_iff {s : σ} {es : List ε} :
    (run step s es).isSome = true ↔ Guarded step (fun s e => (step s e).isSome = true) s es := by
  induction es generalizing s with
  | nil => exact iff_of_true rfl guarded_nil
  | cons e es ih =>
      cases hm : step s e with
      | none =>
          rw [run_cons, guarded_cons_none hm, hm]
          rfl
      | some m =>
          rw [run_cons_of step hm, guarded_cons hm, hm, ih]
          exact (and_iff_right rfl).symm

/-- **Guards that agree along a run**: an invariant of the state and of the events that are still to
come makes them agree at every step. -/
theorem guarded_congr {Inv : σ → List ε → Prop} {guard guard' : σ → ε → Prop}
    (hstep : ∀ s e es s', Inv s (e :: es) → step s e = some s' → Inv s' es)
    (hiff : ∀ s e es, Inv s (e :: es) → (guard s e ↔ guard' s e)) {s : σ} {es : List ε}
    (hs : Inv s es) : Guarded step guard s es ↔ Guarded step guard' s es := by
  induction es generalizing s with
  | nil => exact ⟨fun _ => guarded_nil, fun _ => guarded_nil⟩
  | cons e es ih =>
      have he := hiff s e es hs
      cases hm : step s e with
      | none => rw [guarded_cons_none hm, guarded_cons_none hm, he]
      | some m => rw [guarded_cons hm, guarded_cons hm, he, ih (hstep s e es m hs hm)]

/-- **Guards that agree as long as they hold**: an invariant that a guarded step keeps makes them
agree. -/
theorem guarded_congr_of_guarded {Inv : σ → Prop} {guard guard' : σ → ε → Prop}
    (hstep : ∀ s e s', Inv s → guard' s e → step s e = some s' → Inv s')
    (hiff : ∀ s e, Inv s → (guard s e ↔ guard' s e)) {s : σ} (hs : Inv s) (es : List ε) :
    Guarded step guard s es ↔ Guarded step guard' s es := by
  induction es generalizing s with
  | nil => exact ⟨fun _ => guarded_nil, fun _ => guarded_nil⟩
  | cons e es ih =>
      have he := hiff s e hs
      cases hm : step s e with
      | none => rw [guarded_cons_none hm, guarded_cons_none hm, he]
      | some m =>
          rw [guarded_cons hm, guarded_cons hm, he]
          refine and_congr_right ?_
          intro hguard
          exact ih (hstep s e m hs hguard hm)

theorem guarded_and {guard guard' : σ → ε → Prop} {s : σ} {es : List ε} :
    Guarded step (fun s e => guard s e ∧ guard' s e) s es ↔
      Guarded step guard s es ∧ Guarded step guard' s es := by
  constructor
  · intro h
    exact ⟨fun pre e post s' hsplit hrun => (h pre e post s' hsplit hrun).1,
      fun pre e post s' hsplit hrun => (h pre e post s' hsplit hrun).2⟩
  · rintro ⟨h, h'⟩ pre e post s' hsplit hrun
    exact ⟨h pre e post s' hsplit hrun, h' pre e post s' hsplit hrun⟩

/-- **Invariants under a guard**: what every guarded step preserves holds all along a guarded
run. -/
theorem always_of_guarded {Inv : σ → Prop} {guard : σ → ε → Prop}
    (hstep : ∀ s e s', Inv s → guard s e → step s e = some s' → Inv s')
    {s : σ} (hs : Inv s) {es : List ε} (h : Guarded step guard s es) : Always step Inv s es := by
  induction es generalizing s with
  | nil => exact always_nil.2 hs
  | cons e es ih =>
      cases hm : step s e with
      | none => exact (always_cons_none hm).2 hs
      | some m =>
          obtain ⟨hg, htail⟩ := (guarded_cons hm).1 h
          exact (always_cons hm).2 ⟨hs, ih (hstep s e m hs hg hm) htail⟩

/-- **Guarded invariants and steps**: if, under a background invariant that every step preserves, a
step keeps `Q` and is `good` exactly when its guard holds, then `Q` holds all along a run and all
its steps are `good` exactly when all the guards of the run hold.  All this for events with
`ok`. -/
theorem always_and_guarded_iff {Inv Q : σ → Prop} {good guard : σ → ε → Prop} {ok : ε → Prop}
    (hinv : ∀ s e s', Inv s → ok e → step s e = some s' → Inv s')
    (hiff : ∀ s e s', Inv s → Q s → ok e → step s e = some s' → (Q s' ∧ good s e ↔ guard s e))
    {s s' : σ} (hs : Inv s) (hQ : Q s) {es : List ε} (hok : ∀ e ∈ es, ok e)
    (hrun : run step s es = some s') :
    Always step Q s es ∧ Guarded step good s es ↔ Guarded step guard s es := by
  induction es generalizing s with
  | nil => exact ⟨fun _ => guarded_nil, fun _ => ⟨always_nil.2 hQ, guarded_nil⟩⟩
  | cons e es ih =>
      obtain ⟨m, hm, hrest⟩ := Option.bind_eq_some_iff.1 hrun
      have he : ok e := hok e List.mem_cons_self
      have htail : ∀ e' ∈ es, ok e' := fun e' he' => hok e' (List.mem_cons_of_mem _ he')
      have hinvm : Inv m := hinv s e m hs he hm
      have hstep := hiff s e m hs hQ he hm
      rw [always_cons hm, guarded_cons hm, guarded_cons hm]
      constructor
      · rintro ⟨⟨_, hall⟩, hgood, hrestgood⟩
        have hQm : Q m := hall [] es m rfl rfl
        exact ⟨hstep.1 ⟨hQm, hgood⟩, (ih hinvm hQm htail hrest).1 ⟨hall, hrestgood⟩⟩
      · rintro ⟨hg, h⟩
        obtain ⟨hQm, hgood⟩ := hstep.2 hg
        obtain ⟨hall, hrestgood⟩ := (ih hinvm hQm htail hrest).2 h
        exact ⟨⟨hQ, hall⟩, hgood, hrestgood⟩

/-- **Guarded invariants**: the same, for the invariant `Q` alone. -/
theorem always_iff_guarded {Inv Q : σ → Prop} {guard : σ → ε → Prop} {ok : ε → Prop}
    (hinv : ∀ s e s', Inv s → ok e → step s e = some s' → Inv s')
    (hiff : ∀ s e s', Inv s → Q s → ok e → step s e = some s' → (Q s' ↔ guard s e))
    {s s' : σ} (hs : Inv s) (hQ : Q s) {es : List ε} (hok : ∀ e ∈ es, ok e)
    (hrun : run step s es = some s') : Always step Q s es ↔ Guarded step guard s es := by
  have hiff' : ∀ s e s', Inv s → Q s → ok e → step s e = some s' →
      (Q s' ∧ True ↔ guard s e) := by
    intro s e s' h hq he hm
    rw [and_true]
    exact hiff s e s' h hq he hm
  rw [← @always_and_guarded_iff σ ε step Inv Q (fun _ _ => True) guard ok hinv hiff' s s' hs hQ es
    hok hrun]
  exact ⟨fun h => ⟨h, fun _ _ _ _ _ _ => trivial⟩, fun h => h.1⟩

/-- The same, when the invariant makes every step defined. -/
theorem run_inv_iff {Inv Q : σ → Prop} {guard : σ → ε → Prop}
    (htot : ∀ s e, Inv s → ∃ s', step s e = some s' ∧ Inv s')
    (hiff : ∀ s e s', Inv s → Q s → step s e = some s' → (Q s' ↔ guard s e))
    {s : σ} (hs : Inv s) (hQ : Q s) (es : List ε) :
    Always step Q s es ↔ Guarded step guard s es := by
  obtain ⟨s', hrun, _⟩ := run_total htot hs es
  refine @always_iff_guarded σ ε step Inv Q guard (fun _ => True) ?_ ?_ s s' hs hQ es
    (fun _ _ => trivial) hrun
  · intro s e s' hinv _ hstep
    obtain ⟨m, hm, hinvm⟩ := htot s e hinv
    obtain rfl := Option.some_inj.1 (hstep.symm.trans hm)
    exact hinvm
  · intro s e s' hinv hq _ hstep
    exact hiff s e s' hinv hq hstep

end Runs
