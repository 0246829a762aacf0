/-
What an observer sees of two runs.

A program that reacts to events may also answer some of them.  This module compares two such
programs, or two runs of one, event by event: some events of the first have a counterpart in the
second and are answered alike, and the others are not answered and leave the relation between the
two states as it is.  Then the answers of a whole run are those of the other, of the counterparts
alone.

* `Runs.collect` — a run with the answers it gives, and `Runs.collect_run`, the run it is;
* `Runs.collect_unwind` — **the answers of a run are those of its counterparts**;
* `Runs.collect_map` — **a map that every step commutes with leaves the answers as they are**;
* `Runs.collect_history` — **what holds of a state and the answers so far**, as long as every step
  keeps it;
* `Runs.collect_sum` — **answers that pay for what a step changes, or about for it, add up to what
  the run changes**.
-/

import GnomeUsage.Runs
import Mathlib.Algebra.BigOperators.Group.List.Basic

set_option relaxedAutoImplicit false
set_option autoImplicit false

namespace Runs

variable {σ ε ω : Type*}

/-- A run with the answers of its steps, in order. -/
def collect (step : σ → ε → Option (σ × Option ω)) : σ → List ε → Option (σ × List ω)
  | s, [] => some (s, [])
  | s, e :: es => do
      let (s, answer) ← step s e
      let (s, answers) ← collect step s es
      some (s, answer.toList ++ answers)

theorem collect_cons_of {step : σ → ε → Option (σ × Option ω)} {s m s' : σ} {e : ε} {es : List ε}
    {answer : Option ω} {answers : List ω} (hm : step s e = some (m, answer))
    (hs : collect step m es = some (s', answers)) :
    collect step s (e :: es) = some (s', answer.toList ++ answers) := by
  simp only [collect, hm, hs, Option.bind_eq_bind, Option.bind_some]

theorem collect_cons_some {step : σ → ε → Option (σ × Option ω)} {s s' : σ} {e : ε} {es : List ε}
    {answers : List ω} (h : collect step s (e :: es) = some (s', answers)) :
    ∃ m answer answers', step s e = some (m, answer) ∧ collect step m es = some (s', answers') ∧
      answers = answer.toList ++ answers' := by
  obtain ⟨⟨m, answer⟩, hm, h⟩ := Option.bind_eq_some_iff.1 h
  obtain ⟨⟨s'', answers'⟩, hs, h⟩ := Option.bind_eq_some_iff.1 h
  cases h
  exact ⟨m, answer, answers', hm, hs, rfl⟩

/-- Without the answers it is a run. -/
theorem collect_run (step : σ → ε → Option (σ × Option ω)) (s : σ) (es : List ε) :
    (collect step s es).map Prod.fst = run (fun s e => (step s e).map Prod.fst) s es := by
  induction es generalizing s with
  | nil => rfl
  | cons e es ih =>
      rw [run_cons]
      cases hm : step s e with
      | none => simp [collect, hm]
      | some x =>
          obtain ⟨m, answer⟩ := x
          have ih := ih m
          cases hs : collect step m es with
          | none =>
              rw [hs] at ih
              simp [collect, hm, hs, ← ih]
          | some y =>
              rw [hs] at ih
              simp [collect, hm, hs, ← ih]

/-- A run that is defined gives answers. -/
theorem exists_collect {step : σ → ε → Option (σ × Option ω)} {s s' : σ} {es : List ε}
    (h : run (fun s e => (step s e).map Prod.fst) s es = some s') :
    ∃ answers, collect step s es = some (s', answers) := by
  rw [← collect_run] at h
  obtain ⟨⟨_, answers⟩, hcollect, rfl⟩ := Option.map_eq_some_iff.1 h
  exact ⟨answers, hcollect⟩

/-- **Unwinding.**  If a step whose event has a counterpart is answered like it, up to `g`, and a
step whose event has none is not answered, and both keep the relation, then the answers of a run
are those of the counterparts. -/
theorem collect_unwind {τ ε' ω' : Type*} {step : σ → ε → Option (σ × Option ω)}
    {step' : τ → ε' → Option (τ × Option ω')} {R : σ → τ → Prop} {f : ε → Option ε'} {g : ω → ω'}
    (hsome : ∀ {s t e e' s' answer}, R s t → f e = some e' → step s e = some (s', answer) →
      ∃ t', step' t e' = some (t', answer.map g) ∧ R s' t')
    (hnone : ∀ {s t e s' answer}, R s t → f e = none → step s e = some (s', answer) →
      answer = none ∧ R s' t)
    {s s' : σ} {t : τ} {es : List ε} {answers : List ω} (hR : R s t)
    (h : collect step s es = some (s', answers)) :
    ∃ t', collect step' t (es.filterMap f) = some (t', answers.map g) ∧ R s' t' := by
  induction es generalizing s t answers with
  | nil =>
      cases h
      exact ⟨t, rfl, hR⟩
  | cons e es ih =>
      obtain ⟨m, answer, answers', hm, hs, rfl⟩ := collect_cons_some h
      cases hf : f e with
      | none =>
          obtain ⟨rfl, hR'⟩ := hnone hR hf hm
          rw [List.filterMap_cons_none hf]
          exact ih hR' hs
      | some e' =>
          obtain ⟨m', hm', hR'⟩ := hsome hR hf hm
          obtain ⟨t', hs', ht'⟩ := ih hR' hs
          rw [List.filterMap_cons_some hf, List.map_append, ← Option.toList_map]
          exact ⟨t', collect_cons_of hm' hs', ht'⟩

/-- **Symmetry.**  If every step commutes with a map of the states and the events, as long as the
invariant holds and the events are fit for it, then a run on mapped events gives the same answers
and ends in the mapped state. -/
theorem collect_map {τ ε' : Type*} {step : σ → ε → Option (σ × Option ω)}
    {step' : τ → ε' → Option (τ × Option ω)} {Inv : σ → Prop} {ok : ε → Prop} {f : σ → τ}
    {g : ε → ε'}
    (hstep : ∀ {s e s' answer}, Inv s → ok e → step s e = some (s', answer) →
      step' (f s) (g e) = some (f s', answer) ∧ Inv s')
    {s s' : σ} {es : List ε} {answers : List ω} (hs : Inv s) (hes : ∀ e ∈ es, ok e)
    (h : collect step s es = some (s', answers)) :
    collect step' (f s) (es.map g) = some (f s', answers) := by
  induction es generalizing s answers with
  | nil =>
      cases h
      rfl
  | cons e es ih =>
      obtain ⟨m, answer, answers', hm, hrest, rfl⟩ := collect_cons_some h
      obtain ⟨hm', hinv⟩ := hstep hs (hes e List.mem_cons_self) hm
      exact collect_cons_of hm' (ih hinv (fun e he => hes e (List.mem_cons_of_mem _ he)) hrest)

/-- **Invariants of the answers.**  What every step keeps of the answers so far, the state and the
events that are left holds at the end of a run. -/
theorem collect_history {step : σ → ε → Option (σ × Option ω)} {Inv : List ω → σ → List ε → Prop}
    (hstep : ∀ {before s e es s' answer}, Inv before s (e :: es) → step s e = some (s', answer) →
      Inv (before ++ answer.toList) s' es)
    {before : List ω} {s s' : σ} {es : List ε} {answers : List ω} (hs : Inv before s es)
    (h : collect step s es = some (s', answers)) : Inv (before ++ answers) s' [] := by
  induction es generalizing before s answers with
  | nil =>
      cases h
      rwa [List.append_nil]
  | cons e es ih =>
      obtain ⟨m, answer, answers', hm, hrest, rfl⟩ := collect_cons_some h
      rw [← List.append_assoc]
      exact ih (hstep hs hm) hrest

/-- **Telescoping.**  If every step answers by how much it changes a potential, up to a relation
that sums keep, so do the answers of a run, together.  The invariant may speak of the events that
are left. -/
theorem collect_sum {M N : Type*} [AddCommGroup M] [AddMonoid N] {R : M → N → Prop} (hzero : R 0 0)
    (hadd : ∀ {a b a' b'}, R a b → R a' b' → R (a + a') (b + b'))
    {step : σ → ε → Option (σ × Option N)} {f : σ → M} {Inv : σ → List ε → Prop}
    (hstep : ∀ {s e es}, Inv s (e :: es) →
      ∃ s' answer, step s e = some (s', some answer) ∧ R (f s' - f s) answer ∧ Inv s' es)
    {s : σ} {es : List ε} (hs : Inv s es) :
    ∃ s' answers, collect step s es = some (s', answers) ∧ R (f s' - f s) answers.sum ∧
      Inv s' [] := by
  induction es generalizing s with
  | nil => exact ⟨s, [], rfl, by rwa [List.sum_nil, sub_self], hs⟩
  | cons e es ih =>
      obtain ⟨m, answer, hm, hchange, hinv⟩ := hstep hs
      obtain ⟨s', answers, hcollect, hsum, hinv'⟩ := ih hinv
      refine ⟨s', _, collect_cons_of hm hcollect, ?_, hinv'⟩
      rw [Option.toList_some, List.singleton_append, List.sum_cons,
        ← sub_add_sub_cancel' (f m) (f s) (f s')]
      exact hadd hchange hsum

end Runs
