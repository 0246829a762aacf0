/-
Bucketed time series.

A sliding-window counter does not keep every arrival: arrivals with the stamp of the newest
bucket are merged into it, and a query throws away everything older than its cutoff.  This module
studies that data structure over an arbitrary linear order of stamps and an arbitrary commutative
monoid of weights, and compares it with the naive counter, which keeps everything and filters.

* `Bucketed.add` — merging an arrival into the newest bucket, or opening a new one;
* `Bucketed.cut` — what a query keeps: the buckets in front of the first one not after the
  cutoff;
* `Bucketed.weight` — the naive count: the weight of *all* the buckets after a cutoff;
* `Bucketed.Newest` — the buckets are strictly decreasing in their stamps;
* `Bucketed.weight_add`, `Bucketed.total_cut`, `Bucketed.weight_cut` — **on an ordered series the
  two counters agree, and a query does not disturb any later one**;
* `Bucketed.add_swap` — two arrivals with the same stamp can be exchanged;
* `Bucketed.Refines` — **a series refines the history of its arrivals**, kept by arrivals and
  queries in any order (`Refines.add`, `Refines.cut`, `Refines.total_cut`).
-/

import Mathlib.Algebra.BigOperators.Group.Finset.Basic
import Mathlib.Algebra.Order.BigOperators.Group.List
import Mathlib.Order.Interval.Finset.Defs
import Mathlib.Tactic.Abel

set_option relaxedAutoImplicit false
set_option autoImplicit false
set_option linter.unusedSectionVars false

namespace Bucketed

variable {τ μ : Type*}

section Defs

variable [LinearOrder τ] [AddCommMonoid μ]

/-- An arrival of weight `m` at `s`: merged into the newest bucket if that has the same stamp. -/
def add (s : τ) (m : μ) : List (τ × μ) → List (τ × μ)
  | [] => [(s, m)]
  | b :: bs => if s = b.1 then (b.1, b.2 + m) :: bs else (s, m) :: b :: bs

/-- What a query with cutoff `c` keeps: everything in front of the first bucket not after `c`. -/
def cut (c : τ) : List (τ × μ) → List (τ × μ)
  | [] => []
  | b :: bs => if b.1 ≤ c then [] else b :: cut c bs

/-- The weight of a series. -/
def total {τ μ : Type*} [AddCommMonoid μ] (l : List (τ × μ)) : μ := (l.map Prod.snd).sum

/-- The weight a series carries strictly after `c`. -/
def weight (c : τ) (l : List (τ × μ)) : μ := total (l.filter fun b => c < b.1)

/-- The newest bucket comes first, and no two buckets have the same stamp. -/
def Newest (l : List (τ × μ)) : Prop := l.Pairwise fun a b => b.1 < a.1

end Defs

@[simp] theorem total_nil [AddCommMonoid μ] : total ([] : List (τ × μ)) = 0 := rfl

@[simp] theorem total_cons [AddCommMonoid μ] (b : τ × μ) (l : List (τ × μ)) :
    total (b :: l) = b.2 + total l := by
  simp [total]

variable [LinearOrder τ] [AddCommMonoid μ]

@[simp] theorem weight_nil (c : τ) : weight c ([] : List (τ × μ)) = 0 := rfl

theorem weight_cons (c : τ) (b : τ × μ) (l : List (τ × μ)) :
    weight c (b :: l) = (if c < b.1 then b.2 else 0) + weight c l := by
  unfold weight
  by_cases h : c < b.1
  · simp [h]
  · simp [h]

/-- A series with nothing after `c` weighs nothing after `c`. -/
theorem weight_eq_zero {c : τ} {l : List (τ × μ)} (h : ∀ b ∈ l, b.1 ≤ c) : weight c l = 0 := by
  induction l with
  | nil => rfl
  | cons b l ih =>
      have hb : ¬ c < b.1 := not_lt.2 (h b List.mem_cons_self)
      rw [weight_cons, if_neg hb, ih fun b' hb' => h b' (List.mem_cons_of_mem _ hb'), zero_add]

/-! ### Adding an arrival -/

theorem add_cons_of_eq {s : τ} {m : μ} {b : τ × μ} {l : List (τ × μ)} (h : s = b.1) :
    add s m (b :: l) = (b.1, b.2 + m) :: l := if_pos h

theorem add_cons_of_ne {s : τ} {m : μ} {b : τ × μ} {l : List (τ × μ)} (h : s ≠ b.1) :
    add s m (b :: l) = (s, m) :: b :: l := if_neg h

theorem weight_add (c s : τ) (m : μ) (l : List (τ × μ)) :
    weight c (add s m l) = weight c l + if c < s then m else 0 := by
  cases l with
  | nil => simp [add, weight_cons]
  | cons b l =>
      by_cases h : s = b.1
      · rw [add_cons_of_eq h, weight_cons, weight_cons, h]
        by_cases hc : c < b.1
        · simp only [if_pos hc]
          abel
        · simp only [if_neg hc]
          abel
      · rw [add_cons_of_ne h, weight_cons c (s, m), add_comm]

/-- The stamps after an arrival are the old ones and its own. -/
theorem forall_mem_add {p : τ → Prop} {s : τ} {m : μ} {l : List (τ × μ)} (hs : p s)
    (hl : ∀ b ∈ l, p b.1) : ∀ b ∈ add s m l, p b.1 := by
  intro b hb
  cases l with
  | nil =>
      obtain rfl : b = (s, m) := by simpa [add] using hb
      exact hs
  | cons a l =>
      by_cases h : s = a.1
      · rw [add_cons_of_eq h] at hb
        rcases List.mem_cons.1 hb with rfl | hb
        · exact hl a List.mem_cons_self
        · exact hl b (List.mem_cons_of_mem _ hb)
      · rw [add_cons_of_ne h] at hb
        rcases List.mem_cons.1 hb with rfl | hb
        · exact hs
        · exact hl b hb

/-- An arrival that is not older than any bucket keeps the series ordered. -/
theorem Newest.add {s : τ} {m : μ} {l : List (τ × μ)} (h : Newest l) (hs : ∀ b ∈ l, b.1 ≤ s) :
    Newest (add s m l) := by
  cases l with
  | nil => exact List.pairwise_singleton ..
  | cons a l =>
      obtain ⟨ha, hl⟩ := List.pairwise_cons.1 h
      by_cases hsa : s = a.1
      · rw [add_cons_of_eq hsa]
        exact List.pairwise_cons.2 ⟨ha, hl⟩
      · rw [add_cons_of_ne hsa]
        have hlt : a.1 < s := lt_of_le_of_ne (hs a List.mem_cons_self) (Ne.symm hsa)
        refine List.pairwise_cons.2 ⟨?_, h⟩
        intro b hb
        rcases List.mem_cons.1 hb with rfl | hb
        · exact hlt
        · exact lt_trans (ha b hb) hlt

/-- **Arrivals with the same stamp can be exchanged.** -/
theorem add_swap (s : τ) (m m' : μ) (l : List (τ × μ)) :
    add s m (add s m' l) = add s m' (add s m l) := by
  have hmerge : ∀ (x y : μ) (bs : List (τ × μ)), add s x ((s, y) :: bs) = (s, y + x) :: bs :=
    fun x y bs => add_cons_of_eq (b := (s, y)) rfl
  cases l with
  | nil =>
      change add s m [(s, m')] = add s m' [(s, m)]
      rw [hmerge, hmerge, add_comm m' m]
  | cons b l =>
      by_cases h : s = b.1
      · subst h
        rw [hmerge m' b.2, hmerge m b.2, hmerge, hmerge, add_right_comm]
      · rw [add_cons_of_ne h, add_cons_of_ne h, hmerge, hmerge, add_comm m' m]

/-! ### Querying -/

theorem mem_of_mem_cut {c : τ} {l : List (τ × μ)} {b : τ × μ} (h : b ∈ cut c l) : b ∈ l := by
  induction l with
  | nil => exact h
  | cons a l ih =>
      unfold cut at h
      split at h
      · simp at h
      · rcases List.mem_cons.1 h with rfl | h
        · exact List.mem_cons_self
        · exact List.mem_cons_of_mem _ (ih h)

theorem cut_sublist (c : τ) (l : List (τ × μ)) : (cut c l).Sublist l := by
  induction l with
  | nil => exact List.Sublist.refl _
  | cons a l ih =>
      unfold cut
      split
      · exact List.nil_sublist _
      · exact ih.cons_cons a

theorem Newest.cut {c : τ} {l : List (τ × μ)} (h : Newest l) : Newest (cut c l) := by
  induction l with
  | nil => exact h
  | cons a l ih =>
      obtain ⟨ha, hl⟩ := List.pairwise_cons.1 h
      unfold Bucketed.cut
      split
      · exact List.Pairwise.nil
      · exact List.pairwise_cons.2 ⟨fun b hb => ha b (mem_of_mem_cut hb), ih hl⟩

/-- On an ordered series a query keeps exactly the buckets after its cutoff. -/
theorem cut_eq_filter {c : τ} {l : List (τ × μ)} (h : Newest l) :
    cut c l = l.filter fun b => c < b.1 := by
  induction l with
  | nil => rfl
  | cons a l ih =>
      obtain ⟨ha, hl⟩ := List.pairwise_cons.1 h
      unfold cut
      split
      · next hac =>
          -- everything behind `a` is older still
          refine (List.filter_eq_nil_iff.2 ?_).symm
          intro b hb
          have hbc : b.1 ≤ c := by
            rcases List.mem_cons.1 hb with rfl | hb
            · exact hac
            · exact ((ha b hb).trans_le hac).le
          simpa using hbc
      · next hac =>
          rw [List.filter_cons_of_pos (by simpa using not_le.1 hac), ih hl]

/-- **A query returns the naive count.** -/
theorem total_cut {c : τ} {l : List (τ × μ)} (h : Newest l) : total (cut c l) = weight c l := by
  rw [cut_eq_filter h, weight]

/-- A query after an earlier one keeps what it would have kept without it. -/
theorem cut_cut {c c' : τ} (hc : c ≤ c') (l : List (τ × μ)) : cut c' (cut c l) = cut c' l := by
  induction l with
  | nil => rfl
  | cons a l ih =>
      by_cases hac : a.1 ≤ c
      · simp only [cut, if_pos hac, if_pos (hac.trans hc)]
      · simp only [cut, if_neg hac, ih]

/-- **A query does not disturb a later one.** -/
theorem weight_cut {c c' : τ} (hc : c ≤ c') {l : List (τ × μ)} (h : Newest l) :
    weight c' (cut c l) = weight c' l := by
  rw [cut_eq_filter h, weight, weight, List.filter_filter]
  congr 1
  refine List.filter_congr ?_
  intro b _
  have hcb : c' < b.1 → c < b.1 := hc.trans_lt
  simpa using hcb

/-! ### A series and its history -/

/-- **A series refines its history** `all`, the newest arrival first, after queries with the cutoffs
`cuts`: it is ordered, no bucket has a stamp of its own, and whatever the cutoff of the next query,
as long as it is not before an earlier one, the series weighs as much as the history. -/
structure Refines (cuts : List τ) (all l : List (τ × μ)) : Prop where
  newest : Newest l
  stamps : ∀ b ∈ l, ∃ a ∈ all, a.1 = b.1
  weight_eq : ∀ c, (∀ c' ∈ cuts, c' ≤ c) → weight c l = weight c all

theorem refines_nil : Refines [] ([] : List (τ × μ)) [] where
  newest := List.Pairwise.nil
  stamps := fun b hb => by simp at hb
  weight_eq := fun _ _ => rfl

/-- **Arrivals** that are not older than the history. -/
theorem Refines.add {cuts : List τ} {all l : List (τ × μ)} (h : Refines cuts all l) {s : τ}
    (hs : ∀ a ∈ all, a.1 ≤ s) (m : μ) : Refines cuts ((s, m) :: all) (add s m l) where
  newest := by
    refine h.newest.add ?_
    intro b hb
    obtain ⟨a, ha, heq⟩ := h.stamps b hb
    exact heq ▸ hs a ha
  stamps := by
    refine @forall_mem_add τ μ _ _ (fun x => ∃ a ∈ (s, m) :: all, a.1 = x) s m l ?_ ?_
    · exact ⟨(s, m), List.mem_cons_self, rfl⟩
    · intro b hb
      obtain ⟨a, ha, heq⟩ := h.stamps b hb
      exact ⟨a, List.mem_cons_of_mem _ ha, heq⟩
  weight_eq := by
    intro c hc
    rw [weight_add, weight_cons, h.weight_eq c hc, add_comm]

/-- **Queries**, with any cutoff. -/
theorem Refines.cut {cuts : List τ} {all l : List (τ × μ)} (h : Refines cuts all l) (c : τ) :
    Refines (c :: cuts) all (cut c l) where
  newest := h.newest.cut
  stamps := fun b hb => h.stamps b (mem_of_mem_cut hb)
  weight_eq := by
    intro c' hc'
    obtain ⟨hc, hcuts⟩ := List.forall_mem_cons.1 hc'
    rw [weight_cut hc h.newest, h.weight_eq c' hcuts]

/-- **A query returns what the history weighs.** -/
theorem Refines.total_cut {cuts : List τ} {all l : List (τ × μ)} (h : Refines cuts all l) {c : τ}
    (hc : ∀ c' ∈ cuts, c' ≤ c) : total (Bucketed.cut c l) = weight c all := by
  rw [Bucketed.total_cut h.newest, h.weight_eq c hc]

theorem lt_of_mem_cut {c : τ} {l : List (τ × μ)} {b : τ × μ} (h : b ∈ Bucketed.cut c l) :
    c < b.1 := by
  induction l with
  | nil => simp [Bucketed.cut] at h
  | cons a l ih =>
      unfold Bucketed.cut at h
      split at h
      · simp at h
      · next hac =>
          rcases List.mem_cons.1 h with rfl | h
          · exact not_le.1 hac
          · exact ih h

/-- **A query never counts more than the history**, in whatever order the arrivals came. -/
theorem total_cut_le [PartialOrder μ] [IsOrderedAddMonoid μ] [CanonicallyOrderedAdd μ] (c : τ)
    (l : List (τ × μ)) : total (Bucketed.cut c l) ≤ weight c l := by
  have hall : (Bucketed.cut c l).filter (fun b => c < b.1) = Bucketed.cut c l :=
    List.filter_eq_self.2 fun b hb => by simpa using lt_of_mem_cut hb
  have hsub := ((cut_sublist c l).filter fun b => decide (c < b.1)).map Prod.snd
  rw [hall] at hsub
  exact hsub.sum_le_sum fun _ _ => zero_le

theorem weight_cut_le [PartialOrder μ] [IsOrderedAddMonoid μ] [CanonicallyOrderedAdd μ] (c c' : τ)
    (l : List (τ × μ)) : weight c' (Bucketed.cut c l) ≤ weight c' l :=
  (((cut_sublist c l).filter _).map Prod.snd).sum_le_sum fun _ _ => zero_le

/-- A query leaves no more buckets than there are stamps from its cutoff to the newest one. -/
theorem length_cut_le [LocallyFiniteOrder τ] {c s : τ} {l : List (τ × μ)} (h : Newest l)
    (hs : ∀ b ∈ l, b.1 ≤ s) : (Bucketed.cut c l).length ≤ (Finset.Ioc c s).card := by
  have hnodup : ((Bucketed.cut c l).map Prod.fst).Nodup :=
    List.pairwise_map.2 (h.cut.imp fun hab heq => absurd heq.symm hab.ne)
  have hsub : ((Bucketed.cut c l).map Prod.fst).toFinset ⊆ Finset.Ioc c s := by
    intro x hx
    obtain ⟨b, hb, rfl⟩ := List.mem_map.1 (List.mem_toFinset.1 hx)
    exact Finset.mem_Ioc.2 ⟨lt_of_mem_cut hb, hs b (mem_of_mem_cut hb)⟩
  calc (Bucketed.cut c l).length
      = ((Bucketed.cut c l).map Prod.fst).toFinset.card := by
        rw [List.toFinset_card_of_nodup hnodup, List.length_map]
    _ ≤ (Finset.Ioc c s).card := Finset.card_le_card hsub

end Bucketed
