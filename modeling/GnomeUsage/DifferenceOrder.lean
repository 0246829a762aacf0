/-
Ordering by a difference.

A comparison function that returns the difference of two `int` keys orders by the keys, the larger
one first, as long as the difference is an `int` too.  This module studies such functions, where a
difference that overflows is undefined, and the insertion of GLib that is called with them.

* `DifferenceOrder.difference` — the comparison of two keys;
* `DifferenceOrder.difference_eq` — it is defined where all keys are in a range that is not too
  wide;
* `DifferenceOrder.insertSorted` — insertion into a sorted linked list;
* `DifferenceOrder.insertSorted_eq`, `foldlM_insertSorted` — **the list is sorted**, and holds what
  was inserted;
* `DifferenceOrder.Arranges`, `split_of_sorted` — a list that some other function has sorted by the
  comparison, and **where its groups are**;
* `DifferenceOrder.eq_of_perm_of_before` — different keys can be sorted in one way only.
-/

import Mathlib.Algebra.Order.Ring.Int
import Mathlib.Data.List.Sort

set_option relaxedAutoImplicit false
set_option autoImplicit false

namespace DifferenceOrder

variable {α : Type*}

/-- A value of an `int`. -/
def IsInt (i : ℤ) : Prop := -2 ^ 31 ≤ i ∧ i < 2 ^ 31

instance (i : ℤ) : Decidable (IsInt i) := inferInstanceAs (Decidable (_ ∧ _))

/-- `key b - key a`, undefined on overflow. -/
def difference (key : α → ℤ) (a b : α) : Option ℤ :=
  if IsInt (key b - key a) then some (key b - key a) else none

theorem difference_eq_some_iff {key : α → ℤ} {a b : α} {i : ℤ} :
    difference key a b = some i ↔ IsInt (key b - key a) ∧ key b - key a = i := by
  rw [difference, Option.ite_none_right_eq_some, Option.some_inj]

/-- Two keys that are not more than the range of an `int` apart. -/
theorem difference_eq {key : α → ℤ} {a b : α} {lo hi : ℤ} (hrange : hi - lo < 2 ^ 31)
    (ha : lo ≤ key a ∧ key a ≤ hi) (hb : lo ≤ key b ∧ key b ≤ hi) :
    difference key a b = some (key b - key a) := by
  refine difference_eq_some_iff.2 ⟨⟨?_, ?_⟩, rfl⟩
  · omega
  · omega

/-! ### Insertion into a sorted list -/

/-- `g_list_insert_sorted`: in front of the first element that is not after the new one. -/
def insertSorted (compare : α → α → Option ℤ) (data : α) : List α → Option (List α)
  | [] => some [data]
  | element :: list =>
      (compare data element).bind fun cmp =>
        if 0 < cmp then (insertSorted compare data list).map (element :: ·)
        else some (data :: element :: list)

/-- The order of a sorted list: the larger keys first. -/
def Before (key : α → ℤ) (a b : α) : Prop := key b ≤ key a

instance (key : α → ℤ) : DecidableRel (Before key) := fun a b =>
  inferInstanceAs (Decidable (key b ≤ key a))

instance (key : α → ℤ) : Std.Total (Before key) := ⟨fun a b => le_total (key b) (key a)⟩

instance (key : α → ℤ) : IsTrans α (Before key) := ⟨fun _ _ _ hab hbc => le_trans hbc hab⟩

variable {key : α → ℤ} {lo hi : ℤ}

/-- **An insertion** is defined, and is the one into an ordered list. -/
theorem insertSorted_eq (hrange : hi - lo < 2 ^ 31) {data : α}
    (hdata : lo ≤ key data ∧ key data ≤ hi) {list : List α}
    (hlist : ∀ a ∈ list, lo ≤ key a ∧ key a ≤ hi) :
    insertSorted (difference key) data list = some (list.orderedInsert (Before key) data) := by
  induction list with
  | nil => rfl
  | cons element list ih =>
      obtain ⟨helement, hlist⟩ := List.forall_mem_cons.1 hlist
      rw [insertSorted, difference_eq hrange hdata helement, Option.bind_some,
        List.orderedInsert_cons]
      by_cases hlt : key data < key element
      · have hnot : ¬ Before key data element := not_le.2 hlt
        rw [if_pos (by omega), if_neg hnot, ih hlist, Option.map_some]
      · have hbefore : Before key data element := not_lt.1 hlt
        rw [if_neg (by omega), if_pos hbefore]

/-- **A loop of insertions** is defined, and leaves a sorted list of what was inserted. -/
theorem foldlM_insertSorted (hrange : hi - lo < 2 ^ 31) {elements list : List α}
    (helements : ∀ a ∈ elements, lo ≤ key a ∧ key a ≤ hi)
    (hlist : ∀ a ∈ list, lo ≤ key a ∧ key a ≤ hi) (hsorted : list.Pairwise (Before key)) :
    ∃ list', elements.foldlM (fun list data => insertSorted (difference key) data list) list =
        some list' ∧
      list'.Pairwise (Before key) ∧ list'.Perm (elements ++ list) := by
  induction elements generalizing list with
  | nil => exact ⟨list, rfl, hsorted, List.Perm.refl _⟩
  | cons data elements ih =>
      obtain ⟨hdata, helements⟩ := List.forall_mem_cons.1 helements
      have hperm := List.perm_orderedInsert (Before key) data list
      have hrange' : ∀ a ∈ list.orderedInsert (Before key) data, lo ≤ key a ∧ key a ≤ hi := by
        intro a ha
        rcases List.mem_cons.1 (hperm.mem_iff.1 ha) with rfl | ha
        · exact hdata
        · exact hlist a ha
      obtain ⟨list', hlist', hsorted', hperm'⟩ :=
        ih helements hrange' (hsorted.orderedInsert data list)
      refine ⟨list', ?_, hsorted', ?_⟩
      · rw [List.foldlM_cons, insertSorted_eq hrange hdata hlist]
        exact hlist'
      · exact (hperm'.trans (hperm.append_left elements)).trans List.perm_middle

/-! ### Sorted arrangements -/

/-- **An arrangement** of a list that is sorted by a comparison function: no element comes behind
one that it is compared to as greater. -/
structure Arranges (compare : α → α → Option ℤ) (list sorted : List α) : Prop where
  perm : sorted.Perm list
  sorted : sorted.Pairwise fun a b => ∃ i, compare a b = some i ∧ i ≤ 0

/-- **Sorting by a difference** is sorting by the keys. -/
theorem Arranges.before {list sorted : List α} (h : Arranges (difference key) list sorted) :
    sorted.Pairwise (Before key) := by
  refine h.sorted.imp ?_
  rintro a b ⟨i, hi, hle⟩
  obtain ⟨_, rfl⟩ := difference_eq_some_iff.1 hi
  exact sub_nonpos.1 hle

/-- There is such an arrangement. -/
theorem exists_arranges (hrange : hi - lo < 2 ^ 31) {list : List α}
    (hlist : ∀ a ∈ list, lo ≤ key a ∧ key a ≤ hi) :
    ∃ sorted, Arranges (difference key) list sorted := by
  have hperm := List.perm_insertionSort (Before key) list
  refine ⟨list.insertionSort (Before key), hperm, ?_⟩
  refine (List.pairwise_insertionSort (Before key) list).imp_of_mem ?_
  intro a b ha hb hbefore
  have ha := hlist a (hperm.mem_iff.1 ha)
  have hb := hlist b (hperm.mem_iff.1 hb)
  exact ⟨_, difference_eq hrange ha hb, sub_nonpos.2 hbefore⟩

/-- A sorted list is what is above a bound, and then what is not. -/
theorem eq_filter_append {list : List α} (h : list.Pairwise (Before key)) (k : ℤ) :
    list = (list.filter fun a => k < key a) ++ list.filter fun a => ¬ k < key a := by
  induction list with
  | nil => rfl
  | cons a list ih =>
      obtain ⟨ha, hlist⟩ := List.pairwise_cons.1 h
      by_cases hk : k < key a
      · rw [List.filter_cons_of_pos (by simpa using hk),
          List.filter_cons_of_neg (by simpa using hk), List.cons_append, ← ih hlist]
      · -- nothing behind `a` is above the bound either
        have hnone : (list.filter fun a => k < key a) = [] := by
          refine List.filter_eq_nil_iff.2 ?_
          intro b hb
          have hba : key b ≤ key a := ha b hb
          simp only [decide_eq_true_eq]
          omega
        have ih := ih hlist
        rw [hnone, List.nil_append] at ih
        rw [List.filter_cons_of_neg (by simpa using hk),
          List.filter_cons_of_pos (by simpa using hk), hnone, List.nil_append, ← ih]

/-- **A sorted list of two groups**, with a bound between them, is one behind the other. -/
theorem split_of_sorted {list first second : List α} (h : list.Pairwise (Before key))
    (hperm : list.Perm (first ++ second)) {k : ℤ} (hfirst : ∀ a ∈ first, k < key a)
    (hsecond : ∀ b ∈ second, key b ≤ k) :
    ∃ first' second', list = first' ++ second' ∧ first'.Perm first ∧ second'.Perm second := by
  have habove : (first ++ second).filter (fun a => decide (k < key a)) = first := by
    have hkeep : first.filter (fun a => decide (k < key a)) = first :=
      List.filter_eq_self.2 (by simpa using hfirst)
    have hdrop : second.filter (fun a => decide (k < key a)) = [] :=
      List.filter_eq_nil_iff.2 (by simpa using hsecond)
    rw [List.filter_append, hkeep, hdrop, List.append_nil]
  have hbelow : (first ++ second).filter (fun a => decide (¬ k < key a)) = second := by
    have hdrop : first.filter (fun a => decide (¬ k < key a)) = [] :=
      List.filter_eq_nil_iff.2 (by simpa using hfirst)
    have hkeep : second.filter (fun a => decide (¬ k < key a)) = second :=
      List.filter_eq_self.2 (by simpa using hsecond)
    rw [List.filter_append, hdrop, hkeep, List.nil_append]
  refine ⟨_, _, eq_filter_append h k, ?_, ?_⟩
  · exact habove ▸ hperm.filter fun a => decide (k < key a)
  · exact hbelow ▸ hperm.filter fun a => decide (¬ k < key a)

/-- A sorted list of keys that are all different is the only arrangement of its elements. -/
theorem eq_of_perm_of_before {list list' : List α} (hperm : list.Perm list')
    (h : list.Pairwise (Before key)) (h' : list'.Pairwise fun a b => key b < key a) :
    list = list' := by
  have hnodup : (list'.map key).Nodup := List.pairwise_map.2 (h'.imp fun hlt => hlt.ne')
  refine hperm.eq_of_pairwise ?_ h (h'.imp fun hlt => hlt.le)
  intro a b ha hb hab hba
  exact List.inj_on_of_nodup_map hnodup (hperm.mem_iff.1 ha) hb (le_antisymm hba hab)

end DifferenceOrder
