/-
Facts about lists.

* `Lists.mem_modify`, `Lists.append_singleton_split` — the elements of a list that was changed at
  one place, and where a list that got one more element is split;
* `Lists.mapM_eq_some_iff`, `Lists.exists_mapM_iff`, `Lists.foldlM_bind` — loops that may fail;
* `Lists.forall_of_length_filter`, `Lists.map_filter_eq_iff` — two conditions, one of them weaker,
  that keep equally much;
* `Lists.sum_map_of_subset`, `Lists.sum_eq_iff_of_le` — sums over a part of a list, and sums one
  below the other.
-/

import Mathlib.Algebra.BigOperators.Group.List.Lemmas
import Mathlib.Algebra.Order.BigOperators.Group.List
import Mathlib.Data.List.Forall2
import Mathlib.Data.List.Perm.Basic

set_option relaxedAutoImplicit false
set_option autoImplicit false

namespace Lists

/-! ### Elements and places -/

/-- The elements of a list that was changed at one place. -/
theorem mem_modify {α : Type*} {f : α → α} {l : List α} {i : ℕ} {x : α} (h : x ∈ l.modify i f) :
    x ∈ l ∨ ∃ y ∈ l, x = f y := by
  obtain ⟨j, hj⟩ := List.mem_iff_getElem?.1 h
  rw [List.getElem?_modify] at hj
  obtain ⟨y, hy, heq⟩ := Option.map_eq_some_iff.1 hj
  split at heq
  · exact .inr ⟨y, List.mem_of_getElem? hy, heq.symm⟩
  · exact .inl (heq ▸ List.mem_of_getElem? hy)

/-- A list with one more element, split at two places. -/
theorem append_singleton_split {α : Type*} {es pre mid post : List α} {last e f : α}
    (h : es ++ [last] = pre ++ e :: (mid ++ f :: post)) :
    (es = pre ++ e :: mid ∧ f = last) ∨ ∃ post', es = pre ++ e :: (mid ++ f :: post') := by
  rcases List.eq_nil_or_concat' post with rfl | ⟨post', last', rfl⟩
  · have hsplit : es ++ [last] = (pre ++ e :: mid) ++ [f] := h.trans (by simp)
    exact .inl ⟨List.append_inj_left' hsplit rfl,
      (List.cons.inj (List.append_inj_right' hsplit rfl)).1.symm⟩
  · have hsplit : es ++ [last] = (pre ++ e :: (mid ++ f :: post')) ++ [last'] := h.trans (by simp)
    exact .inr ⟨post', List.append_inj_left' hsplit rfl⟩

/-! ### Loops that may fail -/

section Partial

variable {α β γ : Type}

/-- Collecting partial results. -/
theorem mapM_eq_some_iff {f : α → Option β} {l : List α} {l' : List β} :
    l.mapM f = some l' ↔ List.Forall₂ (fun a b => f a = some b) l l' := by
  induction l generalizing l' with
  | nil =>
      rw [List.mapM_nil, List.forall₂_nil_left_iff, eq_comm]
      exact Option.some_inj
  | cons a l ih =>
      rw [List.mapM_cons, List.forall₂_cons_left_iff]
      simp only [Option.bind_eq_bind, Option.bind_eq_some_iff, ih]
      constructor
      · rintro ⟨b, hb, rest, hrest, heq⟩
        exact ⟨b, rest, hb, hrest, (Option.some_inj.1 heq).symm⟩
      · rintro ⟨b, rest, hb, hrest, rfl⟩
        exact ⟨b, hb, rest, hrest, rfl⟩

/-- All results are there when each is. -/
theorem exists_mapM_iff {f : α → Option β} {l : List α} :
    (∃ l', l.mapM f = some l') ↔ ∀ a ∈ l, (f a).isSome = true := by
  induction l with
  | nil => simp
  | cons a l ih =>
      rw [List.forall_mem_cons, ← ih, List.mapM_cons]
      cases hfa : f a with
      | none => simp
      | some b => cases hl : l.mapM f <;> simp

/-- A loop that makes an element and adds it, as two loops. -/
theorem foldlM_bind {f : α → Option β} {g : γ → β → Option γ} (l : List α) (c : γ) :
    l.foldlM (fun c a => (f a).bind (g c)) c = (l.mapM f).bind fun l' => l'.foldlM g c := by
  induction l generalizing c with
  | nil => rfl
  | cons a l ih =>
      rw [List.foldlM_cons, List.mapM_cons]
      cases f a with
      | none => rfl
      | some b =>
          simp only [Option.bind_eq_bind, Option.bind_some, ih]
          cases hl : l.mapM f with
          | none => cases g c b <;> rfl
          | some l' => rfl

end Partial

/-! ### Conditions -/

section Filter

variable {α β : Type*} {p q : α → Bool} {l : List α}

/-- A condition that keeps as many elements as a weaker one. -/
theorem forall_of_length_filter (hpq : ∀ a ∈ l, p a = true → q a = true)
    (hlen : (l.filter p).length = (l.filter q).length) : ∀ a ∈ l, q a = true → p a = true := by
  have hfilter : l.filter p = (l.filter q).filter p := by
    rw [List.filter_filter]
    refine List.filter_congr ?_
    intro a ha
    cases hp : p a with
    | true => simp [hpq a ha hp]
    | false => rfl
  intro a ha hq
  rw [hfilter] at hlen
  exact List.length_filter_eq_length_iff.1 hlen a (List.mem_filter.2 ⟨ha, hq⟩)

/-- A list that one condition filters as a weaker one does, up to what is read of its elements. -/
theorem map_filter_eq_iff (f : α → β) (hpq : ∀ a ∈ l, p a = true → q a = true) :
    (l.filter p).map f = (l.filter q).map f ↔ ∀ a ∈ l, q a = true → p a = true := by
  constructor
  · intro heq
    have hlen := congrArg List.length heq
    rw [List.length_map, List.length_map] at hlen
    exact forall_of_length_filter hpq hlen
  · intro hall
    congr 1
    refine List.filter_congr ?_
    intro a ha
    exact Bool.eq_iff_iff.2 ⟨hpq a ha, hall a ha⟩

end Filter

/-! ### Sums -/

section Sums

variable {α M : Type*} [AddCommMonoid M] {l m : List α} {f g : α → M}

/-- A sum over some elements of a list is one over the list, if the others count for nothing. -/
theorem sum_map_of_subset [DecidableEq α] (hl : l.Nodup) (hm : m.Nodup) (hsub : ∀ a ∈ m, a ∈ l)
    (hf : ∀ a ∈ l, a ∉ m → f a = 0) : (m.map f).sum = (l.map f).sum := by
  have hperm : m.Perm (l.filter (· ∈ m)) := by
    refine (List.perm_ext_iff_of_nodup hm (hl.filter _)).2 ?_
    intro a
    simp only [List.mem_filter, decide_eq_true_eq]
    exact ⟨fun ha => ⟨hsub a ha, ha⟩, fun ha => ha.2⟩
  rw [(hperm.map f).sum_eq]
  clear hperm hl hm hsub
  induction l with
  | nil => rfl
  | cons a l ih =>
      have ih := ih fun b hb => hf b (List.mem_cons_of_mem _ hb)
      by_cases ha : a ∈ m
      · simp [ha, ih]
      · simp [ha, ih, hf a List.mem_cons_self ha]

/-- Two sums over a list, one below the other term by term, are equal exactly when all terms
are. -/
theorem sum_eq_iff_of_le [PartialOrder M] [IsOrderedCancelAddMonoid M] (h : ∀ a ∈ l, f a ≤ g a) :
    (l.map f).sum = (l.map g).sum ↔ ∀ a ∈ l, f a = g a := by
  induction l with
  | nil => simp
  | cons a l ih =>
      obtain ⟨ha, hl⟩ := List.forall_mem_cons.1 h
      rw [List.map_cons, List.map_cons, List.sum_cons, List.sum_cons, List.forall_mem_cons,
        ← ih hl]
      exact add_eq_add_iff_eq_and_eq ha (List.sum_le_sum hl)

end Sums

end Lists
