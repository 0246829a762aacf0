/-
The most recent part of a sequence.

A list of bounded length to which values are appended, and which loses its front when it gets too
long, holds the last values of all that were ever appended.

* `RecentWindow.slide` — appending to a window;
* `RecentWindow.foldl_slide` — **a window holds the last values**, `List.rtake` of them all;
* `RecentWindow.rtake_reverse_getElem?` — the last values, counted from the newest.
-/

import Mathlib.Data.List.DropRight

set_option relaxedAutoImplicit false
set_option autoImplicit false

namespace RecentWindow

variable {α : Type*}

/-- Appending to a window of length `n`, whose front is lost if it gets longer. -/
def slide (n : ℕ) (window : List α) (a : α) : List α :=
  if n < (window ++ [a]).length then (window ++ [a]).tail else window ++ [a]

theorem length_rtake (n : ℕ) (l : List α) : (l.rtake n).length = min n l.length := by
  rw [List.rtake, List.length_drop]
  omega

/-- What is far from the end does not matter for the end. -/
theorem rtake_append_rtake (n : ℕ) (l l' : List α) :
    (l.rtake n ++ l').rtake n = (l ++ l').rtake n := by
  rw [List.rtake_eq_reverse_take_reverse, List.rtake_eq_reverse_take_reverse,
    List.rtake_eq_reverse_take_reverse, List.reverse_append, List.reverse_append,
    List.reverse_reverse, List.take_append, List.take_append, List.take_take]
  congr 3
  omega

theorem slide_rtake (n : ℕ) (l : List α) (a : α) :
    slide n (l.rtake n) a = (l ++ [a]).rtake n := by
  rw [← rtake_append_rtake]
  have hlen : (l.rtake n ++ [a]).length ≤ n + 1 := by
    rw [List.length_append, length_rtake, List.length_singleton]
    omega
  unfold slide
  generalize l.rtake n ++ [a] = window at hlen ⊢
  unfold List.rtake
  split
  · next hlt =>
      have hone : window.length - n = 1 := by omega
      rw [hone, List.drop_one]
  · next hge => rw [Nat.sub_eq_zero_of_le (Nat.not_lt.1 hge), List.drop_zero]

/-- **A window holds the last values** of all that were appended. -/
theorem foldl_slide (n : ℕ) (l l' : List α) :
    l'.foldl (slide n) (l.rtake n) = (l ++ l').rtake n := by
  induction l' generalizing l with
  | nil => rw [List.foldl_nil, List.append_nil]
  | cons a l' ih => rw [List.foldl_cons, slide_rtake, ih, List.append_assoc, List.singleton_append]

theorem foldl_slide_nil (n : ℕ) (l : List α) : l.foldl (slide n) [] = l.rtake n := by
  rw [← List.rtake_nil n, foldl_slide, List.nil_append]

/-- The newest value is the last of all, the one before it the last but one, and so on. -/
theorem rtake_reverse_getElem? {n k : ℕ} (hk : k < n) (l : List α) :
    (l.rtake n).reverse[k]? = l.reverse[k]? := by
  rw [List.rtake_eq_reverse_take_reverse, List.reverse_reverse, List.getElem?_take_of_lt hk]

end RecentWindow
