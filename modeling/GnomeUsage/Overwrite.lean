/-
Tables that are only overwritten.

A table that is filled by a list of writers, one after the other, and from which nothing is ever
removed: each writer gives some keys a value and leaves the others as they are.  Keys and values
are arbitrary, and a table is a partial function.

* `Overwrite.put`, `Overwrite.putAll` — one writer, and a list of them;
* `Overwrite.LastWrite`, `Overwrite.putAll_last`, `Overwrite.putAll_of_none` — **the last writer
  wins**: a key has the value of the last writer of it, and a key nobody writes keeps its value;
* `Overwrite.putAll_isSome` — **nothing is forgotten**;
* `Overwrite.putAll_inv` — what holds of the values of the table and of the writers holds after.
-/

import Mathlib.Data.List.Basic
import Mathlib.Logic.Function.Basic

set_option relaxedAutoImplicit false
set_option autoImplicit false

namespace Overwrite

variable {α κ ν : Type*} (write : α → κ → Option ν)

/-- The table after a writer. -/
def put (table : κ → Option ν) (x : α) : κ → Option ν := fun k => (write x k).or (table k)

/-- The table after a list of writers. -/
def putAll (xs : List α) (table : κ → Option ν) : κ → Option ν := xs.foldl (put write) table

theorem putAll_cons (x : α) (xs : List α) (table : κ → Option ν) :
    putAll write (x :: xs) table = putAll write xs (put write table x) := rfl

theorem putAll_map {β : Type*} (f : β → α) (xs : List β) (table : κ → Option ν) :
    putAll write (xs.map f) table = putAll (fun x => write (f x)) xs table :=
  List.foldl_map

theorem putAll_append (xs ys : List α) (table : κ → Option ν) :
    putAll write (xs ++ ys) table = putAll write ys (putAll write xs table) :=
  List.foldl_append

variable {write}

/-- **A key nobody writes keeps its value.** -/
theorem putAll_of_none {xs : List α} {k : κ} (h : ∀ x ∈ xs, write x k = none)
    (table : κ → Option ν) : putAll write xs table k = table k := by
  induction xs generalizing table with
  | nil => rfl
  | cons x xs ih =>
      rw [putAll_cons, ih fun y hy => h y (List.mem_cons_of_mem _ hy), put,
        h x List.mem_cons_self, Option.none_or]

/-- The last of the writers that give the key a value gives it this one. -/
def LastWrite (write : α → κ → Option ν) (xs : List α) (k : κ) (v : ν) : Prop :=
  ∃ before x after, xs = before ++ x :: after ∧ write x k = some v ∧ ∀ y ∈ after, write y k = none

/-- A key has a last writer, or none at all. -/
theorem lastWrite_or_none (write : α → κ → Option ν) (xs : List α) (k : κ) :
    (∃ v, LastWrite write xs k v) ∨ ∀ x ∈ xs, write x k = none := by
  induction xs with
  | nil => exact .inr fun x hx => absurd hx List.not_mem_nil
  | cons x xs ih =>
      rcases ih with ⟨v, before, y, after, rfl, hy, hafter⟩ | hnone
      · exact .inl ⟨v, x :: before, y, after, rfl, hy, hafter⟩
      · cases hx : write x k with
        | some v => exact .inl ⟨v, [], x, xs, rfl, hx, hnone⟩
        | none =>
            refine .inr ?_
            intro y hy
            rcases List.mem_cons.1 hy with rfl | hy
            · exact hx
            · exact hnone y hy

/-- **The last writer wins.** -/
theorem putAll_last {xs : List α} {k : κ} {v : ν} (h : LastWrite write xs k v)
    (table : κ → Option ν) : putAll write xs table k = some v := by
  obtain ⟨before, x, after, rfl, hx, hafter⟩ := h
  rw [putAll_append, putAll_cons, putAll_of_none hafter, put, hx, Option.some_or]

/-- **A key somebody writes has the value of a writer.** -/
theorem putAll_of_some {xs : List α} {k : κ} (h : ∃ x ∈ xs, ∃ v, write x k = some v)
    (table : κ → Option ν) :
    ∃ x ∈ xs, ∃ v, write x k = some v ∧ putAll write xs table k = some v := by
  rcases lastWrite_or_none write xs k with ⟨v, hlast⟩ | hnone
  · have heq := putAll_last hlast table
    obtain ⟨before, x, after, rfl, hx, _⟩ := hlast
    exact ⟨x, List.mem_append_right _ List.mem_cons_self, v, hx, heq⟩
  · obtain ⟨x, hx, v, hv⟩ := h
    rw [hnone x hx] at hv
    cases hv

/-- **Nothing is forgotten.** -/
theorem putAll_isSome {xs : List α} {table : κ → Option ν} {k : κ} (h : (table k).isSome) :
    (putAll write xs table k).isSome := by
  rcases lastWrite_or_none write xs k with ⟨v, hlast⟩ | hnone
  · rw [putAll_last hlast, Option.isSome_some]
  · rw [putAll_of_none hnone]
    exact h

/-- **Invariants of tables**: what holds of every value in the table and of every value that is
written holds of every value after the writers. -/
theorem putAll_inv {p : κ → ν → Prop} {xs : List α} {table : κ → Option ν}
    (htable : ∀ k v, table k = some v → p k v)
    (hwrite : ∀ x ∈ xs, ∀ k v, write x k = some v → p k v) :
    ∀ k v, putAll write xs table k = some v → p k v := by
  intro k v hv
  rcases lastWrite_or_none write xs k with ⟨w, hlast⟩ | hnone
  · obtain rfl : w = v := Option.some_inj.1 ((putAll_last hlast table).symm.trans hv)
    obtain ⟨before, x, after, rfl, hx, _⟩ := hlast
    exact hwrite x (List.mem_append_right _ List.mem_cons_self) k w hx
  · rw [putAll_of_none hnone] at hv
    exact htable k v hv

end Overwrite
