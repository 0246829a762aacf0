/-
Tree stores.

A tree store holds rows in a forest.  A path is the list of the child indices down to a node, and an
iterator stands for a node; one walks from a node to its first child, and from there to the next one
until there is none.  The stores here are not modified, so that an iterator is where its node is.

* `TreeStore.Node`, `TreeStore.nodeAt` — a forest, and the node that a path names;
* `TreeStore.getIter`, `getPath`, `get`, `iterChildren`, `iterNext` — the iterators;
* `TreeStore.getPath_getIter` — **a path and its iterator** name the same node;
* `TreeStore.walk`, `walk_eq` — **the walk over the children** of a node meets them all, in order.
-/

import Mathlib.Data.List.Basic
import Mathlib.Tactic.Common

set_option relaxedAutoImplicit false
set_option autoImplicit false

namespace TreeStore

variable {α β : Type*}

/-- A node with its row and its children. -/
inductive Node (α : Type*) where
  | mk (row : α) (children : List (Node α))

def Node.row : Node α → α
  | .mk row _ => row

def Node.children : Node α → List (Node α)
  | .mk _ children => children

/-- **The node that a path names**; the empty path names none. -/
def nodeAt : List (Node α) → List ℕ → Option (Node α)
  | _, [] => none
  | store, [i] => store[i]?
  | store, i :: j :: path => store[i]?.bind fun node => nodeAt node.children (j :: path)

/-- The children of the node that a path names. -/
def childrenAt (store : List (Node α)) (path : List ℕ) : List (Node α) :=
  (nodeAt store path).elim [] Node.children

/-- An iterator: the path of the parent, and the index of the node in it. -/
structure Iter where
  parent : List ℕ
  index : ℕ
  deriving DecidableEq

/-- `gtk_tree_model_get_path`. -/
def getPath (iter : Iter) : List ℕ := iter.parent ++ [iter.index]

variable (store : List (Node α))

/-- `gtk_tree_model_get_iter`. -/
def getIter (path : List ℕ) : Option Iter :=
  path.getLast?.bind fun index =>
    (nodeAt store path).map fun _ => ⟨path.dropLast, index⟩

/-- `gtk_tree_model_get`: the row of a node; `none` for an iterator that is not valid. -/
def get (iter : Iter) : Option α := (nodeAt store (getPath iter)).map Node.row

/-- `gtk_tree_model_iter_children`. -/
def iterChildren (iter : Iter) : Option Iter :=
  if (childrenAt store (getPath iter)).isEmpty then none else some ⟨getPath iter, 0⟩

/-- `gtk_tree_model_iter_next`. -/
def iterNext (iter : Iter) : Option Iter :=
  (nodeAt store (iter.parent ++ [iter.index + 1])).map fun _ => ⟨iter.parent, iter.index + 1⟩

/-- A loop that visits a node and then the next one until there is none; `none` when it meets an
iterator that is not valid, or takes more than `fuel` rounds. -/
def walk (visit : Iter → α → List β) : ℕ → Iter → Option (List β)
  | 0, _ => none
  | fuel + 1, iter =>
      (get store iter).bind fun row =>
        ((iterNext store iter).elim (some []) (walk visit fuel)).map (visit iter row ++ ·)

/-- The children of a node, each with its iterator. -/
def entries (path : List ℕ) : List (Iter × α) :=
  (childrenAt store path).zipIdx.map fun child => (⟨path, child.2⟩, child.1.row)

/-! ### Paths -/

variable {store}

/-- **The children by their paths.** -/
theorem nodeAt_concat {path : List ℕ} (hne : path ≠ []) (i : ℕ) :
    nodeAt store (path ++ [i]) = (childrenAt store path)[i]? := by
  unfold childrenAt
  induction path generalizing store with
  | nil => exact absurd rfl hne
  | cons j path ih =>
      cases path with
      | nil =>
          rw [List.cons_append, List.nil_append, nodeAt, nodeAt]
          cases store[j]? with
          | none => rfl
          | some node => rfl
      | cons k path =>
          rw [List.cons_append, List.cons_append, nodeAt, nodeAt]
          cases store[j]? with
          | none => rfl
          | some node => exact ih (List.cons_ne_nil k path)

theorem getPath_concat (path : List ℕ) (i : ℕ) : getPath ⟨path, i⟩ = path ++ [i] := rfl

/-- **A path and its iterator.** -/
theorem getPath_getIter {path : List ℕ} {iter : Iter} (h : getIter store path = some iter) :
    getPath iter = path := by
  obtain ⟨index, hlast, h⟩ := Option.bind_eq_some_iff.1 h
  obtain ⟨_, _, rfl⟩ := Option.map_eq_some_iff.1 h
  exact List.dropLast_append_getLast? index hlast

/-- A path that names a node has an iterator. -/
theorem getIter_of_nodeAt {path : List ℕ} {node : Node α} (h : nodeAt store path = some node) :
    ∃ iter, getIter store path = some iter ∧ getPath iter = path ∧
      get store iter = some node.row := by
  have hne : path ≠ [] := by
    rintro rfl
    cases h
  have hlast := List.getLast?_eq_some_getLast hne
  have hiter : getIter store path = some ⟨path.dropLast, path.getLast hne⟩ := by
    rw [getIter, hlast, Option.bind_some, h, Option.map_some]
  have hpath := getPath_getIter hiter
  exact ⟨_, hiter, hpath, by rw [get, hpath, h, Option.map_some]⟩

theorem getIter_eq_none {path : List ℕ} (h : nodeAt store path = none) :
    getIter store path = none := by
  rw [getIter, h]
  cases path.getLast? <;> rfl

/-! ### The walk -/

theorem length_entries (path : List ℕ) :
    (entries store path).length = (childrenAt store path).length := by
  rw [entries, List.length_map, List.length_zipIdx]

/-- The entry of a child. -/
theorem entries_getElem? (path : List ℕ) (i : ℕ) :
    (entries store path)[i]? =
      (childrenAt store path)[i]?.map fun node => (⟨path, i⟩, node.row) := by
  rw [entries, List.getElem?_map, List.getElem?_zipIdx, Option.map_map, Nat.zero_add]
  rfl

/-- The walk from a child on. -/
theorem walk_drop (visit : Iter → α → List β) {path : List ℕ} (hne : path ≠ []) {fuel i : ℕ}
    (hi : i < (childrenAt store path).length) (hfuel : (childrenAt store path).length ≤ i + fuel) :
    walk store visit fuel ⟨path, i⟩ =
      some (((entries store path).drop i).flatMap fun entry => visit entry.1 entry.2) := by
  induction fuel generalizing i with
  | zero => omega
  | succ fuel ih =>
      have hchild : (childrenAt store path)[i]? = some (childrenAt store path)[i] :=
        List.getElem?_eq_getElem hi
      have hget : get store ⟨path, i⟩ = some (childrenAt store path)[i].row := by
        rw [get, getPath_concat, nodeAt_concat hne, hchild, Option.map_some]
      have hi' : i < (entries store path).length := by rwa [length_entries]
      have hentry : (entries store path)[i] = (⟨path, i⟩, (childrenAt store path)[i].row) := by
        refine Option.some_inj.1 ?_
        rw [← List.getElem?_eq_getElem hi', entries_getElem?, hchild, Option.map_some]
      rw [walk, hget, Option.bind_some, iterNext, nodeAt_concat hne, List.drop_eq_getElem_cons hi',
        List.flatMap_cons, hentry]
      by_cases hnext : i + 1 < (childrenAt store path).length
      · rw [List.getElem?_eq_getElem hnext, Option.map_some, Option.elim_some,
          ih hnext (by omega), Option.map_some]
      · have hlast : (childrenAt store path).length ≤ i + 1 := Nat.not_lt.1 hnext
        have hend : (entries store path).length ≤ i + 1 := by
          rwa [length_entries]
        rw [List.getElem?_eq_none hlast, Option.map_none, Option.elim_none, Option.map_some,
          List.drop_eq_nil_of_le hend]
        rfl

/-- **The walk over all children**, with fuel for them. -/
theorem walk_eq (visit : Iter → α → List β) {path : List ℕ} (hne : path ≠ [])
    (hpos : 0 < (childrenAt store path).length) :
    walk store visit (childrenAt store path).length ⟨path, 0⟩ =
      some ((entries store path).flatMap fun entry => visit entry.1 entry.2) :=
  walk_drop visit hne hpos (Nat.le_add_left _ _)

end TreeStore
