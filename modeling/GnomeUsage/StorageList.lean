/-
Navigation in the storage view (`usage-storage-list.vala`, `usage-storage-view.vala`,
`usage-window.vala`).

The list shows the children of one node of a tree model.  A click on a row descends to its node, the
back button of the header bar goes up again, and after each step the view tells the window which
title to show.  The current path is in the list, the rows hold iterators into the model, and the
header bar belongs to the window.

* `StorageRow`, `StorageList` — a row, and the list with `update`, `goBack` and `rowActivated`;
* `HeaderBar`, `updateMode` — the header bar, and what the view tells it;
* `Window.step` — an activation, or a click on the back button while it is visible;
* `Shown` — the paths of the nodes that named rows lead to;
* `Window.Ok` — list, rows and header bar agree, `Window.step_ok` — and each step keeps that;
* `storage_navigation` — **the state after any clicks**, and that going back undoes an activation.

The model is not modified here, so that an iterator is the place of its node in the tree.
-/

import GnomeUsage.Runs
import GnomeUsage.TreeStore
import Mathlib.Data.Int.Notation

set_option relaxedAutoImplicit false
set_option autoImplicit false

namespace Usage

open TreeStore (Node Iter nodeAt childrenAt getPath getIter iterChildren walk entries)

/-! ### The list -/

/-- The columns of `StorageModel`; an icon is given by its name here. -/
structure StorageColumns where
  icon : Option String
  name : Option String
  max_size : ℤ
  size : ℤ

abbrev StorageModel : Type := List (Node StorageColumns)

structure StorageRow where
  image : Option String
  name_label : String
  max_value : ℤ
  value : ℤ
  right_label : String
  iter : Iter

/-- `StorageRow ()`.  Its `name` is not nullable: no row is made for a name that is not set. -/
def storageRow (iter : Iter) (columns : StorageColumns) : Option StorageRow :=
  columns.name.map fun name =>
    { image := columns.icon
      name_label := "<b>" ++ name ++ "</b>"
      max_value := columns.max_size
      value := columns.size
      right_label := "<b>" ++ toString columns.size ++ "</b> GB"
      iter := iter }

structure StorageList where
  model : StorageModel
  root_path : List ℕ
  rows : List StorageRow

namespace StorageList

/-- `update`; `none` if it met an iterator that is not valid, or took more rounds than there are
children. -/
def update (list : StorageList) : Option StorageList :=
  match getIter list.model list.root_path with
  | none => some { list with rows := [] }
  | some root_iter =>
      match iterChildren list.model root_iter with
      | none => some { list with rows := [] }
      | some iter =>
          let rounds := (childrenAt list.model list.root_path).length
          (walk list.model (fun iter columns => (storageRow iter columns).toList) rounds iter).map
            fun rows => { list with rows := rows }

/-- The setter of `model`. -/
def setModel (model : StorageModel) : Option StorageList :=
  update { model := model, root_path := [0], rows := [] }

def goBack (list : StorageList) : Option StorageList :=
  update { list with root_path := list.root_path.dropLast }

def rowActivated (list : StorageList) (row : StorageRow) : Option StorageList :=
  update { list with root_path := getPath row.iter }

end StorageList

/-! ### The header bar -/

/-- `custom_title` says whether the stack switcher stands in place of the title. -/
structure HeaderBar where
  custom_title : Bool
  title : Option String
  back_button : Bool

def HeaderBar.init : HeaderBar :=
  { custom_title := true
    title := none
    back_button := false }

/-- The handler of `mode_changed`. -/
def HeaderBar.modeChanged (header : HeaderBar) : Option String → HeaderBar
  | none => { header with custom_title := true, back_button := false }
  | some title =>
      { custom_title := false
        title := some title
        back_button := true }

/-- What the header bar shows in the middle. -/
inductive Mode where
  | stackSwitcher
  | title (text : Option String)

def HeaderBar.mode (header : HeaderBar) : Mode :=
  if header.custom_title then .stackSwitcher else .title header.title

structure Window where
  list_box : StorageList
  header_bar : HeaderBar

/-- `update_mode`; `none` if it met an iterator that is not valid. -/
def Window.updateMode (window : Window) (list : StorageList) : Option Window :=
  if 1 < list.root_path.length then
    (getIter list.model list.root_path).bind fun iter =>
      (TreeStore.get list.model iter).map fun columns =>
        ⟨list, window.header_bar.modeChanged columns.name⟩
  else
    some ⟨list, window.header_bar.modeChanged none⟩

/-- A click on a displayed row, or on the back button. -/
inductive Click where
  | row (index : ℕ)
  | back

/-- A step of the window; there is no such click on a row that is not displayed, nor on a back
button that is not visible. -/
def Window.step (window : Window) : Click → Option Window
  | .row index =>
      window.list_box.rows[index]?.bind fun row =>
        (window.list_box.rowActivated row).bind window.updateMode
  | .back =>
      if window.header_bar.back_button then window.list_box.goBack.bind window.updateMode else none

/-- The window with a model. -/
def Window.init (model : StorageModel) : Option Window :=
  (StorageList.setModel model).map fun list => ⟨list, HeaderBar.init⟩

/-! ### The rows of a node -/

/-- The rows for the children of a node, in the order of the model. -/
def childRows (model : StorageModel) (path : List ℕ) : List StorageRow :=
  (entries model path).filterMap fun entry => storageRow entry.1 entry.2

/-- **What `update` displays**, for any path. -/
theorem StorageList.update_eq (list : StorageList) :
    list.update = some { list with rows := childRows list.model list.root_path } := by
  unfold StorageList.update childRows
  cases hnode : nodeAt list.model list.root_path with
  | none =>
      have hentries : entries list.model list.root_path = [] := by
        rw [entries, childrenAt, hnode]
        rfl
      rw [TreeStore.getIter_eq_none hnode, hentries]
      rfl
  | some node =>
      obtain ⟨iter, hiter, hpath, _⟩ := TreeStore.getIter_of_nodeAt hnode
      have hne : list.root_path ≠ [] := by
        intro h
        rw [h] at hnode
        cases hnode
      rw [hiter]
      dsimp only
      rw [iterChildren, hpath]
      by_cases hempty : childrenAt list.model list.root_path = []
      · have hentries : entries list.model list.root_path = [] := by
          rw [entries, hempty]
          rfl
        rw [hempty, hentries]
        rfl
      · have hpos : 0 < (childrenAt list.model list.root_path).length :=
          List.length_pos_iff.2 hempty
        rw [List.isEmpty_eq_false_iff.2 hempty, if_neg Bool.false_ne_true]
        dsimp only
        rw [TreeStore.walk_eq _ hne hpos, Option.map_some, List.filterMap_eq_flatMap_toList]

/-- **The node of a displayed row** is a child, and it has a name. -/
theorem of_childRows {model : StorageModel} {path : List ℕ} {row : StorageRow}
    (h : row ∈ childRows model path) :
    ∃ i node name, row.iter = ⟨path, i⟩ ∧ (childrenAt model path)[i]? = some node ∧
      node.row.name = some name := by
  obtain ⟨entry, hentry, hrow⟩ := List.mem_filterMap.1 h
  obtain ⟨i, hi⟩ := List.mem_iff_getElem?.1 hentry
  rw [TreeStore.entries_getElem?] at hi
  obtain ⟨node, hnode, rfl⟩ := Option.map_eq_some_iff.1 hi
  obtain ⟨name, hname, rfl⟩ := Option.map_eq_some_iff.1 hrow
  exact ⟨i, node, name, rfl, hnode, hname⟩

/-! ### The paths that are shown -/

/-- The first path, and those that named children lead to. -/
inductive Shown (model : StorageModel) : List ℕ → Prop where
  | first : Shown model [0]
  | child {path : List ℕ} {i : ℕ} {node : Node StorageColumns} {name : String}
      (shown : Shown model path) (child : (childrenAt model path)[i]? = some node)
      (named : node.row.name = some name) : Shown model (path ++ [i])

namespace Shown

variable {model : StorageModel} {path : List ℕ}

theorem ne_nil (h : Shown model path) : path ≠ [] := by
  cases h with
  | first => exact List.cons_ne_nil 0 []
  | child _ _ _ => exact List.append_ne_nil_of_right_ne_nil _ (List.cons_ne_nil _ _)

/-- Below the top level there is a node, and it has a name. -/
theorem exists_name (h : Shown model path) (hdeep : 1 < path.length) :
    ∃ node name, nodeAt model path = some node ∧ node.row.name = some name := by
  cases h with
  | first => exact absurd hdeep (Nat.lt_irrefl 1)
  | child shown child named =>
      exact ⟨_, _, (TreeStore.nodeAt_concat shown.ne_nil _).trans child, named⟩

/-- Every path that is shown names a node, unless the model is empty. -/
theorem exists_node (h : Shown model path) (hmodel : model ≠ []) :
    ∃ node, nodeAt model path = some node := by
  cases h with
  | first => exact ⟨_, List.getElem?_eq_getElem (List.length_pos_iff.2 hmodel)⟩
  | child shown child named => exact ⟨_, (TreeStore.nodeAt_concat shown.ne_nil _).trans child⟩

/-- Up from below the top level. -/
theorem dropLast (h : Shown model path) (hdeep : 1 < path.length) :
    Shown model path.dropLast := by
  cases h with
  | first => exact absurd hdeep (Nat.lt_irrefl 1)
  | child shown _ _ =>
      rw [List.dropLast_concat]
      exact shown

end Shown

/-- The title for a path: none at the top level, and the name of its node below. -/
def titleOf (model : StorageModel) (path : List ℕ) : Option String :=
  if 1 < path.length then (nodeAt model path).bind fun node => node.row.name else none

theorem titleOf_of_deep {model : StorageModel} {path : List ℕ} {node : Node StorageColumns}
    (hdeep : 1 < path.length) (hnode : nodeAt model path = some node) :
    titleOf model path = node.row.name := by
  rw [titleOf, if_pos hdeep, hnode, Option.bind_some]

theorem titleOf_of_top {model : StorageModel} {path : List ℕ} (htop : ¬ 1 < path.length) :
    titleOf model path = none := if_neg htop

theorem Shown.titleOf_isSome {model : StorageModel} {path : List ℕ} (h : Shown model path) :
    (titleOf model path).isSome ↔ 1 < path.length := by
  by_cases hdeep : 1 < path.length
  · obtain ⟨node, name, hnode, hname⟩ := h.exists_name hdeep
    rw [titleOf_of_deep hdeep hnode, hname]
    exact iff_of_true rfl hdeep
  · rw [titleOf_of_top hdeep]
    exact iff_of_false Bool.false_ne_true hdeep

/-! ### The invariant -/

/-- The header bar shows a title, or the stack switcher. -/
structure HeaderBar.Shows (header : HeaderBar) (title : Option String) : Prop where
  mode : header.mode = title.elim Mode.stackSwitcher fun text => Mode.title (some text)
  back : header.back_button = title.isSome

theorem HeaderBar.shows_init : HeaderBar.init.Shows none := ⟨rfl, rfl⟩

theorem HeaderBar.shows_modeChanged (header : HeaderBar) (title : Option String) :
    (header.modeChanged title).Shows title := by
  cases title with
  | none => exact ⟨rfl, rfl⟩
  | some text => exact ⟨rfl, rfl⟩

/-- **The invariant**: the path is one that is shown, and the rows and the header bar are those of
its node. -/
structure Window.Ok (model : StorageModel) (window : Window) : Prop where
  model_eq : window.list_box.model = model
  shown : Shown model window.list_box.root_path
  rows_eq : window.list_box.rows = childRows model window.list_box.root_path
  header : window.header_bar.Shows (titleOf model window.list_box.root_path)

namespace Window

variable {model : StorageModel} {window window' : Window}

/-- **What `update` and `update_mode` do** at a path that is shown. -/
theorem update_ok (window : Window) (list : StorageList)
    (hpath : Shown list.model list.root_path) :
    ∃ window', list.update.bind window.updateMode = some window' ∧ window'.Ok list.model ∧
      window'.list_box.root_path = list.root_path := by
  have hheader := window.header_bar.shows_modeChanged (titleOf list.model list.root_path)
  rw [StorageList.update_eq, Option.bind_some]
  refine ⟨⟨{ list with rows := childRows list.model list.root_path },
    window.header_bar.modeChanged (titleOf list.model list.root_path)⟩, ?_,
    ⟨rfl, hpath, rfl, hheader⟩, rfl⟩
  unfold updateMode
  by_cases hdeep : 1 < list.root_path.length
  · obtain ⟨node, name, hnode, _⟩ := hpath.exists_name hdeep
    obtain ⟨iter, hiter, _, hget⟩ := TreeStore.getIter_of_nodeAt hnode
    rw [if_pos hdeep, hiter, Option.bind_some, hget, Option.map_some,
      titleOf_of_deep hdeep hnode]
  · rw [if_neg hdeep, titleOf_of_top hdeep]

theorem init_ok (model : StorageModel) :
    ∃ window, Window.init model = some window ∧ window.Ok model := by
  refine ⟨⟨⟨model, [0], childRows model [0]⟩, HeaderBar.init⟩, ?_, rfl, Shown.first, rfl, ?_⟩
  · rw [Window.init, StorageList.setModel, StorageList.update_eq]
    rfl
  · exact HeaderBar.shows_init

/-- The back button is visible below the top level. -/
theorem Ok.back_iff (h : window.Ok model) :
    window.header_bar.back_button ↔ 1 < window.list_box.root_path.length := by
  rw [h.header.back]
  exact h.shown.titleOf_isSome

/-- **A click on a row** goes one down. -/
theorem Ok.step_row (h : window.Ok model) {index : ℕ}
    (hindex : index < window.list_box.rows.length) :
    ∃ window' i, window.step (.row index) = some window' ∧ window'.Ok model ∧
      window'.list_box.root_path = window.list_box.root_path ++ [i] := by
  have hrow := List.getElem?_eq_getElem hindex
  have hmem : window.list_box.rows[index] ∈ childRows model window.list_box.root_path := by
    rw [← h.rows_eq]
    exact List.getElem_mem hindex
  obtain ⟨i, node, name, hiter, hchild, hname⟩ := of_childRows hmem
  have hpath : Shown window.list_box.model (getPath window.list_box.rows[index].iter) := by
    rw [h.model_eq, hiter]
    exact h.shown.child hchild hname
  obtain ⟨window', hstep, hok, hroot⟩ := window.update_ok
    { window.list_box with root_path := getPath window.list_box.rows[index].iter } hpath
  refine ⟨window', i, ?_, ?_, ?_⟩
  · rw [Window.step, hrow]
    exact hstep
  · rw [← h.model_eq]
    exact hok
  · rw [hroot]
    dsimp only
    rw [hiter]
    rfl

/-- **A click on the back button** goes one up. -/
theorem Ok.step_back (h : window.Ok model) (hback : window.header_bar.back_button) :
    ∃ window', window.step .back = some window' ∧ window'.Ok model ∧
      window'.list_box.root_path = window.list_box.root_path.dropLast := by
  have hpath : Shown window.list_box.model window.list_box.root_path.dropLast := by
    rw [h.model_eq]
    exact h.shown.dropLast (h.back_iff.1 hback)
  obtain ⟨window', hstep, hok, hroot⟩ := window.update_ok
    { window.list_box with root_path := window.list_box.root_path.dropLast } hpath
  refine ⟨window', ?_, ?_, hroot⟩
  · rw [Window.step, if_pos hback]
    exact hstep
  · rw [← h.model_eq]
    exact hok

/-- **Each click keeps the invariant.** -/
theorem step_ok (h : window.Ok model) {click : Click} (hstep : window.step click = some window') :
    window'.Ok model := by
  cases click with
  | row index =>
      have hindex : index < window.list_box.rows.length := by
        by_contra hge
        rw [Window.step, List.getElem?_eq_none (Nat.not_lt.1 hge)] at hstep
        cases hstep
      obtain ⟨window'', _, hsome, hok, _⟩ := h.step_row hindex
      rw [hsome] at hstep
      cases hstep
      exact hok
  | back =>
      have hback : window.header_bar.back_button := by
        by_contra hhidden
        rw [Window.step, if_neg hhidden] at hstep
        cases hstep
      obtain ⟨window'', hsome, hok, _⟩ := h.step_back hback
      rw [hsome] at hstep
      cases hstep
      exact hok

/-- The path determines what the window shows. -/
theorem Ok.congr (h : window.Ok model) (h' : window'.Ok model)
    (hroot : window'.list_box.root_path = window.list_box.root_path) :
    window'.list_box.rows = window.list_box.rows ∧
      window'.header_bar.mode = window.header_bar.mode ∧
      window'.header_bar.back_button = window.header_bar.back_button := by
  refine ⟨?_, ?_, ?_⟩
  · rw [h.rows_eq, h'.rows_eq, hroot]
  · rw [h.header.mode, h'.header.mode, hroot]
  · rw [h.header.back, h'.header.back, hroot]

/-- **Back undoes an activation.** -/
theorem Ok.activate_back (h : window.Ok model) {index : ℕ}
    (hindex : index < window.list_box.rows.length) :
    ∃ activated returned, window.step (.row index) = some activated ∧
      activated.step .back = some returned ∧ returned.Ok model ∧
      returned.list_box.root_path = window.list_box.root_path := by
  obtain ⟨activated, i, hactivate, hok, hdown⟩ := h.step_row hindex
  have hback : activated.header_bar.back_button := by
    have hpos := List.length_pos_iff.2 h.shown.ne_nil
    rw [hok.back_iff, hdown, List.length_append, List.length_singleton]
    omega
  obtain ⟨returned, hreturn, hok', hup⟩ := hok.step_back hback
  refine ⟨activated, returned, hactivate, hreturn, hok', ?_⟩
  rw [hup, hdown, List.dropLast_concat]

/-- **The invariant after any clicks.** -/
theorem run_ok {initial : Window} (hinit : initial.Ok model) {clicks : List Click}
    (hrun : Runs.run Window.step initial clicks = some window) : window.Ok model :=
  Runs.run_inv (fun _ _ _ h hstep => step_ok h hstep) hinit hrun

end Window

/-- **Navigation**: after any clicks on displayed rows and on the visible back button, the path has
depth at least one and, unless the model is empty, names a node; the rows are those of its children
in the order of the model, where a child without a name has none; the back button is visible exactly
below the top level, where the title is the name of the node; and every click on a row leads to a
state from which back returns to the path, the rows and the mode before it. -/
theorem storage_navigation (model : StorageModel) :
    ∃ initial, Window.init model = some initial ∧
      ∀ clicks window, Runs.run Window.step initial clicks = some window →
        1 ≤ window.list_box.root_path.length ∧
        (model ≠ [] → ∃ node, nodeAt model window.list_box.root_path = some node) ∧
        window.list_box.rows = childRows model window.list_box.root_path ∧
        (window.header_bar.back_button ↔ 1 < window.list_box.root_path.length) ∧
        (¬ window.header_bar.back_button → window.header_bar.mode = Mode.stackSwitcher) ∧
        (window.header_bar.back_button →
          (∃ window', window.step .back = some window') ∧
          ∃ node name, nodeAt model window.list_box.root_path = some node ∧
            node.row.name = some name ∧ window.header_bar.mode = Mode.title (some name)) ∧
        ∀ index < window.list_box.rows.length,
          ∃ activated returned, window.step (.row index) = some activated ∧
            activated.step .back = some returned ∧
            returned.list_box.root_path = window.list_box.root_path ∧
            returned.list_box.rows = window.list_box.rows ∧
            returned.header_bar.mode = window.header_bar.mode ∧
            returned.header_bar.back_button = window.header_bar.back_button := by
  obtain ⟨initial, hinit, hok⟩ := Window.init_ok model
  refine ⟨initial, hinit, ?_⟩
  intro clicks window hrun
  have h := Window.run_ok hok hrun
  refine ⟨List.length_pos_iff.2 h.shown.ne_nil, h.shown.exists_node, h.rows_eq, h.back_iff,
    ?_, ?_, ?_⟩
  · intro hhidden
    rw [h.header.mode, titleOf_of_top fun hdeep => hhidden (h.back_iff.2 hdeep)]
    rfl
  · intro hback
    obtain ⟨window', hstep, _, _⟩ := h.step_back hback
    obtain ⟨node, name, hnode, hname⟩ := h.shown.exists_name (h.back_iff.1 hback)
    refine ⟨⟨window', hstep⟩, node, name, hnode, hname, ?_⟩
    rw [h.header.mode, titleOf_of_deep (h.back_iff.1 hback) hnode, hname]
    rfl
  · intro index hindex
    obtain ⟨activated, returned, hactivate, hreturn, hok', hroot⟩ := h.activate_back hindex
    exact ⟨activated, returned, hactivate, hreturn, hroot, h.congr hok' hroot⟩

/-- A path into an empty model names nothing, and a child without a name is not displayed. -/
theorem no_node_no_row :
    (∃ initial, Window.init [] = some initial ∧
      (nodeAt initial.list_box.model initial.list_box.root_path).isNone) ∧
    ∃ initial,
      Window.init [.mk ⟨none, none, 0, 0⟩ [.mk ⟨some "folder", none, 10, 5⟩ []]] = some initial ∧
        (childrenAt initial.list_box.model initial.list_box.root_path).length = 1 ∧
        initial.list_box.rows = [] :=
  ⟨⟨_, rfl, rfl⟩, ⟨_, rfl, rfl, rfl⟩⟩

end Usage
