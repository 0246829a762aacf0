/-
Where the user can go (`usage-window.vala`, `usage-view.vala`).

The window has a stack of five pages and a switcher for them.  The storage page can put a title in
the place of the switcher, with the back button; the back button is connected once, for all pages,
and calls `go_back` of the page that is visible at the click.

* `UIView`, `Pages` — the pages, and the window with the visible one;
* `Window.goBack` — `go_back` of a page;
* `Pages.step` — a click on the switcher, on a row or on the back button, while it is displayed;
* `Pages.Ok` — the back button belongs to the storage page, `Pages.step_ok` — and each click keeps
  that;
* `navigation_reaches` — **what can be reached**, from every state that can be reached.
-/

import GnomeUsage.StorageList

set_option relaxedAutoImplicit false
set_option autoImplicit false

namespace Usage

open TreeStore (Node childrenAt)

/-! ### The pages -/

/-- `UIView`, without `N_VIEWS`, which counts them. -/
inductive UIView where
  | cpu
  | memory
  | storage
  | network
  | battery
  deriving DecidableEq

/-- `UIView.all`. -/
def UIView.all : List UIView := [.cpu, .memory, .storage, .network, .battery]

/-- `go_back` of a view, which only the storage view overrides. -/
def Window.goBack (window : Window) : UIView → Option Window
  | .storage => window.list_box.goBack.bind window.updateMode
  | _ => some window

/-- The window, with the visible child of its stack. -/
structure Pages where
  visible_child : UIView
  window : Window

inductive PageClick where
  | page (view : UIView)
  | row (index : ℕ)
  | back

namespace Pages

/-- A click; there is none on what is not displayed: the switcher while there is a title in its
place, a row while another page is visible, and the back button while it is hidden. -/
def step (pages : Pages) : PageClick → Option Pages
  | .page view =>
      if pages.window.header_bar.custom_title then some { pages with visible_child := view }
      else none
  | .row index =>
      if pages.visible_child = .storage then
        (pages.window.step (.row index)).map fun window => { pages with window := window }
      else none
  | .back =>
      if pages.window.header_bar.back_button then
        (pages.window.goBack pages.visible_child).map fun window => { pages with window := window }
      else none

/-- The window with a model; the page that is added first to the stack is visible at first. -/
def init (model : StorageModel) : Option Pages :=
  (Window.init model).map fun window => ⟨UIView.all.head (List.cons_ne_nil _ _), window⟩

end Pages

/-! ### The invariant -/

/-- The only path at the top level. -/
theorem Shown.eq_first {model : StorageModel} {path : List ℕ} (h : Shown model path)
    (htop : ¬ 1 < path.length) : path = [0] := by
  cases h with
  | first => rfl
  | child shown _ _ =>
      have hpos := List.length_pos_iff.2 shown.ne_nil
      rw [List.length_append, List.length_singleton] at htop
      omega

theorem Window.Ok.custom_title_iff {model : StorageModel} {window : Window}
    (h : window.Ok model) :
    window.header_bar.custom_title ↔ ¬ window.header_bar.back_button := by
  have hmode := h.header.mode
  rw [h.header.back]
  cases htitle : titleOf model window.list_box.root_path with
  | none =>
      rw [htitle, HeaderBar.mode] at hmode
      refine iff_of_true ?_ Bool.false_ne_true
      by_contra hcustom
      rw [if_neg hcustom] at hmode
      cases hmode
  | some text =>
      rw [htitle, HeaderBar.mode] at hmode
      refine iff_of_false ?_ (not_not_intro rfl)
      intro hcustom
      rw [if_pos hcustom] at hmode
      cases hmode

/-- **The invariant**: below the top level of the storage the storage page is visible. -/
structure Pages.Ok (model : StorageModel) (pages : Pages) : Prop where
  window : pages.window.Ok model
  visible : 1 < pages.window.list_box.root_path.length → pages.visible_child = .storage

namespace Pages

variable {model : StorageModel} {pages pages' : Pages}

/-- The path that the storage list shows. -/
abbrev path (pages : Pages) : List ℕ := pages.window.list_box.root_path

theorem init_ok (model : StorageModel) :
    ∃ pages, Pages.init model = some pages ∧ pages.Ok model := by
  obtain ⟨window, hinit, hok⟩ := Window.init_ok model
  have htop : window.list_box.root_path = [0] := by
    rw [Window.init, StorageList.setModel, StorageList.update_eq] at hinit
    cases hinit
    rfl
  refine ⟨⟨.cpu, window⟩, ?_, hok, ?_⟩
  · rw [Pages.init, hinit]
    rfl
  · intro hdeep
    rw [htop] at hdeep
    exact absurd hdeep (Nat.lt_irrefl 1)

/-- Off the storage page, the back button does not show. -/
theorem Ok.visible_of_back (h : pages.Ok model) (hback : pages.window.header_bar.back_button) :
    pages.visible_child = .storage :=
  h.visible (h.window.back_iff.1 hback)

/-- **The switcher**, at the top level. -/
theorem Ok.step_page (h : pages.Ok model) (htop : ¬ 1 < pages.path.length) (view : UIView) :
    pages.step (.page view) = some { pages with visible_child := view } ∧
      Ok model { pages with visible_child := view } := by
  have hcustom : pages.window.header_bar.custom_title := by
    rw [h.window.custom_title_iff, h.window.back_iff]
    exact htop
  refine ⟨if_pos hcustom, h.window, ?_⟩
  intro hdeep
  exact absurd hdeep htop

/-- **A row** of the storage page. -/
theorem step_row_eq (hvisible : pages.visible_child = .storage) (index : ℕ) :
    pages.step (.row index) =
      (pages.window.step (.row index)).map fun window => { pages with window := window } :=
  if_pos hvisible

/-- **The back button**: the page that it calls is the storage page. -/
theorem Ok.step_back_eq (h : pages.Ok model) :
    pages.step .back =
      (pages.window.step .back).map fun window => { pages with window := window } := by
  rw [Pages.step, Window.step]
  by_cases hback : pages.window.header_bar.back_button
  · rw [if_pos hback, if_pos hback, h.visible_of_back hback]
    rfl
  · rw [if_neg hback, if_neg hback, Option.map_none]

/-- **Each click keeps the invariant.** -/
theorem step_ok (h : pages.Ok model) {click : PageClick} (hstep : pages.step click = some pages') :
    pages'.Ok model := by
  cases click with
  | page view =>
      by_cases htop : 1 < pages.path.length
      · have hcustom : ¬ pages.window.header_bar.custom_title := by
          rw [h.window.custom_title_iff, h.window.back_iff]
          exact not_not_intro htop
        rw [Pages.step, if_neg hcustom] at hstep
        cases hstep
      · obtain ⟨hsome, hok⟩ := h.step_page htop view
        rw [hsome] at hstep
        cases hstep
        exact hok
  | row index =>
      by_cases hvisible : pages.visible_child = .storage
      · rw [step_row_eq hvisible] at hstep
        obtain ⟨window, hwindow, rfl⟩ := Option.map_eq_some_iff.1 hstep
        exact ⟨Window.step_ok h.window hwindow, fun _ => hvisible⟩
      · rw [Pages.step, if_neg hvisible] at hstep
        cases hstep
  | back =>
      by_cases hback : pages.window.header_bar.back_button
      · rw [h.step_back_eq] at hstep
        obtain ⟨window, hwindow, rfl⟩ := Option.map_eq_some_iff.1 hstep
        exact ⟨Window.step_ok h.window hwindow, fun _ => h.visible_of_back hback⟩
      · rw [Pages.step, if_neg hback] at hstep
        cases hstep

theorem run_ok (h : pages.Ok model) {clicks : List PageClick}
    (hrun : Runs.run Pages.step pages clicks = some pages') : pages'.Ok model :=
  Runs.run_inv (fun _ _ _ hok hstep => step_ok hok hstep) h hrun

/-! ### What clicks reach -/

/-- Some clicks lead from a state to one with the page and the path. -/
def Reaches (pages : Pages) (view : UIView) (path : List ℕ) : Prop :=
  ∃ clicks pages', Runs.run Pages.step pages clicks = some pages' ∧
    pages'.visible_child = view ∧ pages'.path = path

theorem Reaches.refl (pages : Pages) : pages.Reaches pages.visible_child pages.path :=
  ⟨[], pages, rfl, rfl, rfl⟩

/-- One more click. -/
theorem Reaches.tail {view : UIView} {path : List ℕ} (h : pages.Ok model)
    (hreach : pages.Reaches view path) {view' : UIView} {path' : List ℕ}
    (hclick : ∀ middle : Pages, middle.Ok model → middle.visible_child = view →
      middle.path = path → ∃ click pages', middle.step click = some pages' ∧
        pages'.visible_child = view' ∧ pages'.path = path') :
    pages.Reaches view' path' := by
  obtain ⟨clicks, middle, hrun, hview, hpath⟩ := hreach
  obtain ⟨click, pages', hstep, hview', hpath'⟩ := hclick middle (run_ok h hrun) hview hpath
  refine ⟨clicks ++ [click], pages', ?_, hview', hpath'⟩
  rw [Runs.run_concat, hrun, Option.bind_some, hstep]

/-- **Back to the top level**, by the back button. -/
theorem Ok.reaches_top (h : pages.Ok model) : pages.Reaches pages.visible_child [0] := by
  -- by how far down the storage list is; each click on the back button is one less
  suffices hdepth : ∀ k path, Shown model path → path.length = k + 1 →
      pages.Reaches pages.visible_child path → pages.Reaches pages.visible_child [0] by
    have hpos : 0 < pages.path.length := List.length_pos_iff.2 h.window.shown.ne_nil
    exact hdepth (pages.path.length - 1) pages.path h.window.shown (by omega) (Reaches.refl pages)
  intro k
  induction k with
  | zero =>
      intro path hshown hlength hreach
      rwa [hshown.eq_first (by omega)] at hreach
  | succ k ih =>
      intro path hshown hlength hreach
      have hdeep : 1 < path.length := by omega
      refine ih path.dropLast (hshown.dropLast hdeep) ?_ ?_
      · rw [List.length_dropLast]
        omega
      · refine hreach.tail h ?_
        intro middle hok hview hpath
        have hback : middle.window.header_bar.back_button := by
          rw [hok.window.back_iff, show middle.window.list_box.root_path = path from hpath]
          exact hdeep
        obtain ⟨window', hstep, _, hup⟩ := hok.window.step_back hback
        refine ⟨.back, { middle with window := window' }, ?_, hview, ?_⟩
        · rw [hok.step_back_eq, hstep, Option.map_some]
        · exact hup.trans (congrArg List.dropLast hpath)

/-- **From the top level to every page.** -/
theorem Ok.reaches_page (h : pages.Ok model) (view : UIView) : pages.Reaches view [0] := by
  refine h.reaches_top.tail h ?_
  intro middle hok _ hpath
  have htop : ¬ 1 < middle.path.length := by
    rw [hpath]
    exact Nat.lt_irrefl 1
  exact ⟨.page view, _, (hok.step_page htop view).1, rfl, hpath⟩

end Pages

/-- **A child with a name has a row.** -/
theorem exists_childRows {model : StorageModel} {path : List ℕ} {i : ℕ}
    {node : Node StorageColumns} {name : String} (hchild : (childrenAt model path)[i]? = some node)
    (hname : node.row.name = some name) : ∃ row ∈ childRows model path, row.iter = ⟨path, i⟩ := by
  have hentry : (TreeStore.entries model path)[i]? = some (⟨path, i⟩, node.row) := by
    rw [TreeStore.entries_getElem?, hchild, Option.map_some]
  have hrow : ∃ row, storageRow ⟨path, i⟩ node.row = some row ∧ row.iter = ⟨path, i⟩ := by
    rw [storageRow, hname]
    exact ⟨_, rfl, rfl⟩
  obtain ⟨row, hrow, hiter⟩ := hrow
  exact ⟨row, List.mem_filterMap.2 ⟨_, List.mem_of_getElem? hentry, hrow⟩, hiter⟩

namespace Pages

variable {model : StorageModel} {pages pages' : Pages}

/-- **From the top level to every node that is shown**, by its rows. -/
theorem Ok.reaches_shown (h : pages.Ok model) {path : List ℕ} (hshown : Shown model path) :
    pages.Reaches .storage path := by
  induction hshown with
  | first => exact h.reaches_page .storage
  | child shown child named ih =>
      rename_i path i node name
      refine ih.tail h ?_
      intro middle hok hview hpath
      obtain ⟨row, hmem, hiter⟩ := exists_childRows child named
      rw [← hpath, ← hok.window.rows_eq] at hmem
      obtain ⟨index, hindex, hrow⟩ := List.mem_iff_getElem.1 hmem
      have hshown : Shown middle.window.list_box.model (TreeStore.getPath row.iter) := by
        rw [hok.window.model_eq, hiter]
        exact shown.child child named
      obtain ⟨window', hstep, _, hroot⟩ := middle.window.update_ok
        { middle.window.list_box with root_path := TreeStore.getPath row.iter } hshown
      refine ⟨.row index, { middle with window := window' }, ?_, hview, ?_⟩
      · rw [step_row_eq hview, Window.step, List.getElem?_eq_getElem hindex, hrow,
          Option.bind_some]
        exact congrArg (Option.map _) hstep
      · refine hroot.trans ?_
        dsimp only
        rw [hiter, TreeStore.getPath_concat]

/-- **What clicks reach** from a state: the switcher and the storage do not cut anything off. -/
theorem Ok.reaches_iff (h : pages.Ok model) (view : UIView) (path : List ℕ) :
    pages.Reaches view path ↔ Shown model path ∧ (1 < path.length → view = .storage) := by
  constructor
  · rintro ⟨clicks, pages', hrun, rfl, rfl⟩
    have hok := run_ok h hrun
    exact ⟨hok.window.shown, hok.visible⟩
  · rintro ⟨hshown, hvisible⟩
    by_cases hdeep : 1 < path.length
    · rw [hvisible hdeep]
      exact h.reaches_shown hshown
    · rw [hshown.eq_first hdeep]
      exact h.reaches_page view

end Pages

/-- **Navigation loses nothing**: in every state that clicks lead to, the back button shows only
while the storage page is visible, where a click on it goes one up; and clicks lead from there to a
page and a path of the storage exactly when named rows lead to that path and, below the top level,
the page is the storage page. -/
theorem navigation_reaches (model : StorageModel) :
    ∃ initial, Pages.init model = some initial ∧
      ∀ clicks pages, Runs.run Pages.step initial clicks = some pages →
        (pages.window.header_bar.back_button → pages.visible_child = .storage ∧
          ∃ returned, pages.step .back = some returned ∧
            returned.path = pages.path.dropLast) ∧
        ∀ view path,
          pages.Reaches view path ↔ Shown model path ∧ (1 < path.length → view = .storage) := by
  obtain ⟨initial, hinit, hok⟩ := Pages.init_ok model
  refine ⟨initial, hinit, ?_⟩
  intro clicks pages hrun
  have h := Pages.run_ok hok hrun
  refine ⟨?_, h.reaches_iff⟩
  intro hback
  obtain ⟨window', hstep, _, hup⟩ := h.window.step_back hback
  refine ⟨h.visible_of_back hback, { pages with window := window' }, ?_, hup⟩
  rw [h.step_back_eq, hstep, Option.map_some]

end Usage
