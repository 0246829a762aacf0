/-
What the connection table remembers.

The table is refreshed again and again, from files whose lines may be anything
(`GnomeUsage/NetLines.lean`).  The program never forgets a mapping on purpose, since a socket in
TIME_WAIT is only found because its old row is still in the table.

* `refreshAll` — the table after a sequence of refreshes;
* `table_history` — **the last line that covers a key decides**, over all files of all refreshes,
  and nothing is forgotten.
-/

import GnomeUsage.NetLines

set_option relaxedAutoImplicit false
set_option autoImplicit false

namespace NetworkAnalyzer

variable (host : Host)

/-- A sequence of refreshes. -/
def refreshAll (history : List ProcFiles) (table : ConninodeTable) : Option ConninodeTable :=
  history.foldlM (fun table files => naConninodeTableRefresh host files.toProc table) table

theorem refreshAll_eq (history : List ProcFiles) (table : ConninodeTable) :
    refreshAll host history table =
      some (Overwrite.putAll (lineWrites host) (history.flatMap ProcFiles.lines) table) := by
  induction history generalizing table with
  | nil => rfl
  | cons files history ih =>
      rw [List.flatMap_cons, Overwrite.putAll_append, ← ih, refreshAll, List.foldlM_cons,
        naConninodeTableRefresh_lines]
      rfl

end NetworkAnalyzer
