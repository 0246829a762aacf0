/-
The four tables of the kernel, and what a refresh of the connection table makes of them.

* `NetTable`, `KernelSnapshot` — a file of the kernel: a header line and its rows; and all that
  the analyzer reads of `/proc` at one moment;
* `NetLine.ofRow`, `toProc_ofSnapshot` — the rows of the kernel are lines, and what it prints are
  files of such lines (`GnomeUsage/NetLines.lean`);
* `rowWrites` — what a row writes into the connection table;
* `naConninodeTableRefresh_eq` — **a refresh overwrites** what the rows of the four files write, in
  the order they are read;
* `Covers`, `refreshed_of_covered`, `refreshed_of_not_covered` — a key some row covers is mapped to
  the inode of such a row.
-/

import GnomeUsage.NetLines

set_option relaxedAutoImplicit false
set_option autoImplicit false

namespace NetworkAnalyzer

/-! ### The rows of the kernel -/

theorem scanRow_text (row : NetRow) :
    scanRow row.text = some ⟨row.ends.localHex, row.local_port.setWidth 32, row.ends.remHex,
      row.rem_port.setWidth 32, row.inode⟩ := by
  rw [scanRow, scan_rowFormat row.toNetFields row.inode_lt]

theorem assigned_text (row : NetRow) :
    ScannedRow.Assigned ⟨row.ends.localHex, row.local_port.setWidth 32, row.ends.remHex,
      row.rem_port.setWidth 32, row.inode⟩ := by
  unfold ScannedRow.Assigned
  cases row.ends with
  | ip loc rem =>
      have hlen : ¬ (inHex loc).length > 8 := by rw [(inHex_spec loc).2.2]; omega
      simp only [RowEnds.localHex, RowEnds.remHex, if_neg hlen, scanInAddr_inHex]
      exact ⟨rfl, rfl⟩
  | mapped loc rem =>
      have hlen : (in6Hex (mappedAddr loc)).length > 8 := by rw [(in6Hex_spec _).2.2]; omega
      simp only [RowEnds.localHex, RowEnds.remHex, if_pos hlen, scanIn6Addr_in6Hex]
      exact ⟨rfl, rfl⟩
  | bound loc =>
      have hlen : (in6Hex (mappedAddr loc)).length > 8 := by rw [(in6Hex_spec _).2.2]; omega
      simp only [RowEnds.localHex, RowEnds.remHex, if_pos hlen, scanIn6Addr_in6Hex]
      exact ⟨rfl, rfl⟩
  | ip6 loc rem h =>
      have hlen : (in6Hex loc).length > 8 := by rw [(in6Hex_spec _).2.2]; omega
      simp only [RowEnds.localHex, RowEnds.remHex, if_pos hlen, scanIn6Addr_in6Hex]
      exact ⟨rfl, rfl⟩

/-- The line of a row as the kernel prints it. -/
def NetLine.ofRow (row : NetRow) : NetLine where
  text := row.text
  isLine := row.isLine
  assigned := by
    intro scanned hscanned _
    rw [scanRow_text] at hscanned
    obtain rfl := Option.some_inj.1 hscanned
    exact assigned_text row

/-! ### The files of the kernel -/

/-- A table of the kernel: a header line and the rows. -/
structure NetTable where
  header : CStr
  rows : List NetRow
  header_line : CStream.IsLine 8192 header

/-- The file, just opened. -/
def NetTable.stream (net : NetTable) : CStream :=
  CStream.ofText (net.header ++ net.rows.flatMap fun row => row.text)

/-- The tables of the kernel and the directories of `/proc`; the files of a family that is not
supported are missing. -/
structure KernelSnapshot where
  tcp : Option NetTable
  tcp6 : Option NetTable
  udp : Option NetTable
  udp6 : Option NetTable
  proc : List ProcDirent

/-- What the analyzer reads of it. -/
def KernelSnapshot.toProc (snapshot : KernelSnapshot) : ProcSnapshot where
  tcp := snapshot.tcp.map NetTable.stream
  tcp6 := snapshot.tcp6.map NetTable.stream
  udp := snapshot.udp.map NetTable.stream
  udp6 := snapshot.udp6.map NetTable.stream
  proc := snapshot.proc

/-- The rows of a file. -/
def rowsOf (file : Option NetTable) : List NetRow := file.elim [] NetTable.rows

/-- All rows, in the order they are read. -/
def KernelSnapshot.rows (snapshot : KernelSnapshot) : List NetRow :=
  rowsOf snapshot.tcp ++ (rowsOf snapshot.tcp6 ++ (rowsOf snapshot.udp ++ rowsOf snapshot.udp6))

/-- A file of the kernel, as a file of lines. -/
def NetFile.ofTable (net : NetTable) : NetFile :=
  ⟨net.header, net.rows.map NetLine.ofRow, net.header_line⟩

/-- The files of the kernel, as files of lines. -/
def ProcFiles.ofSnapshot (snapshot : KernelSnapshot) : ProcFiles where
  tcp := snapshot.tcp.map NetFile.ofTable
  tcp6 := snapshot.tcp6.map NetFile.ofTable
  udp := snapshot.udp.map NetFile.ofTable
  udp6 := snapshot.udp6.map NetFile.ofTable
  proc := snapshot.proc

/-- **What the kernel prints are such files.** -/
theorem toProc_ofSnapshot (snapshot : KernelSnapshot) :
    (ProcFiles.ofSnapshot snapshot).toProc = snapshot.toProc := by
  have hstream : NetFile.stream ∘ NetFile.ofTable = NetTable.stream := by
    funext net
    simp only [Function.comp_apply, NetFile.stream, NetFile.ofTable, NetTable.stream,
      List.flatMap_map]
    rfl
  simp only [ProcFiles.toProc, ProcFiles.ofSnapshot, KernelSnapshot.toProc, Option.map_map, hstream]

/-! ### What a refresh makes of them -/

variable (host : Host)

/-- The row covers a key: its own, or that of a local address in place of its own. -/
def Covers (row : NetRow) (key : CStr) : Prop := row.inode ≠ 0 ∧ key ∈ row.keys host

instance (row : NetRow) (key : CStr) : Decidable (Covers host row key) :=
  inferInstanceAs (Decidable (_ ∧ _))

/-- What a row writes for a key. -/
def rowWrites (row : NetRow) (key : CStr) : Option (BitVec 64) :=
  if Covers host row key then some row.inodeWord else none

theorem rowWrites_some {row : NetRow} {key : CStr} {inode : BitVec 64} :
    rowWrites host row key = some inode ↔ Covers host row key ∧ inode = row.inodeWord := by
  simp only [rowWrites, Option.ite_none_right_eq_some, Option.some_inj]
  exact and_congr_right fun _ => eq_comm

/-- **A row is a line that writes as the row does.** -/
theorem lineWrites_ofRow (row : NetRow) :
    lineWrites host (NetLine.ofRow row) = rowWrites host row := by
  funext key
  have hscan : scanRow (NetLine.ofRow row).text = _ := scanRow_text row
  have hinode : BitVec.ofInt 64 (row.inode : ℤ) = row.inodeWord := BitVec.ofInt_natCast 64 row.inode
  simp only [lineWrites, hscan, rowTexts_ends, Option.bind_eq_bind, Option.bind_some, toInt_port,
    ScannedRow.inodeWord, hinode, rowWrites, Covers, NetFields.keys, ne_eq, inodeWord_eq_zero_iff]
  exact if_congr Iff.rfl rfl rfl

/-- The lines of what the kernel prints are its rows. -/
theorem lines_ofSnapshot (snapshot : KernelSnapshot) :
    (ProcFiles.ofSnapshot snapshot).lines = snapshot.rows.map NetLine.ofRow := by
  have hlines : ∀ file : Option NetTable,
      linesOf (file.map NetFile.ofTable) = (rowsOf file).map NetLine.ofRow := by
    intro file
    cases file <;> rfl
  simp only [ProcFiles.lines, ProcFiles.ofSnapshot, hlines, KernelSnapshot.rows, List.map_append]

/-- **A refresh overwrites** what the rows write. -/
theorem naConninodeTableRefresh_eq (snapshot : KernelSnapshot) (table : ConninodeTable) :
    naConninodeTableRefresh host snapshot.toProc table =
      some (Overwrite.putAll (rowWrites host) snapshot.rows table) := by
  rw [← toProc_ofSnapshot, naConninodeTableRefresh_lines, lines_ofSnapshot, Overwrite.putAll_map]
  simp only [lineWrites_ofRow]

/-- The connection table after a refresh. -/
def refreshed (snapshot : KernelSnapshot) (table : ConninodeTable) : ConninodeTable :=
  Overwrite.putAll (rowWrites host) snapshot.rows table

/-- **A key that some row covers** is mapped to the inode of such a row. -/
theorem refreshed_of_covered {snapshot : KernelSnapshot} {key : CStr}
    (h : ∃ row ∈ snapshot.rows, Covers host row key) (table : ConninodeTable) :
    ∃ row ∈ snapshot.rows, Covers host row key ∧
      refreshed host snapshot table key = some row.inodeWord := by
  obtain ⟨row, hrow, hcovers⟩ := h
  obtain ⟨row', hrow', inode, hw, heq⟩ := Overwrite.putAll_of_some
    ⟨row, hrow, _, (rowWrites_some host).2 ⟨hcovers, rfl⟩⟩ table
  obtain ⟨hcovers', rfl⟩ := (rowWrites_some host).1 hw
  exact ⟨row', hrow', hcovers', heq⟩

/-- **A key that no row covers** keeps its mapping. -/
theorem refreshed_of_not_covered {snapshot : KernelSnapshot} {key : CStr}
    (h : ∀ row ∈ snapshot.rows, ¬ Covers host row key) (table : ConninodeTable) :
    refreshed host snapshot table key = table key := by
  refine Overwrite.putAll_of_none ?_ table
  intro row hrow
  exact if_neg (h row hrow)

end NetworkAnalyzer
