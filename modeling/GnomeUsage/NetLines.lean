/-
The lines of the files in `/proc/net`.

The files are read line by line, and a line may be anything: the row of a live socket, that of a
socket in TIME_WAIT, whose inode is 0, or a text the scan does not get through.  Each line
overwrites the keys it covers and leaves all others as they are (`GnomeUsage/Overwrite.lean`).

* `readRows_lines`, `addprocinfo_lines` — **reading a file line by line**, whatever its lines are
  as long as each of them overwrites;
* `scanRow`, `NetLine`, `NetLine.Covers` — what the scan of a line assigns; a line of a file; the
  keys it covers and the inode it gives them;
* `addtoconninode_line` — **what the analyzer inserts for a line**;
* `NetFile`, `ProcFiles` — a file, and the four files at a refresh;
* `naConninodeTableRefresh_lines` — **a refresh overwrites** what the lines of the four files write,
  in the order they are read.
-/

import GnomeUsage.Keys

set_option relaxedAutoImplicit false
set_option autoImplicit false

namespace NetworkAnalyzer

/-! ### Reading lines -/

section Lines

variable {α : Type*} {host : Host} {text : α → CStr} {write : α → CStr → Option (BitVec 64)}

/-- The loop over the lines of a file, each of which overwrites some keys. -/
theorem readRows_lines (hline : ∀ x, CStream.IsLine 8192 (text x))
    (hadd : ∀ table x, addtoconninode host table (text x) = some (Overwrite.put write table x))
    {lines : List α} {fuel : ℕ} (h : lines.length < fuel) (table : ConninodeTable) :
    readRows host fuel (CStream.ofText (lines.flatMap text)) table =
      some (Overwrite.putAll write lines table) := by
  obtain ⟨fuel, rfl⟩ := Nat.exists_eq_succ_of_ne_zero (by omega : fuel ≠ 0)
  induction lines generalizing fuel table with
  | nil =>
      rw [List.flatMap_nil, CStream.ofText, CStream.chars_nil, readRows,
        CStream.fgets_end (by decide)]
      rfl
  | cons x lines ih =>
      rw [List.flatMap_cons, CStream.ofText, CStream.chars_append, readRows,
        CStream.fgets_line (hline x)]
      simp only [hadd, Option.bind_eq_bind, Option.bind_some]
      obtain ⟨fuel, rfl⟩ := Nat.exists_eq_succ_of_ne_zero
        (by simp only [List.length_cons] at h; omega : fuel ≠ 0)
      exact ih (Overwrite.put write table x) fuel (by simpa using h)

theorem length_le_flatMap (hline : ∀ x, CStream.IsLine 8192 (text x)) (lines : List α) :
    lines.length ≤ (lines.flatMap text).length := by
  induction lines with
  | nil => exact le_rfl
  | cons x lines ih =>
      obtain ⟨body, hbody, _⟩ := (hline x).body
      have hne : 0 < (text x).length := by simp [hbody]
      rw [List.flatMap_cons, List.length_append, List.length_cons]
      omega

/-- **Reading a file of lines**: the header line is discarded, and there is fuel enough. -/
theorem addprocinfo_lines (hline : ∀ x, CStream.IsLine 8192 (text x))
    (hadd : ∀ table x, addtoconninode host table (text x) = some (Overwrite.put write table x))
    {header : CStr} (hheader : CStream.IsLine 8192 header) (lines : List α)
    (table : ConninodeTable) :
    addprocinfo host table (some (CStream.ofText (header ++ lines.flatMap text))) =
      some (Overwrite.putAll write lines table) := by
  rw [addprocinfo, CStream.ofText, CStream.chars_append, CStream.fgets_line hheader]
  refine readRows_lines hline hadd (Nat.lt_succ_of_le ?_) table
  rw [CStream.length_chars]
  exact length_le_flatMap hline lines

end Lines

/-! ### Lines -/

/-- What the scan of a row assigns. -/
structure ScannedRow where
  local_addr : CStr
  local_port : BitVec 32
  rem_addr : CStr
  rem_port : BitVec 32
  inode : ℤ

/-- The scan of a line, `none` unless it assigns five values. -/
def scanRow (buffer : CStr) : Option ScannedRow :=
  match CText.scan rowFormat buffer with
  | [.str local_addr, .uint local_port, .str rem_addr, .uint rem_port, .long inode] =>
      some ⟨local_addr, local_port, rem_addr, rem_port, inode⟩
  | _ => none

/-- The inode, as a `gulong`. -/
def ScannedRow.inodeWord (row : ScannedRow) : BitVec 64 := BitVec.ofInt 64 row.inode

/-- The scans of the two addresses assign all their words. -/
def ScannedRow.Assigned (row : ScannedRow) : Prop :=
  if row.local_addr.length > 8 then
    (scanIn6Addr row.local_addr).isSome ∧ (scanIn6Addr row.rem_addr).isSome
  else (scanInAddr row.local_addr).isSome ∧ (scanInAddr row.rem_addr).isSome

/-- **A line of a file**: any text that is read as one line, unless the program would use words of
an address it never assigned. -/
structure NetLine where
  text : CStr
  isLine : CStream.IsLine 8192 text
  assigned : ∀ row, scanRow text = some row → row.inodeWord ≠ 0 → row.Assigned

variable (host : Host)

/-- The line covers the key, and gives it the inode: the line parses, its inode is not 0, and the
key is its own or that of a local address in place of its own. -/
def NetLine.Covers (line : NetLine) (key : CStr) (inode : BitVec 64) : Prop :=
  ∃ row, scanRow line.text = some row ∧ row.inodeWord ≠ 0 ∧ row.inodeWord = inode ∧
    ∃ local_string remote_string,
      rowTexts host row.local_addr row.rem_addr = some (local_string, remote_string) ∧
        (key = printKey local_string row.local_port.toInt remote_string row.rem_port.toInt ∨
          ∃ a ∈ host.localAddresses,
            key = printKey a row.local_port.toInt remote_string row.rem_port.toInt)

/-- What a line writes for a key. -/
def lineWrites (line : NetLine) (key : CStr) : Option (BitVec 64) := do
  let row ← scanRow line.text
  let (local_string, remote_string) ← rowTexts host row.local_addr row.rem_addr
  if row.inodeWord ≠ 0 ∧
      key ∈ rowKeys host local_string row.local_port.toInt remote_string row.rem_port.toInt then
    some row.inodeWord
  else none

theorem mem_rowKeys {local_string remote_string key : CStr} {local_port rem_port : ℤ} :
    key ∈ rowKeys host local_string local_port remote_string rem_port ↔
      key = printKey local_string local_port remote_string rem_port ∨
        ∃ a ∈ host.localAddresses, key = printKey a local_port remote_string rem_port := by
  simp only [rowKeys, List.mem_cons, List.mem_map, eq_comm]

theorem lineWrites_some {line : NetLine} {key : CStr} {inode : BitVec 64} :
    lineWrites host line key = some inode ↔ line.Covers host key inode := by
  constructor
  · intro h
    obtain ⟨row, hrow, h⟩ := Option.bind_eq_some_iff.1 h
    obtain ⟨⟨local_string, remote_string⟩, htexts, h⟩ := Option.bind_eq_some_iff.1 h
    obtain ⟨⟨hinode, hkey⟩, h⟩ := Option.ite_none_right_eq_some.1 h
    exact ⟨row, hrow, hinode, Option.some_inj.1 h, _, _, htexts, (mem_rowKeys host).1 hkey⟩
  · rintro ⟨row, hrow, hinode, rfl, local_string, remote_string, htexts, hkey⟩
    exact Option.bind_eq_some_iff.2 ⟨row, hrow, Option.bind_eq_some_iff.2
      ⟨_, htexts, if_pos ⟨hinode, (mem_rowKeys host).2 hkey⟩⟩⟩

/-- A line that does not parse, or whose inode is 0, leaves the table as it is. -/
theorem addtoconninode_skip {buffer : CStr}
    (h : ∀ row, scanRow buffer = some row → row.inodeWord = 0) (table : ConninodeTable) :
    addtoconninode host table buffer = some table := by
  unfold addtoconninode
  split
  · rename_i hscan
    have hrow := h _ (by rw [scanRow, hscan])
    exact if_pos hrow
  · rfl

/-- A line that parses, with an inode that is not 0, is inserted under all its keys. -/
theorem addtoconninode_insert {buffer : CStr} {row : ScannedRow} (hrow : scanRow buffer = some row)
    (hinode : row.inodeWord ≠ 0) {local_string remote_string : CStr}
    (htexts : rowTexts host row.local_addr row.rem_addr = some (local_string, remote_string))
    (table : ConninodeTable) :
    addtoconninode host table buffer = some (insertAll row.inodeWord
      (rowKeys host local_string row.local_port.toInt remote_string row.rem_port.toInt) table) := by
  unfold scanRow at hrow
  split at hrow
  · rename_i hscan
    obtain rfl := Option.some_inj.1 hrow
    simp only [addtoconninode, hscan, htexts, Option.bind_eq_bind, Option.bind_some]
    exact if_neg hinode
  · cases hrow

/-- The texts of the addresses, when all words are assigned. -/
theorem rowTexts_assigned {row : ScannedRow} (h : row.Assigned) :
    ∃ local_string remote_string,
      rowTexts host row.local_addr row.rem_addr = some (local_string, remote_string) := by
  unfold ScannedRow.Assigned at h
  unfold rowTexts
  split at h
  · rename_i hlen
    obtain ⟨a, ha⟩ := Option.isSome_iff_exists.1 h.1
    obtain ⟨b, hb⟩ := Option.isSome_iff_exists.1 h.2
    simp only [if_pos hlen, ha, hb, Option.bind_eq_bind, Option.bind_some]
    by_cases hmapped : isMapped a = true
    · exact ⟨_, _, if_pos hmapped⟩
    · exact ⟨_, _, if_neg hmapped⟩
  · rename_i hlen
    obtain ⟨a, ha⟩ := Option.isSome_iff_exists.1 h.1
    obtain ⟨b, hb⟩ := Option.isSome_iff_exists.1 h.2
    simp only [if_neg hlen, ha, hb, Option.bind_eq_bind, Option.bind_some]
    exact ⟨_, _, rfl⟩

/-- **What the analyzer inserts for a line.** -/
theorem addtoconninode_line (table : ConninodeTable) (line : NetLine) :
    addtoconninode host table line.text = some (Overwrite.put (lineWrites host) table line) := by
  by_cases hskip : ∀ row, scanRow line.text = some row → row.inodeWord = 0
  · rw [addtoconninode_skip host hskip]
    congr 1
    funext key
    have hnone : lineWrites host line key = none := by
      cases hw : lineWrites host line key with
      | none => rfl
      | some inode =>
          obtain ⟨row, hrow, hinode, _⟩ := (lineWrites_some host).1 hw
          exact absurd (hskip row hrow) hinode
    rw [Overwrite.put, hnone, Option.none_or]
  · obtain ⟨row, h⟩ := not_forall.1 hskip
    obtain ⟨hrow, hinode⟩ := Classical.not_imp.1 h
    obtain ⟨local_string, remote_string, htexts⟩ :=
      rowTexts_assigned host (line.assigned row hrow hinode)
    rw [addtoconninode_insert host hrow hinode htexts]
    congr 1
    funext key
    simp only [insertAll_apply, Overwrite.put, lineWrites, hrow, htexts, Option.bind_eq_bind,
      Option.bind_some, ne_eq, hinode, not_false_eq_true, true_and]
    split
    · rfl
    · rfl

/-! ### Files -/

/-- A file: a header line and lines. -/
structure NetFile where
  header : CStr
  lines : List NetLine
  header_line : CStream.IsLine 8192 header

/-- The file, just opened. -/
def NetFile.stream (file : NetFile) : CStream :=
  CStream.ofText (file.header ++ file.lines.flatMap NetLine.text)

/-- The four files at a refresh, of which some may be missing, and the rest of `/proc`. -/
structure ProcFiles where
  tcp : Option NetFile
  tcp6 : Option NetFile
  udp : Option NetFile
  udp6 : Option NetFile
  proc : List ProcDirent

def ProcFiles.toProc (files : ProcFiles) : ProcSnapshot where
  tcp := files.tcp.map NetFile.stream
  tcp6 := files.tcp6.map NetFile.stream
  udp := files.udp.map NetFile.stream
  udp6 := files.udp6.map NetFile.stream
  proc := files.proc

/-- The lines of a file, none if it is missing. -/
def linesOf (file : Option NetFile) : List NetLine := file.elim [] NetFile.lines

/-- All lines of a refresh, in the order they are read. -/
def ProcFiles.lines (files : ProcFiles) : List NetLine :=
  linesOf files.tcp ++ (linesOf files.tcp6 ++ (linesOf files.udp ++ linesOf files.udp6))

theorem addprocinfo_file (file : Option NetFile) (table : ConninodeTable) :
    addprocinfo host table (file.map NetFile.stream) =
      some (Overwrite.putAll (lineWrites host) (linesOf file) table) := by
  cases file with
  | none => rfl
  | some file =>
      exact addprocinfo_lines NetLine.isLine (addtoconninode_line host) file.header_line file.lines
        table

/-- **A refresh overwrites** what its lines write. -/
theorem naConninodeTableRefresh_lines (files : ProcFiles) (table : ConninodeTable) :
    naConninodeTableRefresh host files.toProc table =
      some (Overwrite.putAll (lineWrites host) files.lines table) := by
  simp only [naConninodeTableRefresh, ProcFiles.toProc, addprocinfo_file, Option.bind_eq_bind,
    Option.bind_some, ProcFiles.lines, Overwrite.putAll_append]

end NetworkAnalyzer
