/-
The inode–program table (`na-inodeproc.c`).

The table maps the inode of a socket to the program that holds it open.  It is filled from the
directories of `/proc`: for every directory named by a number, the links of its `fd` directory
that read `socket:[inode]`.  A look-up that misses refreshes the table and tries again; entries
are overwritten and never removed.

* `NetworkAnalyzer.ProcDirent` — what the analyzer can see of a directory of `/proc`;
* `naInodeprocTableRefresh`, `naInodeprocTableFindPid` — the functions of the file;
* `NetworkAnalyzer.Holds` — a directory lists a link to the socket of an inode;
* `refresh_eq_putAll` — a refresh overwrites, in the sense of `GnomeUsage/Overwrite.lean`;
* `refresh_of_holds`, `refresh_of_not_holds` — **after a refresh, an inode held by some program
  is mapped to a program that holds it, and the others are as before**.
-/

import GnomeUsage.Overwrite
import GnomeUsage.Packet

set_option relaxedAutoImplicit false
set_option autoImplicit false

namespace NetworkAnalyzer

structure NAProgram where
  inode : BitVec 64
  pid : ℤ
  name : Option CStr
  deriving DecidableEq

/-- An entry of a directory `/proc/<pid>/fd`. -/
structure FdDirent where
  /-- `d_type == DT_LNK`. -/
  isLink : Bool
  /-- What `g_file_read_link` returns, `none` standing for `NULL`. -/
  link : Option CStr
  deriving DecidableEq

/-- An entry of `/proc`, with what can be read through it. -/
structure ProcDirent where
  /-- `d_type == DT_DIR`. -/
  isDir : Bool
  d_name : CStr
  /-- The entries of its `fd` directory, `none` if that cannot be opened. -/
  fd : Option (List FdDirent)
  /-- The command line, `none` if it cannot be read. -/
  cmdline : Option CStr
  /-- The owner reported by `stat`, `none` if that fails. -/
  st_uid : Option ℕ
  deriving DecidableEq

/-- The hash table, as the mapping it represents. -/
abbrev InodeprocTable := BitVec 64 → Option NAProgram

/-- `is_number`. -/
def isNumber (string : CStr) : Bool := string.all Char.isDigit

/-- `getprogname`. -/
def getprogname (dirent : ProcDirent) : Option CStr := dirent.cmdline

/-- The text `socket:[`. -/
def socketMark : CStr := ['s', 'o', 'c', 'k', 'e', 't', ':', '[']

/-- The inode of a link that reads `socket:[inode]`. -/
def socketInode (linkname : CStr) : Option (BitVec 64) :=
  if linkname.take 8 = socketMark then some (CText.strtoul (linkname.drop 8)) else none

/-- The process id a directory is named by, an `int`. -/
def direntPid (dirent : ProcDirent) : ℤ := (CText.strtol dirent.d_name).bmod (2 ^ 32)

/-- The record `get_info_by_linkname` allocates. -/
def programOf (dirent : ProcDirent) (inode : BitVec 64) : NAProgram where
  inode := inode
  pid := direntPid dirent
  name := getprogname dirent

/-- `get_info_by_linkname`. -/
def getInfoByLinkname (table : InodeprocTable) (dirent : ProcDirent) (linkname : CStr) :
    InodeprocTable :=
  match socketInode linkname with
  | some inode => Function.update table inode (some (programOf dirent inode))
  | none => table

/-- The links `get_info_for_pid` looks at. -/
def fdLinks (dirent : ProcDirent) : List CStr :=
  match dirent.fd with
  | none => []
  | some entries => (entries.filter FdDirent.isLink).filterMap FdDirent.link

/-- `get_info_for_pid`. -/
def getInfoForPid (table : InodeprocTable) (dirent : ProcDirent) : InodeprocTable :=
  (fdLinks dirent).foldl (fun table linkname => getInfoByLinkname table dirent linkname) table

/-- `na_inodeproc_table_refresh`. -/
def naInodeprocTableRefresh (proc : List ProcDirent) (table : InodeprocTable) : InodeprocTable :=
  proc.foldl (fun table dirent =>
    if dirent.isDir && isNumber dirent.d_name then getInfoForPid table dirent else table) table

/-- `na_inodeproc_table_find_pid`: the program, and the table after the look-up. -/
def naInodeprocTableFindPid (proc : List ProcDirent) (table : InodeprocTable)
    (inode : BitVec 64) : Option NAProgram × InodeprocTable :=
  match table inode with
  | some node => (some node, table)
  | none =>
      let table := naInodeprocTableRefresh proc table
      (table inode, table)

/-! ### What a refresh records -/

/-- What a directory writes for an inode: the program, if one of its links reads
`socket:[inode]`. -/
def direntWrites (dirent : ProcDirent) (inode : BitVec 64) : Option NAProgram :=
  if dirent.isDir && isNumber dirent.d_name &&
      (fdLinks dirent).any (fun linkname => socketInode linkname == some inode) then
    some (programOf dirent inode)
  else none

/-- The directory is that of a process with a descriptor for the socket of `inode`. -/
def Holds (dirent : ProcDirent) (inode : BitVec 64) : Prop :=
  dirent.isDir = true ∧ isNumber dirent.d_name = true ∧
    ∃ linkname ∈ fdLinks dirent, socketInode linkname = some inode

theorem direntWrites_some {dirent : ProcDirent} {inode : BitVec 64} {node : NAProgram} :
    direntWrites dirent inode = some node ↔ Holds dirent inode ∧ node = programOf dirent inode := by
  simp only [direntWrites, Holds, Option.ite_none_right_eq_some, Bool.and_eq_true, List.any_eq_true,
    beq_iff_eq, Option.some_inj, and_assoc]
  constructor
  · rintro ⟨hdir, hnum, hlink, rfl⟩
    exact ⟨hdir, hnum, hlink, rfl⟩
  · rintro ⟨hdir, hnum, hlink, rfl⟩
    exact ⟨hdir, hnum, hlink, rfl⟩

/-- The walk over the links of one directory. -/
theorem getInfoByLinkname_foldl (dirent : ProcDirent) (links : List CStr)
    (table : InodeprocTable) (inode : BitVec 64) :
    links.foldl (fun table linkname => getInfoByLinkname table dirent linkname) table inode =
      if links.any (fun linkname => socketInode linkname == some inode) then
        some (programOf dirent inode)
      else table inode := by
  induction links generalizing table with
  | nil => rfl
  | cons linkname links ih =>
      rw [List.foldl_cons, ih, List.any_cons]
      cases hany : links.any fun linkname => socketInode linkname == some inode with
      | true => simp
      | false =>
          cases hsock : socketInode linkname with
          | none => simp [getInfoByLinkname, hsock]
          | some i =>
              by_cases hi : inode = i
              · simp [getInfoByLinkname, hsock, hi]
              · have hi' : ¬ i = inode := fun h => hi h.symm
                simp [getInfoByLinkname, hsock, hi, hi']

/-- **A refresh overwrites** what the directories write. -/
theorem refresh_eq_putAll (proc : List ProcDirent) (table : InodeprocTable) :
    naInodeprocTableRefresh proc table = Overwrite.putAll direntWrites proc table := by
  unfold naInodeprocTableRefresh Overwrite.putAll
  congr 1
  funext table dirent inode
  cases hdir : dirent.isDir && isNumber dirent.d_name with
  | false => simp [Overwrite.put, direntWrites, hdir]
  | true =>
      rw [if_pos rfl, getInfoForPid, getInfoByLinkname_foldl]
      cases hany : (fdLinks dirent).any fun linkname => socketInode linkname == some inode with
      | false => simp [Overwrite.put, direntWrites, hdir, hany]
      | true => simp [Overwrite.put, direntWrites, hdir, hany]

/-- **An inode nobody holds keeps its mapping.** -/
theorem refresh_of_not_holds {proc : List ProcDirent} {inode : BitVec 64}
    (h : ∀ dirent ∈ proc, ¬ Holds dirent inode) (table : InodeprocTable) :
    naInodeprocTableRefresh proc table inode = table inode := by
  rw [refresh_eq_putAll]
  refine Overwrite.putAll_of_none ?_ table
  intro dirent hd
  cases hw : direntWrites dirent inode with
  | none => rfl
  | some node => exact absurd (direntWrites_some.1 hw).1 (h dirent hd)

/-- **An inode somebody holds is mapped to a program that holds it.** -/
theorem refresh_of_holds {proc : List ProcDirent} {inode : BitVec 64}
    (h : ∃ dirent ∈ proc, Holds dirent inode) (table : InodeprocTable) :
    ∃ dirent ∈ proc, Holds dirent inode ∧
      naInodeprocTableRefresh proc table inode = some (programOf dirent inode) := by
  obtain ⟨dirent, hd, hholds⟩ := h
  rw [refresh_eq_putAll]
  obtain ⟨dirent', hd', node, hw, heq⟩ := Overwrite.putAll_of_some
    ⟨dirent, hd, _, direntWrites_some.2 ⟨hholds, rfl⟩⟩ table
  obtain ⟨hholds', rfl⟩ := direntWrites_some.1 hw
  exact ⟨dirent', hd', hholds', heq⟩

end NetworkAnalyzer
