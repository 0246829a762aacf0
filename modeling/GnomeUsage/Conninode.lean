/-
The connection–inode table (`na-conninode.c`).

The table maps the key text of a connection to the inode of its socket.  It is filled from the
tables of the kernel, a row at a time; a row is inserted under its own key and once more under
the key of every local address.  Entries are overwritten and never removed.

* `rowFormat`, `addtoconninode` — the scan of a row and what is inserted for it;
* `addprocinfo`, `naConninodeTableRefresh` — the loop over the rows of a file, and the four files;
* `rowKeys`, `insertAll_apply` — **the keys a row is inserted under**, and the table after that.
-/

import GnomeUsage.CStream
import GnomeUsage.Inodeproc

set_option relaxedAutoImplicit false
set_option autoImplicit false

namespace NetworkAnalyzer

open CText (Directive)

/-- The hash table, as the mapping it represents. -/
abbrev ConninodeTable := CStr → Option (BitVec 64)

/-- What the analyzer reads of `/proc`: the four tables of the kernel, `none` for a file that
cannot be opened, and the directories of the processes. -/
structure ProcSnapshot where
  tcp : Option CStream
  tcp6 : Option CStream
  udp : Option CStream
  udp6 : Option CStream
  proc : List ProcDirent

/-! ### A row -/

/-- The format `"%*d: %64[0-9A-Fa-f]:%X %64[0-9A-Fa-f]:%X %*X %*X:%*X %*X:%*X %*X %*d %*d %ld
%*512s\n"`. -/
def rowFormat : List Directive :=
  [.dec false, .lit ':', .space,
    .set 64 CText.isHex, .lit ':', .hex none true, .space,
    .set 64 CText.isHex, .lit ':', .hex none true, .space,
    .hex none false, .space,
    .hex none false, .lit ':', .hex none false, .space,
    .hex none false, .lit ':', .hex none false, .space,
    .hex none false, .space,
    .dec false, .space, .dec false, .space, .dec true, .space, .word 512, .space]

/-- The format `"%08X%08X%08X%08X"`. -/
def in6Format : List Directive :=
  [.hex (some 8) true, .hex (some 8) true, .hex (some 8) true, .hex (some 8) true]

/-- The four words of an IPv6-style address, if all of them are assigned. -/
def scanIn6Addr (text : CStr) : Option In6Addr :=
  match CText.scan in6Format text with
  | [.uint a, .uint b, .uint c, .uint d] => some ⟨a, b, c, d⟩
  | _ => none

/-- The word of an IPv4-style address. -/
def scanInAddr (text : CStr) : Option InAddr :=
  match CText.scan [.hex none true] text with
  | [.uint a] => some ⟨a⟩
  | _ => none

/-- The test for an address of the form `::ffff:a.b.c.d`. -/
def isMapped (addr : In6Addr) : Bool :=
  addr.s6_addr32_0 == 0 && addr.s6_addr32_1 == 0 && addr.s6_addr32_2 == 0xFFFF0000

variable (host : Host)

/-- The texts of the two addresses of a row; `none` if a word of them was never assigned. -/
def rowTexts (local_addr rem_addr : CStr) : Option (CStr × CStr) :=
  if local_addr.length > 8 then do
    -- an IPv6-style row
    let in6_local ← scanIn6Addr local_addr
    let in6_remote ← scanIn6Addr rem_addr
    if isMapped in6_local then
      some (host.inetNtop ⟨in6_local.s6_addr32_3⟩, host.inetNtop ⟨in6_remote.s6_addr32_3⟩)
    else some (host.inetNtop6 in6_local, host.inetNtop6 in6_remote)
  else do
    -- an IPv4-style row
    let result_addr_local ← scanInAddr local_addr
    let result_addr_remote ← scanInAddr rem_addr
    some (host.inetNtop result_addr_local, host.inetNtop result_addr_remote)

/-- The keys of a row, in the order they are inserted: its own, and one for every local
address. -/
def rowKeys (local_string : CStr) (local_port : ℤ) (remote_string : CStr) (rem_port : ℤ) :
    List CStr :=
  printKey local_string local_port remote_string rem_port ::
    host.localAddresses.map fun a => printKey a local_port remote_string rem_port

/-- The insertions of one inode. -/
def insertAll (inode : BitVec 64) (keys : List CStr) (table : ConninodeTable) : ConninodeTable :=
  keys.foldl (fun table hashkey => Function.update table hashkey (some inode)) table

/-- `addtoconninode`. -/
def addtoconninode (table : ConninodeTable) (buffer : CStr) : Option ConninodeTable :=
  match CText.scan rowFormat buffer with
  | [.str local_addr, .uint local_port, .str rem_addr, .uint rem_port, .long inode] =>
      -- a row in TIME_WAIT state has inode 0
      if BitVec.ofInt 64 inode = 0 then some table
      else do
        let (local_string, remote_string) ← rowTexts host local_addr rem_addr
        some (insertAll (BitVec.ofInt 64 inode)
          (rowKeys host local_string local_port.toInt remote_string rem_port.toInt) table)
  | _ => some table

/-! ### The files -/

/-- The loop of `addprocinfo`; `none` when it takes more than `fuel` rounds. -/
def readRows : ℕ → CStream → ConninodeTable → Option ConninodeTable
  | 0, _, _ => none
  | fuel + 1, procinfo, table => do
      let (buffer, procinfo) := CStream.fgets 8192 procinfo
      let table ← match buffer with
        | some buffer => addtoconninode host table buffer
        | none => some table
      if procinfo.eof then some table else readRows fuel procinfo table

/-- `addprocinfo`. -/
def addprocinfo (table : ConninodeTable) (file : Option CStream) : Option ConninodeTable :=
  match file with
  | none => some table
  | some procinfo =>
      -- the header line is discarded
      let procinfo := (CStream.fgets 8192 procinfo).2
      readRows host (procinfo.rest.length + 1) procinfo table

/-- `na_conninode_table_refresh`. -/
def naConninodeTableRefresh (snapshot : ProcSnapshot) (table : ConninodeTable) :
    Option ConninodeTable := do
  let table ← addprocinfo host table snapshot.tcp
  let table ← addprocinfo host table snapshot.tcp6
  let table ← addprocinfo host table snapshot.udp
  addprocinfo host table snapshot.udp6

/-! ### Insertion -/

/-- **The table after the insertions of a row.** -/
theorem insertAll_apply (inode : BitVec 64) (keys : List CStr) (table : ConninodeTable)
    (key : CStr) :
    insertAll inode keys table key = if key ∈ keys then some inode else table key := by
  unfold insertAll
  induction keys generalizing table with
  | nil => simp
  | cons k keys ih =>
      rw [List.foldl_cons, ih]
      by_cases hmem : key ∈ keys
      · simp [hmem]
      · by_cases hk : key = k
        · simp [hk]
        · simp [hmem, hk]

end NetworkAnalyzer
