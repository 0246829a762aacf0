/-
The rows of the network view (`usage-network-view.vala`).

The view builds its rows from the report of the analyzer: a header, a row for every process, one for
the traffic of unknown processes, and the totals.  A list box sorts them by ids, where those of the
processes are computed from their traffic and the others are constants, and the comparison
subtracts.

* `tokbps`, `doRefresh` — the report as it is sent;
* `NetworkListRow`, `usageRows` — a row, and the handler of `usage_changed`, in any arithmetic;
* `usageRows_eq` — **the rows that are built**, and the sums behind the last two;
* `row_range` — no two ids are further apart than an `int`;
* `Layout` — the rows from top to bottom;
* `network_list_layout` — **the comparison orders all rows**, and whatever it sorts is laid out so.

The layout is that of exact rates, without roundings.
-/

import GnomeUsage.DifferenceOrder
import GnomeUsage.Doubles
import GnomeUsage.Process
import Mathlib.Tactic.Linarith

set_option relaxedAutoImplicit false
set_option autoImplicit false

namespace Usage

open NetworkAnalyzer (NAProcInfo CStr)
open DifferenceOrder (IsInt difference Arranges Before)

/-! ### The report -/

/-- `tokbps`. -/
def tokbps (A : Arithmetic) (bytes : BitVec 32) : ℚ :=
  A.float (A.double (A.double (A.double bytes.toNat / NetworkAnalyzer.PERIOD) / 1024))

structure ProcessInfo where
  name : Option CStr
  pid : ℤ
  received : ℚ
  sent : ℚ

/-- The entries that `do_refresh` sends. -/
def doRefresh (A : Arithmetic) (proc_info : List NAProcInfo) : List ProcessInfo :=
  proc_info.map fun info => ⟨info.name, info.pid, tokbps A info.recv, tokbps A info.sent⟩

/-! ### The rows -/

/-- The text of a label: a text of its own, or an amount with two decimals, in bold or not. -/
inductive Cell where
  | text (markup : String)
  | amount (value : ℚ)
  | bold (value : ℚ)

structure NetworkListRow where
  name : Option CStr
  received : Cell
  sent : Cell
  sort_id : ℤ

/-- `(int) value`, undefined when the value is not in the range of an `int`. -/
def castInt (value : ℚ) : Option ℤ :=
  let truncated := if 0 ≤ value then ⌊value⌋ else ⌈value⌉
  if IsInt truncated then some truncated else none

/-- A conversion that is defined. -/
theorem castInt_of_mem {value : ℚ} {hi : ℤ} (hhi : hi < 2 ^ 31) (h₀ : 0 ≤ value)
    (h₁ : value ≤ hi) : castInt value = some ⌊value⌋ ∧ 0 ≤ ⌊value⌋ ∧ ⌊value⌋ ≤ hi := by
  have hlo : 0 ≤ ⌊value⌋ := Int.floor_nonneg.2 h₀
  have hle : ⌊value⌋ ≤ hi := by
    have hle := (Int.floor_le value).trans h₁
    exact_mod_cast hle
  refine ⟨?_, hlo, hle⟩
  rw [castInt, if_pos h₀, if_pos]
  exact ⟨by omega, by omega⟩

def headerRow : NetworkListRow :=
  ⟨some "".toList, .text "<b>Received (kb/s)</b>", .text "<b>Sent (kb/s)</b>", 2 ^ 31 - 1 - 2⟩

def processRow (info : ProcessInfo) (sort_id : ℤ) : NetworkListRow :=
  ⟨info.name, .amount info.received, .amount info.sent, sort_id⟩

def unknownRow (unknown_received unknown_sent : ℚ) : NetworkListRow :=
  ⟨some "Unknown traffic".toList, .amount unknown_received, .amount unknown_sent, -1⟩

def totalRow (total_received total_sent : ℚ) : NetworkListRow :=
  ⟨some "<b>Total</b>".toList, .bold total_received, .bold total_sent, -2⟩

/-- The variables of the loop, and the rows that have been added. -/
structure UsageSums where
  total_received : ℚ
  total_sent : ℚ
  unknown_received : ℚ
  unknown_sent : ℚ
  list_box : List NetworkListRow

/-- One entry of the report. -/
def UsageSums.add (A : Arithmetic) (s : UsageSums) (info : ProcessInfo) : Option UsageSums :=
  let s := { s with
    total_received := A.double (s.total_received + info.received)
    total_sent := A.double (s.total_sent + info.sent) }
  if info.pid = 0 then
    some { s with
      unknown_received := A.double (s.unknown_received + info.received)
      unknown_sent := A.double (s.unknown_sent + info.sent) }
  else
    (castInt (A.double (info.received * 100))).map fun sort_id =>
      { s with list_box := s.list_box ++ [processRow info sort_id] }

/-- The handler of `usage_changed` from the header on, up to the end of its loop. -/
def usageSums (A : Arithmetic) (proc_info : List ProcessInfo) : Option UsageSums :=
  proc_info.foldlM (UsageSums.add A) ⟨0, 0, 0, 0, [headerRow]⟩

/-- The rows that have been added in the end. -/
def UsageSums.rows (s : UsageSums) : List NetworkListRow :=
  s.list_box ++
    ((if s.unknown_received > 0 ∨ s.unknown_sent > 0 then
      [unknownRow s.unknown_received s.unknown_sent] else []) ++
    [totalRow s.total_received s.total_sent])

/-- The rows that the handler of `usage_changed` adds. -/
def usageRows (A : Arithmetic) (proc_info : List ProcessInfo) : Option (List NetworkListRow) :=
  (usageSums A proc_info).map UsageSums.rows

/-! ### What is built -/

/-- The entries of processes that are known. -/
def knownInfo (proc_info : List ProcessInfo) : List ProcessInfo :=
  proc_info.filter fun info => ¬ info.pid = 0

/-- The entries of unknown processes. -/
def unknownInfo (proc_info : List ProcessInfo) : List ProcessInfo :=
  proc_info.filter fun info => info.pid = 0

/-- The id of an entry, where it has one. -/
def entryId (info : ProcessInfo) : ℤ := (castInt (info.received * 100)).getD 0

/-- The sum of an amount over some entries. -/
def sumOf (amount : ProcessInfo → ℚ) (proc_info : List ProcessInfo) : ℚ :=
  (proc_info.map amount).sum

theorem tokbps_exact (bytes : BitVec 32) :
    tokbps .exact bytes = bytes.toNat / NetworkAnalyzer.PERIOD / 1024 := rfl

theorem tokbps_nonneg (bytes : BitVec 32) : 0 ≤ tokbps .exact bytes := by
  rw [tokbps_exact]
  unfold NetworkAnalyzer.PERIOD
  positivity

theorem tokbps_lt (bytes : BitVec 32) : tokbps .exact bytes * 100 < 83886080 := by
  have hlt : (bytes.toNat : ℚ) < 4294967296 := by exact_mod_cast bytes.isLt
  rw [tokbps_exact]
  unfold NetworkAnalyzer.PERIOD
  push_cast
  linarith

/-- **The id of an entry of a report** is defined. -/
theorem castInt_tokbps (bytes : BitVec 32) :
    ∃ sort_id, castInt (tokbps .exact bytes * 100) = some sort_id ∧ 0 ≤ sort_id ∧
      sort_id ≤ 83886079 := by
  have hnonneg : 0 ≤ tokbps .exact bytes * 100 := by
    have h := tokbps_nonneg bytes
    positivity
  have hfloor : 0 ≤ ⌊tokbps .exact bytes * 100⌋ := Int.floor_nonneg.2 hnonneg
  have hlt : ⌊tokbps .exact bytes * 100⌋ < 83886080 := by
    rw [Int.floor_lt]
    exact_mod_cast tokbps_lt bytes
  refine ⟨⌊tokbps .exact bytes * 100⌋, ?_, hfloor, by omega⟩
  rw [castInt, if_pos hnonneg, if_pos]
  exact ⟨by omega, by omega⟩

/-- The row of an entry. -/
def entryRow (info : ProcessInfo) : NetworkListRow := processRow info (entryId info)

/-- **The loop over the entries**, where all ids are defined. -/
theorem foldlM_add {proc_info : List ProcessInfo}
    (hids : ∀ info ∈ proc_info, ∃ sort_id, castInt (info.received * 100) = some sort_id)
    (s : UsageSums) :
    proc_info.foldlM (UsageSums.add .exact) s = some {
      total_received := s.total_received + sumOf ProcessInfo.received proc_info
      total_sent := s.total_sent + sumOf ProcessInfo.sent proc_info
      unknown_received :=
        s.unknown_received + sumOf ProcessInfo.received (unknownInfo proc_info)
      unknown_sent := s.unknown_sent + sumOf ProcessInfo.sent (unknownInfo proc_info)
      list_box := s.list_box ++ (knownInfo proc_info).map entryRow } := by
  induction proc_info generalizing s with
  | nil => simp [sumOf, unknownInfo, knownInfo]
  | cons info proc_info ih =>
      obtain ⟨hid, hids⟩ := List.forall_mem_cons.1 hids
      obtain ⟨sort_id, hid⟩ := hid
      have hentry : entryId info = sort_id := by rw [entryId, hid, Option.getD_some]
      by_cases hpid : info.pid = 0
      · simp [UsageSums.add, hpid, ih hids, sumOf, unknownInfo, knownInfo, add_assoc]
      · simp [UsageSums.add, hpid, hid, ih hids, sumOf, unknownInfo, knownInfo, add_assoc, entryRow,
          hentry]

/-- The row for unknown processes, if there is one. -/
def unknownRows (proc_info : List ProcessInfo) : List NetworkListRow :=
  if sumOf ProcessInfo.received (unknownInfo proc_info) > 0 ∨
      sumOf ProcessInfo.sent (unknownInfo proc_info) > 0 then
    [unknownRow (sumOf ProcessInfo.received (unknownInfo proc_info))
      (sumOf ProcessInfo.sent (unknownInfo proc_info))]
  else []

/-- **The rows that are built.** -/
theorem usageRows_eq {proc_info : List ProcessInfo}
    (hids : ∀ info ∈ proc_info, ∃ sort_id, castInt (info.received * 100) = some sort_id) :
    usageRows .exact proc_info = some ([headerRow] ++ ((knownInfo proc_info).map entryRow ++
      (unknownRows proc_info ++ [totalRow (sumOf ProcessInfo.received proc_info)
        (sumOf ProcessInfo.sent proc_info)]))) := by
  rw [usageRows, usageSums, foldlM_add hids]
  simp [UsageSums.rows, unknownRows]

/-- The ids of the entries of a report. -/
theorem entryId_doRefresh {report : List NAProcInfo} {info : ProcessInfo}
    (h : info ∈ doRefresh .exact report) :
    castInt (info.received * 100) = some (entryId info) ∧ 0 ≤ entryId info ∧
      entryId info ≤ 83886079 := by
  obtain ⟨entry, _, rfl⟩ := List.mem_map.1 h
  obtain ⟨sort_id, hid, hle, hge⟩ := castInt_tokbps entry.recv
  have hentry :
      entryId ⟨entry.name, entry.pid, tokbps .exact entry.recv, tokbps .exact entry.sent⟩ =
        sort_id := by
    rw [entryId, hid, Option.getD_some]
  rw [hentry]
  exact ⟨hid, hle, hge⟩

/-- The rows below the entries. -/
theorem sort_id_unknownRows {proc_info : List ProcessInfo} {row : NetworkListRow}
    (h : row ∈ unknownRows proc_info) : row.sort_id = -1 := by
  unfold unknownRows at h
  split at h
  · rw [List.mem_singleton.1 h]
    rfl
  · cases h

/-- The rows of the entries. -/
theorem sort_id_entries {report : List NAProcInfo} {row : NetworkListRow}
    (h : row ∈ (knownInfo (doRefresh .exact report)).map entryRow) :
    0 ≤ row.sort_id ∧ row.sort_id ≤ 83886079 := by
  obtain ⟨info, hinfo, rfl⟩ := List.mem_map.1 h
  exact (entryId_doRefresh (List.mem_of_mem_filter hinfo)).2

/-! ### The layout -/

/-- The amount a cell shows. -/
def Cell.value : Cell → ℚ
  | .text _ => 0
  | .amount value => value
  | .bold value => value

/-- **The layout**: the header, the entries of known processes in the order of their ids, the
unknown traffic, and the total, which is what the entries show with the unknown traffic. -/
def Layout (proc_info : List ProcessInfo) (shown : List NetworkListRow) : Prop :=
  ∃ entries,
    shown = headerRow :: (entries ++ (unknownRows proc_info ++ [totalRow
      ((entries.map fun row => row.received.value).sum +
        sumOf ProcessInfo.received (unknownInfo proc_info))
      ((entries.map fun row => row.sent.value).sum +
        sumOf ProcessInfo.sent (unknownInfo proc_info))])) ∧
    entries.Perm ((knownInfo proc_info).map entryRow) ∧
    entries.Pairwise (Before NetworkListRow.sort_id)

/-- **Every entry is counted once**: it has a row, or is one of an unknown process. -/
theorem known_append_unknown (proc_info : List ProcessInfo) :
    (knownInfo proc_info ++ unknownInfo proc_info).Perm proc_info := by
  refine List.perm_append_comm.trans ?_
  simpa [knownInfo, unknownInfo] using
    List.filter_append_perm (fun info : ProcessInfo => decide (info.pid = 0)) proc_info

theorem sumOf_known_add_unknown (amount : ProcessInfo → ℚ) (proc_info : List ProcessInfo) :
    sumOf amount (knownInfo proc_info) + sumOf amount (unknownInfo proc_info) =
      sumOf amount proc_info := by
  rw [sumOf, sumOf, sumOf, ← List.sum_append, ← List.map_append]
  exact ((known_append_unknown proc_info).map amount).sum_eq

/-- The sums over the rows of the entries. -/
theorem sum_entries {proc_info : List ProcessInfo} {entries : List NetworkListRow}
    (hperm : entries.Perm ((knownInfo proc_info).map entryRow)) :
    (entries.map fun row => row.received.value).sum =
        sumOf ProcessInfo.received (knownInfo proc_info) ∧
      (entries.map fun row => row.sent.value).sum =
        sumOf ProcessInfo.sent (knownInfo proc_info) := by
  rw [(hperm.map _).sum_eq, (hperm.map _).sum_eq, List.map_map, List.map_map]
  exact ⟨rfl, rfl⟩

theorem eq_unknownRows_of_perm {proc_info : List ProcessInfo} {rows : List NetworkListRow}
    (h : rows.Perm (unknownRows proc_info)) : rows = unknownRows proc_info := by
  unfold unknownRows at h ⊢
  split at h
  · next hpos => rw [if_pos hpos, List.perm_singleton.1 h]
  · next hpos => rw [if_neg hpos, h.eq_nil]

/-- The rows below the entries have negative ids. -/
theorem sort_id_below {proc_info : List ProcessInfo} {total row : NetworkListRow}
    (htotal : total.sort_id = -2) (h : row ∈ unknownRows proc_info ++ [total]) :
    -2 ≤ row.sort_id ∧ row.sort_id ≤ -1 := by
  rcases List.mem_append.1 h with h | h
  · rw [sort_id_unknownRows h]
    decide
  · rw [List.mem_singleton.1 h, htotal]
    decide

/-- **Sorted rows** are laid out: the groups of rows have ids apart from each other. -/
theorem layout_of_before {report : List NAProcInfo} {shown : List NetworkListRow}
    (hsorted : shown.Pairwise (Before NetworkListRow.sort_id))
    (hperm : shown.Perm ([headerRow] ++ ((knownInfo (doRefresh .exact report)).map entryRow ++
      (unknownRows (doRefresh .exact report) ++
        [totalRow (sumOf ProcessInfo.received (doRefresh .exact report))
          (sumOf ProcessInfo.sent (doRefresh .exact report))])))) :
    Layout (doRefresh .exact report) shown := by
  -- the header, then the entries, then the unknown traffic, then the total
  obtain ⟨header, rest, rfl, hheader, hrest⟩ :=
    DifferenceOrder.split_of_sorted (k := 83886079) hsorted hperm
      (by simp [headerRow]) (by
        intro row hrow
        rcases List.mem_append.1 hrow with hrow | hrow
        · exact (sort_id_entries hrow).2
        · have hbelow := sort_id_below rfl hrow
          omega)
  have hsorted := (List.pairwise_append.1 hsorted).2.1
  obtain ⟨entries, rest, rfl, hentries, hrest⟩ :=
    DifferenceOrder.split_of_sorted (k := -1) hsorted hrest
      (by
        intro row hrow
        have hentry := sort_id_entries hrow
        omega)
      (fun row hrow => (sort_id_below rfl hrow).2)
  obtain ⟨hentries_sorted, hsorted, _⟩ := List.pairwise_append.1 hsorted
  obtain ⟨unknown, total, rfl, hunknown, htotal⟩ :=
    DifferenceOrder.split_of_sorted (k := -2) hsorted hrest
      (by
        intro row hrow
        rw [sort_id_unknownRows hrow]
        decide)
      (by simp [totalRow])
  refine ⟨entries, ?_, hentries, hentries_sorted⟩
  obtain ⟨hreceived, hsent⟩ := sum_entries hentries
  rw [hreceived, hsent, sumOf_known_add_unknown, sumOf_known_add_unknown,
    List.perm_singleton.1 hheader, eq_unknownRows_of_perm hunknown,
    List.perm_singleton.1 htotal]
  rfl

/-- All ids of the rows that are built are within the range of an `int` of each other. -/
theorem row_range {report : List NAProcInfo} {total row : NetworkListRow}
    (htotal : total.sort_id = -2)
    (h : row ∈ [headerRow] ++ ((knownInfo (doRefresh .exact report)).map entryRow ++
      (unknownRows (doRefresh .exact report) ++ [total]))) :
    -2 ≤ row.sort_id ∧ row.sort_id ≤ 2 ^ 31 - 3 := by
  rcases List.mem_append.1 h with h | h
  · rw [List.mem_singleton.1 h]
    decide
  · rcases List.mem_append.1 h with h | h
    · have hentry := sort_id_entries h
      omega
    · have hbelow := sort_id_below htotal h
      omega

/-- **The comparison never overflows and orders all rows**, and in whatever way the list box sorts
them, they are laid out; every entry of the report is counted in its own row or as unknown. -/
theorem network_list_layout (report : List NAProcInfo) :
    ∃ rows, usageRows .exact (doRefresh .exact report) = some rows ∧
      (∀ a ∈ rows, ∀ b ∈ rows,
        difference NetworkListRow.sort_id a b = some (b.sort_id - a.sort_id)) ∧
      (∃ shown, Arranges (difference NetworkListRow.sort_id) rows shown) ∧
      (∀ shown, Arranges (difference NetworkListRow.sort_id) rows shown →
        Layout (doRefresh .exact report) shown) ∧
      (knownInfo (doRefresh .exact report) ++ unknownInfo (doRefresh .exact report)).Perm
        (doRefresh .exact report) := by
  have hrows := @usageRows_eq (doRefresh .exact report) fun info hinfo =>
    ⟨_, (entryId_doRefresh hinfo).1⟩
  have hrange : (2 ^ 31 - 3 : ℤ) - -2 < 2 ^ 31 := by decide
  refine ⟨_, hrows, ?_, ?_, ?_, known_append_unknown _⟩
  · intro a ha b hb
    exact DifferenceOrder.difference_eq hrange (row_range rfl ha) (row_range rfl hb)
  · exact DifferenceOrder.exists_arranges hrange fun row hrow => row_range rfl hrow
  · intro shown harranges
    exact layout_of_before harranges.before harranges.perm

end Usage
