/-
The rates of the network view as they are computed, in floating point
(`na-application.c`, `usage-network-view.vala`).

The service divides in doubles and sends floats; the view adds them up in doubles, in the order of
the report, and converts a hundredfold of them to an id.  Every one of these operations rounds.

* `tokbps .binary`, `usageRows .binary` — the rate that is sent, and the handler of `usage_changed`;
* `tokbps_binary_close`, `tokbps_binary_mono` — a rate is right up to its roundings, and more bytes
  are not a smaller rate;
* `double_mul_hundred` — **the hundredfold of a rate is not rounded**;
* `foldlM_add_binary` — the sums of the loop;
* `FloatLayout` — the rows from top to bottom, and what they show;
* `network_list_float` — **rounding does no harm**: all ids are defined, no comparison overflows,
  the rows are laid out as they should be, and every amount is right up to its roundings.

There is neither overflow nor underflow here.
-/

import GnomeUsage.NetworkList

set_option relaxedAutoImplicit false
set_option autoImplicit false

namespace Usage

open NetworkAnalyzer (NAProcInfo)
open DifferenceOrder (difference Arranges Before)
open FloatRounding (rnd rnd_mono rnd_nonneg rnd_exact Close unit unit_pos)

/-! ### Rates -/

/-- What the roundings of a rate may take away. -/
def rateLo : ℚ := 1 * (1 - unit 53) * (1 - unit 53) * (1 - unit 24)

/-- What the roundings of a rate may add. -/
def rateHi : ℚ := 1 * (1 + unit 53) * (1 + unit 53) * (1 + unit 24)

theorem double_toNat (bytes : BitVec 32) : double bytes.toNat = bytes.toNat :=
  double_natCast (bytes.isLt.trans (by decide))

theorem tokbps_binary (bytes : BitVec 32) : tokbps .binary bytes =
    float (double (double (double bytes.toNat / NetworkAnalyzer.PERIOD) / 1024)) := rfl

/-- **A rate is right up to its roundings.** -/
theorem tokbps_binary_close (bytes : BitVec 32) :
    Close rateLo rateHi (tokbps .exact bytes) (tokbps .binary bytes) := by
  have hbytes : (0 : ℚ) ≤ bytes.toNat := Nat.cast_nonneg _
  have hperiod : (0 : ℚ) ≤ ((NetworkAnalyzer.PERIOD : ℤ) : ℚ) := by
    unfold NetworkAnalyzer.PERIOD
    positivity
  have hu : (0 : ℚ) ≤ 1 - unit 53 := sub_nonneg.2 (FloatRounding.unit_le_one 53)
  rw [tokbps_binary, tokbps_exact, double_toNat]
  have hfirst := ((Close.refl (bytes.toNat : ℚ)).div_const hperiod).rnd (p := 53) zero_le_one
    (div_nonneg hbytes hperiod)
  have hsecond := (hfirst.div_const (c := 1024) (by positivity)).rnd (p := 53)
    (mul_nonneg zero_le_one hu) (by positivity)
  exact hsecond.rnd (p := 24) (mul_nonneg (mul_nonneg zero_le_one hu) hu) (by positivity)

theorem period_pos : (0 : ℚ) < ((NetworkAnalyzer.PERIOD : ℤ) : ℚ) := by
  unfold NetworkAnalyzer.PERIOD
  positivity

/-- **More bytes are not a smaller rate.** -/
theorem tokbps_binary_mono {bytes bytes' : BitVec 32} (h : bytes.toNat ≤ bytes'.toNat) :
    tokbps .binary bytes ≤ tokbps .binary bytes' := by
  have hbytes : (0 : ℚ) ≤ bytes.toNat := Nat.cast_nonneg _
  have hle : (bytes.toNat : ℚ) ≤ bytes'.toNat := by exact_mod_cast h
  rw [tokbps_binary, tokbps_binary, double_toNat, double_toNat]
  have hfirst : double (bytes.toNat / NetworkAnalyzer.PERIOD) ≤
      double (bytes'.toNat / NetworkAnalyzer.PERIOD) :=
    rnd_mono (by decide) (div_nonneg hbytes period_pos.le)
      (div_le_div_of_nonneg_right hle period_pos.le)
  have hnonneg : 0 ≤ double (bytes.toNat / NetworkAnalyzer.PERIOD) :=
    rnd_nonneg (div_nonneg hbytes period_pos.le)
  have hsecond : double (double (bytes.toNat / NetworkAnalyzer.PERIOD) / 1024) ≤
      double (double (bytes'.toNat / NetworkAnalyzer.PERIOD) / 1024) :=
    rnd_mono (by decide) (by positivity)
      (div_le_div_of_nonneg_right hfirst (by positivity))
  exact rnd_mono (by decide) (rnd_nonneg (by positivity)) hsecond

theorem rateLo_pos : 0 < rateLo := by
  norm_num [rateLo, unit]

theorem rateHi_pos : 0 < rateHi := by
  norm_num [rateHi, unit]

theorem tokbps_binary_nonneg (bytes : BitVec 32) : 0 ≤ tokbps .binary bytes :=
  (tokbps_binary_close bytes).nonneg rateLo_pos.le (tokbps_nonneg bytes)

theorem tokbps_binary_le (bytes : BitVec 32) : tokbps .binary bytes ≤ 1000000 := by
  have hhi := (tokbps_binary_close bytes).2
  have hlt := tokbps_lt bytes
  have hsmall : rateHi ≤ 11 / 10 := by
    norm_num [rateHi, unit]
  have hmul := mul_le_mul_of_nonneg_right hsmall (tokbps_nonneg bytes)
  linarith

/-- **The hundredfold of a rate is not rounded**: the rate is a float, and a double has the bits for
it. -/
theorem double_mul_hundred (bytes : BitVec 32) :
    double (tokbps .binary bytes * 100) = tokbps .binary bytes * 100 := by
  obtain ⟨m, k, hm, hrate⟩ := FloatRounding.exists_bits (p := 24) (by decide)
    (show 0 ≤ double (double (double bytes.toNat / NetworkAnalyzer.PERIOD) / 1024) from
      rnd_nonneg (div_nonneg (rnd_nonneg (div_nonneg (rnd_nonneg (Nat.cast_nonneg _))
        period_pos.le)) (by positivity)))
  have hbits : tokbps .binary bytes * 100 = ((m * 100 : ℕ) : ℚ) * 2 ^ k := by
    rw [tokbps_binary, float, hrate]
    push_cast
    ring
  rw [hbits]
  exact rnd_exact (by omega)

/-- `(int) (info.received * 100)`, of the rate that is sent. -/
def floatId (info : NAProcInfo) : ℤ := ⌊tokbps .binary info.recv * 100⌋

/-- **The id of an entry** is defined. -/
theorem castInt_double (info : NAProcInfo) :
    castInt (double (tokbps .binary info.recv * 100)) = some (floatId info) ∧
      0 ≤ floatId info ∧ floatId info ≤ 100000000 := by
  have hnonneg := tokbps_binary_nonneg info.recv
  have hle := tokbps_binary_le info.recv
  rw [double_mul_hundred]
  exact castInt_of_mem (by decide) (by positivity) (by push_cast; linarith)

/-! ### The rows that are built -/

/-- The entry of a process. -/
def floatInfo (info : NAProcInfo) : ProcessInfo :=
  ⟨info.name, info.pid, tokbps .binary info.recv, tokbps .binary info.sent⟩

/-- The row of a process. -/
def floatRow (info : NAProcInfo) : NetworkListRow := processRow (floatInfo info) (floatId info)

/-- The processes of a report that are known, and the rest of it. -/
def knownOf (report : List NAProcInfo) : List NAProcInfo := report.filter fun info => info.pid ≠ 0

def unknownOf (report : List NAProcInfo) : List NAProcInfo := report.filter fun info => info.pid = 0

/-- A sum of rates, added up from left to right. -/
def sumFloat (word : NAProcInfo → BitVec 32) (infos : List NAProcInfo) (sum : ℚ) : ℚ :=
  infos.foldl (fun sum info => double (sum + tokbps .binary (word info))) sum

/-- **The loop over the entries.** -/
theorem foldlM_add_binary (report : List NAProcInfo) (s : UsageSums) :
    (doRefresh .binary report).foldlM (UsageSums.add .binary) s = some {
      total_received := sumFloat NAProcInfo.recv report s.total_received
      total_sent := sumFloat NAProcInfo.sent report s.total_sent
      unknown_received := sumFloat NAProcInfo.recv (unknownOf report) s.unknown_received
      unknown_sent := sumFloat NAProcInfo.sent (unknownOf report) s.unknown_sent
      list_box := s.list_box ++ (knownOf report).map floatRow } := by
  induction report generalizing s with
  | nil => simp [doRefresh, sumFloat, knownOf, unknownOf]
  | cons info report ih =>
      rw [doRefresh, List.map_cons, List.foldlM_cons]
      by_cases hpid : info.pid = 0
      · have hknown : knownOf (info :: report) = knownOf report :=
          List.filter_cons_of_neg (by simpa using hpid)
        have hunknown : unknownOf (info :: report) = info :: unknownOf report :=
          List.filter_cons_of_pos (by simpa using hpid)
        rw [UsageSums.add, if_pos hpid, hknown, hunknown]
        exact ih _
      · have hknown : knownOf (info :: report) = info :: knownOf report :=
          List.filter_cons_of_pos (by simpa using hpid)
        have hunknown : unknownOf (info :: report) = unknownOf report :=
          List.filter_cons_of_neg (by simpa using hpid)
        have hid : castInt (Arithmetic.binary.double (tokbps .binary info.recv * 100)) =
            some (floatId info) := (castInt_double info).1
        rw [UsageSums.add, if_neg hpid, hid, hknown, hunknown, List.map_cons, List.append_cons]
        exact ih _

/-! ### The layout -/

/-- A rate that is right up to the roundings of a sum of `n` rates. -/
def ShowsRate (n : ℕ) (exact shown : ℚ) : Prop :=
  Close (rateLo * (1 - unit 53) ^ n) (rateHi * (1 + unit 53) ^ n) exact shown

/-- A sum of rates that is right up to its roundings. -/
def RateSum (word : NAProcInfo → BitVec 32) (infos : List NAProcInfo) (sum : ℚ) : Prop :=
  ShowsRate infos.length (infos.map fun info => tokbps .exact (word info)).sum sum

theorem rateSum_sumFloat (word : NAProcInfo → BitVec 32) (infos : List NAProcInfo) :
    RateSum word infos (sumFloat word infos 0) :=
  FloatRounding.close_foldl 53 rateLo_pos.le rateHi_pos.le (fun _ _ => tokbps_nonneg _)
    fun _ _ => tokbps_binary_close _

theorem tokbps_pos_iff {bytes : BitVec 32} : 0 < tokbps .exact bytes ↔ bytes ≠ 0 := by
  have hpos : 0 < tokbps .exact bytes ↔ (0 : ℚ) < bytes.toNat := by
    rw [tokbps_exact]
    unfold NetworkAnalyzer.PERIOD
    constructor
    · intro h
      push_cast at h
      linarith
    · intro h
      push_cast
      linarith
  rw [hpos, Nat.cast_pos, Nat.pos_iff_ne_zero]
  exact not_congr (BitVec.toNat_inj (y := 0))

/-- A sum of rates is positive when one of them is. -/
theorem RateSum.pos_iff {word : NAProcInfo → BitVec 32} {infos : List NAProcInfo} {sum : ℚ}
    (h : RateSum word infos sum) : 0 < sum ↔ ∃ info ∈ infos, word info ≠ 0 := by
  have hlo : (0 : ℚ) < 1 - unit 53 := by
    norm_num [unit]
  have hhi : (0 : ℚ) < 1 + unit 53 := add_pos one_pos (unit_pos 53)
  rw [Close.pos_iff h (mul_pos rateLo_pos (pow_pos hlo _)) (mul_pos rateHi_pos (pow_pos hhi _))]
  constructor
  · intro hpos
    by_contra hnone
    rw [List.sum_eq_zero] at hpos
    · exact hpos.false
    · intro rate hrate
      obtain ⟨info, hinfo, rfl⟩ := List.mem_map.1 hrate
      by_contra hne
      have hrate := (tokbps_nonneg (word info)).lt_of_ne' hne
      exact hnone ⟨info, hinfo, tokbps_pos_iff.1 hrate⟩
  · rintro ⟨info, hinfo, hne⟩
    refine (tokbps_pos_iff.2 hne).trans_le (List.single_le_sum ?_ _ (List.mem_map_of_mem hinfo))
    intro rate hrate
    obtain ⟨info', _, rfl⟩ := List.mem_map.1 hrate
    exact tokbps_nonneg _

/-- **The order of two rows**: the upper process has received more, or both have the same id, and
then they have received about the same. -/
def Above (info info' : NAProcInfo) : Prop :=
  info'.recv < info.recv ∨ floatId info = floatId info' ∧
    (info'.recv.toNat : ℚ) < (1 + 1 / 2 ^ 22) * info.recv.toNat + 52

theorem above_of_before {info info' : NAProcInfo} (h : floatId info' ≤ floatId info) :
    Above info info' := by
  rcases h.lt_or_eq with hlt | heq
  · left
    rw [BitVec.lt_def]
    by_contra hnot
    have hmono := tokbps_binary_mono (not_lt.1 hnot)
    have hfloor : floatId info ≤ floatId info' :=
      Int.floor_le_floor (mul_le_mul_of_nonneg_right hmono (by positivity))
    omega
  · right
    refine ⟨heq.symm, ?_⟩
    -- the rates are less than a hundredth apart, and both are close to those of the bytes
    have hhundredth := Int.abs_sub_lt_one_of_floor_eq_floor heq
    have hlo := (tokbps_binary_close info'.recv).1
    have hhi := (tokbps_binary_close info.recv).2
    have hsub := (abs_lt.1 hhundredth).2
    have hrates : rateLo * tokbps .exact info'.recv <
        rateHi * tokbps .exact info.recv + 1 / 100 := by
      linarith
    have hbytes : (0 : ℚ) ≤ info.recv.toNat := Nat.cast_nonneg _
    rw [tokbps_exact, tokbps_exact] at hrates
    unfold NetworkAnalyzer.PERIOD rateLo rateHi unit at hrates
    push_cast at hrates
    norm_num at hrates ⊢
    linarith

/-- **The layout of the list**, as it is computed. -/
def FloatLayout (report : List NAProcInfo) (shown : List NetworkListRow) : Prop :=
  ∃ (infos : List NAProcInfo) (unknown_received unknown_sent total_received total_sent : ℚ),
    shown = headerRow :: (infos.map floatRow ++
      ((if ∃ info ∈ unknownOf report, info.recv ≠ 0 ∨ info.sent ≠ 0 then
        [unknownRow unknown_received unknown_sent] else []) ++
      [totalRow total_received total_sent])) ∧
    infos.Perm (knownOf report) ∧
    infos.Pairwise Above ∧
    (∀ info ∈ infos, Close rateLo rateHi (tokbps .exact info.recv) (floatRow info).received.value ∧
      Close rateLo rateHi (tokbps .exact info.sent) (floatRow info).sent.value) ∧
    RateSum NAProcInfo.recv (unknownOf report) unknown_received ∧
    RateSum NAProcInfo.sent (unknownOf report) unknown_sent ∧
    RateSum NAProcInfo.recv report total_received ∧
    RateSum NAProcInfo.sent report total_sent

/-- The rows below the entries. -/
def rowsBelow (report : List NAProcInfo) : List NetworkListRow :=
  (if ∃ info ∈ unknownOf report, info.recv ≠ 0 ∨ info.sent ≠ 0 then
    [unknownRow (sumFloat NAProcInfo.recv (unknownOf report) 0)
      (sumFloat NAProcInfo.sent (unknownOf report) 0)] else []) ++
  [totalRow (sumFloat NAProcInfo.recv report 0) (sumFloat NAProcInfo.sent report 0)]

/-- **The rows that are built.** -/
theorem usageRows_binary_eq (report : List NAProcInfo) :
    usageRows .binary (doRefresh .binary report) =
      some ([headerRow] ++ ((knownOf report).map floatRow ++ rowsBelow report)) := by
  have hunknown : (0 < sumFloat NAProcInfo.recv (unknownOf report) 0 ∨
      0 < sumFloat NAProcInfo.sent (unknownOf report) 0) ↔
      ∃ info ∈ unknownOf report, info.recv ≠ 0 ∨ info.sent ≠ 0 := by
    rw [(rateSum_sumFloat _ _).pos_iff, (rateSum_sumFloat _ _).pos_iff, ← exists_or]
    refine exists_congr fun info => ?_
    rw [← and_or_left]
  rw [usageRows, usageSums, foldlM_add_binary, Option.map_some, UsageSums.rows, rowsBelow,
    List.append_assoc]
  simp only [gt_iff_lt, hunknown]

/-- The ids of the rows below the entries, of which there are two at most. -/
theorem sort_id_rowsBelow (report : List NAProcInfo) :
    (rowsBelow report).Pairwise (fun a b => b.sort_id < a.sort_id) ∧
      ∀ row ∈ rowsBelow report, -2 ≤ row.sort_id ∧ row.sort_id ≤ -1 := by
  unfold rowsBelow
  split
  · simp [unknownRow, totalRow]
  · simp [totalRow]

theorem sort_id_floatRow {infos : List NAProcInfo} {row : NetworkListRow}
    (h : row ∈ infos.map floatRow) : 0 ≤ row.sort_id ∧ row.sort_id ≤ 100000000 := by
  obtain ⟨info, _, rfl⟩ := List.mem_map.1 h
  exact (castInt_double info).2

/-- All ids are within the range of an `int` of each other. -/
theorem sort_id_built {report : List NAProcInfo} {row : NetworkListRow}
    (h : row ∈ [headerRow] ++ ((knownOf report).map floatRow ++ rowsBelow report)) :
    -2 ≤ row.sort_id ∧ row.sort_id ≤ 2 ^ 31 - 3 := by
  rcases List.mem_append.1 h with h | h
  · rw [List.mem_singleton.1 h]
    decide
  · rcases List.mem_append.1 h with h | h
    · have hentry := sort_id_floatRow h
      omega
    · have hbelow := (sort_id_rowsBelow report).2 row h
      omega

/-- **Sorted rows** are laid out. -/
theorem floatLayout_of_before {report : List NAProcInfo} {shown : List NetworkListRow}
    (hsorted : shown.Pairwise (Before NetworkListRow.sort_id))
    (hperm : shown.Perm ([headerRow] ++ ((knownOf report).map floatRow ++ rowsBelow report))) :
    FloatLayout report shown := by
  -- the header, then the entries, then the rest
  obtain ⟨header, rest, rfl, hheader, hrest⟩ :=
    DifferenceOrder.split_of_sorted (k := 100000000) hsorted hperm
      (by simp [headerRow]) (by
        intro row hrow
        rcases List.mem_append.1 hrow with hrow | hrow
        · exact (sort_id_floatRow hrow).2
        · have hbelow := (sort_id_rowsBelow report).2 row hrow
          omega)
  have hsorted := (List.pairwise_append.1 hsorted).2.1
  obtain ⟨entries, below, rfl, hentries, hbelow⟩ :=
    DifferenceOrder.split_of_sorted (k := -1) hsorted hrest
      (by
        intro row hrow
        have hentry := sort_id_floatRow hrow
        omega)
      (fun row hrow => ((sort_id_rowsBelow report).2 row hrow).2)
  obtain ⟨hentries_sorted, hbelow_sorted, _⟩ := List.pairwise_append.1 hsorted
  have hbelow := DifferenceOrder.eq_of_perm_of_before hbelow hbelow_sorted
    (sort_id_rowsBelow report).1
  obtain ⟨infos, rfl, hinfos⟩ :=
    (congrFun (congrFun (List.eq_map_comp_perm floatRow) entries) (knownOf report)).mpr hentries
  refine ⟨infos, _, _, _, _, ?_, hinfos, ?_, ?_, rateSum_sumFloat _ _, rateSum_sumFloat _ _,
    rateSum_sumFloat _ _, rateSum_sumFloat _ _⟩
  · rw [List.perm_singleton.1 hheader, hbelow]
    rfl
  · exact (List.pairwise_map.1 hentries_sorted).imp above_of_before
  · intro info _
    exact ⟨tokbps_binary_close _, tokbps_binary_close _⟩

/-- **Rounding does no harm**: all ids are defined, the comparison never overflows and orders all
rows, and in whatever way the list box sorts them, they are laid out, with amounts that are right
up to their roundings. -/
theorem network_list_float (report : List NAProcInfo) :
    ∃ rows, usageRows .binary (doRefresh .binary report) = some rows ∧
      (∀ a ∈ rows, ∀ b ∈ rows,
        difference NetworkListRow.sort_id a b = some (b.sort_id - a.sort_id)) ∧
      (∃ shown, Arranges (difference NetworkListRow.sort_id) rows shown) ∧
      (∀ shown, Arranges (difference NetworkListRow.sort_id) rows shown →
        FloatLayout report shown) := by
  have hrange : (2 ^ 31 - 3 : ℤ) - -2 < 2 ^ 31 := by decide
  refine ⟨_, usageRows_binary_eq report, ?_, ?_, ?_⟩
  · intro a ha b hb
    exact DifferenceOrder.difference_eq hrange (sort_id_built ha) (sort_id_built hb)
  · exact DifferenceOrder.exists_arranges hrange fun row hrow => sort_id_built hrow
  · intro shown harranges
    exact floatLayout_of_before harranges.before harranges.perm

end Usage
