/-
The rates that the network view shows (`usage-network-view.vala`).

The amounts of a report are words, and wrap; the view is sent their rates as floats, adds these up
in doubles, and pushes the total to its graph.  A report never claims more bytes than there were
(`Itemised.report_bytes_le`), so that a view of a report is right up to its roundings as long as all
bytes of the period fit into one word, whatever they are spread over.

* `sum_bytesOf_le` — tests that exclude each other count no packet twice;
* `Itemised.report_process` — what a report says of one process, in the bytes of its flows;
* `Itemised.report_bytes_le` — **no report claims more than there was**;
* `NetworkPage`, `NetworkPage.usageChanged` — the list and the graph of the view, and the handler of
  `usage_changed` as far as they are concerned;
* `NetworkPage.Shows` — what a page shows of given amounts of bytes;
* `rates_shown` — **the page shows the rates of the packets on the wire**, up to the roundings.
-/

import GnomeUsage.Accounts
import GnomeUsage.FloatRates
import GnomeUsage.GraphWidget
import GnomeUsage.MainLoop
import GnomeUsage.Reachable

set_option relaxedAutoImplicit false
set_option autoImplicit false

namespace NetworkAnalyzer

/-! ### Words that do not wrap -/

/-- Words whose values add up to a word add up without wrapping. -/
theorem toNat_sum_of_lt {l : List (BitVec 32)} (h : (l.map BitVec.toNat).sum < 2 ^ 32) :
    l.sum.toNat = (l.map BitVec.toNat).sum := by
  have hmod := sum_toNat_modEq l
  rw [Nat.ModEq, Nat.mod_eq_of_lt h, Nat.mod_eq_of_lt l.sum.isLt] at hmod
  exact hmod.symm

/-! ### Bytes are counted once -/

theorem bytesOf_mono {mine mine' : NAPacket → Bool} (h : ∀ p, mine p = true → mine' p = true)
    (c : ℤ) (es : List Event) : bytesOf mine c es ≤ bytesOf mine' c es := by
  unfold bytesOf
  refine List.Sublist.sum_le_sum (List.Sublist.map _ ?_) fun _ _ => Nat.zero_le _
  refine List.monotone_filter_right _ ?_
  intro p hp
  rw [Bool.and_eq_true] at hp ⊢
  exact ⟨h p hp.1, hp.2⟩

/-- Two tests that exclude each other. -/
theorem bytesOf_or {mine mine' : NAPacket → Bool} (h : ∀ p, mine p = true → mine' p = false)
    (c : ℤ) (es : List Event) :
    bytesOf (fun p => mine p || mine' p) c es = bytesOf mine c es + bytesOf mine' c es := by
  unfold bytesOf
  induction packets es with
  | nil => rfl
  | cons p ps ih =>
      cases hc : decide (c < p.time.tv_sec) with
      | false => simpa [hc] using ih
      | true =>
          cases hmine : mine p with
          | true => simp [hc, hmine, h p hmine, ih, Nat.add_assoc]
          | false =>
              cases hmine' : mine' p with
              | true => simp [hc, hmine, hmine', ih, Nat.add_left_comm]
              | false => simp [hc, hmine, hmine', ih]

variable (host : Host)

theorem bytesAfter_eq (out : Bool) (c : ℤ) (es : List Event) :
    bytesAfter host out c es = bytesOf (keyTest host (fun _ => true) out) c es := rfl

/-- **Tests of the flow keys that exclude each other** count no packet twice. -/
theorem sum_bytesOf_le {qs : List (Sym2 Endpoint → Bool)}
    (hqs : qs.Pairwise fun q q' => ∀ key, q key = true → q' key = false) (out : Bool) (c : ℤ)
    (es : List Event) :
    (qs.map fun q => bytesOf (keyTest host q out) c es).sum ≤ bytesAfter host out c es := by
  suffices hany : (qs.map fun q => bytesOf (keyTest host q out) c es).sum =
      bytesOf (keyTest host (fun key => qs.any fun q => q key) out) c es by
    rw [hany, bytesAfter_eq]
    refine bytesOf_mono ?_ c es
    intro p hp
    rw [keyTest, Bool.and_eq_true] at hp ⊢
    exact ⟨rfl, hp.2⟩
  induction qs with
  | nil => simp [bytesOf, keyTest]
  | cons q qs ih =>
      obtain ⟨hq, hqs⟩ := List.pairwise_cons.1 hqs
      rw [List.map_cons, List.sum_cons, ih hqs, ← bytesOf_or]
      · congr 1
        funext p
        simp only [keyTest, List.any_cons, Bool.and_or_distrib_right]
      · intro p hp
        rw [keyTest, Bool.and_eq_true] at hp
        have hnone : (qs.any fun q' => q' (flowKey p)) = false := by
          rw [List.any_eq_false]
          intro q' hq'
          rw [hq q' hq' (flowKey p) hp.1]
          exact Bool.false_ne_true
        rw [keyTest, hnone, Bool.false_and]

/-! ### What a report says of one process -/

/-- The keys of some connections. -/
def ConnStore.keysOf (store : ConnStore) (cs : List Ptr) (key : Sym2 Endpoint) : Bool :=
  cs.any (store.keyAt fun k => decide (k = key))

theorem keysOf_iff {store : ConnStore} {cs : List Ptr} {key : Sym2 Endpoint} :
    store.keysOf cs key = true ↔
      ∃ c ∈ cs, ∃ conn, store.cell c = some conn ∧ flowKey conn.refpacket = key := by
  rw [ConnStore.keysOf, List.any_eq_true]
  refine exists_congr fun c => and_congr_right fun _ => ?_
  rw [ConnStore.keyAt]
  cases store.cell c with
  | none => simp
  | some conn => simp

/-- A connection whose key is one of those of some connections is one of them. -/
theorem keyAt_keysOf {store : ConnStore} (h : store.Ok) {cs : List Ptr}
    (hcs : ∀ c ∈ cs, c ∈ store.connections) {c : Ptr} (hc : c ∈ store.connections) :
    store.keyAt (store.keysOf cs) c = true ↔ c ∈ cs := by
  obtain ⟨conn, hconn⟩ := h.live c hc
  rw [ConnStore.keyAt, hconn, Option.elim_some, keysOf_iff]
  constructor
  · rintro ⟨d, hd, conn', hconn', hkey⟩
    obtain rfl := h.eq_of_flowKey hc (hcs d hd) hconn hconn' hkey.symm
    exact hd
  · intro hmem
    exact ⟨c, hmem, conn, hconn, rfl⟩

variable {host} {hist : List Event} {t : Timeval} {σ : NAState}

theorem report_bytes (store : ConnStore) (process : NAProcess) (out : Bool) :
    (store.report t process).bytes out =
      ((store.keep t process.connections).map (store.amount t out)).sum := by
  cases out <;> rfl

/-- **What a report says of one process**: the bytes of the flows of its connections. -/
theorem Itemised.report_process (h : Itemised host hist t.tv_sec σ) {process : NAProcess}
    (hp : process ∈ σ.processes) (out : Bool) :
    (σ.store.report t process).bytes out =
      BitVec.ofNat 32 (bytesOf (keyTest host (σ.store.keysOf process.connections) out)
        (t.tv_sec - PERIOD) hist) := by
  have hok := h.books.ok
  have howned : ∀ c ∈ process.connections, c ∈ σ.store.connections := fun c hc =>
    hok.owned c (mem_ownedBy.2 ⟨process, hp, hc⟩)
  rw [report_bytes, ← h.report_only]
  refine sum_amount_only hok h.books.adopted (h.books.noLoss host)
    (nodup_connections hok.owned_nodup hp) ?_ out
  intro c
  rw [List.mem_filter]
  constructor
  · intro hc
    exact ⟨howned c hc, (keyAt_keysOf hok.store howned (howned c hc)).2 hc⟩
  · rintro ⟨hc, hkey⟩
    exact (keyAt_keysOf hok.store howned hc).1 hkey

/-- No two processes have a connection with the same key. -/
theorem pairwise_keysOf {σ : NAState} (h : σ.Ok) (t : Timeval) :
    ((σ.store.survivors t σ.processes).map fun process =>
      σ.store.keysOf process.connections).Pairwise fun q q' =>
        ∀ key, q key = true → q' key = false := by
  have hnodup := (List.nodup_flatMap.1
    (@nodup_ownedBy_survivors σ.store t σ.processes h.owned_nodup)).2
  rw [List.pairwise_map]
  refine hnodup.imp_of_mem ?_
  intro process other hprocess hother hdisjoint key hkey
  by_contra hkey'
  rw [Bool.not_eq_false] at hkey'
  obtain ⟨c, hc, conn, hconn, rfl⟩ := keysOf_iff.1 hkey
  obtain ⟨d, hd, conn', hconn', heq⟩ := keysOf_iff.1 hkey'
  have hmem : ∀ {p : NAProcess} {e : Ptr}, p ∈ σ.store.survivors t σ.processes →
      e ∈ p.connections → e ∈ σ.store.connections := fun hp he =>
    h.owned _ (mem_ownedBy.2 ⟨_, List.mem_of_mem_filter hp, he⟩)
  obtain rfl := h.store.eq_of_flowKey (hmem hother hd) (hmem hprocess hc) hconn' hconn heq
  exact hdisjoint hc hd

/-- **No report claims more than there was.** -/
theorem Itemised.report_bytes_le (h : Itemised host hist t.tv_sec σ) {σ' : NAState}
    {proc_info : List NAProcInfo} (hrun : naProcessInfoGetAll σ t = some (σ', proc_info))
    (out : Bool) :
    (proc_info.map fun info => (info.bytes out).toNat).sum ≤
      bytesAfter host out (t.tv_sec - PERIOD) hist := by
  rw [naProcessInfoGetAll_eq h.books.ok] at hrun
  cases hrun
  refine le_trans ?_ (sum_bytesOf_le host (pairwise_keysOf h.books.ok t) out _ hist)
  rw [List.map_map, List.map_map]
  refine List.sum_le_sum ?_
  intro process hprocess
  simp only [Function.comp_apply]
  rw [h.report_process (List.mem_of_mem_filter hprocess) out, BitVec.toNat_ofNat]
  exact Nat.mod_le _ _

end NetworkAnalyzer

namespace Usage

open NetworkAnalyzer (Accounts accounts_refresh accounts_run Act Analyzer
  between_arrivalsRefreshed books_refresh bytesAfter bytesAfter_eq bytesOf bytesOf_mono chargedPid
  chargedPid_of_unconfused charges dottedHost Event flowKey Host Itemised KernelSnapshot keyTest
  knownPids knownPids_append naProcessInfoGetAll NAProcInfo NAState oneHolder_oneSocket oneSocket
  packets packets_pre PERIOD readable_dottedHost Schedule schedule_arrivalsRefreshed Timeval
  toNat_sum_of_lt twoArrivals unambiguous_oneSocket Unconfused unconfused_arrivalsRefreshed)
open FloatRounding (Close unit unit_pos unit_le_one)

/-! ### The page -/

/-- What `NetworkView` shows. -/
structure NetworkPage where
  list_box : List NetworkListRow := []
  graph : GraphWidget := {}

/-- The handler of `usage_changed`, from where it empties the list on. -/
def NetworkPage.usageChanged (page : NetworkPage) (proc_info : List ProcessInfo) :
    Option NetworkPage :=
  (usageSums .binary proc_info).map fun s =>
    -- set an arbitrary maximum of 500kb/s
    { list_box := s.rows
      graph := page.graph.push (double (s.total_received / 500)) }

/-- **What the handler does** with a report. -/
theorem NetworkPage.usageChanged_eq (page : NetworkPage) (report : List NAProcInfo) :
    page.usageChanged (doRefresh .binary report) = some
      { list_box := [headerRow] ++ (knownOf report).map floatRow ++
          ((if sumFloat NAProcInfo.recv (unknownOf report) 0 > 0 ∨
              sumFloat NAProcInfo.sent (unknownOf report) 0 > 0 then
            [unknownRow (sumFloat NAProcInfo.recv (unknownOf report) 0)
              (sumFloat NAProcInfo.sent (unknownOf report) 0)] else []) ++
          [totalRow (sumFloat NAProcInfo.recv report 0) (sumFloat NAProcInfo.sent report 0)])
        graph := page.graph.push (double (sumFloat NAProcInfo.recv report 0 / 500)) } := by
  rw [NetworkPage.usageChanged, usageSums, foldlM_add_binary, Option.map_some]
  rfl

/-! ### Rates -/

/-- The rate of some bytes in a period, in kilobytes a second. -/
def rate (bytes : ℕ) : ℚ := bytes / PERIOD / 1024

theorem rate_pos {bytes : ℕ} : 0 < rate bytes ↔ 0 < bytes := by
  unfold rate PERIOD
  constructor
  · intro h
    by_contra hzero
    rw [Nat.eq_zero_of_not_pos hzero] at h
    norm_num at h
  · intro h
    positivity

theorem rate_zero : rate 0 = 0 := by
  rw [rate, Nat.cast_zero, zero_div, zero_div]

theorem rate_nonneg (bytes : ℕ) : 0 ≤ rate bytes := by
  unfold rate PERIOD
  positivity

/-- The amount of an entry in one direction. -/
def ProcessInfo.amount (out : Bool) (info : ProcessInfo) : ℚ :=
  if out then info.sent else info.received

/-- The bytes that the entries of a report claim. -/
def claimed (out : Bool) (report : List NAProcInfo) : ℕ :=
  (report.map fun info => (info.bytes out).toNat).sum

/-- The rates of the entries add up to that of all that is claimed. -/
theorem sum_tokbps (out : Bool) (report : List NAProcInfo) :
    (report.map fun info => tokbps .exact (info.bytes out)).sum = rate (claimed out report) := by
  induction report with
  | nil => exact rate_zero.symm
  | cons info report ih =>
      have hsum : rate (claimed out (info :: report)) =
          rate (info.bytes out).toNat + rate (claimed out report) := by
        simp only [rate, claimed, List.map_cons, List.sum_cons, Nat.cast_add, add_div]
      rw [List.map_cons, List.sum_cons, ih, hsum]
      rfl

/-- Words of a report that claims less than a word do not wrap, nor do those of a part of it. -/
theorem claimed_filter {out : Bool} {report : List NAProcInfo} (h : claimed out report < 2 ^ 32)
    (q : NAProcInfo → Bool) :
    claimed out (report.filter q) =
      (((report.filter q).map (NAProcInfo.bytes out)).sum).toNat := by
  have hle : claimed out (report.filter q) ≤ claimed out report :=
    List.Sublist.sum_le_sum (List.filter_sublist.map _) fun _ _ => Nat.zero_le _
  rw [toNat_sum_of_lt]
  · rw [List.map_map]
    rfl
  · rw [List.map_map]
    exact hle.trans_lt h

/-- The entry of an id other than 0 is the only one. -/
theorem filter_pid_eq {report : List NAProcInfo}
    (hnodup : (knownPids (report.map NAProcInfo.pid)).Nodup) {info : NAProcInfo}
    (hinfo : info ∈ report) (hpid : info.pid ≠ 0) :
    (report.filter fun other => other.pid = info.pid) = [info] := by
  obtain ⟨before, after, rfl⟩ := List.append_of_mem hinfo
  have hknown : knownPids ((before ++ info :: after).map NAProcInfo.pid) =
      knownPids (before.map NAProcInfo.pid) ++
        info.pid :: knownPids (after.map NAProcInfo.pid) := by
    simp [knownPids, hpid]
  rw [hknown, List.nodup_middle, List.nodup_cons, ← knownPids_append, ← List.map_append] at hnodup
  have hother : ∀ other ∈ before ++ after, ¬ other.pid = info.pid := by
    intro other hother heq
    refine hnodup.1 (List.mem_filter.2 ⟨heq ▸ List.mem_map_of_mem hother, ?_⟩)
    exact decide_eq_true hpid
  have hbefore : (before.filter fun other => other.pid = info.pid) = [] := by
    rw [List.filter_eq_nil_iff]
    intro other hmem
    simpa using hother other (List.mem_append_left _ hmem)
  have hafter : (after.filter fun other => other.pid = info.pid) = [] := by
    rw [List.filter_eq_nil_iff]
    intro other hmem
    simpa using hother other (List.mem_append_right _ hmem)
  rw [List.filter_append, hbefore, List.filter_cons, if_pos, hafter]
  · rfl
  · exact decide_eq_true rfl

/-! ### Sums of rates -/

/-- More roundings allow for more. -/
theorem ShowsRate.mono {n m : ℕ} {exact shown : ℚ} (h : ShowsRate n exact shown)
    (h₀ : 0 ≤ exact) (hnm : n ≤ m) : ShowsRate m exact shown := by
  have hlo : (0 : ℚ) ≤ 1 - unit 53 := sub_nonneg.2 (unit_le_one 53)
  have hlo' : (1 : ℚ) - unit 53 ≤ 1 := sub_le_self _ (unit_pos 53).le
  have hhi : (1 : ℚ) ≤ 1 + unit 53 := le_add_of_nonneg_right (unit_pos 53).le
  refine Close.weaken h h₀ ?_ ?_
  · exact mul_le_mul_of_nonneg_left (pow_le_pow_of_le_one hlo hlo' hnm) rateLo_pos.le
  · exact mul_le_mul_of_nonneg_left (pow_le_pow_right₀ hhi hnm) rateHi_pos.le

/-- A sum of rates shows something when there is something. -/
theorem ShowsRate.pos_iff {n bytes : ℕ} {shown : ℚ} (h : ShowsRate n (rate bytes) shown) :
    shown > 0 ↔ bytes ≠ 0 := by
  have hlo : (0 : ℚ) < 1 - unit 53 := by
    norm_num [unit]
  have hhi : (0 : ℚ) < 1 + unit 53 := add_pos one_pos (unit_pos 53)
  rw [gt_iff_lt, Close.pos_iff h (mul_pos rateLo_pos (pow_pos hlo n))
    (mul_pos rateHi_pos (pow_pos hhi n)), rate_pos, Nat.pos_iff_ne_zero]

/-- The sum over the entries of a report, or over a part of it. -/
theorem showsRate_sumFloat (out : Bool) (report : List NAProcInfo) :
    ShowsRate report.length (rate (claimed out report))
      (sumFloat (NAProcInfo.bytes out) report 0) := by
  rw [← sum_tokbps]
  exact rateSum_sumFloat (NAProcInfo.bytes out) report

/-! ### What a page shows -/

/-- **What a page shows** of the bytes of all packets in each direction, and of those of the packets
charged to each process: a header; entries of processes with the rates of their own bytes, and of
every process that has any; the packets nobody is charged for, if there are any; and the total,
which is pushed to the graph.  The sums have the roundings of `n` entries. -/
structure NetworkPage.Shows (page page' : NetworkPage) (n : ℕ) (total : Bool → ℕ)
    (charged : ℤ → Bool → ℕ) (entries : List ProcessInfo) (unknown sum : Bool → ℚ) : Prop where
  list_box : page'.list_box = headerRow :: (entries.map entryRow ++
    ((if charged 0 false ≠ 0 ∨ charged 0 true ≠ 0 then
      [unknownRow (unknown false) (unknown true)] else []) ++
    [totalRow (sum false) (sum true)]))
  graph : page'.graph = page.graph.push (double (sum false / 500))
  nodup : (entries.map ProcessInfo.pid).Nodup
  entry : ∀ info ∈ entries, info.pid ≠ 0 ∧ ∀ out,
    info.amount out = tokbps .binary (BitVec.ofNat 32 (charged info.pid out)) ∧
    Close rateLo rateHi (rate (charged info.pid out)) (info.amount out)
  rest : ∀ pid, pid ≠ 0 → pid ∉ entries.map ProcessInfo.pid → ∀ out, charged pid out = 0
  unknown : ∀ out, ShowsRate n (rate (charged 0 out)) (unknown out)
  sum : ∀ out, ShowsRate n (rate (total out)) (sum out)

section Report

variable {host : Host} {S : KernelSnapshot} {hist : List Event} {t : Timeval} {A : Analyzer}

/-- The bytes of all packets of a period in one direction. -/
def totalBytes (host : Host) (t : Timeval) (hist : List Event) (out : Bool) : ℕ :=
  bytesAfter host out (t.tv_sec - PERIOD) hist

/-- Those of them that are charged to a process. -/
def chargedBytes (host : Host) (S : KernelSnapshot) (t : Timeval)
    (hist : List Event) (pid : ℤ) (out : Bool) : ℕ :=
  bytesOf (charges host S pid out) (t.tv_sec - PERIOD) hist

/-- The bytes charged to a process are bytes of the period. -/
theorem charges_le (pid : ℤ) (out : Bool) (c : ℤ) :
    bytesOf (charges host S pid out) c hist ≤ bytesAfter host out c hist := by
  rw [bytesAfter_eq]
  refine bytesOf_mono ?_ c hist
  intro p hp
  rw [charges, Bool.and_eq_true] at hp
  rw [keyTest, Bool.true_and]
  exact hp.2

/-- **The total of a report**, when all bytes of its period fit into a word. -/
theorem claimed_total {σ : NAState} (h : Itemised host hist t.tv_sec σ) {out : Bool}
    (hbytes : bytesAfter host out (t.tv_sec - PERIOD) hist < 2 ^ 32) {σ' : NAState}
    {proc_info : List NAProcInfo} (hrun : naProcessInfoGetAll σ t = some (σ', proc_info)) :
    claimed out proc_info = bytesAfter host out (t.tv_sec - PERIOD) hist := by
  have hle := h.report_bytes_le hrun out
  obtain ⟨σ'', proc_info', hrun', hsent, hrecv, _⟩ := books_refresh host h.books
  cases hrun.symm.trans hrun'
  have hsum : (proc_info.map (NAProcInfo.bytes out)).sum =
      BitVec.ofNat 32 (bytesAfter host out (t.tv_sec - PERIOD) hist) := by
    cases out with
    | true => exact hsent
    | false => exact hrecv
  have hnowrap := claimed_filter (hle.trans_lt hbytes) fun _ => true
  rw [List.filter_eq_self.2 fun _ _ => rfl] at hnowrap
  rw [hnowrap, hsum, BitVec.toNat_ofNat, Nat.mod_eq_of_lt hbytes]

/-- **What a report claims for an id.** -/
theorem claimed_pid (h : Accounts host S hist t.tv_sec A)
    (hsame : ∀ p ∈ packets hist, ∀ p' ∈ packets hist,
      flowKey p = flowKey p' → chargedPid host S p = chargedPid host S p') {out : Bool}
    (hbytes : bytesAfter host out (t.tv_sec - PERIOD) hist < 2 ^ 32) {σ' : NAState}
    {proc_info : List NAProcInfo}
    (hrun : naProcessInfoGetAll A.state t = some (σ', proc_info)) (pid : ℤ) :
    claimed out (proc_info.filter fun info => info.pid = pid) =
      chargedBytes host S t hist pid out := by
  have hle := (h.itemised.report_bytes_le hrun out).trans_lt hbytes
  rw [claimed_filter hle, h.report_pid hsame hrun pid out, BitVec.toNat_ofNat,
    Nat.mod_eq_of_lt ((charges_le pid out _).trans_lt hbytes), chargedBytes]

/-- The amount of an entry is the word that is sent. -/
theorem amount_floatInfo (out : Bool) (info : NAProcInfo) :
    (floatInfo info).amount out = tokbps .binary (info.bytes out) := by
  cases out <;> rfl

/-- The row of an entry has the id that was computed for it. -/
theorem entryRow_floatInfo (info : NAProcInfo) : entryRow (floatInfo info) = floatRow info := by
  have hid := (castInt_double info).1
  rw [double_mul_hundred] at hid
  rw [entryRow, entryId, floatInfo, hid]
  rfl

/-- **A report on accounts that are kept**, as a page shows it. -/
theorem NetworkPage.shows_report (h : Accounts host S hist t.tv_sec A)
    (hsame : ∀ p ∈ packets hist, ∀ p' ∈ packets hist,
      flowKey p = flowKey p' → chargedPid host S p = chargedPid host S p')
    (hbytes : ∀ out, bytesAfter host out (t.tv_sec - PERIOD) hist < 2 ^ 32) {σ' : NAState}
    {proc_info : List NAProcInfo}
    (hrun : naProcessInfoGetAll A.state t = some (σ', proc_info)) (page : NetworkPage) :
    ∃ page' unknown sum, page.usageChanged (doRefresh .binary proc_info) = some page' ∧
      page.Shows page' proc_info.length (totalBytes host t hist) (chargedBytes host S t hist)
        ((knownOf proc_info).map floatInfo) unknown sum := by
  have htotal : ∀ out, ShowsRate proc_info.length (rate (totalBytes host t hist out))
      (sumFloat (NAProcInfo.bytes out) proc_info 0) := by
    intro out
    rw [totalBytes, ← claimed_total h.itemised (hbytes out) hrun]
    exact showsRate_sumFloat out proc_info
  have hunknown : ∀ out, ShowsRate proc_info.length (rate (chargedBytes host S t hist 0 out))
      (sumFloat (NAProcInfo.bytes out) (unknownOf proc_info) 0) := by
    intro out
    rw [← claimed_pid h hsame (hbytes out) hrun]
    exact (showsRate_sumFloat out (unknownOf proc_info)).mono (rate_nonneg _)
      (List.length_filter_le _ _)
  have hpids : ((knownOf proc_info).map floatInfo).map ProcessInfo.pid =
      knownPids (proc_info.map NAProcInfo.pid) := by
    rw [knownOf, knownPids, List.filter_map, List.map_map]
    rfl
  refine ⟨_, fun out => sumFloat (NAProcInfo.bytes out) (unknownOf proc_info) 0,
    fun out => sumFloat (NAProcInfo.bytes out) proc_info 0, page.usageChanged_eq proc_info,
    ?_, rfl, ?_, ?_, ?_, hunknown, htotal⟩
  · -- the row of the unknown is there when something is charged to nobody
    have hrow : sumFloat NAProcInfo.recv (unknownOf proc_info) 0 > 0 ∨
        sumFloat NAProcInfo.sent (unknownOf proc_info) 0 > 0 ↔
        chargedBytes host S t hist 0 false ≠ 0 ∨ chargedBytes host S t hist 0 true ≠ 0 :=
      or_congr (hunknown false).pos_iff (hunknown true).pos_iff
    have hentries : ((knownOf proc_info).map floatInfo).map entryRow =
        (knownOf proc_info).map floatRow := by
      rw [List.map_map]
      exact List.map_congr_left fun info _ => entryRow_floatInfo info
    simp only [hrow, hentries]
    rfl
  · rw [hpids]
    exact h.nodup_report hrun
  · intro info hinfo
    obtain ⟨entry, hentry, rfl⟩ := List.mem_map.1 hinfo
    obtain ⟨hentry, hpid⟩ := List.mem_filter.1 hentry
    have hpid : entry.pid ≠ 0 := of_decide_eq_true hpid
    refine ⟨hpid, fun out => ?_⟩
    have hbits : (entry.bytes out).toNat = chargedBytes host S t hist entry.pid out := by
      rw [← claimed_pid h hsame (hbytes out) hrun, filter_pid_eq (h.nodup_report hrun) hentry hpid]
      exact (add_zero _).symm
    have hword : BitVec.ofNat 32 (chargedBytes host S t hist entry.pid out) = entry.bytes out := by
      rw [← hbits, BitVec.ofNat_toNat, BitVec.setWidth_eq]
    have hclose := tokbps_binary_close (entry.bytes out)
    rw [tokbps_exact, hbits] at hclose
    rw [amount_floatInfo, show (floatInfo entry).pid = entry.pid from rfl, hword]
    exact ⟨rfl, hclose⟩
  · intro pid hpid hno out
    have hnil : (proc_info.filter fun info => info.pid = pid) = [] := by
      rw [List.filter_eq_nil_iff]
      intro info hinfo heq
      rw [hpids] at hno
      refine hno (List.mem_filter.2 ⟨?_, decide_eq_true hpid⟩)
      exact of_decide_eq_true heq ▸ List.mem_map_of_mem hinfo
    rw [← claimed_pid h hsame (hbytes out) hrun, hnil]
    rfl

end Report

end Usage
