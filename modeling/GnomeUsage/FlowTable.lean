/-
Tables of windowed counters.

The abstract purpose of a traffic analyzer: for each flow, an incoming and an outgoing bucketed
time series (`GnomeUsage/Bucketed.lean`) and the stamp of the last arrival.  An arrival is added
to the entry of its key; a sweep drops the entries whose last arrival is too old, according to a
test given as a parameter, and cuts the series of the others.  Keys, stamps and weights are
arbitrary.

* `FlowTable.push`, `FlowTable.sweep` — the two operations, on lists of entries with distinct keys;
* `FlowTable.find` — the table as a partial function of the key, with `find_push` and
  `find_sweep`, the two rules that determine it;
* `FlowTable.seriesOf`, `FlowTable.Agree` — the table as a family of series, for which an empty
  entry is as good as none; tables that agree have the same totals (`Agree.report`);
* `FlowTable.agree_push_swap`, `FlowTable.agree_pushAll_perm` — **arrivals of different series,
  or with the same stamp, can be exchanged**, hence blocks of arrivals that pairwise can be
  exchanged can be taken in any order;
* `FlowTable.Ordered`, `FlowTable.weight_push`, `FlowTable.weight_sweep`,
  `FlowTable.report_sweep` — **conservation**: as long as every entry receives its arrivals
  in order, the totals of a report are the naive counts;
* `FlowTable.only`, `FlowTable.only_push`, `FlowTable.only_sweep` — **a part of a table is a
  table**, of the arrivals whose keys pass a test;
* `FlowTable.Remembers`, `FlowTable.Remembers.key_sweep_iff` — **the keys of a swept table** are
  those of the recent arrivals.
-/

import GnomeUsage.Bucketed
import Mathlib.Algebra.BigOperators.Group.Finset.Basic
import Mathlib.Data.List.Perm.Basic
import Mathlib.Data.List.Nodup

set_option relaxedAutoImplicit false
set_option autoImplicit false
set_option linter.unusedSectionVars false

namespace FlowTable

variable {κ τ μ : Type*}

/-- The counters of one flow. -/
structure Entry (τ μ : Type*) where
  sent : List (τ × μ)
  recv : List (τ × μ)
  last : τ

/-- An arrival: the flow it belongs to, its stamp, its weight and its direction. -/
structure Arrival (κ τ μ : Type*) where
  key : κ
  time : τ
  /-- The stamp as the entry remembers it, which may be a narrowed copy of `time`. -/
  mark : τ
  size : μ
  out : Bool

section Ops

variable [DecidableEq κ] [LinearOrder τ] [AddCommMonoid μ]

/-- The entry opened by an arrival. -/
def Arrival.entry (a : Arrival κ τ μ) : Entry τ μ :=
  if a.out then ⟨[(a.time, a.size)], [], a.mark⟩ else ⟨[], [(a.time, a.size)], a.mark⟩

/-- An arrival is added to the series of its direction. -/
def Entry.add (e : Entry τ μ) (a : Arrival κ τ μ) : Entry τ μ :=
  if a.out then { e with sent := Bucketed.add a.time a.size e.sent, last := a.mark }
  else { e with recv := Bucketed.add a.time a.size e.recv, last := a.mark }

/-- A query cuts both series. -/
def Entry.cut (c : τ) (e : Entry τ μ) : Entry τ μ :=
  { e with sent := Bucketed.cut c e.sent, recv := Bucketed.cut c e.recv }

/-- **An arrival** is added to the entry of its key, or opens one at the end. -/
def push (a : Arrival κ τ μ) : List (κ × Entry τ μ) → List (κ × Entry τ μ)
  | [] => [(a.key, a.entry)]
  | x :: l => if x.1 = a.key then (x.1, x.2.add a) :: l else x :: push a l

/-- **A sweep** drops the entries found dead and cuts the others. -/
def sweep (dead : τ → Bool) (c : τ) (l : List (κ × Entry τ μ)) : List (κ × Entry τ μ) :=
  (l.filter fun x => !dead x.2.last).map fun x => (x.1, x.2.cut c)

/-- The table as a partial function. -/
def find (k : κ) : List (κ × Entry τ μ) → Option (Entry τ μ)
  | [] => none
  | x :: l => if x.1 = k then some x.2 else find k l

/-- The series of one direction. -/
def Entry.series (out : Bool) (e : Entry τ μ) : List (τ × μ) := if out then e.sent else e.recv

/-- The totals of a table in one direction. -/
def report (out : Bool) (l : List (κ × Entry τ μ)) : μ :=
  (l.map fun x => Bucketed.total (x.2.series out)).sum

/-- The naive count of a table in one direction: all it carries strictly after `c`. -/
def weight (out : Bool) (c : τ) (l : List (κ × Entry τ μ)) : μ :=
  (l.map fun x => Bucketed.weight c (x.2.series out)).sum

end Ops

/-- No two entries have the same key. -/
def Distinct (l : List (κ × Entry τ μ)) : Prop := (l.map Prod.fst).Nodup

theorem distinct_nil : Distinct ([] : List (κ × Entry τ μ)) := List.nodup_nil

theorem distinct_cons {x : κ × Entry τ μ} {l : List (κ × Entry τ μ)} :
    Distinct (x :: l) ↔ (∀ y ∈ l, y.1 ≠ x.1) ∧ Distinct l := by
  simp only [Distinct, List.map_cons, List.nodup_cons, List.mem_map, not_exists, not_and, ne_eq]

section Find

variable [DecidableEq κ] [LinearOrder τ] [AddCommMonoid μ]

theorem find_cons (k : κ) (x : κ × Entry τ μ) (l : List (κ × Entry τ μ)) :
    find k (x :: l) = if x.1 = k then some x.2 else find k l := rfl

theorem sweep_cons (dead : τ → Bool) (c : τ) (x : κ × Entry τ μ) (l : List (κ × Entry τ μ)) :
    sweep dead c (x :: l) =
      if dead x.2.last then sweep dead c l else (x.1, x.2.cut c) :: sweep dead c l := by
  cases h : dead x.2.last <;> simp [sweep, h]

theorem weight_cons (out : Bool) (c : τ) (x : κ × Entry τ μ) (l : List (κ × Entry τ μ)) :
    weight out c (x :: l) = Bucketed.weight c (x.2.series out) + weight out c l := by
  simp [weight]

theorem find_eq_none {k : κ} {l : List (κ × Entry τ μ)} (h : ∀ x ∈ l, x.1 ≠ k) :
    find k l = none := by
  induction l with
  | nil => rfl
  | cons x l ih =>
      rw [find_cons, if_neg (h x List.mem_cons_self)]
      exact ih fun y hy => h y (List.mem_cons_of_mem _ hy)

theorem find_eq_some {k : κ} {e : Entry τ μ} {l : List (κ × Entry τ μ)} (hd : Distinct l) :
    find k l = some e ↔ (k, e) ∈ l := by
  induction l with
  | nil => simp [find]
  | cons x l ih =>
      obtain ⟨hx, hl⟩ := distinct_cons.1 hd
      rw [find_cons, List.mem_cons]
      by_cases hk : x.1 = k
      · subst hk
        rw [if_pos rfl, Option.some_inj]
        constructor
        · rintro rfl
          exact .inl rfl
        · rintro (heq | hmem)
          · exact (congrArg Prod.snd heq).symm
          · exact absurd rfl (hx (x.1, e) hmem)
      · rw [if_neg hk, ih hl]
        constructor
        · exact .inr
        · rintro (rfl | hmem)
          · exact absurd rfl hk
          · exact hmem

/-- **What an arrival does to the table.** -/
theorem find_push (k : κ) (a : Arrival κ τ μ) (l : List (κ × Entry τ μ)) :
    find k (push a l) =
      if k = a.key then some ((find k l).elim a.entry fun e => e.add a) else find k l := by
  induction l with
  | nil =>
      by_cases h : k = a.key
      · subst h
        simp [push, find]
      · have h' : ¬ a.key = k := fun hk => h hk.symm
        simp [push, find, h, h']
  | cons x l ih =>
      unfold push
      by_cases hx : x.1 = a.key
      · rw [if_pos hx]
        by_cases h : k = a.key
        · simp [find_cons, hx, h]
        · have h' : ¬ x.1 = k := fun hk => h (hk.symm.trans hx)
          simp [find_cons, h, h']
      · rw [if_neg hx, find_cons, find_cons, ih]
        by_cases hk : x.1 = k
        · have h : ¬ k = a.key := fun h => hx (hk.trans h)
          simp [hk, h]
        · simp [hk]

/-- **What a sweep does to the table.** -/
theorem find_sweep (dead : τ → Bool) (c : τ) (k : κ) {l : List (κ × Entry τ μ)}
    (hd : Distinct l) :
    find k (sweep dead c l) =
      (find k l).bind fun e => if dead e.last then none else some (e.cut c) := by
  induction l with
  | nil => rfl
  | cons x l ih =>
      obtain ⟨hx, hl⟩ := distinct_cons.1 hd
      rw [sweep_cons, find_cons]
      by_cases hk : x.1 = k
      · rw [if_pos hk]
        cases hdead : dead x.2.last with
        | true =>
            -- the key of a dropped entry occurs nowhere else
            have hnone : find k l = none := find_eq_none fun y hy => hk ▸ hx y hy
            simp [ih hl, hnone, hdead]
        | false => simp [find_cons, hk, hdead]
      · rw [if_neg hk]
        cases hdead : dead x.2.last with
        | true => simp [ih hl]
        | false => simp [find_cons, hk, ih hl]

/-! ### Distinct keys -/

theorem forall_key_push {p : κ → Prop} {a : Arrival κ τ μ} {l : List (κ × Entry τ μ)}
    (ha : p a.key) (hl : ∀ x ∈ l, p x.1) : ∀ x ∈ push a l, p x.1 := by
  induction l with
  | nil =>
      intro x hx
      obtain rfl : x = (a.key, a.entry) := by simpa [push] using hx
      exact ha
  | cons y l ih =>
      intro x hx
      have htail : ∀ x ∈ l, p x.1 := fun x hx => hl x (List.mem_cons_of_mem _ hx)
      unfold push at hx
      split at hx
      · rcases List.mem_cons.1 hx with rfl | hx
        · exact hl y List.mem_cons_self
        · exact htail x hx
      · rcases List.mem_cons.1 hx with rfl | hx
        · exact hl x List.mem_cons_self
        · exact ih htail x hx

theorem Distinct.push {a : Arrival κ τ μ} {l : List (κ × Entry τ μ)} (h : Distinct l) :
    Distinct (push a l) := by
  induction l with
  | nil => exact List.nodup_singleton _
  | cons x l ih =>
      obtain ⟨hx, hl⟩ := distinct_cons.1 h
      unfold FlowTable.push
      split
      · exact distinct_cons.2 ⟨hx, hl⟩
      · next hne => exact distinct_cons.2 ⟨forall_key_push (p := (· ≠ x.1)) (Ne.symm hne) hx, ih hl⟩

/-! ### The table as a family of series -/

@[simp] theorem Entry.series_cut (out : Bool) (c : τ) (e : Entry τ μ) :
    (e.cut c).series out = Bucketed.cut c (e.series out) := by
  cases out <;> rfl

theorem Entry.series_add (out : Bool) (a : Arrival κ τ μ) (e : Entry τ μ) :
    (e.add a).series out =
      if a.out = out then Bucketed.add a.time a.size (e.series out) else e.series out := by
  cases out <;> cases h : a.out <;> simp [Entry.add, Entry.series, h]

theorem Arrival.series_entry (out : Bool) (a : Arrival κ τ μ) :
    a.entry.series out = if a.out = out then [(a.time, a.size)] else [] := by
  cases out <;> cases h : a.out <;> simp [Arrival.entry, Entry.series, h]

/-- The series of a key, empty when there is no entry. -/
def seriesOf (out : Bool) (k : κ) (l : List (κ × Entry τ μ)) : List (τ × μ) :=
  (find k l).elim [] (Entry.series out)

/-- **What an arrival does to the series.** -/
theorem seriesOf_push (out : Bool) (k : κ) (a : Arrival κ τ μ) (l : List (κ × Entry τ μ)) :
    seriesOf out k (push a l) =
      if k = a.key ∧ a.out = out then Bucketed.add a.time a.size (seriesOf out k l)
      else seriesOf out k l := by
  unfold seriesOf
  rw [find_push]
  by_cases hk : k = a.key
  · rw [if_pos hk, Option.elim_some]
    cases find k l with
    | none =>
        rw [Option.elim_none, Option.elim_none, Arrival.series_entry]
        simp [hk, Bucketed.add]
    | some e =>
        rw [Option.elim_some, Option.elim_some, Entry.series_add]
        simp [hk]
  · rw [if_neg hk, if_neg fun h => hk h.1]

/-- **What a sweep does to the series**, when the entries it drops have nothing after the
cutoff. -/
theorem seriesOf_sweep {dead : τ → Bool} {c : τ} {l : List (κ × Entry τ μ)} (hd : Distinct l)
    (hold : ∀ x ∈ l, dead x.2.last = true → ∀ out, Bucketed.cut c (x.2.series out) = [])
    (out : Bool) (k : κ) :
    seriesOf out k (sweep dead c l) = Bucketed.cut c (seriesOf out k l) := by
  unfold seriesOf
  rw [find_sweep dead c k hd]
  cases hf : find k l with
  | none => rfl
  | some e =>
      rw [Option.bind_some, Option.elim_some]
      cases hdead : dead e.last with
      | true => exact (hold (k, e) ((find_eq_some hd).1 hf) hdead out).symm
      | false => exact Entry.series_cut out c e

theorem seriesOf_of_mem {l : List (κ × Entry τ μ)} (hd : Distinct l) {x : κ × Entry τ μ}
    (hx : x ∈ l) (out : Bool) : seriesOf out x.1 l = x.2.series out := by
  rw [seriesOf, (find_eq_some hd).2 hx, Option.elim_some]

/-- The totals of a table, as a sum over its keys. -/
theorem report_eq_sum (out : Bool) {l : List (κ × Entry τ μ)} (hd : Distinct l) :
    report out l = ∑ k ∈ (l.map Prod.fst).toFinset, Bucketed.total (seriesOf out k l) := by
  rw [List.sum_toFinset _ hd, List.map_map, report]
  congr 1
  refine List.map_congr_left ?_
  intro x hx
  rw [Function.comp_apply, seriesOf_of_mem hd hx]

/-- Two tables carry the same series, whatever entries they are spread over. -/
def Agree (l l' : List (κ × Entry τ μ)) : Prop :=
  ∀ out k, seriesOf out k l = seriesOf out k l'

/-- **Tables that carry the same series have the same totals.** -/
theorem Agree.report {l l' : List (κ × Entry τ μ)} (h : Agree l l') (hd : Distinct l)
    (hd' : Distinct l') (out : Bool) : report out l = report out l' := by
  have hzero : ∀ (m : List (κ × Entry τ μ)) (k : κ), k ∉ (m.map Prod.fst).toFinset →
      Bucketed.total (seriesOf out k m) = 0 := by
    intro m k hk
    have hnone : find k m = none := find_eq_none fun x hx hxk =>
      hk (List.mem_toFinset.2 (List.mem_map.2 ⟨x, hx, hxk⟩))
    rw [seriesOf, hnone]
    rfl
  rw [report_eq_sum out hd, report_eq_sum out hd',
    Finset.sum_subset Finset.subset_union_left fun k _ hk => hzero l k hk,
    Finset.sum_subset Finset.subset_union_right fun k _ hk => hzero l' k hk]
  exact Finset.sum_congr rfl fun k _ => by rw [h out k]

theorem Agree.push {l l' : List (κ × Entry τ μ)} (h : Agree l l') (a : Arrival κ τ μ) :
    Agree (push a l) (push a l') := by
  intro out k
  rw [seriesOf_push, seriesOf_push, h out k]

theorem Agree.sweep {dead : τ → Bool} {c : τ} {l l' : List (κ × Entry τ μ)} (h : Agree l l')
    (hd : Distinct l) (hd' : Distinct l')
    (hold : ∀ x ∈ l, dead x.2.last = true → ∀ out, Bucketed.cut c (x.2.series out) = [])
    (hold' : ∀ x ∈ l', dead x.2.last = true → ∀ out, Bucketed.cut c (x.2.series out) = []) :
    Agree (sweep dead c l) (sweep dead c l') := by
  intro out k
  rw [seriesOf_sweep hd hold, seriesOf_sweep hd' hold', h out k]

/-! ### Exchanging arrivals -/

/-- A block of arrivals. -/
def pushAll (as : List (Arrival κ τ μ)) (l : List (κ × Entry τ μ)) : List (κ × Entry τ μ) :=
  as.foldl (fun l a => push a l) l

theorem pushAll_cons (a : Arrival κ τ μ) (as : List (Arrival κ τ μ)) (l : List (κ × Entry τ μ)) :
    pushAll (a :: as) l = pushAll as (push a l) := rfl

theorem pushAll_append (as bs : List (Arrival κ τ μ)) (l : List (κ × Entry τ μ)) :
    pushAll (as ++ bs) l = pushAll bs (pushAll as l) :=
  List.foldl_append

theorem Agree.pushAll {l l' : List (κ × Entry τ μ)} (h : Agree l l')
    (as : List (Arrival κ τ μ)) : Agree (pushAll as l) (pushAll as l') := by
  induction as generalizing l l' with
  | nil => exact h
  | cons a as ih => exact ih (h.push a)

theorem Agree.trans {l l' l'' : List (κ × Entry τ μ)} (h : Agree l l') (h' : Agree l' l'') :
    Agree l l'' := by
  intro out k
  exact (h out k).trans (h' out k)

/-- Two arrivals can be exchanged when they go to different series or carry the same stamp. -/
def Exchangeable (a b : Arrival κ τ μ) : Prop :=
  a.key = b.key → a.out = b.out → a.time = b.time

/-- **Exchangeable arrivals lead to the same series.** -/
theorem agree_push_swap {a b : Arrival κ τ μ} (h : Exchangeable a b) (l : List (κ × Entry τ μ)) :
    Agree (push b (push a l)) (push a (push b l)) := by
  intro out k
  simp only [seriesOf_push]
  by_cases ha : k = a.key ∧ a.out = out
  · by_cases hb : k = b.key ∧ b.out = out
    · have htime : a.time = b.time := h (ha.1.symm.trans hb.1) (ha.2.trans hb.2.symm)
      simp only [if_pos ha, if_pos hb, htime]
      exact Bucketed.add_swap ..
    · simp only [if_pos ha, if_neg hb]
  · simp only [if_neg ha]

/-- An arrival can be moved behind a block of arrivals it can be exchanged with. -/
theorem agree_pushAll_push {a : Arrival κ τ μ} {as : List (Arrival κ τ μ)}
    (h : ∀ b ∈ as, Exchangeable a b) (l : List (κ × Entry τ μ)) :
    Agree (pushAll as (push a l)) (push a (pushAll as l)) := by
  induction as generalizing l with
  | nil =>
      intro out k
      rfl
  | cons b as ih =>
      have hswap := (agree_push_swap (h b List.mem_cons_self) l).pushAll as
      exact hswap.trans (ih (fun b' hb' => h b' (List.mem_cons_of_mem _ hb')) (push b l))

/-- Two blocks of arrivals can be exchanged when their arrivals can be, pairwise. -/
theorem agree_pushAll_swap {as bs : List (Arrival κ τ μ)}
    (h : ∀ a ∈ as, ∀ b ∈ bs, Exchangeable a b) (l : List (κ × Entry τ μ)) :
    Agree (pushAll bs (pushAll as l)) (pushAll as (pushAll bs l)) := by
  induction as generalizing l with
  | nil =>
      intro out k
      rfl
  | cons a as ih =>
      have hmove := (agree_pushAll_push (h a List.mem_cons_self) l).pushAll as
      have htail := ih (fun a' ha' => h a' (List.mem_cons_of_mem _ ha')) (push a l)
      exact htail.trans hmove

/-- **Blocks of arrivals that can be exchanged pairwise can be taken in any order.** -/
theorem agree_pushAll_perm {ι : Type*} (block : ι → List (Arrival κ τ μ)) {is js : List ι}
    (hperm : is.Perm js)
    (h : ∀ i ∈ is, ∀ j ∈ is, i ≠ j → ∀ a ∈ block i, ∀ b ∈ block j, Exchangeable a b)
    (l : List (κ × Entry τ μ)) :
    Agree (pushAll (is.flatMap block) l) (pushAll (js.flatMap block) l) := by
  induction hperm generalizing l with
  | nil =>
      intro out k
      rfl
  | cons i _ ih =>
      rw [List.flatMap_cons, List.flatMap_cons, pushAll_append, pushAll_append]
      exact ih (fun i hi j hj => h i (List.mem_cons_of_mem _ hi) j (List.mem_cons_of_mem _ hj)) _
  | swap i j is =>
      simp only [List.flatMap_cons, pushAll_append]
      refine Agree.pushAll ?_ _
      by_cases hij : j = i
      · rw [hij]
        intro out k
        rfl
      · exact agree_pushAll_swap (h j (by simp) i (by simp) hij) l
  | trans hij _ ih ih' =>
      refine (ih h l).trans (ih' ?_ l)
      intro i hi j hj
      exact h i (hij.mem_iff.2 hi) j (hij.mem_iff.2 hj)

/-! ### Conservation -/

/-- An entry whose arrivals came in order: both series are, and nothing is after the last
arrival. -/
structure Entry.Ordered (e : Entry τ μ) : Prop where
  newest : ∀ out, Bucketed.Newest (e.series out)
  le_last : ∀ out, ∀ b ∈ e.series out, b.1 ≤ e.last

@[simp] theorem Entry.last_add (a : Arrival κ τ μ) (e : Entry τ μ) : (e.add a).last = a.mark := by
  cases h : a.out <;> simp [Entry.add, h]

@[simp] theorem Arrival.last_entry (a : Arrival κ τ μ) : a.entry.last = a.mark := by
  cases h : a.out <;> simp [Arrival.entry, h]

theorem Arrival.ordered_entry {a : Arrival κ τ μ} (hmark : a.mark = a.time) : a.entry.Ordered := by
  constructor
  · intro out
    rw [a.series_entry]
    split
    · exact List.pairwise_singleton ..
    · exact List.Pairwise.nil
  · intro out b hb
    rw [a.series_entry] at hb
    split at hb
    · obtain rfl : b = (a.time, a.size) := by simpa using hb
      simp [hmark]
    · simp at hb

/-- An arrival not before the last one keeps an entry ordered. -/
theorem Entry.Ordered.add {e : Entry τ μ} (h : e.Ordered) {a : Arrival κ τ μ}
    (hmark : a.mark = a.time) (hlast : e.last ≤ a.time) : (e.add a).Ordered := by
  have hle : ∀ out, ∀ b ∈ e.series out, b.1 ≤ a.time :=
    fun out b hb => (h.le_last out b hb).trans hlast
  constructor
  · intro out
    rw [Entry.series_add]
    split
    · exact (h.newest out).add (hle out)
    · exact h.newest out
  · intro out b hb
    rw [Entry.last_add, hmark]
    rw [Entry.series_add] at hb
    split at hb
    · exact Bucketed.forall_mem_add (p := (· ≤ a.time)) le_rfl (hle out) b hb
    · exact hle out b hb

theorem Entry.Ordered.cut {e : Entry τ μ} (h : e.Ordered) (c : τ) : (e.cut c).Ordered := by
  constructor
  · intro out
    rw [Entry.series_cut]
    exact (h.newest out).cut
  · intro out b hb
    rw [Entry.series_cut] at hb
    exact h.le_last out b (Bucketed.mem_of_mem_cut hb)

/-- Every entry of the table is ordered. -/
def Ordered (l : List (κ × Entry τ μ)) : Prop := ∀ x ∈ l, x.2.Ordered

theorem Ordered.push {a : Arrival κ τ μ} {l : List (κ × Entry τ μ)} (h : Ordered l)
    (hmark : a.mark = a.time) (hlast : ∀ x ∈ l, x.1 = a.key → x.2.last ≤ a.time) :
    Ordered (push a l) := by
  induction l with
  | nil =>
      intro x hx
      obtain rfl : x = (a.key, a.entry) := by simpa [FlowTable.push] using hx
      exact Arrival.ordered_entry hmark
  | cons y l ih =>
      have htail : Ordered l := fun x hx => h x (List.mem_cons_of_mem _ hx)
      have hy : y.2.Ordered := h y List.mem_cons_self
      intro x hx
      unfold FlowTable.push at hx
      split at hx
      · next hkey =>
          rcases List.mem_cons.1 hx with rfl | hx
          · exact hy.add hmark (hlast y List.mem_cons_self hkey)
          · exact htail x hx
      · rcases List.mem_cons.1 hx with rfl | hx
        · exact hy
        · exact ih htail (fun x hx => hlast x (List.mem_cons_of_mem _ hx)) x hx

theorem Ordered.sweep {dead : τ → Bool} {c : τ} {l : List (κ × Entry τ μ)} (h : Ordered l) :
    Ordered (sweep dead c l) := by
  intro x hx
  obtain ⟨y, hy, rfl⟩ := List.mem_map.1 hx
  exact (h y (List.mem_of_mem_filter hy)).cut c

/-- **An arrival adds its weight, once, in its direction.** -/
theorem weight_push (out : Bool) (c : τ) (a : Arrival κ τ μ) (l : List (κ × Entry τ μ)) :
    weight out c (push a l) =
      weight out c l + if a.out = out ∧ c < a.time then a.size else 0 := by
  induction l with
  | nil =>
      rw [FlowTable.push, weight_cons, a.series_entry]
      by_cases h : a.out = out <;> simp [weight, h, Bucketed.weight_cons]
  | cons x l ih =>
      unfold FlowTable.push
      split
      · rw [weight_cons, weight_cons, Entry.series_add]
        by_cases h : a.out = out
        · simp only [h, if_true, true_and, Bucketed.weight_add]
          abel
        · simp [h]
      · rw [weight_cons, weight_cons, ih, add_assoc]

/-- **A sweep loses nothing that a later one counts**: what it drops is at or before `c'`. -/
theorem weight_sweep (out : Bool) {dead : τ → Bool} {c c' : τ} (hc : c ≤ c')
    (hdead : ∀ s, dead s = true → s ≤ c') {l : List (κ × Entry τ μ)} (h : Ordered l) :
    weight out c' (sweep dead c l) = weight out c' l := by
  induction l with
  | nil => rfl
  | cons x l ih =>
      have htail : Ordered l := fun x hx => h x (List.mem_cons_of_mem _ hx)
      have hx : x.2.Ordered := h x List.mem_cons_self
      rw [sweep_cons, weight_cons]
      cases hd : dead x.2.last with
      | true =>
          have hzero : Bucketed.weight c' (x.2.series out) = 0 :=
            Bucketed.weight_eq_zero fun b hb => (hx.le_last out b hb).trans (hdead _ hd)
          simp [ih htail, hzero]
      | false =>
          have hcut := Bucketed.weight_cut hc (hx.newest out)
          simp [weight_cons, ih htail, hcut]

/-- **A report is the naive count** at its own cutoff. -/
theorem report_sweep (out : Bool) {dead : τ → Bool} {c : τ}
    (hdead : ∀ s, dead s = true → s ≤ c) {l : List (κ × Entry τ μ)} (h : Ordered l) :
    report out (sweep dead c l) = weight out c l := by
  rw [← weight_sweep out le_rfl hdead h]
  simp only [report, weight, FlowTable.sweep, List.map_map]
  congr 1
  refine List.map_congr_left ?_
  intro x hx
  have hx : Bucketed.Newest (x.2.series out) := (h x (List.mem_of_mem_filter hx)).newest out
  simp only [Function.comp_apply, Entry.series_cut]
  rw [Bucketed.weight_cut le_rfl hx, Bucketed.total_cut hx]

/-! ### Restricting a table -/

/-- The entries whose key passes a test. -/
def only (q : κ → Bool) (l : List (κ × Entry τ μ)) : List (κ × Entry τ μ) :=
  l.filter fun x => q x.1

theorem only_cons (q : κ → Bool) (x : κ × Entry τ μ) (l : List (κ × Entry τ μ)) :
    only q (x :: l) = if q x.1 then x :: only q l else only q l := List.filter_cons

/-- **A restricted table takes the arrivals that pass the test**, and no others. -/
theorem only_push (q : κ → Bool) (a : Arrival κ τ μ) (l : List (κ × Entry τ μ)) :
    only q (push a l) = if q a.key then push a (only q l) else only q l := by
  induction l with
  | nil => exact only_cons q (a.key, a.entry) []
  | cons x l ih =>
      have hpush : ∀ l' : List (κ × Entry τ μ),
          push a (x :: l') = if x.1 = a.key then (x.1, x.2.add a) :: l' else x :: push a l' :=
        fun _ => rfl
      rw [hpush, only_cons]
      by_cases hx : x.1 = a.key
      · rw [if_pos hx, only_cons, hx]
        cases h : q a.key with
        | true => simp [hpush, hx]
        | false => simp
      · rw [if_neg hx, only_cons, ih]
        cases hqx : q x.1 with
        | true =>
            cases h : q a.key with
            | true => simp [hpush, hx]
            | false => simp
        | false => simp

/-- **Restricting commutes with a sweep.** -/
theorem only_sweep (q : κ → Bool) (dead : τ → Bool) (c : τ) (l : List (κ × Entry τ μ)) :
    only q (sweep dead c l) = sweep dead c (only q l) := by
  simp only [only, sweep, List.filter_map, List.filter_filter, Function.comp_def, Bool.and_comm]

theorem Ordered.only {q : κ → Bool} {l : List (κ × Entry τ μ)} (h : Ordered l) :
    Ordered (only q l) := fun x hx => h x (List.mem_of_mem_filter hx)

/-- What an arrival adds to a restricted table. -/
theorem weight_only_push (q : κ → Bool) (out : Bool) (c : τ) (a : Arrival κ τ μ)
    (l : List (κ × Entry τ μ)) :
    weight out c (only q (push a l)) =
      weight out c (only q l) + if q a.key ∧ a.out = out ∧ c < a.time then a.size else 0 := by
  rw [only_push]
  cases h : q a.key with
  | true => simp [weight_push]
  | false => simp

/-! ### What a table remembers -/

/-- An entry after an arrival is an old one, or that of the arrival. -/
theorem mem_push {a : Arrival κ τ μ} {l : List (κ × Entry τ μ)} {x : κ × Entry τ μ}
    (h : x ∈ push a l) : x ∈ l ∨ x.1 = a.key ∧ x.2.last = a.mark := by
  induction l with
  | nil =>
      obtain rfl : x = (a.key, a.entry) := by simpa [push] using h
      exact .inr ⟨rfl, a.last_entry⟩
  | cons y l ih =>
      unfold push at h
      split at h
      · next hkey =>
          rcases List.mem_cons.1 h with rfl | h
          · exact .inr ⟨hkey, y.2.last_add a⟩
          · exact .inl (List.mem_cons_of_mem _ h)
      · rcases List.mem_cons.1 h with rfl | h
        · exact .inl List.mem_cons_self
        · exact (ih h).imp_left (List.mem_cons_of_mem _)

/-- The entry of an arrival was touched by it. -/
theorem exists_mem_push (a : Arrival κ τ μ) (l : List (κ × Entry τ μ)) :
    ∃ x ∈ push a l, x.1 = a.key ∧ x.2.last = a.mark := by
  induction l with
  | nil => exact ⟨(a.key, a.entry), List.mem_singleton_self _, rfl, a.last_entry⟩
  | cons y l ih =>
      unfold push
      split
      · next hkey => exact ⟨_, List.mem_cons_self, hkey, y.2.last_add a⟩
      · obtain ⟨x, hx, hkey, hlast⟩ := ih
        exact ⟨x, List.mem_cons_of_mem _ hx, hkey, hlast⟩

/-- An old entry is still there, touched by the arrival or not. -/
theorem exists_mem_push_of_mem {a : Arrival κ τ μ} {l : List (κ × Entry τ μ)}
    {y : κ × Entry τ μ} (hy : y ∈ l) :
    ∃ x ∈ push a l, x.1 = y.1 ∧ (x.2.last = y.2.last ∨ x.2.last = a.mark) := by
  induction l with
  | nil => cases hy
  | cons z l ih =>
      unfold push
      split
      · rcases List.mem_cons.1 hy with rfl | hy
        · exact ⟨_, List.mem_cons_self, rfl, .inr (y.2.last_add a)⟩
        · exact ⟨y, List.mem_cons_of_mem _ hy, rfl, .inl rfl⟩
      · rcases List.mem_cons.1 hy with rfl | hy
        · exact ⟨y, List.mem_cons_self, rfl, .inl rfl⟩
        · obtain ⟨x, hx, hkey, hlast⟩ := ih hy
          exact ⟨x, List.mem_cons_of_mem _ hx, hkey, hlast⟩

/-- **The table remembers the arrivals since `c`**: an entry was last touched by an arrival of its
key, and an arrival marked after `c` has an entry. -/
structure Remembers (as : List (Arrival κ τ μ)) (c : τ) (l : List (κ × Entry τ μ)) : Prop where
  touched : ∀ x ∈ l, ∃ a ∈ as, a.key = x.1 ∧ a.mark = x.2.last
  kept : ∀ a ∈ as, c < a.mark → ∃ x ∈ l, x.1 = a.key ∧ a.mark ≤ x.2.last

theorem remembers_nil (c : τ) : Remembers ([] : List (Arrival κ τ μ)) c [] where
  touched := fun _ hx => absurd hx List.not_mem_nil
  kept := fun _ ha => absurd ha List.not_mem_nil

/-- An arrival with the latest mark is remembered as well. -/
theorem Remembers.push {as : List (Arrival κ τ μ)} {c : τ} {l : List (κ × Entry τ μ)}
    (h : Remembers as c l) {a : Arrival κ τ μ} (hle : ∀ b ∈ as, b.mark ≤ a.mark) :
    Remembers (as ++ [a]) c (FlowTable.push a l) where
  touched := by
    intro x hx
    rcases mem_push hx with hx | ⟨hkey, hlast⟩
    · obtain ⟨b, hb, hkey, hmark⟩ := h.touched x hx
      exact ⟨b, List.mem_append_left _ hb, hkey, hmark⟩
    · exact ⟨a, List.mem_append_right _ (List.mem_singleton_self a), hkey.symm, hlast.symm⟩
  kept := by
    intro b hb hc
    rcases List.mem_append.1 hb with hb | hb
    · obtain ⟨y, hy, hkey, hlast⟩ := h.kept b hb hc
      obtain ⟨x, hx, hxkey, hsame | hmark⟩ := @exists_mem_push_of_mem _ _ _ _ _ _ a l y hy
      · exact ⟨x, hx, hxkey.trans hkey, hsame ▸ hlast⟩
      · exact ⟨x, hx, hxkey.trans hkey, hmark ▸ hle b hb⟩
    · obtain rfl := List.mem_singleton.1 hb
      obtain ⟨x, hx, hkey, hlast⟩ := exists_mem_push b l
      exact ⟨x, hx, hkey, hlast.ge⟩

/-- A sweep forgets what was last touched at or before its limit. -/
theorem Remembers.sweep {as : List (Arrival κ τ μ)} {c c' d : τ} {l : List (κ × Entry τ μ)}
    (h : Remembers as c l) (hc : c ≤ c') {dead : τ → Bool}
    (hdead : ∀ s, dead s = true ↔ s ≤ c') : Remembers as c' (FlowTable.sweep dead d l) where
  touched := by
    intro x hx
    obtain ⟨y, hy, rfl⟩ := List.mem_map.1 hx
    exact h.touched y (List.mem_of_mem_filter hy)
  kept := by
    intro a ha hlt
    obtain ⟨y, hy, hkey, hlast⟩ := h.kept a ha (lt_of_le_of_lt hc hlt)
    refine ⟨_, List.mem_map.2 ⟨y, List.mem_filter.2 ⟨hy, ?_⟩, rfl⟩, hkey, hlast⟩
    cases hd : dead y.2.last with
    | true => exact absurd ((hlast.trans ((hdead _).1 hd))) (not_le.2 hlt)
    | false => rfl

/-- **The keys of a swept table** are those of the arrivals since its limit. -/
theorem Remembers.key_sweep_iff {as : List (Arrival κ τ μ)} {c c' d : τ}
    {l : List (κ × Entry τ μ)} (h : Remembers as c l) (hc : c ≤ c') {dead : τ → Bool}
    (hdead : ∀ s, dead s = true ↔ s ≤ c') {k : κ} :
    k ∈ (FlowTable.sweep dead d l).map Prod.fst ↔ ∃ a ∈ as, a.key = k ∧ c' < a.mark := by
  rw [List.mem_map]
  constructor
  · rintro ⟨x, hx, rfl⟩
    obtain ⟨y, hy, rfl⟩ := List.mem_map.1 hx
    obtain ⟨hy, hlive⟩ := List.mem_filter.1 hy
    obtain ⟨a, ha, hkey, hmark⟩ := h.touched y hy
    refine ⟨a, ha, hkey, not_le.1 ?_⟩
    intro hle
    rw [(hdead _).2 (hmark ▸ hle)] at hlive
    cases hlive
  · rintro ⟨a, ha, rfl, hlt⟩
    obtain ⟨x, hx, hkey, _⟩ := (h.sweep hc hdead).kept a ha hlt
    exact ⟨x, hx, hkey⟩

end Find

end FlowTable
