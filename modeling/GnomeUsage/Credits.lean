/-
Whose bytes a connection carries.

A connection is handed to a process when it is opened, and the process may be dropped, and made
again under the same id, while the connection goes on.  This module notes beside a run, once and for
all, which process every connection was handed to, also of connections that are freed or that no
process lists any more, so that the bytes of a process can be told without its list of connections.

* `Account` — a process across its records: a known one by its id, an unknown one by its name;
* `credit` — the accounts of the connections after a step;
* `listed_step` — what a process lists after a step, a process of its account listed before;
* `Credited`, `credited_step` — **a process lists connections of its own account only**;
* `sum_listed` — the connections of an account that are listed, among all of the account.
-/

import GnomeUsage.Lists
import GnomeUsage.Ownership

set_option relaxedAutoImplicit false
set_option autoImplicit false

namespace NetworkAnalyzer

/-- A process, whichever record stands for it. -/
inductive Account where
  | known (pid : ℤ)
  | unknown (name : Option CStr)
  deriving DecidableEq

/-- The account of a process id and a name; the unknown processes, which have no id, go by their
names. -/
def accountOf (pid : ℤ) (name : Option CStr) : Account :=
  if pid = 0 then .unknown name else .known pid

def NAProcess.account (process : NAProcess) : Account := accountOf process.pid process.name

def NAProcInfo.account (info : NAProcInfo) : Account := accountOf info.pid info.name

/-- The accounts of the connections, once the state is `σ`: what a process lists for the first time
is credited to it, for ever. -/
def credit (owner : Ptr → Option Account) (σ : NAState) (c : Ptr) : Option Account :=
  (owner c).or ((σ.processes.find? fun process => c ∈ process.connections).map NAProcess.account)

/-! ### What a process lists -/

/-- The process of a look-up is in the list, or lists nothing. -/
theorem mem_selectProcess {processes : List NAProcess} {lookup : ProcessLookup} {key : CStr}
    {process : NAProcess} (h : process ∈ (selectProcess processes lookup key).1) :
    process ∈ processes ∨ process.connections = [] := by
  unfold selectProcess at h
  split at h
  · split at h
    · exact .inl h
    · exact (List.mem_append.1 h).imp_right fun h => by rw [List.mem_singleton.1 h]; rfl
  · exact (List.mem_append.1 h).imp_right fun h => by rw [List.mem_singleton.1 h]; rfl

/-- A connection that a process lists after one was attached was listed by a process of the same
account, or is the one that was attached. -/
theorem listed_attached {processes : List NAProcess} {lookup : ProcessLookup} {key : CStr}
    {c d : Ptr} {process : NAProcess}
    (h : process ∈ (selectProcess processes lookup key).1.modify
      (selectProcess processes lookup key).2 (NAProcess.attach c)) (hd : d ∈ process.connections) :
    (∃ q ∈ processes, d ∈ q.connections ∧ q.account = process.account) ∨ d = c := by
  have hlisted : ∀ q ∈ (selectProcess processes lookup key).1, q.account = process.account →
      d ∈ q.connections → ∃ q ∈ processes, d ∈ q.connections ∧ q.account = process.account := by
    intro q hq haccount hd
    rcases mem_selectProcess hq with hq | hnil
    · exact ⟨q, hq, hd, haccount⟩
    · rw [hnil] at hd
      cases hd
  rcases Lists.mem_modify h with hp | ⟨q, hq, rfl⟩
  · exact .inl (hlisted process hp rfl hd)
  · rcases List.mem_append.1 hd with hd | hd
    · exact .inl (hlisted q hq rfl hd)
    · exact .inr (List.mem_singleton.1 hd)

variable (host : Host)

/-- **What a process lists after a step** was listed by a process of its account, or is new. -/
theorem listed_step {σ σ' : NAState} (h : σ.Ok) {e : Event} (hstep : step host σ e = some σ')
    {process : NAProcess} (hp : process ∈ σ'.processes) {c : Ptr} (hc : c ∈ process.connections) :
    (∃ q ∈ σ.processes, c ∈ q.connections ∧ q.account = process.account) ∨ c = σ.store.fresh := by
  cases e with
  | push header address s_port d_port lookup =>
      cases pushNAPacket_step host h (pushed_packetOf header address s_port d_port).built hstep with
      | found _ _ _ _ heq =>
          subst heq
          exact .inl ⟨process, hp, hc, rfl⟩
      | opened _ _ heq =>
          subst heq
          exact listed_attached hp hc
  | refresh t =>
      simp only [step, naProcessInfoGetAll_eq h, Option.map_some] at hstep
      cases hstep
      obtain ⟨q, hq, rfl⟩ := List.mem_map.1 hp
      exact .inl ⟨q, List.mem_of_mem_filter hq, (mem_keep.1 hc).1, rfl⟩

/-- In lists without a common element, an element is found in the list that has it. -/
theorem find?_listed {processes : List NAProcess} (h : (ownedBy processes).Nodup) {c : Ptr}
    {process : NAProcess} (hp : process ∈ processes) (hc : c ∈ process.connections) :
    processes.find? (fun q => c ∈ q.connections) = some process := by
  cases hfind : processes.find? fun q => c ∈ q.connections with
  | none => exact absurd hc (by simpa using List.find?_eq_none.1 hfind process hp)
  | some q =>
      have hcq : c ∈ q.connections := by simpa using List.find?_some hfind
      obtain ⟨i, hi⟩ := List.mem_iff_getElem?.1 hp
      obtain ⟨j, hj⟩ := List.mem_iff_getElem?.1 (List.mem_of_find?_eq_some hfind)
      obtain rfl := index_unique_of_nodup h hi hc hj hcq
      exact hj.symm.trans hi

/-! ### The accounts along a run -/

/-- **The accounts are in order**: nothing is noted of an address that was never allocated, and a
process lists connections of its own account only. -/
structure Credited (owner : Ptr → Option Account) (σ : NAState) : Prop where
  fresh : ∀ c, σ.store.fresh ≤ c → owner c = none
  listed : ∀ process ∈ σ.processes, ∀ c ∈ process.connections, owner c = some process.account

theorem credited_init : Credited (fun _ => none) NAState.init where
  fresh := fun _ _ => rfl
  listed := fun process hp => by cases hp

/-- Allocated addresses stay allocated. -/
theorem fresh_le_step {σ σ' : NAState} (h : σ.Ok) {e : Event} (hstep : step host σ e = some σ') :
    σ.store.fresh ≤ σ'.store.fresh := by
  cases e with
  | push header address s_port d_port lookup =>
      cases pushNAPacket_step host h (pushed_packetOf header address s_port d_port).built hstep with
      | found _ _ _ _ heq =>
          subst heq
          exact le_rfl
      | opened _ _ heq =>
          subst heq
          exact Nat.le_succ _
  | refresh t =>
      simp only [step, naProcessInfoGetAll_eq h, Option.map_some] at hstep
      cases hstep
      exact le_rfl

/-- **A step keeps the accounts in order.** -/
theorem credited_step {owner : Ptr → Option Account} {σ σ' : NAState} (h : σ.Ok)
    (hcredited : Credited owner σ) {e : Event} (hstep : step host σ e = some σ') :
    Credited (credit owner σ') σ' := by
  obtain ⟨s, hs, hok⟩ := step_ok host h e
  obtain rfl : s = σ' := Option.some_inj.1 (hs.symm.trans hstep)
  refine ⟨?_, ?_⟩
  · intro c hc
    have hnone := hcredited.fresh c ((fresh_le_step host h hstep).trans hc)
    rw [credit, hnone, Option.none_or, Option.map_eq_none_iff, List.find?_eq_none]
    intro process hp hmem
    have hlt := hok.store.lt_fresh c
      (hok.owned c (mem_ownedBy.2 ⟨process, hp, by simpa using hmem⟩))
    exact absurd hlt (not_lt.2 hc)
  · intro process hp c hc
    rw [credit, find?_listed hok.owned_nodup hp hc, Option.map_some]
    rcases listed_step host h hstep hp hc with ⟨q, hq, hcq, haccount⟩ | rfl
    · rw [hcredited.listed q hq c hcq, haccount, Option.some_or]
    · rw [hcredited.fresh _ le_rfl, Option.none_or]

/-! ### The connections of an account -/

/-- All connections, freed ones and orphans too, that were ever credited to the account. -/
def creditedTo (owner : Ptr → Option Account) (σ : NAState) (account : Account) : List Ptr :=
  (List.range σ.store.fresh).filter fun c => owner c = some account

theorem mem_creditedTo {owner : Ptr → Option Account} {σ : NAState} {account : Account} {c : Ptr} :
    c ∈ creditedTo owner σ account ↔ c < σ.store.fresh ∧ owner c = some account := by
  simp [creditedTo]

theorem sum_ownedBy (f : Ptr → ℕ) (processes : List NAProcess) :
    ((ownedBy processes).map f).sum =
      (processes.map fun process => (process.connections.map f).sum).sum := by
  induction processes with
  | nil => rfl
  | cons process processes ih =>
      rw [ownedBy_cons, List.map_append, List.sum_append, ih, List.map_cons, List.sum_cons]

/-- **The sum over what the processes of an account list** is one over all its connections, if the
others count for nothing. -/
theorem sum_listed {owner : Ptr → Option Account} {σ : NAState} (h : σ.Ok)
    (hcredited : Credited owner σ) {processes : List NAProcess}
    (hsub : processes.Sublist σ.processes) (account : Account) {f : Ptr → ℕ}
    (hf : ∀ c, c ∉ ownedBy processes → f c = 0) :
    ((ownedBy (processes.filter fun process => process.account = account)).map f).sum =
      ((creditedTo owner σ account).map f).sum := by
  have hmine : ∀ {c : Ptr},
      c ∈ ownedBy (processes.filter fun process => process.account = account) ↔
        c ∈ ownedBy processes ∧ owner c = some account := by
    intro c
    constructor
    · intro hc
      obtain ⟨process, hp, hc⟩ := mem_ownedBy.1 hc
      obtain ⟨hp, haccount⟩ := List.mem_filter.1 hp
      refine ⟨mem_ownedBy.2 ⟨process, hp, hc⟩, ?_⟩
      rw [hcredited.listed process (hsub.subset hp) c hc, of_decide_eq_true haccount]
    · rintro ⟨hc, howner⟩
      obtain ⟨process, hp, hc⟩ := mem_ownedBy.1 hc
      refine mem_ownedBy.2 ⟨process, List.mem_filter.2 ⟨hp, decide_eq_true ?_⟩, hc⟩
      rw [hcredited.listed process (hsub.subset hp) c hc] at howner
      exact Option.some_inj.1 howner
  have hnodup : (ownedBy (processes.filter fun process => process.account = account)).Nodup :=
    h.owned_nodup.sublist ((List.filter_sublist.trans hsub).flatMap _)
  refine Lists.sum_map_of_subset (List.nodup_range.filter _) hnodup ?_ ?_
  · intro c hc
    obtain ⟨hc, howner⟩ := hmine.1 hc
    refine mem_creditedTo.2 ⟨?_, howner⟩
    obtain ⟨process, hp, hc⟩ := mem_ownedBy.1 hc
    exact h.store.lt_fresh c (h.owned c (mem_ownedBy.2 ⟨process, hsub.subset hp, hc⟩))
  · intro c hc hnot
    refine hf c fun hlisted => hnot (hmine.2 ⟨hlisted, (mem_creditedTo.1 hc).2⟩)

end NetworkAnalyzer
