/-
Tables of objects.

A hash table that owns its objects: a key is mapped to the address of an object, the objects are
allocated and freed, and every object carries the key it is stored under.  Loops walk a list of
the addresses that was made before; an address of an object that has been freed since must not be
read, so that every access is partial.

* `ObjectTable` — the table, the objects and the addresses that have been given out;
* `ObjectTable.Ok` — every key has an object, which carries the key;
* `ObjectTable.find` — the object behind a key;
* `ObjectTable.Frame` — what an operation on one key leaves alone;
* `ObjectTable.update_spec`, `insert_spec`, `remove_spec` — **one operation**: it is defined, keeps
  the invariant, and changes the object behind one key;
* `ObjectTable.updateAll_values`, `removeDead_values` — **a loop over all objects**: it changes each
  of them, or removes the dead ones.
-/

import Mathlib.Data.List.AList

set_option relaxedAutoImplicit false
set_option autoImplicit false

variable {κ α : Type*}

/-- A table of objects: where the object of a key is, the objects, and the first address that has
never been given out. -/
structure ObjectTable (κ α : Type*) where
  table : AList fun _ : κ => ℕ
  heap : ℕ → Option α
  fresh : ℕ

namespace ObjectTable

variable [DecidableEq κ]

def empty : ObjectTable κ α := ⟨∅, fun _ => none, 0⟩

/-- The address of the object behind a key. -/
def address (t : ObjectTable κ α) (k : κ) : Option ℕ := t.table.lookup k

/-- The object behind a key. -/
def find (t : ObjectTable κ α) (k : κ) : Option α := (t.address k).bind t.heap

/-- The addresses of all objects, in the order of the table. -/
def values (t : ObjectTable κ α) : List ℕ := t.table.entries.map Sigma.snd

/-- Writing the object at an address; `none` if it has been freed. -/
def update (t : ObjectTable κ α) (p : ℕ) (f : α → α) : Option (ObjectTable κ α) :=
  (t.heap p).map fun x => { t with heap := Function.update t.heap p (some (f x)) }

/-- A new object under a key. -/
def insert (t : ObjectTable κ α) (k : κ) (x : α) : ObjectTable κ α where
  table := t.table.insert k t.fresh
  heap := Function.update t.heap t.fresh (some x)
  fresh := t.fresh + 1

/-- Removing a key, which frees its object. -/
def remove (t : ObjectTable κ α) (k : κ) : ObjectTable κ α where
  table := t.table.erase k
  heap := (t.address k).elim t.heap fun p => Function.update t.heap p none
  fresh := t.fresh

/-- A loop that writes the objects of a list. -/
def updateAll (f : α → α) : List ℕ → ObjectTable κ α → Option (ObjectTable κ α)
  | [], t => some t
  | p :: ps, t => (t.update p f).bind (updateAll f ps)

/-- A loop that removes the dead objects of a list, each by the key it carries. -/
def removeDead (key : α → κ) (dead : α → Bool) :
    List ℕ → ObjectTable κ α → Option (ObjectTable κ α)
  | [], t => some t
  | p :: ps, t => (t.heap p).bind fun x =>
      removeDead key dead ps (if dead x then t.remove (key x) else t)

/-! ### The invariant -/

/-- Every key has an object, and the object carries the key. -/
structure Ok (key : α → κ) (t : ObjectTable κ α) : Prop where
  object : ∀ k p, t.address k = some p → ∃ x, t.heap p = some x ∧ key x = k
  lt_fresh : ∀ k p, t.address k = some p → p < t.fresh

variable {key : α → κ} {t : ObjectTable κ α}

theorem ok_empty : (empty : ObjectTable κ α).Ok key where
  object := fun k p h => by simp [empty, address] at h
  lt_fresh := fun k p h => by simp [empty, address] at h

/-- Two keys have different objects. -/
theorem Ok.inj (h : t.Ok key) {k k' : κ} {p : ℕ} (hk : t.address k = some p)
    (hk' : t.address k' = some p) : k = k' := by
  obtain ⟨x, hx, rfl⟩ := h.object k p hk
  obtain ⟨x', hx', rfl⟩ := h.object k' p hk'
  rw [hx] at hx'
  rw [Option.some_inj.1 hx']

/-- A key of the table has an object. -/
theorem Ok.find_of_address (h : t.Ok key) {k : κ} {p : ℕ} (hk : t.address k = some p) :
    ∃ x, t.find k = some x ∧ t.heap p = some x ∧ key x = k := by
  obtain ⟨x, hx, hkey⟩ := h.object k p hk
  exact ⟨x, by rw [find, hk, Option.bind_some, hx], hx, hkey⟩

theorem Ok.find_eq_none_iff (h : t.Ok key) {k : κ} : t.find k = none ↔ t.address k = none := by
  cases haddr : t.address k with
  | none => simp [find, haddr]
  | some p =>
      obtain ⟨x, hx, _⟩ := h.find_of_address haddr
      simp [hx]

theorem mem_values {p : ℕ} : p ∈ t.values ↔ ∃ k, t.address k = some p := by
  simp only [values, List.mem_map, address]
  constructor
  · rintro ⟨⟨k, q⟩, hmem, rfl⟩
    exact ⟨k, AList.mem_lookup_iff.2 hmem⟩
  · rintro ⟨k, hk⟩
    exact ⟨⟨k, p⟩, AList.mem_lookup_iff.1 hk, rfl⟩

/-- No address is listed twice. -/
theorem Ok.nodup_values (h : t.Ok key) : t.values.Nodup := by
  refine List.Nodup.map_on ?_ t.table.nodupKeys.nodup
  rintro ⟨k, p⟩ hk ⟨k', p'⟩ hk' heq
  obtain rfl : p = p' := heq
  rw [h.inj (AList.mem_lookup_iff.2 hk) (AList.mem_lookup_iff.2 hk')]

/-! ### One operation -/

/-- **The frame** of an operation on one key: the other keys and their objects stay. -/
structure Frame (k : κ) (t t' : ObjectTable κ α) : Prop where
  address : ∀ k', k' ≠ k → t'.address k' = t.address k'
  heap : ∀ k' p, k' ≠ k → t.address k' = some p → t'.heap p = t.heap p
  fresh : t.fresh ≤ t'.fresh

/-- Only the object of the key is another one. -/
theorem Frame.find_eq {k : κ} {t' : ObjectTable κ α} (frame : Frame k t t') :
    t'.find = Function.update t.find k (t'.find k) := by
  funext k'
  by_cases hkk : k' = k
  · rw [hkk, Function.update_self]
  · rw [Function.update_of_ne hkk, find, find, frame.address k' hkk]
    cases hk' : t.address k' with
    | none => rfl
    | some p => exact frame.heap k' p hkk hk'

/-- The invariant is kept if the key has an object that carries it. -/
theorem Frame.ok {k : κ} {t' : ObjectTable κ α} (frame : Frame k t t') (h : t.Ok key)
    (hself : ∀ p, t'.address k = some p →
      p < t'.fresh ∧ ∃ x, t'.heap p = some x ∧ key x = k) : t'.Ok key := by
  refine ⟨?_, ?_⟩
  · intro k' p hk'
    by_cases hkk : k' = k
    · subst hkk
      exact (hself p hk').2
    · rw [frame.address k' hkk] at hk'
      obtain ⟨x, hx, hkey⟩ := h.object k' p hk'
      exact ⟨x, by rw [frame.heap k' p hkk hk', hx], hkey⟩
  · intro k' p hk'
    by_cases hkk : k' = k
    · subst hkk
      exact (hself p hk').1
    · rw [frame.address k' hkk] at hk'
      exact Nat.lt_of_lt_of_le (h.lt_fresh k' p hk') frame.fresh

/-- **Writing an object** that keeps its key. -/
theorem Ok.update_spec (h : t.Ok key) {k : κ} {p : ℕ} (hk : t.address k = some p) {f : α → α}
    (hf : ∀ x, key (f x) = key x) :
    ∃ t', t.update p f = some t' ∧ t'.Ok key ∧ t'.table = t.table ∧ t'.fresh = t.fresh ∧
      t'.find = Function.update t.find k ((t.find k).map f) := by
  obtain ⟨x, hfind, hx, hkey⟩ := h.find_of_address hk
  have hupdate : t.update p f =
      some { t with heap := Function.update t.heap p (some (f x)) } := by
    rw [update, hx, Option.map_some]
  have frame : Frame k t { t with heap := Function.update t.heap p (some (f x)) } := by
    refine ⟨fun _ _ => rfl, ?_, le_rfl⟩
    intro k' p' hkk hk'
    have hne : p' ≠ p := fun heq => hkk (h.inj hk' (heq ▸ hk))
    exact Function.update_of_ne hne _ _
  have hself : Function.update t.heap p (some (f x)) p = some (f x) := Function.update_self ..
  refine ⟨_, hupdate, frame.ok h ?_, rfl, rfl, ?_⟩
  · intro q hq
    obtain rfl : q = p := Option.some_inj.1 (hq.symm.trans hk)
    exact ⟨h.lt_fresh k q hk, f x, hself, (hf x).trans hkey⟩
  · rw [frame.find_eq, hfind, Option.map_some]
    congr 1
    exact (congrArg (Option.bind · _) hk).trans hself

theorem address_insert (k : κ) (x : α) :
    (t.insert k x).address = Function.update t.address k (some t.fresh) := by
  funext k'
  by_cases hkk : k' = k
  · subst hkk
    rw [Function.update_self]
    exact AList.lookup_insert _
  · rw [Function.update_of_ne hkk]
    exact AList.lookup_insert_ne hkk

/-- **A new object** under a key that has none. -/
theorem Ok.insert_spec (h : t.Ok key) {k : κ} {x : α} (hx : key x = k) :
    (t.insert k x).Ok key ∧ (t.insert k x).address = Function.update t.address k (some t.fresh) ∧
      (t.insert k x).find = Function.update t.find k (some x) := by
  have haddr : (t.insert k x).address k = some t.fresh := by
    rw [address_insert, Function.update_self]
  have hself : (t.insert k x).heap t.fresh = some x := Function.update_self ..
  have frame : Frame k t (t.insert k x) := by
    refine ⟨?_, ?_, Nat.le_succ _⟩
    · intro k' hkk
      rw [address_insert, Function.update_of_ne hkk]
    · intro k' p _ hk'
      -- the new address is not one of the old ones
      exact Function.update_of_ne (Nat.ne_of_lt (h.lt_fresh k' p hk')) _ _
  refine ⟨frame.ok h ?_, address_insert k x, ?_⟩
  · intro p hp
    obtain rfl : t.fresh = p := Option.some_inj.1 (haddr.symm.trans hp)
    exact ⟨Nat.lt_succ_self _, x, hself, hx⟩
  · rw [frame.find_eq, find, haddr, Option.bind_some, hself]

theorem address_remove (k : κ) :
    (t.remove k).address = Function.update t.address k none := by
  funext k'
  by_cases hkk : k' = k
  · subst hkk
    rw [Function.update_self]
    exact AList.lookup_erase _ _
  · rw [Function.update_of_ne hkk]
    exact AList.lookup_erase_ne hkk

/-- **Removing a key.** -/
theorem Ok.remove_spec (h : t.Ok key) (k : κ) :
    (t.remove k).Ok key ∧ (t.remove k).address = Function.update t.address k none ∧
      (t.remove k).find = Function.update t.find k none := by
  have haddr : (t.remove k).address k = none := by
    rw [address_remove, Function.update_self]
  have frame : Frame k t (t.remove k) := by
    refine ⟨?_, ?_, le_rfl⟩
    · intro k' hkk
      rw [address_remove, Function.update_of_ne hkk]
    · intro k' p hkk hk'
      simp only [remove]
      cases hk : t.address k with
      | none => rfl
      | some q =>
          have hne : p ≠ q := fun heq => hkk (h.inj hk' (heq ▸ hk))
          exact Function.update_of_ne hne _ _
  refine ⟨frame.ok h ?_, address_remove k, ?_⟩
  · intro p hp
    rw [haddr] at hp
    cases hp
  · rw [frame.find_eq, find, haddr, Option.bind_none]

/-! ### Loops over the objects -/

/-- A loop that writes objects of the table. -/
theorem Ok.updateAll_spec (h : t.Ok key) {f : α → α} (hf : ∀ x, key (f x) = key x) {ps : List ℕ}
    (hps : ∀ p ∈ ps, p ∈ t.values) (hnodup : ps.Nodup) :
    ∃ t', updateAll f ps t = some t' ∧ t'.Ok key ∧ t'.table = t.table ∧ t'.fresh = t.fresh ∧
      ∀ k p, t.address k = some p →
        (p ∈ ps → t'.find k = (t.find k).map f) ∧ (p ∉ ps → t'.find k = t.find k) := by
  induction ps generalizing t with
  | nil => exact ⟨t, rfl, h, rfl, rfl, fun k p _ => ⟨fun hp => absurd hp List.not_mem_nil,
      fun _ => rfl⟩⟩
  | cons p ps ih =>
      obtain ⟨hp, hnodup⟩ := List.nodup_cons.1 hnodup
      obtain ⟨k, hk⟩ := mem_values.1 (hps p List.mem_cons_self)
      obtain ⟨m, hm, hok, htable, hfresh, hfind⟩ := h.update_spec hk hf
      have haddr : m.address = t.address := by
        funext j
        rw [address, address, htable]
      have hvalues : ∀ q ∈ ps, q ∈ m.values := by
        intro q hq
        rw [values, htable]
        exact hps q (List.mem_cons_of_mem _ hq)
      obtain ⟨t', ht', hok', htable', hfresh', hall⟩ := ih hok hvalues hnodup
      refine ⟨t', by rw [updateAll, hm, Option.bind_some, ht'], hok', htable'.trans htable,
        hfresh'.trans hfresh, ?_⟩
      intro k' p' hk'
      obtain ⟨hin, hout⟩ := hall k' p' (haddr ▸ hk')
      by_cases hkk : k' = k
      · subst hkk
        obtain rfl : p' = p := Option.some_inj.1 (hk'.symm.trans hk)
        refine ⟨fun _ => ?_, fun hnot => absurd List.mem_cons_self hnot⟩
        rw [hout hp, hfind, Function.update_self]
      · have hpp : p' ≠ p := fun heq => hkk (h.inj hk' (heq ▸ hk))
        rw [hfind, Function.update_of_ne hkk] at hin hout
        refine ⟨fun hmem => hin ?_, fun hnot => hout ?_⟩
        · exact (List.mem_cons.1 hmem).resolve_left hpp
        · exact fun hmem => hnot (List.mem_cons_of_mem _ hmem)

/-- **A loop that writes all objects.** -/
theorem Ok.updateAll_values (h : t.Ok key) {f : α → α} (hf : ∀ x, key (f x) = key x) :
    ∃ t', updateAll f t.values t = some t' ∧ t'.Ok key ∧ t'.table = t.table ∧
      t'.fresh = t.fresh ∧ ∀ k, t'.find k = (t.find k).map f := by
  obtain ⟨t', ht', hok, htable, hfresh, hall⟩ := h.updateAll_spec hf (fun _ hp => hp)
    h.nodup_values
  refine ⟨t', ht', hok, htable, hfresh, ?_⟩
  intro k
  cases hk : t.address k with
  | some p => exact (hall k p hk).1 (mem_values.2 ⟨k, hk⟩)
  | none =>
      have hk' : t'.address k = none := by rw [address, htable, ← address, hk]
      rw [h.find_eq_none_iff.2 hk, hok.find_eq_none_iff.2 hk']
      rfl

/-- What a loop over `ps` that removes the dead objects leaves of a table. -/
structure Swept (dead : α → Bool) (ps : List ℕ) (t t' : ObjectTable κ α) : Prop where
  gone : ∀ k p x, t.address k = some p → t.find k = some x → p ∈ ps → dead x = true →
    t'.address k = none
  kept : ∀ k p x, t.address k = some p → t.find k = some x → (p ∈ ps → dead x = false) →
    t'.address k = some p ∧ t'.find k = some x
  absent : ∀ k, t.address k = none → t'.address k = none

/-- A dead object is removed first, and the loop goes on over other objects. -/
theorem Ok.swept_remove (h : t.Ok key) {dead : α → Bool} {k : κ} {p : ℕ} {x : α}
    (hk : t.address k = some p) (hx : t.find k = some x) (hdead : dead x = true) {ps : List ℕ}
    {t' : ObjectTable κ α} (hswept : Swept dead ps (t.remove k) t') :
    Swept dead (p :: ps) t t' := by
  obtain ⟨_, haddr, hfind⟩ := h.remove_spec k
  have hother : ∀ {k' : κ}, k' ≠ k →
      (t.remove k).address k' = t.address k' ∧ (t.remove k).find k' = t.find k' := by
    intro k' hkk
    rw [haddr, hfind, Function.update_of_ne hkk, Function.update_of_ne hkk]
    exact ⟨rfl, rfl⟩
  have hself : t'.address k = none := by
    refine hswept.absent k ?_
    rw [haddr, Function.update_self]
  refine ⟨?_, ?_, ?_⟩
  · intro k' p' y hk' hy hmem hyd
    by_cases hkk : k' = k
    · rw [hkk, hself]
    · obtain ⟨ha, hf⟩ := hother hkk
      refine hswept.gone k' p' y (ha.trans hk') (hf.trans hy) ?_ hyd
      exact (List.mem_cons.1 hmem).resolve_left fun heq => hkk (h.inj hk' (heq ▸ hk))
  · intro k' p' y hk' hy halive
    by_cases hkk : k' = k
    · subst hkk
      obtain rfl : p' = p := Option.some_inj.1 (hk'.symm.trans hk)
      obtain rfl : y = x := Option.some_inj.1 (hy.symm.trans hx)
      rw [halive List.mem_cons_self] at hdead
      cases hdead
    · obtain ⟨ha, hf⟩ := hother hkk
      exact hswept.kept k' p' y (ha.trans hk') (hf.trans hy) fun hmem =>
        halive (List.mem_cons_of_mem _ hmem)
  · intro k' hk'
    by_cases hkk : k' = k
    · rw [hkk, hself]
    · exact hswept.absent k' ((hother hkk).1.trans hk')

/-- A loop that removes the dead objects of a list. -/
theorem Ok.removeDead_spec (h : t.Ok key) {dead : α → Bool} {ps : List ℕ}
    (hps : ∀ p ∈ ps, p ∈ t.values) (hnodup : ps.Nodup) :
    ∃ t', removeDead key dead ps t = some t' ∧ t'.Ok key ∧ t'.fresh = t.fresh ∧
      Swept dead ps t t' := by
  induction ps generalizing t with
  | nil =>
      refine ⟨t, rfl, h, rfl, ?_, ?_, fun _ hk => hk⟩
      · intro k p x _ _ hp
        exact absurd hp List.not_mem_nil
      · intro k p x hk hx _
        exact ⟨hk, hx⟩
  | cons p ps ih =>
      obtain ⟨hp, hnodup⟩ := List.nodup_cons.1 hnodup
      obtain ⟨k, hk⟩ := mem_values.1 (hps p List.mem_cons_self)
      obtain ⟨x, hx, hheap, hkey⟩ := h.find_of_address hk
      rw [removeDead, hheap, Option.bind_some, hkey]
      cases hdead : dead x with
      | true =>
          obtain ⟨hok, haddr, _⟩ := h.remove_spec k
          have hvalues : ∀ q ∈ ps, q ∈ (t.remove k).values := by
            intro q hq
            obtain ⟨j, hj⟩ := mem_values.1 (hps q (List.mem_cons_of_mem _ hq))
            have hjk : j ≠ k := by
              rintro rfl
              exact hp (Option.some_inj.1 (hj.symm.trans hk) ▸ hq)
            exact mem_values.2 ⟨j, by rw [haddr, Function.update_of_ne hjk, hj]⟩
          obtain ⟨t', ht', hok', hfresh, hswept⟩ := ih hok hvalues hnodup
          exact ⟨t', ht', hok', hfresh, h.swept_remove hk hx hdead hswept⟩
      | false =>
          obtain ⟨t', ht', hok', hfresh, hswept⟩ :=
            ih h (fun q hq => hps q (List.mem_cons_of_mem _ hq)) hnodup
          refine ⟨t', ht', hok', hfresh, ?_, ?_, hswept.absent⟩
          · intro k' p' y hk' hy hmem hyd
            refine hswept.gone k' p' y hk' hy ?_ hyd
            refine (List.mem_cons.1 hmem).resolve_left ?_
            rintro rfl
            obtain rfl := h.inj hk' hk
            rw [Option.some_inj.1 (hy.symm.trans hx), hdead] at hyd
            cases hyd
          · intro k' p' y hk' hy halive
            exact hswept.kept k' p' y hk' hy fun hmem => halive (List.mem_cons_of_mem _ hmem)

/-- **A loop that removes all dead objects**: the others stay where they are. -/
theorem Ok.removeDead_values (h : t.Ok key) (dead : α → Bool) :
    ∃ t', removeDead key dead t.values t = some t' ∧ t'.Ok key ∧ t'.fresh = t.fresh ∧
      (∀ k, t'.find k = (t.find k).filter fun x => !dead x) ∧
      ∀ k p, t'.address k = some p → t.address k = some p := by
  obtain ⟨t', ht', hok, hfresh, hswept⟩ := @Ok.removeDead_spec κ α _ key t h dead t.values
    (fun _ hp => hp) h.nodup_values
  -- the three cases of a key: it has no object, a dead one, or one that stays
  have hcases : ∀ k, (t'.find k = (t.find k).filter fun x => !dead x) ∧
      ∀ p, t'.address k = some p → t.address k = some p := by
    intro k
    cases hk : t.address k with
    | none =>
        have hk' := hswept.absent k hk
        rw [h.find_eq_none_iff.2 hk, hok.find_eq_none_iff.2 hk', hk']
        exact ⟨rfl, fun p hp => hp⟩
    | some p =>
        obtain ⟨x, hx, _, _⟩ := h.find_of_address hk
        cases hdead : dead x with
        | true =>
            have hk' := hswept.gone k p x hk hx (mem_values.2 ⟨k, hk⟩) hdead
            rw [hok.find_eq_none_iff.2 hk', hk', hx]
            simp [Option.filter, hdead]
        | false =>
            obtain ⟨hk', hx'⟩ := hswept.kept k p x hk hx fun _ => hdead
            rw [hx', hk', hx]
            simp [Option.filter, hdead]
  exact ⟨t', ht', hok, hfresh, fun k => (hcases k).1, fun k => (hcases k).2⟩

end ObjectTable
