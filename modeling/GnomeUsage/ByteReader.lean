/-
Reading bytes from a memory.

A parser over raw memory is a function of the bytes it reads.  `ByteReader α` is such a function
together with the list of the offsets it reads, so that both what a parser returns and where it
looks can be reasoned about.  Words are loaded in little-endian order, as the host does, and
converted to network order where a program says so.

* `ByteReader`, `ByteReader.value`, `ByteReader.reads` — readers, their result and their reads;
* `ByteReader.byte`, `ByteReader.load16`, `ByteReader.load32` — loads;
* `ByteReader.Within` — a reader looks at no offset from a bound on, load by load;
* `ByteReader.Local`, `ByteReader.Local.value_congr` — **a reader depends on nothing but the bytes
  it reads**;
* `ByteReader.be16` — the word two bytes stand for in network order, with `ntohs_load16`: **a load
  and a conversion give the network word**;
* `ByteReader.Stored` — bytes that stand in memory, with `ByteReader.be16_of_stored` and
  `ByteReader.le32_of_stored`: **a word that is stored is the word that is read**;
* `ByteReader.be16_eq_iff`, `ByteReader.le32_eq_iff` — words are equal exactly when their bytes are.
-/

import Mathlib.Data.BitVec
import Mathlib.Tactic.Common
import Mathlib.Tactic.IntervalCases

set_option relaxedAutoImplicit false
set_option autoImplicit false

/-- A function of the bytes of a memory, with the offsets it reads. -/
def ByteReader (α : Type) : Type := (ℕ → BitVec 8) → α × List ℕ

namespace ByteReader

variable {α β : Type}

instance : Monad ByteReader where
  pure a := fun _ => (a, [])
  bind m f := fun mem =>
    let (a, reads) := m mem
    let (b, reads') := f a mem
    (b, reads ++ reads')

/-- What a reader returns on a memory. -/
def value (m : ByteReader α) (mem : ℕ → BitVec 8) : α := (m mem).1

/-- The offsets a reader reads on a memory, in order. -/
def reads (m : ByteReader α) (mem : ℕ → BitVec 8) : List ℕ := (m mem).2

/-- The byte at an offset. -/
def byte (i : ℕ) : ByteReader (BitVec 8) := fun mem => (mem i, [i])

/-- The word of two bytes, in the order of the host. -/
def load16 (i : ℕ) : ByteReader (BitVec 16) := do
  let lo ← byte i
  let hi ← byte (i + 1)
  pure (hi ++ lo)

/-- The word of four bytes, in the order of the host. -/
def load32 (i : ℕ) : ByteReader (BitVec 32) := do
  let lo ← load16 i
  let hi ← load16 (i + 2)
  pure (hi ++ lo)

/-- `ntohs`: the two bytes of a word, exchanged. -/
def ntohs (x : BitVec 16) : BitVec 16 := x.extractLsb' 0 8 ++ x.extractLsb' 8 8

@[simp] theorem value_pure (a : α) (mem : ℕ → BitVec 8) :
    value (pure a : ByteReader α) mem = a := rfl

@[simp] theorem value_bind (m : ByteReader α) (f : α → ByteReader β) (mem : ℕ → BitVec 8) :
    value (m >>= f) mem = value (f (value m mem)) mem := rfl

@[simp] theorem reads_pure (a : α) (mem : ℕ → BitVec 8) :
    reads (pure a : ByteReader α) mem = [] := rfl

@[simp] theorem reads_bind (m : ByteReader α) (f : α → ByteReader β) (mem : ℕ → BitVec 8) :
    reads (m >>= f) mem = reads m mem ++ reads (f (value m mem)) mem := rfl

@[simp] theorem value_byte (i : ℕ) (mem : ℕ → BitVec 8) : value (byte i) mem = mem i := rfl

@[simp] theorem reads_byte (i : ℕ) (mem : ℕ → BitVec 8) : reads (byte i) mem = [i] := rfl

/-! ### Words -/

/-- The word of the two bytes at an offset, in network order. -/
def be16 (mem : ℕ → BitVec 8) (i : ℕ) : BitVec 16 := mem i ++ mem (i + 1)

/-- The word of the four bytes at an offset, as the host holds it. -/
def le32 (mem : ℕ → BitVec 8) (i : ℕ) : BitVec 32 :=
  (mem (i + 3) ++ mem (i + 2)) ++ (mem (i + 1) ++ mem i)

@[simp] theorem value_load32 (i : ℕ) (mem : ℕ → BitVec 8) : value (load32 i) mem = le32 mem i := rfl

@[simp] theorem value_load16 (i : ℕ) (mem : ℕ → BitVec 8) :
    value (load16 i) mem = mem (i + 1) ++ mem i := rfl

/-- The bytes of two words of two parts, compared part by part. -/
theorem append_inj {v w : ℕ} {a b : BitVec v} {c d : BitVec w} :
    a ++ c = b ++ d ↔ a = b ∧ c = d := by
  constructor
  · intro h
    have hc : c = d := by
      have hlow := congrArg (fun x => BitVec.setWidth w x) h
      simpa [BitVec.setWidth_append] using hlow
    subst hc
    exact ⟨(BitVec.append_left_inj c).1 h, rfl⟩
  · rintro ⟨rfl, rfl⟩
    rfl

/-- **A load and a conversion give the network word.** -/
@[simp] theorem ntohs_load16 (mem : ℕ → BitVec 8) (i : ℕ) :
    ntohs (mem (i + 1) ++ mem i) = be16 mem i := by
  have hlow : (mem (i + 1) ++ mem i).extractLsb' 0 8 = mem i :=
    BitVec.extractLsb'_append_eq_right
  have hhigh : (mem (i + 1) ++ mem i).extractLsb' 8 8 = mem (i + 1) :=
    BitVec.extractLsb'_append_eq_left
  rw [ntohs, hlow, hhigh, be16]

/-- The network word as a number. -/
theorem be16_toNat (mem : ℕ → BitVec 8) (i : ℕ) :
    (be16 mem i).toNat = (mem i).toNat * 2 ^ 8 + (mem (i + 1)).toNat := by
  rw [be16, BitVec.toNat_append, ← Nat.shiftLeft_add_eq_or_of_lt (mem (i + 1)).isLt,
    Nat.shiftLeft_eq]

/-- Network words are equal exactly when their bytes are. -/
theorem be16_eq_iff {mem : ℕ → BitVec 8} {i j : ℕ} :
    be16 mem i = be16 mem j ↔ ∀ k < 2, mem (i + k) = mem (j + k) := by
  rw [be16, be16, append_inj]
  constructor
  · rintro ⟨h0, h1⟩ k hk
    interval_cases k
    · exact h0
    · exact h1
  · intro h
    exact ⟨h 0 (by omega), h 1 (by omega)⟩

/-- Host words are equal exactly when their bytes are. -/
theorem le32_eq_iff {mem : ℕ → BitVec 8} {i j : ℕ} :
    le32 mem i = le32 mem j ↔ ∀ k < 4, mem (i + k) = mem (j + k) := by
  rw [le32, le32, append_inj, append_inj, append_inj]
  constructor
  · rintro ⟨⟨h3, h2⟩, h1, h0⟩ k hk
    interval_cases k
    · exact h0
    · exact h1
    · exact h2
    · exact h3
  · intro h
    exact ⟨⟨h 3 (by omega), h 2 (by omega)⟩, h 1 (by omega), h 0 (by omega)⟩

/-! ### Where a reader looks -/

/-- The reader looks at no offset from `n` on. -/
def Within (m : ByteReader α) (mem : ℕ → BitVec 8) (n : ℕ) : Prop := ∀ i ∈ reads m mem, i < n

@[simp] theorem within_pure (a : α) (mem : ℕ → BitVec 8) (n : ℕ) :
    Within (pure a : ByteReader α) mem n ↔ True := by
  simp [Within]

@[simp] theorem within_bind (m : ByteReader α) (f : α → ByteReader β) (mem : ℕ → BitVec 8)
    (n : ℕ) :
    Within (m >>= f) mem n ↔ Within m mem n ∧ Within (f (value m mem)) mem n := by
  simp only [Within, reads_bind, List.mem_append]
  constructor
  · intro h
    exact ⟨fun i hi => h i (.inl hi), fun i hi => h i (.inr hi)⟩
  · rintro ⟨h, h'⟩ i (hi | hi)
    · exact h i hi
    · exact h' i hi

@[simp] theorem within_byte (i : ℕ) (mem : ℕ → BitVec 8) (n : ℕ) :
    Within (byte i) mem n ↔ i + 1 ≤ n := by
  have hlt : Within (byte i) mem n ↔ i < n := by simp [Within]
  exact hlt.trans Nat.lt_iff_add_one_le

@[simp] theorem within_load16 (i : ℕ) (mem : ℕ → BitVec 8) (n : ℕ) :
    Within (load16 i) mem n ↔ i + 2 ≤ n := by
  simp only [load16, within_bind, within_byte, within_pure, and_true]
  omega

@[simp] theorem within_load32 (i : ℕ) (mem : ℕ → BitVec 8) (n : ℕ) :
    Within (load32 i) mem n ↔ i + 4 ≤ n := by
  simp only [load32, within_bind, within_load16, within_pure, and_true]
  omega

/-- **A reader depends on nothing but the bytes it reads.** -/
def Local (m : ByteReader α) : Prop :=
  ∀ mem mem' : ℕ → BitVec 8, (∀ i ∈ reads m mem, mem i = mem' i) → m mem = m mem'

theorem local_pure (a : α) : Local (pure a : ByteReader α) := fun _ _ _ => rfl

theorem local_byte (i : ℕ) : Local (byte i) := by
  intro mem mem' h
  have hi : mem i = mem' i := h i (by simp)
  simp only [byte, hi]

theorem local_bind {m : ByteReader α} {f : α → ByteReader β} (hm : Local m)
    (hf : ∀ a, Local (f a)) : Local (m >>= f) := by
  intro mem mem' h
  simp only [reads_bind, List.mem_append] at h
  have hfirst : m mem = m mem' := hm mem mem' fun i hi => h i (.inl hi)
  have hsecond : f (m mem).1 mem = f (m mem).1 mem' :=
    hf (m mem).1 mem mem' fun i hi => h i (.inr hi)
  change ((f (m mem).1 mem).1, (m mem).2 ++ (f (m mem).1 mem).2) =
    ((f (m mem').1 mem').1, (m mem').2 ++ (f (m mem').1 mem').2)
  rw [hsecond, hfirst]

theorem local_ite {p : Prop} [Decidable p] {m m' : ByteReader α} (hm : Local m) (hm' : Local m') :
    Local (if p then m else m') := by
  split
  · exact hm
  · exact hm'

theorem local_load16 (i : ℕ) : Local (load16 i) :=
  local_bind (local_byte i) fun _ => local_bind (local_byte (i + 1)) fun _ => local_pure _

theorem local_load32 (i : ℕ) : Local (load32 i) :=
  local_bind (local_load16 i) fun _ => local_bind (local_load16 (i + 2)) fun _ => local_pure _

/-- **Memories that agree as far as a reader looks** are the same to it. -/
theorem Local.value_congr {m : ByteReader α} (hm : Local m) {mem mem' : ℕ → BitVec 8} {n : ℕ}
    (h : Within m mem n) (hagree : ∀ i < n, mem i = mem' i) : value m mem = value m mem' :=
  congrArg Prod.fst (hm mem mem' fun i hi => hagree i (h i hi))

/-! ### Bytes in memory -/

/-- A memory that starts with the given bytes, and goes on somehow. -/
def memory (bytes : List (BitVec 8)) (beyond : ℕ → BitVec 8) (i : ℕ) : BitVec 8 :=
  bytes.getD i (beyond i)

/-- The given bytes stand in memory, from an offset on. -/
def Stored (mem : ℕ → BitVec 8) (o : ℕ) (bytes : List (BitVec 8)) : Prop :=
  ∀ i, (h : i < bytes.length) → mem (o + i) = bytes[i]

theorem stored_memory (bytes : List (BitVec 8)) (beyond : ℕ → BitVec 8) :
    Stored (memory bytes beyond) 0 bytes := by
  intro i h
  simp [memory, h]

/-- **Bytes one after the other.** -/
theorem stored_append {mem : ℕ → BitVec 8} {o : ℕ} {xs ys : List (BitVec 8)} :
    Stored mem o (xs ++ ys) ↔ Stored mem o xs ∧ Stored mem (o + xs.length) ys := by
  constructor
  · intro h
    refine ⟨?_, ?_⟩
    · intro i hi
      rw [h i (by rw [List.length_append]; omega), List.getElem_append_left hi]
    · intro i hi
      rw [Nat.add_assoc, h (xs.length + i) (by rw [List.length_append]; omega),
        List.getElem_append_right (Nat.le_add_right ..)]
      simp
  · rintro ⟨hxs, hys⟩ i hi
    rw [List.length_append] at hi
    rcases Nat.lt_or_ge i xs.length with hlt | hge
    · rw [hxs i hlt, List.getElem_append_left hlt]
    · rw [List.getElem_append_right hge, ← hys (i - xs.length) (by omega)]
      congr 1
      omega

theorem stored_cons {mem : ℕ → BitVec 8} {o : ℕ} {b : BitVec 8} {bytes : List (BitVec 8)} :
    Stored mem o (b :: bytes) ↔ mem o = b ∧ Stored mem (o + 1) bytes := by
  have h := @stored_append mem o [b] bytes
  rw [List.singleton_append, List.length_singleton] at h
  rw [h]
  refine and_congr_left fun _ => ⟨fun hb => hb 0 Nat.zero_lt_one, fun hb i hi => ?_⟩
  obtain rfl : i = 0 := Nat.lt_one_iff.1 hi
  exact hb

/-- The two bytes of a word, in network order. -/
def netBytes16 (w : BitVec 16) : List (BitVec 8) := [w.extractLsb' 8 8, w.extractLsb' 0 8]

/-- The four bytes of a word, as the host holds it. -/
def hostBytes32 (w : BitVec 32) : List (BitVec 8) :=
  [w.extractLsb' 0 8, w.extractLsb' 8 8, w.extractLsb' 16 8, w.extractLsb' 24 8]

/-- **A word stored in network order is the network word.** -/
theorem be16_of_stored {mem : ℕ → BitVec 8} {o : ℕ} {w : BitVec 16}
    (h : Stored mem o (netBytes16 w)) : be16 mem o = w := by
  simp only [netBytes16, stored_cons] at h
  obtain ⟨h0, h1, _⟩ := h
  have hjoin : w.extractLsb' 8 8 ++ w.extractLsb' 0 8 = w.extractLsb' 0 16 :=
    BitVec.extractLsb'_append_extractLsb'_eq_extractLsb' (by omega)
  rw [be16, h0, h1, hjoin]
  exact BitVec.extractLsb'_eq_self

/-- **A word stored as the host holds it is the host word.** -/
theorem le32_of_stored {mem : ℕ → BitVec 8} {o : ℕ} {w : BitVec 32}
    (h : Stored mem o (hostBytes32 w)) : le32 mem o = w := by
  simp only [hostBytes32, stored_cons] at h
  obtain ⟨h0, h1, h2, h3, _⟩ := h
  have hhigh : w.extractLsb' 24 8 ++ w.extractLsb' 16 8 = w.extractLsb' 16 16 :=
    BitVec.extractLsb'_append_extractLsb'_eq_extractLsb' (by omega)
  have hlow : w.extractLsb' 8 8 ++ w.extractLsb' 0 8 = w.extractLsb' 0 16 :=
    BitVec.extractLsb'_append_extractLsb'_eq_extractLsb' (by omega)
  have hjoin : w.extractLsb' 16 16 ++ w.extractLsb' 0 16 = w.extractLsb' 0 32 :=
    BitVec.extractLsb'_append_extractLsb'_eq_extractLsb' (by omega)
  rw [le32, h0, h1, h2, h3, hhigh, hlow, hjoin]
  exact BitVec.extractLsb'_eq_self

end ByteReader
