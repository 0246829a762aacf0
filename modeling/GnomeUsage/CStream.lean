/-
Reading a file line by line.

A stream of the C library, as far as a program that only calls `fgets` and `feof` can tell: what
the reads to come give, a character or an error each, whether the reads behind them fail instead
of meeting the end, and the end-of-file flag, which is set by a read that meets the end and not
before.

* `CStream.fgets` — a line, cut at the size of the buffer; an error loses what was read before it;
* `CStream.fgets_line`, `CStream.fgets_end` — **reading lines that fit**: each is returned whole,
  and the flag is set one read after the last of them.
-/

import Mathlib.Data.List.Basic
import Mathlib.Tactic.Common

set_option relaxedAutoImplicit false
set_option autoImplicit false

/-- What a read of a file gives: its next character, or an error. -/
inductive CStream.Read
  | char (c : Char)
  | error
  deriving DecidableEq

/-- A stream opened for reading. -/
structure CStream where
  /-- What the reads to come give. -/
  rest : List CStream.Read
  /-- The reads behind them fail, without an end of file. -/
  failing : Bool
  eof : Bool
  deriving DecidableEq

namespace CStream

/-- The reads of a text without an error among them. -/
def chars (text : List Char) : List Read := text.map .char

@[simp] theorem chars_nil : chars [] = [] := rfl

@[simp] theorem chars_cons (c : Char) (text : List Char) :
    chars (c :: text) = .char c :: chars text := rfl

theorem chars_append (text rest : List Char) : chars (text ++ rest) = chars text ++ chars rest :=
  List.map_append

@[simp] theorem length_chars (text : List Char) : (chars text).length = text.length :=
  List.length_map _

/-- A file with the given content, just opened. -/
def ofText (text : List Char) : CStream := ⟨chars text, false, false⟩

/-- How the reads for a line stop: with a newline or a full buffer, with an error, or with nothing
left to read. -/
inductive Stop
  | complete
  | failed
  | ended
  deriving DecidableEq

/-- At most `n` characters, up to a newline: the line, what is left, and how it stopped. -/
def takeLine : ℕ → List Read → List Char × List Read × Stop
  | 0, s => ([], s, .complete)
  | _ + 1, [] => ([], [], .ended)
  | _ + 1, .error :: s => ([], s, .failed)
  | n + 1, .char c :: s =>
      if c = '\n' then ([c], s, .complete)
      else
        let (line, rest, stop) := takeLine n s
        (c :: line, rest, stop)

/-- `fgets (buffer, size, stream)`: the buffer, `none` standing for `NULL`, and the stream. -/
def fgets (size : ℕ) (s : CStream) : Option (List Char) × CStream :=
  let (line, rest, stop) := takeLine (size - 1) s.rest
  if stop = .complete then (some line, { s with rest := rest })
  else if stop = .failed ∨ s.failing then (none, { s with rest := rest })
  else if line = [] then (none, { s with rest := rest, eof := true })
  else (some line, { s with rest := rest, eof := true })

/-! ### Lines -/

/-- The text of a line that a buffer of `size` characters holds: no newline but the last
character. -/
structure IsLine (size : ℕ) (line : List Char) : Prop where
  body : ∃ text, line = text ++ ['\n'] ∧ '\n' ∉ text
  fits : line.length < size

theorem takeLine_line {text : List Char} (h : '\n' ∉ text) (rest : List Read) {n : ℕ}
    (hn : text.length < n) :
    takeLine n (chars text ++ .char '\n' :: rest) = (text ++ ['\n'], rest, .complete) := by
  induction text generalizing n with
  | nil =>
      obtain ⟨n, rfl⟩ := Nat.exists_eq_succ_of_ne_zero (by omega : n ≠ 0)
      simp [takeLine]
  | cons c text ih =>
      obtain ⟨n, rfl⟩ := Nat.exists_eq_succ_of_ne_zero (by simp at hn; omega : n ≠ 0)
      have hc : c ≠ '\n' := fun hc => h (hc ▸ List.mem_cons_self)
      have htext : '\n' ∉ text := fun hmem => h (List.mem_cons_of_mem _ hmem)
      have ih := @ih htext n (by simpa using hn)
      simp [takeLine, hc, ih]

/-- **A line that fits** is returned whole. -/
theorem fgets_line {size : ℕ} {line : List Char} (h : IsLine size line) (rest : List Read)
    (failing eof : Bool) :
    fgets size ⟨chars line ++ rest, failing, eof⟩ = (some line, ⟨rest, failing, eof⟩) := by
  obtain ⟨⟨text, rfl, htext⟩, hfits⟩ := h
  have hlen : text.length < size - 1 := by
    rw [List.length_append, List.length_singleton] at hfits
    omega
  have htake := takeLine_line htext rest hlen
  rw [fgets, chars_append, List.append_assoc]
  simp [htake]

/-- **At the end** nothing is returned and the flag is set. -/
theorem fgets_end {size : ℕ} (h : 1 < size) (eof : Bool) :
    fgets size ⟨[], false, eof⟩ = (none, ⟨[], false, true⟩) := by
  obtain ⟨n, rfl⟩ := Nat.exists_eq_add_of_le' (show 2 ≤ size from h)
  rfl

end CStream
