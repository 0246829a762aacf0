/-
The loop over the lines of a file.

`addprocinfo` throws the first line of a file away and then calls `fgets` until the end-of-file
flag is set.  It gets what `fgets` returns, which is a line only as long as the line fits the
buffer and no read of it fails; and a read that fails never sets the flag.

* `CStream.lines` — the lines of a file, each with its newline, which the last one may lack;
* `CStream.lineText` — the text of a line that was read successfully;
* `CStream.takeLine_cases` — what a read returns: a line, a full buffer, nothing, or what is left;
* `CStream.Lost`, `CStream.Clean`, `CStream.Tidy` — the lines that a buffer and a loop like this
  one can cope with;
* `rowCalls` — the calls of `addtoconninode`, and `readRows_eq`, the loop as a fold over them;
* `rowCalls_failing` — **a file that cannot be read to its end is read forever**;
* `rowCalls_counted` — any other file is read to its end, and the calls are its lines exactly when
  there are as many calls as lines;
* `each_line_once_iff` — **every line is handled once exactly when the file has an end and its lines
  are tidy**.
-/

import GnomeUsage.Conninode

set_option relaxedAutoImplicit false
set_option autoImplicit false

namespace CStream

/-! ### Lines -/

/-- **The lines of a file**, each with its newline, which the last one may lack. -/
def lines : List Read → List (List Read)
  | [] => []
  | r :: s =>
      if r = .char '\n' then [r] :: lines s
      else
        match lines s with
        | [] => [[r]]
        | line :: rest => (r :: line) :: rest

@[simp] theorem lines_nil : lines [] = [] := rfl

theorem lines_newline (s : List Read) :
    lines (.char '\n' :: s) = [.char '\n'] :: lines s := if_pos rfl

theorem lines_cons {r : Read} (h : r ≠ .char '\n') (s : List Read) :
    lines (r :: s) = (r :: (lines s).headD []) :: (lines s).tail := by
  rw [lines, if_neg h]
  cases lines s <;> rfl

theorem newline_notMem_chars {text : List Char} (h : '\n' ∉ text) :
    Read.char '\n' ∉ chars text := by
  intro hmem
  obtain ⟨c, hc, heq⟩ := List.mem_map.1 hmem
  exact h (Read.char.inj heq ▸ hc)

/-- A line with its newline. -/
theorem lines_append_newline {part : List Read} (h : Read.char '\n' ∉ part) (rest : List Read) :
    lines (part ++ .char '\n' :: rest) = (part ++ [.char '\n']) :: lines rest := by
  induction part with
  | nil => exact lines_newline rest
  | cons r part ih =>
      rw [List.mem_cons, not_or] at h
      rw [List.cons_append, lines_cons (Ne.symm h.1), ih h.2]
      rfl

/-- The beginning of a line, and what is left of it. -/
theorem lines_append {part : List Read} (h : Read.char '\n' ∉ part) (hne : part ≠ [])
    (rest : List Read) :
    lines (part ++ rest) = (part ++ (lines rest).headD []) :: (lines rest).tail := by
  induction part with
  | nil => exact absurd rfl hne
  | cons r part ih =>
      rw [List.mem_cons, not_or] at h
      rw [List.cons_append, lines_cons (Ne.symm h.1)]
      cases part with
      | nil => rfl
      | cons d part =>
          rw [ih h.2 (List.cons_ne_nil d part)]
          rfl

/-- A last line without a newline. -/
theorem lines_chars {text : List Char} (h : '\n' ∉ text) (hne : text ≠ []) :
    lines (chars text) = [chars text] := by
  have hlines := lines_append (newline_notMem_chars h) (by simpa [chars] using hne) []
  rwa [List.append_nil, lines_nil, List.headD_nil, List.append_nil] at hlines

/-- A line with an error. -/
theorem lines_append_error {text : List Char} (h : '\n' ∉ text) (rest : List Read) :
    lines (chars text ++ .error :: rest) =
      (chars text ++ .error :: (lines rest).headD []) :: (lines rest).tail := by
  have hpart : Read.char '\n' ∉ chars text ++ [.error] := by
    rw [List.mem_append, not_or]
    exact ⟨newline_notMem_chars h, by simp⟩
  have hlines := lines_append hpart (by simp) rest
  rwa [List.append_assoc, List.append_assoc] at hlines

theorem ne_nil_of_mem_lines {reads line : List Read} (h : line ∈ lines reads) : line ≠ [] := by
  induction reads generalizing line with
  | nil => simp at h
  | cons r s ih =>
      by_cases hr : r = .char '\n'
      · subst hr
        rw [lines_newline] at h
        rcases List.mem_cons.1 h with rfl | h
        · exact List.cons_ne_nil _ _
        · exact ih h
      · rw [lines_cons hr] at h
        rcases List.mem_cons.1 h with rfl | h
        · exact List.cons_ne_nil _ _
        · exact ih (List.mem_of_mem_tail h)

/-! ### Lines that are read successfully -/

/-- The character a read gives. -/
def Read.char? : Read → Option Char
  | .char c => some c
  | .error => none

theorem mapM_char?_eq_some {line : List Read} {text : List Char} :
    line.mapM Read.char? = some text ↔ line = chars text := by
  induction line generalizing text with
  | nil => cases text <;> simp
  | cons r line ih =>
      cases r with
      | error => cases text <;> simp [Read.char?]
      | char c =>
          rw [List.mapM_cons]
          cases text with
          | nil => cases line.mapM Read.char? <;> simp [Read.char?]
          | cons d text =>
              rw [chars_cons, List.cons.injEq, Read.char.injEq, ← ih]
              cases line.mapM Read.char? <;> simp [Read.char?]

/-- **The text of a line that was read successfully**: the reads in front of it may fail, and then
none does. -/
def lineText (line : List Read) : Option (List Char) :=
  match line.dropWhile (· = .error) with
  | [] => none
  | r :: reads => (r :: reads).mapM Read.char?

@[simp] theorem lineText_nil : lineText [] = none := rfl

@[simp] theorem lineText_error (line : List Read) : lineText (.error :: line) = lineText line := by
  simp [lineText]

theorem lineText_char (c : Char) (line : List Read) :
    lineText (.char c :: line) = (line.mapM Read.char?).map (c :: ·) := by
  have hdrop : (Read.char c :: line).dropWhile (· = .error) = .char c :: line := by simp
  rw [lineText, hdrop]
  cases hline : line.mapM Read.char? <;> simp [Read.char?, hline]

/-- A line without errors. -/
theorem lineText_chars {text : List Char} (hne : text ≠ []) :
    lineText (chars text) = some text := by
  cases text with
  | nil => exact absurd rfl hne
  | cons c text =>
      rw [chars_cons, lineText_char, mapM_char?_eq_some.2 rfl]
      rfl

/-- A line without errors behind its first character. -/
theorem lineText_append {text : List Char} (hne : text ≠ []) {line : List Read} {whole : List Char}
    (h : lineText (chars text ++ line) = some whole) : ∃ rest, line = chars rest := by
  cases text with
  | nil => exact absurd rfl hne
  | cons c text =>
      rw [chars_cons, List.cons_append, lineText_char] at h
      obtain ⟨tail, htail, _⟩ := Option.map_eq_some_iff.1 h
      obtain ⟨front, rest, rfl, _, hrest⟩ :=
        List.map_eq_append_iff.1 (mapM_char?_eq_some.1 htail).symm
      exact ⟨rest, hrest.symm⟩

theorem error_notMem_chars (text : List Char) : Read.error ∉ chars text := by
  intro h
  obtain ⟨c, _, hc⟩ := List.mem_map.1 h
  cases hc

/-- A line with an error behind its first character is not read successfully. -/
theorem lineText_cut {text : List Char} (hne : text ≠ []) (line : List Read) :
    lineText (chars text ++ .error :: line) = none := by
  rw [Option.eq_none_iff_forall_ne_some]
  intro whole h
  obtain ⟨rest, hrest⟩ := lineText_append hne h
  exact error_notMem_chars rest (hrest ▸ List.mem_cons_self)

/-- **A line that is lost** to a buffer of `size` characters: every part of it is followed by an
error, before its newline and before the buffer is full. -/
inductive Lost (size : ℕ) : List Read → Prop
  | nil : Lost size []
  | part {text : List Char} {line : List Read} (htext : '\n' ∉ text)
      (hlen : text.length + 1 < size) (h : Lost size line) :
      Lost size (chars text ++ .error :: line)

/-- **A clean line**: it fits the buffer, and no read of it fails but in front of it; or it is
lost. -/
def Clean (size : ℕ) (line : List Read) : Prop :=
  (∃ k text, line = List.replicate k .error ++ chars text ∧ text.length < size) ∨ Lost size line

/-- **A clean header line**: it fits the buffer, and no read of it fails; or it is lost, at the
latest behind the first full buffer. -/
def CleanHeader (size : ℕ) (line : List Read) : Prop :=
  (∃ text, line = chars text ∧ text.length < size) ∨ Lost size line ∨
    ∃ text rest, line = chars text ++ rest ∧ text.length + 1 = size ∧ Lost size rest

/-- **A tidy file**: a clean header line and clean lines. -/
def Tidy (size : ℕ) (reads : List Read) : Prop :=
  CleanHeader size ((lines reads).headD []) ∧ ∀ line ∈ (lines reads).tail, Clean size line

/-- The texts in front of the first error are the same. -/
theorem chars_error_inj {text text' : List Char} {line line' : List Read}
    (h : chars text ++ .error :: line = chars text' ++ .error :: line') :
    text = text' ∧ line = line' := by
  induction text generalizing text' with
  | nil =>
      cases text' with
      | nil => exact ⟨rfl, (List.cons.inj h).2⟩
      | cons c text' => cases (List.cons.inj h).1
  | cons c text ih =>
      cases text' with
      | nil => cases (List.cons.inj h).1
      | cons c' text' =>
          obtain ⟨hc, hrest⟩ := List.cons.inj h
          obtain ⟨rfl, hline⟩ := ih hrest
          exact ⟨by rw [Read.char.inj hc], hline⟩

/-- The first error stands behind the first characters. -/
theorem length_le_of_error {text text' : List Char} {line line' : List Read}
    (h : chars text ++ line = chars text' ++ .error :: line') : text.length ≤ text'.length := by
  by_contra hlt
  have herror : (chars text ++ line)[text'.length]? = some .error := by
    rw [h, List.getElem?_append_right (by simp)]
    simp
  rw [List.getElem?_append_left (by simp; omega), chars, List.getElem?_map] at herror
  obtain ⟨c, _, hc⟩ := Option.map_eq_some_iff.1 herror
  cases hc

variable {size : ℕ}

theorem Lost.cut_iff {text : List Char} {line : List Read} (htext : '\n' ∉ text)
    (hlen : text.length + 1 < size) :
    Lost size (chars text ++ .error :: line) ↔ Lost size line := by
  constructor
  · intro h
    generalize hwhole : chars text ++ .error :: line = whole at h
    cases h with
    | nil => simp at hwhole
    | part _ _ h => exact (chars_error_inj hwhole).2 ▸ h
  · exact .part htext hlen

/-- What is lost has an error before the buffer is full. -/
theorem Lost.not_full {text : List Char} {line : List Read} (hlen : text.length + 1 = size)
    (hne : text ≠ []) : ¬ Lost size (chars text ++ line) := by
  intro h
  generalize hwhole : chars text ++ line = whole at h
  cases h with
  | nil => simp [chars, hne] at hwhole
  | part _ hlen' _ =>
      have hle := length_le_of_error hwhole
      omega

theorem lost_replicate (hsize : 1 < size) (k : ℕ) : Lost size (List.replicate k .error) := by
  induction k with
  | zero => exact .nil
  | succ k ih => exact @Lost.part size [] _ List.not_mem_nil hsize ih

/-- **A line is lost** exactly when it is clean and was not read successfully. -/
theorem lost_iff (hsize : 1 < size) {line : List Read} :
    Lost size line ↔ Clean size line ∧ lineText line = none := by
  constructor
  · intro h
    refine ⟨.inr h, ?_⟩
    induction h with
    | nil => rfl
    | @part text line _ _ _ ih =>
        cases text with
        | nil => rwa [chars_nil, List.nil_append, lineText_error]
        | cons c text => exact lineText_cut (List.cons_ne_nil c text) line
  · rintro ⟨⟨k, text, rfl, _⟩ | h, hnone⟩
    · cases text with
      | nil =>
          rw [chars_nil, List.append_nil]
          exact lost_replicate hsize k
      | cons c text =>
          induction k with
          | zero =>
              rw [List.replicate_zero, List.nil_append,
                lineText_chars (List.cons_ne_nil c text)] at hnone
              cases hnone
          | succ k ih =>
              rw [List.replicate_succ, List.cons_append, lineText_error] at hnone
              exact @Lost.part size [] _ List.not_mem_nil hsize (ih hnone)
    · exact h

/-- An error in front of a line. -/
theorem clean_error (hsize : 1 < size) {line : List Read} :
    Clean size (.error :: line) ↔ Clean size line := by
  have hlost : Lost size (.error :: line) ↔ Lost size line :=
    @Lost.cut_iff size [] line List.not_mem_nil hsize
  rw [Clean, Clean, hlost]
  refine or_congr_left ?_
  constructor
  · rintro ⟨k, text, heq, hlen⟩
    cases k with
    | zero =>
        cases text with
        | nil => cases heq
        | cons c text => cases (List.cons.inj heq).1
    | succ k =>
        rw [List.replicate_succ, List.cons_append] at heq
        exact ⟨k, text, (List.cons.inj heq).2, hlen⟩
  · rintro ⟨k, text, rfl, hlen⟩
    exact ⟨k + 1, text, rfl, hlen⟩

/-- Errors and then characters are characters only, or begin with an error. -/
theorem chars_of_replicate {text text' : List Char} (hne : text ≠ []) {line : List Read} {k : ℕ}
    (h : chars text ++ line = List.replicate k .error ++ chars text') :
    chars text ++ line = chars text' := by
  cases k with
  | zero => exact h
  | succ k =>
      cases text with
      | nil => exact absurd rfl hne
      | cons c text => cases (List.cons.inj h).1

/-- An error in a line. -/
theorem clean_cut {text : List Char} (hne : text ≠ []) (htext : '\n' ∉ text)
    (hlen : text.length + 1 < size) {line : List Read} :
    Clean size (chars text ++ .error :: line) ↔ Lost size line := by
  rw [Clean, Lost.cut_iff htext hlen]
  refine or_iff_right ?_
  rintro ⟨k, text', heq, _⟩
  exact error_notMem_chars text' (chars_of_replicate hne heq ▸
    List.mem_append_right _ List.mem_cons_self)

/-- A line longer than the buffer. -/
theorem not_clean_full {text : List Char} (hne : text ≠ []) (hlen : text.length + 1 = size)
    {line : List Read} (hline : line ≠ []) : ¬ Clean size (chars text ++ line) := by
  rintro (⟨k, text', heq, hlen'⟩ | h)
  · have hlength := congrArg List.length (chars_of_replicate hne heq)
    have hpos := List.length_pos_iff.2 hline
    simp only [List.length_append, length_chars] at hlength
    omega
  · exact Lost.not_full hlen hne h

/-- A header line longer than the buffer. -/
theorem cleanHeader_full {text : List Char} (hne : text ≠ []) (hlen : text.length + 1 = size)
    {line : List Read} : CleanHeader size (chars text ++ line) ↔ Lost size line := by
  constructor
  · rintro (⟨text', heq, hlen'⟩ | h | ⟨text', line', heq, hlen', h⟩)
    · -- nothing is left of it
      have hlength := congrArg List.length heq
      simp only [List.length_append, length_chars] at hlength
      obtain rfl : line = [] := List.length_eq_zero_iff.1 (by omega)
      exact .nil
    · exact absurd h (Lost.not_full hlen hne)
    · have hsame : (chars text).length = (chars text').length := by
        rw [length_chars, length_chars]
        omega
      exact (List.append_inj_right heq hsame) ▸ h
  · intro h
    exact .inr (.inr ⟨text, line, rfl, hlen, h⟩)

/-- An error in the header line. -/
theorem cleanHeader_cut {text : List Char} (htext : '\n' ∉ text) (hlen : text.length + 1 < size)
    {line : List Read} : CleanHeader size (chars text ++ .error :: line) ↔ Lost size line := by
  rw [CleanHeader, Lost.cut_iff htext hlen]
  constructor
  · rintro (⟨text', heq, _⟩ | h | ⟨text', line', heq, hlen', _⟩)
    · exact absurd (heq ▸ List.mem_append_right _ List.mem_cons_self) (error_notMem_chars text')
    · exact h
    · have hle := length_le_of_error heq.symm
      omega
  · exact fun h => .inr (.inl h)

/-! ### One read -/

/-- **What a read of at most `n` characters returns**: a line, a full buffer without a newline,
nothing because of an error, or all that is left. -/
theorem takeLine_cases (n : ℕ) (s : List Read) :
    (∃ text rest, '\n' ∉ text ∧ text.length < n ∧ s = chars text ++ .char '\n' :: rest ∧
        takeLine n s = (text ++ ['\n'], rest, .complete)) ∨
      (∃ text rest, '\n' ∉ text ∧ text.length = n ∧ s = chars text ++ rest ∧
        takeLine n s = (text, rest, .complete)) ∨
      (∃ text rest, '\n' ∉ text ∧ text.length < n ∧ s = chars text ++ .error :: rest ∧
        takeLine n s = (text, rest, .failed)) ∨
      (∃ text, '\n' ∉ text ∧ text.length < n ∧ s = chars text ∧
        takeLine n s = (text, [], .ended)) := by
  induction n generalizing s with
  | zero => exact .inr (.inl ⟨[], s, List.not_mem_nil, rfl, rfl, rfl⟩)
  | succ n ih =>
      cases s with
      | nil => exact .inr (.inr (.inr ⟨[], List.not_mem_nil, Nat.succ_pos n, rfl, rfl⟩))
      | cons r s =>
          cases r with
          | error => exact .inr (.inr (.inl ⟨[], s, List.not_mem_nil, Nat.succ_pos n, rfl, rfl⟩))
          | char c =>
              by_cases hc : c = '\n'
              · subst hc
                exact .inl ⟨[], s, List.not_mem_nil, Nat.succ_pos n, rfl, by simp [takeLine]⟩
              · have hnot : ∀ {text : List Char}, '\n' ∉ text → '\n' ∉ c :: text := by
                  intro text htext
                  exact List.not_mem_cons_of_ne_of_not_mem (Ne.symm hc) htext
                rcases ih s with ⟨text, rest, htext, hlt, rfl, htake⟩ |
                  ⟨text, rest, htext, hlen, rfl, htake⟩ | ⟨text, rest, htext, hlt, rfl, htake⟩ |
                  ⟨text, htext, hlt, rfl, htake⟩
                · exact .inl ⟨c :: text, rest, hnot htext, Nat.succ_lt_succ hlt, rfl,
                    by simp [takeLine, hc, htake]⟩
                · exact .inr (.inl ⟨c :: text, rest, hnot htext, congrArg Nat.succ hlen, rfl,
                    by simp [takeLine, hc, htake]⟩)
                · exact .inr (.inr (.inl ⟨c :: text, rest, hnot htext, Nat.succ_lt_succ hlt, rfl,
                    by simp [takeLine, hc, htake]⟩))
                · exact .inr (.inr (.inr ⟨c :: text, hnot htext, Nat.succ_lt_succ hlt, rfl,
                    by simp [takeLine, hc, htake]⟩))

/-- A read that returns a line or a full buffer. -/
theorem fgets_complete {size : ℕ} {reads rest : List Read} {line : List Char} {failing eof : Bool}
    (h : takeLine (size - 1) reads = (line, rest, .complete)) :
    fgets size ⟨reads, failing, eof⟩ = (some line, ⟨rest, failing, eof⟩) := by
  simp [fgets, h]

/-- A read that fails. -/
theorem fgets_failed {size : ℕ} {reads rest : List Read} {line : List Char} {failing eof : Bool}
    (h : takeLine (size - 1) reads = (line, rest, .failed)) :
    fgets size ⟨reads, failing, eof⟩ = (none, ⟨rest, failing, eof⟩) := by
  simp [fgets, h]

/-- A read that meets the end. -/
theorem fgets_ended {size : ℕ} {reads rest : List Read} {line : List Char} {eof : Bool}
    (h : takeLine (size - 1) reads = (line, rest, .ended)) :
    fgets size ⟨reads, false, eof⟩ =
      (if line = [] then none else some line, ⟨rest, false, true⟩) := by
  by_cases hline : line = []
  · simp [fgets, h, hline]
  · simp [fgets, h, hline]

/-- A read that fails, or that is followed by one that does, does not set the flag. -/
theorem fgets_failing (size : ℕ) (s : List Read) :
    ∃ rest, (fgets size ⟨s, true, false⟩).2 = ⟨rest, true, false⟩ := by
  simp only [fgets, or_true, if_true]
  split
  · exact ⟨_, rfl⟩
  · exact ⟨_, rfl⟩

/-- The lines behind the header that are read successfully; a file that cannot be read to its end
has a read that fails in its last line. -/
def linesBehindHeader (s : CStream) : List (List Char) :=
  (lines (if s.failing then s.rest ++ [.error] else s.rest)).tail.filterMap lineText

end CStream

namespace NetworkAnalyzer

open CStream (Read chars)

/-! ### The calls of the loop -/

/-- The texts `addtoconninode` is called with by the loop of `addprocinfo`; `none` when the loop
takes more than `fuel` rounds. -/
def rowCalls : ℕ → CStream → Option (List CStr)
  | 0, _ => none
  | fuel + 1, procinfo =>
      let (buffer, procinfo) := CStream.fgets 8192 procinfo
      (if procinfo.eof then some [] else rowCalls fuel procinfo).map fun calls =>
        buffer.toList ++ calls

/-- One round of the loop. -/
theorem rowCalls_of_fgets {procinfo procinfo' : CStream} {buffer : Option CStr}
    (h : CStream.fgets 8192 procinfo = (buffer, procinfo')) (fuel : ℕ) :
    rowCalls (fuel + 1) procinfo =
      (if procinfo'.eof then some [] else rowCalls fuel procinfo').map fun calls =>
        buffer.toList ++ calls := by
  rw [rowCalls, h]

/-- **The loop is a fold** over the texts. -/
theorem readRows_eq (host : Host) (fuel : ℕ) (procinfo : CStream) (table : ConninodeTable) :
    readRows host fuel procinfo table =
      (rowCalls fuel procinfo).bind fun calls => calls.foldlM (addtoconninode host) table := by
  induction fuel generalizing procinfo table with
  | zero => rfl
  | succ fuel ih =>
      cases hread : CStream.fgets 8192 procinfo with
      | mk buffer procinfo' =>
          rw [rowCalls_of_fgets hread]
          simp only [readRows, hread, ih]
          cases buffer with
          | none => cases procinfo'.eof <;> simp
          | some buffer =>
              cases procinfo'.eof with
              | true => simp
              | false =>
                  cases rowCalls fuel procinfo' with
                  | none => simp
                  | some calls => simp

/-- More fuel does not change the calls. -/
theorem rowCalls_succ {fuel : ℕ} {procinfo : CStream} {calls : List CStr}
    (h : rowCalls fuel procinfo = some calls) : rowCalls (fuel + 1) procinfo = some calls := by
  induction fuel generalizing procinfo calls with
  | zero => cases h
  | succ fuel ih =>
      cases hread : CStream.fgets 8192 procinfo with
      | mk buffer procinfo' =>
          rw [rowCalls_of_fgets hread] at h ⊢
          obtain ⟨rest, hrest, rfl⟩ := Option.map_eq_some_iff.1 h
          cases heof : procinfo'.eof with
          | true =>
              rw [heof] at hrest
              cases hrest
              rfl
          | false =>
              rw [heof] at hrest
              rw [if_neg Bool.false_ne_true, ih hrest]
              rfl

theorem rowCalls_mono {fuel fuel' : ℕ} (hle : fuel ≤ fuel') {procinfo : CStream}
    {calls : List CStr} (h : rowCalls fuel procinfo = some calls) :
    rowCalls fuel' procinfo = some calls := by
  induction hle with
  | refl => exact h
  | step _ ih => exact rowCalls_succ ih

/-- **A file that cannot be read to its end is read forever.** -/
theorem rowCalls_failing (fuel : ℕ) (rest : List Read) :
    rowCalls fuel ⟨rest, true, false⟩ = none := by
  induction fuel generalizing rest with
  | zero => rfl
  | succ fuel ih =>
      obtain ⟨rest', hread⟩ := CStream.fgets_failing 8192 rest
      rw [rowCalls]
      simp only [hread, ih]
      rfl

/-! ### The calls and the lines -/

/-- **The calls cover the lines**: there are no fewer calls than lines read successfully; they are
these lines, if all lines are clean; and if there are no more, all lines are clean. -/
structure Covered (calls : List CStr) (lines : List (List Read)) : Prop where
  length_le : (lines.filterMap CStream.lineText).length ≤ calls.length
  eq_of_clean : (∀ line ∈ lines, CStream.Clean 8192 line) →
    calls = lines.filterMap CStream.lineText
  clean_of_length : calls.length = (lines.filterMap CStream.lineText).length →
    ∀ line ∈ lines, CStream.Clean 8192 line

theorem Covered.nil : Covered [] [] where
  length_le := le_rfl
  eq_of_clean := fun _ => rfl
  clean_of_length := fun _ _ h => absurd h List.not_mem_nil

/-- The calls are the lines exactly when these are clean. -/
theorem Covered.eq_iff {calls : List CStr} {lines : List (List Read)} (h : Covered calls lines) :
    calls = lines.filterMap CStream.lineText ↔ ∀ line ∈ lines, CStream.Clean 8192 line :=
  ⟨fun heq => h.clean_of_length (congrArg List.length heq), h.eq_of_clean⟩

/-- One more line that fits. -/
theorem Covered.cons {calls : List CStr} {lines : List (List Read)} (h : Covered calls lines)
    {line : CStr} (hne : line ≠ []) (hfits : line.length < 8192) :
    Covered (line :: calls) (chars line :: lines) := by
  have hclean : CStream.Clean 8192 (chars line) := .inl ⟨0, line, rfl, hfits⟩
  have hcons : (chars line :: lines).filterMap CStream.lineText =
      line :: lines.filterMap CStream.lineText :=
    List.filterMap_cons_some (CStream.lineText_chars hne)
  refine ⟨?_, ?_, ?_⟩
  · rw [hcons]
    exact Nat.succ_le_succ h.length_le
  · intro hall
    rw [hcons, h.eq_of_clean (List.forall_mem_cons.1 hall).2]
  · intro hlen
    rw [hcons] at hlen
    exact List.forall_mem_cons.2 ⟨hclean, h.clean_of_length (Nat.succ_inj.1 hlen)⟩

/-- What is read of a line adds to the lines behind it. -/
theorem length_filterMap_cons (line : List Read) (lines : List (List Read)) :
    ((line :: lines).filterMap CStream.lineText).length =
      (CStream.lineText line).toList.length + (lines.filterMap CStream.lineText).length := by
  cases hline : CStream.lineText line with
  | none => simp [hline]
  | some text => simp [hline, Nat.add_comm]

/-- As many calls as lines behind the first one: the first one is lost. -/
theorem Covered.behind_of_length {calls : List CStr} {lines : List (List Read)}
    (h : Covered calls lines)
    (hlen : calls.length = (lines.tail.filterMap CStream.lineText).length) :
    CStream.Lost 8192 (lines.headD []) ∧ ∀ line ∈ lines.tail, CStream.Clean 8192 line := by
  cases lines with
  | nil => exact ⟨.nil, fun _ hmem => absurd hmem List.not_mem_nil⟩
  | cons line lines =>
      rw [List.tail_cons] at hlen
      have hle := h.length_le
      rw [length_filterMap_cons, hlen] at hle
      have hnone : CStream.lineText line = none := by
        cases hline : CStream.lineText line with
        | none => rfl
        | some text =>
            rw [hline] at hle
            simp at hle
      have hall := h.clean_of_length (by rw [List.filterMap_cons_none hnone, hlen])
      obtain ⟨hline, hlines⟩ := List.forall_mem_cons.1 hall
      exact ⟨(CStream.lost_iff (by decide)).2 ⟨hline, hnone⟩, hlines⟩

/-- **The calls for the rest of a line and the lines behind it** are those for the lines behind it
exactly when the rest is lost, and these are clean. -/
theorem Covered.behind_iff {calls : List CStr} {lines : List (List Read)}
    (h : Covered calls lines) :
    calls = lines.tail.filterMap CStream.lineText ↔
      CStream.Lost 8192 (lines.headD []) ∧ ∀ line ∈ lines.tail, CStream.Clean 8192 line := by
  refine ⟨fun heq => h.behind_of_length (congrArg List.length heq), ?_⟩
  rintro ⟨hlost, hlines⟩
  cases lines with
  | nil => exact h.eq_of_clean fun _ hmem => absurd hmem List.not_mem_nil
  | cons line lines =>
      have hline : CStream.Clean 8192 line ∧ CStream.lineText line = none :=
        (CStream.lost_iff (by decide)).1 hlost
      rw [h.eq_of_clean (List.forall_mem_cons.2 ⟨hline.1, hlines⟩),
        List.filterMap_cons_none hline.2, List.tail_cons]

/-- An error in front of a line. -/
theorem Covered.error {calls : List CStr} {lines : List (List Read)} (h : Covered calls lines) :
    Covered calls ((.error :: lines.headD []) :: lines.tail) := by
  have hhead : ∀ line, CStream.Clean 8192 (.error :: line) ↔ CStream.Clean 8192 line :=
    fun line => CStream.clean_error (by decide)
  cases lines with
  | nil =>
      have hnil : CStream.Clean 8192 [.error] := (hhead []).2 (.inl ⟨0, [], rfl, by decide⟩)
      exact ⟨h.length_le, fun _ => h.eq_of_clean fun _ hmem => absurd hmem List.not_mem_nil,
        fun _ => List.forall_mem_cons.2 ⟨hnil, fun _ hmem => absurd hmem List.not_mem_nil⟩⟩
  | cons line lines =>
      have hsame : ((.error :: line) :: lines).filterMap CStream.lineText =
          (line :: lines).filterMap CStream.lineText := by
        rw [List.filterMap_cons, List.filterMap_cons, CStream.lineText_error]
      rw [List.headD_cons, List.tail_cons]
      refine ⟨?_, ?_, ?_⟩
      · rw [hsame]
        exact h.length_le
      · intro hall
        rw [List.forall_mem_cons, hhead] at hall
        rw [hsame, h.eq_of_clean (List.forall_mem_cons.2 hall)]
      · intro hlen
        rw [hsame] at hlen
        rw [List.forall_mem_cons, hhead]
        exact List.forall_mem_cons.1 (h.clean_of_length hlen)

/-- An error behind the first characters of a line. -/
theorem Covered.cut {calls : List CStr} {lines : List (List Read)} (h : Covered calls lines)
    {text : CStr} (hne : text ≠ []) (htext : '\n' ∉ text) (hlen : text.length + 1 < 8192) :
    Covered calls ((chars text ++ .error :: lines.headD []) :: lines.tail) := by
  have hdrop : ((chars text ++ .error :: lines.headD []) :: lines.tail).filterMap CStream.lineText =
      lines.tail.filterMap CStream.lineText :=
    List.filterMap_cons_none (CStream.lineText_cut hne _)
  have hall : (∀ line ∈ (chars text ++ .error :: lines.headD []) :: lines.tail,
      CStream.Clean 8192 line) ↔ calls = lines.tail.filterMap CStream.lineText := by
    rw [List.forall_mem_cons, CStream.clean_cut hne htext hlen, h.behind_iff]
  have hle : (lines.tail.filterMap CStream.lineText).length ≤ calls.length := by
    refine le_trans ?_ h.length_le
    cases lines with
    | nil => exact le_rfl
    | cons line lines =>
        rw [length_filterMap_cons]
        exact Nat.le_add_left _ _
  refine ⟨?_, ?_, ?_⟩
  · rw [hdrop]
    exact hle
  · intro hclean
    rw [hdrop, hall.1 hclean]
  · intro hlength
    rw [hdrop] at hlength
    exact hall.2 (h.behind_iff.2 (h.behind_of_length hlength))

/-- A part of the first line that fills the buffer. -/
theorem Covered.split {calls : List CStr} {line : List Read} {lines : List (List Read)}
    (h : Covered calls (line :: lines)) (hne : line ≠ []) {text : CStr}
    (hfull : text.length = 8191) :
    Covered (text :: calls) ((chars text ++ line) :: lines) := by
  have htext : text ≠ [] := by
    rintro rfl
    cases hfull
  have hclean := CStream.not_clean_full htext (congrArg Nat.succ hfull) hne
  have hle := h.length_le
  rw [length_filterMap_cons] at hle
  -- what is read of the whole line is read of its end
  have hsome : (CStream.lineText (chars text ++ line)).toList.length ≤
      (CStream.lineText line).toList.length := by
    cases hwhole : CStream.lineText (chars text ++ line) with
    | none => exact Nat.zero_le _
    | some whole =>
        obtain ⟨rest, rfl⟩ := CStream.lineText_append htext hwhole
        have hrest : rest ≠ [] := by
          rintro rfl
          exact hne rfl
        rw [CStream.lineText_chars hrest]
        exact le_rfl
  refine ⟨?_, ?_, ?_⟩
  · rw [length_filterMap_cons, List.length_cons]
    omega
  · intro hall
    exact absurd (hall _ List.mem_cons_self) hclean
  · intro heq
    rw [length_filterMap_cons, List.length_cons] at heq
    omega

/-- **Reading a file to its end**: with fuel for all its reads the loop ends, and the calls cover
the lines. -/
theorem rowCalls_counted {fuel : ℕ} {reads : List Read} (hfuel : reads.length < fuel) {eof : Bool}
    (heof : eof = true → reads = []) :
    ∃ calls, rowCalls fuel ⟨reads, false, eof⟩ = some calls ∧
      Covered calls (CStream.lines reads) := by
  induction fuel generalizing reads eof with
  | zero => omega
  | succ fuel ih =>
      have hopen : reads ≠ [] → eof = false := by
        intro hne
        by_contra h
        exact hne (heof (by simpa using h))
      have hnext : ∀ rest : List Read, rest.length < fuel →
          ∃ calls, rowCalls fuel ⟨rest, false, false⟩ = some calls ∧
            Covered calls (CStream.lines rest) :=
        fun rest hlt => ih hlt fun h => nomatch h
      rcases CStream.takeLine_cases 8191 reads with ⟨line, rest, hline, hlt, rfl, htake⟩ |
        ⟨line, rest, hline, hlen, rfl, htake⟩ | ⟨line, rest, hline, hlt, rfl, htake⟩ |
        ⟨line, hline, hlt, rfl, htake⟩
      · -- a line that fits
        obtain rfl := hopen (by simp)
        obtain ⟨calls, hcalls, hcovered⟩ := hnext rest (by simp at hfuel; omega)
        refine ⟨(line ++ ['\n']) :: calls, ?_, ?_⟩
        · rw [rowCalls_of_fgets (CStream.fgets_complete htake), if_neg Bool.false_ne_true, hcalls]
          rfl
        · rw [CStream.lines_append_newline (CStream.newline_notMem_chars hline)]
          have hcons := @Covered.cons _ _ hcovered (line ++ ['\n']) (by simp) (by simp; omega)
          rwa [CStream.chars_append] at hcons
      · -- a full buffer
        have hne : line ≠ [] := by
          rintro rfl
          cases hlen
        obtain rfl := hopen (by simp [chars, hne])
        obtain ⟨calls, hcalls, hcovered⟩ := hnext rest (by simp at hfuel; omega)
        refine ⟨line :: calls, ?_, ?_⟩
        · rw [rowCalls_of_fgets (CStream.fgets_complete htake), if_neg Bool.false_ne_true, hcalls]
          rfl
        · rw [CStream.lines_append (CStream.newline_notMem_chars hline)
            (by simpa [chars] using hne)]
          cases hrest : CStream.lines rest with
          | nil =>
              rw [hrest] at hcovered
              simpa using hcovered.cons hne (show line.length < 8192 by omega)
          | cons next lines =>
              have hmem : next ∈ CStream.lines rest := hrest ▸ List.mem_cons_self
              rw [hrest] at hcovered
              exact hcovered.split (CStream.ne_nil_of_mem_lines hmem) hlen
      · -- an error
        obtain rfl := hopen (by simp)
        obtain ⟨calls, hcalls, hcovered⟩ := hnext rest (by simp at hfuel; omega)
        refine ⟨calls, ?_, ?_⟩
        · rw [rowCalls_of_fgets (CStream.fgets_failed htake), if_neg Bool.false_ne_true, hcalls]
          rfl
        · rw [CStream.lines_append_error hline]
          cases line with
          | nil => exact hcovered.error
          | cons c line => exact hcovered.cut (List.cons_ne_nil c line) hline (Nat.succ_lt_succ hlt)
      · -- what is left
        cases line with
        | nil => exact ⟨[], by rw [rowCalls_of_fgets (CStream.fgets_ended htake)]; rfl, Covered.nil⟩
        | cons c s =>
            refine ⟨[c :: s], ?_, ?_⟩
            · rw [rowCalls_of_fgets (CStream.fgets_ended htake)]
              rfl
            · rw [CStream.lines_chars hline (List.cons_ne_nil c s)]
              exact Covered.nil.cons (List.cons_ne_nil c s) (Nat.lt_succ_of_lt hlt)

/-- The calls for what the read of the header line left. -/
theorem rowCalls_behind {rest : List Read} {eof : Bool} (heof : eof = true → rest = []) :
    ∃ fuel calls, rowCalls fuel ⟨rest, false, eof⟩ = some calls ∧
      Covered calls (CStream.lines rest) :=
  ⟨rest.length + 1, rowCalls_counted (Nat.lt_succ_self _) heof⟩

theorem rowCalls_unique {fuel fuel' : ℕ} {procinfo : CStream} {calls calls' : List CStr}
    (h : rowCalls fuel procinfo = some calls) (h' : rowCalls fuel' procinfo = some calls') :
    calls = calls' := by
  have hmax := rowCalls_mono (le_max_left fuel fuel') h
  rw [rowCalls_mono (le_max_right fuel fuel') h'] at hmax
  exact (Option.some_inj.1 hmax).symm

/-- **The calls behind the header line**: they are the lines behind it that are read successfully
exactly when the file is tidy. -/
theorem rowCalls_header (reads : List Read) :
    ∃ fuel calls, rowCalls fuel (CStream.fgets 8192 ⟨reads, false, false⟩).2 = some calls ∧
      (calls = (CStream.lines reads).tail.filterMap CStream.lineText ↔
        CStream.Tidy 8192 reads) := by
  rw [CStream.Tidy]
  rcases CStream.takeLine_cases 8191 reads with ⟨line, rest, hline, hlt, rfl, htake⟩ |
    ⟨line, rest, hline, hlen, rfl, htake⟩ | ⟨line, rest, hline, hlt, rfl, htake⟩ |
    ⟨line, hline, hlt, rfl, htake⟩
  · -- a header line that fits
    obtain ⟨fuel, calls, hcalls, hcovered⟩ := @rowCalls_behind rest false (fun h => nomatch h)
    refine ⟨fuel, calls, by rwa [CStream.fgets_complete htake], ?_⟩
    rw [CStream.lines_append_newline (CStream.newline_notMem_chars hline), List.headD_cons,
      List.tail_cons, hcovered.eq_iff, and_iff_right]
    exact .inl ⟨line ++ ['\n'], (CStream.chars_append line ['\n']).symm, by simp; omega⟩
  · -- a full buffer
    have hne : line ≠ [] := by
      rintro rfl
      cases hlen
    obtain ⟨fuel, calls, hcalls, hcovered⟩ := @rowCalls_behind rest false (fun h => nomatch h)
    refine ⟨fuel, calls, by rwa [CStream.fgets_complete htake], ?_⟩
    rw [CStream.lines_append (CStream.newline_notMem_chars hline) (by simpa [chars] using hne),
      List.headD_cons, List.tail_cons, hcovered.behind_iff,
      CStream.cleanHeader_full hne (congrArg Nat.succ hlen)]
  · -- an error
    obtain ⟨fuel, calls, hcalls, hcovered⟩ := @rowCalls_behind rest false (fun h => nomatch h)
    refine ⟨fuel, calls, by rwa [CStream.fgets_failed htake], ?_⟩
    rw [CStream.lines_append_error hline, List.headD_cons, List.tail_cons, hcovered.behind_iff,
      CStream.cleanHeader_cut hline (Nat.succ_lt_succ hlt)]
  · -- the flag is set by the header, and the loop reads nothing
    obtain ⟨fuel, calls, hcalls, hcovered⟩ := @rowCalls_behind [] true (fun _ => rfl)
    refine ⟨fuel, calls, by rwa [CStream.fgets_ended htake], ?_⟩
    have hsingle : (CStream.lines (chars line)).headD [] = chars line ∧
        (CStream.lines (chars line)).tail = [] := by
      cases line with
      | nil => exact ⟨rfl, rfl⟩
      | cons c line => rw [CStream.lines_chars hline (List.cons_ne_nil c line)]; exact ⟨rfl, rfl⟩
    rw [hsingle.1, hsingle.2]
    refine ⟨fun _ => ⟨.inl ⟨line, rfl, by omega⟩, fun _ hmem => absurd hmem List.not_mem_nil⟩, ?_⟩
    intro _
    exact hcovered.eq_of_clean fun _ hmem => absurd hmem List.not_mem_nil

/-- **Every line is handled once**: for a file whose reads give any characters and errors, and meet
an end behind them or fail for ever, the loop ends after one call for each line behind the header
that is read successfully, in their order, exactly when the file has an end and is tidy. -/
theorem each_line_once_iff (reads : List Read) (failing : Bool) :
    ((∃ fuel, rowCalls fuel (CStream.fgets 8192 ⟨reads, failing, false⟩).2 =
        some (CStream.linesBehindHeader ⟨reads, failing, false⟩)) ↔
      failing = false ∧ CStream.Tidy 8192 reads) ∧
    ∀ host fuel procinfo table, readRows host fuel procinfo table =
      (rowCalls fuel procinfo).bind fun calls => calls.foldlM (addtoconninode host) table := by
  refine ⟨?_, readRows_eq⟩
  cases failing with
  | true =>
      obtain ⟨rest, hread⟩ := CStream.fgets_failing 8192 reads
      simp [hread, rowCalls_failing]
  | false =>
      obtain ⟨fuel, calls, hcalls, htidy⟩ := rowCalls_header reads
      rw [eq_self, true_and, ← htidy]
      constructor
      · rintro ⟨fuel', hlines⟩
        exact rowCalls_unique hcalls hlines
      · intro heq
        exact ⟨fuel, hcalls.trans (congrArg some heq)⟩

/-- **A file whose first read fails, and all others**, is read forever. -/
theorem failing_file_never_ends :
    ¬ ∃ fuel, rowCalls fuel (CStream.fgets 8192 ⟨[], true, false⟩).2 =
      some (CStream.linesBehindHeader ⟨[], true, false⟩) := by
  rintro ⟨fuel, hcalls⟩
  rw [show (CStream.fgets 8192 ⟨[], true, false⟩).2 = ⟨[], true, false⟩ from rfl,
    rowCalls_failing] at hcalls
  cases hcalls

end NetworkAnalyzer
