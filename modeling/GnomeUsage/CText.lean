/-
Formatted text of the C library.

Programs that read the tables of the kernel print numbers with `printf` and read them back with
`scanf`.  This module gives the conversions such programs use, on lists of characters, and the
rules by which a scan of printed text is computed one directive at a time.

* `CText.decimal`, `CText.printInt`, `CText.hex`, `CText.hexFixed` — the conversions `%lu`, `%d`,
  `%x` and `%0wX`;
* `CText.Directive`, `CText.scan` — the scanning directives and the scan of a string, which
  returns the values assigned before the first directive that fails;
* `CText.hexValue_hexFixed`, `CText.decimal_injective`, `CText.hex_injective` — what was printed
  is read back;
* `CText.split_first`, `CText.split_last` — text is cut at a separator in one way only;
* `CText.scan_dec`, `CText.scan_hex`, `CText.scan_hex_width`, `CText.scan_set` — **the rules of a
  scan**: a directive consumes exactly the text that was printed for it, provided what follows
  cannot be taken for more of it (`CText.Stops`).
-/

import Mathlib.Data.List.Basic
import Mathlib.Data.BitVec
import Mathlib.Tactic.Common
import Mathlib.Tactic.IntervalCases

set_option relaxedAutoImplicit false
set_option autoImplicit false

namespace CText

/-! ### Characters -/

/-- The characters of `isspace` in the C locale. -/
def isSpace (c : Char) : Bool :=
  c == ' ' || c == '\t' || c == '\n' || c == '\x0b' || c == '\x0c' || c == '\r'

/-- The characters of `isxdigit`. -/
def isHex (c : Char) : Bool :=
  c.isDigit || ('A' ≤ c && c ≤ 'F') || ('a' ≤ c && c ≤ 'f')

/-- The value of a hexadecimal digit. -/
def hexDigitValue (c : Char) : ℕ :=
  if c.isDigit then c.toNat - 48 else if 'a' ≤ c then c.toNat - 87 else c.toNat - 55

/-- The upper case digit of a value below sixteen. -/
def hexDigit (d : ℕ) : Char := if d < 10 then Char.ofNat (48 + d) else Char.ofNat (55 + d)

theorem isHex_hexDigit {d : ℕ} (h : d < 16) : isHex (hexDigit d) = true := by
  interval_cases d <;> decide

theorem hexDigitValue_hexDigit {d : ℕ} (h : d < 16) : hexDigitValue (hexDigit d) = d := by
  interval_cases d <;> decide

/-! ### Printing -/

/-- `%lu`. -/
def decimal (n : ℕ) : List Char := Nat.toDigits 10 n

/-- `%d`. -/
def printInt : ℤ → List Char
  | .ofNat n => decimal n
  | .negSucc n => '-' :: decimal (n + 1)

/-- `%0wX`, for values of at most `w` digits. -/
def hexFixed : ℕ → ℕ → List Char
  | 0, _ => []
  | w + 1, n => hexFixed w (n / 16) ++ [hexDigit (n % 16)]

theorem decimal_ne_nil (n : ℕ) : decimal n ≠ [] := Nat.toDigits_ne_nil

theorem isDigit_of_mem_decimal {n : ℕ} {c : Char} (h : c ∈ decimal n) : c.isDigit = true :=
  Nat.isDigit_of_mem_toDigits (by decide) (by decide) h

/-- **Decimal text determines the number.** -/
theorem decimal_injective {m n : ℕ} (h : decimal m = decimal n) : m = n := by
  have hval := congrArg (fun l => Nat.ofDigitChars 10 l 0) h
  simpa [decimal] using hval

theorem not_mem_decimal {n : ℕ} {c : Char} (h : c.isDigit = false) : c ∉ decimal n := by
  intro hc
  rw [isDigit_of_mem_decimal hc] at h
  cases h

/-- **Text in front of a separator** is determined by the whole, if it does not contain it. -/
theorem split_first {c : Char} {x y z w : List Char} (hx : c ∉ x) (hy : c ∉ y)
    (h : x ++ c :: z = y ++ c :: w) : x = y ∧ z = w := by
  induction x generalizing y with
  | nil =>
      cases y with
      | nil => exact ⟨rfl, (List.cons.inj h).2⟩
      | cons d y => exact absurd ((List.cons.inj h).1 ▸ List.mem_cons_self) hy
  | cons b x ih =>
      cases y with
      | nil => exact absurd ((List.cons.inj h).1 ▸ List.mem_cons_self) hx
      | cons d y =>
          obtain ⟨rfl, htail⟩ := List.cons.inj h
          obtain ⟨rfl, hrest⟩ := ih (fun hm => hx (List.mem_cons_of_mem _ hm))
            (fun hm => hy (List.mem_cons_of_mem _ hm)) htail
          exact ⟨rfl, hrest⟩

/-- **Text behind a separator** is determined by the whole, if it does not contain it. -/
theorem split_last {c : Char} {x y z w : List Char} (hz : c ∉ z) (hw : c ∉ w)
    (h : x ++ c :: z = y ++ c :: w) : x = y ∧ z = w := by
  have hrev := congrArg List.reverse h
  simp only [List.reverse_append, List.reverse_cons, List.append_assoc, List.singleton_append]
    at hrev
  obtain ⟨hzw, hxy⟩ := split_first (by simpa using hz) (by simpa using hw) hrev
  exact ⟨List.reverse_injective hxy, List.reverse_injective hzw⟩

/-- A character that is no digit and no sign is not in the text of a number. -/
theorem not_mem_printInt {n : ℤ} {c : Char} (h : c.isDigit = false) (hsign : c ≠ '-') :
    c ∉ printInt n := by
  cases n with
  | ofNat n => exact not_mem_decimal h
  | negSucc n =>
      intro hc
      rcases List.mem_cons.1 hc with rfl | hc
      · exact hsign rfl
      · exact not_mem_decimal h hc

/-- **Decimal text with a sign determines the number.** -/
theorem printInt_injective {m n : ℤ} (h : printInt m = printInt n) : m = n := by
  have hsign : ∀ {k : ℕ} {text : List Char}, decimal k ≠ '-' :: text := by
    intro k text heq
    exact not_mem_decimal (by decide) (heq ▸ List.mem_cons_self : '-' ∈ decimal k)
  cases m with
  | ofNat m =>
      cases n with
      | ofNat n => rw [decimal_injective h]
      | negSucc n => exact absurd h hsign
  | negSucc m =>
      cases n with
      | ofNat n => exact absurd h.symm hsign
      | negSucc n =>
          have heq := decimal_injective (List.cons.inj h).2
          rw [Nat.succ_injective heq]

@[simp] theorem printInt_natCast (n : ℕ) : printInt (n : ℤ) = decimal n := rfl

@[simp] theorem length_hexFixed (w n : ℕ) : (hexFixed w n).length = w := by
  induction w generalizing n with
  | zero => rfl
  | succ w ih => simp [hexFixed, ih]

theorem isHex_of_mem_hexFixed {w n : ℕ} {c : Char} (h : c ∈ hexFixed w n) : isHex c = true := by
  induction w generalizing n with
  | zero => simp [hexFixed] at h
  | succ w ih =>
      rcases List.mem_append.1 h with h | h
      · exact ih h
      · obtain rfl : c = hexDigit (n % 16) := by simpa using h
        exact isHex_hexDigit (Nat.mod_lt _ (by decide))

/-! ### Scanning -/

/-- A value assigned by a conversion. -/
inductive Value where
  | str (s : List Char)
  | uint (v : BitVec 32)
  | long (v : ℤ)
  deriving DecidableEq

/-- The directives of a format; `keep := false` is assignment suppression. -/
inductive Directive where
  /-- White space in the format. -/
  | space
  /-- An ordinary character. -/
  | lit (c : Char)
  /-- `%ld`, or `%*d`. -/
  | dec (keep : Bool)
  /-- `%X`, with an optional field width, or `%*X`. -/
  | hex (width : Option ℕ) (keep : Bool)
  /-- `%w[...]`. -/
  | set (width : ℕ) (p : Char → Bool)
  /-- `%*ws`. -/
  | word (width : ℕ)

def skipSpace (s : List Char) : List Char := s.dropWhile isSpace

/-- An optional sign. -/
def readSign : List Char → Bool × List Char
  | [] => (false, [])
  | c :: s => if c = '-' then (true, s) else if c = '+' then (false, s) else (false, c :: s)

/-- An optional `0x`. -/
def skipHexMark : List Char → List Char
  | c :: d :: s => if c = '0' ∧ (d = 'x' ∨ d = 'X') then s else c :: d :: s
  | s => s

def hexValue (ds : List Char) : ℕ := ds.foldl (fun v c => 16 * v + hexDigitValue c) 0

/-- The result of `strtol`, which saturates. -/
def toLong (neg : Bool) (ds : List Char) : ℤ :=
  if neg then max (-(2 : ℤ) ^ 63) (-(Nat.ofDigitChars 10 ds 0 : ℤ))
  else min ((2 : ℤ) ^ 63 - 1) (Nat.ofDigitChars 10 ds 0 : ℤ)

/-- The result of `strtoul`, which saturates, stored into an `unsigned int`. -/
def toUint (neg : Bool) (ds : List Char) : BitVec 32 :=
  if hexValue ds < 2 ^ 64 then BitVec.ofInt 32 (if neg then -(hexValue ds : ℤ) else hexValue ds)
  else BitVec.allOnes 32

/-- `strtol (s, NULL, 10)`. -/
def strtol (s : List Char) : ℤ :=
  let (neg, s) := readSign (skipSpace s)
  toLong neg (s.takeWhile Char.isDigit)

/-- `strtoul (s, NULL, 10)`: saturating, and wrapping around below zero. -/
def strtoul (s : List Char) : BitVec 64 :=
  let (neg, s) := readSign (skipSpace s)
  let v := Nat.ofDigitChars 10 (s.takeWhile Char.isDigit) 0
  if v < 2 ^ 64 then BitVec.ofInt 64 (if neg then -(v : ℤ) else v) else BitVec.allOnes 64

/-- One directive: the values it assigns and the input it leaves, or `none` when it fails. -/
def Directive.read : Directive → List Char → Option (List Value × List Char)
  | .space, s => some ([], skipSpace s)
  | .lit _, [] => none
  | .lit c, x :: s => if x = c then some ([], s) else none
  | .dec keep, s =>
      let (neg, s) := readSign (skipSpace s)
      let ds := s.takeWhile Char.isDigit
      if ds = [] then none
      else some (if keep then [.long (toLong neg ds)] else [], s.dropWhile Char.isDigit)
  | .hex width keep, s =>
      let s := skipSpace s
      let (field, beyond) := match width with
        | none => (s, [])
        | some w => (s.take w, s.drop w)
      let (neg, field) := readSign field
      let field := skipHexMark field
      let ds := field.takeWhile isHex
      if ds = [] then none
      else some (if keep then [.uint (toUint neg ds)] else [], field.dropWhile isHex ++ beyond)
  | .set width p, s =>
      let text := (s.take width).takeWhile p
      if text = [] then none else some ([.str text], s.drop text.length)
  | .word width, s =>
      let s := skipSpace s
      let text := (s.take width).takeWhile fun c => !isSpace c
      if text = [] then none else some ([], s.drop text.length)

/-- **`sscanf`**: the values assigned before the first directive that fails. -/
def scan : List Directive → List Char → List Value
  | [], _ => []
  | d :: ds, s =>
      match d.read s with
      | none => []
      | some (vs, rest) => vs ++ scan ds rest

/-! ### The rules of a scan -/

/-- The next character, if there is one, fails `p`. -/
def Stops (p : Char → Bool) (rest : List Char) : Prop := ∀ c ∈ rest.head?, p c = false

theorem Stops.nil (p : Char → Bool) : Stops p [] := by simp [Stops]

theorem Stops.cons {p : Char → Bool} {c : Char} (h : p c = false) (rest : List Char) :
    Stops p (c :: rest) := by
  intro x hx
  obtain rfl : c = x := by simpa using hx
  exact h

theorem Stops.append {p : Char → Bool} {s : List Char} (hs : s ≠ []) (h : ∀ c ∈ s, p c = false)
    (rest : List Char) : Stops p (s ++ rest) := by
  cases s with
  | nil => exact absurd rfl hs
  | cons c s => exact Stops.cons (h c List.mem_cons_self) _

theorem takeWhile_append_stops {p : Char → Bool} {s rest : List Char} (h : ∀ c ∈ s, p c = true)
    (hrest : Stops p rest) : (s ++ rest).takeWhile p = s := by
  rw [List.takeWhile_append_of_pos h]
  cases rest with
  | nil => simp
  | cons c rest => simp [hrest c (by simp)]

theorem dropWhile_append_stops {p : Char → Bool} {s rest : List Char} (h : ∀ c ∈ s, p c = true)
    (hrest : Stops p rest) : (s ++ rest).dropWhile p = rest := by
  rw [List.dropWhile_append_of_pos h]
  cases rest with
  | nil => simp
  | cons c rest => simp [hrest c (by simp)]

theorem skipSpace_append {pad s : List Char} (hpad : ∀ c ∈ pad, isSpace c = true)
    (hs : Stops isSpace s) : skipSpace (pad ++ s) = s :=
  dropWhile_append_stops hpad hs

theorem scan_of_read {d : Directive} {ds : List Directive} {s rest : List Char} {vs : List Value}
    (h : d.read s = some (vs, rest)) : scan (d :: ds) s = vs ++ scan ds rest := by
  simp only [scan, h]

theorem scan_space {ds : List Directive} {pad s : List Char}
    (hpad : ∀ c ∈ pad, isSpace c = true) (hs : Stops isSpace s) :
    scan (.space :: ds) (pad ++ s) = scan ds s := by
  have hread : Directive.space.read (pad ++ s) = some ([], s) := by
    simp only [Directive.read, skipSpace_append hpad hs]
  rw [scan_of_read hread, List.nil_append]

theorem scan_lit (c : Char) (ds : List Directive) (s : List Char) :
    scan (.lit c :: ds) (c :: s) = scan ds s := by
  have hread : (Directive.lit c).read (c :: s) = some ([], s) := by simp [Directive.read]
  rw [scan_of_read hread, List.nil_append]

/-- A suppressed word assigns nothing, whether it is there or not. -/
theorem scan_word_space (width : ℕ) (s : List Char) : scan [.word width, .space] s = [] := by
  simp only [scan, Directive.read]
  split
  · rfl
  · next h =>
      split at h
      · simp at h
      · cases h; simp

theorem readSign_of_stops {s : List Char} (h : Stops (fun c => c == '-' || c == '+') s) :
    readSign s = (false, s) := by
  cases s with
  | nil => rfl
  | cons c s =>
      have hc := h c (by simp)
      simp only [Bool.or_eq_false_iff, beq_eq_false_iff_ne] at hc
      simp [readSign, hc.1, hc.2]

theorem not_space_of_isHex {c : Char} (h : isHex c = true) : isSpace c = false := by
  by_contra hs
  simp only [Bool.not_eq_false, isSpace, Bool.or_eq_true, beq_iff_eq] at hs
  rcases hs with ((((rfl | rfl) | rfl) | rfl) | rfl) | rfl <;> exact absurd h (by decide)

theorem not_sign_of_isHex {c : Char} (h : isHex c = true) : (c == '-' || c == '+') = false := by
  by_contra hs
  simp only [Bool.not_eq_false, Bool.or_eq_true, beq_iff_eq] at hs
  rcases hs with rfl | rfl <;> exact absurd h (by decide)

theorem not_mark_of_isHex {c : Char} (h : isHex c = true) : c ≠ 'x' ∧ c ≠ 'X' := by
  constructor <;> rintro rfl <;> exact absurd h (by decide)

theorem isHex_of_isDigit {c : Char} (h : c.isDigit = true) : isHex c = true := by
  simp [isHex, h]

/-- **A decimal conversion** consumes the digits printed for it. -/
theorem scan_dec {ds : List Directive} {pad digits rest : List Char} (keep : Bool)
    (hpad : ∀ c ∈ pad, isSpace c = true) (hne : digits ≠ [])
    (hdigits : ∀ c ∈ digits, c.isDigit = true) (hrest : Stops Char.isDigit rest) :
    scan (.dec keep :: ds) (pad ++ (digits ++ rest)) =
      (if keep then [.long (toLong false digits)] else []) ++ scan ds rest := by
  have hhex : ∀ c ∈ digits, isHex c = true := fun c hc => isHex_of_isDigit (hdigits c hc)
  have hspace : Stops isSpace (digits ++ rest) :=
    Stops.append hne (fun c hc => not_space_of_isHex (hhex c hc)) rest
  have hsign : Stops (fun c => c == '-' || c == '+') (digits ++ rest) :=
    Stops.append hne (fun c hc => not_sign_of_isHex (hhex c hc)) rest
  refine scan_of_read ?_
  simp only [Directive.read, skipSpace_append hpad hspace, readSign_of_stops hsign,
    takeWhile_append_stops hdigits hrest, dropWhile_append_stops hdigits hrest, if_neg hne]

/-- What may follow a hexadecimal number: neither a digit nor the mark of a `0x`. -/
def EndsHex (rest : List Char) : Prop :=
  Stops (fun c => isHex c || c == 'x' || c == 'X') rest

theorem EndsHex.stops {rest : List Char} (h : EndsHex rest) : Stops isHex rest := by
  intro c hc
  have := h c hc
  simp only [Bool.or_eq_false_iff] at this
  exact this.1.1

theorem EndsHex.cons {c : Char} (h : (isHex c || c == 'x' || c == 'X') = false)
    (rest : List Char) : EndsHex (c :: rest) := Stops.cons h rest

theorem EndsHex.nil : EndsHex [] := Stops.nil _

theorem skipHexMark_of_endsHex {digits rest : List Char} (hne : digits ≠ [])
    (hdigits : ∀ c ∈ digits, isHex c = true) (hrest : EndsHex rest) :
    skipHexMark (digits ++ rest) = digits ++ rest := by
  match digits, hne with
  | [c], _ =>
      cases rest with
      | nil => rfl
      | cons d rest =>
          have hd := hrest d (by simp)
          simp only [Bool.or_eq_false_iff, beq_eq_false_iff_ne] at hd
          simp [skipHexMark, hd.1.2, hd.2]
  | c :: d :: digits, _ =>
      have hd := not_mark_of_isHex (hdigits d (by simp))
      simp [skipHexMark, hd.1, hd.2]

theorem read_hex_aux {digits rest : List Char} (hne : digits ≠ [])
    (hdigits : ∀ c ∈ digits, isHex c = true) (hrest : EndsHex rest) :
    readSign (digits ++ rest) = (false, digits ++ rest) ∧
      skipHexMark (digits ++ rest) = digits ++ rest ∧
      (digits ++ rest).takeWhile isHex = digits ∧ (digits ++ rest).dropWhile isHex = rest := by
  refine ⟨readSign_of_stops ?_, skipHexMark_of_endsHex hne hdigits hrest,
    takeWhile_append_stops hdigits hrest.stops, dropWhile_append_stops hdigits hrest.stops⟩
  exact Stops.append hne (fun c hc => not_sign_of_isHex (hdigits c hc)) rest

/-- **A hexadecimal conversion** consumes the digits printed for it. -/
theorem scan_hex {ds : List Directive} {pad digits rest : List Char} (keep : Bool)
    (hpad : ∀ c ∈ pad, isSpace c = true) (hne : digits ≠ [])
    (hdigits : ∀ c ∈ digits, isHex c = true) (hrest : EndsHex rest) :
    scan (.hex none keep :: ds) (pad ++ (digits ++ rest)) =
      (if keep then [.uint (toUint false digits)] else []) ++ scan ds rest := by
  have hspace : Stops isSpace (digits ++ rest) :=
    Stops.append hne (fun c hc => not_space_of_isHex (hdigits c hc)) rest
  obtain ⟨hsign, hmark, htake, hdrop⟩ := read_hex_aux hne hdigits hrest
  refine scan_of_read ?_
  simp only [Directive.read, skipSpace_append hpad hspace, hsign, hmark, htake, hdrop, if_neg hne,
    List.append_nil]

/-- **A hexadecimal conversion with a field width** consumes that many digits. -/
theorem scan_hex_width {ds : List Directive} {digits rest : List Char} {w : ℕ} (keep : Bool)
    (hw : digits.length = w) (hne : digits ≠ []) (hdigits : ∀ c ∈ digits, isHex c = true) :
    scan (.hex (some w) keep :: ds) (digits ++ rest) =
      (if keep then [.uint (toUint false digits)] else []) ++ scan ds rest := by
  have hstop : Stops isSpace (digits ++ rest) :=
    Stops.append hne (fun c hc => not_space_of_isHex (hdigits c hc)) rest
  have hspace : skipSpace (digits ++ rest) = digits ++ rest := by
    simpa using @skipSpace_append [] _ (by simp) hstop
  have htake : (digits ++ rest).take w = digits := by rw [← hw]; simp
  have hdrop : (digits ++ rest).drop w = rest := by rw [← hw]; simp
  have haux := read_hex_aux hne hdigits EndsHex.nil
  simp only [List.append_nil] at haux
  obtain ⟨hsign, hmark, htw, hdw⟩ := haux
  refine scan_of_read ?_
  simp only [Directive.read, hspace, htake, hdrop, hsign, hmark, htw, hdw, if_neg hne,
    List.nil_append]

/-- **A scanset** consumes the text it admits. -/
theorem scan_set {ds : List Directive} {text rest : List Char} {w : ℕ} {p : Char → Bool}
    (hw : text.length ≤ w) (hne : text ≠ []) (htext : ∀ c ∈ text, p c = true)
    (hrest : Stops p rest) :
    scan (.set w p :: ds) (text ++ rest) = .str text :: scan ds rest := by
  have htake : ((text ++ rest).take w).takeWhile p = text := by
    rw [List.take_append]
    rw [List.take_of_length_le hw]
    refine takeWhile_append_stops htext ?_
    intro c hc
    cases rest with
    | nil => simp at hc
    | cons d rest =>
        cases hk : w - text.length with
        | zero => simp [hk] at hc
        | succ k =>
            rw [hk] at hc
            exact hrest c (by simpa using hc)
  have hread : (Directive.set w p).read (text ++ rest) = some ([.str text], rest) := by
    simp only [Directive.read, htake, if_neg hne, List.drop_left]
  rw [scan_of_read hread, List.singleton_append]

/-! ### Reading back what was printed -/

theorem toLong_decimal {n : ℕ} (h : n < 2 ^ 63) : toLong false (decimal n) = n := by
  simp only [toLong, decimal, Nat.ofDigitChars_ten_toDigits]
  simp only [Bool.false_eq_true, if_false]
  omega

theorem hexValue_append (ds : List Char) (c : Char) :
    hexValue (ds ++ [c]) = 16 * hexValue ds + hexDigitValue c := by
  simp [hexValue, List.foldl_append]

theorem hexValue_hexFixed (w n : ℕ) : hexValue (hexFixed w n) = n % 16 ^ w := by
  induction w generalizing n with
  | zero => simp [hexFixed, hexValue, Nat.mod_one]
  | succ w ih =>
      rw [hexFixed, hexValue_append, ih, hexDigitValue_hexDigit (Nat.mod_lt _ (by decide)),
        Nat.pow_succ, Nat.mul_comm (16 ^ w) 16, Nat.mod_mul]
      omega

/-- `%x`. -/
def hex (n : ℕ) : List Char := Nat.toDigits 16 n

theorem hexDigitValue_digitChar {d : ℕ} (h : d < 16) : hexDigitValue (Nat.digitChar d) = d := by
  interval_cases d <;> decide

/-- The digits of a number, and those of its sixteenth. -/
theorem hex_eq (n : ℕ) :
    hex n = if n < 16 then [Nat.digitChar n] else hex (n / 16) ++ [Nat.digitChar (n % 16)] :=
  Nat.toDigits_eq_if (by decide)

theorem hexValue_hex (n : ℕ) : hexValue (hex n) = n := by
  induction n using Nat.strong_induction_on with
  | _ n ih =>
      rw [hex_eq]
      split
      · next hlt => simp [hexValue, hexDigitValue_digitChar hlt]
      · next hge =>
          rw [hexValue_append, ih (n / 16) (by omega),
            hexDigitValue_digitChar (Nat.mod_lt _ (by decide))]
          omega

/-- **Hexadecimal text determines the number.** -/
theorem hex_injective {m n : ℕ} (h : hex m = hex n) : m = n := by
  rw [← hexValue_hex m, h, hexValue_hex]

/-- The digits of a number are those of values below sixteen. -/
theorem exists_of_mem_hex {n : ℕ} {c : Char} (h : c ∈ hex n) :
    ∃ d < 16, c = Nat.digitChar d := by
  induction n using Nat.strong_induction_on with
  | _ n ih =>
      rw [hex_eq] at h
      split at h
      · next hlt => exact ⟨n, hlt, List.mem_singleton.1 h⟩
      · next hge =>
          rcases List.mem_append.1 h with h | h
          · exact ih (n / 16) (by omega) h
          · exact ⟨n % 16, Nat.mod_lt _ (by decide), List.mem_singleton.1 h⟩

theorem toUint_hexFixed {w n : ℕ} (hw : 16 ^ w ≤ 2 ^ 32) (hn : n < 16 ^ w) :
    toUint false (hexFixed w n) = BitVec.ofNat 32 n := by
  have hval : hexValue (hexFixed w n) = n := by
    rw [hexValue_hexFixed, Nat.mod_eq_of_lt hn]
  have hlt : n < 2 ^ 64 := lt_of_lt_of_le hn (le_trans hw (by decide))
  simp only [toUint, hval, if_pos hlt]
  simp

end CText
