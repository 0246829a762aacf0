/-
The rows of the tables of the kernel (`/proc/net/tcp`, `tcp6`, `udp` and `udp6`).

A row names the two endpoints of a socket and its inode, among much else.  The addresses are
printed word by word as the host holds them, in one of four layouts.  This module says what such
a row is, and that the analyzer reads it back.

* `NetRow`, `NetFields.text` — a row and its text;
* `scan_rowFormat`, `rowTexts_ends` — **the scan of a row** returns its fields, and the texts of its
  addresses are those of its endpoints, in all four layouts;
* `NetRow.isLine` — a row is read as one line;
* `addtoconninode_row` — **what the analyzer inserts for a row**.
-/

import GnomeUsage.Conninode
import GnomeUsage.Flows

set_option relaxedAutoImplicit false
set_option autoImplicit false

namespace NetworkAnalyzer

open CText (Stops EndsHex)

/-! ### Rows -/

/-- A nonempty text of hexadecimal digits. -/
structure HexText where
  digits : List Char
  ne_nil : digits ≠ []
  isHex : ∀ c ∈ digits, CText.isHex c = true

/-- The endpoints of a row, in the four layouts: of an IPv4 table, of an IPv4 socket in an IPv6
table, of such a socket that is bound but not connected, whose remote end is `::`, and of an IPv6
socket. -/
inductive RowEnds where
  | ip (loc rem : InAddr)
  | mapped (loc rem : InAddr)
  | bound (loc : InAddr)
  | ip6 (loc rem : In6Addr) (h : isMapped loc = false)

/-- The IPv6 address that stands for an IPv4 address. -/
def mappedAddr (addr : InAddr) : In6Addr := ⟨0, 0, 0xFFFF0000, addr.s_addr⟩

/-- `::`. -/
def anyAddr6 : In6Addr := ⟨0, 0, 0, 0⟩

/-- `%08X` of the word of an address. -/
def inHex (addr : InAddr) : CStr := CText.hexFixed 8 addr.s_addr.toNat

/-- `%08X%08X%08X%08X` of the words of an address. -/
def in6Hex (addr : In6Addr) : CStr :=
  CText.hexFixed 8 addr.s6_addr32_0.toNat ++ (CText.hexFixed 8 addr.s6_addr32_1.toNat ++
    (CText.hexFixed 8 addr.s6_addr32_2.toNat ++ CText.hexFixed 8 addr.s6_addr32_3.toNat))

def RowEnds.localHex : RowEnds → CStr
  | .ip loc _ => inHex loc
  | .mapped loc _ => in6Hex (mappedAddr loc)
  | .bound loc => in6Hex (mappedAddr loc)
  | .ip6 loc _ _ => in6Hex loc

def RowEnds.remHex : RowEnds → CStr
  | .ip _ rem => inHex rem
  | .mapped _ rem => in6Hex (mappedAddr rem)
  | .bound _ => in6Hex anyAddr6
  | .ip6 _ rem _ => in6Hex rem

/-- The address of the local end. -/
def RowEnds.localAddr : RowEnds → Address
  | .ip loc _ => .ip loc
  | .mapped loc _ => .ip loc
  | .bound loc => .ip loc
  | .ip6 loc _ _ => .ip6 loc

/-- The address of the remote end; that of a socket that is not connected is `0.0.0.0`. -/
def RowEnds.remAddr : RowEnds → Address
  | .ip _ rem => .ip rem
  | .mapped _ rem => .ip rem
  | .bound _ => .ip ⟨0⟩
  | .ip6 _ rem _ => .ip6 rem

/-- The fields of a row, with the widths its numbers are padded to. -/
structure NetFields where
  slPad : ℕ
  sl : ℕ
  ends : RowEnds
  local_port : BitVec 16
  rem_port : BitVec 16
  st : HexText
  tx_queue : HexText
  rx_queue : HexText
  tr : HexText
  tmWhen : HexText
  retrnsmt : HexText
  uidPad : ℕ
  uid : ℕ
  timeoutPad : ℕ
  timeout : ℕ
  inode : ℕ
  /-- What follows the inode. -/
  trailing : CStr

/-- Spaces. -/
def spaces (n : ℕ) : CStr := List.replicate n ' '

/-- The text of a row from the field `st` on, without the newline. -/
def NetFields.tailBody (row : NetFields) : CStr :=
  row.st.digits ++ (' ' :: (row.tx_queue.digits ++ (':' :: (row.rx_queue.digits ++
    (' ' :: (row.tr.digits ++ (':' :: (row.tmWhen.digits ++ (' ' :: (row.retrnsmt.digits ++
      (spaces (row.uidPad + 1) ++ (CText.decimal row.uid ++
        (spaces (row.timeoutPad + 1) ++ (CText.decimal row.timeout ++
          (' ' :: (CText.decimal row.inode ++ (' ' :: row.trailing)))))))))))))))))

/-- The text of a row, without the newline. -/
def NetFields.body (row : NetFields) : CStr :=
  spaces row.slPad ++ (CText.decimal row.sl ++ (':' :: (' ' :: (row.ends.localHex ++
    (':' :: (CText.hexFixed 4 row.local_port.toNat ++ (' ' :: (row.ends.remHex ++
      (':' :: (CText.hexFixed 4 row.rem_port.toNat ++ (' ' :: row.tailBody)))))))))))

/-- The text of a row. -/
def NetFields.text (row : NetFields) : CStr := row.body ++ ['\n']

/-- **A row as the kernel prints it**: one line, shorter than the buffer it is read into, with an
inode that the host's `long` can hold. -/
structure NetRow extends NetFields where
  inode_lt : inode < 2 ^ 63
  trailing_line : '\n' ∉ trailing
  fits : toNetFields.text.length < 8192

/-! ### Scanning a row -/

theorem isSpace_spaces {n : ℕ} : ∀ c ∈ spaces n, CText.isSpace c = true := by
  intro c hc
  obtain ⟨_, rfl⟩ := List.mem_replicate.1 hc
  rfl

theorem stops_space_hex {text rest : CStr} (hne : text ≠ [])
    (htext : ∀ c ∈ text, CText.isHex c = true) : Stops CText.isSpace (text ++ rest) :=
  Stops.append hne (fun c hc => CText.not_space_of_isHex (htext c hc)) rest

theorem isHex_decimal {n : ℕ} : ∀ c ∈ CText.decimal n, CText.isHex c = true :=
  fun _ hc => CText.isHex_of_isDigit (CText.isDigit_of_mem_decimal hc)

theorem hexFixed_ne_nil {w n : ℕ} (h : w ≠ 0) : CText.hexFixed w n ≠ [] := by
  intro hnil
  have hlen := CText.length_hexFixed w n
  rw [hnil] at hlen
  exact h hlen.symm

/-- One space in the format and in the text. -/
theorem scan_one_space {ds : List CText.Directive} {s : CStr} (h : Stops CText.isSpace s) :
    CText.scan (.space :: ds) (' ' :: s) = CText.scan ds s :=
  @CText.scan_space ds [' '] s (by simp [CText.isSpace]) h

/-- A number in hexadecimal, in front of something that ends it. -/
theorem scan_hex_next {ds : List CText.Directive} {text rest : CStr} (keep : Bool)
    (hne : text ≠ []) (htext : ∀ c ∈ text, CText.isHex c = true) (hrest : EndsHex rest) :
    CText.scan (.hex none keep :: ds) (text ++ rest) =
      (if keep then [.uint (CText.toUint false text)] else []) ++ CText.scan ds rest :=
  @CText.scan_hex ds [] text rest keep (by simp) hne htext hrest

/-- A number in decimal, in front of something that ends it. -/
theorem scan_dec_next {ds : List CText.Directive} {n : ℕ} {rest : CStr} (keep : Bool)
    (hrest : Stops Char.isDigit rest) :
    CText.scan (.dec keep :: ds) (CText.decimal n ++ rest) =
      (if keep then [.long (CText.toLong false (CText.decimal n))] else []) ++
        CText.scan ds rest :=
  @CText.scan_dec ds [] (CText.decimal n) rest keep (by simp) (CText.decimal_ne_nil n)
    (fun _ hc => CText.isDigit_of_mem_decimal hc) hrest

/-- The rest of a row, of which only the inode is kept. -/
theorem scan_tail (row : NetFields) (h : row.inode < 2 ^ 63) :
    CText.scan [.hex none false, .space, .hex none false, .lit ':', .hex none false, .space,
        .hex none false, .lit ':', .hex none false, .space, .hex none false, .space,
        .dec false, .space, .dec false, .space, .dec true, .space, .word 512, .space]
      (row.tailBody ++ ['\n']) = [.long row.inode] := by
  have hspace : ∀ s, EndsHex (' ' :: s) := fun s => EndsHex.cons (by decide) s
  have hcolon : ∀ s, EndsHex (':' :: s) := fun s => EndsHex.cons (by decide) s
  have hdec : ∀ s, Stops Char.isDigit (' ' :: s) := fun s => Stops.cons (by decide) s
  have hdecimal : ∀ n s, Stops CText.isSpace (CText.decimal n ++ s) :=
    fun n s => stops_space_hex (CText.decimal_ne_nil n) isHex_decimal
  have hpad : ∀ n s, spaces (n + 1) ++ s = ' ' :: (spaces n ++ s) := fun n s => rfl
  unfold NetFields.tailBody
  simp only [List.append_assoc, List.cons_append]
  -- the three pairs of hexadecimal fields and `retrnsmt`
  rw [scan_hex_next false row.st.ne_nil row.st.isHex (hspace _),
    scan_one_space (stops_space_hex row.tx_queue.ne_nil row.tx_queue.isHex),
    scan_hex_next false row.tx_queue.ne_nil row.tx_queue.isHex (hcolon _), CText.scan_lit,
    scan_hex_next false row.rx_queue.ne_nil row.rx_queue.isHex (hspace _),
    scan_one_space (stops_space_hex row.tr.ne_nil row.tr.isHex),
    scan_hex_next false row.tr.ne_nil row.tr.isHex (hcolon _), CText.scan_lit,
    scan_hex_next false row.tmWhen.ne_nil row.tmWhen.isHex (hspace _),
    scan_one_space (stops_space_hex row.retrnsmt.ne_nil row.retrnsmt.isHex)]
  rw [hpad row.uidPad, scan_hex_next false row.retrnsmt.ne_nil row.retrnsmt.isHex (hspace _),
    ← hpad row.uidPad]
  -- the decimal fields, padded with spaces
  rw [CText.scan_space isSpace_spaces (hdecimal _ _), hpad row.timeoutPad,
    scan_dec_next false (hdec _), ← hpad row.timeoutPad,
    CText.scan_space isSpace_spaces (hdecimal _ _), scan_dec_next false (hdec _),
    scan_one_space (hdecimal _ _), scan_dec_next true (hdec _), CText.toLong_decimal h]
  -- what follows the inode is not assigned
  have hrest : ∀ s, CText.scan [.space, .word 512, .space] s = [] :=
    fun s => CText.scan_word_space 512 (CText.skipSpace s)
  rw [hrest]
  rfl

theorem inHex_spec (addr : InAddr) :
    inHex addr ≠ [] ∧ (∀ c ∈ inHex addr, CText.isHex c = true) ∧ (inHex addr).length = 8 :=
  ⟨hexFixed_ne_nil (by decide), fun _ hc => CText.isHex_of_mem_hexFixed hc, by simp [inHex]⟩

theorem in6Hex_spec (addr : In6Addr) :
    in6Hex addr ≠ [] ∧ (∀ c ∈ in6Hex addr, CText.isHex c = true) ∧ (in6Hex addr).length = 32 := by
  have hlen : (in6Hex addr).length = 32 := by simp [in6Hex]
  refine ⟨?_, ?_, hlen⟩
  · intro hnil
    rw [hnil] at hlen
    simp at hlen
  · intro c hc
    simp only [in6Hex, List.mem_append] at hc
    rcases hc with hc | hc | hc | hc <;> exact CText.isHex_of_mem_hexFixed hc

theorem localHex_spec (ends : RowEnds) :
    ends.localHex ≠ [] ∧ (∀ c ∈ ends.localHex, CText.isHex c = true) ∧
      ends.localHex.length ≤ 64 := by
  cases ends with
  | ip loc rem =>
      obtain ⟨hne, hhex, hlen⟩ := inHex_spec loc
      exact ⟨hne, hhex, by rw [RowEnds.localHex, hlen]; omega⟩
  | mapped loc rem =>
      obtain ⟨hne, hhex, hlen⟩ := in6Hex_spec (mappedAddr loc)
      exact ⟨hne, hhex, by rw [RowEnds.localHex, hlen]; omega⟩
  | bound loc =>
      obtain ⟨hne, hhex, hlen⟩ := in6Hex_spec (mappedAddr loc)
      exact ⟨hne, hhex, by rw [RowEnds.localHex, hlen]; omega⟩
  | ip6 loc rem h =>
      obtain ⟨hne, hhex, hlen⟩ := in6Hex_spec loc
      exact ⟨hne, hhex, by rw [RowEnds.localHex, hlen]; omega⟩

theorem remHex_spec (ends : RowEnds) :
    ends.remHex ≠ [] ∧ (∀ c ∈ ends.remHex, CText.isHex c = true) ∧ ends.remHex.length ≤ 64 := by
  cases ends with
  | ip loc rem =>
      obtain ⟨hne, hhex, hlen⟩ := inHex_spec rem
      exact ⟨hne, hhex, by rw [RowEnds.remHex, hlen]; omega⟩
  | mapped loc rem =>
      obtain ⟨hne, hhex, hlen⟩ := in6Hex_spec (mappedAddr rem)
      exact ⟨hne, hhex, by rw [RowEnds.remHex, hlen]; omega⟩
  | bound loc =>
      obtain ⟨hne, hhex, hlen⟩ := in6Hex_spec anyAddr6
      exact ⟨hne, hhex, by rw [RowEnds.remHex, hlen]; omega⟩
  | ip6 loc rem h =>
      obtain ⟨hne, hhex, hlen⟩ := in6Hex_spec rem
      exact ⟨hne, hhex, by rw [RowEnds.remHex, hlen]; omega⟩

theorem toUint_port (port : BitVec 16) :
    CText.toUint false (CText.hexFixed 4 port.toNat) = port.setWidth 32 := by
  rw [CText.toUint_hexFixed (by decide) port.isLt]
  exact BitVec.ofNat_toNat 32 port

theorem toUint_word (word : BitVec 32) :
    CText.toUint false (CText.hexFixed 8 word.toNat) = word := by
  rw [CText.toUint_hexFixed (by decide) word.isLt, BitVec.ofNat_toNat, BitVec.setWidth_eq]

/-- **The scan of a row.** -/
theorem scan_rowFormat (row : NetFields) (h : row.inode < 2 ^ 63) :
    CText.scan rowFormat row.text =
      [.str row.ends.localHex, .uint (row.local_port.setWidth 32), .str row.ends.remHex,
        .uint (row.rem_port.setWidth 32), .long row.inode] := by
  obtain ⟨hlne, hlhex, hllen⟩ := localHex_spec row.ends
  obtain ⟨hrne, hrhex, hrlen⟩ := remHex_spec row.ends
  have hport : ∀ port : BitVec 16, CText.hexFixed 4 port.toNat ≠ [] ∧
      ∀ c ∈ CText.hexFixed 4 port.toNat, CText.isHex c = true :=
    fun port => ⟨hexFixed_ne_nil (by decide), fun _ hc => CText.isHex_of_mem_hexFixed hc⟩
  have hspace : ∀ s, EndsHex (' ' :: s) := fun s => EndsHex.cons (by decide) s
  have hcolon : ∀ s, Stops CText.isHex (':' :: s) := fun s => Stops.cons (by decide) s
  have htail : Stops CText.isSpace (row.tailBody ++ ['\n']) := by
    rw [NetFields.tailBody, List.append_assoc]
    exact stops_space_hex row.st.ne_nil row.st.isHex
  unfold NetFields.text NetFields.body rowFormat
  simp only [List.append_assoc, List.cons_append]
  rw [@CText.scan_dec _ (spaces row.slPad) (CText.decimal row.sl) _ false isSpace_spaces
      (CText.decimal_ne_nil _) (fun _ hc => CText.isDigit_of_mem_decimal hc)
      (Stops.cons (by decide) _),
    CText.scan_lit, scan_one_space (stops_space_hex hlne hlhex),
    CText.scan_set hllen hlne hlhex (hcolon _), CText.scan_lit,
    scan_hex_next true (hport _).1 (hport _).2 (hspace _),
    scan_one_space (stops_space_hex hrne hrhex), CText.scan_set hrlen hrne hrhex (hcolon _),
    CText.scan_lit, scan_hex_next true (hport _).1 (hport _).2 (hspace _), scan_one_space htail,
    scan_tail row h, toUint_port, toUint_port]
  rfl

/-- **A row is read as one line.** -/
theorem NetRow.isLine (row : NetRow) : CStream.IsLine 8192 row.text := by
  refine ⟨⟨row.body, rfl, ?_⟩, row.fits⟩
  have hhex : ∀ text : CStr, (∀ c ∈ text, CText.isHex c = true) → '\n' ∉ text :=
    fun text htext hmem => absurd (htext _ hmem) (by decide)
  have hspaces : ∀ n, '\n' ∉ spaces n := fun n hmem => by
    cases (List.mem_replicate.1 hmem).2
  have hdecimal : ∀ n, '\n' ∉ CText.decimal n := fun n => CText.not_mem_decimal (by decide)
  have hport : ∀ n, '\n' ∉ CText.hexFixed 4 n :=
    fun n => hhex _ fun _ hc => CText.isHex_of_mem_hexFixed hc
  simp [NetFields.body, NetFields.tailBody, hspaces, hdecimal, hport,
    hhex _ (localHex_spec row.ends).2.1, hhex _ (remHex_spec row.ends).2.1, hhex _ row.st.isHex,
    hhex _ row.tx_queue.isHex, hhex _ row.rx_queue.isHex, hhex _ row.tr.isHex,
    hhex _ row.tmWhen.isHex, hhex _ row.retrnsmt.isHex, row.trailing_line]

/-! ### The addresses of a row -/

theorem scanInAddr_inHex (addr : InAddr) : scanInAddr (inHex addr) = some addr := by
  obtain ⟨hne, hhex, _⟩ := inHex_spec addr
  have hscan := @scan_hex_next [] (inHex addr) [] true hne hhex EndsHex.nil
  rw [List.append_nil, inHex, toUint_word] at hscan
  rw [scanInAddr, inHex, hscan]
  rfl

theorem scanIn6Addr_in6Hex (addr : In6Addr) : scanIn6Addr (in6Hex addr) = some addr := by
  have hword : ∀ (ds : List CText.Directive) (word : BitVec 32) (rest : CStr),
      CText.scan (.hex (some 8) true :: ds) (CText.hexFixed 8 word.toNat ++ rest) =
        .uint word :: CText.scan ds rest := by
    intro ds word rest
    rw [CText.scan_hex_width true (CText.length_hexFixed 8 _) (hexFixed_ne_nil (by decide))
      (fun _ hc => CText.isHex_of_mem_hexFixed hc), toUint_word]
    rfl
  have hlast := hword [] addr.s6_addr32_3 []
  rw [List.append_nil] at hlast
  rw [scanIn6Addr, in6Format, in6Hex, hword, hword, hword, hlast]
  rfl

variable (host : Host)

/-- `inet_ntop`, in the family of the address. -/
def Host.text : Address → CStr
  | .ip addr => host.inetNtop addr
  | .ip6 addr => host.inetNtop6 addr

/-- **The texts of the addresses of a row** are those of its endpoints, in all four layouts. -/
theorem rowTexts_ends (ends : RowEnds) :
    rowTexts host ends.localHex ends.remHex =
      some (host.text ends.localAddr, host.text ends.remAddr) := by
  cases ends with
  | ip loc rem =>
      have hlen : ¬ (inHex loc).length > 8 := by rw [(inHex_spec loc).2.2]; omega
      simp only [rowTexts, RowEnds.localHex, RowEnds.remHex, if_neg hlen, scanInAddr_inHex,
        Option.bind_eq_bind, Option.bind_some]
      rfl
  | mapped loc rem =>
      have hlen : (in6Hex (mappedAddr loc)).length > 8 := by rw [(in6Hex_spec _).2.2]; omega
      simp only [rowTexts, RowEnds.localHex, RowEnds.remHex, if_pos hlen, scanIn6Addr_in6Hex,
        Option.bind_eq_bind, Option.bind_some]
      rfl
  | bound loc =>
      -- the remote address is not mapped, but the local one decides
      have hlen : (in6Hex (mappedAddr loc)).length > 8 := by rw [(in6Hex_spec _).2.2]; omega
      simp only [rowTexts, RowEnds.localHex, RowEnds.remHex, if_pos hlen, scanIn6Addr_in6Hex,
        Option.bind_eq_bind, Option.bind_some]
      rfl
  | ip6 loc rem h =>
      have hlen : (in6Hex loc).length > 8 := by rw [(in6Hex_spec _).2.2]; omega
      simp only [rowTexts, RowEnds.localHex, RowEnds.remHex, if_pos hlen, scanIn6Addr_in6Hex,
        Option.bind_eq_bind, Option.bind_some, h]
      rfl

/-! ### What is inserted for a row -/

/-- The local end of a row. -/
def NetFields.localEnd (row : NetFields) : Address × BitVec 16 :=
  (row.ends.localAddr, row.local_port)

/-- The remote end of a row. -/
def NetFields.remEnd (row : NetFields) : Address × BitVec 16 := (row.ends.remAddr, row.rem_port)

/-- The inode of a row, as a `gulong`. -/
def NetFields.inodeWord (row : NetFields) : BitVec 64 := BitVec.ofNat 64 row.inode

/-- The key text of two endpoints. -/
def endsKey (loc rem : Address × BitVec 16) : CStr :=
  printKey (host.text loc.1) loc.2.toNat (host.text rem.1) rem.2.toNat

/-- The keys a row is inserted under. -/
def NetFields.keys (row : NetFields) : List CStr :=
  rowKeys host (host.text row.ends.localAddr) row.local_port.toNat (host.text row.ends.remAddr)
    row.rem_port.toNat

theorem toInt_port (port : BitVec 16) : (port.setWidth 32).toInt = port.toNat := by
  have hport := port.isLt
  rw [BitVec.toInt_eq_toNat_of_lt] <;> rw [BitVec.toNat_setWidth_of_le (by omega)]
  omega

theorem inodeWord_eq_zero_iff (row : NetRow) :
    row.inodeWord = 0 ↔ row.inode = 0 := by
  have hlt := row.inode_lt
  constructor
  · intro h
    have hval := congrArg BitVec.toNat h
    rw [NetFields.inodeWord, BitVec.toNat_ofNat, Nat.mod_eq_of_lt (by omega)] at hval
    exact hval
  · intro h
    rw [NetFields.inodeWord, h]
    rfl

/-- **What the analyzer inserts for a row.** -/
theorem addtoconninode_row (table : ConninodeTable) (row : NetRow) :
    addtoconninode host table row.text =
      some (if row.inode = 0 then table
        else insertAll row.inodeWord (row.keys host) table) := by
  have hinode : BitVec.ofInt 64 (row.inode : ℤ) = row.inodeWord := BitVec.ofInt_natCast 64 row.inode
  simp only [addtoconninode, scan_rowFormat row.toNetFields row.inode_lt, hinode, rowTexts_ends,
    toInt_port, inodeWord_eq_zero_iff]
  split
  · rfl
  · rfl

theorem own_key_mem (row : NetFields) : endsKey host row.localEnd row.remEnd ∈ row.keys host :=
  List.mem_cons_self

end NetworkAnalyzer
