import Qemacs.Charset.Basic

/-!
# 8-bit charsets

`charset_raw` and `charset_8859_1` (charset.c) and the functions of the 8-bit
family they share: `decode_8bit`, which reads the decoding table, and the
line and column functions, which scan for the end-of-line character with
`memchr`. In DOS mode the end-of-line character is CR and a LF right after it
belongs to the same line end; a LF at the very start of a block is skipped, as
the second half of a CR LF pair split at the block boundary.
-/

namespace Qemacs

/-- `table_idem`: every byte decodes to itself. -/
def table_idem : DecodeTable := fun c => c.toUInt32

/-- `decode_8bit`: the table entry of the byte at `s->p`, one byte read. -/
def decode8bit (table : DecodeTable) (p : List UInt8) : UInt32 × Nat :=
  (table (p.headD 0), 1)

/-- `encode_raw`, and `encode_8859_1`, which has the same body. -/
def encodeRaw (c : UInt32) : Option (List UInt8) :=
  if c ≤ 0xff then some [c.toUInt8] else none

/-- `decode_8bit_init`: the table of a charset given by `private_table`, the
code points of the bytes from `min_char` to `max_char`; the other bytes decode
to themselves. -/
def decode8bitInit (minChar maxChar : UInt8) (privateTable : List UInt32) : DecodeTable :=
  fun c =>
    if c < minChar then c.toUInt32
    else if c ≤ maxChar then privateTable.getD (c - minChar).toNat 0
    else c.toUInt32

/-- `encode_8bit`: a byte that decodes to itself is its own encoding; another
code point is looked up in `private_table`, and has no encoding when it is not
there. -/
def encode8bit (minChar maxChar : UInt8) (privateTable : List UInt32) (c : UInt32) :
    Option (List UInt8) :=
  if c < minChar.toUInt32 then some [c.toUInt8]
  else if maxChar.toUInt32 < c ∧ c ≤ 0xff then some [c.toUInt8]
  else
    let n := maxChar.toNat - minChar.toNat + 1
    match (privateTable.take n).idxOf? c with
    | some i => some [minChar + i.toUInt8]
    | none => none

/-! ## Scanning for line ends

The line functions of the fixed-width charsets scan a block of code units
(bytes, or the 16- and 32-bit units of UCS-2 and UCS-4) for the end-of-line
unit `nl`; in DOS mode a LF unit `lf` right after it, or at the start of the
block, is skipped. -/

section Scan

variable {α : Type} [DecidableEq α]

/-- `memchr(p, c, n)` on the units `p[0..n)`: the index of the first `c`. -/
def memchr (p : List α) (c : α) : Option Nat := p.idxOf? c

/-- The units from a line end found at `i` to the start of the next line: the
end-of-line unit, and in DOS mode a LF right after it. -/
def eolSkip (lf : α) (dos : Bool) (p : List α) (i : Nat) : Nat :=
  if dos ∧ p[i + 1]? = some lf then i + 2 else i + 1

/-- A LF at the start of a block in DOS mode: `*p == '\n'`, skipped. -/
def dosSkip (lf : α) (dos : Bool) (p : List α) : Nat :=
  if dos ∧ p.head? = some lf then 1 else 0

theorem memchr_lt {p : List α} {c : α} {i : Nat} (h : memchr p c = some i) : i < p.length := by
  obtain ⟨hi, -⟩ := List.idxOf?_eq_some_iff.mp h
  exact hi

/-- The `memchr` loop of the line functions from a line start: the lines
ended in `p`, and the units after the last line end. -/
def lineScan (nl lf : α) (dos : Bool) (p : List α) : Nat × List α :=
  match h : memchr p nl with
  | none => (0, p)
  | some i =>
    let r := lineScan nl lf dos (p.drop (eolSkip lf dos p i))
    (r.1 + 1, r.2)
termination_by p.length
decreasing_by
  have := memchr_lt h
  simp only [eolSkip, List.length_drop]
  split <;> omega

/-- The `while (nlines > 0)` loop of the `goto_line` functions from a line
start: the offset of the start of the line `nlines` further, or of the last
line start when the block ends first. -/
def gotoLineLoop (nl lf : α) (dos : Bool) (p : List α) : Nat → Nat
  | 0 => 0
  | n + 1 =>
    match memchr p nl with
    | none => 0
    | some i => eolSkip lf dos p i + gotoLineLoop nl lf dos (p.drop (eolSkip lf dos p i)) n

/-- The `for` loop of the `goto_char` functions: the offset of the character
`pos`, the units `skip` holds not being characters; the end of the block if it
has fewer. -/
def gotoCharLoop (skip : α → Bool) : List α → Nat → Nat → Nat
  | [], _, _ => 0
  | c :: rest, nbChars, pos =>
    if skip c then gotoCharLoop skip rest nbChars pos + 1
    else if pos ≤ nbChars then 0
    else gotoCharLoop skip rest (nbChars + 1) pos + 1

end Scan

/-- `charset_get_pos_8bit`: the line and column at the end of `buf`. -/
def charsetGetPos8bit (nl : UInt8) (eolType : EOLType) (buf : List UInt8) : Nat × Nat :=
  let dos := decide (eolType = .dos)
  let r := lineScan nl 10 dos (buf.drop (dosSkip 10 dos buf))
  (r.1, r.2.length)

/-- `charset_goto_line_8bit`. -/
def charsetGotoLine8bit (nl : UInt8) (eolType : EOLType) (buf : List UInt8) (nlines : Nat) :
    Nat :=
  let dos := decide (eolType = .dos)
  dosSkip 10 dos buf + gotoLineLoop nl 10 dos (buf.drop (dosSkip 10 dos buf)) nlines

/-- `charset_get_chars_8bit`: one character per byte, a LF not counted in DOS
mode. -/
def charsetGetChars8bit (eolType : EOLType) (buf : List UInt8) : Nat :=
  if eolType ≠ .dos then buf.length
  else buf.length - buf.count 10

/-- `charset_goto_char_8bit`: in DOS mode a LF is not a character. -/
def charsetGotoChar8bit (eolType : EOLType) (buf : List UInt8) (pos : Nat) : Nat :=
  if eolType ≠ .dos then min pos buf.length
  else gotoCharLoop (fun c => c = 10) buf 0 pos

/-- `charset_raw`. -/
def charset_raw : QECharset where
  name := "raw"
  decodeInit := none
  decodeFunc := decode8bit
  encodeFunc := encodeRaw
  getPosFunc := charsetGetPos8bit
  getCharsFunc := charsetGetChars8bit
  gotoCharFunc := charsetGotoChar8bit
  gotoLineFunc := charsetGotoLine8bit
  charSize := 1
  variableSize := false
  tableAlloc := false
  eolChar := 10
  minChar := 0
  maxChar := 0
  encodeTable := table_idem
  privateTable := []

/-- `charset_8859_1`: `charset_raw` under another name, with its own probe. -/
def charset_8859_1 : QECharset := { charset_raw with name := "8859-1" }

end Qemacs
