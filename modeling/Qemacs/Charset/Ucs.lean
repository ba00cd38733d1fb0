import Qemacs.Charset.EightBit

/-!
# UCS-2 and UCS-4

`charset_ucs2le`, `charset_ucs2be`, `charset_ucs4le` and `charset_ucs4be`
(charset.c): fixed-width charsets of 2- and 4-byte code units in either byte
order. Their table sends every byte to `decode_func`, which reads one unit;
their line functions are those of the 8-bit charsets over units instead of
bytes. A unit is compared with the end-of-line character in the charset's own
byte order, as the C compares it with a unit built in that order.

The four charsets differ only in the unit width and the byte order, and are
one family here: each C function is the family's function at its width and
order. Neither encoder checks its range: `encode_ucs2le` keeps the low 16 bits
of any code point.
-/

namespace Qemacs

/-- `table_none`: every byte defers to `decode_func`. -/
def table_none : DecodeTable := fun _ => ESCAPE_CHAR

/-- The unit of `width` bytes at the start of `p`, in little-endian or
big-endian order; bytes past the end of `p` are 0. -/
def ucsUnit (width : Nat) (bigEndian : Bool) (p : List UInt8) : UInt32 :=
  let bytes := (List.range width).map fun i => (p.getD i 0).toUInt32
  let bytes := if bigEndian then bytes else bytes.reverse
  bytes.foldl (fun acc b => (acc <<< 8) + b) 0

/-- `decode_ucs2le` and its kin: one unit, `width` bytes read. -/
def decodeUcs (width : Nat) (bigEndian : Bool) (p : List UInt8) : UInt32 × Nat :=
  (ucsUnit width bigEndian p, width)

/-- `encode_ucs2le` and its kin: the low `width` bytes of the code point. -/
def encodeUcs (width : Nat) (bigEndian : Bool) (c : UInt32) : List UInt8 :=
  let bytes := (List.range width).map fun i => (c >>> (8 * i).toUInt32).toUInt8
  if bigEndian then bytes.reverse else bytes

/-- The whole units of a block: `size >> 1` or `size >> 2` of them. -/
def ucsUnits (width : Nat) (bigEndian : Bool) (buf : List UInt8) : List UInt32 :=
  (List.range (buf.length / width)).map fun k => ucsUnit width bigEndian (buf.drop (width * k))

/-- `charset_get_pos_ucs2` and `charset_get_pos_ucs4`. -/
def charsetGetPosUcs (width : Nat) (bigEndian : Bool) (nl : UInt8) (eolType : EOLType)
    (buf : List UInt8) : Nat × Nat :=
  let dos := decide (eolType = .dos)
  let p := ucsUnits width bigEndian buf
  let r := lineScan nl.toUInt32 10 dos (p.drop (dosSkip 10 dos p))
  (r.1, r.2.length)

/-- `charset_goto_line_ucs2` and `charset_goto_line_ucs4`: a byte offset. -/
def charsetGotoLineUcs (width : Nat) (bigEndian : Bool) (nl : UInt8) (eolType : EOLType)
    (buf : List UInt8) (nlines : Nat) : Nat :=
  let dos := decide (eolType = .dos)
  let p := ucsUnits width bigEndian buf
  width * (dosSkip 10 dos p + gotoLineLoop nl.toUInt32 10 dos (p.drop (dosSkip 10 dos p)) nlines)

/-- `charset_get_chars_ucs2` and `charset_get_chars_ucs4`: one character per
unit, a LF not counted in DOS mode. -/
def charsetGetCharsUcs (width : Nat) (bigEndian : Bool) (eolType : EOLType)
    (buf : List UInt8) : Nat :=
  let p := ucsUnits width bigEndian buf
  if eolType ≠ .dos then p.length
  else p.length - p.count 10

/-- `charset_goto_char_ucs2` and `charset_goto_char_ucs4`. -/
def charsetGotoCharUcs (width : Nat) (bigEndian : Bool) (eolType : EOLType)
    (buf : List UInt8) (pos : Nat) : Nat :=
  if eolType ≠ .dos then min (width * pos) buf.length
  else width * gotoCharLoop (fun c => c = 10) (ucsUnits width bigEndian buf) 0 pos

/-- The charset of `width`-byte units in the given byte order. -/
def charsetUcs (name : String) (width : Nat) (bigEndian : Bool) : QECharset where
  name := name
  decodeInit := none
  decodeFunc := fun _ p => decodeUcs width bigEndian p
  encodeFunc := fun c => some (encodeUcs width bigEndian c)
  getPosFunc := charsetGetPosUcs width bigEndian
  getCharsFunc := charsetGetCharsUcs width bigEndian
  gotoCharFunc := charsetGotoCharUcs width bigEndian
  gotoLineFunc := charsetGotoLineUcs width bigEndian
  charSize := width
  variableSize := false
  tableAlloc := false
  eolChar := 10
  minChar := 0
  maxChar := 0
  encodeTable := table_none
  privateTable := []

/-- `charset_ucs2le`. -/
def charset_ucs2le : QECharset := charsetUcs "ucs2le" 2 false

/-- `charset_ucs2be`. -/
def charset_ucs2be : QECharset := charsetUcs "ucs2be" 2 true

/-- `charset_ucs4le`. -/
def charset_ucs4le : QECharset := charsetUcs "ucs4le" 4 false

/-- `charset_ucs4be`. -/
def charset_ucs4be : QECharset := charsetUcs "ucs4be" 4 true

end Qemacs
