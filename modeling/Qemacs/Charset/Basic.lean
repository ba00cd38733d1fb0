import Mathlib.Data.List.Basic

/-!
# Charsets: descriptors and decoding state

The fields of `struct QECharset` and `struct CharsetDecodeState`
(charset.h) that decoding, encoding and line/column computation read.
The C descriptors hold function pointers; here they are Lean functions:

* `decodeFunc` reads a character at the start of a byte window (`s->p`) and
  returns it with the number of bytes it consumed. It receives the 256-entry
  table of the decoding state, which `decode_8bit` reads.
* `encodeFunc` returns the bytes of a code point, or `none` where the C
  function returns `NULL`.
* `getPosFunc` and `gotoLineFunc` read `s->eol_char` and `s->eol_type`.

`decode_init`, run by `charset_decode_init` for charsets with `table_alloc`,
fills a fresh table from constants of the charset; its result is kept as
`decodeInit`.
-/

namespace Qemacs

/-- `EOLType` (charset.h). -/
inductive EOLType where
  | unix
  | dos
  | mac
deriving DecidableEq, Repr

/-- `INVALID_CHAR` (charset.h). -/
def INVALID_CHAR : UInt32 := 0xfffd

/-- `ESCAPE_CHAR` (charset.h): table entry that defers to `decode_func`. -/
def ESCAPE_CHAR : UInt32 := 0xffff

/-- `MAX_CHAR_BYTES` (charset.h). -/
def MAX_CHAR_BYTES : Nat := 6

/-- A 256-entry decoding table, indexed by a byte. -/
abbrev DecodeTable := UInt8 → UInt32

/-- `struct QECharset`, without the probe function, aliases and list link. -/
structure QECharset where
  name : String
  decodeInit : Option DecodeTable
  decodeFunc : DecodeTable → List UInt8 → UInt32 × Nat
  encodeFunc : UInt32 → Option (List UInt8)
  getPosFunc : UInt8 → EOLType → List UInt8 → Nat × Nat
  getCharsFunc : EOLType → List UInt8 → Nat
  gotoCharFunc : EOLType → List UInt8 → Nat → Nat
  gotoLineFunc : UInt8 → EOLType → List UInt8 → Nat → Nat
  charSize : Nat
  variableSize : Bool
  tableAlloc : Bool
  eolChar : UInt8
  minChar : UInt8
  maxChar : UInt8
  encodeTable : DecodeTable
  privateTable : List UInt32

/-- `struct CharsetDecodeState`: `decode_func` and `get_pos_func` are those of
`charset`. -/
structure CharsetDecodeState where
  table : DecodeTable
  charSize : Nat
  eolType : EOLType
  eolChar : UInt8
  charset : QECharset

/-- `charset_decode_init`: the table is the charset's own, or the one its
`decode_init` builds; a newline end-of-line character becomes CR for DOS and
Mac files. -/
def charsetDecodeInit (charset : QECharset) (eolType : EOLType) : CharsetDecodeState where
  table := if charset.tableAlloc then charset.decodeInit.getD charset.encodeTable
    else charset.encodeTable
  charSize := charset.charSize
  eolType := eolType
  eolChar := if charset.eolChar = 10 ∧ (eolType = .mac ∨ eolType = .dos) then 13
    else charset.eolChar
  charset := charset

end Qemacs
