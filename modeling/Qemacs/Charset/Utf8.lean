import Qemacs.Charset.EightBit

/-!
# UTF-8

`charset_utf8` (charset.c) and the UTF-8 functions of util.c it rests on.
The decoding table maps ASCII bytes to themselves, trailing bytes to
`INVALID_CHAR`, and lead bytes to `ESCAPE_CHAR`, which sends the reader to
`utf8_decode`. That decoder is lax: a lead byte not followed by enough trailing
bytes decodes to itself, one byte long.

The line functions scan for the end-of-line byte as the 8-bit ones do; the
column counts the characters after the last line end by stepping over each
sequence by the length its lead byte announces.
-/

namespace Qemacs

/-- `table_utf8`. -/
def table_utf8 : DecodeTable := fun c =>
  if c < 0x80 then c.toUInt32
  else if c < 0xc0 then INVALID_CHAR
  else ESCAPE_CHAR

/-- `utf8_length`: the length of the sequence a byte starts; 1 for ASCII,
trailing and invalid bytes. -/
def utf8_length (c : UInt8) : Nat :=
  if c < 0xc0 then 1
  else if c < 0xe0 then 2
  else if c < 0xf0 then 3
  else if c < 0xf8 then 4
  else if c < 0xfc then 5
  else if c < 0xfe then 6
  else 1

/-- `utf8x_length`, for a lead byte: `0xFE` and `0xFF` start 6-byte
sequences too. -/
def utf8x_length (c : UInt8) : Nat :=
  if c < 0xe0 then 2
  else if c < 0xf0 then 3
  else if c < 0xf8 then 4
  else if c < 0xfc then 5
  else 6

/-- `utf8x_bits`: the code point bits a lead byte carries. -/
def utf8x_bits (c : UInt8) : UInt32 :=
  if c < 0xe0 then (c - 0xc0).toUInt32
  else if c < 0xf0 then (c - 0xe0).toUInt32
  else if c < 0xf8 then (c - 0xf0).toUInt32
  else if c < 0xfc then (c - 0xf8).toUInt32
  else (c - 0xfc).toUInt32

/-- The `for (;;)` loop of `utf8_decode` after the lead byte: `i` bytes of the
sequence read, `c` the bits gathered. A byte that is not a trailing byte ends
the sequence at the lead byte, decoded as itself. The caller's window ends with
a byte that is not a trailing byte, the NUL of `eb_prevc` or the zeroes of
`eb_nextc`; past the list the decoder sees such a byte. -/
def utf8DecodeLoop (lead : UInt8) (len : Nat) : List UInt8 → Nat → UInt32 → UInt32 × Nat
  | [], _, _ => (lead.toUInt32, 1)
  | b :: rest, i, c =>
    let c1 := (b ^^^ 0x80).toUInt32
    if c1 > 0x3f then (lead.toUInt32, 1)
    else
      let c := (c <<< 6) + c1
      if i + 1 = len then (c, len)
      else utf8DecodeLoop lead len rest (i + 1) c

/-- `utf8_decode`: the code point at the start of `p` and the bytes it takes. -/
def utf8Decode (p : List UInt8) : UInt32 × Nat :=
  match p with
  | [] => (0, 1)
  | c :: rest =>
    -- fast case for ASCII and trailing bytes
    if c < 0xc0 then (c.toUInt32, 1)
    else utf8DecodeLoop c (utf8x_length c) rest 1 (utf8x_bits c)

/-- `utf8_encode`. -/
def utf8Encode (c : UInt32) : List UInt8 :=
  let cont (k : UInt32) : UInt8 := (((c >>> k) &&& 0x3f) ||| 0x80).toUInt8
  if c < 0x80 then [c.toUInt8]
  else if c < 0x800 then [((c >>> 6) ||| 0xc0).toUInt8, cont 0]
  else if c < 0x10000 then [((c >>> 12) ||| 0xe0).toUInt8, cont 6, cont 0]
  else if c < 0x00200000 then [((c >>> 18) ||| 0xf0).toUInt8, cont 12, cont 6, cont 0]
  else if c < 0x04000000 then
    [((c >>> 24) ||| 0xf8).toUInt8, cont 18, cont 12, cont 6, cont 0]
  else [((c >>> 30) ||| 0xfc).toUInt8, cont 24, cont 18, cont 12, cont 6, cont 0]

/-- The column loop of `charset_get_pos_utf8`: one character per sequence, each
as long as its first byte announces. -/
def utf8Cols (p : List UInt8) : Nat :=
  match p with
  | [] => 0
  | c :: rest => utf8Cols (rest.drop (utf8_length c - 1)) + 1
termination_by p.length
decreasing_by
  simp only [List.length_drop, List.length_cons]
  omega

/-- `charset_get_pos_utf8`: the lines, with no skipping of LF in DOS mode, and
the sequences after the last line end. -/
def charsetGetPosUtf8 (nl : UInt8) (_eolType : EOLType) (buf : List UInt8) : Nat × Nat :=
  let r := lineScan nl 10 false buf
  (r.1, utf8Cols r.2)

/-- `charset_get_chars_utf8`: the bytes that are not trailing bytes, a LF not
counted in DOS mode. -/
def charsetGetCharsUtf8 (eolType : EOLType) (buf : List UInt8) : Nat :=
  buf.countP fun c => ¬(c = 10 ∧ eolType = .dos) ∧ (c ^^^ 0x80) > 0x3f

/-- `charset_goto_char_utf8`: trailing bytes, and a LF in DOS mode, are not
characters. -/
def charsetGotoCharUtf8 (eolType : EOLType) (buf : List UInt8) (pos : Nat) : Nat :=
  gotoCharLoop (fun c => (c ^^^ 0x80) ≤ 0x3f ∨ (c = 10 ∧ eolType = .dos)) buf 0 pos

/-- `charset_utf8`. -/
def charset_utf8 : QECharset where
  name := "utf8"
  decodeInit := none
  decodeFunc := fun _ p => utf8Decode p
  encodeFunc := fun c => some (utf8Encode c)
  getPosFunc := charsetGetPosUtf8
  getCharsFunc := charsetGetCharsUtf8
  gotoCharFunc := charsetGotoCharUtf8
  gotoLineFunc := charsetGotoLine8bit
  charSize := 1
  variableSize := true
  tableAlloc := false
  eolChar := 10
  minChar := 0
  maxChar := 0
  encodeTable := table_utf8
  privateTable := []

end Qemacs
