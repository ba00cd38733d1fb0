import Qemacs.Buffer.Refinement
import Qemacs.Charset.Utf8
import Qemacs.Charset.Ucs

/-!
# Characters, lines and columns

`eb_nextc`, `eb_prevc`, `eb_get_pos`, `eb_goto_pos` and the glyph functions
(buffer.c).

`eb_nextc` decodes forward through the decoding table, calling `decode_func`
on a 6-byte window when the table says `ESCAPE_CHAR`. `eb_prevc` has its own
backward reader: for UTF-8 it gathers up to five trailing bytes and decodes the
sequence they end, falling back to the last byte alone; for the other charsets
it decodes the `char_size` bytes before the offset. Both fold CR LF into one
end of line in DOS mode and swap CR and LF in Mac mode.

`eb_get_pos` and `eb_goto_pos` sum per-page line and column counts, which each
page caches (`PG_VALID_POS`, `nb_lines`, `col`) the first time they are
computed.

The decoders read windows of fixed size; where the C leaves bytes of a window
past the end of the buffer as they were, the model reads 0.
-/

namespace Qemacs

/-- A decode window: the bytes read, then zeroes up to `MAX_CHAR_BYTES`. -/
def window (bytes : List UInt8) : List UInt8 :=
  bytes ++ List.replicate (MAX_CHAR_BYTES - bytes.length) 0

/-- `decode_func` of the buffer's decoding state on a window. -/
def decodeAt (b : EditBuffer) (bytes : List UInt8) : UInt32 × Nat :=
  b.charsetState.charset.decodeFunc b.charsetState.table (window bytes)

/-- `eb_nextc`: the character at `offset` and the offset after it; `'\n'` at
the buffer boundaries. -/
def ebNextc (b : EditBuffer) (offset : Int) : UInt32 × Int × EditBuffer :=
  let (c, b) := ebReadOneByte b offset
  if c < 0 then
    -- to simplify calling code, return '\n' at buffer boundaries
    let offset := if offset < 0 then 0 else offset
    let offset := if (b.totalSize : Int) ≤ offset then (b.totalSize : Int) else offset
    (10, offset, b)
  else
    -- we use the charset conversion table directly to go faster
    let offset := offset + 1
    let ch := b.charsetState.table (UInt8.ofInt c)
    let (ch, offset, b) :=
      if ch = ESCAPE_CHAR then
        let (_, bytes, b) := ebRead b (offset - 1) MAX_CHAR_BYTES
        let r := decodeAt b bytes
        (r.1, offset + r.2 - 1, b)
      else (ch, offset, b)
    if ch = 13 then
      match b.eolType with
      | .dos =>
        let (n, bytes, b) := ebRead b offset MAX_CHAR_BYTES
        if 1 ≤ n ∧ (decodeAt b bytes).1 = 10 then (10, offset + b.charsetState.charSize, b)
        else (13, offset, b)
      | .mac => (10, offset, b)
      | .unix => (13, offset, b)
    else if ch = 10 ∧ b.eolType = .mac then (13, offset, b)
    else (ch, offset, b)

/-- `utf8_is_trailing_byte`. -/
def utf8IsTrailingByte (c : UInt8) : Bool := c &&& 0xc0 = 0x80

/-- The `while` loop of `eb_prevc` for UTF-8: trailing bytes read backward
into `buf` from its end while there is room. `q` holds the bytes of `buf` from
the last one read, down to its final NUL; `room` the free bytes before it.
Returns the offset and the byte read last. -/
def prevcCollect (b : EditBuffer) : Nat → Int → UInt8 → List UInt8 →
    Int × UInt8 × List UInt8 × EditBuffer
  | 0, offset, ch, q => (offset, ch, q, b)
  | room + 1, offset, ch, q =>
    if utf8IsTrailingByte ch ∧ 0 < offset then
      let (c, b) := ebReadOneByte b (offset - 1)
      prevcCollect b room (offset - 1) (UInt8.ofInt c) (UInt8.ofInt c :: q)
    else (offset, ch, q, b)

/-- The UTF-8 branch of `eb_prevc`, from the byte before `offset`: the
character, its offset and the buffer. A sequence the gathered bytes do not
decode to exactly gives the last byte alone. -/
def prevcUtf8 (b : EditBuffer) (offset : Int) : UInt32 × Int × EditBuffer :=
  let offset := offset - 1
  let (c, b) := ebReadOneByte b offset
  let c8 := UInt8.ofInt c
  if utf8IsTrailingByte c8 then
    let offset1 := offset
    -- `buf` has `MAX_CHAR_BYTES + 1` bytes, the last one the NUL
    let (offset, ch, q, b) := prevcCollect b (MAX_CHAR_BYTES - 1) offset c8 [c8, 0]
    let (ch, left) :=
      if 0xc0 ≤ ch then
        let r := utf8Decode q
        (r.1, q.length - r.2)
      else (ch.toUInt32, q.length)
    -- decoding error: only take the last byte
    if left ≠ 1 then (c8.toUInt32, offset1, b) else (ch, offset, b)
  else (UInt32.ofInt c, offset, b)

/-- `eb_prevc`: the character before `offset` and the offset where it starts;
`'\n'` at the start of the buffer. The UTF-8 branch is taken for the buffer's
charset being `charset_utf8` itself, which among the registered charsets is the
one of its name. -/
def ebPrevc (b : EditBuffer) (offset : Int) : UInt32 × Int × EditBuffer :=
  if offset ≤ 0 then (10, 0, b)
  else
    let (ch, offset, charSize, b) :=
      if b.charset.name = charset_utf8.name then
        let r := prevcUtf8 b offset
        (r.1, r.2.1, (1 : Nat), r.2.2)
      else
        -- this only works for stateless charsets
        let charSize := b.charsetState.charSize
        let offset := offset - charSize
        let (_, bytes, b) := ebRead b offset charSize
        ((decodeAt b bytes).1, offset, charSize, b)
    if ch = 13 then
      (if b.eolType = .mac then 10 else 13, offset, b)
    else if ch = 10 then
      match b.eolType with
      | .dos =>
        if (charSize : Int) ≤ offset then
          let (_, bytes, b) := ebRead b (offset - charSize) charSize
          if (decodeAt b bytes).1 = 13 then (10, offset - charSize, b) else (10, offset, b)
        else (10, offset, b)
      | .mac => (13, offset, b)
      | .unix => (10, offset, b)
    else (ch, offset, b)

/-! ## Lines and columns -/

/-- `get_pos_func` of the decoding state on a block of bytes. -/
def getPosOf (st : CharsetDecodeState) (bytes : List UInt8) : Nat × Nat :=
  st.charset.getPosFunc st.eolChar st.eolType bytes

/-- A page's line count and column through its cache: computed and stored
unless `PG_VALID_POS` is set. -/
def pagePos (st : CharsetDecodeState) (p : Page) : Page :=
  if p.validPos then p
  else
    let r := getPosOf st p.data
    { p with validPos := true, nbLines := r.1, col := r.2 }

/-- The `for (;;)` loop of `eb_get_pos` over the pages, with the line and
column so far; the pages passed whole get their cache filled. -/
def getPosLoop (st : CharsetDecodeState) : List Page → Nat → Nat → Nat → (Nat × Nat) × List Page
  | [], _, line, col => ((line, col), [])
  | p :: ps, offset, line, col =>
    if offset < p.size then
      let r := getPosOf st (p.data.take offset)
      ((line + r.1, (if r.1 ≠ 0 then 0 else col) + r.2), p :: ps)
    else
      let p := pagePos st p
      let col := (if p.nbLines ≠ 0 then 0 else col) + p.col
      let r := getPosLoop st ps (offset - p.size) (line + p.nbLines) col
      (r.1, p :: r.2)

/-- `eb_get_pos`: the line and column of `offset`. -/
def ebGetPos (b : EditBuffer) (offset : Nat) : (Nat × Nat) × EditBuffer :=
  let r := getPosLoop b.charsetState b.pages offset 0 0
  (r.1, { b with pages := r.2 })

/-- The page loop of `eb_goto_pos`: the page where the position is, with the
line, column and offset at its start, or `none` past the last page. -/
def gotoPosLoop (st : CharsetDecodeState) (line1 col1 : Int) :
    List Page → Nat → Int → Int → Option (Page × Nat × Int × Int) × List Page
  | [], _, _, _ => (none, [])
  | p :: ps, offset, line, col =>
    let p := pagePos st p
    let line2 := line + p.nbLines
    -- `if (p->nb_lines) col2 = 0;` is overwritten at once
    let col2 := col + p.col
    if line1 < line2 ∨ (line2 = line1 ∧ col1 ≤ col2) then (some (p, offset, line, col), p :: ps)
    else
      let r := gotoPosLoop st line1 col1 ps (offset + p.size) line2 col2
      (r.1, p :: r.2)

/-- The final `while` of `eb_goto_pos`: characters taken with `eb_nextc` up
to column `col1` or the end of the line. -/
def gotoPosWalk (b : EditBuffer) (col1 : Int) (offset col : Int) : Int × EditBuffer :=
  if col < col1 then
    let (ch, offset1, b) := ebNextc b offset
    if ch ≠ 10 then gotoPosWalk b col1 offset1 (col + 1) else (offset, b)
  else (offset, b)
termination_by (col1 - col).toNat

/-- `eb_goto_pos`: the offset of line `line1`, column `col1`. -/
def ebGotoPos (b : EditBuffer) (line1 col1 : Int) : Int × EditBuffer :=
  if b.pages = [] then (0, b)
  else
    let r := gotoPosLoop b.charsetState line1 col1 b.pages 0 0 0
    let b := { b with pages := r.2 }
    match r.1 with
    | none => (b.totalSize, b)
    | some (p, offset, line, col) =>
      -- seek to the correct line
      let (offset, col) :=
        if line < line1 then
          ((offset : Int) + b.charset.gotoLineFunc b.charsetState.eolChar b.charsetState.eolType
            p.data (line1 - line).toNat, (0 : Int))
        else (offset, col)
      gotoPosWalk b col1 offset col

/-! ## Glyphs

A glyph is a character and the combining accents after it. The loops of
`eb_skip_accents`, `eb_prev_glyph` and `eb_skip_glyphs` stop on what
`eb_nextc` and `eb_prevc` read, which need not move for every charset: each
turn takes one unit of `fuel`, and `none` is a loop that has not stopped. -/

/-- `qe_isaccent`: a combining character, past U+0300 and of width 0. The
width is `qe_wcwidth`, a table given here as `wcwidth`. -/
def qeIsaccent (wcwidth : UInt32 → Int) (c : UInt32) : Bool := decide (0x300 ≤ c) && wcwidth c == 0

/-- `eb_skip_accents`: the offset past the combining accents at `offset`. -/
def ebSkipAccents (wcwidth : UInt32 → Int) : Nat → EditBuffer → Int → Option (Int × EditBuffer)
  | 0, _, _ => none
  | fuel + 1, b, offset =>
    let (c, offset1, b) := ebNextc b offset
    if qeIsaccent wcwidth c then ebSkipAccents wcwidth fuel b offset1 else some (offset, b)

/-- `eb_next_glyph`: the character at `offset` and the offset after its glyph. -/
def ebNextGlyph (wcwidth : UInt32 → Int) (fuel : Nat) (b : EditBuffer) (offset : Int) :
    Option (UInt32 × Int × EditBuffer) :=
  let (c, offset, b) := ebNextc b offset
  if 32 ≤ c then
    -- `offset += eb_skip_accents(b, offset)`
    (ebSkipAccents wcwidth fuel b offset).map fun r => (c, offset + r.1, r.2)
  else some (c, offset, b)

/-- `eb_prev_glyph`: the base character before `offset` and its offset. -/
def ebPrevGlyph (wcwidth : UInt32 → Int) : Nat → EditBuffer → Int →
    Option (UInt32 × Int × EditBuffer)
  | 0, _, _ => none
  | fuel + 1, b, offset =>
    let (c, offset, b) := ebPrevc b offset
    if !qeIsaccent wcwidth c then some (c, offset, b) else ebPrevGlyph wcwidth fuel b offset

/-- The backward loop of `eb_skip_glyphs`: `n` is negative and counts up at
each character that is not an accent. -/
def skipGlyphsBack (wcwidth : UInt32 → Int) : Nat → EditBuffer → Int → Int →
    Option (Int × EditBuffer)
  | 0, _, _, _ => none
  | fuel + 1, b, offset, n =>
    if 0 < offset then
      let (c, offset, b) := ebPrevc b offset
      let n := n + if qeIsaccent wcwidth c then 0 else 1
      if 0 ≤ n then some (offset, b) else skipGlyphsBack wcwidth fuel b offset n
    else some (offset, b)

/-- The forward loop of `eb_skip_glyphs`: it stops on the character that is
not an accent once `n` of them are passed. -/
def skipGlyphsFwd (wcwidth : UInt32 → Int) : Nat → EditBuffer → Int → Int →
    Option (Int × EditBuffer)
  | 0, _, _, _ => none
  | fuel + 1, b, offset, n =>
    if offset < b.totalSize then
      let (c, offset1, b) := ebNextc b offset
      -- `n-- <= 0` is only evaluated for a character that is not an accent
      if !qeIsaccent wcwidth c then
        if n ≤ 0 then some (offset, b) else skipGlyphsFwd wcwidth fuel b offset1 (n - 1)
      else skipGlyphsFwd wcwidth fuel b offset1 n
    else some (offset, b)

/-- `eb_skip_glyphs`: the offset `n` glyphs away from `offset`. -/
def ebSkipGlyphs (wcwidth : UInt32 → Int) (fuel : Nat) (b : EditBuffer) (offset n : Int) :
    Option (Int × EditBuffer) :=
  if n < 0 then skipGlyphsBack wcwidth fuel b offset n else skipGlyphsFwd wcwidth fuel b offset n

/-- A character below U+0300 is never an accent. -/
theorem qeIsaccent_of_lt (wcwidth : UInt32 → Int) {c : UInt32} (h : c < 0x300) :
    qeIsaccent wcwidth c = false := by
  simp [qeIsaccent, UInt32.not_le.mpr h]

/-- Past a character that is not an accent and is followed by one that is not
either, `eb_next_glyph` adds the offset `eb_skip_accents` returns to the
offset it already has, while `eb_skip_glyphs` stops at that offset. -/
theorem ebNextGlyph_adds_position {wcwidth : UInt32 → Int} (fuel : Nat) {b b₁ : EditBuffer}
    {offset offset₁ : Int} {c : UInt32} (hlt : offset < b.totalSize)
    (hnext : ebNextc b offset = (c, offset₁, b₁)) (hc : 32 ≤ c)
    (hbase : qeIsaccent wcwidth c = false)
    (hfollow : qeIsaccent wcwidth (ebNextc b₁ offset₁).1 = false) :
    (ebNextGlyph wcwidth (fuel + 1) b offset).map (·.2.1) = some (offset₁ + offset₁) ∧
      (ebSkipGlyphs wcwidth (fuel + 2) b offset 1).map (·.1) = some offset₁ := by
  constructor
  · -- `eb_skip_accents` stops at once and returns `offset₁` itself
    simp [ebNextGlyph, hnext, hc, ebSkipAccents, hfollow]
  · -- the first character counts, the next one stops the loop
    simp only [ebSkipGlyphs, show ¬ (1 : Int) < 0 by decide, show ¬ (1 : Int) ≤ 0 by decide,
      if_false, skipGlyphsFwd, hlt, if_true, hnext, hbase, Bool.not_false]
    split <;> simp [hfollow]

unseal lineScan shiftLoop utf8Cols in
/-- In the one-character buffer `a`, `eb_next_glyph` from offset 0 moves to
offset 2, past the end of the buffer, and `eb_skip_glyphs` by one glyph to
offset 1, whatever the width table. -/
theorem ebNextGlyph_past_end (wcwidth : UInt32 → Int) (fuel : Nat) :
    (ebNextGlyph wcwidth (fuel + 1)
        (ebInsert (EditBuffer.empty charset_utf8 .unix) 0 [0x61] 1).2 0).map (·.2.1) = some 2 ∧
      (ebSkipGlyphs wcwidth (fuel + 2)
        (ebInsert (EditBuffer.empty charset_utf8 .unix) 0 [0x61] 1).2 0 1).map (·.1) = some 1 := by
  -- `a` at offset 0, then the end of the buffer, read as a newline
  have hnext : ebNextc (ebInsert (EditBuffer.empty charset_utf8 .unix) 0 [0x61] 1).2 0 =
      (0x61, 1, (ebNextc (ebInsert (EditBuffer.empty charset_utf8 .unix) 0 [0x61] 1).2 0).2.2) :=
    Prod.ext (by decide) (Prod.ext (by decide) rfl)
  have hend : (ebNextc (ebNextc (ebInsert (EditBuffer.empty charset_utf8 .unix) 0 [0x61]
      1).2 0).2.2 1).1 = 10 := by decide
  exact ebNextGlyph_adds_position fuel (by decide) hnext (by decide)
    (qeIsaccent_of_lt wcwidth (by decide)) (by rw [hend]; exact qeIsaccent_of_lt wcwidth (by decide))

/-! ## Where the readers disagree -/

unseal lineScan shiftLoop utf8Cols in
/-- A stray UTF-8 trailing byte reads forward as `INVALID_CHAR` and backward
as the byte itself. -/
theorem ebPrevc_stray_trailing_byte :
    (ebNextc (ebInsert (EditBuffer.empty charset_utf8 .unix) 0 [0x80] 1).2 0).1 = INVALID_CHAR ∧
      (ebNextc (ebInsert (EditBuffer.empty charset_utf8 .unix) 0 [0x80] 1).2 0).2.1 = 1 ∧
      (ebPrevc (ebInsert (EditBuffer.empty charset_utf8 .unix) 0 [0x80] 1).2 1).1 = 0x80 ∧
      (ebPrevc (ebInsert (EditBuffer.empty charset_utf8 .unix) 0 [0x80] 1).2 1).2.1 = 0 := by
  decide

unseal lineScan shiftLoop utf8Cols in
/-- A lead byte followed by an ASCII letter is two characters for `eb_nextc`
and one column for `eb_get_pos`. -/
theorem ebGetPos_invalid_sequence :
    (ebNextc (ebInsert (EditBuffer.empty charset_utf8 .unix) 0 [0xc3, 0x41] 2).2 0).2.1 = 1 ∧
      (ebNextc (ebInsert (EditBuffer.empty charset_utf8 .unix) 0 [0xc3, 0x41] 2).2 1).1 = 0x41 ∧
      (ebNextc (ebInsert (EditBuffer.empty charset_utf8 .unix) 0 [0xc3, 0x41] 2).2 1).2.1 = 2 ∧
      (ebGetPos (ebInsert (EditBuffer.empty charset_utf8 .unix) 0 [0xc3, 0x41] 2).2 2).1 =
        (0, 1) := by
  decide

set_option maxRecDepth 20000 in
unseal lineScan gotoPosWalk shiftLoop in
/-- Pages of 2, 4096 and 4096 bytes, the second ending in a newline and one
more character: `eb_goto_pos` carries the column of the first page past the
newline and stops two columns short. -/
theorem ebGotoPos_carries_column :
    Reachable (ebInsert (ebInsert (ebInsert (EditBuffer.empty charset_raw .unix) 0
      (List.replicate 4096 0x78) 4096).2 0 [10, 0x62] 2).2 0 (List.replicate 4096 0x79) 4096).2 ∧
    (ebInsert (ebInsert (ebInsert (EditBuffer.empty charset_raw .unix) 0
      (List.replicate 4096 0x78) 4096).2 0 [10, 0x62] 2).2 0
      (List.replicate 4096 0x79) 4096).2.pages.map Page.size = [2, 4096, 4096] ∧
    (ebGotoPos (ebInsert (ebInsert (ebInsert (EditBuffer.empty charset_raw .unix) 0
      (List.replicate 4096 0x78) 4096).2 0 [10, 0x62] 2).2 0
      (List.replicate 4096 0x79) 4096).2 1 5).1 = 4100 ∧
    (ebGetPos (ebInsert (ebInsert (ebInsert (EditBuffer.empty charset_raw .unix) 0
      (List.replicate 4096 0x78) 4096).2 0 [10, 0x62] 2).2 0
      (List.replicate 4096 0x79) 4096).2 4100).1 = (1, 3) := by
  refine ⟨.insert _ _ _ (.insert _ _ _ (.insert _ _ _ (.empty _ _))), ?_⟩
  decide

unseal lineScan shiftLoop in
/-- `encode_ucs2le` keeps the low 16 bits of a code point past the BMP, and
the bytes it writes read back as another character. -/
theorem encode_ucs2le_truncates :
    charset_ucs2le.encodeFunc 0x10000 = some [0, 0] ∧
      (ebNextc (ebInsert (EditBuffer.empty charset_ucs2le .unix) 0 [0, 0] 2).2 0).1 = 0 ∧
      (ebNextc (ebInsert (EditBuffer.empty charset_ucs2le .unix) 0 [0, 0] 2).2 0).2.1 = 2 := by
  decide

end Qemacs
