import Qemacs.Util.Qsort
import Qemacs.Command.Paragraph
import Qemacs.Command.Tabify
import Qemacs.Command.Block

/-!
# Sorting lines

`eb_sort_span` (extras.c) sorts the lines of a region, or its paragraphs: it
cuts the region into chunks, keeps for each the first two characters of its key
and where the rest of the key starts, sorts the chunks with `qe_qsort_r` and
`chunk_cmp`, copies them in order into a new buffer, a line feed after a last
chunk that has none, and puts that text in place of the region.

`chunk_cmp` compares the two characters kept, then the rest of the keys, then
the starts of the chunks, "to make the sort stable". Under `SF_REVERSE` it swaps
its arguments first, the starts included: chunks with equal keys come out in
the reverse of their order (`ebSortSpan_reverse_unstable`).

`qe_wcunaccent` and `qe_wctoupper` are parameters (`CaseTables`).
**Deliberate scope limit**: the progress messages, and the styles of a buffer
that has them.
-/

namespace Qemacs

def SF_FOLD : Nat := 0x02
def SF_REVERSE : Nat := 0x04
def SF_DICT : Nat := 0x08
def SF_NUMBER : Nat := 0x10
def SF_COLUMN : Nat := 0x20
def SF_BASENAME : Nat := 0x40
def SF_PARAGRAPH : Nat := 0x80

/-! ## Characters -/

/-- `qe_isalpha`: an ASCII letter. -/
def qeIsalphaChar (c : UInt32) : Bool := 0x61 ≤ c ||| 0x20 ∧ c ||| 0x20 ≤ 0x7a

/-- `qe_iswalpha`: a letter once its accent is taken off. -/
def qeIswalpha (t : CaseTables) (c : UInt32) : Bool := qeIsalphaChar (qeUnaccent t c)

/-- `eb_peekc`. -/
def ebPeekc (b : EditBuffer) (offset : Int) : UInt32 × EditBuffer :=
  let (c, _, b) := ebNextc b offset
  (c, b)

/-- `eb_putc`: a character at the buffer's own offset, which `eb_new` registers
to follow insertions at it. -/
def ebPutc (b : EditBuffer) (c : UInt32) : Int × EditBuffer :=
  ebInsertChar32 b (trackOffset true b.events 0) c

/-! ## Chunks -/

/-- `struct chunk`: a line or a paragraph of the region, from `start` to `endOffset`
before its line feed; `offset` past `start` is where `chunk_cmp` reads the key
after its first two characters `c0` and `c1`. -/
structure Chunk where
  start : Int
  endOffset : Int
  offset : Int
  c0 : UInt16
  c1 : UInt16
deriving DecidableEq, Repr, Inhabited

/-- The column skip under `SF_COLUMN`: `col` characters, up to the end of line. -/
def skipColumns : Nat → EditBuffer → Int → Int × EditBuffer
  | 0, b, pos => (pos, b)
  | col + 1, b, pos =>
    let (c, pos1, b) := ebNextc b pos
    if c = 10 then (pos, b) else skipColumns col b pos1

/-- `eb_skip_to_basename`: past the last `/` or `\` of the line. -/
def ebSkipToBasename : Nat → EditBuffer → Int → Int → Option (Int × EditBuffer)
  | 0, _, _, _ => none
  | fuel + 1, b, pos, base =>
    let (c, pos, b) := ebNextc b pos
    if c = 10 then some (base, b)
    else ebSkipToBasename fuel b pos (if c = 0x2f ∨ c = 0x5c then pos else base)

/-- One of the two first characters of a key, from `pos`: a line feed is 0;
under `SF_DICT` what is neither a digit nor a letter is passed; under
`SF_NUMBER` a digit is `'0'`, left for the comparison to read as a number; past
`0xFFFF` a character is `0xFFFF`, and left too. -/
def sortKeyChar (t : CaseTables) (flags : Nat) : Nat → EditBuffer → Int → Option (UInt32 × Int × EditBuffer)
  | 0, _, _ => none
  | fuel + 1, b, pos =>
    let (c, pos1, b) := ebNextc b pos
    if c = 10 then some (0, pos, b)
    else if flags &&& SF_DICT ≠ 0 ∧ !qeIsdigitChar c ∧ !qeIswalpha t c then
      sortKeyChar t flags fuel b pos1
    else if flags &&& SF_NUMBER ≠ 0 ∧ qeIsdigitChar c then some (0x30, pos, b)
    else
      let c := if flags &&& SF_FOLD ≠ 0 then qeWtoupper t c else c
      if c > 0xFFFF then some (0xFFFF, pos, b) else some (c, pos1, b)

/-- Under `SF_PARAGRAPH`, the lines after a chunk that start with a space
continue it: its end, and where the next chunk starts. -/
def paragraphRest (p2 : Int) : Nat → EditBuffer → Int → Int → Option (Int × Int × EditBuffer)
  | 0, _, _, _ => none
  | fuel + 1, b, endOffset, offset =>
    if offset < p2 then
      let (c, b) := ebPeekc b offset
      if qeIsspaceChar c then
        match ebGotoEol fuel b offset with
        | none => none
        | some (endOffset, b) =>
          let (offset, b) := ebNext b endOffset
          paragraphRest p2 fuel b endOffset offset
      else some (endOffset, offset, b)
    else some (endOffset, offset, b)

/-- The loop of `eb_sort_span` that cuts `[offset, p2)` into at most `lines`
chunks, `col` the column of the keys under `SF_COLUMN`. -/
def buildChunks (t : CaseTables) (flags : Nat) (col p2 : Int) :
    Nat → Nat → EditBuffer → Int → Option (List Chunk × EditBuffer)
  | 0, _, _, _ => none
  | fuel + 1, lines, b, offset =>
    if lines = 0 ∨ offset ≥ p2 then some ([], b)
    else do
      let (pos, b) := if flags &&& SF_COLUMN ≠ 0 then skipColumns col.toNat b offset else (offset, b)
      let (pos, b) ← if flags &&& SF_BASENAME ≠ 0 then ebSkipToBasename fuel b pos pos else some (pos, b)
      -- the first two significant characters
      let (c0, pos, b) ← sortKeyChar t flags fuel b pos
      let (c1, pos, b) ← sortKeyChar t flags fuel b pos
      let (endOffset, b) ← ebGotoEol fuel b pos
      let (next, b) := ebNext b endOffset
      let (endOffset, next, b) ←
        if flags &&& SF_PARAGRAPH ≠ 0 then paragraphRest p2 fuel b endOffset next
        else some (endOffset, next, b)
      let (rest, b) ← buildChunks t flags col p2 fuel (lines - 1) b next
      return (⟨offset, endOffset, pos - offset, c0.toUInt16, c1.toUInt16⟩ :: rest, b)

/-! ## `chunk_cmp` -/

/-- The next character of a key in `chunk_cmp`, before `endOffset`: under
`SF_DICT` past what is neither a digit nor a letter, a TAB ending the key. 0 at
the end of the key. -/
def cmpKeyChar (t : CaseTables) (flags : Nat) (endOffset : Int) :
    Nat → EditBuffer → Int → Option (UInt32 × Int × EditBuffer)
  | 0, _, _ => none
  | fuel + 1, b, pos =>
    if pos < endOffset then
      let (c, pos, b) := ebNextc b pos
      if flags &&& SF_DICT = 0 ∨ qeIsdigitChar c ∨ qeIswalpha t c then some (c, pos, b)
      else if c = 9 then some (0, pos, b)
      else cmpKeyChar t flags endOffset fuel b pos
    else some (0, pos, b)

/-- The digits of a number after its first, as an `unsigned long long`, which
wraps; the character after them, 0 at the end of the chunk. -/
def cmpNumber (endOffset : Int) : Nat → EditBuffer → Int → UInt64 → Option (UInt64 × UInt32 × Int × EditBuffer)
  | 0, _, _, _ => none
  | fuel + 1, b, pos, n =>
    if pos < endOffset then
      let (c, pos, b) := ebNextc b pos
      if !qeIsdigitChar c then some (n, c, pos, b)
      else cmpNumber endOffset fuel b pos (n * 10 + (c - 0x30).toUInt64)
    else some (n, 0, pos, b)

/-- Two numbers under `SF_NUMBER`, from their first digits `c1` and `c2`: their
order when their values differ, and the characters after them. -/
def cmpNumbers (fuel : Nat) (b : EditBuffer) (p1 p2 : Chunk) (c1 c2 : UInt32) (pos1 pos2 : Int) :
    Option (Option Int × UInt32 × UInt32 × Int × Int × EditBuffer) := do
  let (n1, c1, pos1, b) ← cmpNumber p1.endOffset fuel b pos1 (c1 - 0x30).toUInt64
  let (n2, c2, pos2, b) ← cmpNumber p2.endOffset fuel b pos2 (c2 - 0x30).toUInt64
  let order := if n1 < n2 then some (-1) else if n1 > n2 then some 1 else none
  return (order, c1, c2, pos1, pos2, b)

/-- The `for (;;)` of `chunk_cmp` over the rest of the keys: -1 or 1 at the
first difference, 0 when both keys end together. -/
def chunkCmpLoop (t : CaseTables) (flags : Nat) (p1 p2 : Chunk) :
    Nat → EditBuffer → Int → Int → Option (Int × EditBuffer)
  | 0, _, _, _ => none
  | fuel + 1, b, pos1, pos2 => do
    let (c1, pos1, b) ← cmpKeyChar t flags p1.endOffset fuel b pos1
    let (c2, pos2, b) ← cmpKeyChar t flags p2.endOffset fuel b pos2
    let (order, c1, c2, pos1, pos2, b) ←
      if flags &&& SF_NUMBER ≠ 0 ∧ qeIsdigitChar c1 ∧ qeIsdigitChar c2 then
        cmpNumbers fuel b p1 p2 c1 c2 pos1 pos2
      else some (none, c1, c2, pos1, pos2, b)
    match order with
    | some r => return (r, b)
    | none =>
      let (c1, c2) := if flags &&& SF_FOLD ≠ 0 then (qeWtoupper t c1, qeWtoupper t c2) else (c1, c2)
      if c1 < c2 then return (-1, b)
      if c1 > c2 then return (1, b)
      if c1 = 0 then return (0, b)
      chunkCmpLoop t flags p1 p2 fuel b pos1 pos2

/-- `chunk_cmp`, the buffer being the comparison's argument. -/
def chunkCmp (t : CaseTables) (flags : Nat) (fuel : Nat) (b : EditBuffer) (q1 q2 : Chunk) :
    Option (Int × EditBuffer) :=
  let (p1, p2) := if flags &&& SF_REVERSE ≠ 0 then (q2, q1) else (q1, q2)
  if p1.c0 ≠ p2.c0 then some (if p1.c0 < p2.c0 then -1 else 1, b)
  else if p1.c1 ≠ p2.c1 then some (if p1.c1 < p2.c1 then -1 else 1, b)
  else do
    let (r, b) ← chunkCmpLoop t flags p1 p2 fuel b (p1.start + p1.offset) (p2.start + p2.offset)
    if r ≠ 0 then return (r, b)
    -- make sort stable by comparing offsets of equal elements
    return ((if p1.start > p2.start then 1 else 0) - (if p1.start < p2.start then 1 else 0), b)

/-! ## `eb_sort_span` -/

/-- The copy of the sorted chunks into `b1`, each with its line feed, one put
after a chunk that has none. -/
def copyChunks (fuel : Nat) : List Chunk → EditBuffer → EditBuffer → Option (EditBuffer × EditBuffer)
  | [], b1, b => some (b1, b)
  | ch :: rest, b1, b => do
    let (stop, b) := ebNext b ch.endOffset
    let (_, b1, b) ← ebInsertBufferConvert fuel b1 b1.totalSize b ch.start (stop - ch.start)
    let b1 := if stop = ch.endOffset then (ebPutc b1 10).2 else b1
    copyChunks fuel rest b1 b

/-- `eb_sort_span`: the lines of the region between `p1` and `p2`, whole, sorted
in place; the buffer and the bounds of the sorted text. -/
def ebSortSpan (fuel : Nat) (t : CaseTables) (b : EditBuffer) (p1 p2 curOffset : Int) (flags : Nat) :
    Option (EditBuffer × Int × Int) := do
  let (p1, p2) := if p1 > p2 then (p2, p1) else (p1, p2)
  let ((line1, col1), b) := ebGetPos b p1.toNat
  let ((line2, col2), b) := ebGetPos b p2.toNat
  let (p1, b) ← if col1 > 0 then ebGotoBol fuel b p1 else some (p1, b)
  -- an incomplete last line is included
  let (line2, p2, b) ←
    if col2 > 0 then (ebNextLine fuel b p2).map fun (p2, b) => (line2 + 1, p2, b)
    else some (line2, p2, b)
  let (col, b) :=
    if flags &&& SF_COLUMN ≠ 0 then
      let ((_, col), b) := ebGetPos b curOffset.toNat
      (if col ≠ 0 then col else col1, b)
    else (0, b)
  let lines : Int := line2 - line1
  if lines ≤ 1 then return (b, p2, p2)
  let (chunks, b) ← buildChunks t flags col p2 fuel lines.toNat b p1
  let (chunks, b) ← qeQsortR (chunkCmp t flags fuel) fuel chunks b
  let (b1, b) ← copyChunks fuel chunks (systemBuffer b.charset b.eolType) b
  let (_, b) := ebDeleteRange b p1 p2
  let (n, b, _) ← ebInsertBufferConvert fuel b p1 b1 0 b1.totalSize
  return (b, p1, p1 + n)

/-- `do_sort_span`: the mark and the point at the bounds of the sorted text. -/
def doSortSpan (fuel : Nat) (t : CaseTables) (s : EditState) (p1 p2 : Int) (argval flags : Nat) :
    Option EditState := do
  let s := { s with regionStyle := 0 }
  let (b, p1, p2) ← ebSortSpan fuel t s.b p1 p2 s.offset (flags ||| argval)
  return { s.withBuffer b with mark := p1, offset := p2 }

/-! ## Equal keys under `SF_REVERSE` -/

unseal lineScan deleteLoop shiftLoop utf8Cols in
/-- The lines `a` and `A` have equal keys under `SF_FOLD`: sorted with it they stay
in their order, the starts deciding. With `SF_REVERSE` too, `chunk_cmp` swaps the
starts with the rest, and `A` comes first. -/
theorem ebSortSpan_reverse_unstable :
    ((ebSortSpan 20 ⟨id, id⟩ (ebMmapBuffer (EditBuffer.empty charset_raw .unix) [0x61, 10, 0x41, 10])
        0 4 0 SF_FOLD).map fun r => (r.1.content, r.2)) = some ([0x61, 10, 0x41, 10], 0, 4) ∧
      ((ebSortSpan 20 ⟨id, id⟩ (ebMmapBuffer (EditBuffer.empty charset_raw .unix) [0x61, 10, 0x41, 10])
        0 4 0 (SF_REVERSE ||| SF_FOLD)).map fun r => (r.1.content, r.2)) =
        some ([0x41, 10, 0x61, 10], 0, 4) := by
  constructor <;> decide

end Qemacs
