import Qemacs.Command.Paragraph
import Qemacs.Command.Tabify

/-!
# Filling paragraphs

`do_fill_paragraph` (extras.c) reflows the words of each paragraph of a region:
the spaces before a word become one space when the word fits on the line, and
a line feed with the indentation of the paragraph's second line when it does
not. `eb_respace` rewrites each gap and returns the change of size, which
moves the scan, the end of the paragraph and the end of the region. The column
`col` stands for the width of the line being filled, counted from the
paragraph's first indentation and the widths of its words.

The gap before the first word of a paragraph is kept as it is, and counted as
the first line's indentation. When the first line holds no word, because a
carriage return makes it other than blank, that gap runs into the second line,
whose indentation `col` then misses: a line wider than the fill column can keep
two words (`doFillParagraph_cr_line_overflows`).

`qe_wcwidth`, the buffer's `tab_width` and `fill_column` are parameters. The
command needs a buffer that can be written.
-/

namespace Qemacs

/-! ## `eb_respace` -/

/-- The first loop of `eb_respace`: past the line feeds already in the gap, up to
`newlines` of them. -/
def respaceNewlines : Nat → EditBuffer → Int → Int → Int → Option (EditBuffer × Int × Int)
  | 0, _, _, _, _ => none
  | fuel + 1, b, p1, p2, newlines =>
    if 0 < newlines ∧ p1 < p2 then
      let (c, offset1, b) := ebNextc b p1
      if c ≠ 10 then some (b, p1, newlines)
      else respaceNewlines fuel b offset1 p2 (newlines - 1)
    else some (b, p1, newlines)

/-- The second loop of `eb_respace`: a space in the gap is kept, anything else
deleted, up to `spaces` spaces. The buffer, `p1`, `p2`, the spaces still wanted
and the change of size. -/
def respaceSpaces : Nat → EditBuffer → Int → Int → Int → Int →
    Option (EditBuffer × Int × Int × Int × Int)
  | 0, _, _, _, _, _ => none
  | fuel + 1, b, p1, p2, spaces, adjust =>
    if 0 < spaces ∧ p1 < p2 then
      let (c, offset1, b) := ebNextc b p1
      if c = 0x20 then respaceSpaces fuel b offset1 p2 (spaces - 1) adjust
      else
        let (nb, b) := ebDelete b p1 (offset1 - p1)
        respaceSpaces fuel b p1 (p2 - nb) spaces (adjust - nb)
    else some (b, p1, p2, spaces, adjust)

/-- `eb_respace`: the gap between `p1` and `p2` made `newlines` line feeds and
then `spaces` spaces, keeping those already there; the change of size. -/
def ebRespace (fuel : Nat) (b : EditBuffer) (p1 p2 newlines spaces : Int) :
    Option (Int × EditBuffer) := do
  let (b, p1, newlines) ← respaceNewlines fuel b p1 p2 newlines
  let (adjust, b, p1, p2) :=
    if 0 < newlines then
      let (nb, b) := ebInsertChar32N b p1 10 newlines
      (nb, b, p1 + nb, p2 + nb)
    else (0, b, p1, p2)
  let (b, p1, p2, spaces, adjust) ← respaceSpaces fuel b p1 p2 spaces adjust
  -- what is left of the gap goes
  let (adjust, b) :=
    if p1 < p2 then
      let (nb, b) := ebDelete b p1 (p2 - p1)
      (adjust - nb, b)
    else (adjust, b)
  if spaces ≠ 0 then
    let (nb, b) := ebInsertSpaces b p1 spaces
    return (adjust + nb, b)
  else return (adjust, b)

/-- `get_indent_size`: the width of the blanks from `p1`, a TAB reaching the next
tab stop. -/
def getIndentSize (tabWidth : Int) : Nat → EditBuffer → Int → Int → Int → Option (Int × EditBuffer)
  | 0, _, _, _, _ => none
  | fuel + 1, b, p1, p2, indent =>
    if p1 < p2 then
      let (c, p1, b) := ebNextc b p1
      if !qeIsblankChar c then some (indent, b)
      else if c = 9 then getIndentSize tabWidth fuel b p1 p2 (nextTabStop (tabWidthOf tabWidth) indent)
      else getIndentSize tabWidth fuel b p1 p2 (indent + 1)
    else some (indent, b)

/-! ## `do_fill_paragraph` -/

/-- The spaces before a word, up to `parEnd`: where the word starts. -/
def skipFillSpaces : Nat → EditBuffer → Int → Int → Option (Int × EditBuffer)
  | 0, _, _, _ => none
  | fuel + 1, b, offset, parEnd =>
    if offset < parEnd then
      let (c, offset1, b) := ebNextc b offset
      if !qeIsspaceChar c then some (offset, b) else skipFillSpaces fuel b offset1 parEnd
    else some (offset, b)

/-- A word, up to `parEnd`: where it ends and its width, by `qe_wcwidth`. -/
def skipFillWord (wcwidth : UInt32 → Int) : Nat → EditBuffer → Int → Int → Int →
    Option (Int × Int × EditBuffer)
  | 0, _, _, _, _ => none
  | fuel + 1, b, offset, parEnd, size =>
    if offset < parEnd then
      let (c, offset1, b) := ebNextc b offset
      if qeIsspaceChar c then some (offset, size, b)
      else skipFillWord wcwidth fuel b offset1 parEnd (size + wcwidth c)
    else some (offset, size, b)

/-- The reflow loop over the words of the paragraph from `parStart`, at `offset`
and column `col`; the end of the paragraph and the end of the region follow the
edits. The buffer, where the loop stopped, and the end of the region. -/
def reflowLoop (wcwidth : UInt32 → Int) (fillColumn parStart indent0 indent : Int) :
    Nat → EditBuffer → Int → Int → Int → Int → Option (EditBuffer × Int × Int)
  | 0, _, _, _, _, _ => none
  | fuel + 1, b, offset, parEnd, stop, col =>
    if offset < parEnd then
      let chunkStart := offset
      match skipFillSpaces fuel b offset parEnd with
      | none => none
      | some (wordStart, b) =>
        match skipFillWord wcwidth fuel b wordStart parEnd 0 with
        | none => none
        | some (offset, wordSize, b) =>
          if chunkStart = parStart then
            -- the spaces at the start of the paragraph stay
            reflowLoop wcwidth fillColumn parStart indent0 indent fuel b offset parEnd stop
              (col + indent0 + wordSize)
          else if wordStart = offset then
            -- spaces at the end of the paragraph become a line feed
            match ebRespace fuel b chunkStart wordStart 1 0 with
            | none => none
            | some (nb, b) => some (b, offset + nb, stop + nb)
          else
            -- a line feed and the indentation, or one space
            let (col, newlines, spaces) :=
              if col + 1 + wordSize > fillColumn then (indent + wordSize, 1, indent)
              else (col + 1 + wordSize, 0, 1)
            match ebRespace fuel b chunkStart wordStart newlines spaces with
            | none => none
            | some (nb, b) =>
              reflowLoop wcwidth fillColumn parStart indent0 indent fuel b (offset + nb)
                (parEnd + nb) (stop + nb) col
    else some (b, offset, stop)

/-- The loop of `do_fill_paragraph` over the paragraphs up to `stop`; with mode 3
the whole rest of the region is one paragraph. -/
def fillLoop (wcwidth : UInt32 → Int) (tabWidth fillColumn mode : Int) :
    Nat → EditBuffer → Int → Int → Option EditBuffer
  | 0, _, _, _ => none
  | fuel + 1, b, offset, stop => do
    let (parStart, b) ← ebSkipBlankLines fuel b offset 1
    if parStart ≥ stop then return b
    let (parEnd, b) ← if mode ≠ 3 then ebNextParagraph fuel b parStart else some (stop, b)
    let stop := if stop < parEnd then parEnd else stop
    -- the indentations of the first and second lines
    let (indent0, b) ← getIndentSize tabWidth fuel b parStart parEnd 0
    let (offset, b) ← ebNextLine fuel b parStart
    let (indent, b) ←
      if offset < parEnd then getIndentSize tabWidth fuel b offset parEnd 0 else some (indent0, b)
    let (b, offset, stop) ←
      reflowLoop wcwidth fillColumn parStart indent0 indent fuel b parStart parEnd stop 0
    fillLoop wcwidth tabWidth fillColumn mode fuel b offset stop

/-- `do_fill_paragraph`: mode 0 fills the paragraph at the point, mode 1 the
paragraphs of the region, mode 2 those of the buffer, mode 3 the region as one
paragraph; with the region highlighted, mode 0 acts as mode 1. -/
def doFillParagraph (fuel : Nat) (wcwidth : UInt32 → Int) (tabWidth fillColumn : Int)
    (s : EditState) (mode : Int) : Option EditState := do
  let b := s.b
  let (parStart, stop) :=
    if mode = 1 ∨ mode = 3 ∨ s.regionStyle ≠ 0 then (min s.mark s.offset, max s.mark s.offset)
    else (s.offset, s.offset)
  let (parStart, stop) := if mode = 2 then (0, (b.totalSize : Int)) else (parStart, stop)
  -- the start and end of the paragraphs
  let (blank, b) ← ebIsBlankLine fuel b stop
  let (stop, b) ← if blank.isNone then ebNextParagraph fuel b stop else some (stop, b)
  let (parStart, b) ← ebGotoBol fuel b parStart
  let (blank, b) ← ebIsBlankLine fuel b parStart
  let (parStart, b) ← if blank.isNone then ebPrevParagraph fuel b parStart else some (parStart, b)
  let b ← fillLoop wcwidth tabWidth fillColumn mode fuel b parStart stop
  return s.withBuffer b

/-! ## A first line with no word -/

/-- The text `"\r\n  ab cd\n"` is one paragraph: its first line holds a carriage
return, which is no blank. Filled at column 6, the gap before the first word, `"\r\n  "`,
stays and counts as the first line's indentation, 0 columns; `col` is then 2 after
`ab` and 5 after `cd`, which fits, so nothing changes. The second line `"  ab cd"`
is 7 columns wide and holds two words. -/
theorem doFillParagraph_cr_line_overflows :
    ((doFillParagraph 40 (fun _ => 1) 8 6
        ⟨ebMmapBuffer (EditBuffer.empty charset_raw .unix) [13, 10, 32, 32, 0x61, 0x62, 32, 0x63, 0x64, 10],
          0, 0, 0⟩ 0).map (·.b.content)) =
      some [13, 10, 32, 32, 0x61, 0x62, 32, 0x63, 0x64, 10] := by
  decide

end Qemacs
