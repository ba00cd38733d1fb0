import Mathlib.Data.List.Basic
import Mathlib.Tactic.Ring

/-!
# Positions in the terminal buffer

The shell mode keeps the terminal screen in the text of its buffer: a row ends
at a newline, or wraps when its glyphs fill `cols` columns. `qe_term_get_pos`
(shell.c) finds the column and row of an offset by walking the glyphs from the
top of the screen, `qe_term_skip_lines` walks a number of rows the same way,
and `qe_term_goto_pos` walks to a column and row, extending the text with
newlines and spaces where it is short. `qe_term_goto_tab` moves to a tab stop.

The text is the sequence of characters `eb_nextc` decodes from the buffer: an
offset is the index of a character. `qe_wcwidth` is one column outside the
range of its Unicode tables, which are a parameter.

Each function steps over a TAB by `w = (x + 8) & ~7; x = min(x + w, cols - 1)`,
which adds the next tab stop to the column instead of moving to it: a TAB at
column `x` ends on the 8-column grid only at column 0. `qe_term_goto_tab`
rounds `x + 8 n` down to the grid: forward that is the `n`-th stop, backward
from a column off the grid it is one stop too far.
-/

namespace Qemacs

/-! ## Characters and glyphs -/

/-- `qe_wcwidth`: one column outside the range `0x300 ..= 0xe01ef` of the
Unicode tables, whose widths are the parameter `tbl`. -/
def qeWcwidth (tbl : UInt32 → Nat) (cp : UInt32) : Int :=
  if cp - 0x300 > 0xe01ef - 0x300 then 1 else tbl cp

/-- `qe_isaccent`: a combining character, of width zero. -/
def qeIsAccent (tbl : UInt32 → Nat) (c : UInt32) : Bool :=
  c ≥ 0x300 && qeWcwidth tbl c == 0

/-- `qe_iswide`. -/
def qeIsWide (tbl : UInt32 → Nat) (c : UInt32) : Bool :=
  c ≥ 0x1000 && qeWcwidth tbl c > 1

/-- `eb_nextc` on the text: the character at `offset` and the offset after it;
a newline at the end of the buffer. -/
def termNextc (text : List UInt32) (offset : Nat) : UInt32 × Nat :=
  match text[offset]? with
  | some c => (c, offset + 1)
  | none => (10, text.length)

/-- The loop `while (qe_isaccent(c = eb_nextc(b, offset, &offset1))) offset =
offset1;`: the first character from `offset` that is not an accent, and its
offset. -/
def skipAccents (tbl : UInt32 → Nat) (text : List UInt32) (offset : Nat) : UInt32 × Nat :=
  match h : text[offset]? with
  | some c => if qeIsAccent tbl c then skipAccents tbl text (offset + 1) else (c, offset)
  | none => (10, offset)
termination_by text.length - offset
decreasing_by
  have := (List.getElem?_eq_some_iff.mp h).1
  omega

/-- `(x + 8) & ~7`: the tab stop after column `x`. -/
def termTabStop (x : Int) : Int := (x + 8) / 8 * 8

/-- The state of a glyph walk: the column and row reached and the offset of
the next glyph. A wide character that does not fit in the row moves to the next
one (`wideWrap`). -/
structure GlyphStep where
  x : Int
  y : Int
  offset : Nat
  wideWrap : Bool
  deriving DecidableEq, Repr

/-- One glyph as `qe_term_skip_lines` and `qe_term_get_pos` step over it, at
column `x` of row `y`. -/
def termStep (tbl : UInt32 → Nat) (cols : Int) (text : List UInt32) (x y : Int) (offset : Nat) :
    GlyphStep :=
  let (c, offset1) := termNextc text offset
  if c = 10 then ⟨0, y + 1, offset1, false⟩
  else if c = 9 then
    -- TAB at EOL does not move the cursor
    ⟨min (x + termTabStop x) (cols - 1), y, offset1, false⟩
  else
    let w := qeWcwidth tbl c
    if x + w ≥ cols then
      -- wide character at EOL actually wraps to next line
      if x + w > cols then ⟨w, y + 1, offset1, true⟩
      else
        -- aggregate all accents; the next character wraps unless it ends the row
        let (c, offset2) := skipAccents tbl text offset1
        if c ≠ 10 then ⟨0, y + 1, offset2, false⟩ else ⟨x + w, y, offset2, false⟩
    else ⟨x + w, y, offset1, false⟩

theorem skipAccents_offset_ge (tbl : UInt32 → Nat) (text : List UInt32) (offset : Nat) :
    offset ≤ (skipAccents tbl text offset).2 := by
  fun_induction skipAccents tbl text offset with
  | case1 offset c h hacc ih => exact Nat.le_trans (Nat.le_succ offset) ih
  | case2 offset c h hacc => exact Nat.le_refl offset
  | case3 offset h => exact Nat.le_refl offset

/-- A glyph inside the text is passed. -/
theorem termStep_offset_gt (tbl : UInt32 → Nat) (cols : Int) (text : List UInt32) (x y : Int)
    {offset : Nat} (h : offset < text.length) : offset < (termStep tbl cols text x y offset).offset := by
  have hnext : termNextc text offset = (text[offset], offset + 1) := by
    simp [termNextc, List.getElem?_eq_getElem h]
  have hacc := skipAccents_offset_ge tbl text (offset + 1)
  simp only [termStep, hnext]
  split_ifs <;> simp only <;> omega

/-! ## `qe_term_skip_lines` and `qe_term_get_pos` -/

/-- The fields of `ShellState` the position functions read and write, with the
text of its buffer. `screenTop` is the top of the screen in use, main or
alternate. -/
structure TermState where
  text : List UInt32
  cols : Int
  rows : Int
  screenTop : Nat
  curOffset : Nat
  curOffsetHack : Bool
  deriving DecidableEq, Repr

/-- The loop of `qe_term_skip_lines`: rows from `offset` until `n` have been
passed or the text ends. A wide character that wraps onto row `n` is not
passed. -/
def termSkipLinesLoop (tbl : UInt32 → Nat) (cols : Int) (text : List UInt32) (n : Int) (x y : Int)
    (offset : Nat) : Nat :=
  if _h : y < n ∧ offset < text.length then
    let g := termStep tbl cols text x y offset
    if g.wideWrap ∧ g.y = n then offset
    else termSkipLinesLoop tbl cols text n g.x g.y g.offset
  else offset
termination_by text.length - offset
decreasing_by
  have := termStep_offset_gt tbl cols text x y _h.2
  omega

/-- `qe_term_skip_lines`: the offset of the `n`-th terminal row from `offset`. -/
def qeTermSkipLines (tbl : UInt32 → Nat) (s : TermState) (offset : Nat) (n : Int) : Nat :=
  termSkipLinesLoop tbl s.cols s.text n 0 0 offset

/-- The loop of `qe_term_get_pos`: the glyphs from `offset` up to `dest`, which
the caller has clamped to the text. -/
def termGetPosLoop (tbl : UInt32 → Nat) (cols : Int) (text : List UInt32) (dest : Nat)
    (hdest : dest ≤ text.length) (x y : Int) (offset : Nat) : Int × Int × Nat :=
  if _h : offset < dest then
    let g := termStep tbl cols text x y offset
    termGetPosLoop tbl cols text dest hdest g.x g.y g.offset
  else (x, y, offset)
termination_by text.length - offset
decreasing_by
  have := termStep_offset_gt tbl cols text x y (Nat.lt_of_lt_of_le _h hdest)
  omega

/-- `qe_term_get_pos`: the top of the screen, and the column and row of
`destoffset` from it. The top is first brought into the text, and moved down
when the row is past the screen. -/
def qeTermGetPos (tbl : UInt32 → Nat) (s : TermState) (destoffset : Int) :
    TermState × Nat × Int × Int :=
  let start := min s.screenTop s.text.length
  let dest := (max 0 (min destoffset s.text.length)).toNat
  let (x, y, offset) := termGetPosLoop tbl s.cols s.text dest (by omega) 0 0 start
  -- check if current glyph causes line wrap
  let c := (termNextc s.text offset).1
  let (x, y) := if x ≥ s.cols - 1 ∧ offset = dest ∧ c ≠ 10 ∧ x + qeWcwidth tbl c > s.cols then
      (0, y + 1) else (x, y)
  -- adjust start if row is too far
  let (start, y) := if y ≥ s.rows then
      (qeTermSkipLines tbl s start (y - s.rows + 1), s.rows - 1) else (start, y)
  let x := if s.curOffsetHack ∧ offset = s.curOffset ∧ qeIsWide tbl c then x + 1 else x
  ({ s with screenTop := start }, start, x, y)

/-! ## `qe_term_goto_pos` and `qe_term_goto_tab` -/

/-- `TG_RELATIVE_COL`. -/
def TG_RELATIVE_COL : Nat := 0x01

/-- `TG_RELATIVE_ROW`. -/
def TG_RELATIVE_ROW : Nat := 0x02

/-- `TG_RELATIVE`. -/
def TG_RELATIVE : Nat := 0x03

/-- `TG_NOCLIP`. -/
def TG_NOCLIP : Nat := 0x04

/-- `TG_NOEXTEND`. -/
def TG_NOEXTEND : Nat := 0x08

/-- `QE_TERM_YSIZE_INFINITE`. -/
def QE_TERM_YSIZE_INFINITE : Int := 10000

/-- `eb_insert_char32_n`: `n` copies of `c` at `offset`, none when `n` is not
positive. -/
def insertN (text : List UInt32) (offset : Nat) (c : UInt32) (n : Int) : List UInt32 :=
  text.take offset ++ List.replicate n.toNat c ++ text.drop offset

/-- `eb_delete_range` of the characters `[p1, p2)`. -/
def deleteRange (text : List UInt32) (p1 p2 : Nat) : List UInt32 :=
  text.take p1 ++ text.drop p2

/-- The loop of `qe_term_goto_pos` from column `x` of row `y`, with `fuel`
iterations at most: the state and the offset it stops at. -/
def termGotoPosLoop (tbl : UInt32 → Nat) (noExtend : Bool) (destx desty : Int) :
    Nat → TermState → Int → Int → Nat → TermState × Nat
  | 0, s, _, _, offset => (s, offset)
  | fuel + 1, s, x, y, offset =>
    if y < desty ∨ x < destx then
      if offset ≥ s.text.length then
        let offset := s.text.length
        if noExtend then (s, offset)
        else
          -- newlines down to the row, then spaces up to the column
          let (s, offset, x) := if y < desty then
              let s := { s with text := insertN s.text offset 10 (desty - y) }
              let offset := offset + (desty - y).toNat
              -- update current screen_top
              ((qeTermGetPos tbl s offset).1, offset, (0 : Int))
            else (s, offset, x)
          if x < destx then
            ({ s with text := insertN s.text offset 32 (destx - x) }, offset + (destx - x).toNat)
          else (s, offset)
      else
        let (c, offset1) := termNextc s.text offset
        if c = 10 then
          if y < desty then termGotoPosLoop tbl noExtend destx desty fuel s 0 (y + 1) offset1
          else if noExtend then (s, offset)
          else
            termGotoPosLoop tbl noExtend destx desty fuel
              { s with text := insertN s.text offset 32 (destx - x) } destx y
              (offset + (destx - x).toNat)
        else if c = 9 then
          let x1 := min (x + termTabStop x) (s.cols - 1)
          if y = desty ∧ x1 > destx then
            -- expand TAB if destination falls in the middle
            if noExtend then (s, offset)
            else
              termGotoPosLoop tbl noExtend destx desty fuel
                { s with text := insertN (deleteRange s.text offset offset1) offset 32 (x1 - x) }
                x y offset
          else termGotoPosLoop tbl noExtend destx desty fuel s x1 y offset1
        else
          let w := qeWcwidth tbl c
          -- positioning request in the middle of a wide character
          if w > 1 ∧ y = desty ∧ x + w > destx then ({ s with curOffsetHack := true }, offset)
          else if x + w ≥ s.cols then
            if y = desty then (s, if x + w = destx then offset1 else offset)
            -- a wide character wraps: read it again at the start of the next row
            else if x + w > s.cols then termGotoPosLoop tbl noExtend destx desty fuel s 0 (y + 1) offset
            else
              -- aggregate all accents
              let (c, offset2) := skipAccents tbl s.text offset1
              if c ≠ 10 then termGotoPosLoop tbl noExtend destx desty fuel s 0 (y + 1) offset2
              else termGotoPosLoop tbl noExtend destx desty fuel s (x + w) y offset2
          else termGotoPosLoop tbl noExtend destx desty fuel s (x + w) y offset1
    else (s, offset)

/-- `qe_term_goto_pos`: the offset of column `destx` of row `desty`, relative to
the position of `offset` under `TG_RELATIVE_COL` and `TG_RELATIVE_ROW`, clipped
to the screen unless `TG_NOCLIP`, the text extended unless `TG_NOEXTEND`. The
loop runs `fuel` iterations at most. -/
def qeTermGotoPos (tbl : UInt32 → Nat) (fuel : Nat) (s : TermState) (offset : Nat)
    (destx desty : Int) (flags : Nat) : TermState × Nat :=
  let s := { s with curOffsetHack := false }
  let (s, start, destx, desty) :=
    if flags &&& TG_RELATIVE ≠ 0 then
      let (s, start, x, y) := qeTermGetPos tbl s offset
      (s, start, if flags &&& TG_RELATIVE_COL ≠ 0 then destx + x else destx,
        if flags &&& TG_RELATIVE_ROW ≠ 0 then desty + y else desty)
    else
      -- qe_term_get_pos with no column or row only brings the top into the text
      let start := min s.screenTop s.text.length
      ({ s with screenTop := start }, start, destx, desty)
  let desty := if desty < 0 ∨ desty ≥ QE_TERM_YSIZE_INFINITE - 1 then 0
    else if desty ≥ s.rows ∧ flags &&& TG_NOCLIP = 0 then s.rows - 1 else desty
  let destx := if destx < 0 then 0
    else if destx ≥ s.cols ∧ flags &&& TG_NOCLIP = 0 then s.cols else destx
  let (s, offset) := termGotoPosLoop tbl (flags &&& TG_NOEXTEND ≠ 0) destx desty fuel s 0 0 start
  (s, (skipAccents tbl s.text offset).2)

/-- The column `qe_term_goto_tab` moves to from column `x`: `x + 8 n` rounded
down to the grid, kept in the row. -/
def gotoTabColumn (x n cols : Int) : Int :=
  let colNum := max 0 (x + n * 8) / 8 * 8
  -- handle wrapping lines
  if colNum ≥ cols then (if x < cols then cols - 1 else cols) else colNum

/-- `qe_term_goto_tab`: CHT for `n > 0`, CBT for `n < 0`. -/
def qeTermGotoTab (tbl : UInt32 → Nat) (fuel : Nat) (s : TermState) (n : Int) : TermState :=
  let (s, _, x, y) := qeTermGetPos tbl s s.curOffset
  let (s, offset) := qeTermGotoPos tbl fuel s s.curOffset (gotoTabColumn x n s.cols) y 0
  { s with curOffset := offset }

/-! ## Tab stops -/

/-- `termTabStop x` is the first stop of the 8-column grid after `x`. -/
theorem nextTabStop_spec (x : Int) :
    x < termTabStop x ∧ termTabStop x ≤ x + 8 ∧ termTabStop x % 8 = 0 := by
  unfold termTabStop
  omega

/-- The `k`-th stop of the 8-column grid before column `x`. -/
def tabStopBack (x k : Int) : Int := ((x - 1) / 8 - k + 1) * 8

/-- A TAB after `abc` ends at column 11 where the grid puts it at 8, and CBT
from column 10 goes to column 0 where the stop before it is 8. -/
theorem qeTermGetPos_tab_off_grid (tbl : UInt32 → Nat) :
    (qeTermGetPos tbl ⟨[97, 98, 99, 9], 80, 24, 0, 0, false⟩ 4).2.2 = (11, 0) ∧
    gotoTabColumn 10 (-1) 80 = 0 := by
  constructor
  · simp [qeTermGetPos, termGetPosLoop, termStep, termNextc, qeWcwidth, termTabStop]
  · decide

end Qemacs
