import Qemacs.Command.Basic

/-!
# Tabify and untabify

`do_tabify` and `do_untabify` (extras.c) rewrite the blanks of a region so
that every character stays at its display column, a TAB advancing to the next
multiple of the tab width and every other character by `qe_wcwidth`. Both scan
from the start of the line of the region's start, carrying the column across
the characters before it, and both edit the buffer while they scan: each
deletion and insertion returns its size, which moves the scan and the end of
the region.

`do_untabify` replaces a TAB in the region, with the TABs right after it, by
spaces up to the column they reach; the run of TABs is read up to the first
character that is no TAB, wherever the region ends
(`doUntabify_passes_region`). `do_tabify` replaces a run of spaces in the
region that reaches a tab stop by a TAB, and deletes a run of spaces that a
TAB follows in the same tab cell.

`qe_wcwidth` and the buffer's `tab_width` are parameters.
-/

namespace Qemacs

/-! ## Insertions -/

/-- `eb_insert_char32`: one character, encoded for the buffer. -/
def ebInsertChar32 (b : EditBuffer) (offset : Int) (c : UInt32) : Int × EditBuffer :=
  let bytes := ebEncodeChar32 b c
  ebInsert b offset bytes bytes.length

/-- `eb_insert_char32_n`: `n` times the character `c`, encoded into a buffer of
1024 bytes as `eb_insert_char32_buf` does. -/
def ebInsertChar32N (b : EditBuffer) (offset : Int) (c : UInt32) (n : Int) : Int × EditBuffer :=
  insertChar32Loop offset b (List.replicate n.toNat c) [] 0

/-- `eb_insert_spaces`. -/
def ebInsertSpaces (b : EditBuffer) (offset n : Int) : Int × EditBuffer :=
  ebInsertChar32N b offset 0x20 n

/-- The tab width: `tab_width`, or 8 when it is not positive. -/
def tabWidthOf (tabWidth : Int) : Int := if tabWidth > 0 then tabWidth else 8

/-- The column after a TAB at column `col`: the next multiple of `tw`, with
C's `%`. -/
def nextTabStop (tw col : Int) : Int := col + tw - col.tmod tw

section Scans

variable (wcwidth : UInt32 → Int) (tw start : Int)

/-! ## `do_untabify` -/

/-- The `while` loop of `do_untabify` over the TABs after the first: each adds
a tab width. It stops at the first character that is no TAB, whatever the
region. -/
def untabifyTabs : Nat → EditBuffer → Int → Int → Option (EditBuffer × Int × Int)
  | 0, _, _, _ => none
  | fuel + 1, b, offset1, col =>
    let (c, offset2, b) := ebNextc b offset1
    if c = 9 then untabifyTabs fuel b offset2 (col + tw) else some (b, offset1, col)

/-- The main loop of `do_untabify`, at `offset` and column `col`, with the end
of the region `stop`. -/
def untabifyLoop : Nat → EditBuffer → Int → Int → Int → Option EditBuffer
  | 0, _, _, _, _ => none
  | fuel + 1, b, offset, stop, col =>
    if offset < stop then
      let (c, offset1, b) := ebNextc b offset
      if c = 13 ∨ c = 10 then untabifyLoop fuel b offset1 stop 0
      else if c ≠ 9 then untabifyLoop fuel b offset1 stop (col + wcwidth c)
      else
        let col0 := col
        let col := nextTabStop tw col
        -- a TAB before the region only moves the column
        if offset < start then untabifyLoop fuel b offset1 stop col
        else
          match untabifyTabs tw fuel b offset1 col with
          | none => none
          | some (b, offset1, col) =>
            let (d1, b) := ebDeleteRange b offset offset1
            let (d2, b) := ebInsertSpaces b offset (col - col0)
            let delta := -d1 + d2
            untabifyLoop fuel b (offset1 + delta) (stop + delta) col
    else some b

/-! ## `do_tabify` -/

/-- The `while` loop of `do_tabify` after a space at `offset` that does not
reach a tab stop: the spaces up to a tab stop become a TAB; before a TAB, the
spaces are deleted. The buffer, the scan offset, the end of the region and the
column after it. -/
def tabifyRun : Nat → EditBuffer → Int → Int → Int → Int → Option (EditBuffer × Int × Int × Int)
  | 0, _, _, _, _, _ => none
  | fuel + 1, b, offset, offset1, stop, col =>
    if offset1 < stop then
      let (c, offset2, b) := ebNextc b offset1
      if c = 0x20 then
        let col := col + 1
        if col.tmod tw = 0 then
          let (d1, b) := ebDeleteRange b offset offset2
          let (d2, b) := ebInsertChar32 b offset 9
          let delta := -d1 + d2
          some (b, offset2 + delta, stop + delta, col)
        else tabifyRun fuel b offset offset2 stop col
      else if c = 9 then
        let col := nextTabStop tw col
        let (d1, b) := ebDeleteRange b offset offset1
        some (b, offset2 - d1, stop - d1, col)
      else some (b, offset1, stop, col)
    else some (b, offset1, stop, col)

/-- The main loop of `do_tabify`. -/
def tabifyLoop : Nat → EditBuffer → Int → Int → Int → Option EditBuffer
  | 0, _, _, _, _ => none
  | fuel + 1, b, offset, stop, col =>
    if offset < stop then
      let (c, offset1, b) := ebNextc b offset
      if c = 13 ∨ c = 10 then tabifyLoop fuel b offset1 stop 0
      else if c = 9 then tabifyLoop fuel b offset1 stop (nextTabStop tw col)
      else
        let col := col + wcwidth c
        -- a space before the region, or one that reaches a tab stop, stays
        if c ≠ 0x20 ∨ offset < start ∨ col.tmod tw = 0 then tabifyLoop fuel b offset1 stop col
        else
          match tabifyRun tw fuel b offset offset1 stop col with
          | none => none
          | some (b, offset1, stop, col) => tabifyLoop fuel b offset1 stop col
    else some b

end Scans

/-- The region of `do_tabify` and `do_untabify`: its bounds in either order,
clipped to the buffer. -/
def tabRegion (b : EditBuffer) (p1 p2 : Int) : Int × Int :=
  (max 0 (min p1 p2), min b.totalSize (max p1 p2))

/-- `do_untabify` on the region between `p1` and `p2`, from the start of the
line of its start. The region highlighting goes off, and the point and the
mark follow the edits. -/
def doUntabify (fuel : Nat) (wcwidth : UInt32 → Int) (tabWidth : Int) (s : EditState)
    (p1 p2 : Int) : Option EditState := do
  let (start, stop) := tabRegion s.b p1 p2
  let s := { s with regionStyle := 0 }
  let (offset, b) ← ebGotoBol fuel s.b start
  let b ← untabifyLoop wcwidth (tabWidthOf tabWidth) start fuel b offset stop 0
  return s.withBuffer b

/-- `do_tabify` on the region between `p1` and `p2`. -/
def doTabify (fuel : Nat) (wcwidth : UInt32 → Int) (tabWidth : Int) (s : EditState)
    (p1 p2 : Int) : Option EditState := do
  let (start, stop) := tabRegion s.b p1 p2
  let s := { s with regionStyle := 0 }
  let (offset, b) ← ebGotoBol fuel s.b start
  let b ← tabifyLoop wcwidth (tabWidthOf tabWidth) start fuel b offset stop 0
  return s.withBuffer b

/-! ## A run of TABs across the end of the region -/

unseal lineScan deleteLoop shiftLoop utf8Cols in
/-- The region `[0, 1)` of `"\t\t"` holds the first TAB only; `do_untabify`
reads the second with it and replaces both by 16 spaces, though the second is
past the region. The run reads no character other than TAB, so `qe_wcwidth` is
never called. -/
theorem doUntabify_passes_region :
    ((doUntabify 50 (fun _ => 1) 8 ⟨ebMmapBuffer (EditBuffer.empty charset_raw .unix) [9, 9], 0, 0, 0⟩
        0 1).map (·.b.content)) = some (List.replicate 16 0x20) := by
  decide

end Qemacs
