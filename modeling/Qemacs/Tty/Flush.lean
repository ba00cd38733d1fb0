import Mathlib
import Qemacs.Tty.CombAlloc
import Qemacs.Lib.Mirror

/-!
# Flushing the screen array to the terminal

`tty_dpy_flush` sends the terminal the rows that `line_updated` marks. The screen array is
followed in memory by its shadow, the cells as the terminal was last sent them, and by one loop
guard cell. For each marked row the flush finds the first cell that differs from its shadow
with a scan that does not test the end of the row: it first writes into the shadow cell after
the row a value that differs from the cell after the row (`TTYChar.succ`), so the scan stops
there at the latest, and then puts the guard back. It then finds the last difference, and may
replace a trailing run of blanks by an erase to the end of the line. Every cell in between is
copied to its shadow and written out, with the cursor moves, the attribute changes and the
bytes of its glyph; the cells the erase covers get the blank in their shadow.

* `flushRow_copy`: after a marked row the shadow of each of its cells is the cell, and nothing
  else of the memory has changed;
* `flushRows_copy`: after the rows, the shadow of every cell of a marked row is the cell, the
  other shadow cells are as they were, and no row is marked;
* `ttyDpyFlush_spec`: the same for the whole flush of a display, which also cleans the cache.
-/

namespace Qemacs

/-! ## Cells as the flush reads them -/

/-- `TTY_CHAR_GET_FG(cc)`: the foreground colour without the attribute bits. -/
def ttyCharGetFg (cc : TTYChar) : Nat := cc.fg &&& 0x1FFF

/-- `TTY_CHAR_GET_BG(cc)`. -/
def ttyCharGetBg (cc : TTYChar) : Nat := cc.bg &&& 0x1FFF

/-- `TTY_CHAR_GET_COL(cc)`: the foreground with its attribute bits and the background, the
high word of the cell. -/
def ttyCharGetCol (cc : TTYChar) : Nat := cc.fg ||| cc.bg <<< 17

def TTY_BOLD : Nat := 0x02000
def TTY_UNDERLINE : Nat := 0x04000
def TTY_ITALIC : Nat := 0x08000
def TTY_BLINK : Nat := 0x10000

/-- `cc + 1` on the 64-bit cell: the code point is the low word and carries into the colours.
(The carry of the foreground into the background is left out: the loop guard only has to
differ from the cell.) -/
def TTYChar.succ (cc : TTYChar) : TTYChar :=
  if cc.ch = 0xFFFFFFFF then { cc with ch := 0, fg := cc.fg + 1 } else { cc with ch := cc.ch + 1 }

theorem TTYChar.succ_ne (cc : TTYChar) : cc.succ ≠ cc := by
  unfold TTYChar.succ
  split
  · intro h
    have := congrArg TTYChar.fg h
    simp at this
  · rename_i hne
    intro h
    have h' := congrArg TTYChar.ch h
    apply hne
    have := UInt32.toNat_lt cc.ch
    simp only [UInt32.ext_iff, UInt32.toNat_add, UInt32.toNat_one] at h' ⊢
    have : (0xFFFFFFFF : UInt32).toNat = 4294967295 := rfl
    rw [this]
    omega

/-! ## What the flush reads besides the arrays -/

/-- The terminal's kind and flags, its colour counts, the charset of the screen and the
position of the cursor. -/
structure TTYOutput where
  /-- `ts->term_code == TERM_CYGWIN`. -/
  cygwin : Bool
  /-- `ts->term_flags & USE_ERASE_END_OF_LINE`. -/
  eraseEol : Bool
  /-- `ts->term_flags & USE_BLINK_AS_BRIGHT_BG`. -/
  blinkAsBrightBg : Bool
  /-- `ts->term_flags & USE_BOLD_AS_BRIGHT_FG`. -/
  boldAsBrightFg : Bool
  /-- `ts->term_fg_colors_count`. -/
  fgColorsCount : Nat
  /-- `ts->term_bg_colors_count`. -/
  bgColorsCount : Nat
  /-- `qe_unmap_color(c, ts->tty_fg_colors_count)`. -/
  unmapFg : Nat → UInt32
  /-- `qe_unmap_color(c, ts->tty_bg_colors_count)`. -/
  unmapBg : Nat → UInt32
  /-- `s->charset->encode_func`, `none` where it returns `NULL`. -/
  encode : UInt32 → Option (List UInt8)
  /-- `s->charset == &charset_8859_1`. -/
  latin1 : Bool
  /-- `qe_wcwidth_variant`. -/
  variant : UInt32 → Bool
  /-- The width table of `tty_term_glyph_width`. -/
  tbl : UInt32 → Nat
  cursorX : Int
  cursorY : Int

/-! ## Bytes -/

/-- The bytes of an ASCII text. -/
def asciiBytes (s : String) : List UInt8 := s.toList.map fun c => c.toNat.toUInt8

/-- `%d` of a number. -/
def decBytes (n : Int) : List UInt8 := asciiBytes (toString n)

/-- `"\033[%d;%dH"`: the cursor to a row and a column, from 1. -/
def cupBytes (row col : Int) : List UInt8 :=
  asciiBytes "\x1b[" ++ decBytes row ++ asciiBytes ";" ++ decBytes col ++ asciiBytes "H"

/-- `"\033[%s;2;%u;%u;%um"` for a colour `rgb`. -/
def rgbBytes (sel : String) (rgb : UInt32) : List UInt8 :=
  asciiBytes ("\x1b[" ++ sel ++ ";2;") ++ decBytes ((rgb >>> 16) &&& 255).toNat ++ asciiBytes ";" ++
    decBytes ((rgb >>> 8) &&& 255).toNat ++ asciiBytes ";" ++ decBytes (rgb &&& 255).toNat ++
    asciiBytes "m"

/-- The bytes for a change of the background from `lastbg` to `bg`. -/
def sgrBg (t : TTYOutput) (lastbg : Int) (bg : Nat) : List UInt8 :=
  if t.bgColorsCount > 256 ∧ bg ≥ 256 then rgbBytes "48" (t.unmapBg bg)
  else if t.bgColorsCount > 16 ∧ bg ≥ 16 then
    asciiBytes "\x1b[48;5;" ++ decBytes bg ++ asciiBytes "m"
  else if t.blinkAsBrightBg then
    (if bg > 7 then (if lastbg ≤ 7 then asciiBytes "\x1b[5m" else [])
      else if lastbg > 7 then asciiBytes "\x1b[25m" else []) ++
    asciiBytes "\x1b[" ++ decBytes ↑(40 + (bg &&& 7)) ++ asciiBytes "m"
  else asciiBytes "\x1b[" ++ decBytes (if bg > 7 then 100 + bg - 8 else 40 + bg) ++ asciiBytes "m"

/-- The bytes for a change of the foreground from `lastfg` to `fg`. -/
def sgrFg (t : TTYOutput) (lastfg : Int) (fg : Nat) : List UInt8 :=
  if t.fgColorsCount > 256 ∧ fg ≥ 256 then rgbBytes "38" (t.unmapFg fg)
  else if t.fgColorsCount > 16 ∧ fg ≥ 16 then
    asciiBytes "\x1b[38;5;" ++ decBytes fg ++ asciiBytes "m"
  else if t.boldAsBrightFg then
    (if fg > 7 then (if lastfg ≤ 7 then asciiBytes "\x1b[1m" else [])
      else if lastfg > 7 then asciiBytes "\x1b[22m" else []) ++
    asciiBytes "\x1b[" ++ decBytes ↑(30 + (fg &&& 7)) ++ asciiBytes "m"
  else asciiBytes "\x1b[" ++ decBytes (if fg > 8 then 90 + fg - 8 else 30 + fg) ++ asciiBytes "m"

/-- The bytes for one attribute bit that differs between `lastattr` and `attr`. -/
def sgrBit (lastattr attr bit : Nat) (on off : String) : List UInt8 :=
  if (attr ^^^ lastattr) &&& bit ≠ 0 then asciiBytes (if attr &&& bit ≠ 0 then on else off) else []

/-- The bytes for a change of the attribute bits from `lastattr` to `attr`. -/
def sgrAttr (lastattr attr : Nat) : List UInt8 :=
  sgrBit lastattr attr TTY_BOLD "\x1b[1m" "\x1b[22m" ++
    sgrBit lastattr attr TTY_UNDERLINE "\x1b[4m" "\x1b[24m" ++
    sgrBit lastattr attr TTY_BLINK "\x1b[5m" "\x1b[25m" ++
    sgrBit lastattr attr TTY_ITALIC "\x1b[3m" "\x1b[23m"

/-! ## One cell -/

/-- What the flush has written, and the state of the terminal as it has set it: `bgcolor`,
`fgcolor`, `attr`, `shifted` (the line drawing set is selected) and `gotopos` (the cursor
must be placed before the next glyph). -/
structure TermOut where
  out : List UInt8
  bgcolor : Int
  fgcolor : Int
  attr : Nat
  shifted : Bool
  gotopos : Bool

/-- The attribute changes before a glyph. -/
def attrOut (t : TTYOutput) (cc : TTYChar) (o : TermOut) : TermOut :=
  let bg := ttyCharGetBg cc
  let o := if o.bgcolor ≠ bg then { o with out := o.out ++ sgrBg t o.bgcolor bg, bgcolor := bg } else o
  let fg := ttyCharGetFg cc
  let o := if o.fgcolor ≠ fg then { o with out := o.out ++ sgrFg t o.fgcolor fg, fgcolor := fg } else o
  let col := ttyCharGetCol cc
  if o.attr ≠ col then { o with out := o.out ++ sgrAttr o.attr col, attr := col } else o

/-- `int ch = TTY_CHAR_GET_CH(cc)`: code points from `2^31` on are negative. -/
def signedCh (ch : UInt32) : Int := if ch.toNat < 2 ^ 31 then ch.toNat else ch.toNat - 2 ^ 32

/-- The characters that stand for the line drawing glyphs on a cygwin console. -/
def unitabXtermPoorman : List UInt8 := asciiBytes "*#****o~**+++++-----++++|****L. "

/-- The code points of a combination: `while (ncc-- > 1)`, each encoded, and the cursor placed
again after one with variants or one the charset cannot encode. -/
def combOut (t : TTYOutput) : List UInt32 → Bool → List UInt8 × Bool
  | [], gotopos => ([], gotopos)
  | c :: cs, gotopos =>
    match t.encode c with
    | some q =>
      let (rest, g) := combOut t cs (gotopos || t.variant c)
      (q ++ rest, g)
    | none => combOut t cs true

/-- The bytes of the glyph of code point `ch`, with `shifted` and `gotopos` after it: a dot for
a control character, the byte of an ASCII character, the line drawing set for `[128, 160)`, the
combination for a code of the cache, and else the charset's encoding, or question marks. -/
def glyphOut (t : TTYOutput) (cache : List UInt32) (ch : UInt32) (shifted gotopos : Bool) :
    List UInt8 × Bool × Bool :=
  let c := signedCh ch
  if c < 32 ∨ c = 127 then ([0x2E], shifted, gotopos)
  else if c < 127 then ([ch.toUInt8], shifted, gotopos)
  else if c < 128 + 32 then
    if t.cygwin then ([unitabXtermPoorman.getD (c - 128).toNat 0], shifted, gotopos)
    else ((if shifted then [] else asciiBytes "\x1b(0") ++ [(ch - 32).toUInt8], true, gotopos)
  else if TTY_CHAR_COMB.toNat ≤ c ∧ c < TTY_CHAR_COMB.toNat + COMB_CACHE_SIZE - 1 then
    match combSequence cache (ch - TTY_CHAR_COMB).toNat with
    | some seq =>
      let (q, g) := combOut t seq gotopos
      (q, shifted, g)
    -- an invalid offset: only the cursor is placed again
    | none => ([], shifted, true)
  else
    match t.encode ch with
    | some q => (q, shifted, gotopos || t.variant ch)
    | none =>
      ((if t.latin1 then [0xBF] else [0x3F]) ++
        (if ttyTermGlyphWidth t.tbl ch = 2 then [0x3F] else []), shifted, gotopos)

/-- The output for a cell that is not a placeholder, at column `col` (from 1) of row `row`
(from 0). -/
def cellOut (t : TTYOutput) (cache : List UInt32) (row col : Nat) (cc : TTYChar) (o : TermOut) :
    TermOut :=
  let o := if o.gotopos then { o with gotopos := false, out := o.out ++ cupBytes (row + 1) col } else o
  let o := attrOut t cc o
  let ch := signedCh cc.ch
  -- leave the line drawing set for a glyph outside it
  let o := if o.shifted ∧ (ch < 128 ∨ ch ≥ 128 + 32) then
    { o with out := o.out ++ asciiBytes "\x1b(B", shifted := false } else o
  let (bytes, shifted, gotopos) := glyphOut t cache cc.ch o.shifted o.gotopos
  { o with out := o.out ++ bytes, shifted := shifted, gotopos := gotopos }

/-! ## One row -/

/-- The memory the flush works on: the screen, the shadow from offset `n` on, and the loop guard
at `2 n`; and the output. -/
structure FlushState where
  mem : List TTYChar
  term : TermOut

/-- One turn of the output loop at cell `i` of row `row`, which starts at `start`: the cell is
copied to its shadow and, unless it is the placeholder after a wide glyph, written out. -/
def flushCell (t : TTYOutput) (cache : List UInt32) (n row start i : Nat) (st : FlushState) :
    FlushState :=
  let cc := st.mem.getD i TTY_CHAR_DEFAULT
  { mem := st.mem.set (i + n) cc,
    term := if cc.ch = TTY_CHAR_NONE then st.term else cellOut t cache row (i + 1 - start) cc st.term }

/-- `while (ptr1 < ptr4)`: `k` cells from `i` on. -/
def flushCells (t : TTYOutput) (cache : List UInt32) (n row start : Nat) :
    Nat → Nat → FlushState → FlushState
  | 0, _, st => st
  | k + 1, i, st => flushCells t cache n row start k (i + 1) (flushCell t cache n row start i st)

/-- `while (ptr1[0] == ptr1[shadow]) ptr1++`: the walk up to the first cell from `i` on that
differs from its shadow, `none` if there is none within `fuel` cells. -/
def scanFwd (mem : List TTYChar) (n : Nat) : Nat → Nat → Option Nat :=
  Layout.walk (fun i => mem[i]? != mem[i + n]?) (· + 1)

/-- `while (ptr2[-1] == ptr2[shadow - 1]) --ptr2`: the walk down to the end of the last
difference before `i`, `none` if there is none within `fuel` cells. -/
def scanBack (mem : List TTYChar) (n : Nat) : Nat → Nat → Option Nat :=
  Layout.walk (fun i => mem[i - 1]? != mem[i - 1 + n]?) (· - 1)

/-- `while (ptr3 > ptr1 && ptr3[-1] == blankcc) --ptr3`: the start of the run of `blank` cells
that ends at `i`, not left of `lo`. -/
def blankStart (mem : List TTYChar) (lo : Nat) (blank : TTYChar) : Nat → Nat
  | 0 => 0
  | i + 1 => if lo < i + 1 ∧ mem[i]? = some blank then blankStart mem lo blank i else i + 1

/-- `ptr4`: where the glyphs of the row stop and the erase to the end of the line starts, or the
end of the last difference `p2` when the line is not erased. The erase is used when the last
difference is a space on one of the eight first backgrounds and the row ends in a run of more
than three blanks in the colours of its last cell after it; it starts one cell later when that
run is the whole difference or changes background at its first cell. -/
def eraseFrom (t : TTYOutput) (mem : List TTYChar) (p1 p2 stop : Nat) : Nat :=
  let last := mem.getD (p2 - 1) TTY_CHAR_DEFAULT
  if t.eraseEol ∧ last.ch = 0x20 ∧ ttyCharGetBg last < 8 then
    -- `TTY_CHAR2(' ', TTY_CHAR_GET_COL(ptr3[-1]))`
    let blank : TTYChar := { mem.getD (stop - 1) TTY_CHAR_DEFAULT with ch := 0x20 }
    let p3 := blankStart mem p1 blank stop
    if p2 > p3 + 3 then
      if p3 = p1 ∨ ttyCharGetBg (mem.getD p3 TTY_CHAR_DEFAULT) ≠
          ttyCharGetBg (mem.getD (p3 - 1) TTY_CHAR_DEFAULT) then p3 + 1
      else p3
    else p2
  else p2

/-- `ptr1[shadow] = cc` for the `k` cells from `i` on. -/
def fillShadow (n : Nat) (cc : TTYChar) : Nat → Nat → List TTYChar → List TTYChar
  | 0, _, mem => mem
  | k + 1, i, mem => fillShadow n cc k (i + 1) (mem.set (i + n) cc)

/-- The erase to the end of the line, from cell `p4`, when there are differences left there. -/
def eraseOut (n row start p4 p2 : Nat) (st : FlushState) : FlushState :=
  if p4 < p2 then
    let cc := st.mem.getD p4 TTY_CHAR_DEFAULT
    let o := st.term
    let o := if o.gotopos then { o with gotopos := false, out := o.out ++ cupBytes (row + 1) (p4 - start) }
      else o
    { mem := fillShadow n cc (p2 - p4) p4 st.mem, term := { o with out := o.out ++ asciiBytes "\x1b[K" } }
  else st

/-- The first cell of the row `[start, stop)` that differs from its shadow, or `stop`, with the
memory after: `cc = ptr2[shadow]; ptr2[shadow] = ptr2[0] + 1;`, the scan, and
`ptr2[shadow] = cc`. -/
def firstDiff (mem : List TTYChar) (n start stop : Nat) : Option (Nat × List TTYChar) := do
  let guard := mem.getD (stop + n) TTY_CHAR_DEFAULT
  let mem := mem.set (stop + n) (mem.getD stop TTY_CHAR_DEFAULT).succ
  let p1 ← scanFwd mem n (stop - start + 1) start
  return (p1, mem.set (stop + n) guard)

/-- The end of a row whose first difference is at `p1`: the last difference, the glyphs up to
the erase, the line drawing set left, the erase, and the attributes reset after a bright
background. -/
def flushDiff (t : TTYOutput) (cache : List UInt32) (n row start stop p1 : Nat) (st : FlushState) :
    Option FlushState := do
  let p2 ← scanBack st.mem n (stop - start + 1) stop
  let p4 := eraseFrom t st.mem p1 p2 stop
  let st := flushCells t cache n row start (p4 - p1) p1 { st with term := { st.term with gotopos := true } }
  let st := if st.term.shifted then
    { st with term := { st.term with out := st.term.out ++ asciiBytes "\x1b(B", shifted := false } }
    else st
  let st := eraseOut n row start p4 p2 st
  return if st.term.bgcolor > 7 then
    { st with term := { st.term with out := st.term.out ++ asciiBytes "\x1b[0m",
                                      fgcolor := -1, bgcolor := -1, attr := 0 } }
    else st

/-- Row `row` of `tty_dpy_flush`, of `width` cells, once its `line_updated` entry is cleared. The
screen has `n` cells. -/
def flushRow (t : TTYOutput) (cache : List UInt32) (n width row : Nat) (st : FlushState) :
    Option FlushState := do
  let start := row * width
  let stop := start + width
  let (p1, mem) ← firstDiff st.mem n start stop
  -- `if (ptr1 == ptr2) continue;`
  if p1 = stop then return { st with mem := mem }
  flushDiff t cache n row start stop p1 { st with mem := mem }

/-- `for (y = 0; y < s->height; y++)`: the `k` rows from `row` on, with `line_updated`. -/
def flushRows (t : TTYOutput) (cache : List UInt32) (n width : Nat) :
    Nat → Nat → List Bool → FlushState → Option (List Bool × FlushState)
  | 0, _, lu, st => some (lu, st)
  | k + 1, row, lu, st =>
    if lu.getD row false then do
      let st ← flushRow t cache n width row st
      flushRows t cache n width k (row + 1) (lu.set row false) st
    else flushRows t cache n width k (row + 1) lu st

/-! ## The shadow after a row

The memory is the screen followed by its mirror, the shadow (`Mirror.Copy`). A row ends with
the shadow of each of its cells equal to the cell: the cells before the first difference and
after the last one had it already, the output loop copies each cell it goes over, and the erase
to the end of the line writes into the shadows it covers the blank that every one of these
cells holds. -/

section Scans

variable {mem : List TTYChar} {n : Nat}

/-- The loop guard stops the scan at the end of the row, and once it is put back the memory is
as it was: the scan finds the first difference of the row, or the end of the row. -/
theorem firstDiff_spec (mem : List TTYChar) (n start stop : Nat) (hn : 0 < n) (hss : start ≤ stop)
    (hlen : stop + n < mem.length) :
    ∃ p1, firstDiff mem n start stop = some (p1, mem) ∧ start ≤ p1 ∧ p1 ≤ stop ∧
      (∀ j, start ≤ j → j < p1 → mem[j]? = mem[j + n]?) ∧ (p1 < stop → mem[p1]? ≠ mem[p1 + n]?) := by
  have hset : ∀ j, j ≠ stop + n →
      (mem.set (stop + n) (mem.getD stop TTY_CHAR_DEFAULT).succ)[j]? = mem[j]? :=
    fun j hj => List.getElem?_set_ne (Ne.symm hj)
  -- the guard differs from the cell after the row
  have hguard : ((mem.set (stop + n) (mem.getD stop TTY_CHAR_DEFAULT).succ)[stop]? !=
      (mem.set (stop + n) (mem.getD stop TTY_CHAR_DEFAULT).succ)[stop + n]?) = true := by
    rw [hset stop (by omega), List.getElem?_set_self hlen, List.getD_eq_getElem?_getD,
      List.getElem?_eq_getElem (by omega), Option.getD_some, bne_iff_ne, ne_eq, Option.some.injEq]
    exact (TTYChar.succ_ne _).symm
  obtain ⟨p1, hp1, hlo, hhi, hdiff, hbefore⟩ :=
    Layout.walk_succ (fun i => (mem.set (stop + n) (mem.getD stop TTY_CHAR_DEFAULT).succ)[i]? !=
      (mem.set (stop + n) (mem.getD stop TTY_CHAR_DEFAULT).succ)[i + n]?) (stop - start + 1) start
      ⟨stop, hss, by omega, hguard⟩
  have hscan : scanFwd (mem.set (stop + n) (mem.getD stop TTY_CHAR_DEFAULT).succ) n
      (stop - start + 1) start = some p1 := hp1
  have hrestore : (mem.set (stop + n) (mem.getD stop TTY_CHAR_DEFAULT).succ).set (stop + n)
      (mem.getD (stop + n) TTY_CHAR_DEFAULT) = mem := by
    rw [List.set_set, List.getD_eq_getElem?_getD, List.getElem?_eq_getElem hlen, Option.getD_some,
      List.set_getElem_self]
  refine ⟨p1, ?_, hlo, by omega, fun j hj1 hj2 => ?_, fun hp => ?_⟩
  · simp only [firstDiff, hscan, hrestore]
    rfl
  · have h := hbefore j hj1 hj2
    rw [bne_eq_false_iff_eq, hset j (by omega), hset (j + n) (by omega)] at h
    exact h
  · rw [bne_iff_ne, hset p1 (by omega), hset (p1 + n) (by omega)] at hdiff
    exact hdiff

/-- The scan back from the end of the row stops after the last difference, which the first
difference bounds: the scan needs no test on the start of the row. -/
theorem scanBack_spec {p1 stop : Nat} (fuel : Nat) (h1 : p1 < stop) (hfuel : stop - p1 ≤ fuel)
    (hdiff : mem[p1]? ≠ mem[p1 + n]?) :
    ∃ p2, scanBack mem n fuel stop = some p2 ∧ p1 < p2 ∧ p2 ≤ stop ∧
      (∀ j, p2 ≤ j → j < stop → mem[j]? = mem[j + n]?) := by
  have hstop1 : (mem[p1 + 1 - 1]? != mem[p1 + 1 - 1 + n]?) = true := by
    rw [Nat.add_sub_cancel, bne_iff_ne]
    exact hdiff
  obtain ⟨p2, hp2, hhi, hs, hafter⟩ :=
    Layout.walk_pred (fun i => mem[i - 1]? != mem[i - 1 + n]?) fuel stop
      ⟨p1 + 1, by omega, by omega, hstop1⟩
  have hlo : p1 < p2 := by
    by_contra hle
    have := hafter (p1 + 1) (by omega) (by omega)
    rw [hstop1] at this
    cases this
  refine ⟨p2, hp2, hlo, hhi, fun j hj1 hj2 => ?_⟩
  have h := hafter (j + 1) (by omega) (by omega)
  rw [Nat.add_sub_cancel, bne_eq_false_iff_eq] at h
  exact h

/-- The run of blanks that ends at `i`, not left of `lo`. -/
theorem blankStart_spec (mem : List TTYChar) (lo : Nat) (blank : TTYChar) :
    ∀ i, blankStart mem lo blank i ≤ i ∧ (lo ≤ i → lo ≤ blankStart mem lo blank i) ∧
      ∀ j, blankStart mem lo blank i ≤ j → j < i → mem[j]? = some blank
  | 0 => ⟨le_refl 0, fun h => h, fun j _ hj => absurd hj (Nat.not_lt_zero j)⟩
  | i + 1 => by
    rw [blankStart]
    split
    · rename_i h
      obtain ⟨hle, hlo, hrun⟩ := blankStart_spec mem lo blank i
      refine ⟨by omega, fun _ => hlo (by omega), fun j hj1 hj2 => ?_⟩
      by_cases hji : j = i
      · rw [hji]
        exact h.2
      · exact hrun j hj1 (by omega)
    · exact ⟨le_refl _, fun h => h, fun j hj1 hj2 => absurd hj2 (by omega)⟩

/-- Where the erase starts: between the first and the last difference, and the cells it covers
all hold the cell it starts at. -/
theorem eraseFrom_spec (t : TTYOutput) (mem : List TTYChar) {p1 p2 stop : Nat} (h12 : p1 < p2) (h2 : p2 ≤ stop) :
    p1 ≤ eraseFrom t mem p1 p2 stop ∧ eraseFrom t mem p1 p2 stop ≤ p2 ∧
      (eraseFrom t mem p1 p2 stop < p2 → ∀ j, eraseFrom t mem p1 p2 stop ≤ j → j < p2 →
        mem[j]? = mem[eraseFrom t mem p1 p2 stop]?) := by
  dsimp only [eraseFrom]
  split
  · generalize ({ mem.getD (stop - 1) TTY_CHAR_DEFAULT with ch := 0x20 } : TTYChar) = blank
    obtain ⟨hle, hlo, hrun⟩ := blankStart_spec mem p1 blank stop
    have hlo' := hlo (by omega)
    split
    · -- the erase starts in the run of blanks, at its start or one cell later
      have hp4 : ∀ p4, blankStart mem p1 blank stop ≤ p4 → p4 < p2 →
          ∀ j, p4 ≤ j → j < p2 → mem[j]? = mem[p4]? := fun p4 h1 h2 j hj1 hj2 => by
        rw [hrun j (by omega) (by omega), hrun p4 h1 (by omega)]
      split
      · exact ⟨by omega, by omega, fun h => hp4 _ (by omega) h⟩
      · exact ⟨hlo', by omega, fun h => hp4 _ (le_refl _) h⟩
    · exact ⟨by omega, le_refl _, fun h => absurd h (lt_irrefl _)⟩
  · exact ⟨by omega, le_refl _, fun h => absurd h (lt_irrefl _)⟩

end Scans

section Rows

variable (t : TTYOutput) (cache : List UInt32) {n : Nat}

/-- The output loop copies each cell it goes over to its shadow. -/
theorem flushCells_copy (row start : Nat) :
    ∀ (k i : Nat) (st : FlushState), i + k ≤ n → 2 * n ≤ st.mem.length →
      Mirror.Copy n (fun j => decide (i ≤ j ∧ j < i + k)) st.mem
        (flushCells t cache n row start k i st).mem
  | 0, i, st, _, _ => Mirror.Copy.nil i
  | k + 1, i, st, hk, hlen => by
    have hv : st.mem[i]? = some (st.mem.getD i TTY_CHAR_DEFAULT) := by
      rw [List.getD_eq_getElem?_getD, List.getElem?_eq_getElem (by omega)]
      rfl
    have h₁ := Mirror.Copy.set (n := n) hv (by omega) (by omega)
    have h₂ := flushCells_copy row start k (i + 1) (flushCell t cache n row start i st) (by omega)
      (by simp [flushCell]; omega)
    rw [show i + (k + 1) = i + 1 + k by omega]
    exact h₁.append h₂ (by omega) (by omega) (by omega)

/-- The erase to the end of the line sets the shadows it covers to the cell it starts at. -/
theorem fillShadow_copy (cc : TTYChar) :
    ∀ (k i : Nat) (mem : List TTYChar), i + k ≤ n → 2 * n ≤ mem.length →
      (∀ j, i ≤ j → j < i + k → mem[j]? = some cc) →
      Mirror.Copy n (fun j => decide (i ≤ j ∧ j < i + k)) mem (fillShadow n cc k i mem)
  | 0, i, mem, _, _, _ => Mirror.Copy.nil i
  | k + 1, i, mem, hk, hlen, hcc => by
    have h₁ := Mirror.Copy.set (n := n) (hcc i (le_refl i) (by omega)) (by omega) (by omega)
    have h₂ := fillShadow_copy cc k (i + 1) (mem.set (i + n) cc) (by omega) (by simp; omega)
      fun j hj1 hj2 => by rw [List.getElem?_set_ne (by omega)]; exact hcc j (by omega) (by omega)
    rw [show i + (k + 1) = i + 1 + k by omega]
    exact h₁.append h₂ (by omega) (by omega) (by omega)

/-- The erase writes bytes and the shadows it covers. -/
theorem eraseOut_mem {row start p4 p2 : Nat} (st : FlushState) :
    (eraseOut n row start p4 p2 st).mem =
      if p4 < p2 then fillShadow n (st.mem.getD p4 TTY_CHAR_DEFAULT) (p2 - p4) p4 st.mem
      else st.mem := by
  unfold eraseOut
  split <;> rfl

/-- The erase to the end of the line sets the shadows of `[p4, p2)` when all these cells hold
the cell it starts at. -/
theorem eraseOut_copy (row start : Nat) {p4 p2 : Nat} (st : FlushState) (h42 : p4 ≤ p2) (h2 : p2 ≤ n)
    (hlen : 2 * n ≤ st.mem.length)
    (hrun : p4 < p2 → ∀ j, p4 ≤ j → j < p2 → st.mem[j]? = st.mem[p4]?) :
    Mirror.Copy n (fun j => decide (p4 ≤ j ∧ j < p2)) st.mem (eraseOut n row start p4 p2 st).mem := by
  rw [eraseOut_mem]
  split
  · rename_i h
    have hcc : ∀ j, p4 ≤ j → j < p4 + (p2 - p4) →
        st.mem[j]? = some (st.mem.getD p4 TTY_CHAR_DEFAULT) := fun j hj1 hj2 => by
      rw [hrun h j hj1 (by omega), List.getD_eq_getElem?_getD, List.getElem?_eq_getElem (by omega)]
      rfl
    have hfill := fillShadow_copy (st.mem.getD p4 TTY_CHAR_DEFAULT) (p2 - p4) p4 st.mem
      (by omega) hlen hcc
    rwa [Nat.add_sub_cancel' h42] at hfill
  · obtain rfl : p4 = p2 := by omega
    exact Mirror.Copy.nil p4

/-- A row with a difference at `p1`: the output loop sets the shadows of the cells up to the
erase, the erase those after, and the cells past the last difference had their shadow already. -/
theorem flushDiff_copy (row : Nat) {start stop p1 : Nat} (st : FlushState) (h1 : start ≤ p1)
    (h1s : p1 < stop) (hstop : stop ≤ n) (hlen : 2 * n ≤ st.mem.length)
    (hdiff : st.mem[p1]? ≠ st.mem[p1 + n]?) :
    ∃ st', flushDiff t cache n row start stop p1 st = some st' ∧
      Mirror.Copy n (fun j => decide (p1 ≤ j ∧ j < stop)) st.mem st'.mem := by
  obtain ⟨p2, hp2, h12, h2s, hafter⟩ := scanBack_spec (stop - start + 1) h1s (by omega) hdiff
  obtain ⟨h14, h42, hrun⟩ := eraseFrom_spec t st.mem h12 h2s
  rw [flushDiff, hp2]
  refine ⟨_, rfl, ?_⟩
  -- the line drawing set and the attributes reset only write bytes
  simp only [apply_ite FlushState.mem, ite_self, eraseOut_mem]
  generalize eraseFrom t st.mem p1 p2 stop = p4 at h14 h42 hrun
  have hC := flushCells_copy t cache (n := n) row start (p4 - p1) p1
    { st with term := { st.term with gotopos := true } } (by omega) hlen
  rw [Nat.add_sub_cancel' h14] at hC
  generalize flushCells t cache n row start (p4 - p1) p1
    { st with term := { st.term with gotopos := true } } = stC at hC
  -- the erase reads the cells the output loop left as they were
  have hE := eraseOut_copy (n := n) row start stC h42 (by omega)
    (by rw [hC.length_eq]; exact hlen) fun h j hj1 hj2 => by
      rw [hC.orig_eq j (by omega), hC.orig_eq p4 (by omega)]
      exact hrun h j hj1 hj2
  rw [eraseOut_mem] at hE
  exact (hC.append hE h14 h42 (by omega)).widen_right h2s hafter

/-- The cells of row `row` of a screen `width` cells wide. -/
theorem cell_row_iff {width row j : Nat} (hw : 0 < width) :
    (row * width ≤ j ∧ j < row * width + width) ↔ j / width = row := by
  rw [← Nat.succ_mul, ← Nat.le_div_iff_mul_le hw, ← Nat.div_lt_iff_lt_mul hw]
  omega

/-- A row leaves the shadow of each of its cells equal to the cell, and the screen and the other
shadows as they were. -/
theorem flushRow_copy {width row : Nat} (st : FlushState) (hw : 0 < width)
    (hrow : (row + 1) * width ≤ n) (hlen : st.mem.length = 2 * n + 1) :
    ∃ st', flushRow t cache n width row st = some st' ∧
      Mirror.Copy n (fun j => decide (row * width ≤ j ∧ j < row * width + width)) st.mem st'.mem := by
  have hn : row * width + width ≤ n := by rwa [← Nat.succ_mul]
  obtain ⟨p1, hfd, hlo, hhi, heq, hdiff⟩ :=
    firstDiff_spec st.mem n (row * width) (row * width + width) (by omega) (by omega) (by omega)
  rw [flushRow, hfd]
  by_cases hp : p1 = row * width + width
  · -- `ptr1 == ptr2`: the row was up to date
    refine ⟨{ st with mem := st.mem }, by simp only [Option.bind_eq_bind, Option.bind_some, hp, if_pos]; rfl, ?_⟩
    exact (Mirror.Copy.nil (row * width)).widen_right (by omega) fun j hj1 hj2 => heq j hj1 (by omega)
  · obtain ⟨st', hst', hsh⟩ := flushDiff_copy t cache (n := n) row st hlo
      (by omega) hn (by omega) (hdiff (by omega))
    refine ⟨st', by simp only [Option.bind_eq_bind, Option.bind_some, if_neg hp]; exact hst',
      hsh.widen_left hlo heq⟩

theorem getD_set_false (lu : List Bool) (row y : Nat) :
    (lu.set row false).getD y false = (lu.getD y false && y != row) := by
  rw [List.getD_eq_getElem?_getD, List.getD_eq_getElem?_getD, List.getElem?_set]
  by_cases h : row = y
  · subst h
    rw [if_pos rfl]
    split <;> simp
  · simp [h, Ne.symm h]

/-- The rows loop: each row that `line_updated` marks is written out, its mark cleared, and the
shadow of each of its cells set to the cell. -/
theorem flushRows_copy {width : Nat} (hw : 0 < width) :
    ∀ (k row : Nat) (lu : List Bool) (st : FlushState), (row + k) * width ≤ n →
      st.mem.length = 2 * n + 1 →
      ∃ lu' st', flushRows t cache n width k row lu st = some (lu', st') ∧
        lu'.length = lu.length ∧
        (∀ y, lu'.getD y false = (lu.getD y false && !decide (row ≤ y ∧ y < row + k))) ∧
        Mirror.Copy n (fun j => decide (row ≤ j / width ∧ j / width < row + k) &&
          lu.getD (j / width) false) st.mem st'.mem
  | 0, row, lu, st, _, _ =>
    ⟨lu, st, rfl, rfl, fun y => by
      generalize lu.getD y false = b
      cases b <;> simp
      omega,
      (Mirror.Copy.refl n st.mem).of_eq fun j => by simp⟩
  | k + 1, row, lu, st, hk, hlen => by
    have hk' : (row + 1 + k) * width ≤ n := by rwa [Nat.add_right_comm]
    rw [flushRows]
    split
    · rename_i hmark
      have hrow : (row + 1) * width ≤ n := le_trans (Nat.mul_le_mul_right _ (by omega)) hk
      obtain ⟨st1, h1, hs1⟩ := flushRow_copy t cache st hw hrow hlen
      obtain ⟨lu', st', h2, hlen', hlu', hs2⟩ := flushRows_copy hw k (row + 1) (lu.set row false)
        st1 hk' (by rw [hs1.length_eq, hlen])
      -- the later rows copy cells of the screen only
      have hlt : ∀ j, (decide (row + 1 ≤ j / width ∧ j / width < row + 1 + k) &&
          (lu.set row false).getD (j / width) false) = true → j < n := fun j hj => by
        simp only [Bool.and_eq_true, decide_eq_true_eq] at hj
        exact lt_of_lt_of_le ((Nat.div_lt_iff_lt_mul hw).mp hj.1.2) hk'
      refine ⟨lu', st', by simp only [Option.bind_eq_bind, Option.bind_some, h1]; exact h2,
        by rw [hlen', List.length_set], fun y => ?_, (hs1.trans hs2 hlt).of_eq fun j => ?_⟩
      · rw [hlu', getD_set_false]
        generalize lu.getD y false = b
        cases b <;> simp
        grind
      · simp only [cell_row_iff hw, getD_set_false]
        generalize j / width = y
        by_cases hy : y = row
        · subst hy
          grind
        · generalize lu.getD y false = b
          cases b <;> simp [hy]
          grind
    · rename_i hmark
      obtain ⟨lu', st', h2, hlen', hlu', hs2⟩ := flushRows_copy hw k (row + 1) lu st hk' hlen
      refine ⟨lu', st', h2, hlen', fun y => ?_, hs2.of_eq fun j => ?_⟩
      · rw [hlu']
        by_cases hy : y = row
        · subst hy
          grind
        · generalize lu.getD y false = b
          cases b <;> simp
          grind
      · generalize j / width = y
        by_cases hy : y = row
        · subst hy
          grind
        · generalize lu.getD y false = b
          cases b <;> simp
          grind

end Rows

/-! ## The display and its flush -/

/-- The tty display: the screen array with what drawing reads and writes, the number of rows,
and the shadow array followed by the loop guard. -/
structure TTYDisplay where
  scr : TTYScreen
  height : Nat
  shadow : List TTYChar

/-- `tty_dpy_flush`: the display after it and the bytes it writes. The rows are written out and
their shadows updated, then the cursor is placed, and the cache cleaned with
`comb_cache_clean(ts, ts->screen, ts->screen_size)`. -/
def ttyDpyFlush (t : TTYOutput) (d : TTYDisplay) : Option (TTYDisplay × List UInt8) := do
  let n := d.scr.width * d.height
  let out := asciiBytes "\x1b[?25l\x1b[H\x1b[0m" ++
    (if t.cygwin then [] else asciiBytes "\x1b(B\x1b)0")
  let (lu, st) ← flushRows t d.scr.combCache n d.scr.width d.height 0 d.scr.lineUpdated
    ⟨d.scr.screen ++ d.shadow, ⟨out, -1, -1, 0, false, false⟩⟩
  let out := st.term.out ++ asciiBytes "\x1b[0m" ++
    (if t.cursorY + 1 ≥ 0 ∧ t.cursorX + 1 ≥ 0 then
      asciiBytes "\x1b[?25h" ++ cupBytes (t.cursorY + 1) (t.cursorX + 1) else [])
  let cache ← combCacheClean d.scr.combCache d.scr.screen n
  return ({ d with scr := { d.scr with lineUpdated := lu, combCache := cache },
                   shadow := st.mem.drop n }, out)

/-- The flush of a display whose arrays have the sizes `tty_dpy_invalidate` gives them, when the
clean of the cache ends: the shadow of every cell of a marked row becomes the cell, every other
shadow cell, the guard with them, stays, every row is unmarked, and the screen is left as it
is. -/
theorem ttyDpyFlush_spec (t : TTYOutput) {d : TTYDisplay} (hw : 0 < d.scr.width)
    (hscr : d.scr.screen.length = d.scr.width * d.height)
    (hsh : d.shadow.length = d.scr.width * d.height + 1) {cache : List UInt32}
    (hclean : combCacheClean d.scr.combCache d.scr.screen (d.scr.width * d.height) = some cache) :
    ∃ d' out, ttyDpyFlush t d = some (d', out) ∧ d'.scr.screen = d.scr.screen ∧
      d'.scr.width = d.scr.width ∧ d'.scr.combCache = cache ∧ d'.height = d.height ∧
      (d'.scr.clipX1, d'.scr.clipY1, d'.scr.clipX2, d'.scr.clipY2) =
        (d.scr.clipX1, d.scr.clipY1, d.scr.clipX2, d.scr.clipY2) ∧
      d'.shadow.length = d.shadow.length ∧
      (∀ j, d'.shadow[j]? = if j < d.scr.width * d.height ∧ d.scr.lineUpdated.getD (j / d.scr.width) false
        then d.scr.screen[j]? else d.shadow[j]?) ∧
      d'.scr.lineUpdated.length = d.scr.lineUpdated.length ∧
      ∀ y, d'.scr.lineUpdated.getD y false = (d.scr.lineUpdated.getD y false && !decide (y < d.height)) := by
  obtain ⟨lu', st', hrows, hlen', hlu', hcopy⟩ :=
    flushRows_copy t d.scr.combCache (n := d.scr.width * d.height) hw d.height 0 d.scr.lineUpdated
      ⟨d.scr.screen ++ d.shadow, ⟨asciiBytes "\x1b[?25l\x1b[H\x1b[0m" ++
        (if t.cygwin then [] else asciiBytes "\x1b(B\x1b)0"), -1, -1, 0, false, false⟩⟩
      (by rw [Nat.zero_add, Nat.mul_comm])
      (by simp only [List.length_append, hscr, hsh]; omega)
  -- only cells of the screen are copied
  have hs : ∀ j, (decide (0 ≤ j / d.scr.width ∧ j / d.scr.width < 0 + d.height) &&
      d.scr.lineUpdated.getD (j / d.scr.width) false) = true → j < d.scr.width * d.height :=
    fun j hj => by
      simp only [Bool.and_eq_true, decide_eq_true_eq] at hj
      rw [Nat.mul_comm]
      exact (Nat.div_lt_iff_lt_mul hw).mp (by omega)
  obtain ⟨-, hdrop⟩ := hcopy.drop_append hscr hs
  refine ⟨⟨{ d.scr with lineUpdated := lu', combCache := cache }, d.height,
      st'.mem.drop (d.scr.width * d.height)⟩, _,
    by simp only [ttyDpyFlush, hrows, hclean]; rfl, rfl, rfl, rfl, rfl, rfl,
    ?_, fun j => ?_, hlen', fun y => by rw [hlu']; simp⟩
  · rw [List.length_drop, hcopy.length_eq, List.length_append, hscr, hsh]
    omega
  · rw [hdrop j]
    congr 1
    have : j / d.scr.width < d.height ↔ j < d.scr.width * d.height := by
      rw [Nat.mul_comm]
      exact Nat.div_lt_iff_lt_mul hw
    simp [this]

/-- With no row marked the rows loop does nothing. -/
theorem flushRows_unmarked (t : TTYOutput) (cache : List UInt32) (n width : Nat) :
    ∀ (k row : Nat) (lu : List Bool) (st : FlushState), (∀ y, lu.getD y false = false) →
      flushRows t cache n width k row lu st = some (lu, st)
  | 0, _, _, _, _ => rfl
  | k + 1, row, lu, st, h => by
    simp only [flushRows, h row, Bool.false_eq_true, if_false]
    exact flushRows_unmarked t cache n width k (row + 1) lu st h

/-- A flush with no row marked writes the cursor hiding and the resets, places the cursor, and
leaves the shadow. -/
theorem ttyDpyFlush_unmarked {t : TTYOutput} {d d' : TTYDisplay} {out : List UInt8}
    (hmarks : ∀ y, d.scr.lineUpdated.getD y false = false) (hf : ttyDpyFlush t d = some (d', out)) :
    out = asciiBytes "\x1b[?25l\x1b[H\x1b[0m" ++ (if t.cygwin then [] else asciiBytes "\x1b(B\x1b)0") ++
        asciiBytes "\x1b[0m" ++ (if t.cursorY + 1 ≥ 0 ∧ t.cursorX + 1 ≥ 0 then
          asciiBytes "\x1b[?25h" ++ cupBytes (t.cursorY + 1) (t.cursorX + 1) else []) ∧
      d'.shadow = (d.scr.screen ++ d.shadow).drop (d.scr.width * d.height) := by
  unfold ttyDpyFlush at hf
  dsimp only at hf
  rw [flushRows_unmarked _ _ _ _ _ _ _ _ hmarks] at hf
  obtain ⟨⟨lu, st⟩, hrows, h⟩ := Option.bind_eq_some_iff.mp hf
  cases hrows
  obtain ⟨cache, -, h⟩ := Option.bind_eq_some_iff.mp h
  cases h
  exact ⟨rfl, rfl⟩

end Qemacs
