import Mathlib.Data.List.GetD

/-!
# Converting pictures to RGBA32

`qe_picture_copy` (display.c) copies a rectangle of one picture into another. When the
rectangles have the same size it converts row by row into an RGBA32 destination, with
one loop nest per source format: palette lookups for 1-, 4- and 8-bit pictures, and
expansions of RGB565, RGB555, RGB24, BGR24 and BGRA32 pixels. The sub-byte formats
split each row into an incomplete left block, a middle block unrolled over whole bytes
and an incomplete right block.

What a copy should do is a map, pixel by pixel (`pixelColor`). The 4-bit path at an odd
`src_x` does not: after the left pixel it starts its middle block again at `x = 0`, one
byte further on, so the first pixel gets the colour of the next source pixel and the
middle block runs past the rectangle (`qePictureCopy_fourBit_odd`).

The scaling branch (`qe_picture_scale`) is not modelled. The destination is an RGBA32
picture given by its pixels and its line size in pixels; the source plane's 16-bit
pixels are read little endian.
-/

namespace Qemacs

/-! ## The model -/

/-- `QEBitmapFormat`. -/
inductive QEBitmapFormat
  | oneBit | fourBit | eightBit | rgb565 | rgb555 | rgb24 | bgr24 | rgba32 | bgra32 | yuv420p
  deriving DecidableEq, Repr

/-- The fields of a `QEPicture` the copy reads from its source: the format, the bytes and the
line size of plane 0, and the palette, `NULL` for none. -/
structure QEPicture where
  format : QEBitmapFormat
  data : List UInt8
  linesize : Nat
  palette : Option (List UInt32)
  deriving DecidableEq, Repr

/-- An RGBA32 destination: its pixels, `pitch` of them a row. -/
structure RGBAPicture where
  pixels : List UInt32
  pitch : Nat
  deriving DecidableEq, Repr

def QEARGB (a r g b : UInt32) : UInt32 := (a <<< 24) ||| (r <<< 16) ||| (g <<< 8) ||| b

def QERGB (r g b : UInt32) : UInt32 := QEARGB 0xff r g b

/-- `palette[i]`. -/
def palColor (pal : List UInt32) (i : UInt8) : UInt32 := pal.getD i.toNat 0

/-- `dst[x] = c` in the row of the destination that starts at pixel `d`. -/
def putPixel (dst : List UInt32) (d x : Nat) (c : UInt32) : List UInt32 := dst.set (d + x) c

/-- `width & ~3`, `width & ~7`: the largest multiple of `4` or `8` not above `width`. -/
def alignDown (width : Int) (k : Nat) : Int := width - width % k

section Rows

variable (d : Nat)

/-- The unrolled loop `for (x = 0; x < w4; x += 4)` of the paths that read one pixel from a
fixed place per `x`: four pixels a turn. -/
def rowQuads (px : Nat → UInt32) (w4 : Int) (dst : List UInt32) (x : Nat) : List UInt32 × Nat :=
  if (x : Int) < w4 then
    let dst := putPixel (putPixel (putPixel (putPixel dst d x (px x)) d (x + 1) (px (x + 1)))
      d (x + 2) (px (x + 2))) d (x + 3) (px (x + 3))
    rowQuads px w4 dst (x + 4)
  else (dst, x)
termination_by (w4 - x).toNat

/-- The loop `for (; x < width; x++)` after it, one pixel a turn. -/
def rowRest (px : Nat → UInt32) (width : Int) (dst : List UInt32) (x : Nat) : List UInt32 :=
  if (x : Int) < width then rowRest px width (putPixel dst d x (px x)) (x + 1) else dst
termination_by (width - x).toNat

/-- A row of the 8-bit, RGB24, BGR24 and BGRA32 paths: the unrolled loop up to
`width & ~3`, then the rest. -/
def copyRowQuads (px : Nat → UInt32) (width : Int) (dst : List UInt32) : List UInt32 :=
  let (dst, x) := rowQuads d px (alignDown width 4) dst 0
  rowRest d px width dst x

/-- The middle block of the 4-bit path: two bytes, four pixels, a turn. -/
def row4Middle (pal : List UInt32) (data : List UInt8) (w4 : Int) (dst : List UInt32)
    (src x : Nat) : List UInt32 × Nat × Nat :=
  if (x : Int) < w4 then
    let b0 := data.getD src 0
    let b1 := data.getD (src + 1) 0
    let dst := putPixel (putPixel (putPixel (putPixel dst d x (palColor pal (b0 >>> 4)))
      d (x + 1) (palColor pal (b0 &&& 15))) d (x + 2) (palColor pal (b1 >>> 4)))
      d (x + 3) (palColor pal (b1 &&& 15))
    row4Middle pal data w4 dst (src + 2) (x + 4)
  else (dst, src, x)
termination_by (w4 - x).toNat

/-- The right block of the 4-bit path: one nibble a pixel, the high one first;
`src += (shift ^= 4) >> 2` moves to the next byte after a low nibble. -/
def row4Right (pal : List UInt32) (data : List UInt8) (width : Int) (dst : List UInt32)
    (src x shift : Nat) : List UInt32 :=
  if (x : Int) < width then
    let dst := putPixel dst d x (palColor pal ((data.getD src 0 >>> shift.toUInt8) &&& 15))
    let shift := shift ^^^ 4
    row4Right pal data width dst (src + (shift >>> 2)) (x + 1) shift
  else dst
termination_by (width - x).toNat

/-- A row of the 4-bit path from the byte `src` that holds the pixel `src_x`. -/
def copyRow4 (pal : List UInt32) (data : List UInt8) (src srcX : Nat) (width : Int)
    (dst : List UInt32) : List UInt32 :=
  -- the incomplete left block, for an odd `src_x`
  let (dst, src, x) : List UInt32 × Nat × Nat :=
    if srcX &&& 1 ≠ 0 then (putPixel dst d 0 (palColor pal (data.getD src 0 &&& 15)), src + 1, 1)
    else (dst, src, 0)
  let w4 := x + alignDown (width - x) 4
  -- the middle block starts again at `x = 0`
  let (dst, src, x) := row4Middle d pal data w4 dst src 0
  row4Right d pal data width dst src x 4

/-- The bit of a 1-bit pixel, `(bits >> shift) & 1`. -/
def bitAt (bits : UInt8) (shift : Nat) : UInt8 := (bits >>> shift.toUInt8) &&& 1

/-- The loops of the 1-bit path that read the bits of one byte from `shift - 1` down:
`for (; x < width && shift != 0; x++)` on the left, and `for (; x < width; x++)` on the
right, where fewer than eight pixels are left. -/
def row1Bits (pal : List UInt32) (bits : UInt8) (width : Int) (dst : List UInt32) (x shift : Nat) :
    List UInt32 × Nat :=
  if (x : Int) < width ∧ shift ≠ 0 then
    row1Bits pal bits width (putPixel dst d x (palColor pal (bitAt bits (shift - 1)))) (x + 1)
      (shift - 1)
  else (dst, x)
termination_by shift

/-- The middle block of the 1-bit path: a byte, eight pixels, a turn. -/
def row1Middle (pal : List UInt32) (data : List UInt8) (w8 : Int) (dst : List UInt32)
    (src x : Nat) : List UInt32 × Nat × Nat :=
  if (x : Int) < w8 then
    let bits := data.getD src 0
    -- `dst[x + k] = palette[(bits >> (7 - k)) & 1]` for `k` from 0 to 7
    let dst := (List.range 8).foldl
      (fun dst k => putPixel dst d (x + k) (palColor pal (bitAt bits (7 - k)))) dst
    row1Middle pal data w8 dst (src + 1) (x + 8)
  else (dst, src, x)
termination_by (w8 - x).toNat

/-- A row of the 1-bit path from the byte `src` that holds the pixel `src_x`. -/
def copyRow1 (pal : List UInt32) (data : List UInt8) (src srcX : Nat) (width : Int)
    (dst : List UInt32) : List UInt32 :=
  -- the incomplete left block, when `src_x` is not on a byte boundary
  let (dst, src, x) : List UInt32 × Nat × Nat :=
    if srcX &&& 7 ≠ 0 then
      let (dst, x) := row1Bits d pal (data.getD src 0) width dst 0 (8 - (srcX &&& 7))
      (dst, src + 1, x)
    else (dst, src, 0)
  let w8 := x + alignDown (width - x) 8
  let (dst, src, x) := row1Middle d pal data w8 dst src x
  -- the incomplete right block
  if (x : Int) < width then (row1Bits d pal (data.getD src 0) width dst x 8).1 else dst

/-- A row of the RGB565 and RGB555 paths: one 16-bit pixel a turn. -/
def rowWords (px : Nat → UInt32) (width : Int) (dst : List UInt32) (x : Nat) : List UInt32 :=
  rowRest d px width dst x

end Rows

/-- The 16-bit pixel at byte `i`, little endian. -/
def word16 (data : List UInt8) (i : Nat) : UInt32 :=
  (data.getD i 0).toUInt32 ||| ((data.getD (i + 1) 0).toUInt32 <<< 8)

/-- An RGB565 pixel expanded to RGBA32. -/
def rgb565 (w : UInt32) : UInt32 :=
  let r := (w >>> 8) &&& 0xF8
  let g := (w >>> 3) &&& 0xFC
  let b := (w <<< 3) &&& 0xF8
  QERGB (r ||| (r >>> 5)) (g ||| (g >>> 6)) (b ||| (b >>> 5))

/-- An RGB555 pixel expanded to RGBA32. -/
def rgb555 (w : UInt32) : UInt32 :=
  let r := (w >>> 7) &&& 0xF8
  let g := (w >>> 2) &&& 0xF8
  let b := (w <<< 3) &&& 0xF8
  QERGB (r ||| (r >>> 5)) (g ||| (g >>> 5)) (b ||| (b >>> 5))

/-- The rows `0` to `n - 1` of a copy, in order. -/
def copyRows (row : Nat → List UInt32 → List UInt32) : Nat → List UInt32 → List UInt32
  | 0, dst => dst
  | n + 1, dst => row n (copyRows row n dst)

/-- `qe_picture_copy` of a `w` by `h` rectangle at `(src_x, src_y)` of `from` to `(dst_x,
dst_y)` of the RGBA32 picture `to` (`toPic`), unscaled: the value returned, 1 for a format
it does not convert, and the destination's pixels. `xtermColors` is the palette of 4- and 8-bit
pictures without one. -/
def qePictureCopy (xtermColors : List UInt32) (toPic : RGBAPicture) (dstX dstY : Nat)
    (src : QEPicture) (srcX srcY w h : Nat) : Nat × List UInt32 :=
  let rowStart (y k : Nat) := (srcY + y) * src.linesize + k
  let dstRow (y : Nat) := (dstY + y) * toPic.pitch + dstX
  let data := src.data
  let byte (i : Nat) : UInt32 := (data.getD i 0).toUInt32
  match src.format with
  | .eightBit =>
    let pal := src.palette.getD xtermColors
    (0, copyRows (fun y dst => copyRowQuads (dstRow y)
      (fun x => palColor pal (data.getD (rowStart y srcX + x) 0)) w dst) h toPic.pixels)
  | .fourBit =>
    let pal := src.palette.getD xtermColors
    (0, copyRows (fun y dst => copyRow4 (dstRow y) pal data (rowStart y (srcX >>> 1)) srcX w dst)
      h toPic.pixels)
  | .oneBit =>
    let pal := src.palette.getD [QERGB 0 0 0, QERGB 0xff 0xff 0xff]
    (0, copyRows (fun y dst => copyRow1 (dstRow y) pal data (rowStart y (srcX >>> 3)) srcX w dst)
      h toPic.pixels)
  | .rgb565 =>
    (0, copyRows (fun y dst => rowWords (dstRow y)
      (fun x => rgb565 (word16 data (rowStart y (2 * srcX) + 2 * x))) w dst 0) h toPic.pixels)
  | .rgb555 =>
    (0, copyRows (fun y dst => rowWords (dstRow y)
      (fun x => rgb555 (word16 data (rowStart y (2 * srcX) + 2 * x))) w dst 0) h toPic.pixels)
  | .rgb24 =>
    (0, copyRows (fun y dst => copyRowQuads (dstRow y) (fun x =>
      let i := rowStart y (srcX * 3) + 3 * x
      QERGB (byte i) (byte (i + 1)) (byte (i + 2))) w dst) h toPic.pixels)
  | .bgr24 =>
    (0, copyRows (fun y dst => copyRowQuads (dstRow y) (fun x =>
      let i := rowStart y (srcX * 3) + 3 * x
      QERGB (byte (i + 2)) (byte (i + 1)) (byte i)) w dst) h toPic.pixels)
  | .bgra32 =>
    (0, copyRows (fun y dst => copyRowQuads (dstRow y) (fun x =>
      let i := rowStart y (srcX * 4) + 4 * x
      QERGB (byte i) (byte (i + 1)) (byte (i + 2))) w dst) h toPic.pixels)
  | _ => (1, toPic.pixels)

/-! ## What a copy should do -/

/-- The pixel of a 4-bit row at `k` pixels from the high nibble of byte `src`. -/
def nibblePixel (pal : List UInt32) (data : List UInt8) (src k : Nat) : UInt32 :=
  let b := data.getD (src + k / 2) 0
  palColor pal (if k % 2 = 0 then b >>> 4 else b &&& 15)

/-- The colour of the source pixel `(x, y)`, as its format lays it out: what the
destination pixel it is copied to should hold. -/
def pixelColor (xtermColors : List UInt32) (src : QEPicture) (x y : Nat) : UInt32 :=
  let row := y * src.linesize
  let byte (i : Nat) : UInt32 := (src.data.getD i 0).toUInt32
  match src.format with
  | .eightBit => palColor (src.palette.getD xtermColors) (src.data.getD (row + x) 0)
  | .fourBit => nibblePixel (src.palette.getD xtermColors) src.data row x
  | .oneBit => palColor (src.palette.getD [QERGB 0 0 0, QERGB 0xff 0xff 0xff])
      (bitAt (src.data.getD (row + x / 8) 0) (7 - x % 8))
  | .rgb565 => rgb565 (word16 src.data (row + 2 * x))
  | .rgb555 => rgb555 (word16 src.data (row + 2 * x))
  | .rgb24 => QERGB (byte (row + 3 * x)) (byte (row + 3 * x + 1)) (byte (row + 3 * x + 2))
  | .bgr24 => QERGB (byte (row + 3 * x + 2)) (byte (row + 3 * x + 1)) (byte (row + 3 * x))
  | .bgra32 => QERGB (byte (row + 4 * x)) (byte (row + 4 * x + 1)) (byte (row + 4 * x + 2))
  | _ => 0

/-! ## Writing pixels -/

section Pixels

variable {dst : List UInt32} {d x : Nat} {c : UInt32}

@[simp] theorem length_putPixel : (putPixel dst d x c).length = dst.length := by
  simp [putPixel]

theorem putPixel_getElem? (i : Nat) :
    (putPixel dst d x c)[i]? = if i = d + x ∧ i < dst.length then some c else dst[i]? := by
  simp only [putPixel, List.getElem?_set]
  by_cases h : d + x = i
  · subst h
    by_cases hl : d + x < dst.length
    · simp [hl]
    · simp [hl]
  · rw [if_neg h, if_neg (fun h' => h h'.1.symm)]

end Pixels

/-- The pixels a 4-bit row reads two bytes further on are the pixels four further on. -/
theorem nibblePixel_add_four (pal : List UInt32) (data : List UInt8) (src k : Nat) :
    nibblePixel pal data (src + 2) k = nibblePixel pal data src (k + 4) := by
  simp only [nibblePixel]
  rw [show src + 2 + k / 2 = src + (k + 4) / 2 by omega, show (k + 4) % 2 = k % 2 by omega]

/-! ## The rows -/

section RowLemmas

variable (d : Nat) (pal : List UInt32) (data : List UInt8)

/-- Four pixels written in a row; those past the end of the destination are dropped. -/
theorem putPixel_four_getElem? (px : Nat → UInt32) (dst : List UInt32) (x i : Nat) :
    (putPixel (putPixel (putPixel (putPixel dst d x (px x)) d (x + 1) (px (x + 1)))
      d (x + 2) (px (x + 2))) d (x + 3) (px (x + 3)))[i]? =
      if d + x ≤ i ∧ i < d + x + 4 ∧ i < dst.length then some (px (i - d)) else dst[i]? := by
  simp only [putPixel_getElem?, length_putPixel]
  by_cases hl : i < dst.length
  · -- the last write that lands on `i` holds the pixel for `i - d`
    by_cases h3 : i = d + (x + 3)
    · rw [if_pos ⟨h3, hl⟩, if_pos (by omega), h3]
      congr 2
      omega
    rw [if_neg (fun h' => h3 h'.1)]
    by_cases h2 : i = d + (x + 2)
    · rw [if_pos ⟨h2, hl⟩, if_pos (by omega), h2]
      congr 2
      omega
    rw [if_neg (fun h' => h2 h'.1)]
    by_cases h1 : i = d + (x + 1)
    · rw [if_pos ⟨h1, hl⟩, if_pos (by omega), h1]
      congr 2
      omega
    rw [if_neg (fun h' => h1 h'.1)]
    by_cases h0 : i = d + x
    · rw [if_pos ⟨h0, hl⟩, if_pos (by omega), h0]
      congr 2
      omega
    rw [if_neg (fun h' => h0 h'.1), if_neg (by omega)]
  · simp only [hl, and_false, if_false]

/-- The unrolled loop writes `px` from `x` up to the first multiple of four turns that
reaches `w4`. -/
theorem rowQuads_spec (px : Nat → UInt32) (w4 : Int) (dst : List UInt32) (x : Nat) :
    let r := rowQuads d px w4 dst x
    ∃ t, r.2 = x + 4 * t ∧ w4 ≤ r.2 ∧ ((x : Int) < w4 → (r.2 : Int) < w4 + 4) ∧
      (w4 ≤ x → r.2 = x) ∧ r.1.length = dst.length ∧
      ∀ i, r.1[i]? = if d + x ≤ i ∧ i < d + r.2 ∧ i < dst.length then some (px (i - d))
        else dst[i]? := by
  fun_induction rowQuads d px w4 dst x with
  | case1 dst x hx dst1 ih =>
    obtain ⟨t, hx', hge, hlt, hstop, hlen, hpix⟩ := ih
    have hlen1 : dst1.length = dst.length := by simp [dst1]
    refine ⟨t + 1, by omega, hge, fun _ => ?_, fun h => absurd hx (by omega), by rw [hlen, hlen1],
      fun i => ?_⟩
    · -- after this turn the loop either stops or goes on below `w4`
      by_cases hmore : ((x + 4 : Nat) : Int) < w4
      · exact hlt hmore
      · rw [hstop (by omega)]
        omega
    · rw [hpix, hlen1, putPixel_four_getElem? d px dst x]
      by_cases h1 : d + (x + 4) ≤ i ∧ i < d + (rowQuads d px w4 dst1 (x + 4)).2 ∧ i < dst.length
      · rw [if_pos h1, if_pos (by omega)]
      · rw [if_neg h1]
        by_cases h2 : d + x ≤ i ∧ i < d + x + 4 ∧ i < dst.length
        · rw [if_pos h2, if_pos (by omega)]
        · rw [if_neg h2, if_neg (by omega)]
  | case2 dst x hx =>
    refine ⟨0, rfl, by omega, fun h => absurd h hx, fun _ => rfl, rfl, fun i => ?_⟩
    rw [if_neg (by omega)]

@[simp] theorem length_rowQuads (px : Nat → UInt32) (w4 : Int) (dst : List UInt32) (x : Nat) :
    (rowQuads d px w4 dst x).1.length = dst.length := by
  obtain ⟨_, _, _, _, _, hlen, _⟩ := rowQuads_spec d px w4 dst x
  exact hlen

/-- `rowQuads` reads its pixels only from `x` on. -/
theorem rowQuads_congr (px px' : Nat → UInt32) (w4 : Int) (dst : List UInt32) (x : Nat)
    (h : ∀ y, x ≤ y → px y = px' y) : rowQuads d px w4 dst x = rowQuads d px' w4 dst x := by
  fun_induction rowQuads d px w4 dst x with
  | case1 dst x hx dst1 ih =>
    rw [ih (fun y hy => h y (by omega))]
    symm
    rw [rowQuads, if_pos hx]
    simp only [dst1, h x (Nat.le_refl x), h (x + 1) (by omega), h (x + 2) (by omega),
      h (x + 3) (by omega)]
  | case2 dst x hx =>
    symm
    rw [rowQuads, if_neg hx]

/-- The middle block of the 4-bit path is the unrolled loop over the pixels of the bytes from
`src`, two bytes a turn. -/
theorem row4Middle_eq (w4 : Int) (dst : List UInt32) (src x : Nat) :
    row4Middle d pal data w4 dst src x =
      ((rowQuads d (fun y => nibblePixel pal data src (y - x)) w4 dst x).1,
        src + ((rowQuads d (fun y => nibblePixel pal data src (y - x)) w4 dst x).2 - x) / 2,
        (rowQuads d (fun y => nibblePixel pal data src (y - x)) w4 dst x).2) := by
  fun_induction row4Middle d pal data w4 dst src x with
  | case1 dst src x hx b0 b1 dst1 ih =>
    -- the pixels the next turns read two bytes on are those four pixels on
    have hcongr := rowQuads_congr d (fun y => nibblePixel pal data (src + 2) (y - (x + 4)))
      (fun y => nibblePixel pal data src (y - x)) w4 dst1 (x + 4) (fun y hy => by
        simp only [nibblePixel_add_four]
        congr 1
        omega)
    have hdst1 : dst1 = putPixel (putPixel (putPixel (putPixel dst d x
        (nibblePixel pal data src (x - x))) d (x + 1) (nibblePixel pal data src (x + 1 - x)))
        d (x + 2) (nibblePixel pal data src (x + 2 - x)))
        d (x + 3) (nibblePixel pal data src (x + 3 - x)) := by
      simp [dst1, b0, b1, nibblePixel]
    have hq : rowQuads d (fun y => nibblePixel pal data src (y - x)) w4 dst x =
        rowQuads d (fun y => nibblePixel pal data src (y - x)) w4 dst1 (x + 4) := by
      rw [rowQuads, if_pos hx, hdst1]
    obtain ⟨t, hx', -⟩ := rowQuads_spec d (fun y => nibblePixel pal data src (y - x)) w4 dst1
      (x + 4)
    rw [ih, hcongr, hq]
    simp only [Prod.mk.injEq, true_and, and_true]
    rw [hx']
    omega
  | case2 dst src x hx =>
    rw [rowQuads, if_neg hx]
    simp

@[simp] theorem length_row4Right (width : Int) (dst : List UInt32) (src x shift : Nat) :
    (row4Right d pal data width dst src x shift).length = dst.length := by
  fun_induction row4Right d pal data width dst src x shift with
  | case1 dst src x shift hx dst1 shift1 ih => rw [ih, length_putPixel]
  | case2 => rfl

/-- The right block writes nothing once the row is full. -/
theorem row4Right_of_le (width : Int) (dst : List UInt32) (src x shift : Nat) (h : width ≤ x) :
    row4Right d pal data width dst src x shift = dst := by
  rw [row4Right, if_neg (by omega)]

@[simp] theorem length_copyRow4 (src srcX : Nat) (w : Int) (dst : List UInt32) :
    (copyRow4 d pal data src srcX w dst).length = dst.length := by
  by_cases hbit : srcX &&& 1 ≠ 0
  · simp only [copyRow4, if_pos hbit, row4Middle_eq, length_row4Right, length_rowQuads,
      length_putPixel]
  · simp only [copyRow4, if_neg hbit, row4Middle_eq, length_row4Right, length_rowQuads]

/-- At an odd `src_x` the row gets, from its first pixel on, the pixels of the source from the
one after `src_x`, as far as the last turn of the middle block reaches. -/
theorem copyRow4_odd (src srcX w : Nat) (dst : List UInt32) (hodd : srcX % 2 = 1) (hw : 0 < w)
    (i : Nat) :
    (copyRow4 d pal data src srcX w dst)[i]? =
      if d ≤ i ∧ i < d + 4 * ((w - 1) / 4 + 1) ∧ i < dst.length then
        some (nibblePixel pal data (src + 1) (i - d))
      else dst[i]? := by
  have hbit : srcX &&& 1 ≠ 0 := by rw [Nat.and_one_is_mod]; omega
  simp only [copyRow4, if_pos hbit, row4Middle_eq]
  obtain ⟨t, ht, hge, hlt, -, -, hpix⟩ := rowQuads_spec d
    (fun y => nibblePixel pal data (src + 1) (y - 0))
    (((1 : Nat) : Int) + alignDown ((w : Int) - ((1 : Nat) : Int)) 4)
    (putPixel dst d 0 (palColor pal (data.getD src 0 &&& 15))) 0
  rw [ht] at hge hlt hpix ⊢
  -- the middle block ends on the first multiple of four after `w - 1`
  have hlt' := hlt (by simp only [alignDown]; omega)
  have ht' : t = (w - 1) / 4 + 1 := by
    simp only [alignDown] at hge hlt'
    omega
  rw [row4Right_of_le d pal data _ _ _ _ _ (by omega), hpix, putPixel_getElem?, length_putPixel, ht']
  simp only [Nat.add_zero, Nat.zero_add, Nat.sub_zero]
  -- the left pixel at `d` is written over by the first turn of the middle block
  by_cases hin : d ≤ i ∧ i < d + 4 * ((w - 1) / 4 + 1) ∧ i < dst.length
  · rw [if_pos hin, if_pos hin]
  · rw [if_neg hin, if_neg hin, if_neg (by omega)]

end RowLemmas

/-! ## The rectangle -/

theorem length_copyRows (row : Nat → List UInt32 → List UInt32)
    (hrow : ∀ y dst, (row y dst).length = dst.length) :
    ∀ n dst, (copyRows row n dst).length = dst.length
  | 0, _ => rfl
  | n + 1, dst => by rw [copyRows, hrow, length_copyRows row hrow n dst]

/-- The nibble `k` pixels after the odd pixel `src_x` of a row, counted from the byte after the
one that holds `src_x`. -/
theorem nibblePixel_odd (pal : List UInt32) (data : List UInt8) (row srcX k : Nat)
    (hodd : srcX % 2 = 1) :
    nibblePixel pal data (row + srcX / 2 + 1) k = nibblePixel pal data row (srcX + 1 + k) := by
  simp only [nibblePixel]
  rw [show row + srcX / 2 + 1 + k / 2 = row + (srcX + 1 + k) / 2 by omega,
    show (srcX + 1 + k) % 2 = k % 2 by omega]

/-- The 4-bit path at an odd `src_x`: in the last row of the rectangle, every pixel the middle
block reaches, from the first one of the row to the first multiple of four at or after `w`,
holds the source pixel one to the right of the one it stands for. -/
theorem qePictureCopy_fourBit_odd (xtermColors : List UInt32) (toPic : RGBAPicture)
    (dstX dstY : Nat) (src : QEPicture) (srcX srcY w h : Nat) (hfmt : src.format = .fourBit)
    (hodd : srcX % 2 = 1) (hw : 0 < w) (hh : 0 < h) (x : Nat) (hx : x < 4 * ((w - 1) / 4 + 1))
    (hin : (dstY + (h - 1)) * toPic.pitch + dstX + x < toPic.pixels.length) :
    (qePictureCopy xtermColors toPic dstX dstY src srcX srcY w h).2[
        (dstY + (h - 1)) * toPic.pitch + dstX + x]? =
      some (pixelColor xtermColors src (srcX + 1 + x) (srcY + (h - 1))) := by
  obtain ⟨n, rfl⟩ : ∃ n, h = n + 1 := ⟨h - 1, by omega⟩
  simp only [qePictureCopy, hfmt, Nat.add_sub_cancel]
  -- the last row is written last, over rows that kept the length of the destination
  rw [copyRows, copyRow4_odd _ _ _ _ _ _ _ hodd hw,
    length_copyRows _ (fun y dst => length_copyRow4 _ _ _ _ _ _ dst), if_pos ⟨by omega, by omega, hin⟩]
  simp only [pixelColor, hfmt, Nat.shiftRight_eq_div_pow, Nat.pow_one]
  rw [show (dstY + n) * toPic.pitch + dstX + x - ((dstY + n) * toPic.pitch + dstX) = x by omega,
    nibblePixel_odd _ _ _ _ _ hodd]

/-- A row of five pixels from `src_x = 1`, with the palette that maps each nibble to itself,
into a destination eight pixels wide: the first pixel gets colour 2 where the source pixel 1
has colour 1, and pixel 5, outside the rectangle, gets colour 7. -/
theorem qePictureCopy_fourBit_odd_five :
    let src : QEPicture :=
      ⟨.fourBit, [0x01, 0x23, 0x45, 0x67, 0x89], 5, some ((List.range 16).map Nat.toUInt32)⟩
    let toPic : RGBAPicture := ⟨List.replicate 8 0, 8⟩
    (qePictureCopy [] toPic 0 0 src 1 0 5 1).2[0]? = some (pixelColor [] src 2 0) ∧
      (qePictureCopy [] toPic 0 0 src 1 0 5 1).2[5]? = some (pixelColor [] src 7 0) ∧
      pixelColor [] src 1 0 = 1 ∧ pixelColor [] src 2 0 = 2 ∧ pixelColor [] src 7 0 = 7 := by
  intro src toPic
  exact ⟨qePictureCopy_fourBit_odd [] toPic 0 0 src 1 0 5 1 rfl (by decide) (by decide) (by decide)
      0 (by decide) (by decide),
    qePictureCopy_fourBit_odd [] toPic 0 0 src 1 0 5 1 rfl (by decide) (by decide) (by decide)
      5 (by decide) (by decide),
    by decide, by decide, by decide⟩

example :
    (qePictureCopy [] ⟨List.replicate 8 0, 8⟩ 0 0
      ⟨.fourBit, [0x01, 0x23, 0x45, 0x67, 0x89], 5, some ((List.range 16).map Nat.toUInt32)⟩
      1 0 5 1).2 = [2, 3, 4, 5, 6, 7, 8, 9] := by
  decide +kernel

end Qemacs
