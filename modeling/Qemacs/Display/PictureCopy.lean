import Qemacs.Display.Picture
import Qemacs.Lib.Raster

/-!
# The copy converts pixel by pixel

Every path of `qe_picture_copy` but one writes, in each row of the destination rectangle,
exactly the `w` pixels of the row and nothing else (a `Raster.WritesRun`), and the rows
do not overlap when the rectangle fits in a destination row. So the copy holds in the
rectangle the colour of the source pixel each destination pixel stands for, and leaves
every other pixel (`Raster.RectWritten`).

The paths differ in how a row is cut: the unrolled loop and the loop after it for the byte
and word formats (`copyRowQuads_writes`, `rowWords_writes`); an incomplete left block, whole
bytes and an incomplete right block for the 1-bit format (`copyRow1_writes`); two nibbles a
byte for the 4-bit format, whose left block at an odd `src_x` is the exception
(`qePictureCopy_fourBit_odd`), so the 4-bit path is correct at an even `src_x`
(`copyRow4_even_writes`).
-/

namespace Qemacs

open Raster

/-! ## Single pixels and the plain loop -/

section Loops

variable (d : Nat)

theorem putPixel_writes (x : Nat) (c : UInt32) :
    WritesRun (d + x) 1 (fun _ => c) fun dst => putPixel dst d x c :=
  WritesRun.set (d + x) c

/-- `for (; x < width; x++) dst[x] = px(x)` writes the pixels from `x` to the end of the
row. -/
theorem rowRest_writes (px : Nat → UInt32) (width : Int) (n : Nat) :
    ∀ x : Nat, (width - x).toNat = n →
      WritesRun (d + x) n (fun y => px (x + y)) fun dst => rowRest d px width dst x := by
  induction n with
  | zero =>
    intro x hn
    refine (WritesRun.id (d + x) _).of_eq fun dst => ?_
    rw [rowRest, if_neg (by omega)]
    rfl
  | succ n ih =>
    intro x hn
    -- one pixel at `x`, then the rest of the row from `x + 1`
    have hrest : WritesRun (d + x + 1) n (fun y => px (x + (y + 1)))
        fun dst => rowRest d px width dst (x + 1) :=
      (ih (x + 1) (by omega)).congr fun y _ => by rw [Nat.add_assoc, Nat.add_comm 1 y]
    refine ((putPixel_writes d x (px (x + 0))).cons hrest).of_eq fun dst => ?_
    rw [rowRest, if_pos (by omega), Nat.add_zero]
    rfl

/-- `width & ~3` of a width. -/
theorem alignDown_four (w : Nat) : alignDown (w : Int) 4 = ((4 * (w / 4) : Nat) : Int) := by
  simp only [alignDown]
  omega

/-- The unrolled loop from column 0 stops on the multiple of four it is given. -/
theorem rowQuads_zero_snd (px : Nat → UInt32) (m : Nat) (dst : List UInt32) :
    (rowQuads d px ((4 * m : Nat) : Int) dst 0).2 = 4 * m := by
  obtain ⟨t, ht, hge, hlt, hstop, -, -⟩ := rowQuads_spec d px ((4 * m : Nat) : Int) dst 0
  by_cases hm : m = 0
  · subst hm
    exact hstop (by omega)
  · have := hlt (by omega)
    omega

theorem rowQuads_writes (px : Nat → UInt32) (m : Nat) :
    WritesRun d (4 * m) px fun dst => (rowQuads d px ((4 * m : Nat) : Int) dst 0).1 := by
  intro dst
  obtain ⟨-, -, -, -, -, hlen, hpix⟩ := rowQuads_spec d px ((4 * m : Nat) : Int) dst 0
  refine ⟨hlen, fun i => ?_⟩
  rw [hpix, rowQuads_zero_snd, Nat.add_zero]

/-- A row of the 8-bit, RGB24, BGR24 and BGRA32 paths: four pixels a turn up to
`width & ~3`, then one a turn. -/
theorem copyRowQuads_writes (px : Nat → UInt32) (w : Nat) :
    WritesRun d w px (copyRowQuads d px w) := by
  have hquads := rowQuads_writes d px (w / 4)
  have hrest := rowRest_writes d px w (w - 4 * (w / 4)) (4 * (w / 4)) (by omega)
  have h := hquads.append hrest
  rw [show 4 * (w / 4) + (w - 4 * (w / 4)) = w by omega] at h
  refine h.of_eq fun dst => ?_
  simp only [copyRowQuads, alignDown_four, Function.comp_apply, rowQuads_zero_snd]

/-- A row of the RGB565 and RGB555 paths. -/
theorem rowWords_writes (px : Nat → UInt32) (w : Nat) :
    WritesRun d w px fun dst => rowWords d px w dst 0 := by
  have h := rowRest_writes d px w w 0 (by omega)
  simp only [Nat.add_zero, Nat.zero_add] at h
  exact h

end Loops

/-! ## The 1-bit path -/

section OneBit

variable (d : Nat) (pal : List UInt32) (data : List UInt8)

/-- The bit loops stop at the end of the row or after `shift` bits, whichever comes first. -/
theorem row1Bits_snd (bits : UInt8) (width : Int) (shift : Nat) :
    ∀ (dst : List UInt32) (x : Nat),
      (row1Bits d pal bits width dst x shift).2 = x + min shift (width - x).toNat := by
  induction shift with
  | zero =>
    intro dst x
    rw [row1Bits, if_neg (by omega)]
    simp
  | succ s ih =>
    intro dst x
    by_cases hx : (x : Int) < width
    · rw [row1Bits, if_pos ⟨hx, by omega⟩, Nat.add_sub_cancel, ih]
      omega
    · rw [row1Bits, if_neg (by omega)]
      omega

/-- The bit loops write the bits of one byte from bit `shift - 1` down. -/
theorem row1Bits_writes (bits : UInt8) (width : Int) (shift : Nat) :
    ∀ x : Nat, WritesRun (d + x) (min shift (width - x).toNat)
      (fun j => palColor pal (bitAt bits (shift - 1 - j)))
      fun dst => (row1Bits d pal bits width dst x shift).1 := by
  induction shift with
  | zero =>
    intro x
    refine (WritesRun.id (d + x) _).of_eq fun dst => ?_
    rw [row1Bits, if_neg (by omega)]
    rfl
  | succ s ih =>
    intro x
    by_cases hx : (x : Int) < width
    · -- bit `s` at `x`, then the bits below it from `x + 1`
      have hrest : WritesRun (d + x + 1) (min s (width - (x + 1 : Nat)).toNat)
          (fun j => palColor pal (bitAt bits (s + 1 - 1 - (j + 1))))
          fun dst => (row1Bits d pal bits width dst (x + 1) s).1 :=
        (ih (x + 1)).congr fun j _ => by rw [show s + 1 - 1 - (j + 1) = s - 1 - j by omega]
      have h := @WritesRun.cons _ (d + x) (min s (width - (x + 1 : Nat)).toNat)
        (fun j => palColor pal (bitAt bits (s + 1 - 1 - j))) _ _ (putPixel_writes d x _) hrest
      rw [show min s (width - (x + 1 : Nat)).toNat + 1 = min (s + 1) (width - x).toNat by omega]
        at h
      refine h.of_eq fun dst => ?_
      rw [row1Bits, if_pos ⟨hx, by omega⟩]
      rfl
    · rw [show min (s + 1) (width - x).toNat = 0 by omega]
      refine (WritesRun.id (d + x) _).of_eq fun dst => ?_
      rw [row1Bits, if_neg (by omega)]
      rfl

/-- The unrolled body of the middle block, `dst[x + k] = f(k)` for `k` below `n`. -/
theorem foldl_putPixel_writes (x : Nat) (f : Nat → UInt32) : ∀ n : Nat,
    WritesRun (d + x) n f fun dst =>
      (List.range n).foldl (fun dst k => putPixel dst d (x + k) (f k)) dst
  | 0 => (WritesRun.id _ _).of_eq fun _ => rfl
  | n + 1 => by
    have hlast : WritesRun (d + x + n) 1 (fun y => f (n + y)) fun dst => putPixel dst d (x + n) (f n) := by
      rw [Nat.add_assoc]
      exact (putPixel_writes d (x + n) (f n)).congr fun y hy => by
        rw [show y = 0 by omega, Nat.add_zero]
    refine ((foldl_putPixel_writes x f n).append hlast).of_eq fun dst => ?_
    rw [List.range_succ, List.foldl_append, List.foldl_cons, List.foldl_nil]
    rfl

/-- The middle block from column `x` over `m` whole bytes from `src`: their bits, the high
one first. -/
theorem row1Middle_spec (m : Nat) : ∀ (src x : Nat),
    (∀ dst, (row1Middle d pal data ((x + 8 * m : Nat) : Int) dst src x).2 = (src + m, x + 8 * m)) ∧
    WritesRun (d + x) (8 * m) (fun j => palColor pal (bitAt (data.getD (src + j / 8) 0) (7 - j % 8)))
      fun dst => (row1Middle d pal data ((x + 8 * m : Nat) : Int) dst src x).1 := by
  induction m with
  | zero =>
    intro src x
    refine ⟨fun dst => ?_, (WritesRun.id (d + x) _).of_eq fun dst => ?_⟩
    · rw [row1Middle, if_neg (by omega)]
      simp
    · rw [row1Middle, if_neg (by omega)]
      rfl
  | succ m ih =>
    intro src x
    -- one byte, then the next `m` bytes from column `x + 8`
    obtain ⟨hsnd, hrest⟩ := ih (src + 1) (x + 8)
    have hw8 : ((x + 8 + 8 * m : Nat) : Int) = ((x + 8 * (m + 1) : Nat) : Int) := by omega
    rw [hw8] at hsnd hrest
    have hbyte : WritesRun (d + x) 8
        (fun j => palColor pal (bitAt (data.getD (src + j / 8) 0) (7 - j % 8)))
        fun dst => (List.range 8).foldl
          (fun dst k => putPixel dst d (x + k) (palColor pal (bitAt (data.getD src 0) (7 - k)))) dst :=
      (foldl_putPixel_writes d x _ 8).congr fun j hj => by
        rw [Nat.div_eq_of_lt hj, Nat.mod_eq_of_lt hj, Nat.add_zero]
    have hnext : WritesRun (d + x + 8) (8 * m)
        (fun j => palColor pal (bitAt (data.getD (src + (8 + j) / 8) 0) (7 - (8 + j) % 8)))
        fun dst => (row1Middle d pal data ((x + 8 * (m + 1) : Nat) : Int) dst (src + 1) (x + 8)).1 := by
      rw [Nat.add_assoc]
      exact hrest.congr fun j _ => by
        rw [show src + 1 + j / 8 = src + (8 + j) / 8 by omega, show j % 8 = (8 + j) % 8 by omega]
    have h := hbyte.append hnext
    rw [show 8 + 8 * m = 8 * (m + 1) by omega] at h
    refine ⟨fun dst => ?_, h.of_eq fun dst => ?_⟩
    · rw [row1Middle, if_pos (by omega), hsnd]
      refine Prod.ext ?_ ?_ <;> dsimp only <;> omega
    · rw [row1Middle, if_pos (by omega)]
      rfl

/-- The middle and right blocks of a row, from column `x` and the byte `src` that holds it:
the pixels up to the end of the row, eight a byte. -/
theorem row1MiddleRight_writes (src x w : Nat) (hx : x ≤ w) :
    WritesRun (d + x) (w - x) (fun j => palColor pal (bitAt (data.getD (src + j / 8) 0) (7 - j % 8)))
      fun dst =>
        let (dst, src, x) := row1Middle d pal data ((x : Int) + alignDown ((w : Int) - x) 8) dst src x
        if (x : Int) < w then (row1Bits d pal (data.getD src 0) w dst x 8).1 else dst := by
  have hw8 : (x : Int) + alignDown ((w : Int) - x) 8 = ((x + 8 * ((w - x) / 8) : Nat) : Int) := by
    simp only [alignDown]
    omega
  obtain ⟨hsnd, hmid⟩ := row1Middle_spec d pal data ((w - x) / 8) src x
  -- what is left after the whole bytes is the right block, fewer than eight pixels
  have hright : WritesRun (d + x + 8 * ((w - x) / 8)) ((w - x) % 8)
      (fun j => palColor pal (bitAt (data.getD (src + (8 * ((w - x) / 8) + j) / 8) 0)
        (7 - (8 * ((w - x) / 8) + j) % 8)))
      fun dst => if ((x + 8 * ((w - x) / 8) : Nat) : Int) < w then
        (row1Bits d pal (data.getD (src + (w - x) / 8) 0) w dst (x + 8 * ((w - x) / 8)) 8).1
        else dst := by
    by_cases hr : ((x + 8 * ((w - x) / 8) : Nat) : Int) < w
    · have h := row1Bits_writes d pal (data.getD (src + (w - x) / 8) 0) w 8 (x + 8 * ((w - x) / 8))
      rw [show min 8 ((w : Int) - ((x + 8 * ((w - x) / 8) : Nat) : Int)).toNat = (w - x) % 8 by omega,
        ← Nat.add_assoc] at h
      refine (h.congr fun j hj => ?_).of_eq fun dst => by rw [if_pos hr]
      rw [show src + (8 * ((w - x) / 8) + j) / 8 = src + (w - x) / 8 by omega,
        show (8 * ((w - x) / 8) + j) % 8 = j by omega, show 8 - 1 - j = 7 - j by omega]
    · rw [show (w - x) % 8 = 0 by omega]
      exact (WritesRun.id _ _).of_eq fun dst => by rw [if_neg hr]; rfl
  have h := hmid.append hright
  rw [show 8 * ((w - x) / 8) + (w - x) % 8 = w - x by omega] at h
  refine h.of_eq fun dst => ?_
  rw [hw8]
  have hs := hsnd dst
  rcases hrm : row1Middle d pal data ((x + 8 * ((w - x) / 8) : Nat) : Int) dst src x
    with ⟨dst', src', x'⟩
  rw [hrm, Prod.mk.injEq] at hs
  obtain ⟨rfl, rfl⟩ := hs
  simp only [Function.comp_apply, hrm]

/-- A row of the 1-bit path from the byte `src` that holds the pixel `src_x`: pixel `j` of the
row is bit `7 - (src_x % 8 + j) % 8` of the byte `(src_x % 8 + j) / 8` bytes on. -/
theorem copyRow1_writes (src srcX w : Nat) :
    WritesRun d w (fun j => palColor pal
        (bitAt (data.getD (src + (srcX % 8 + j) / 8) 0) (7 - (srcX % 8 + j) % 8)))
      (copyRow1 d pal data src srcX w) := by
  have hbit : srcX &&& 7 = srcX % 8 := Nat.and_two_pow_sub_one_eq_mod srcX 3
  by_cases hk : srcX % 8 = 0
  · -- `src_x` on a byte boundary: no left block
    have h := row1MiddleRight_writes d pal data src 0 w (Nat.zero_le w)
    rw [Nat.add_zero, Nat.sub_zero] at h
    refine (h.congr fun j _ => by rw [hk, Nat.zero_add]).of_eq fun dst => ?_
    simp only [copyRow1, hbit, hk, ne_eq, not_true_eq_false, if_false, Nat.cast_zero]
  · -- the left block ends the row or the byte, whichever comes first
    have hleft := row1Bits_writes d pal (data.getD src 0) w (8 - srcX % 8) 0
    have hn1 : min (8 - srcX % 8) ((w : Int) - ((0 : Nat) : Int)).toNat = min (8 - srcX % 8) w := by
      omega
    rw [hn1, Nat.add_zero] at hleft
    have hrest := row1MiddleRight_writes d pal data (src + 1) (min (8 - srcX % 8) w) w
      (Nat.min_le_right _ _)
    have hl : WritesRun d (min (8 - srcX % 8) w) (fun j => palColor pal
        (bitAt (data.getD (src + (srcX % 8 + j) / 8) 0) (7 - (srcX % 8 + j) % 8)))
        fun dst => (row1Bits d pal (data.getD src 0) w dst 0 (8 - srcX % 8)).1 :=
      hleft.congr fun j hj => by
        rw [show (srcX % 8 + j) / 8 = 0 by omega, show (srcX % 8 + j) % 8 = srcX % 8 + j by omega,
          show 8 - srcX % 8 - 1 - j = 7 - (srcX % 8 + j) by omega, Nat.add_zero]
    have h := hl.append (hrest.congr fun j hj => by
      rw [show src + (srcX % 8 + (min (8 - srcX % 8) w + j)) / 8 = src + 1 + j / 8 by omega,
        show (srcX % 8 + (min (8 - srcX % 8) w + j)) % 8 = j % 8 by omega])
    rw [show min (8 - srcX % 8) w + (w - min (8 - srcX % 8) w) = w by omega] at h
    refine h.of_eq fun dst => ?_
    have hx1 := row1Bits_snd d pal (data.getD src 0) w (8 - srcX % 8) dst 0
    rw [hn1, Nat.zero_add] at hx1
    rcases hrl : row1Bits d pal (data.getD src 0) (w : Int) dst 0 (8 - srcX % 8) with ⟨dst1, x1⟩
    rw [hrl] at hx1
    subst hx1
    simp only [copyRow1, hbit, ne_eq, hk, not_false_eq_true, if_true, hrl, Function.comp_apply]

end OneBit

/-! ## The 4-bit path at an even `src_x` -/

section FourBit

variable (d : Nat) (pal : List UInt32) (data : List UInt8)

/-- `(b >> 4) & 15` of a byte is its high nibble. -/
theorem shiftRight_four_and (b : UInt8) : (b >>> (4 : Nat).toUInt8) &&& (15 : UInt8) = b >>> 4 := by
  apply UInt8.toNat_inj.mp
  simp only [UInt8.toNat_and, UInt8.toNat_shiftRight]
  rw [show (15 : UInt8).toNat = 2 ^ 4 - 1 from rfl, Nat.and_two_pow_sub_one_eq_mod]
  simp [Nat.shiftRight_eq_div_pow]
  have := b.toNat_lt
  omega

/-- The right block reads the pixel `x` of a row from byte `x / 2`, the high nibble at an even
`x` (`shift` is 4) and the low one at an odd `x` (`shift` is 0). -/
theorem row4Right_pixel (src0 x : Nat) :
    palColor pal ((data.getD (src0 + x / 2) 0 >>> (if x % 2 = 0 then 4 else 0 : Nat).toUInt8)
      &&& 15) = nibblePixel pal data src0 x := by
  by_cases hx : x % 2 = 0
  · rw [if_pos hx, shiftRight_four_and]
    simp only [nibblePixel, if_pos hx]
  · rw [if_neg hx]
    simp only [nibblePixel, if_neg hx]
    rfl

/-- `shift ^= 4` turns the shift of pixel `x` into that of pixel `x + 1`. -/
theorem shift_xor_four (x : Nat) :
    ((if x % 2 = 0 then 4 else 0) ^^^ 4 : Nat) = if (x + 1) % 2 = 0 then 4 else 0 := by
  by_cases hx : x % 2 = 0
  · rw [if_pos hx, if_neg (by omega)]
    rfl
  · rw [if_neg hx, if_pos (by omega)]
    rfl

/-- `src += shift >> 2` moves to the next byte after an odd pixel only. -/
theorem src_add_shift (src0 x : Nat) :
    src0 + x / 2 + (if (x + 1) % 2 = 0 then 4 else 0 : Nat) >>> 2 = src0 + (x + 1) / 2 := by
  by_cases hx : (x + 1) % 2 = 0
  · rw [if_pos hx, show (4 : Nat) >>> 2 = 1 from rfl]
    omega
  · rw [if_neg hx, Nat.zero_shiftRight]
    omega

/-- The right block from pixel `x`, with the byte and shift of pixel `x`, writes the pixels
from `x` to the end of the row. -/
theorem row4Right_writes (src0 : Nat) (width : Int) (n : Nat) :
    ∀ x : Nat, (width - x).toNat = n →
      WritesRun (d + x) n (fun j => nibblePixel pal data src0 (x + j))
        fun dst => row4Right d pal data width dst (src0 + x / 2) x (if x % 2 = 0 then 4 else 0) := by
  induction n with
  | zero =>
    intro x hn
    refine (WritesRun.id (d + x) _).of_eq fun dst => ?_
    rw [row4Right_of_le d pal data _ _ _ _ _ (by omega)]
    rfl
  | succ n ih =>
    intro x hn
    -- pixel `x`, then the rest of the row from `x + 1` with the next byte and shift
    have hrest : WritesRun (d + x + 1) n (fun y => nibblePixel pal data src0 (x + (y + 1)))
        fun dst => row4Right d pal data width dst (src0 + (x + 1) / 2) (x + 1)
          (if (x + 1) % 2 = 0 then 4 else 0) :=
      (ih (x + 1) (by omega)).congr fun y _ => by rw [Nat.add_assoc, Nat.add_comm 1 y]
    refine ((putPixel_writes d x (nibblePixel pal data src0 (x + 0))).cons hrest).of_eq
      fun dst => ?_
    rw [row4Right, if_pos (by omega)]
    dsimp only
    rw [shift_xor_four, src_add_shift, row4Right_pixel, Nat.add_zero]
    rfl

/-- A row of the 4-bit path at an even `src_x`: pixel `j` is the nibble `j` from the high one of
the byte `src` that holds `src_x`. -/
theorem copyRow4_even_writes (src srcX w : Nat) (heven : srcX % 2 = 0) :
    WritesRun d w (nibblePixel pal data src) (copyRow4 d pal data src srcX w) := by
  have hbit : ¬(srcX &&& 1 ≠ 0) := by
    rw [Nat.and_one_is_mod]
    omega
  -- the middle block up to `width & ~3`, then the right block from there at a high nibble
  have hquads : WritesRun d (4 * (w / 4)) (nibblePixel pal data src)
      fun dst => (rowQuads d (fun y => nibblePixel pal data src (y - 0))
        ((4 * (w / 4) : Nat) : Int) dst 0).1 :=
    (rowQuads_writes d _ (w / 4)).congr fun y _ => by rw [Nat.sub_zero]
  have hright := row4Right_writes d pal data src w (w - 4 * (w / 4)) (4 * (w / 4)) (by omega)
  rw [if_pos (show 4 * (w / 4) % 2 = 0 by omega)] at hright
  have h := hquads.append hright
  rw [show 4 * (w / 4) + (w - 4 * (w / 4)) = w by omega] at h
  refine h.of_eq fun dst => ?_
  simp only [copyRow4, if_neg hbit, Nat.cast_zero, sub_zero, zero_add, alignDown_four,
    row4Middle_eq, rowQuads_zero_snd, Nat.sub_zero, Function.comp_apply]

end FourBit

/-! ## The rectangle -/

/-- Rows that each write their run of the rectangle, rows `0` to `n - 1` in order, write the
rectangle: each row stays in its own row of the destination. -/
theorem copyRows_rectWritten (row : Nat → List UInt32 → List UInt32) {pitch x0 y0 w : Nat}
    (px : Nat → Nat → UInt32) (hw : x0 + w ≤ pitch)
    (hrow : ∀ y, WritesRun ((y0 + y) * pitch + x0) w (px y) (row y)) :
    ∀ n dst, RectWritten pitch x0 y0 w n px dst (copyRows row n dst)
  | 0, dst => RectWritten.zero pitch x0 y0 w px dst
  | n + 1, dst => by
    rw [copyRows]
    exact RectWritten.succ hw (copyRows_rectWritten row px hw hrow n dst) (hrow n)

/-- The nibble `k` pixels after the even pixel `src_x` of a row, counted from the byte that holds
`src_x`. -/
theorem nibblePixel_even (pal : List UInt32) (data : List UInt8) (row srcX k : Nat)
    (heven : srcX % 2 = 0) :
    nibblePixel pal data (row + srcX / 2) k = nibblePixel pal data row (srcX + k) := by
  simp only [nibblePixel]
  rw [show row + srcX / 2 + k / 2 = row + (srcX + k) / 2 by omega,
    show (srcX + k) % 2 = k % 2 by omega]

/-- Every format the copy converts, at an even `src_x` for the 4-bit one, into a rectangle that
fits in a destination row: the copy returns 0, every pixel of the rectangle holds the colour of
the source pixel it stands for, and every other pixel is left as it was. -/
theorem qePictureCopy_rect (xtermColors : List UInt32) (toPic : RGBAPicture) (dstX dstY : Nat)
    (src : QEPicture) (srcX srcY w h : Nat)
    (hconv : src.format ≠ .rgba32 ∧ src.format ≠ .yuv420p)
    (heven : src.format = .fourBit → srcX % 2 = 0) (hw : dstX + w ≤ toPic.pitch) :
    (qePictureCopy xtermColors toPic dstX dstY src srcX srcY w h).1 = 0 ∧
    RectWritten toPic.pitch dstX dstY w h
      (fun y x => pixelColor xtermColors src (srcX + x) (srcY + y)) toPic.pixels
      (qePictureCopy xtermColors toPic dstX dstY src srcX srcY w h).2 := by
  cases hf : src.format with
  | rgba32 => exact absurd hf hconv.1
  | yuv420p => exact absurd hf hconv.2
  | eightBit =>
    simp only [qePictureCopy, hf, true_and]
    refine copyRows_rectWritten _ _ hw (fun y => (copyRowQuads_writes _ _ w).congr fun x _ => ?_) h _
    simp only [pixelColor, hf, Nat.add_assoc]
  | fourBit =>
    simp only [qePictureCopy, hf, true_and]
    refine copyRows_rectWritten _ _ hw
      (fun y => (copyRow4_even_writes _ _ _ _ srcX w (heven hf)).congr fun x _ => ?_) h _
    simp only [pixelColor, hf, Nat.shiftRight_one]
    rw [nibblePixel_even _ _ _ _ _ (heven hf)]
  | oneBit =>
    simp only [qePictureCopy, hf, true_and]
    refine copyRows_rectWritten _ _ hw
      (fun y => (copyRow1_writes _ _ _ _ srcX w).congr fun x _ => ?_) h _
    have h8 : srcX >>> 3 = srcX / 8 := Nat.shiftRight_eq_div_pow srcX 3
    simp only [pixelColor, hf, h8]
    rw [show (srcY + y) * src.linesize + srcX / 8 + (srcX % 8 + x) / 8 =
        (srcY + y) * src.linesize + (srcX + x) / 8 by omega,
      show (srcX % 8 + x) % 8 = (srcX + x) % 8 by omega]
  | rgb565 =>
    simp only [qePictureCopy, hf, true_and]
    refine copyRows_rectWritten _ _ hw (fun y => (rowWords_writes _ _ w).congr fun x _ => ?_) h _
    simp only [pixelColor, hf]
    rw [show (srcY + y) * src.linesize + 2 * srcX + 2 * x =
      (srcY + y) * src.linesize + 2 * (srcX + x) by ring]
  | rgb555 =>
    simp only [qePictureCopy, hf, true_and]
    refine copyRows_rectWritten _ _ hw (fun y => (rowWords_writes _ _ w).congr fun x _ => ?_) h _
    simp only [pixelColor, hf]
    rw [show (srcY + y) * src.linesize + 2 * srcX + 2 * x =
      (srcY + y) * src.linesize + 2 * (srcX + x) by ring]
  | rgb24 =>
    simp only [qePictureCopy, hf, true_and]
    refine copyRows_rectWritten _ _ hw (fun y => (copyRowQuads_writes _ _ w).congr fun x _ => ?_) h _
    simp only [pixelColor, hf]
    rw [show (srcY + y) * src.linesize + srcX * 3 + 3 * x =
      (srcY + y) * src.linesize + 3 * (srcX + x) by ring]
  | bgr24 =>
    simp only [qePictureCopy, hf, true_and]
    refine copyRows_rectWritten _ _ hw (fun y => (copyRowQuads_writes _ _ w).congr fun x _ => ?_) h _
    simp only [pixelColor, hf]
    rw [show (srcY + y) * src.linesize + srcX * 3 + 3 * x =
      (srcY + y) * src.linesize + 3 * (srcX + x) by ring]
  | bgra32 =>
    simp only [qePictureCopy, hf, true_and]
    refine copyRows_rectWritten _ _ hw (fun y => (copyRowQuads_writes _ _ w).congr fun x _ => ?_) h _
    simp only [pixelColor, hf]
    rw [show (srcY + y) * src.linesize + srcX * 4 + 4 * x =
      (srcY + y) * src.linesize + 4 * (srcX + x) by ring]

theorem qePictureCopy_rect_fourBit :
    let src : QEPicture :=
      ⟨.fourBit, [0x12, 0x34, 0x56], 3, some ((List.range 16).map Nat.toUInt32)⟩
    let toPic : RGBAPicture := ⟨List.replicate 6 0, 6⟩
    (qePictureCopy [] toPic 1 0 src 2 0 3 1).1 = 0 ∧
    RectWritten 6 1 0 3 1 (fun y x => pixelColor [] src (2 + x) (0 + y)) toPic.pixels
      (qePictureCopy [] toPic 1 0 src 2 0 3 1).2 := by
  intro src toPic
  exact qePictureCopy_rect [] toPic 1 0 src 2 0 3 1 ⟨by decide, by decide⟩ (fun _ => rfl) (by decide)

end Qemacs
