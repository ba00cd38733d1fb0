import Mathlib

/-!
# Runs and rectangles of a row-major array

A picture is an array of `pitch` elements a row. A loop that writes `w` consecutive elements
from `d` on, each from a function of its column, and leaves every other element, writes a
run (`WritesRun`); runs written one after the other make one run (`WritesRun.append`).

Writing the rows `y0, y0 + 1, …` of a rectangle of columns `[x0, x0 + w)` that fits in a
row, one row after the other, gives an array that holds the rectangle's elements and agrees
with the original everywhere else (`RectWritten.succ`). An element is placed in the
rectangle by its row `i / pitch` and its column `i % pitch`. Elements past the end of the
array are never written, as `List.set` leaves the list as it is there.
-/

namespace Raster

variable {α : Type*}

/-! ## Runs -/

/-- `f` writes `px x` at `d + x` for every `x < w` that falls inside the array, and leaves
every other element. -/
def WritesRun (d w : Nat) (px : Nat → α) (f : List α → List α) : Prop :=
  ∀ dst, (f dst).length = dst.length ∧
    ∀ i, (f dst)[i]? = if d ≤ i ∧ i < d + w ∧ i < dst.length then some (px (i - d)) else dst[i]?

theorem WritesRun.id (d : Nat) (px : Nat → α) : WritesRun d 0 px id := by
  intro dst
  refine ⟨rfl, fun i => ?_⟩
  rw [if_neg (by omega)]
  rfl

/-- One element written with `List.set`. -/
theorem WritesRun.set (d : Nat) (c : α) : WritesRun d 1 (fun _ => c) fun dst => dst.set d c := by
  intro dst
  refine ⟨List.length_set .., fun i => ?_⟩
  rw [List.getElem?_set]
  by_cases hi : d = i
  · subst hi
    by_cases hl : d < dst.length
    · rw [if_pos rfl, if_pos hl, if_pos ⟨Nat.le_refl d, by omega, hl⟩]
    · rw [if_pos rfl, if_neg hl, if_neg (fun h => hl h.2.2), List.getElem?_eq_none (by omega)]
  · rw [if_neg hi, if_neg (by omega)]

/-- A run of `a` elements followed by a run of `b` elements is a run of `a + b`. -/
theorem WritesRun.append {d a b : Nat} {px : Nat → α} {f g : List α → List α}
    (hf : WritesRun d a px f) (hg : WritesRun (d + a) b (fun x => px (a + x)) g) :
    WritesRun d (a + b) px (g ∘ f) := by
  intro dst
  obtain ⟨hlf, hf⟩ := hf dst
  obtain ⟨hlg, hg⟩ := hg (f dst)
  refine ⟨by rw [Function.comp_apply, hlg, hlf], fun i => ?_⟩
  rw [Function.comp_apply, hg, hf, hlf]
  -- the element is in the second run, in the first, or in neither
  by_cases h2 : d + a ≤ i ∧ i < d + a + b ∧ i < dst.length
  · rw [if_pos h2, if_pos (by omega)]
    dsimp only
    congr 2
    omega
  · rw [if_neg h2]
    by_cases h1 : d ≤ i ∧ i < d + a ∧ i < dst.length
    · rw [if_pos h1, if_pos (by omega)]
    · rw [if_neg h1, if_neg (by omega)]

/-- A run depends on its elements only where it writes them. -/
theorem WritesRun.congr {d w : Nat} {px px' : Nat → α} {f : List α → List α}
    (h : WritesRun d w px f) (hpx : ∀ x < w, px x = px' x) : WritesRun d w px' f := by
  intro dst
  obtain ⟨hl, hget⟩ := h dst
  refine ⟨hl, fun i => ?_⟩
  rw [hget]
  by_cases hi : d ≤ i ∧ i < d + w ∧ i < dst.length
  · rw [if_pos hi, if_pos hi, hpx _ (by omega)]
  · rw [if_neg hi, if_neg hi]

/-- One element, then a run after it. -/
theorem WritesRun.cons {d n : Nat} {px : Nat → α} {f g : List α → List α}
    (hf : WritesRun d 1 (fun _ => px 0) f) (hg : WritesRun (d + 1) n (fun y => px (y + 1)) g) :
    WritesRun d (n + 1) px (g ∘ f) := by
  have h1 : WritesRun d 1 px f := hf.congr fun x hx => by rw [show x = 0 by omega]
  have h2 : WritesRun (d + 1) n (fun y => px (1 + y)) g := hg.congr fun y _ => by
    rw [Nat.add_comm]
  have h := h1.append h2
  rwa [Nat.add_comm 1 n] at h

/-- Two functions equal on every array write the same run. -/
theorem WritesRun.of_eq {d w : Nat} {px : Nat → α} {f g : List α → List α}
    (h : WritesRun d w px f) (hfg : ∀ dst, g dst = f dst) : WritesRun d w px g := by
  intro dst
  rw [hfg]
  exact h dst

/-! ## Rows and columns -/

/-- Element `i` of an array of `pitch` elements a row lies in the rectangle of rows
`[y0, y0 + h)` and columns `[x0, x0 + w)`. -/
def InRect (pitch x0 y0 w h i : Nat) : Prop :=
  y0 ≤ i / pitch ∧ i / pitch < y0 + h ∧ x0 ≤ i % pitch ∧ i % pitch < x0 + w

instance (pitch x0 y0 w h i : Nat) : Decidable (InRect pitch x0 y0 w h i) :=
  inferInstanceAs (Decidable (_ ∧ _ ∧ _ ∧ _))

/-- The run of row `r` from column `x0`, in row and column terms, when it fits in a row. -/
theorem row_range_iff {pitch x0 w r i : Nat} (hw : x0 + w ≤ pitch) :
    (r * pitch + x0 ≤ i ∧ i < r * pitch + x0 + w) ↔
      (i / pitch = r ∧ x0 ≤ i % pitch ∧ i % pitch < x0 + w) := by
  have hdm : i / pitch * pitch + i % pitch = i := Nat.div_add_mod' i pitch
  constructor
  · rintro ⟨hlo, hhi⟩
    have hq : i / pitch = r := by
      apply Nat.div_eq_of_lt_le
      · omega
      · rw [Nat.succ_mul]
        omega
    rw [hq] at hdm
    exact ⟨hq, by omega, by omega⟩
  · rintro ⟨hq, hlo, hhi⟩
    rw [hq] at hdm
    omega

/-- The column of an element of row `r`, counted from `x0`. -/
theorem sub_row_start {pitch x0 r i : Nat} (hq : i / pitch = r) (hx : x0 ≤ i % pitch) :
    i - (r * pitch + x0) = i % pitch - x0 := by
  have hdm : i / pitch * pitch + i % pitch = i := Nat.div_add_mod' i pitch
  rw [hq] at hdm
  omega

/-! ## Rectangles -/

/-- `cur` is `dst` with the elements of the rectangle that fall inside the array replaced by
`px` of their row and column in the rectangle. -/
def RectWritten (pitch x0 y0 w h : Nat) (px : Nat → Nat → α) (dst cur : List α) : Prop :=
  cur.length = dst.length ∧ ∀ i, cur[i]? =
    if InRect pitch x0 y0 w h i ∧ i < dst.length then some (px (i / pitch - y0) (i % pitch - x0))
    else dst[i]?

/-- No row written yet. -/
theorem RectWritten.zero (pitch x0 y0 w : Nat) (px : Nat → Nat → α) (dst : List α) :
    RectWritten pitch x0 y0 w 0 px dst dst := by
  refine ⟨rfl, fun i => ?_⟩
  rw [if_neg (fun h => by have := h.1.2.1; have := h.1.1; omega)]

/-- Writing the next row, as a run from its first column: the rows above stay as they are,
since the run does not leave its row. -/
theorem RectWritten.succ {pitch x0 y0 w h : Nat} {px : Nat → Nat → α} {dst cur : List α}
    {f : List α → List α} (hw : x0 + w ≤ pitch) (hcur : RectWritten pitch x0 y0 w h px dst cur)
    (hrow : WritesRun ((y0 + h) * pitch + x0) w (px h) f) :
    RectWritten pitch x0 y0 w (h + 1) px dst (f cur) := by
  obtain ⟨hlen, hget⟩ := hcur
  obtain ⟨hlen', hrow⟩ := hrow cur
  refine ⟨by rw [hlen', hlen], fun i => ?_⟩
  rw [hrow, hget, hlen]
  by_cases hnew : (y0 + h) * pitch + x0 ≤ i ∧ i < (y0 + h) * pitch + x0 + w ∧ i < dst.length
  · -- an element of the new row
    obtain ⟨hq, hlo, hhi⟩ := (row_range_iff hw).mp ⟨hnew.1, hnew.2.1⟩
    rw [if_pos hnew, if_pos ⟨⟨by omega, by omega, hlo, hhi⟩, hnew.2.2⟩, sub_row_start hq hlo,
      show i / pitch - y0 = h by omega]
  · rw [if_neg hnew]
    by_cases hold : InRect pitch x0 y0 w h i ∧ i < dst.length
    · obtain ⟨⟨h1, h2, h3, h4⟩, hl⟩ := hold
      rw [if_pos ⟨⟨h1, h2, h3, h4⟩, hl⟩, if_pos ⟨⟨h1, by omega, h3, h4⟩, hl⟩]
    · rw [if_neg hold, if_neg]
      -- an element of the larger rectangle outside the smaller one is in the new row
      rintro ⟨⟨h1, h2, h3, h4⟩, hl⟩
      by_cases hq : i / pitch = y0 + h
      · exact hnew ⟨((row_range_iff hw).mpr ⟨hq, h3, h4⟩).1,
          ((row_range_iff hw).mpr ⟨hq, h3, h4⟩).2, hl⟩
      · exact hold ⟨⟨h1, by omega, h3, h4⟩, hl⟩

end Raster
