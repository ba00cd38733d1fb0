import Mathlib
import Qemacs.Tty.Driver

/-!
# The shadow follows the screen

`line_updated` marks the rows of the screen that may differ from what the terminal was last
sent, which the shadow records. Every step changes the cells of rows that it marks only, and the
flush copies the marked rows to their shadow and clears the marks. The invariant (`Synced`) is
that the shadow of every cell of an unmarked row is the cell.

* `TtyStep.synced`: every step keeps it;
* `ttyReachable_synced`: every state the display reaches from its start has it;
* `ttyReachable_flush_shadow`: in such a state the flush ends with the shadow equal to the
  screen and no row marked, as `comb_cache_clean` assumes when it scans the screen only;
* `ttyReachable_flush_twice`: a second flush then sends no cell.

A string that starts with a mark is left out of the steps: `tty_dpy_draw_text` skips a mark at
the start of the string, but joins a second one to it and writes the combination into the cell
before the string. At the left edge that cell is the last of the row above, which the draw does
not mark (`ttyDpyDrawText_marks_unsynced`).
-/

namespace Qemacs

/-- The shadow of every cell of an unmarked row is the cell. -/
def Synced (d : TTYDisplay) : Prop :=
  ∀ j < d.scr.width * d.height, d.scr.lineUpdated.getD (j / d.scr.width) false = false →
    d.shadow[j]? = d.scr.screen[j]?

/-! ## Changes inside marked rows -/

section Marks

variable {d d' : TTYDisplay}

/-- A change that keeps the sizes and the shadow, and changes only cells of rows it marks. -/
theorem Synced.of_marked (h : Synced d) (hw : d'.scr.width = d.scr.width)
    (hh : d'.height = d.height) (hsh : d'.shadow = d.shadow)
    (hcells : ∀ j < d.scr.width * d.height, d'.scr.lineUpdated.getD (j / d.scr.width) false = false →
      d.scr.lineUpdated.getD (j / d.scr.width) false = false ∧ d'.scr.screen[j]? = d.scr.screen[j]?) :
    Synced d' := by
  intro j hj hmark
  rw [hw, hh] at hj
  rw [hw] at hmark
  obtain ⟨hold, hcell⟩ := hcells j hj hmark
  rw [hsh, hcell]
  exact h j hj hold

/-- A cell of an unmarked row after row `y` is marked is not in row `y`, and its row was
unmarked before. -/
theorem getD_set_true_eq_false {lu : List Bool} {y r : Nat} (hy : y < lu.length)
    (h : (lu.set y true).getD r false = false) : r ≠ y ∧ lu.getD r false = false := by
  have hne : r ≠ y := by
    rintro rfl
    rw [List.getD_eq_getElem?_getD, List.getElem?_set_self hy] at h
    cases h
  refine ⟨hne, ?_⟩
  rwa [List.getD_eq_getElem?_getD, List.getElem?_set_ne (Ne.symm hne),
    ← List.getD_eq_getElem?_getD] at h

theorem mapCells_getElem?_of_not_mem (f : TTYChar → TTYChar) :
    ∀ (n : Nat) (screen : List TTYChar) (p i : Nat), (i < p ∨ p + n ≤ i) →
      (mapCells f n screen p)[i]? = screen[i]?
  | 0, _, _, _, _ => rfl
  | n + 1, screen, p, i, hi => by
    rw [mapCells, mapCells_getElem?_of_not_mem f n _ (p + 1) i (by omega),
      List.getElem?_modify_ne f _ (by omega)]

/-- One row of a rectangle: row `y` marked, and cells of row `y` changed. -/
theorem Synced.mapRow (h : Synced d) (f : TTYChar → TTYChar) {x1 w y : Nat}
    (hw : 0 < d.scr.width) (hx : x1 + w ≤ d.scr.width) (hy : y < d.scr.lineUpdated.length) :
    Synced { d with scr := { d.scr with lineUpdated := d.scr.lineUpdated.set y true,
                                        screen := mapCells f w d.scr.screen (y * d.scr.width + x1) } } := by
  refine h.of_marked rfl rfl rfl fun j hj hmark => ?_
  obtain ⟨hrow, hold⟩ := getD_set_true_eq_false hy hmark
  refine ⟨hold, mapCells_getElem?_of_not_mem f w _ _ j ?_⟩
  -- a cell of another row is outside the columns of row `y`
  have := mt (cell_row_iff hw).mp hrow
  omega

/-- The rectangle loop keeps the invariant when its rows are on the screen and its columns
inside a row. -/
theorem Synced.mapRect (f : TTYChar → TTYChar) {x1 w : Nat} :
    ∀ (h y : Nat) (d : TTYDisplay), Synced d → 0 < d.scr.width → x1 + w ≤ d.scr.width →
      y + h ≤ d.scr.lineUpdated.length → Synced { d with scr := mapRect f x1 w h y d.scr }
  | 0, _, _, hs, _, _, _ => hs
  | h + 1, y, d, hs, hw, hx, hy =>
    Synced.mapRect f h (y + 1) _ (hs.mapRow f hw hx (by omega)) hw hx
      (by simp only [List.length_set]; omega)

end Marks

/-! ## Each step -/

section Step

variable {tbl : UInt32 → Nat} {d d' : TTYDisplay}

/-- Drawing marks its row and changes cells of that row only, when the string does not start
with a mark. -/
theorem Synced.drawText (h : Synced d) (hs : TtyShape d) {fg : Nat} {x y : Int}
    {str : List UInt32} {s' : TTYScreen}
    (hfirst : ∀ c rest, str = c :: rest → isZeroWidth tbl c = false)
    (hdraw : ttyDpyDrawText tbl fg d.scr x y str = some s') : Synced { d with scr := s' } := by
  have hframe := ttyDpyDrawText_frame tbl fg d.scr s' x y str hfirst hdraw
  rcases ttyDpyDrawText_eq hdraw with rfl | ⟨hy1, hy2, screen, cache, rfl, -⟩
  · exact h
  have hX1 := hs.clipX1_nonneg
  have hX2 := hs.clipX2_le
  have hY1 := hs.clipY1_nonneg
  have hY2 := hs.clipY2_le
  refine h.of_marked rfl rfl rfl fun j hj hmark => ?_
  have hy : y.toNat < d.scr.lineUpdated.length := by
    rw [hs.lineUpdated_length]
    omega
  obtain ⟨hrow, hold⟩ := getD_set_true_eq_false hy hmark
  refine ⟨hold, hframe j ?_⟩
  -- a cell of another row is outside the clipped part of row `y`
  have hout := mt (cell_row_iff hs.width_pos).mp hrow
  have hcast : ((y.toNat * d.scr.width : Nat) : Int) = y * d.scr.width := by
    rw [Nat.cast_mul, Int.toNat_of_nonneg (by omega)]
  generalize y.toNat * d.scr.width = N at hout hcast
  generalize y * (d.scr.width : Int) = Y at hcast ⊢
  omega

theorem Synced.fillRect (h : Synced d) (hs : TtyShape d) (x1 y1 w hh : Int) (bg : Nat) :
    Synced { d with scr := fillRectangle d.scr x1 y1 w hh bg } := by
  rcases fillRectangle_eq hs.clipX1_nonneg hs.clipY1_nonneg x1 y1 w hh bg with
    heq | ⟨a, b, c, e, heq, -, -, -, hac, -, hbe⟩ <;> rw [heq]
  · exact h
  · have := hs.clipX2_le
    have := hs.clipY2_le
    exact Synced.mapRect _ e b d h hs.width_pos (by omega) (by rw [hs.lineUpdated_length]; omega)

theorem Synced.xorRect (h : Synced d) (hs : TtyShape d) (x y w hh : Int) :
    Synced { d with scr := xorRectangle d.scr x y w hh } := by
  rcases xorRectangle_eq hs.clipX1_nonneg hs.clipY1_nonneg x y w hh with
    heq | ⟨a, b, c, e, heq, -, -, -, hac, -, hbe⟩ <;> rw [heq]
  · exact h
  · have := hs.clipX2_le
    have := hs.clipY2_le
    exact Synced.mapRect _ e b d h hs.width_pos (by omega) (by rw [hs.lineUpdated_length]; omega)

/-- After a flush the shadow of every cell is the cell and no row is marked. -/
theorem Synced.flush (h : Synced d) (hs : TtyShape d) {t : TTYOutput} {out : List UInt8}
    (hf : ttyDpyFlush t d = some (d', out)) :
    (∀ j < d'.scr.width * d'.height, d'.shadow[j]? = d'.scr.screen[j]?) ∧
      ∀ y, d'.scr.lineUpdated.getD y false = false := by
  obtain ⟨hscr, hw, hh, -, -, hcopy, -, hmarks⟩ := hs.flush hf
  refine ⟨fun j hj => ?_, fun y => ?_⟩
  · rw [hw, hh] at hj
    rw [hcopy j, hscr]
    split
    · rfl
    · -- an unmarked row had its shadow already
      rename_i hnot
      exact h j hj (by simpa [hj] using hnot)
  · rw [hmarks y]
    by_cases hy : y < d.height
    · simp [hy]
    · have hnone : d.scr.lineUpdated.getD y false = false := by
        rw [List.getD_eq_getElem?_getD, List.getElem?_eq_none (by rw [hs.lineUpdated_length]; omega)]
        rfl
      rw [hnone, Bool.false_and]

theorem ttyDpyInvalidate_synced (d : TTYDisplay) {cols : Int} (rows : Int) (hcols : 0 < cols) :
    Synced (ttyDpyInvalidate d cols rows) := by
  -- every row is marked
  intro j hj hmark
  have hw := (ttyDpyInvalidate_shape d rows hcols).width_pos
  have hrow : j / (ttyDpyInvalidate d cols rows).scr.width < (ttyDpyInvalidate d cols rows).height := by
    rw [Nat.div_lt_iff_lt_mul hw, Nat.mul_comm]
    exact hj
  simp only [ttyDpyInvalidate] at hmark hrow
  rw [List.getD_eq_getElem?_getD, List.getElem?_replicate_of_lt hrow] at hmark
  cases hmark

/-- Every step keeps the invariant. -/
theorem TtyStep.synced (hstep : TtyStep tbl d d') (hs : TtyShape d) (h : Synced d) : Synced d' := by
  cases hstep with
  | drawText fg x y str hstr hlen hfirst hdraw => exact h.drawText hs hfirst hdraw
  | fillRect _ x1 y1 w hh bg => exact h.fillRect hs x1 y1 w hh bg
  | xorRect _ x y w hh => exact h.xorRect hs x y w hh
  | setClip _ r => exact h
  | pushClip _ r => exact h
  | flush t hf =>
    obtain ⟨hall, -⟩ := h.flush hs hf
    exact fun j hj _ => hall j hj
  | invalidate _ cols rows hcols => exact ttyDpyInvalidate_synced d rows hcols

end Step

/-! ## Runs -/

section Runs

variable {tbl : UInt32 → Nat} {cols rows : Int} {d : TTYDisplay}

theorem TtyStep.run_synced {d₀ : TTYDisplay} (h₀ : TtyShape d₀ ∧ Synced d₀)
    (hrun : Relation.ReflTransGen (TtyStep tbl) d₀ d) : TtyShape d ∧ Synced d := by
  induction hrun with
  | refl => exact h₀
  | tail _ hstep ih => exact ⟨hstep.shape ih.1, hstep.synced ih.1 ih.2⟩

/-- In every state the display reaches from its start, the shadow of every cell of an
unmarked row is the cell. -/
theorem ttyReachable_synced (hcols : 0 < cols)
    (hs : Relation.ReflTransGen (TtyStep tbl) (ttyInit cols rows) d) : Synced d :=
  (TtyStep.run_synced ⟨ttyDpyInvalidate_shape _ rows hcols, ttyDpyInvalidate_synced _ rows hcols⟩ hs).2

theorem ttyReachable_synced_fill :
    0 < (80 : Int) ∧ Synced { ttyInit 80 24 with scr := fillRectangle (ttyInit 80 24).scr 2 3 10 4 1 } :=
  ⟨by decide, ttyReachable_synced (by decide)
    (Relation.ReflTransGen.single (show TtyStep (fun _ => 1) _ _ from TtyStep.fillRect _ 2 3 10 4 1))⟩

/-- In every state the display reaches from its start, the flush ends, and leaves the screen as
it is, the shadow equal to the screen and no row marked. -/
theorem ttyReachable_flush_shadow (hcols : 0 < cols)
    (hs : Relation.ReflTransGen (TtyStep tbl) (ttyInit cols rows) d) (t : TTYOutput) :
    ∃ d' out, ttyDpyFlush t d = some (d', out) ∧ d'.scr.screen = d.scr.screen ∧
      d'.shadow.take (d.scr.width * d.height) = d.scr.screen ∧
      ∀ y, d'.scr.lineUpdated.getD y false = false := by
  obtain ⟨hshape, blocks, hc, hn⟩ := TtyStep.run_combOK (ttyInit_shape_combOK hcols) hs
  have hsync := (TtyStep.run_synced
    ⟨ttyDpyInvalidate_shape _ rows hcols, ttyDpyInvalidate_synced _ rows hcols⟩ hs).2
  obtain ⟨d', out, hf, hscr, -⟩ := ttyDpyFlush_clean t hshape hc hn
  obtain ⟨-, hw, hh, -⟩ := hshape.flush hf
  obtain ⟨hall, hmarks⟩ := hsync.flush hshape hf
  refine ⟨d', out, hf, hscr, List.ext_getElem? fun j => ?_, hmarks⟩
  rw [List.getElem?_take]
  split
  · rename_i hj
    rw [hall j (by rw [hw, hh]; exact hj), hscr]
  · rw [List.getElem?_eq_none (by rw [hshape.screen_length]; omega)]

theorem ttyReachable_flush_shadow_init :
    0 < (80 : Int) ∧ ∃ d' out,
      ttyDpyFlush ⟨false, false, false, false, 8, 8, fun _ => 0, fun _ => 0, fun c => some [c.toUInt8],
        false, fun _ => false, fun _ => 1, 0, 0⟩ (ttyInit 80 24) = some (d', out) ∧
      d'.scr.screen = (ttyInit 80 24).scr.screen ∧
      d'.shadow.take ((ttyInit 80 24).scr.width * (ttyInit 80 24).height) = (ttyInit 80 24).scr.screen ∧
      ∀ y, d'.scr.lineUpdated.getD y false = false :=
  ⟨by decide, ttyReachable_flush_shadow (by decide) (Relation.ReflTransGen.refl (r := TtyStep fun _ => 1)) _⟩

/-- In every state the display reaches, a flush right after a flush sends no cell: only the
cursor hidden, the attributes reset, and the cursor placed again. -/
theorem ttyReachable_flush_twice (hcols : 0 < cols)
    (hs : Relation.ReflTransGen (TtyStep tbl) (ttyInit cols rows) d) {t : TTYOutput} {d' : TTYDisplay}
    {out : List UInt8} (hf : ttyDpyFlush t d = some (d', out)) :
    ∃ d'', ttyDpyFlush t d' = some (d'', asciiBytes "\x1b[?25l\x1b[H\x1b[0m" ++
        (if t.cygwin then [] else asciiBytes "\x1b(B\x1b)0") ++ asciiBytes "\x1b[0m" ++
        (if t.cursorY + 1 ≥ 0 ∧ t.cursorX + 1 ≥ 0 then
          asciiBytes "\x1b[?25h" ++ cupBytes (t.cursorY + 1) (t.cursorX + 1) else [])) ∧
      d''.shadow = d'.shadow := by
  have h₀ : TtyShape (ttyInit cols rows) ∧ Synced (ttyInit cols rows) :=
    ⟨ttyDpyInvalidate_shape _ rows hcols, ttyDpyInvalidate_synced _ rows hcols⟩
  obtain ⟨hshape, hsync⟩ := TtyStep.run_synced h₀ hs
  -- the first flush leaves no row marked
  obtain ⟨-, hmarks⟩ := hsync.flush hshape hf
  obtain ⟨hshape', blocks, hc, hn⟩ :=
    TtyStep.run_combOK (ttyInit_shape_combOK hcols) (hs.tail (TtyStep.flush t hf))
  obtain ⟨d'', out'', hf', -⟩ := ttyDpyFlush_clean t hshape' hc hn
  obtain ⟨hout, hshadow⟩ := ttyDpyFlush_unmarked hmarks hf'
  refine ⟨d'', hout ▸ hf', ?_⟩
  rw [hshadow, List.drop_left' hshape'.screen_length]

theorem ttyReachable_flush_twice_init :
    let t : TTYOutput := ⟨false, false, false, false, 8, 8, fun _ => 0, fun _ => 0,
      fun c => some [c.toUInt8], false, fun _ => false, fun _ => 1, 0, 0⟩
    0 < (80 : Int) ∧ ∃ d' out, ttyDpyFlush t (ttyInit 80 24) = some (d', out) ∧
      ∃ d'', ttyDpyFlush t d' = some (d'', asciiBytes "\x1b[?25l\x1b[H\x1b[0m" ++
        (if t.cygwin then [] else asciiBytes "\x1b(B\x1b)0") ++ asciiBytes "\x1b[0m" ++
        (if t.cursorY + 1 ≥ 0 ∧ t.cursorX + 1 ≥ 0 then
          asciiBytes "\x1b[?25h" ++ cupBytes (t.cursorY + 1) (t.cursorX + 1) else [])) ∧
      d''.shadow = d'.shadow := by
  intro t
  have h₀ : TtyShape (ttyInit 80 24) ∧ CombOK (ttyInit 80 24).scr := ttyInit_shape_combOK (by decide)
  obtain ⟨hshape, blocks, hc, hn⟩ := h₀
  obtain ⟨d', out, hf, -⟩ := ttyDpyFlush_clean t hshape hc hn
  exact ⟨by decide, d', out, hf,
    ttyReachable_flush_twice (by decide) (Relation.ReflTransGen.refl (r := TtyStep fun _ => 1)) hf⟩

end Runs

/-! ## A string that starts with marks -/

section Bug

variable {tbl : UInt32 → Nat} {fg : Nat}

/-- A combination added to a chain gets a code from `TTY_CHAR_BAD` on: the replacement glyph or
a code of the cache. -/
theorem combCacheAdd_code {cache : List UInt32} {blocks : List CombBlock} {seq : List UInt32}
    (hc : CombChain cache blocks) (hlen : seq.length < 2 ^ 31) :
    ∃ code cache', combCacheAdd cache seq = some (code, cache') ∧ TTY_CHAR_BAD ≤ code := by
  obtain ⟨code, cache', hadd, hcases⟩ := combCacheAdd_refines hc hlen
  refine ⟨code, cache', hadd, ?_⟩
  rcases hcases with ⟨-, rfl, -⟩ | ⟨o, blocks', halloc, rfl, hc', -⟩
  · exact UInt32.le_iff_toNat_le.mpr (le_refl _)
  · have ho : o < COMB_CACHE_SIZE - 1 := by
      have := combBlockAt_lt (combAlloc_combAt halloc)
      have := hc'.layout_lt
      omega
    have hlt : o < 2047 := ho
    have hto : o.toUInt32.toNat = o := toNat_toUInt32_of_lt (by omega)
    simp only [UInt32.le_iff_toNat_le, UInt32.toNat_add, hto, TTY_CHAR_BAD, TTY_CHAR_COMB]
    simp
    omega

/-- Two marks drawn at the left edge: the first is skipped as the start of the string, and the
second is joined to it into a combination written into the cell before the string. -/
theorem ttyDpyDrawText_two_marks (fg : Nat) {s : TTYScreen} {blocks : List CombBlock} {y : Int}
    {m₁ m₂ : UInt32} (hc : CombChain s.combCache blocks) (hX1 : s.clipX1 = 0) (hX2 : 0 < s.clipX2)
    (hy1 : s.clipY1 ≤ y) (hy2 : y < s.clipY2) (h₁ : ttyTermGlyphWidth tbl m₁ = 0)
    (h₂ : ttyTermGlyphWidth tbl m₂ = 0) :
    ∃ code cache', TTY_CHAR_BAD ≤ code ∧ ttyDpyDrawText tbl fg s 0 y [m₁, m₂] =
      some { s with screen := putCell s.screen (y * s.width - 1) code fg, combCache := cache',
                    lineUpdated := s.lineUpdated.set y.toNat true } := by
  obtain ⟨code, cache', hadd, hcode⟩ := combCacheAdd_code hc
    (show [m₁, m₂].length < 2 ^ 31 by simp)
  refine ⟨code, cache', hcode, ?_⟩
  unfold ttyDpyDrawText
  rw [if_neg (by omega)]
  dsimp only
  rw [if_neg (by omega)]
  have hfit : ¬ (0 + 0 : Int) > s.clipX2 := by omega
  -- the first mark is skipped, as the start of the string
  rw [drawTextLoop]
  simp only [h₁, if_neg hfit, if_true]
  -- the second is joined to it
  rw [drawTextLoop]
  simp only [h₂, if_neg hfit, if_true, List.takeWhile_nil, List.dropWhile_nil, hadd]
  rw [drawTextLoop]
  simp

/-- Two marks drawn at the left edge of row `y` change the last cell of the row above, which they
do not mark: from a display with the invariant, whose row above is unmarked and holds there a
cell below the codes, the draw breaks the invariant. -/
theorem ttyDpyDrawText_marks_unsynced {d : TTYDisplay} {blocks : List CombBlock} {y : Int}
    {m₁ m₂ : UInt32} (hs : TtyShape d) (hsync : Synced d) (hc : CombChain d.scr.combCache blocks)
    (hX1 : d.scr.clipX1 = 0) (hX2 : 0 < d.scr.clipX2) (hy1 : d.scr.clipY1 ≤ y)
    (hy2 : y < d.scr.clipY2) (hy : 0 < y) (h₁ : ttyTermGlyphWidth tbl m₁ = 0)
    (h₂ : ttyTermGlyphWidth tbl m₂ = 0)
    (hmark : d.scr.lineUpdated.getD (y.toNat - 1) false = false)
    (hcell : (d.scr.screen.getD (y.toNat * d.scr.width - 1) TTY_CHAR_DEFAULT).ch < TTY_CHAR_BAD) :
    ∃ s', ttyDpyDrawText tbl fg d.scr 0 y [m₁, m₂] = some s' ∧ ¬ Synced { d with scr := s' } := by
  obtain ⟨code, cache', hcode, hdraw⟩ := ttyDpyDrawText_two_marks fg hc hX1 hX2 hy1 hy2 h₁ h₂
  refine ⟨_, hdraw, fun hsync' => ?_⟩
  have hw := hs.width_pos
  have hY2 := hs.clipY2_le
  -- the cell before the string is the last of row `y - 1`
  obtain ⟨Y, rfl⟩ : ∃ Y : Nat, y = ((Y + 1 : Nat) : Int) := ⟨y.toNat - 1, by omega⟩
  have hYh : Y + 1 < d.height := by omega
  have hrow : (Y + 1) * d.scr.width - 1 = Y * d.scr.width + (d.scr.width - 1) := by
    rw [Nat.succ_mul]
    omega
  have hj : (Y + 1) * d.scr.width - 1 < d.scr.width * d.height := by
    have := Nat.mul_lt_mul_of_pos_right hYh hw
    rw [Nat.mul_comm d.scr.width]
    omega
  have hdiv : ((Y + 1) * d.scr.width - 1) / d.scr.width = Y := by
    rw [← cell_row_iff hw, hrow]
    omega
  simp only [Int.toNat_natCast, Nat.add_sub_cancel] at hmark hcell
  -- its row stays unmarked
  have hmark' : (d.scr.lineUpdated.set (Y + 1) true).getD Y false = false := by
    rw [List.getD_eq_getElem?_getD, List.getElem?_set_ne (by omega), ← List.getD_eq_getElem?_getD]
    exact hmark
  have hold := hsync _ hj (by rw [hdiv]; exact hmark)
  have hnew := hsync' _ hj (by simp only; rw [hdiv]; exact hmark')
  -- the cell now holds the code, and the shadow the cell as it was
  have hlt : (Y + 1) * d.scr.width - 1 < d.scr.screen.length := by rw [hs.screen_length]; exact hj
  have hk : 0 < (Y + 1) * d.scr.width := Nat.mul_pos (Nat.succ_pos Y) hw
  have hp : (((Y + 1 : Nat) : Int) * d.scr.width - 1).toNat = (Y + 1) * d.scr.width - 1 := by
    rw [← Nat.cast_mul]
    omega
  simp only at hnew
  rw [← hp, putCell_getElem?_self (by rw [← Nat.cast_mul]; omega), hp, hold,
    List.getElem?_eq_getElem hlt, Option.map_some] at hnew
  rw [List.getD_eq_getElem?_getD, List.getElem?_eq_getElem hlt, Option.getD_some] at hcell
  have hch := congrArg TTYChar.ch (Option.some.inj hnew)
  simp only at hch
  rw [← hch] at hcode
  rw [UInt32.le_iff_toNat_le] at hcode
  rw [UInt32.lt_iff_toNat_lt] at hcell
  omega

theorem ttyDpyDrawText_marks_unsynced_acute :
    let d : TTYDisplay := ⟨⟨2, List.replicate 4 TTY_CHAR_DEFAULT, [false, false],
      List.replicate COMB_CACHE_SIZE 0, 0, 0, 2, 2⟩, 2, List.replicate 4 TTY_CHAR_DEFAULT ++ [TTY_CHAR_ERASED]⟩
    (TtyShape d ∧ Synced d ∧ CombChain d.scr.combCache [] ∧ d.scr.clipX1 = 0 ∧ 0 < d.scr.clipX2 ∧
      d.scr.clipY1 ≤ 1 ∧ 1 < d.scr.clipY2 ∧ (0 : Int) < 1 ∧
      ttyTermGlyphWidth (fun _ => 0) 0x301 = 0 ∧
      d.scr.lineUpdated.getD ((1 : Int).toNat - 1) false = false ∧
      (d.scr.screen.getD ((1 : Int).toNat * d.scr.width - 1) TTY_CHAR_DEFAULT).ch < TTY_CHAR_BAD) ∧
    ∃ s', ttyDpyDrawText (fun _ => 0) 7 d.scr 0 1 [0x301, 0x301] = some s' ∧
      ¬ Synced { d with scr := s' } := by
  intro d
  have hs : TtyShape d := ⟨by decide, rfl, rfl, rfl, by decide, by decide, by decide, by decide⟩
  have hsync : Synced d := by
    unfold Synced
    decide
  have hw : ttyTermGlyphWidth (fun _ => 0) 0x301 = 0 := by decide
  have hcell : (d.scr.screen.getD ((1 : Int).toNat * d.scr.width - 1) TTY_CHAR_DEFAULT).ch <
      TTY_CHAR_BAD := by decide
  exact ⟨⟨hs, hsync, combChain_empty, rfl, by decide, by decide, by decide, by decide, hw, rfl, hcell⟩,
    ttyDpyDrawText_marks_unsynced hs hsync combChain_empty rfl (by decide) (by decide) (by decide)
      (by decide) hw hw rfl hcell⟩

end Bug

end Qemacs
