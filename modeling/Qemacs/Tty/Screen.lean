import Qemacs.Shell.Term
import Mathlib.Data.List.GetD

/-!
# Drawing text into the tty screen array

The tty display keeps the screen as an array of cells, `width` cells a row
(tty.c). A cell holds a code point with its colours; the second column of a
wide glyph holds the placeholder `TTY_CHAR_NONE`; a base with combining marks
is one cell whose code point is `TTY_CHAR_COMB` plus the offset of the
sequence in the combination cache `comb_cache`.

`comb_cache` is a chain of blocks: an entry `len + 1` heads a block holding
`len` code points, an entry with bit 16 set heads a free block, and a zero ends
the chain. `comb_cache_add` walks the chain for a block that already holds the
sequence, then for a free block large enough, splitting it, and else appends
the sequence at the end. The walks follow `ip += *ip & 0xFFFF`, which stops
moving on an entry whose low bits are zero: the model bounds each walk by the
number of entries and returns `none` where the C loop would not end.

`tty_dpy_draw_text` writes a string of code points into one row from column
`x`, clipped to `[clip_x1, clip_x2)`. A zero-width code point is merged with
the code point before it in the string into a cache entry written to the cell
before the pointer. After a wide base that cell is the placeholder, so the
base keeps its own cell and the combination lands on the second column
(`ttyDpyDrawText_wide_accent`). Without zero-width code points the glyphs are
laid out one after the other (`ttyDpyDrawText_layout`), and drawing never
writes outside the clipped part of its row (`ttyDpyDrawText_frame`).
-/

namespace Qemacs

/-! ## Cells and the combination cache -/

/-- A cell of the screen array, `TTY_CHAR(ch, fg, bg)`: the foreground carries
the attribute bits. -/
structure TTYChar where
  ch : UInt32
  fg : Nat
  bg : Nat
  deriving DecidableEq, Repr

def TTY_CHAR_COMB : UInt32 := 0x200000
def TTY_CHAR_BAD : UInt32 := 0xFFFD
def TTY_CHAR_NONE : UInt32 := 0xFFFFFFFF
def COMB_CACHE_SIZE : Nat := 2048

/-- `TTY_CHAR_DEFAULT`, a blank cell in the default colours. -/
def TTY_CHAR_DEFAULT : TTYChar := ⟨0x20, 7, 0⟩

/-- `tty_term_glyph_width`. -/
def ttyTermGlyphWidth (tbl : UInt32 → Nat) (ucs : UInt32) : Int :=
  if ucs < 0x300 then 1 else qeWcwidth tbl ucs

/-- `ip += *ip & 0xFFFF`: the next block of the chain. -/
def combNext (cache : List UInt32) (i : Nat) : Nat :=
  i + (cache.getD i 0 &&& 0xFFFF).toNat

/-- The loop `for (ip = ts->comb_cache; *ip; ip += *ip & 0xFFFF)` until
`found`: the block where it stops, or `none` when it has not stopped within
`fuel` blocks. -/
def combWalk (cache : List UInt32) (found : Nat → Bool) : Nat → Nat → Option Nat
  | 0, _ => none
  | fuel + 1, i =>
    if cache.getD i 0 = 0 || found i then some i
    else combWalk cache found fuel (combNext cache i)

/-- `blockcpy(ip, seq, len)`. -/
def blockcpy : List UInt32 → Nat → List UInt32 → List UInt32
  | cache, _, [] => cache
  | cache, i, c :: seq => blockcpy (cache.set i c) (i + 1) seq

/-- `comb_cache_add`: the cell code of the combination `seq`, and the cache
holding it. -/
def combCacheAdd (cache : List UInt32) (seq : List UInt32) : Option (UInt32 × List UInt32) := do
  let len := seq.length
  -- a block that already holds the sequence
  let i ← combWalk cache (fun i => cache.getD i 0 == (len + 1).toUInt32 &&
    (cache.drop (i + 1)).take len == seq) (COMB_CACHE_SIZE + 1) 0
  if cache.getD i 0 ≠ 0 then
    return (TTY_CHAR_COMB + i.toUInt32, cache)
  -- a free block large enough
  let j ← combWalk cache (fun j => cache.getD j 0 ≥ 0x10001 + len.toUInt32) (COMB_CACHE_SIZE + 1) 0
  let v := cache.getD j 0
  if v = 0 then
    if j + len + 1 ≥ COMB_CACHE_SIZE then
      return (TTY_CHAR_BAD, cache)
    return (TTY_CHAR_COMB + j.toUInt32,
      blockcpy ((cache.set (j + len + 1) 0).set j (len + 1).toUInt32) (j + 1) seq)
  -- split the free block
  let cache := if v > 0x10001 + len.toUInt32 then
    cache.set (j + len + 1) (v - (len + 1).toUInt32) else cache
  return (TTY_CHAR_COMB + j.toUInt32, blockcpy (cache.set j (len + 1).toUInt32) (j + 1) seq)

theorem combWalk_of_zero {cache : List UInt32} {found : Nat → Bool} {i : Nat} (fuel : Nat)
    (h : cache.getD i 0 = 0) : combWalk cache found (fuel + 1) i = some i := by
  rw [combWalk, if_pos (by simp only [h, decide_true, Bool.true_or])]

/-- On an empty cache the sequence goes to the start, behind its length. -/
theorem combCacheAdd_fresh (seq : List UInt32) (h : seq.length + 1 < COMB_CACHE_SIZE) :
    combCacheAdd (List.replicate COMB_CACHE_SIZE 0) seq = some (TTY_CHAR_COMB,
      blockcpy (((List.replicate COMB_CACHE_SIZE 0).set (seq.length + 1) 0).set 0
        (seq.length + 1).toUInt32) 1 seq) := by
  have h0 : (List.replicate COMB_CACHE_SIZE (0 : UInt32)).getD 0 0 = 0 :=
    List.getD_replicate 0 (by decide)
  rw [combCacheAdd, combWalk_of_zero _ h0]
  dsimp only [Option.bind_eq_bind, Option.bind_some]
  rw [combWalk_of_zero _ h0, if_neg (not_not.mpr h0), Option.bind_some, if_pos h0, if_neg (by omega),
    Nat.zero_add, Nat.zero_add]
  rfl

/-! ## Drawing -/

/-- The fields of the screen and of its tty state that drawing reads and
writes. -/
structure TTYScreen where
  width : Nat
  screen : List TTYChar
  lineUpdated : List Bool
  combCache : List UInt32
  clipX1 : Int
  clipY1 : Int
  clipX2 : Int
  clipY2 : Int
  deriving DecidableEq, Repr

/-- `*ptr = TTY_CHAR(ch, fgcolor, TTY_CHAR_GET_BG(*ptr))`: the cell keeps its
background. -/
def putCell (screen : List TTYChar) (p : Int) (ch : UInt32) (fg : Nat) : List TTYChar :=
  if p < 0 then screen else screen.modify p.toNat fun c => { c with ch := ch, fg := fg }

/-- `n` cells holding `ch` from `p` on: the padding with spaces of a clipped
glyph, and the placeholders after a wide one. -/
def fillCells (ch : UInt32) (fg : Nat) : Nat → List TTYChar → Int → List TTYChar
  | 0, screen, _ => screen
  | n + 1, screen, p => fillCells ch fg n (putCell screen p ch fg) (p + 1)

/-! ## Cells outside a range -/

/-- The cells outside `[lo, hi)` are the same in both screens. -/
def SameOutside (lo hi : Int) (screen screen' : List TTYChar) : Prop :=
  ∀ i : Nat, ((i : Int) < lo ∨ hi ≤ i) → screen'[i]? = screen[i]?

namespace SameOutside

variable {lo hi : Int} {s₁ s₂ s₃ : List TTYChar}

theorem refl (lo hi : Int) (s : List TTYChar) : SameOutside lo hi s s := fun _ _ => rfl

theorem trans (h₁ : SameOutside lo hi s₁ s₂) (h₂ : SameOutside lo hi s₂ s₃) :
    SameOutside lo hi s₁ s₃ :=
  fun i hi' => (h₂ i hi').trans (h₁ i hi')

end SameOutside

section Cells

variable {screen : List TTYChar} {ch : UInt32} {fg : Nat}

theorem putCell_getElem?_of_ne {p : Int} {i : Nat} (hi : (i : Int) ≠ p) :
    (putCell screen p ch fg)[i]? = screen[i]? := by
  unfold putCell
  split
  · rfl
  · have hne : p.toNat ≠ i := by omega
    simp [hne]

theorem putCell_getElem?_self {p : Int} (hp : 0 ≤ p) :
    (putCell screen p ch fg)[p.toNat]? = screen[p.toNat]?.map fun c => { c with ch := ch, fg := fg } := by
  rw [putCell, if_neg (by omega)]
  simp

theorem putCell_sameOutside {lo hi p : Int} (hlo : lo ≤ p) (hhi : p < hi) :
    SameOutside lo hi screen (putCell screen p ch fg) :=
  fun _ hi' => putCell_getElem?_of_ne (by omega)

theorem fillCells_sameOutside {lo hi : Int} :
    ∀ (n : Nat) {screen : List TTYChar} {p : Int}, lo ≤ p → p + n ≤ hi →
      SameOutside lo hi screen (fillCells ch fg n screen p)
  | 0, screen, _, _, _ => SameOutside.refl _ _ screen
  | n + 1, _, _, hlo, hhi =>
    (putCell_sameOutside hlo (by omega)).trans (fillCells_sameOutside n (by omega) (by omega))

/-- The `j`-th cell that `fillCells` writes. -/
theorem fillCells_getElem? :
    ∀ (n : Nat) {screen : List TTYChar} {p : Int} (j : Nat), 0 ≤ p → j < n →
      (fillCells ch fg n screen p)[(p + j).toNat]? =
        screen[(p + j).toNat]?.map fun c => { c with ch := ch, fg := fg }
  | 0, _, _, _, _, hj => absurd hj (Nat.not_lt_zero _)
  | n + 1, screen, p, j, hp, hj => by
    rw [fillCells]
    cases j with
    | zero =>
      -- the first cell is `putCell`'s, and the rest start after it
      have hout : SameOutside (p + 1) (p + 1 + n) (putCell screen p ch fg)
          (fillCells ch fg n (putCell screen p ch fg) (p + 1)) :=
        fillCells_sameOutside n (le_refl _) (le_refl _)
      rw [Nat.cast_zero, Int.add_zero, hout p.toNat (.inl (by omega)), putCell_getElem?_self hp]
    | succ j =>
      have hj' : p + ↑(j + 1) = p + 1 + ↑j := by push_cast; ring
      rw [hj', fillCells_getElem? n j (by omega) (by omega),
        putCell_getElem?_of_ne (by omega)]

end Cells

section Draw

variable (tbl : UInt32 → Nat) (fg : Nat)

/-- Zero-width code points, the marks combined with the code point before them. -/
def isZeroWidth (c : UInt32) : Bool := ttyTermGlyphWidth tbl c == 0

/-- The left-clip loop of `tty_dpy_draw_text`: skip the glyphs left of
`clip_x1`, pad the visible part of the glyph that crosses it and skip its
zero-width code points. It gives the code point before the rest of the string,
the rest, the cell pointer, the column and the cells. -/
def leftClipLoop (clipX1 clipX2 row : Int) :
    Option UInt32 → List UInt32 → Int → List TTYChar →
      Option UInt32 × List UInt32 × Int × Int × List TTYChar
  | prev, [], x, screen => (prev, [], row + clipX1, x, screen)
  | _, cc :: rest, x, screen =>
    let x := x + ttyTermGlyphWidth tbl cc
    if x ≥ clipX1 then
      let n := min x clipX2 - clipX1
      let marks := rest.takeWhile (isZeroWidth tbl)
      (some ((marks.getLast?).getD cc), rest.dropWhile (isZeroWidth tbl), row + clipX1 + max n 0, x,
        fillCells 0x20 fg n.toNat screen (row + clipX1))
    else leftClipLoop clipX1 clipX2 row (some cc) rest x screen

/-- The main loop of `tty_dpy_draw_text` over the rest of the string; `prev`
is the code point before it, `str[-1]`, and `none` at the start of the
string. -/
def drawTextLoop (clipX2 : Int) (prev : Option UInt32) (str : List UInt32) (ptr x : Int)
    (screen : List TTYChar) (cache : List UInt32) : Option (List TTYChar × List UInt32) :=
  match str with
  | [] => some (screen, cache)
  | cc :: rest =>
    let w := ttyTermGlyphWidth tbl cc
    if x + w > clipX2 then
      -- pad a partially clipped glyph with spaces
      some (fillCells 0x20 fg (clipX2 - x).toNat screen ptr, cache)
    else if w = 0 then
      match prev with
      | none => drawTextLoop clipX2 (some cc) rest ptr x screen cache
      | some base =>
        -- the marks after this one join the combination with the code point before
        let marks := rest.takeWhile (isZeroWidth tbl)
        match combCacheAdd cache (base :: cc :: marks) with
        | none => none
        | some (cc', cache') =>
          drawTextLoop clipX2 (some ((marks.getLast?).getD cc)) (rest.dropWhile (isZeroWidth tbl))
            ptr x (putCell screen (ptr - 1) cc' fg) cache'
    else
      drawTextLoop clipX2 (some cc) rest (ptr + w) (x + w)
        (fillCells TTY_CHAR_NONE fg (w - 1).toNat (putCell screen ptr cc fg) (ptr + 1)) cache
termination_by str.length
decreasing_by
  all_goals
    have : (rest.dropWhile (isZeroWidth tbl)).length ≤ rest.length :=
      (List.dropWhile_sublist _).length_le
    simp only [List.length_cons]
    omega

/-- `tty_dpy_draw_text` of `str` at column `x` of row `y`, in the foreground
`fg` that `qe_map_color` and the font style give. -/
def ttyDpyDrawText (s : TTYScreen) (x y : Int) (str : List UInt32) : Option TTYScreen :=
  if y < s.clipY1 ∨ y ≥ s.clipY2 ∨ x ≥ s.clipX2 then some s
  else
    let row := y * s.width
    let (prev, str, ptr, x, screen) :=
      if x < s.clipX1 then leftClipLoop tbl fg s.clipX1 s.clipX2 row none str x s.screen
      else (none, str, row + x, x, s.screen)
    (drawTextLoop tbl fg s.clipX2 prev str ptr x screen s.combCache).map fun (screen, cache) =>
      { s with screen := screen, combCache := cache, lineUpdated := s.lineUpdated.set y.toNat true }

theorem ttyTermGlyphWidth_nonneg (c : UInt32) : 0 ≤ ttyTermGlyphWidth tbl c := by
  unfold ttyTermGlyphWidth qeWcwidth
  split
  · omega
  · split <;> omega

theorem isZeroWidth_iff {c : UInt32} : isZeroWidth tbl c = true ↔ ttyTermGlyphWidth tbl c = 0 := by
  simp [isZeroWidth]

/-- The rest of the string after its marks starts with a glyph of positive width. -/
theorem isZeroWidth_of_dropWhile {rest r : List UInt32} {c : UInt32}
    (h : rest.dropWhile (isZeroWidth tbl) = c :: r) : isZeroWidth tbl c = false := by
  have := List.head?_dropWhile_not (isZeroWidth tbl) rest
  rw [h] at this
  exact this

/-! ## Drawing stays inside the clipped row -/

/-- Each step of the main loop writes at the pointer, after it, up to the
right clip, or at the cell before it when a mark joins the glyph there. The
invariant: the pointer is not right of the column, and a mark comes only after
a glyph that the loop has written right of `lo`. -/
theorem drawTextLoop_sameOutside (clipX2 lo row : Int) {prev : Option UInt32} {str : List UInt32}
    {ptr x : Int} {screen screen' : List TTYChar} {cache cache' : List UInt32}
    (hptr : str ≠ [] → ptr ≤ row + x) (hlo : lo ≤ ptr)
    (hmark : ∀ c rest, str = c :: rest → isZeroWidth tbl c = true → prev.isSome ∧ lo < ptr)
    (h : drawTextLoop tbl fg clipX2 prev str ptr x screen cache = some (screen', cache')) :
    SameOutside lo (row + clipX2) screen screen' := by
  fun_induction drawTextLoop tbl fg clipX2 prev str ptr x screen cache with
  | case1 prev ptr x screen cache =>
    cases h
    exact SameOutside.refl _ _ _
  | case2 prev ptr x screen cache cc rest w hpad =>
    -- the spaces run from the pointer to the right clip
    cases h
    by_cases hx : x ≤ clipX2
    · have := hptr (List.cons_ne_nil cc rest)
      exact fillCells_sameOutside _ hlo (by omega)
    · rw [Int.toNat_of_nonpos (by omega)]
      exact SameOutside.refl _ _ _
  | case3 ptr x screen cache cc rest w hfit hw ih =>
    have := (hmark cc rest rfl ((isZeroWidth_iff tbl).mpr hw)).1
    contradiction
  | case4 => cases h
  | case5 ptr x screen cache cc rest w hfit hw base marks cc' cache'' hadd ih =>
    -- the combination goes to the cell before the pointer
    have hin := hmark cc rest rfl ((isZeroWidth_iff tbl).mpr hw)
    have hx := hptr (List.cons_ne_nil cc rest)
    have hw0 : ttyTermGlyphWidth tbl cc = 0 := hw
    refine (putCell_sameOutside (by omega) (by omega)).trans (ih ?_ hlo ?_ h)
    · intro _
      exact hx
    · intro c r hcr hc
      rw [isZeroWidth_of_dropWhile tbl hcr] at hc
      contradiction
  | case6 prev ptr x screen cache cc rest w hfit hw ih =>
    -- the glyph and its placeholders fill `[ptr, ptr + w)`
    have hx := hptr (List.cons_ne_nil cc rest)
    have hw0 := ttyTermGlyphWidth_nonneg tbl cc
    have hw1 : 0 < w := by omega
    have hcells : SameOutside lo (row + clipX2) screen
        (fillCells TTY_CHAR_NONE fg (w - 1).toNat (putCell screen ptr cc fg) (ptr + 1)) :=
      (putCell_sameOutside hlo (by omega)).trans (fillCells_sameOutside _ (by omega) (by omega))
    refine hcells.trans (ih (fun _ => by omega) (by omega) ?_ h)
    intro _ _ _ _
    exact ⟨rfl, by omega⟩

/-- The left-clip loop pads inside the clipped row, leaves the pointer at or
right of `clip_x1` and not right of the column, and the rest of the string does
not start with a mark. -/
theorem leftClipLoop_spec (clipX1 clipX2 row : Int) :
    ∀ {str : List UInt32} {prev : Option UInt32} {x : Int} {screen : List TTYChar}
      {prev' : Option UInt32} {rest : List UInt32} {ptr x' : Int} {screen' : List TTYChar},
      leftClipLoop tbl fg clipX1 clipX2 row prev str x screen = (prev', rest, ptr, x', screen') →
      SameOutside (row + clipX1) (row + clipX2) screen screen' ∧ row + clipX1 ≤ ptr ∧
        (rest ≠ [] → ptr ≤ row + x') ∧ ∀ c r, rest = c :: r → isZeroWidth tbl c = false := by
  intro str
  induction str with
  | nil =>
    intro prev x screen prev' rest ptr x' screen' h
    cases h
    exact ⟨SameOutside.refl _ _ _, le_refl _, fun h => absurd rfl h, fun _ _ h => nomatch h⟩
  | cons cc str ih =>
    intro prev x screen prev' rest ptr x' screen' h
    rw [leftClipLoop] at h
    dsimp only at h
    split at h
    · -- the glyph that crosses `clip_x1`
      rename_i hcross
      cases h
      refine ⟨?_, by omega, fun _ => by omega, fun _ _ hcr => isZeroWidth_of_dropWhile tbl hcr⟩
      by_cases hn : 0 ≤ min (x + ttyTermGlyphWidth tbl cc) clipX2 - clipX1
      · exact fillCells_sameOutside _ (le_refl _) (by omega)
      · rw [Int.toNat_of_nonpos (by omega)]
        exact SameOutside.refl _ _ _
    · exact ih h

/-- Drawing leaves every cell outside `[max x clip_x1, clip_x2)` of its row as
it was, when the string does not start with a mark. -/
theorem ttyDpyDrawText_frame (s s' : TTYScreen) (x y : Int) (str : List UInt32)
    (hfirst : ∀ c rest, str = c :: rest → isZeroWidth tbl c = false)
    (h : ttyDpyDrawText tbl fg s x y str = some s') :
    SameOutside (y * s.width + max x s.clipX1) (y * s.width + s.clipX2) s.screen s'.screen := by
  unfold ttyDpyDrawText at h
  split at h
  · cases h
    exact SameOutside.refl _ _ _
  dsimp only at h
  by_cases hx : x < s.clipX1
  · rw [if_pos hx] at h
    generalize hl : leftClipLoop tbl fg s.clipX1 s.clipX2 (y * s.width) none str x s.screen = q at h
    obtain ⟨prev', rest, ptr, x', screen₁⟩ := q
    obtain ⟨⟨screen₂, cache⟩, hrun, rfl⟩ := Option.map_eq_some_iff.mp h
    obtain ⟨hclip, hlo, hptr, hhead⟩ := leftClipLoop_spec tbl fg _ _ _ hl
    have hmax : max x s.clipX1 = s.clipX1 := max_eq_right (le_of_lt hx)
    rw [hmax]
    refine hclip.trans (drawTextLoop_sameOutside tbl fg _ _ _ hptr hlo ?_ hrun)
    intro c r hcr hc
    rw [hhead c r hcr] at hc
    contradiction
  · rw [if_neg hx] at h
    obtain ⟨⟨screen₂, cache⟩, hrun, rfl⟩ := Option.map_eq_some_iff.mp h
    have hmax : max x s.clipX1 = x := max_eq_left (by omega)
    rw [hmax]
    refine drawTextLoop_sameOutside tbl fg _ _ _ (fun _ => le_refl _) (le_refl _) ?_ hrun
    intro c r hcr hc
    rw [hfirst c r hcr] at hc
    contradiction

/-! ## Layout of glyphs without marks -/

/-- The column where the `k`-th code point of `str` starts, drawn from
column `x`. -/
def glyphColumn (x : Int) (str : List UInt32) (k : Nat) : Int :=
  x + ((str.take k).map (ttyTermGlyphWidth tbl)).sum

@[simp] theorem glyphColumn_zero (x : Int) (str : List UInt32) : glyphColumn tbl x str 0 = x := by
  simp [glyphColumn]

@[simp] theorem glyphColumn_cons_succ (x : Int) (c : UInt32) (str : List UInt32) (k : Nat) :
    glyphColumn tbl x (c :: str) (k + 1) = glyphColumn tbl (x + ttyTermGlyphWidth tbl c) str k := by
  simp only [glyphColumn, List.take_succ_cons, List.map_cons, List.sum_cons]
  omega

theorem le_glyphColumn : ∀ (x : Int) (str : List UInt32) (k : Nat), x ≤ glyphColumn tbl x str k
  | x, [], k => by simp [glyphColumn]
  | x, _ :: _, 0 => by simp
  | x, c :: str, k + 1 => by
    have := le_glyphColumn (x + ttyTermGlyphWidth tbl c) str k
    have := ttyTermGlyphWidth_nonneg tbl c
    rw [glyphColumn_cons_succ]
    omega

/-- Glyphs of positive width are drawn one after the other: the `k`-th one
that fits left of the clip starts at its column, and the cells after it hold
placeholders. The loop never calls the cache, so it returns. -/
theorem drawTextLoop_layout (clipX2 row : Int) :
    ∀ {str : List UInt32} {prev : Option UInt32} {ptr x : Int} {screen : List TTYChar}
      (cache : List UInt32), (∀ c ∈ str, 0 < ttyTermGlyphWidth tbl c) → ptr = row + x → 0 ≤ ptr →
      ∃ screen', drawTextLoop tbl fg clipX2 prev str ptr x screen cache = some (screen', cache) ∧
        ∀ k (hk : k < str.length), glyphColumn tbl x str (k + 1) ≤ clipX2 →
          ∀ j : Nat, (j : Int) < ttyTermGlyphWidth tbl str[k] →
            screen'[(row + glyphColumn tbl x str k + j).toNat]? =
              screen[(row + glyphColumn tbl x str k + j).toNat]?.map
                fun c => { c with ch := if j = 0 then str[k] else TTY_CHAR_NONE, fg := fg } := by
  intro str
  induction str with
  | nil =>
    intro prev ptr x screen cache _ _ _
    refine ⟨screen, ?_, fun k hk => absurd hk (Nat.not_lt_zero k)⟩
    rw [drawTextLoop]
  | cons cc rest ih =>
    intro prev ptr x screen cache hpos hptr hp0
    have hw := hpos cc List.mem_cons_self
    rw [drawTextLoop.eq_def]
    dsimp only
    by_cases hfit : x + ttyTermGlyphWidth tbl cc > clipX2
    · -- no glyph fits: the columns only grow
      rw [if_pos hfit]
      refine ⟨_, rfl, fun k _ hcol => ?_⟩
      have := le_glyphColumn tbl (x + ttyTermGlyphWidth tbl cc) rest k
      rw [glyphColumn_cons_succ] at hcol
      omega
    rw [if_neg hfit, if_neg hw.ne']
    generalize hw' : ttyTermGlyphWidth tbl cc = w at hw hfit
    -- the glyph and its placeholders
    generalize hs₁ : fillCells TTY_CHAR_NONE fg (w - 1).toNat (putCell screen ptr cc fg) (ptr + 1) = screen₁
    have hsame : SameOutside ptr (ptr + w) screen screen₁ := by
      rw [← hs₁]
      exact (putCell_sameOutside (le_refl _) (by omega)).trans
        (fillCells_sameOutside _ (by omega) (by omega))
    obtain ⟨screen', hrun, hcells⟩ := @ih (some cc) (ptr + w) (x + w) screen₁ cache
      (fun c hc => hpos c (List.mem_cons_of_mem cc hc)) (by omega) (by omega)
    -- the rest is drawn right of the glyph
    have hframe : SameOutside (ptr + w) (row + clipX2) screen₁ screen' := by
      refine drawTextLoop_sameOutside tbl fg clipX2 (ptr + w) row (fun _ => by omega) (le_refl _) ?_ hrun
      intro c r hcr hc
      have := hpos c (by simp [hcr])
      rw [isZeroWidth_iff] at hc
      omega
    refine ⟨screen', hrun, fun k hk hcol j hj => ?_⟩
    cases k with
    | zero =>
      simp only [glyphColumn_zero, List.getElem_cons_zero] at hj ⊢
      rw [hw'] at hj
      rw [hframe _ (.inl (by omega)), ← hs₁]
      cases j with
      | zero =>
        -- the glyph itself
        have hout : SameOutside (ptr + 1) (ptr + 1 + (w - 1).toNat) (putCell screen ptr cc fg)
            (fillCells TTY_CHAR_NONE fg (w - 1).toNat (putCell screen ptr cc fg) (ptr + 1)) :=
          fillCells_sameOutside _ (le_refl _) (le_refl _)
        rw [hout _ (.inl (by omega)), show row + x + ((0 : Nat) : Int) = ptr by omega,
          putCell_getElem?_self hp0]
        rfl
      | succ j =>
        -- a placeholder
        rw [show row + x + ((j + 1 : Nat) : Int) = ptr + 1 + (j : Int) by push_cast; omega,
          fillCells_getElem? _ j (by omega) (by omega), putCell_getElem?_of_ne (by omega)]
        rfl
    | succ k =>
      simp only [glyphColumn_cons_succ, List.getElem_cons_succ] at hcol hj ⊢
      rw [hw'] at hcol ⊢
      have hge := le_glyphColumn tbl (x + w) rest k
      rw [hcells k (by simpa using hk) hcol j hj, hsame _ (.inr (by omega))]

/-- `tty_dpy_draw_text` of a string without marks, from a column inside the
clip of a row inside the clip: every glyph that ends left of `clip_x2` starts
where the one before it ends, followed by its placeholders, in the foreground
`fg` and over the background the cells had. -/
theorem ttyDpyDrawText_layout (s : TTYScreen) (x y : Int) (str : List UInt32)
    (hy : s.clipY1 ≤ y ∧ y < s.clipY2) (hx : s.clipX1 ≤ x ∧ x < s.clipX2)
    (hrow : 0 ≤ y * s.width + x) (hpos : ∀ c ∈ str, 0 < ttyTermGlyphWidth tbl c) :
    ∃ s', ttyDpyDrawText tbl fg s x y str = some s' ∧
      ∀ k (hk : k < str.length), glyphColumn tbl x str (k + 1) ≤ s.clipX2 →
        ∀ j : Nat, (j : Int) < ttyTermGlyphWidth tbl str[k] →
          s'.screen[(y * s.width + glyphColumn tbl x str k + j).toNat]? =
            s.screen[(y * s.width + glyphColumn tbl x str k + j).toNat]?.map
              fun c => { c with ch := if j = 0 then str[k] else TTY_CHAR_NONE, fg := fg } := by
  obtain ⟨screen', hrun, hcells⟩ := @drawTextLoop_layout tbl fg s.clipX2 (y * s.width) str none
    (y * s.width + x) x s.screen s.combCache hpos rfl hrow
  unfold ttyDpyDrawText
  rw [if_neg (by omega)]
  dsimp only
  rw [if_neg (by omega)]
  dsimp only
  rw [hrun]
  exact ⟨_, rfl, hcells⟩

/-- U+4E00, two columns wide, then `a`, at column 0 of a fresh four-column row. -/
theorem ttyDpyDrawText_layout_wide :
    ∃ s', ttyDpyDrawText (fun c => if c = 0x4E00 then 2 else 1) 7
        ⟨4, List.replicate 4 TTY_CHAR_DEFAULT, [false], List.replicate COMB_CACHE_SIZE 0, 0, 0, 4, 1⟩
        0 0 [0x4E00, 0x61] = some s' ∧
      ∀ k (hk : k < [(0x4E00 : UInt32), 0x61].length),
        glyphColumn (fun c => if c = 0x4E00 then 2 else 1) 0 [0x4E00, 0x61] (k + 1) ≤ 4 →
        ∀ j : Nat, (j : Int) <
            ttyTermGlyphWidth (fun c => if c = 0x4E00 then 2 else 1) [(0x4E00 : UInt32), 0x61][k] →
          s'.screen[(0 * 4 + glyphColumn (fun c => if c = 0x4E00 then 2 else 1) 0 [0x4E00, 0x61] k +
              j).toNat]? =
            (List.replicate 4 TTY_CHAR_DEFAULT)[(0 * 4 +
              glyphColumn (fun c => if c = 0x4E00 then 2 else 1) 0 [0x4E00, 0x61] k + j).toNat]?.map
              fun c => { c with
                ch := (if j = 0 then [(0x4E00 : UInt32), 0x61][k] else TTY_CHAR_NONE), fg := 7 } :=
  ttyDpyDrawText_layout (fun c => if c = 0x4E00 then 2 else 1) 7
    ⟨4, List.replicate 4 TTY_CHAR_DEFAULT, [false], List.replicate COMB_CACHE_SIZE 0, 0, 0, 4, 1⟩
    0 0 [0x4E00, 0x61] (by decide) (by decide) (by decide) (by
      intro c hc
      simp only [List.mem_cons, List.not_mem_nil, or_false] at hc
      rcases hc with rfl | rfl <;> decide)

end Draw

/-! ## A mark after a wide glyph

U+4E00 is two columns wide and U+0301 is a combining mark. Drawn at column 0 of
a fresh screen, the base stays in cell 0 and the combination of the two goes to
cell 1, the base's placeholder. -/

theorem ttyDpyDrawText_wide_accent :
    (ttyDpyDrawText (fun c => if c = 0x4E00 then 2 else if c = 0x301 then 0 else 1) 7
      ⟨4, List.replicate 4 TTY_CHAR_DEFAULT, [false], List.replicate COMB_CACHE_SIZE 0, 0, 0, 4, 1⟩
      0 0 [0x4E00, 0x301]).map (fun s => (s.screen.map TTYChar.ch, s.combCache.take 3)) =
      some ([0x4E00, TTY_CHAR_COMB, 0x20, 0x20], [3, 0x4E00, 0x301]) := by
  rw [ttyDpyDrawText, if_neg (by decide)]
  dsimp only
  rw [if_neg (by decide)]
  dsimp only
  -- the wide base and its placeholder
  rw [drawTextLoop, if_neg (by decide), if_neg (by decide)]
  -- the mark, with the base before it in the string
  rw [drawTextLoop, if_neg (by decide), if_pos (by decide)]
  dsimp only
  rw [combCacheAdd_fresh _ (by decide)]
  dsimp only
  simp only [List.takeWhile_nil, List.dropWhile_nil]
  rw [drawTextLoop]
  decide

end Qemacs
