import Mathlib
import Qemacs.Tty.Flush

/-!
# The tty display as a state machine

The tty display changes its screen array, its shadow and its combination cache through the
entry points `tty_dpy_draw_text`; `fill_rectangle` and `xor_rectangle`, which cut a rectangle
to the clip and call `tty_dpy_fill_rectangle` and `tty_dpy_xor_rectangle`;
`set_clip_rectangle` and `push_clip_rectangle`, which set the clip; `tty_dpy_flush`, which
ends with `comb_cache_clean(ts, ts->screen, ts->screen_size)`; and `tty_dpy_invalidate`, which
sizes the arrays again and blanks the screen. `tty_dpy_init` zeroes the cache with the rest of
the tty state and then calls `tty_dpy_invalidate` (`ttyInit`). `TtyStep` is one call of any of
them.

The arrays keep the sizes `tty_dpy_invalidate` gives them and the clip stays on the screen
(`Shape`). A cell names a combination by a code `TTY_CHAR_COMB + k`, and the flush writes the
code points it reads at offset `k` of the cache (`combSequence`). The invariant of the cache
(`CombOK`) is that the cache is a chain of blocks and that every cell in the range of the codes
names a combination of the chain. Text is drawn from strings with no code point in that range:
such a code point, drawn as it is, would be read by the clean as the name of an entry that need
not head a block.

* `TtyStep.shape`: every step keeps the sizes and the clip;
* `TtyStep.keeps`: every step keeps the invariant of the cache and every combination a cell
  names;
* `ttyReachable_combOK`: every state reachable from `ttyInit` has both;
* `ttyReachable_flush`: in such a state the flush ends, and leaves the chain that the abstract
  clean `combClean` gives, coalesced;
* `ttyReachable_drawText`: in such a state drawing ends;
* `ttyRun_combSequence`: over any run, a cell that stays on the screen shows the same code
  points on the terminal.
-/

namespace Qemacs

/-! ## Rectangles -/

/-- The inner loop of `tty_dpy_fill_rectangle` and `tty_dpy_xor_rectangle`: the `n` cells from
`p` on become `f` of what they hold. -/
def mapCells (f : TTYChar → TTYChar) : Nat → List TTYChar → Nat → List TTYChar
  | 0, screen, _ => screen
  | n + 1, screen, p => mapCells f n (screen.modify p f) (p + 1)

/-- The row loop of the two rectangle functions: `h` rows from row `y` on, each marked in
`line_updated` and then changed on the columns `[x1, x1 + w)`. The C pointer moves `w` cells and
then `wrap = width - w`, so each row starts at `y * width + x1`. -/
def mapRect (f : TTYChar → TTYChar) (x1 w : Nat) : Nat → Nat → TTYScreen → TTYScreen
  | 0, _, s => s
  | h + 1, y, s => mapRect f x1 w h (y + 1)
      { s with lineUpdated := s.lineUpdated.set y true,
               screen := mapCells f w s.screen (y * s.width + x1) }

/-- `tty_dpy_fill_rectangle(s, x1, y1, w, h, color)`, with `bg` the colour `qe_map_color` gives:
`*ptr = TTY_CHAR(' ', 7, bgcolor)`. -/
def ttyDpyFillRectangle (s : TTYScreen) (x1 y1 w h bg : Nat) : TTYScreen :=
  mapRect (fun _ => ⟨0x20, 7, bg⟩) x1 w h y1 s

/-- `tty_dpy_xor_rectangle`: `*ptr ^= TTY_CHAR(0, 7, 7)` flips the three low bits of the
foreground and of the background and keeps the code point. -/
def ttyDpyXorRectangle (s : TTYScreen) (x1 y1 w h : Nat) : TTYScreen :=
  mapRect (fun c => { c with fg := c.fg ^^^ 7, bg := c.bg ^^^ 7 }) x1 w h y1 s

/-! ## The clip and the rectangles of `display.c` -/

/-- `CSSRect`. -/
structure CSSRect where
  x1 : Int
  y1 : Int
  x2 : Int
  y2 : Int
  deriving DecidableEq, Repr

/-- `fill_rectangle`: the rectangle is cut to the clip and filled unless nothing is left of it.
The right and bottom edges are those of the rectangle as given. -/
def fillRectangle (s : TTYScreen) (x1 y1 w h : Int) (bg : Nat) : TTYScreen :=
  let x2 := x1 + w
  let y2 := y1 + h
  -- quick clip rejection
  if x2 ≤ s.clipX1 ∨ y2 ≤ s.clipY1 ∨ x1 ≥ s.clipX2 ∨ y1 ≥ s.clipY2 then s
  else
    let x2 := if x2 > s.clipX2 then s.clipX2 else x2
    let y2 := if y2 > s.clipY2 then s.clipY2 else y2
    let x1 := if x1 < s.clipX1 then s.clipX1 else x1
    let y1 := if y1 < s.clipY1 then s.clipY1 else y1
    if x1 ≥ x2 ∨ y1 ≥ y2 then s
    else ttyDpyFillRectangle s x1.toNat y1.toNat (x2 - x1).toNat (y2 - y1).toNat bg

/-- `xor_rectangle`: the right and bottom edges are taken from the left and top edges once these
are cut to the clip. -/
def xorRectangle (s : TTYScreen) (x y w h : Int) : TTYScreen :=
  let x1 := max s.clipX1 x
  let y1 := max s.clipY1 y
  let x2 := min s.clipX2 (x1 + w)
  let y2 := min s.clipY2 (y1 + h)
  if x1 < x2 ∧ y1 < y2 then ttyDpyXorRectangle s x1.toNat y1.toNat (x2 - x1).toNat (y2 - y1).toNat
  else s

/-- `set_clip_rectangle`: the rectangle cut to the screen, not to the clip before it
(`tty_dpy_set_clip` does nothing). -/
def setClipRectangle (d : TTYDisplay) (r : CSSRect) : TTYDisplay :=
  let x2 := if r.x2 > d.scr.width then (d.scr.width : Int) else r.x2
  let y2 := if r.y2 > d.height then (d.height : Int) else r.y2
  let x1 := if r.x1 < 0 then 0 else r.x1
  let y1 := if r.y1 < 0 then 0 else r.y1
  { d with scr := { d.scr with clipX1 := x1, clipY1 := y1, clipX2 := x2, clipY2 := y2 } }

/-- `push_clip_rectangle`: the clip before, which the caller restores with
`set_clip_rectangle`, and the screen with the rectangle cut to that clip as its clip. -/
def pushClipRectangle (s : TTYScreen) (r : CSSRect) : CSSRect × TTYScreen :=
  let x2 := if r.x2 > s.clipX2 then s.clipX2 else r.x2
  let y2 := if r.y2 > s.clipY2 then s.clipY2 else r.y2
  let x1 := if r.x1 < s.clipX1 then s.clipX1 else r.x1
  let y1 := if r.y1 < s.clipY1 then s.clipY1 else r.y1
  (⟨s.clipX1, s.clipY1, s.clipX2, s.clipY2⟩,
    { s with clipX1 := x1, clipY1 := y1, clipX2 := x2, clipY2 := y2 })

/-! ## Invalidate and the start -/

def MAX_SCREEN_WIDTH : Int := 1024
def MAX_SCREEN_LINES : Int := 256

/-- The width `tty_dpy_invalidate` keeps of `cols`, read from `COLUMNS` or the terminal. -/
def ttyScreenWidth (cols : Int) : Int := if cols > MAX_SCREEN_WIDTH then MAX_SCREEN_WIDTH else cols

/-- The height `tty_dpy_invalidate` keeps of `rows`, read from `LINES` or the terminal. -/
def ttyScreenHeight (rows : Int) : Int :=
  let h := if rows ≥ 10000 then rows - 10000 else rows
  let h := if h > MAX_SCREEN_LINES then MAX_SCREEN_LINES else h
  if h < 3 then 25 else h

/-- A shadow cell after `memset(ts->screen + count, 0xFF, size + sizeof(TTYChar))`. -/
def TTY_CHAR_ERASED : TTYChar := ⟨0xFFFFFFFF, 0x1FFFF, 0x7FFF⟩

/-- `tty_dpy_invalidate`, for a terminal of `cols` by `rows`: the arrays sized again, the
screen blank, the shadow and the loop guard erased, every row to refresh and the clip the whole
screen. The cache is left as it is. -/
def ttyDpyInvalidate (d : TTYDisplay) (cols rows : Int) : TTYDisplay :=
  let width := (ttyScreenWidth cols).toNat
  let height := (ttyScreenHeight rows).toNat
  ⟨{ d.scr with
      width := width, screen := List.replicate (width * height) TTY_CHAR_DEFAULT,
      lineUpdated := List.replicate height true,
      clipX1 := 0, clipY1 := 0, clipX2 := width, clipY2 := height },
    height, List.replicate (width * height + 1) TTY_CHAR_ERASED⟩

/-- The display after `tty_dpy_init`: `qe_mallocz(TTYState)` zeroes the cache, and
`tty_dpy_invalidate` sets up the arrays. -/
def ttyInit (cols rows : Int) : TTYDisplay :=
  ttyDpyInvalidate ⟨⟨0, [], [], List.replicate COMB_CACHE_SIZE 0, 0, 0, 0, 0⟩, 0, []⟩ cols rows

/-- One call of an entry point of the tty display, with the width table `tbl`. Text is drawn
in a foreground `fg` from a string with no code point in the range of the cache's codes,
shorter than `2^31 - 1`, the range of `int len`, and that does not start with a mark (a mark
there is joined to the cell before the string). A terminal narrower than one column is left
out. -/
inductive TtyStep (tbl : UInt32 → Nat) : TTYDisplay → TTYDisplay → Prop
  | drawText {d : TTYDisplay} {s' : TTYScreen} (fg : Nat) (x y : Int) (str : List UInt32)
      (hstr : ∀ c ∈ str, combRef ⟨c, 0, 0⟩ = none) (hlen : str.length + 1 < 2 ^ 31)
      (hfirst : ∀ c rest, str = c :: rest → isZeroWidth tbl c = false)
      (h : ttyDpyDrawText tbl fg d.scr x y str = some s') : TtyStep tbl d { d with scr := s' }
  | fillRect (d : TTYDisplay) (x1 y1 w h : Int) (bg : Nat) :
      TtyStep tbl d { d with scr := fillRectangle d.scr x1 y1 w h bg }
  | xorRect (d : TTYDisplay) (x y w h : Int) :
      TtyStep tbl d { d with scr := xorRectangle d.scr x y w h }
  | setClip (d : TTYDisplay) (r : CSSRect) : TtyStep tbl d (setClipRectangle d r)
  | pushClip (d : TTYDisplay) (r : CSSRect) :
      TtyStep tbl d { d with scr := (pushClipRectangle d.scr r).2 }
  | flush (t : TTYOutput) {d d' : TTYDisplay} {out : List UInt8}
      (h : ttyDpyFlush t d = some (d', out)) : TtyStep tbl d d'
  | invalidate (d : TTYDisplay) (cols rows : Int) (hcols : 0 < cols) :
      TtyStep tbl d (ttyDpyInvalidate d cols rows)

/-! ## Cells that name combinations -/

/-- A cell of a list after `List.modify` is a cell of the list or `f` of one. -/
theorem mem_modify {α : Type*} {f : α → α} {a : α} :
    ∀ {l : List α} {n : Nat}, a ∈ l.modify n f → a ∈ l ∨ ∃ b ∈ l, a = f b
  | [], _, h => by simp at h
  | b :: l, 0, h => by
    rw [List.modify_zero_cons, List.mem_cons] at h
    rcases h with rfl | h
    · exact .inr ⟨b, List.mem_cons_self .., rfl⟩
    · exact .inl (List.mem_cons_of_mem b h)
  | b :: l, n + 1, h => by
    rw [List.modify_succ_cons, List.mem_cons] at h
    rcases h with rfl | h
    · exact .inl (List.mem_cons_self ..)
    · rcases mem_modify h with h | ⟨c, hc, rfl⟩
      · exact .inl (List.mem_cons_of_mem b h)
      · exact .inr ⟨c, List.mem_cons_of_mem b hc, rfl⟩

section Cells

variable {screen : List TTYChar} {ch : UInt32} {fg : Nat} {c : TTYChar}

theorem mem_putCell {p : Int} (h : c ∈ putCell screen p ch fg) : c ∈ screen ∨ c.ch = ch := by
  unfold putCell at h
  split at h
  · exact .inl h
  · rcases mem_modify h with h | ⟨b, -, rfl⟩
    · exact .inl h
    · exact .inr rfl

theorem mem_fillCells : ∀ {n : Nat} {screen : List TTYChar} {p : Int},
    c ∈ fillCells ch fg n screen p → c ∈ screen ∨ c.ch = ch
  | 0, _, _, h => .inl h
  | n + 1, _, _, h => by
    rw [fillCells] at h
    rcases mem_fillCells h with h | h
    · exact mem_putCell h
    · exact .inr h

end Cells

/-- `combRef` reads the code point of the cell only. -/
theorem combRef_eq_of_ch {c : TTYChar} {v : UInt32} (h : c.ch = v) :
    combRef c = combRef ⟨v, 0, 0⟩ := by
  rw [combRef, combRef, h]

/-- The code of the block at offset `o` names it. -/
theorem combRef_code {o : Nat} (ho : o < COMB_CACHE_SIZE - 1) :
    combRef ⟨TTY_CHAR_COMB + o.toUInt32, 0, 0⟩ = some o := by
  have hlt : o < 2047 := ho
  have hto : o.toUInt32.toNat = o := toNat_toUInt32_of_lt (by omega)
  have hrange : TTY_CHAR_COMB ≤ TTY_CHAR_COMB + o.toUInt32 ∧
      TTY_CHAR_COMB + o.toUInt32 < TTY_CHAR_COMB + (COMB_CACHE_SIZE - 1).toUInt32 := by
    simp only [UInt32.le_iff_toNat_le, UInt32.lt_iff_toNat_lt, UInt32.toNat_add, hto,
      TTY_CHAR_COMB, COMB_CACHE_SIZE]
    simp
    omega
  rw [combRef, if_pos hrange, comb_code_toNat (by omega)]

/-- Every cell of `screen` that names an entry of the cache names a combination of
`blocks`. -/
def CombNamed (blocks : List CombBlock) (screen : List TTYChar) : Prop :=
  ∀ c ∈ screen, ∀ k, combRef c = some k → ∃ seq, CombAt blocks k seq

namespace CombNamed

variable {blocks : List CombBlock} {screen : List TTYChar}

theorem mono {blocks' : List CombBlock} (h : CombNamed blocks screen)
    (hkeep : ∀ o seq, CombAt blocks o seq → CombAt blocks' o seq) : CombNamed blocks' screen := by
  intro c hc k hk
  obtain ⟨seq, hat⟩ := h c hc k hk
  exact ⟨seq, hkeep k seq hat⟩

theorem putCell {p : Int} {ch : UInt32} {fg : Nat} (h : CombNamed blocks screen)
    (hch : ∀ k, combRef ⟨ch, 0, 0⟩ = some k → ∃ seq, CombAt blocks k seq) :
    CombNamed blocks (putCell screen p ch fg) := by
  intro c hc k hk
  rcases mem_putCell hc with hc | hcc
  · exact h c hc k hk
  · rw [combRef_eq_of_ch hcc] at hk
    exact hch k hk

theorem fillCells {n : Nat} {p : Int} {ch : UInt32} {fg : Nat} (h : CombNamed blocks screen)
    (hch : combRef ⟨ch, 0, 0⟩ = none) : CombNamed blocks (fillCells ch fg n screen p) := by
  intro c hc k hk
  rcases mem_fillCells hc with hc | hcc
  · exact h c hc k hk
  · rw [combRef_eq_of_ch hcc, hch] at hk
    cases hk

/-- A cell changed by `f` names no entry, or the entry it named. -/
theorem mapCells {f : TTYChar → TTYChar}
    (hf : ∀ c, combRef (f c) = none ∨ combRef (f c) = combRef c) :
    ∀ {n : Nat} {screen : List TTYChar} {p : Nat}, CombNamed blocks screen →
      CombNamed blocks (Qemacs.mapCells f n screen p)
  | 0, _, _, h => h
  | n + 1, screen, p, h => by
    rw [Qemacs.mapCells]
    refine mapCells hf ?_
    intro c hc k hk
    rcases mem_modify hc with hc | ⟨b, hb, rfl⟩
    · exact h c hc k hk
    · rcases hf b with hn | he
      · rw [hn] at hk
        cases hk
      · rw [he] at hk
        exact h b hb k hk

theorem replicate_default (blocks : List CombBlock) (n : Nat) :
    CombNamed blocks (List.replicate n TTY_CHAR_DEFAULT) := by
  intro c hc k hk
  rw [List.eq_of_mem_replicate hc] at hk
  cases hk

/-- The named entries are block offsets, as `comb_cache_clean` needs them. -/
theorem isSome (h : CombNamed blocks screen) (len : Nat) :
    ∀ c ∈ screen.take len, ∀ k, combRef c = some k → (combBlockAt blocks k).isSome := by
  intro c hc k hk
  obtain ⟨seq, hat⟩ := h c (List.mem_of_mem_take hc) k hk
  rw [CombAt] at hat
  rw [hat]
  rfl

/-- The clean keeps every combination a cell names. -/
theorem clean (h : CombNamed blocks screen) : CombNamed (combClean screen blocks) screen := by
  intro c hc k hk
  obtain ⟨seq, hat⟩ := h c hc k hk
  exact ⟨seq, combClean_keeps hat (List.any_eq_true.mpr ⟨c, hc, by simp [hk]⟩)⟩

end CombNamed

/-! ## The rectangles keep the cache -/

section Rect

variable {f : TTYChar → TTYChar} {x1 w : Nat}

theorem mapRect_combCache : ∀ (h y : Nat) (s : TTYScreen), (mapRect f x1 w h y s).combCache = s.combCache
  | 0, _, _ => rfl
  | h + 1, y, _ => mapRect_combCache h (y + 1) _

theorem mapRect_combNamed {blocks : List CombBlock}
    (hf : ∀ c, combRef (f c) = none ∨ combRef (f c) = combRef c) :
    ∀ (h y : Nat) (s : TTYScreen), CombNamed blocks s.screen →
      CombNamed blocks (mapRect f x1 w h y s).screen
  | 0, _, _, hn => hn
  | h + 1, y, _, hn => mapRect_combNamed hf h (y + 1) _ (CombNamed.mapCells hf hn)

end Rect

/-- A blank cell names no entry. -/
theorem combRef_fill (bg : Nat) : combRef ⟨0x20, 7, bg⟩ = none := by
  rw [combRef_eq_of_ch (v := 0x20) rfl]
  decide

/-! ## Drawing keeps the invariant -/

section Draw

variable (tbl : UInt32 → Nat) (fg : Nat)

/-- The left-clip loop pads with spaces and leaves a part of the string to draw. -/
theorem leftClipLoop_cells (clipX1 clipX2 row : Int) :
    ∀ {str : List UInt32} {prev : Option UInt32} {x : Int} {screen : List TTYChar}
      {prev' : Option UInt32} {rest : List UInt32} {ptr x' : Int} {screen' : List TTYChar},
      leftClipLoop tbl fg clipX1 clipX2 row prev str x screen = (prev', rest, ptr, x', screen') →
      rest.Sublist str ∧ ∀ c ∈ screen', c ∈ screen ∨ c.ch = 0x20 := by
  intro str
  induction str with
  | nil =>
    intro prev x screen prev' rest ptr x' screen' h
    cases h
    exact ⟨List.Sublist.refl _, fun c hc => .inl hc⟩
  | cons cc str ih =>
    intro prev x screen prev' rest ptr x' screen' h
    rw [leftClipLoop] at h
    dsimp only at h
    split at h
    · -- the glyph that crosses `clip_x1`: spaces, then the string after its marks
      cases h
      exact ⟨(List.dropWhile_sublist _).cons cc, fun c hc => mem_fillCells hc⟩
    · obtain ⟨hsub, hcells⟩ := ih h
      exact ⟨hsub.cons cc, hcells⟩

/-- The main loop of `tty_dpy_draw_text` on a chain, over a string with no code point in the
range of the codes: it ends, every cell it writes names no entry or the combination it has just
added, and every combination of the chain stays where it is. -/
theorem drawTextLoop_combOK (clipX2 : Int) (prev : Option UInt32) {str : List UInt32}
    (ptr x : Int) {screen : List TTYChar} {cache : List UInt32}
    (hstr : ∀ c ∈ str, combRef ⟨c, 0, 0⟩ = none) (hlen : str.length + 1 < 2 ^ 31) :
    ∀ {blocks : List CombBlock}, CombChain cache blocks → CombNamed blocks screen →
    ∃ screen' cache' blocks',
      drawTextLoop tbl fg clipX2 prev str ptr x screen cache = some (screen', cache') ∧
      CombChain cache' blocks' ∧ CombNamed blocks' screen' ∧
      ∀ o seq, CombAt blocks o seq → CombAt blocks' o seq := by
  fun_induction drawTextLoop tbl fg clipX2 prev str ptr x screen cache with
  | case1 prev ptr x screen cache =>
    intro blocks hc hn
    exact ⟨screen, cache, blocks, rfl, hc, hn, fun _ _ h => h⟩
  | case2 prev ptr x screen cache cc rest w =>
    intro blocks hc hn
    exact ⟨_, cache, blocks, rfl, hc, hn.fillCells (by decide), fun _ _ h => h⟩
  | case3 ptr x screen cache cc rest w hfit hw ih =>
    exact ih (fun c hc' => hstr c (List.mem_cons_of_mem cc hc'))
      (by simp only [List.length_cons] at hlen; omega)
  | case4 ptr x screen cache cc rest w hfit hw base marks =>
    rename_i hadd
    intro blocks hc hn
    -- `comb_cache_add` on a chain does not run out of fuel
    have hm : marks.length ≤ rest.length := (List.takeWhile_sublist _).length_le
    have hseq : (base :: cc :: marks).length < 2 ^ 31 := by
      simp only [List.length_cons] at hlen ⊢
      omega
    obtain ⟨code, cache', hadd', -⟩ := combCacheAdd_refines hc hseq
    rw [hadd] at hadd'
    cases hadd'
  | case5 ptr x screen cache cc rest w hfit hw base marks cc' cache'' hadd =>
    rename_i ih
    intro blocks hc hn
    have hm : marks.length ≤ rest.length := (List.takeWhile_sublist _).length_le
    have hseq : (base :: cc :: marks).length < 2 ^ 31 := by
      simp only [List.length_cons] at hlen ⊢
      omega
    have hstr' : ∀ c ∈ rest.dropWhile (isZeroWidth tbl), combRef ⟨c, 0, 0⟩ = none :=
      fun c hc' => hstr c (List.mem_cons_of_mem cc ((List.dropWhile_sublist _).subset hc'))
    have hlen' : (rest.dropWhile (isZeroWidth tbl)).length + 1 < 2 ^ 31 := by
      have := (List.dropWhile_sublist (isZeroWidth tbl) (l := rest)).length_le
      simp only [List.length_cons] at hlen
      omega
    obtain ⟨code, cache1, hadd', hcases⟩ := combCacheAdd_refines hc hseq
    rw [hadd, Option.some.injEq, Prod.mk.injEq] at hadd'
    obtain ⟨rfl, rfl⟩ := hadd'
    rcases hcases with ⟨-, rfl, rfl⟩ | ⟨o, blocks', halloc, rfl, hc', -⟩
    · -- no room: the cell gets `TTY_CHAR_BAD`, which names no entry
      exact ih hstr' hlen' hc (hn.putCell fun k hk => by cases hk)
    · -- the cell gets the code of the block the allocator gives
      have hat := combAlloc_combAt halloc
      have ho : o < COMB_CACHE_SIZE - 1 := by
        have := combBlockAt_lt hat
        have := hc'.layout_lt
        omega
      have hn' : CombNamed blocks' (putCell screen (ptr - 1) (TTY_CHAR_COMB + o.toUInt32) fg) :=
        (hn.mono fun _ _ h => combAlloc_keeps halloc h).putCell fun k hk => by
          rw [combRef_code ho, Option.some.injEq] at hk
          exact ⟨_, hk ▸ hat⟩
      obtain ⟨screen', cache', blocks'', hrun, hc'', hn'', hkeep⟩ := ih hstr' hlen' hc' hn'
      exact ⟨screen', cache', blocks'', hrun, hc'', hn'',
        fun o' s h => hkeep o' s (combAlloc_keeps halloc h)⟩
  | case6 prev ptr x screen cache cc rest w hfit hw ih =>
    intro blocks hc hn
    -- the glyph, then its placeholders
    have hcc : combRef ⟨cc, 0, 0⟩ = none := hstr cc (List.mem_cons_self ..)
    have hn' : CombNamed blocks
        (fillCells TTY_CHAR_NONE fg (w - 1).toNat (putCell screen ptr cc fg) (ptr + 1)) :=
      (hn.putCell fun k hk => by rw [hcc] at hk; cases hk).fillCells (by decide)
    exact ih (fun c hc' => hstr c (List.mem_cons_of_mem cc hc'))
      (by simp only [List.length_cons] at hlen; omega) hc hn'

/-- `tty_dpy_draw_text` on a display with the invariant, of a string with no code point in the
range of the codes: it ends, keeps the invariant and keeps every combination of the chain. -/
theorem ttyDpyDrawText_combOK {s : TTYScreen} {blocks : List CombBlock} (x y : Int)
    {str : List UInt32} (hc : CombChain s.combCache blocks) (hn : CombNamed blocks s.screen)
    (hstr : ∀ c ∈ str, combRef ⟨c, 0, 0⟩ = none) (hlen : str.length + 1 < 2 ^ 31) :
    ∃ s' blocks', ttyDpyDrawText tbl fg s x y str = some s' ∧
      CombChain s'.combCache blocks' ∧ CombNamed blocks' s'.screen ∧
      ∀ o seq, CombAt blocks o seq → CombAt blocks' o seq := by
  unfold ttyDpyDrawText
  split
  · exact ⟨s, blocks, rfl, hc, hn, fun _ _ h => h⟩
  dsimp only
  by_cases hx : x < s.clipX1
  · rw [if_pos hx]
    generalize hl : leftClipLoop tbl fg s.clipX1 s.clipX2 (y * s.width) none str x s.screen = q
    obtain ⟨prev', rest, ptr, x', screen₁⟩ := q
    obtain ⟨hsub, hcells⟩ := leftClipLoop_cells tbl fg _ _ _ hl
    -- the spaces of the left clip name no entry
    have hn₁ : CombNamed blocks screen₁ := by
      intro c hc' k hk
      rcases hcells c hc' with hc' | hsp
      · exact hn c hc' k hk
      · rw [combRef_eq_of_ch hsp] at hk
        cases hk
    obtain ⟨screen₂, cache, blocks', hrun, hc', hn', hkeep⟩ :=
      drawTextLoop_combOK tbl fg s.clipX2 prev' ptr x'
        (fun c hc' => hstr c (hsub.subset hc')) (by have := hsub.length_le; omega) hc hn₁
    exact ⟨_, blocks', by rw [hrun]; rfl, hc', hn', hkeep⟩
  · rw [if_neg hx]
    obtain ⟨screen₂, cache, blocks', hrun, hc', hn', hkeep⟩ :=
      drawTextLoop_combOK tbl fg s.clipX2 none (y * s.width + x) x hstr hlen hc hn
    exact ⟨_, blocks', by rw [hrun]; rfl, hc', hn', hkeep⟩

end Draw

/-! ## Sizes -/

section Sizes

variable {tbl : UInt32 → Nat} {fg : Nat} {screen : List TTYChar} {ch : UInt32}

theorem putCell_length {p : Int} : (putCell screen p ch fg).length = screen.length := by
  unfold putCell
  split
  · rfl
  · exact List.length_modify ..

theorem fillCells_length : ∀ (n : Nat) (screen : List TTYChar) (p : Int),
    (fillCells ch fg n screen p).length = screen.length
  | 0, _, _ => rfl
  | n + 1, screen, p => by rw [fillCells, fillCells_length, putCell_length]

theorem leftClipLoop_length (clipX1 clipX2 row : Int) :
    ∀ {str : List UInt32} {prev : Option UInt32} {x : Int} {screen : List TTYChar}
      {prev' : Option UInt32} {rest : List UInt32} {ptr x' : Int} {screen' : List TTYChar},
      leftClipLoop tbl fg clipX1 clipX2 row prev str x screen = (prev', rest, ptr, x', screen') →
      screen'.length = screen.length := by
  intro str
  induction str with
  | nil =>
    intro prev x screen prev' rest ptr x' screen' h
    cases h
    rfl
  | cons cc str ih =>
    intro prev x screen prev' rest ptr x' screen' h
    rw [leftClipLoop] at h
    dsimp only at h
    split at h
    · cases h
      exact fillCells_length ..
    · exact ih h

theorem drawTextLoop_length {clipX2 : Int} {prev : Option UInt32} {str : List UInt32} {ptr x : Int}
    {screen : List TTYChar} {cache : List UInt32} {screen' : List TTYChar} {cache' : List UInt32}
    (h : drawTextLoop tbl fg clipX2 prev str ptr x screen cache = some (screen', cache')) :
    screen'.length = screen.length := by
  fun_induction drawTextLoop tbl fg clipX2 prev str ptr x screen cache with
  | case1 => cases h; rfl
  | case2 => cases h; exact fillCells_length ..
  | case3 ptr x screen cache cc rest w hfit hw ih => exact ih h
  | case4 => cases h
  | case5 =>
    rename_i ih
    rw [ih h, putCell_length]
  | case6 prev ptr x screen cache cc rest w hfit hw ih =>
    rw [ih h, fillCells_length, putCell_length]

/-- Drawing leaves the screen as it is, or marks row `y`, inside the clip, and changes the cells
and the cache only. -/
theorem ttyDpyDrawText_eq {s s' : TTYScreen} {x y : Int} {str : List UInt32}
    (h : ttyDpyDrawText tbl fg s x y str = some s') :
    s' = s ∨ s.clipY1 ≤ y ∧ y < s.clipY2 ∧ ∃ screen cache,
      s' = { s with screen := screen, combCache := cache,
                    lineUpdated := s.lineUpdated.set y.toNat true } ∧
      screen.length = s.screen.length := by
  unfold ttyDpyDrawText at h
  split at h
  · exact .inl (Option.some.inj h).symm
  right
  refine ⟨by omega, by omega, ?_⟩
  dsimp only at h
  by_cases hx : x < s.clipX1
  · rw [if_pos hx] at h
    generalize hl : leftClipLoop tbl fg s.clipX1 s.clipX2 (y * s.width) none str x s.screen = q at h
    obtain ⟨prev', rest, ptr, x', screen₁⟩ := q
    obtain ⟨⟨screen₂, cache⟩, hrun, rfl⟩ := Option.map_eq_some_iff.mp h
    refine ⟨screen₂, cache, rfl, ?_⟩
    rw [drawTextLoop_length hrun, leftClipLoop_length _ _ _ hl]
  · rw [if_neg hx] at h
    obtain ⟨⟨screen₂, cache⟩, hrun, rfl⟩ := Option.map_eq_some_iff.mp h
    exact ⟨screen₂, cache, rfl, drawTextLoop_length hrun⟩

theorem mapCells_length (f : TTYChar → TTYChar) : ∀ (n : Nat) (screen : List TTYChar) (p : Nat),
    (mapCells f n screen p).length = screen.length
  | 0, _, _ => rfl
  | n + 1, screen, p => by rw [mapCells, mapCells_length, List.length_modify]

/-- The rectangle loop changes the cells and the marks only. -/
theorem mapRect_eq (f : TTYChar → TTYChar) (x1 w : Nat) : ∀ (h y : Nat) (s : TTYScreen),
    ∃ screen lu, mapRect f x1 w h y s = { s with screen := screen, lineUpdated := lu } ∧
      screen.length = s.screen.length ∧ lu.length = s.lineUpdated.length
  | 0, _, s => ⟨s.screen, s.lineUpdated, rfl, rfl, rfl⟩
  | h + 1, y, s => by
    obtain ⟨screen, lu, heq, hscr, hlu⟩ := mapRect_eq f x1 w h (y + 1)
      { s with lineUpdated := s.lineUpdated.set y true,
               screen := mapCells f w s.screen (y * s.width + x1) }
    refine ⟨screen, lu, by rw [mapRect, heq], ?_, ?_⟩
    · rw [hscr]
      exact mapCells_length ..
    · rw [hlu]
      exact List.length_set ..

end Sizes

/-- What is left of a rectangle cut to a clip that starts on the screen, as the natural numbers
the tty functions take: nothing, or a rectangle inside the clip. -/
theorem fillRectangle_eq {s : TTYScreen} (hx : 0 ≤ s.clipX1) (hy : 0 ≤ s.clipY1) (x1 y1 w h : Int)
    (bg : Nat) :
    fillRectangle s x1 y1 w h bg = s ∨ ∃ a b c e : Nat,
      fillRectangle s x1 y1 w h bg = ttyDpyFillRectangle s a b c e bg ∧ 0 < c ∧ 0 < e ∧
      s.clipX1 ≤ a ∧ (a + c : Int) ≤ s.clipX2 ∧ s.clipY1 ≤ b ∧ (b + e : Int) ≤ s.clipY2 := by
  unfold fillRectangle
  dsimp only
  by_cases hrej : x1 + w ≤ s.clipX1 ∨ y1 + h ≤ s.clipY1 ∨ x1 ≥ s.clipX2 ∨ y1 ≥ s.clipY2
  · exact .inl (if_pos hrej)
  rw [if_neg hrej]
  -- the edges cut to the clip
  have hx2 : (if x1 + w > s.clipX2 then s.clipX2 else x1 + w) ≤ s.clipX2 := by split <;> omega
  have hy2 : (if y1 + h > s.clipY2 then s.clipY2 else y1 + h) ≤ s.clipY2 := by split <;> omega
  have hx1 : s.clipX1 ≤ (if x1 < s.clipX1 then s.clipX1 else x1) := by split <;> omega
  have hy1 : s.clipY1 ≤ (if y1 < s.clipY1 then s.clipY1 else y1) := by split <;> omega
  generalize (if x1 + w > s.clipX2 then s.clipX2 else x1 + w) = x2 at hx2 ⊢
  generalize (if y1 + h > s.clipY2 then s.clipY2 else y1 + h) = y2 at hy2 ⊢
  generalize (if x1 < s.clipX1 then s.clipX1 else x1) = x1' at hx1 ⊢
  generalize (if y1 < s.clipY1 then s.clipY1 else y1) = y1' at hy1 ⊢
  split
  · exact .inl rfl
  · exact .inr ⟨_, _, _, _, rfl, by omega, by omega, by omega, by omega, by omega, by omega⟩

theorem xorRectangle_eq {s : TTYScreen} (hx : 0 ≤ s.clipX1) (hy : 0 ≤ s.clipY1) (x y w h : Int) :
    xorRectangle s x y w h = s ∨ ∃ a b c e : Nat,
      xorRectangle s x y w h = ttyDpyXorRectangle s a b c e ∧ 0 < c ∧ 0 < e ∧
      s.clipX1 ≤ a ∧ (a + c : Int) ≤ s.clipX2 ∧ s.clipY1 ≤ b ∧ (b + e : Int) ≤ s.clipY2 := by
  unfold xorRectangle
  dsimp only
  split
  · rename_i hne
    right
    refine ⟨_, _, _, _, rfl, ?_⟩
    omega
  · exact .inl rfl

/-- The sizes `tty_dpy_invalidate` gives the arrays, and a clip on the screen. -/
structure TtyShape (d : TTYDisplay) : Prop where
  width_pos : 0 < d.scr.width
  screen_length : d.scr.screen.length = d.scr.width * d.height
  shadow_length : d.shadow.length = d.scr.width * d.height + 1
  lineUpdated_length : d.scr.lineUpdated.length = d.height
  clipX1_nonneg : 0 ≤ d.scr.clipX1
  clipX2_le : d.scr.clipX2 ≤ d.scr.width
  clipY1_nonneg : 0 ≤ d.scr.clipY1
  clipY2_le : d.scr.clipY2 ≤ d.height

namespace TtyShape

variable {d : TTYDisplay}

/-- New cells, cache and marks of the same sizes. -/
theorem update (hs : TtyShape d) {screen : List TTYChar} (cache : List UInt32) {lu : List Bool}
    (hscr : screen.length = d.scr.screen.length) (hlu : lu.length = d.scr.lineUpdated.length) :
    TtyShape { d with scr := { d.scr with screen := screen, combCache := cache, lineUpdated := lu } } :=
  { hs with
    screen_length := hscr.trans hs.screen_length
    lineUpdated_length := hlu.trans hs.lineUpdated_length }

theorem mapRect (hs : TtyShape d) (f : TTYChar → TTYChar) (x1 w h y : Nat) :
    TtyShape { d with scr := mapRect f x1 w h y d.scr } := by
  obtain ⟨screen, lu, heq, hscr, hlu⟩ := mapRect_eq f x1 w h y d.scr
  rw [heq]
  exact hs.update d.scr.combCache hscr hlu

end TtyShape

theorem ttyDpyInvalidate_shape (d : TTYDisplay) {cols : Int} (rows : Int) (hcols : 0 < cols) :
    TtyShape (ttyDpyInvalidate d cols rows) where
  width_pos := by
    show 0 < (ttyScreenWidth cols).toNat
    unfold ttyScreenWidth MAX_SCREEN_WIDTH
    split <;> omega
  screen_length := List.length_replicate ..
  shadow_length := List.length_replicate ..
  lineUpdated_length := List.length_replicate ..
  clipX1_nonneg := le_refl 0
  clipX2_le := le_refl _
  clipY1_nonneg := le_refl 0
  clipY2_le := le_refl _

/-! ## The flush -/

/-- A flush that ends has cleaned the cache of the `width * height` cells of the screen. -/
theorem ttyDpyFlush_combCache {t : TTYOutput} {d d' : TTYDisplay} {out : List UInt8}
    (h : ttyDpyFlush t d = some (d', out)) :
    combCacheClean d.scr.combCache d.scr.screen (d.scr.width * d.height) = some d'.scr.combCache := by
  unfold ttyDpyFlush at h
  obtain ⟨⟨lu, st⟩, -, h⟩ := Option.bind_eq_some_iff.mp h
  obtain ⟨cache, hclean, h⟩ := Option.bind_eq_some_iff.mp h
  cases h
  exact hclean

/-- The flush of a display of the right sizes: `ttyDpyFlush_spec` for a flush that ends. -/
theorem TtyShape.flush {t : TTYOutput} {d d' : TTYDisplay} {out : List UInt8} (hs : TtyShape d)
    (h : ttyDpyFlush t d = some (d', out)) :
    d'.scr.screen = d.scr.screen ∧ d'.scr.width = d.scr.width ∧ d'.height = d.height ∧
      (d'.scr.clipX1, d'.scr.clipY1, d'.scr.clipX2, d'.scr.clipY2) =
        (d.scr.clipX1, d.scr.clipY1, d.scr.clipX2, d.scr.clipY2) ∧
      d'.shadow.length = d.shadow.length ∧
      (∀ j, d'.shadow[j]? = if j < d.scr.width * d.height ∧ d.scr.lineUpdated.getD (j / d.scr.width) false
        then d.scr.screen[j]? else d.shadow[j]?) ∧
      d'.scr.lineUpdated.length = d.scr.lineUpdated.length ∧
      ∀ y, d'.scr.lineUpdated.getD y false = (d.scr.lineUpdated.getD y false && !decide (y < d.height)) := by
  obtain ⟨d'', out'', h'', hscr, hw, -, hh, hclip, hsh, hcopy, hlu, hmarks⟩ :=
    ttyDpyFlush_spec t hs.width_pos hs.screen_length hs.shadow_length (ttyDpyFlush_combCache h)
  rw [h, Option.some.injEq, Prod.mk.injEq] at h''
  obtain ⟨rfl, -⟩ := h''
  exact ⟨hscr, hw, hh, hclip, hsh, hcopy, hlu, hmarks⟩

theorem TtyShape.of_flush {t : TTYOutput} {d d' : TTYDisplay} {out : List UInt8} (hs : TtyShape d)
    (h : ttyDpyFlush t d = some (d', out)) : TtyShape d' := by
  obtain ⟨hscr, hw, hh, hclip, hsh, -, hlu, -⟩ := hs.flush h
  simp only [Prod.mk.injEq] at hclip
  obtain ⟨h1, h2, h3, h4⟩ := hclip
  exact ⟨hw ▸ hs.width_pos, by rw [hscr, hw, hh]; exact hs.screen_length,
    by rw [hsh, hw, hh]; exact hs.shadow_length, by rw [hlu, hh]; exact hs.lineUpdated_length,
    h1 ▸ hs.clipX1_nonneg, by rw [h3, hw]; exact hs.clipX2_le, h2 ▸ hs.clipY1_nonneg,
    by rw [h4, hh]; exact hs.clipY2_le⟩

/-- The flush on a display with the invariant of the cache ends and leaves the chain of the
abstract clean. -/
theorem ttyDpyFlush_clean (t : TTYOutput) {d : TTYDisplay} {blocks : List CombBlock}
    (hs : TtyShape d) (hc : CombChain d.scr.combCache blocks) (hn : CombNamed blocks d.scr.screen) :
    ∃ d' out, ttyDpyFlush t d = some (d', out) ∧ d'.scr.screen = d.scr.screen ∧
      CombChain d'.scr.combCache (combClean d.scr.screen blocks) := by
  obtain ⟨cache', hclean, hc'⟩ := combCacheClean_refines hc (hn.isSome (d.scr.width * d.height))
  rw [← hs.screen_length, List.take_length] at hc'
  rw [← hs.screen_length] at hclean
  obtain ⟨d', out, h, hscr, -, hcache, -⟩ :=
    ttyDpyFlush_spec t hs.width_pos hs.screen_length hs.shadow_length
      (by rw [← hs.screen_length]; exact hclean)
  exact ⟨d', out, h, hscr, hcache ▸ hc'⟩

/-! ## Steps and runs -/

/-- The cache is a chain of blocks, and every cell that names an entry names a combination of
the chain. -/
def CombOK (s : TTYScreen) : Prop :=
  ∃ blocks, CombChain s.combCache blocks ∧ CombNamed blocks s.screen

theorem ttyInit_combOK (cols rows : Int) : CombOK (ttyInit cols rows).scr :=
  ⟨[], combChain_empty, CombNamed.replicate_default [] _⟩

/-- The display after a flush does not depend on the terminal: its flags, colours, charset and
cursor change the bytes only. In particular the erase to the end of the line leaves the shadow
the plain output loop would. -/
theorem ttyDpyFlush_display_eq {t t' : TTYOutput} {d d₁ d₂ : TTYDisplay} {o₁ o₂ : List UInt8}
    (hs : TtyShape d) (h₁ : ttyDpyFlush t d = some (d₁, o₁)) (h₂ : ttyDpyFlush t' d = some (d₂, o₂)) :
    d₁ = d₂ := by
  obtain ⟨hscr₁, hw₁, hh₁, hclip₁, -, hcopy₁, hlu₁, hmarks₁⟩ := hs.flush h₁
  obtain ⟨hscr₂, hw₂, hh₂, hclip₂, -, hcopy₂, hlu₂, hmarks₂⟩ := hs.flush h₂
  -- both cleans are the one clean of the same cache
  have hcache : d₁.scr.combCache = d₂.scr.combCache :=
    Option.some.inj ((ttyDpyFlush_combCache h₁).symm.trans (ttyDpyFlush_combCache h₂))
  have hshadow : d₁.shadow = d₂.shadow := List.ext_getElem? fun j => by rw [hcopy₁, hcopy₂]
  have hlu : d₁.scr.lineUpdated = d₂.scr.lineUpdated :=
    List.ext_getElem (hlu₁.trans hlu₂.symm) fun i hi₁ hi₂ => by
      have h := (hmarks₁ i).trans (hmarks₂ i).symm
      rwa [List.getD_eq_getElem _ _ hi₁, List.getD_eq_getElem _ _ hi₂] at h
  obtain ⟨⟨w₁, screen₁, lu₁, cache₁, a₁, b₁, c₁, e₁⟩, height₁, shadow₁⟩ := d₁
  obtain ⟨⟨w₂, screen₂, lu₂, cache₂, a₂, b₂, c₂, e₂⟩, height₂, shadow₂⟩ := d₂
  simp only [Prod.mk.injEq] at hclip₁ hclip₂
  simp only at hscr₁ hscr₂ hw₁ hw₂ hh₁ hh₂ hcache hshadow hlu
  obtain ⟨rfl, rfl, rfl, rfl⟩ := hclip₁
  obtain ⟨rfl, rfl, rfl, rfl⟩ := hclip₂
  subst hscr₁ hscr₂ hw₁ hw₂ hh₁ hh₂ hcache hshadow hlu
  rfl

theorem ttyDpyFlush_display_eq_init :
    ∃ d₁ o₁ d₂ o₂, TtyShape (ttyInit 80 24) ∧
      ttyDpyFlush ⟨false, true, false, false, 8, 8, fun _ => 0, fun _ => 0, fun c => some [c.toUInt8],
        false, fun _ => false, fun _ => 1, 0, 0⟩ (ttyInit 80 24) = some (d₁, o₁) ∧
      ttyDpyFlush ⟨true, false, true, true, 256, 256, fun _ => 0, fun _ => 0, fun _ => none,
        true, fun _ => true, fun _ => 2, 5, 7⟩ (ttyInit 80 24) = some (d₂, o₂) ∧ d₁ = d₂ := by
  have hs : TtyShape (ttyInit 80 24) := ttyDpyInvalidate_shape _ 24 (by decide)
  obtain ⟨blocks, hc, hn⟩ := ttyInit_combOK 80 24
  obtain ⟨d₁, o₁, h₁, -⟩ := ttyDpyFlush_clean ⟨false, true, false, false, 8, 8, fun _ => 0,
    fun _ => 0, fun c => some [c.toUInt8], false, fun _ => false, fun _ => 1, 0, 0⟩ hs hc hn
  obtain ⟨d₂, o₂, h₂, -⟩ := ttyDpyFlush_clean ⟨true, false, true, true, 256, 256, fun _ => 0,
    fun _ => 0, fun _ => none, true, fun _ => true, fun _ => 2, 5, 7⟩ hs hc hn
  exact ⟨d₁, o₁, d₂, o₂, hs, h₁, h₂, ttyDpyFlush_display_eq hs h₁ h₂⟩

section Step

variable {tbl : UInt32 → Nat} {d d' : TTYDisplay} {blocks : List CombBlock}

/-- Every step keeps the sizes of the arrays and the clip on the screen. -/
theorem TtyStep.shape (hstep : TtyStep tbl d d') (hs : TtyShape d) : TtyShape d' := by
  cases hstep with
  | drawText fg x y str hstr hlen hfirst h =>
    rcases ttyDpyDrawText_eq h with rfl | ⟨-, -, screen, cache, rfl, hscr⟩
    · exact hs
    · exact hs.update cache hscr (List.length_set ..)
  | fillRect _ x1 y1 w h bg =>
    rcases fillRectangle_eq hs.clipX1_nonneg hs.clipY1_nonneg x1 y1 w h bg with
      heq | ⟨a, b, c, e, heq, -⟩ <;> rw [heq]
    · exact hs
    · exact hs.mapRect _ a c e b
  | xorRect _ x y w h =>
    rcases xorRectangle_eq hs.clipX1_nonneg hs.clipY1_nonneg x y w h with
      heq | ⟨a, b, c, e, heq, -⟩ <;> rw [heq]
    · exact hs
    · exact hs.mapRect _ a c e b
  | setClip _ r =>
    -- the rectangle is cut to the screen
    have := hs.width_pos
    refine { hs with clipX1_nonneg := ?_, clipX2_le := ?_, clipY1_nonneg := ?_, clipY2_le := ?_ } <;>
      dsimp only [setClipRectangle] <;> split <;> omega
  | pushClip _ r =>
    -- the rectangle is cut to the clip, which is on the screen
    have := hs.clipX1_nonneg
    have := hs.clipX2_le
    have := hs.clipY1_nonneg
    have := hs.clipY2_le
    refine { hs with clipX1_nonneg := ?_, clipX2_le := ?_, clipY1_nonneg := ?_, clipY2_le := ?_ } <;>
      dsimp only [pushClipRectangle] <;> split <;> omega
  | flush t h => exact hs.of_flush h
  | invalidate _ cols rows hcols => exact ttyDpyInvalidate_shape d rows hcols

/-- Every step keeps the invariant of the cache and every combination that a cell names. -/
theorem TtyStep.keeps (hstep : TtyStep tbl d d') (hs : TtyShape d)
    (hc : CombChain d.scr.combCache blocks) (hn : CombNamed blocks d.scr.screen) :
    ∃ blocks', CombChain d'.scr.combCache blocks' ∧ CombNamed blocks' d'.scr.screen ∧
      ∀ c ∈ d.scr.screen, ∀ k seq, combRef c = some k → CombAt blocks k seq → CombAt blocks' k seq := by
  cases hstep with
  | drawText fg x y str hstr hlen hfirst h =>
    obtain ⟨s'', blocks', hdraw, hc', hn', hkeep⟩ := ttyDpyDrawText_combOK tbl fg x y hc hn hstr hlen
    rw [h, Option.some.injEq] at hdraw
    subst hdraw
    exact ⟨blocks', hc', hn', fun _ _ k seq _ hat => hkeep k seq hat⟩
  | fillRect _ x1 y1 w h bg =>
    rcases fillRectangle_eq hs.clipX1_nonneg hs.clipY1_nonneg x1 y1 w h bg with
      heq | ⟨a, b, c, e, heq, -⟩ <;> rw [heq]
    · exact ⟨blocks, hc, hn, fun _ _ _ _ _ hat => hat⟩
    · refine ⟨blocks, ?_, mapRect_combNamed (fun _ => .inl (combRef_fill bg)) e b d.scr hn,
        fun _ _ _ _ _ hat => hat⟩
      rw [ttyDpyFillRectangle, mapRect_combCache]
      exact hc
  | xorRect _ x y w h =>
    -- the code point stays, so the cell names what it named
    have hf : ∀ c : TTYChar, combRef { c with fg := c.fg ^^^ 7, bg := c.bg ^^^ 7 } = none ∨
        combRef { c with fg := c.fg ^^^ 7, bg := c.bg ^^^ 7 } = combRef c :=
      fun c => .inr (by rw [combRef, combRef])
    rcases xorRectangle_eq hs.clipX1_nonneg hs.clipY1_nonneg x y w h with
      heq | ⟨a, b, c, e, heq, -⟩ <;> rw [heq]
    · exact ⟨blocks, hc, hn, fun _ _ _ _ _ hat => hat⟩
    · refine ⟨blocks, ?_, mapRect_combNamed hf e b d.scr hn, fun _ _ _ _ _ hat => hat⟩
      rw [ttyDpyXorRectangle, mapRect_combCache]
      exact hc
  | setClip _ r => exact ⟨blocks, hc, hn, fun _ _ _ _ _ hat => hat⟩
  | pushClip _ r => exact ⟨blocks, hc, hn, fun _ _ _ _ _ hat => hat⟩
  | flush t h =>
    obtain ⟨d'', out'', hflush, hscreen, hc'⟩ := ttyDpyFlush_clean t hs hc hn
    rw [h, Option.some.injEq, Prod.mk.injEq] at hflush
    obtain ⟨rfl, -⟩ := hflush
    refine ⟨combClean d.scr.screen blocks, hc', hscreen ▸ hn.clean, fun c hc k seq hk hat => ?_⟩
    exact combClean_keeps hat (List.any_eq_true.mpr ⟨c, hc, by simp [hk]⟩)
  | invalidate _ cols rows hcols =>
    exact ⟨blocks, hc, CombNamed.replicate_default blocks _, fun _ _ _ _ _ hat => hat⟩

theorem TtyStep.combOK (hstep : TtyStep tbl d d') (hs : TtyShape d ∧ CombOK d.scr) :
    TtyShape d' ∧ CombOK d'.scr := by
  obtain ⟨hshape, blocks, hc, hn⟩ := hs
  obtain ⟨blocks', hc', hn', -⟩ := hstep.keeps hshape hc hn
  exact ⟨hstep.shape hshape, blocks', hc', hn'⟩

/-- What the terminal shows for a combination that a cell names does not change in a step. -/
theorem TtyStep.combSequence (hstep : TtyStep tbl d d') (hs : TtyShape d ∧ CombOK d.scr)
    {c : TTYChar} (hc : c ∈ d.scr.screen) {k : Nat} (hk : combRef c = some k) :
    combSequence d'.scr.combCache k = combSequence d.scr.combCache k := by
  obtain ⟨hshape, blocks, hchain, hn⟩ := hs
  obtain ⟨seq, hat⟩ := hn c hc k hk
  obtain ⟨blocks', hchain', -, hkeep⟩ := hstep.keeps hshape hchain hn
  rw [hchain'.combSequence_of_combAt (hkeep c hc k seq hk hat), hchain.combSequence_of_combAt hat]

end Step

section Runs

variable {tbl : UInt32 → Nat} {cols rows : Int} {d : TTYDisplay}

/-- Every run from a state with the invariants keeps them. -/
theorem TtyStep.run_combOK {d₀ : TTYDisplay} (h₀ : TtyShape d₀ ∧ CombOK d₀.scr)
    (hs : Relation.ReflTransGen (TtyStep tbl) d₀ d) : TtyShape d ∧ CombOK d.scr := by
  induction hs with
  | refl => exact h₀
  | tail _ hstep ih => exact hstep.combOK ih

theorem ttyInit_shape_combOK (hcols : 0 < cols) : TtyShape (ttyInit cols rows) ∧ CombOK (ttyInit cols rows).scr :=
  ⟨ttyDpyInvalidate_shape _ rows hcols, ttyInit_combOK cols rows⟩

/-- Every state the display reaches from its start has the sizes of `tty_dpy_invalidate`, its
clip on the screen, and the invariant of the cache. -/
theorem ttyReachable_combOK (hcols : 0 < cols)
    (hs : Relation.ReflTransGen (TtyStep tbl) (ttyInit cols rows) d) : TtyShape d ∧ CombOK d.scr :=
  TtyStep.run_combOK (ttyInit_shape_combOK hcols) hs

theorem ttyReachable_combOK_fill :
    0 < (80 : Int) ∧ TtyShape { ttyInit 80 24 with scr := fillRectangle (ttyInit 80 24).scr 0 0 1 1 4 } ∧
      CombOK (fillRectangle (ttyInit 80 24).scr 0 0 1 1 4) :=
  ⟨by decide, ttyReachable_combOK (by decide)
    (Relation.ReflTransGen.single (show TtyStep (fun _ => 1) _ _ from TtyStep.fillRect _ 0 0 1 1 4))⟩

/-- In every state the display reaches, the flush ends, and leaves the cache holding the chain
of the abstract clean: the blocks a cell names used, the others free, the free runs merged and a
free run at the end cut off. -/
theorem ttyReachable_flush (hcols : 0 < cols)
    (hs : Relation.ReflTransGen (TtyStep tbl) (ttyInit cols rows) d) (t : TTYOutput) :
    ∃ blocks d' out, CombChain d.scr.combCache blocks ∧ CombNamed blocks d.scr.screen ∧
      ttyDpyFlush t d = some (d', out) ∧ CombChain d'.scr.combCache (combClean d.scr.screen blocks) ∧
      CombCoalesced (combClean d.scr.screen blocks) := by
  obtain ⟨hshape, blocks, hc, hn⟩ := TtyStep.run_combOK (ttyInit_shape_combOK hcols) hs
  obtain ⟨d', out, hflush, -, hc'⟩ := ttyDpyFlush_clean t hshape hc hn
  exact ⟨blocks, d', out, hc, hn, hflush, hc', combMerge_coalesced _⟩

/-- The flush after drawing `a` and a combining accent on a four column display: the clean
keeps the one block the cell names. -/
theorem ttyReachable_flush_accent :
    let tbl : UInt32 → Nat := fun c => if c = 0x301 then 0 else 1
    0 < (4 : Int) ∧ ∃ s', ttyDpyDrawText tbl 7 (ttyInit 4 1).scr 0 0 [0x61, 0x301] = some s' ∧
      ∃ blocks d' out, CombChain s'.combCache blocks ∧ CombNamed blocks s'.screen ∧
        ttyDpyFlush ⟨false, false, false, false, 8, 8, fun _ => 0, fun _ => 0,
          fun c => some [c.toUInt8], false, fun _ => false, fun _ => 1, 0, 0⟩
          { ttyInit 4 1 with scr := s' } = some (d', out) ∧
        CombChain d'.scr.combCache (combClean s'.screen blocks) ∧
        CombCoalesced (combClean s'.screen blocks) := by
  intro tbl
  have hstr : ∀ c ∈ [0x61, 0x301], combRef ⟨c, 0, 0⟩ = none := by
    intro c hc
    simp only [List.mem_cons, List.not_mem_nil, or_false] at hc
    rcases hc with rfl | rfl <;> decide
  -- the draw ends on the initial display, by its invariants
  have hinit : TtyShape (ttyInit 4 1) ∧ CombOK (ttyInit 4 1).scr := ttyInit_shape_combOK (by decide)
  obtain ⟨-, blocks, hc, hn⟩ := hinit
  obtain ⟨s', -, hdraw, -⟩ := ttyDpyDrawText_combOK tbl 7 0 0 hc hn hstr (by decide)
  exact ⟨by decide, s', hdraw, ttyReachable_flush (by decide) (Relation.ReflTransGen.single
    (TtyStep.drawText 7 0 0 [0x61, 0x301] hstr (by decide)
      (fun c rest h => by cases h; decide) hdraw)) _⟩

/-- In every state the display reaches, drawing a string with no code point in the range of the
codes ends. -/
theorem ttyReachable_drawText (hcols : 0 < cols)
    (hs : Relation.ReflTransGen (TtyStep tbl) (ttyInit cols rows) d)
    (fg : Nat) (x y : Int) {str : List UInt32} (hstr : ∀ c ∈ str, combRef ⟨c, 0, 0⟩ = none)
    (hlen : str.length + 1 < 2 ^ 31) : (ttyDpyDrawText tbl fg d.scr x y str).isSome := by
  obtain ⟨-, blocks, hc, hn⟩ := TtyStep.run_combOK (ttyInit_shape_combOK hcols) hs
  obtain ⟨s', -, hdraw, -⟩ := ttyDpyDrawText_combOK tbl fg x y hc hn hstr hlen
  rw [hdraw]
  rfl

theorem ttyReachable_drawText_accent :
    0 < (80 : Int) ∧ (∀ c ∈ [0x61, 0x301], combRef ⟨c, 0, 0⟩ = none) ∧
      (ttyDpyDrawText (fun _ => 0) 7 (ttyInit 80 24).scr 0 0 [0x61, 0x301]).isSome := by
  have hstr : ∀ c ∈ [0x61, 0x301], combRef ⟨c, 0, 0⟩ = none := by
    intro c hc
    simp only [List.mem_cons, List.not_mem_nil, or_false] at hc
    rcases hc with rfl | rfl <;> decide
  exact ⟨by decide, hstr,
    ttyReachable_drawText (by decide) Relation.ReflTransGen.refl 7 0 0 hstr (by decide)⟩

/-- Over any run along which cell `i` keeps its value, the terminal shows for it the same code
points: neither drawing nor the clean takes away a combination that is still on the screen. -/
theorem ttyRun_combSequence {d' : TTYDisplay} {i k : Nat} {c : TTYChar}
    (hs : TtyShape d ∧ CombOK d.scr) (hi : d.scr.screen[i]? = some c) (hk : combRef c = some k)
    (hrun : Relation.ReflTransGen (fun e e' => TtyStep tbl e e' ∧ e'.scr.screen[i]? = some c) d d') :
    combSequence d'.scr.combCache k = combSequence d.scr.combCache k := by
  -- the invariants, the cell and the code points, carried along the run
  have hall : (TtyShape d' ∧ CombOK d'.scr) ∧ d'.scr.screen[i]? = some c ∧
      combSequence d'.scr.combCache k = combSequence d.scr.combCache k := by
    induction hrun with
    | refl => exact ⟨hs, hi, rfl⟩
    | tail _ hstep ih =>
      obtain ⟨hok, hti, hseq⟩ := ih
      refine ⟨hstep.1.combOK hok, hstep.2, ?_⟩
      rw [← hseq]
      exact hstep.1.combSequence hok (List.mem_of_getElem? hti) hk
  exact hall.2.2

theorem ttyRun_combSequence_fill :
    let d : TTYDisplay := ⟨⟨2, [⟨TTY_CHAR_COMB, 7, 0⟩, TTY_CHAR_DEFAULT], [true],
      [3, 0x61, 0x301] ++ List.replicate (COMB_CACHE_SIZE - 3) 0, 0, 0, 2, 1⟩, 1,
      List.replicate 3 TTY_CHAR_ERASED⟩
    combSequence (fillRectangle d.scr 1 0 1 1 4).combCache 0 = combSequence d.scr.combCache 0 := by
  intro d
  -- cell 0 names the block at offset 0, which holds the pair
  have hok : CombOK d.scr := by
    refine ⟨[⟨false, [0x61, 0x301]⟩], combChain_pair, ?_⟩
    intro c hc k hk
    simp only [d, List.mem_cons, List.not_mem_nil, or_false] at hc
    rcases hc with rfl | rfl
    · have hk0 : k = 0 := by
        have : combRef ⟨TTY_CHAR_COMB, 7, 0⟩ = some 0 := by decide
        rw [this, Option.some.injEq] at hk
        exact hk.symm
      exact ⟨[0x61, 0x301], by rw [hk0]; decide⟩
    · have : combRef TTY_CHAR_DEFAULT = none := by decide
      rw [this] at hk
      cases hk
  have hshape : TtyShape d :=
    ⟨by decide, rfl, rfl, rfl, by decide, by decide, by decide, by decide⟩
  exact ttyRun_combSequence ⟨hshape, hok⟩ (i := 0) rfl (by decide)
    (Relation.ReflTransGen.single
      ⟨show TtyStep (fun _ => 1) d _ from TtyStep.fillRect d 1 0 1 1 4, by decide⟩)

end Runs

end Qemacs
