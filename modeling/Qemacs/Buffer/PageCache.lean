import Qemacs.Buffer.Chars

/-!
# The position caches of the pages

A page caches its line count and last column (`nb_lines`, `col`, valid under
`PG_VALID_POS`) and its character count (`nb_chars`, under `PG_VALID_CHAR`).
`eb_get_pos`, `eb_goto_pos`, `eb_goto_char` and `eb_get_char_offset` fill a
cache when its flag is clear; every path that changes a page's bytes goes
through `update_page`, which clears the flags; new pages start with none; and
`eb_set_charset` clears them on every page.

The invariant is `EditBuffer.Coherent`: every cache a page holds is what the
buffer's charset computes on the page's bytes now. An edition relates the
buffer before and after by `CachesFrom`: the decoding is the same, and each
page after it is a page from before or holds no cache. The cache fillers keep
`Coherent` directly. Both facts are proved once per function, and
`cacheReachable_coherent` assembles them over every run.
-/

namespace Qemacs

/-! ## `eb_set_charset`, `eb_goto_char` and `eb_get_char_offset` -/

/-- `eb_set_charset`: the decoding state is rebuilt for the new charset and
end-of-line type, and the cache flags of every page are reset. -/
def ebSetCharset (b : EditBuffer) (charset : QECharset) (eolType : EOLType) : EditBuffer :=
  { b with
    eolType := eolType
    charset := charset
    charsetState := charsetDecodeInit charset eolType
    pages := b.pages.map fun p =>
      { p with validPos := false, validChar := false, validColors := false } }

/-- A page's character count through its cache: computed and stored unless
`PG_VALID_CHAR` is set. -/
def pageChars (cs : QECharset) (st : CharsetDecodeState) (p : Page) : Page :=
  if p.validChar then p
  else { p with validChar := true, nbChars := cs.getCharsFunc st.eolType p.data }

/-- The page loop of `eb_goto_char`: the offset of character `pos`, with the
offset of the page's start so far. -/
def gotoCharPages (cs : QECharset) (st : CharsetDecodeState) :
    List Page → Nat → Nat → Nat × List Page
  | [], _, offset => (offset, [])
  | p :: ps, pos, offset =>
    let p := pageChars cs st p
    if pos < p.nbChars then (offset + cs.gotoCharFunc st.eolType p.data pos, p :: ps)
    else
      let r := gotoCharPages cs st ps (pos - p.nbChars) (offset + p.size)
      (r.1, p :: r.2)

/-- `eb_goto_char`: the byte offset of character `pos`. -/
def ebGotoChar (b : EditBuffer) (pos : Nat) : Nat × EditBuffer :=
  if !b.charset.variableSize ∧ b.eolType ≠ .dos then
    (min (pos * b.charset.charSize) b.totalSize, b)
  else
    let r := gotoCharPages b.charset b.charsetState b.pages pos 0
    (r.1, { b with pages := r.2 })

/-- The page loop of `eb_get_char_offset`: the number of characters before
`offset`, with the count before the page so far. -/
def charOffsetPages (cs : QECharset) (st : CharsetDecodeState) :
    List Page → Nat → Nat → Nat × List Page
  | [], _, pos => (pos, [])
  | p :: ps, offset, pos =>
    let p := pageChars cs st p
    if offset < p.size then (pos + cs.getCharsFunc st.eolType (p.data.take offset), p :: ps)
    else
      let r := charOffsetPages cs st ps (offset - p.size) (pos + p.nbChars)
      (r.1, p :: r.2)

/-- The rounding of `eb_get_char_offset` in a UTF-8 buffer: back over the
trailing bytes, read one at a time with `eb_read`. -/
def roundDownUtf8 (b : EditBuffer) : Nat → Nat × EditBuffer
  | 0 => (0, b)
  | offset + 1 =>
    let r := ebRead b (offset + 1 : Nat) 1
    if r.1 = 1 ∧ utf8IsTrailingByte (r.2.1.getD 0 0) then roundDownUtf8 r.2.2 offset
    else (offset + 1, r.2.2)

/-- `eb_get_char_offset`: the number of characters before `offset`, a
negative offset read as 0. -/
def ebGetCharOffset (b : EditBuffer) (offset : Int) : Nat × EditBuffer :=
  let offset := offset.toNat
  if !b.charset.variableSize ∧ b.eolType ≠ .dos then
    -- offset is round down to character boundary
    (min offset b.totalSize / b.charset.charSize, b)
  else
    let (offset, b) :=
      if b.charset.name = charset_utf8.name then roundDownUtf8 b offset else (offset, b)
    let r := charOffsetPages b.charset b.charsetState b.pages offset 0
    (r.1, { b with pages := r.2 })

/-! ## The invariant -/

/-- A page holds no cache: both flags are clear. -/
def Page.NoCache (p : Page) : Prop := p.validPos = false ∧ p.validChar = false

/-- The caches `p` holds agree with its bytes under the decoding state `st` of
the charset `cs`. -/
def Page.Coherent (st : CharsetDecodeState) (cs : QECharset) (p : Page) : Prop :=
  (p.validPos = true → (p.nbLines, p.col) = getPosOf st p.data) ∧
    (p.validChar = true → p.nbChars = cs.getCharsFunc st.eolType p.data)

/-- Every page's caches agree with its bytes, for the buffer's charset. -/
def EditBuffer.Coherent (b : EditBuffer) : Prop :=
  ∀ p ∈ b.pages, p.Coherent b.charsetState b.charset

/-- The invariant of the caches: the decoding state is the one built for the
buffer's charset and end-of-line type, and every page's caches agree with it. -/
structure EditBuffer.CachesValid (b : EditBuffer) : Prop where
  decoding : b.charsetState = charsetDecodeInit b.charset b.eolType
  coherent : b.Coherent

theorem Page.NoCache.coherent {p : Page} (h : p.NoCache) (st : CharsetDecodeState)
    (cs : QECharset) : p.Coherent st cs := by
  refine ⟨fun hv => ?_, fun hv => ?_⟩
  · rw [h.1] at hv
    contradiction
  · rw [h.2] at hv
    contradiction

/-- A page written through `update_page` holds no cache, whatever its new bytes. -/
@[simp] theorem updatePage_noCache (p : Page) (data : List UInt8) :
    ({ updatePage p with data := data } : Page).NoCache := ⟨rfl, rfl⟩

/-! ## Pages that keep or drop their caches -/

/-- `q` is one of the pages `ps` or holds no cache. -/
def PageFrom (ps : List Page) (q : Page) : Prop := q ∈ ps ∨ q.NoCache

/-- Each page of `qs` is one of `ps` or holds no cache. -/
def PagesFrom (ps qs : List Page) : Prop := ∀ q ∈ qs, PageFrom ps q

namespace PagesFrom

variable {ps qs rs : List Page}

theorem refl (ps : List Page) : PagesFrom ps ps := fun _ hq => .inl hq

theorem mono (h : PagesFrom ps qs) (hsub : rs ⊆ qs) : PagesFrom ps rs := fun r hr => h r (hsub hr)

theorem trans (h₁ : PagesFrom ps qs) (h₂ : PagesFrom qs rs) : PagesFrom ps rs := by
  intro r hr
  rcases h₂ r hr with hq | hn
  · exact h₁ r hq
  · exact .inr hn

theorem nil : PagesFrom ps [] := fun _ hq => absurd hq List.not_mem_nil

theorem cons {q : Page} (hq : PageFrom ps q) (h : PagesFrom ps qs) : PagesFrom ps (q :: qs) := by
  intro r hr
  rcases List.mem_cons.mp hr with rfl | hr
  · exact hq
  · exact h r hr

theorem head {q : Page} (h : PagesFrom ps (q :: qs)) : PageFrom ps q := h q List.mem_cons_self

theorem tail {q : Page} (h : PagesFrom ps (q :: qs)) : PagesFrom ps qs :=
  h.mono (List.subset_cons_self q qs)

theorem append (h₁ : PagesFrom ps qs) (h₂ : PagesFrom ps rs) : PagesFrom ps (qs ++ rs) := by
  intro q hq
  rcases List.mem_append.mp hq with hq | hq
  · exact h₁ q hq
  · exact h₂ q hq

theorem take (h : PagesFrom ps qs) (n : Nat) : PagesFrom ps (qs.take n) :=
  h.mono (List.take_subset n qs)

theorem drop (h : PagesFrom ps qs) (n : Nat) : PagesFrom ps (qs.drop n) :=
  h.mono (List.drop_subset n qs)

theorem reverse (h : PagesFrom ps qs) : PagesFrom ps qs.reverse :=
  h.mono fun _ hq => List.mem_reverse.mp hq

/-- Caches kept or dropped agree with the bytes, under the same decoding. -/
theorem coherent {st : CharsetDecodeState} {cs : QECharset} (h : PagesFrom ps qs)
    (hok : ∀ p ∈ ps, p.Coherent st cs) : ∀ q ∈ qs, q.Coherent st cs := by
  intro q hq
  rcases h q hq with hp | hn
  · exact hok q hp
  · exact hn.coherent st cs

end PagesFrom

/-- `b'` is `b` after an edition or a read: the same charset, end-of-line type
and decoding state, and each of its pages one of `b`'s or one without a cache. -/
structure EditBuffer.CachesFrom (b b' : EditBuffer) : Prop where
  pages : PagesFrom b.pages b'.pages
  charset : b'.charset = b.charset
  eolType : b'.eolType = b.eolType
  charsetState : b'.charsetState = b.charsetState

namespace EditBuffer.CachesFrom

variable {b b' b'' : EditBuffer}

theorem refl (b : EditBuffer) : b.CachesFrom b := ⟨.refl _, rfl, rfl, rfl⟩

theorem trans (h₁ : b.CachesFrom b') (h₂ : b'.CachesFrom b'') : b.CachesFrom b'' :=
  ⟨h₁.pages.trans h₂.pages, h₂.charset.trans h₁.charset, h₂.eolType.trans h₁.eolType,
    h₂.charsetState.trans h₁.charsetState⟩

/-- The same pages and decoding, whatever else changed. -/
theorem of_eq (hp : b'.pages = b.pages) (hc : b'.charset = b.charset)
    (he : b'.eolType = b.eolType) (hs : b'.charsetState = b.charsetState) : b.CachesFrom b' :=
  ⟨hp ▸ .refl _, hc, he, hs⟩

/-- New pages, built from `b`'s and pages without a cache, under the same decoding. -/
theorem of_pages (hp : PagesFrom b.pages b'.pages) (hc : b'.charset = b.charset)
    (he : b'.eolType = b.eolType) (hs : b'.charsetState = b.charsetState) : b.CachesFrom b' :=
  ⟨hp, hc, he, hs⟩

/-- `CachesFrom` reads only the pages and the decoding of the first buffer. -/
theorem congr_left (h : b'.CachesFrom b'') (hp : b'.pages = b.pages)
    (hc : b'.charset = b.charset) (he : b'.eolType = b.eolType)
    (hs : b'.charsetState = b.charsetState) : b.CachesFrom b'' :=
  (of_eq hp hc he hs).trans h

theorem coherent (h : b.CachesFrom b') (hok : b.Coherent) : b'.Coherent := by
  intro q hq
  rw [h.charset, h.charsetState]
  exact h.pages.coherent hok q hq

theorem cachesValid (h : b.CachesFrom b') (hok : b.CachesValid) : b'.CachesValid where
  decoding := by rw [h.charset, h.eolType, h.charsetState]; exact hok.decoding
  coherent := h.coherent hok.coherent

end EditBuffer.CachesFrom

/-! ## Reads and the log keep every page -/

theorem findPage_cachesFrom (b : EditBuffer) (offset : Nat) :
    b.CachesFrom (findPage b offset).2.2 := by
  obtain ⟨cp, co, h⟩ := findPage_frame b offset
  rw [h]
  exact .of_eq rfl rfl rfl rfl

theorem ebRead_cachesFrom (b : EditBuffer) (offset size : Int) :
    b.CachesFrom (ebRead b offset size).2.2 := by
  unfold ebRead
  split
  · exact .refl b
  · exact findPage_cachesFrom b offset.toNat

theorem ebReadOneByte_cachesFrom (b : EditBuffer) (offset : Int) :
    b.CachesFrom (ebReadOneByte b offset).2 := by
  unfold ebReadOneByte
  split
  · exact .refl b
  · exact findPage_cachesFrom b offset.toNat

theorem logAddRecord_cachesFrom (b : EditBuffer) (op : LogOperation) (offset size : Int)
    (wasModified : Bool) (log : List LogRecord) :
    b.CachesFrom (logAddRecord b op offset size wasModified log) := by
  unfold logAddRecord
  -- only the bytes of a deletion or a write are read, with `eb_read`
  have hread : b.CachesFrom (ebRead { b with lastLog := op } offset size).2.2 :=
    (ebRead_cachesFrom _ _ _).congr_left rfl rfl rfl rfl
  cases op <;> dsimp only
  all_goals first | exact .of_eq rfl rfl rfl rfl | exact hread.trans (.of_eq rfl rfl rfl rfl)

theorem logAppend_cachesFrom (b : EditBuffer) (op : LogOperation) (offset size : Int)
    (wasModified : Bool) : b.CachesFrom (logAppend b op offset size wasModified) := by
  unfold logAppend
  dsimp only
  split
  · split
    · exact .of_eq rfl rfl rfl rfl
    · exact logAddRecord_cachesFrom _ _ _ _ _ _
  · exact logAddRecord_cachesFrom _ _ _ _ _ _

theorem logOpen_cachesFrom (b : EditBuffer) : b.CachesFrom (logOpen b) := by
  unfold logOpen
  split
  · exact .refl b
  · exact .of_eq rfl rfl rfl rfl

theorem logEvict_cachesFrom (b : EditBuffer) : b.CachesFrom (logEvict b) := by
  unfold logEvict
  split
  · exact .of_eq rfl rfl rfl rfl
  · exact .refl b

/-- `eb_addlog` notifies and logs; the bytes it logs are read, not written. -/
theorem ebAddlog_cachesFrom (b : EditBuffer) (op : LogOperation) (offset size : Int) :
    b.CachesFrom (ebAddlog b op offset size) := by
  unfold ebAddlog
  split
  · exact .refl b
  · have hev :
        b.CachesFrom { b with events := b.events ++ [⟨op, offset, size⟩], modified := true } :=
      .of_eq rfl rfl rfl rfl
    dsimp only
    split
    · exact hev
    · refine hev.trans ((logOpen_cachesFrom _).trans ?_)
      split
      · exact (logEvict_cachesFrom _).trans (logAppend_cachesFrom _ _ _ _ _)
      · exact logAppend_cachesFrom _ _ _ _ _

/-- New pages start without a cache. -/
theorem newPages_noCache : ∀ (n : Nat) (buf : List UInt8), ∀ q ∈ newPages n buf, q.NoCache
  | 0, _ => fun _ hq => absurd hq List.not_mem_nil
  | n + 1, buf => by
    intro q hq
    rcases List.mem_cons.mp hq with rfl | hq
    · exact ⟨rfl, rfl⟩
    · exact newPages_noCache n _ q hq

theorem PagesFrom.of_newPages (ps : List Page) (n : Nat) (buf : List UInt8) :
    PagesFrom ps (newPages n buf) :=
  fun q hq => .inr (newPages_noCache n buf q hq)

section Insert

variable {ps : List Page}

theorem ebInsert1_pagesFrom {pages : List Page} (h : PagesFrom ps pages) (k : Nat)
    (buf : List UInt8) : PagesFrom ps (ebInsert1 pages k buf) := by
  by_cases hroom : ∃ p, pages[k]? = some p ∧ 0 < insert1Room p buf
  · obtain ⟨p, hp, hr⟩ := hroom
    rw [ebInsert1_of_room pages k buf p hp hr]
    -- the page filled in front is written through `update_page`
    exact ((h.take k).append (.of_newPages ps _ _)).append
      ((h.drop (k + 1)).cons (.inr (updatePage_noCache _ _)))
  · simp only [not_exists, not_and, Nat.not_lt, Nat.le_zero] at hroom
    rw [ebInsert1_of_no_room pages k buf hroom]
    exact ((h.take k).append (.of_newPages ps _ _)).append (h.drop k)

/-- The `retry:` loop moves bytes between pages through `update_page` only. -/
theorem shiftLoop_pagesFrom {prev : List Page} {p : Page} {next : List Page} {offset : Nat}
    (size : Nat) (hprev : PagesFrom ps prev) (hp : PageFrom ps p) (hnext : PagesFrom ps next) :
    PagesFrom ps (shiftLoop prev p next offset size).1 ∧
      PageFrom ps (shiftLoop prev p next offset size).2.1 ∧
      PagesFrom ps (shiftLoop prev p next offset size).2.2.1 := by
  fun_induction shiftLoop prev p next offset size with
  | case1 p next offset len hov q rest hq chunk q' p' hp0 ih =>
    -- the page was fused into the previous one, which becomes current
    exact ih hprev.tail (.inr (updatePage_noCache _ _)) hnext
  | case2 p next offset len hov q rest hq chunk q' p' hp0 hr ih =>
    exact ih hprev.tail (.inr (updatePage_noCache _ _))
      (hnext.cons (.inr (updatePage_noCache _ _)))
  | case3 p next offset len hov q rest hq chunk q' p' hp0 hr ih =>
    exact ih (hprev.tail.cons (.inr (updatePage_noCache _ _))) (.inr (updatePage_noCache _ _))
      hnext
  | case4 => exact ⟨hprev, hp, hnext⟩
  | case5 => exact ⟨hprev, hp, hnext⟩
  | case6 => exact ⟨hprev, hp, hnext⟩

theorem insertInPage_pagesFrom {p : Page} {next : List Page} (hp : PageFrom ps p)
    (hnext : PagesFrom ps next) (off : Nat) (buf : List UInt8) :
    PageFrom ps (insertInPage p next off buf).1 ∧
      PagesFrom ps (insertInPage p next off buf).2.1 := by
  unfold insertInPage
  dsimp only
  split
  · refine ⟨.inr (updatePage_noCache _ _), ?_⟩
    -- the end pushed out of the page goes in front of the next one
    split
    · exact ebInsert1_pagesFrom hnext 0 _
    · exact hnext
  · refine ⟨hp, ?_⟩
    split
    · exact ebInsert1_pagesFrom hnext 0 _
    · exact hnext

end Insert

theorem ebInsertLowlevel_cachesFrom (b : EditBuffer) (offset : Nat) (buf : List UInt8) :
    b.CachesFrom (ebInsertLowlevel b offset buf) := by
  have hsize : b.CachesFrom { b with totalSize := b.totalSize + buf.length } :=
    .of_eq rfl rfl rfl rfl
  unfold ebInsertLowlevel
  dsimp only
  split
  · rcases hfp : findPage { b with totalSize := b.totalSize + buf.length } (offset - 1) with
      ⟨i, po, b₁⟩
    have h₁ : b.CachesFrom b₁ := by
      have := findPage_cachesFrom { b with totalSize := b.totalSize + buf.length } (offset - 1)
      rw [hfp] at this
      exact hsize.trans this
    dsimp only
    split
    · rename_i p hpage
      -- the pages the loop starts from are those around the page found
      have hs := @shiftLoop_pagesFrom _ _ _ _ (po + 1) buf.length
        ((PagesFrom.refl b₁.pages).take i).reverse (.inl (List.mem_of_getElem? hpage))
        ((PagesFrom.refl b₁.pages).drop (i + 1))
      rcases hsl : shiftLoop (b₁.pages.take i).reverse p (b₁.pages.drop (i + 1)) (po + 1)
        buf.length with ⟨prev, p', next, off⟩
      rw [hsl] at hs
      obtain ⟨hprev, hp', hnext⟩ := hs
      have hr := insertInPage_pagesFrom hp' hnext off buf
      rcases hins : insertInPage p' next off buf with ⟨p'', next', rest⟩
      rw [hins] at hr
      have hpages : PagesFrom b₁.pages (prev.reverse ++ p'' :: next') :=
        hprev.reverse.append (hr.2.cons hr.1)
      refine h₁.trans (.of_pages ?_ rfl rfl rfl)
      dsimp only
      split
      · exact ebInsert1_pagesFrom hpages _ _
      · exact hpages
    · exact h₁.trans (.of_eq rfl rfl rfl rfl)
  · refine hsize.trans (.of_pages ?_ rfl rfl rfl)
    dsimp only
    split
    · exact ebInsert1_pagesFrom (.refl _) 0 buf
    · exact .refl _

section Delete

variable {ps : List Page}

theorem deleteLoop_pagesFrom {qs : List Page} (h : PagesFrom ps qs) (k offset size n : Nat)
    (ds : Option Nat) : PagesFrom ps (deleteLoop qs k offset size n ds).1 := by
  fun_induction deleteLoop qs k offset size n ds with
  | case1 => exact h
  | case2 => exact h
  | case3 _ _ _ _ _ _ p rest _ _ _ ih =>
    -- a page deleted whole is kept until the block is removed
    exact (ih h.tail).cons h.head
  | case4 _ _ _ _ _ _ p rest _ _ _ _ _ ih =>
    exact (ih h.tail).cons (.inr (updatePage_noCache _ _))
  | case5 _ _ _ _ _ _ p rest _ _ _ _ ih =>
    exact ih (h.tail.cons (.inr (updatePage_noCache _ _)))

/-- `eb_delete` cuts pages through `update_page` and removes whole ones. -/
theorem ebDelete_cachesFrom (b : EditBuffer) (offset size : Int) :
    b.CachesFrom (ebDelete b offset size).2 := by
  unfold ebDelete
  by_cases hro : b.readOnly
  · simp only [hro, if_true]
    exact .refl b
  by_cases hrange : offset < 0 ∨ (b.totalSize : Int) ≤ offset ∨ size ≤ 0
  · simp only [hro, hrange, if_true, if_false, Bool.false_eq_true]
    exact .refl b
  simp only [hro, hrange, if_false, Bool.false_eq_true]
  generalize (if (b.totalSize : Int) - offset < size then (b.totalSize : Int) - offset
    else size) = sz
  -- the log record and `find_page` leave every page as it is
  have h₁ := ebAddlog_cachesFrom b .delete offset sz
  generalize ebAddlog b .delete offset sz = b₁ at h₁ ⊢
  have h₂ := findPage_cachesFrom { b₁ with totalSize := b₁.totalSize - sz.toNat } offset.toNat
  generalize findPage { b₁ with totalSize := b₁.totalSize - sz.toNat } offset.toNat = r
    at h₂ ⊢
  obtain ⟨i, po, b₂⟩ := r
  dsimp only at h₂
  have h₂' : b.CachesFrom b₂ := h₁.trans (h₂.congr_left rfl rfl rfl rfl)
  -- the loop cuts pages from the one holding the offset
  have hl := deleteLoop_pagesFrom ((PagesFrom.refl b₂.pages).drop i) 0 po sz.toNat 0 none
  generalize deleteLoop (b₂.pages.drop i) 0 po sz.toNat 0 none = r at hl ⊢
  obtain ⟨qs, n, ds⟩ := r
  refine h₂'.trans (.of_pages ?_ rfl rfl rfl)
  have hpages : PagesFrom b₂.pages (b₂.pages.take i ++ qs) :=
    ((PagesFrom.refl _).take i).append hl
  dsimp only
  split
  · exact (hpages.take _).append (hpages.drop _)
  · exact hpages

end Delete

theorem ebInsert_cachesFrom (b : EditBuffer) (offset : Int) (buf : List UInt8) (size : Int) :
    b.CachesFrom (ebInsert b offset buf size).2 := by
  unfold ebInsert
  split
  · exact .refl b
  dsimp only
  generalize (if (b.totalSize : Int) < offset then (b.totalSize : Int) else offset) = o
  split
  · exact .refl b
  · exact (ebAddlog_cachesFrom _ _ _ _).trans (ebInsertLowlevel_cachesFrom _ _ _)

/-- The loop of `eb_write` rewrites each page through `update_page`. -/
theorem writeLoop_pagesFrom {ps qs : List Page} (h : PagesFrom ps qs) (offset : Nat)
    (buf : List UInt8) (remain : Nat) : PagesFrom ps (writeLoop qs offset buf remain) := by
  induction qs generalizing offset buf remain with
  | nil => exact .nil
  | cons q qs ih =>
    simp only [writeLoop]
    split
    · exact h.tail.cons (.inr (updatePage_noCache _ _))
    · exact (ih h.tail _ _ _).cons (.inr (updatePage_noCache _ _))

theorem ebWrite_cachesFrom (b : EditBuffer) (offset : Int) (buf : List UInt8) (size : Int) :
    b.CachesFrom (ebWrite b offset buf size).2 := by
  unfold ebWrite
  split
  · exact .refl b
  split
  · exact .refl b
  dsimp only
  generalize (if (b.totalSize : Int) - offset < size then (b.totalSize : Int) - offset
    else size) = ws
  -- the bytes past the end are inserted after the overwrite
  have hins : ∀ b₁ : EditBuffer, b.CachesFrom b₁ → b.CachesFrom (if ws < size then
      (ebInsert b₁ (offset + ws) (buf.drop ws.toNat) (size - ws)).2 else b₁) := by
    intro b₁ h
    split
    · exact h.trans (ebInsert_cachesFrom _ _ _ _)
    · exact h
  apply hins
  split
  · have h₁ := ebAddlog_cachesFrom b .write offset ws
    generalize ebAddlog b .write offset ws = b₁ at h₁ ⊢
    have h₂ := findPage_cachesFrom b₁ offset.toNat
    generalize findPage b₁ offset.toNat = r at h₂ ⊢
    obtain ⟨i, po, b₂⟩ := r
    dsimp only at h₂ ⊢
    refine (h₁.trans h₂).trans (.of_pages ?_ rfl rfl rfl)
    exact ((PagesFrom.refl _).take i).append (writeLoop_pagesFrom ((PagesFrom.refl _).drop i) _ _ _)
  · exact .refl b

theorem insertBufferLoop_cachesFrom (dest : EditBuffer) (destOffset : Nat) (ps : List Page)
    (srcOffset size : Nat) :
    dest.CachesFrom (insertBufferLoop dest destOffset ps srcOffset size) := by
  induction ps generalizing dest destOffset srcOffset size with
  | nil => exact .refl dest
  | cons p ps ih =>
    simp only [insertBufferLoop]
    split
    · exact .refl dest
    · exact (ebInsertLowlevel_cachesFrom _ _ _).trans (ih _ _ _ _)

/-- `eb_insert_buffer` inserts into `dest` with `eb_insert_lowlevel` and moves
the page cache of `src`. -/
theorem ebInsertBuffer_cachesFrom (dest : EditBuffer) (destOffset : Int) (src : EditBuffer)
    (srcOffset size : Int) :
    dest.CachesFrom (ebInsertBuffer dest destOffset src srcOffset size).2.1 ∧
      src.CachesFrom (ebInsertBuffer dest destOffset src srcOffset size).2.2 := by
  unfold ebInsertBuffer
  split
  · exact ⟨.refl _, .refl _⟩
  split
  · exact ⟨.refl _, .refl _⟩
  dsimp only
  generalize (if (src.totalSize : Int) < srcOffset + size then (src.totalSize : Int) - srcOffset
    else size) = sz
  generalize (if (dest.totalSize : Int) < destOffset then (dest.totalSize : Int)
    else destOffset) = d
  split
  · exact ⟨.refl _, .refl _⟩
  have h₂ := findPage_cachesFrom src srcOffset.toNat
  generalize findPage src srcOffset.toNat = r at h₂ ⊢
  obtain ⟨i, po, src₁⟩ := r
  exact ⟨(ebAddlog_cachesFrom _ _ _ _).trans (insertBufferLoop_cachesFrom _ _ _ _ _), h₂⟩

theorem ebReplace_cachesFrom (b : EditBuffer) (offset size : Int) (buf : List UInt8)
    (size1 : Int) : b.CachesFrom (ebReplace b offset size buf size1).2 := by
  unfold ebReplace
  split
  · exact ebWrite_cachesFrom _ _ _ _
  · exact (ebDelete_cachesFrom _ _ _).trans (ebInsert_cachesFrom _ _ _ _)

theorem ebNextc_cachesFrom (b : EditBuffer) (offset : Int) :
    b.CachesFrom (ebNextc b offset).2.2 := by
  unfold ebNextc
  have h₁ := ebReadOneByte_cachesFrom b offset
  generalize ebReadOneByte b offset = r at h₁ ⊢
  obtain ⟨c, b₁⟩ := r
  dsimp only at h₁ ⊢
  split
  · exact h₁
  generalize hesc : (if _ = ESCAPE_CHAR then _ else _) = t
  -- an escape decodes a window read with `eb_read`
  have h₂ : b.CachesFrom t.2.2 := by
    rw [← hesc]
    split
    · exact h₁.trans (ebRead_cachesFrom _ _ _)
    · exact h₁
  -- a CR in DOS mode peeks at the next character with `eb_read`
  have hpeek := h₂.trans (ebRead_cachesFrom t.2.2 t.2.1 MAX_CHAR_BYTES)
  split
  · split
    · split <;> exact hpeek
    · exact h₂
    · exact h₂
  · split <;> exact h₂

/-! ## The readers fill caches with what they compute -/

section Fill

variable {st : CharsetDecodeState} {cs : QECharset}

theorem pagePos_coherent {p : Page} (h : p.Coherent st cs) : (pagePos st p).Coherent st cs := by
  unfold pagePos
  split
  · exact h
  · exact ⟨fun _ => rfl, h.2⟩

theorem pageChars_coherent {p : Page} (h : p.Coherent st cs) :
    (pageChars cs st p).Coherent st cs := by
  unfold pageChars
  split
  · exact h
  · exact ⟨h.1, fun _ => rfl⟩

theorem getPosLoop_coherent {ps : List Page} (h : ∀ p ∈ ps, p.Coherent st cs)
    (offset line col : Nat) : ∀ q ∈ (getPosLoop st ps offset line col).2, q.Coherent st cs := by
  induction ps generalizing offset line col with
  | nil => simp [getPosLoop]
  | cons p ps ih =>
    rw [List.forall_mem_cons] at h
    simp only [getPosLoop]
    split
    · exact List.forall_mem_cons.mpr h
    · exact List.forall_mem_cons.mpr ⟨pagePos_coherent h.1, ih h.2 _ _ _⟩

theorem gotoPosLoop_coherent {ps : List Page} (h : ∀ p ∈ ps, p.Coherent st cs)
    (line1 col1 : Int) (offset : Nat) (line col : Int) :
    ∀ q ∈ (gotoPosLoop st line1 col1 ps offset line col).2, q.Coherent st cs := by
  induction ps generalizing offset line col with
  | nil => simp [gotoPosLoop]
  | cons p ps ih =>
    rw [List.forall_mem_cons] at h
    simp only [gotoPosLoop]
    split
    · exact List.forall_mem_cons.mpr ⟨pagePos_coherent h.1, h.2⟩
    · exact List.forall_mem_cons.mpr ⟨pagePos_coherent h.1, ih h.2 _ _ _⟩

theorem gotoCharPages_coherent {ps : List Page} (h : ∀ p ∈ ps, p.Coherent st cs)
    (pos offset : Nat) : ∀ q ∈ (gotoCharPages cs st ps pos offset).2, q.Coherent st cs := by
  induction ps generalizing pos offset with
  | nil => simp [gotoCharPages]
  | cons p ps ih =>
    rw [List.forall_mem_cons] at h
    simp only [gotoCharPages]
    split
    · exact List.forall_mem_cons.mpr ⟨pageChars_coherent h.1, h.2⟩
    · exact List.forall_mem_cons.mpr ⟨pageChars_coherent h.1, ih h.2 _ _⟩

theorem charOffsetPages_coherent {ps : List Page} (h : ∀ p ∈ ps, p.Coherent st cs)
    (offset pos : Nat) : ∀ q ∈ (charOffsetPages cs st ps offset pos).2, q.Coherent st cs := by
  induction ps generalizing offset pos with
  | nil => simp [charOffsetPages]
  | cons p ps ih =>
    rw [List.forall_mem_cons] at h
    simp only [charOffsetPages]
    split
    · exact List.forall_mem_cons.mpr ⟨pageChars_coherent h.1, h.2⟩
    · exact List.forall_mem_cons.mpr ⟨pageChars_coherent h.1, ih h.2 _ _⟩

end Fill

section Readers

variable {b : EditBuffer}

theorem ebGetPos_cachesValid (h : b.CachesValid) (offset : Nat) :
    (ebGetPos b offset).2.CachesValid :=
  ⟨h.decoding, getPosLoop_coherent h.coherent offset 0 0⟩

theorem gotoPosWalk_cachesFrom (b : EditBuffer) (col1 offset col : Int) :
    b.CachesFrom (gotoPosWalk b col1 offset col).2 := by
  fun_induction gotoPosWalk b col1 offset col with
  | case1 b offset _ _ _ _ _ hnext _ ih =>
    have hstep := ebNextc_cachesFrom b offset
    rw [hnext] at hstep
    exact hstep.trans ih
  | case2 b offset _ _ _ _ _ hnext _ =>
    have hstep := ebNextc_cachesFrom b offset
    rw [hnext] at hstep
    exact hstep
  | case3 => exact .refl _

theorem ebGotoPos_cachesValid (h : b.CachesValid) (line1 col1 : Int) :
    (ebGotoPos b line1 col1).2.CachesValid := by
  unfold ebGotoPos
  split
  · exact h
  -- the pages the loop passes get their cache filled; then `eb_nextc` reads
  have hloop : ({ b with pages := (gotoPosLoop b.charsetState line1 col1 b.pages 0 0 0).2 } :
      EditBuffer).CachesValid := ⟨h.decoding, gotoPosLoop_coherent h.coherent line1 col1 0 0 0⟩
  dsimp only
  split
  · exact hloop
  · exact (gotoPosWalk_cachesFrom _ _ _ _).cachesValid hloop

theorem ebGotoChar_cachesValid (h : b.CachesValid) (pos : Nat) :
    (ebGotoChar b pos).2.CachesValid := by
  unfold ebGotoChar
  split
  · exact h
  · exact ⟨h.decoding, gotoCharPages_coherent h.coherent pos 0⟩

theorem roundDownUtf8_cachesFrom (b : EditBuffer) (offset : Nat) :
    b.CachesFrom (roundDownUtf8 b offset).2 := by
  induction offset generalizing b with
  | zero => exact .refl b
  | succ offset ih =>
    simp only [roundDownUtf8]
    split
    · exact (ebRead_cachesFrom _ _ _).trans (ih _)
    · exact ebRead_cachesFrom _ _ _

theorem ebGetCharOffset_cachesValid (h : b.CachesValid) (offset : Int) :
    (ebGetCharOffset b offset).2.CachesValid := by
  unfold ebGetCharOffset
  dsimp only
  split
  · exact h
  -- the rounding reads bytes; the loop fills the character counts
  have hround : b.CachesFrom (if b.charset.name = charset_utf8.name then
      roundDownUtf8 b offset.toNat else (offset.toNat, b)).2 := by
    split
    · exact roundDownUtf8_cachesFrom b _
    · exact .refl b
  generalize (if b.charset.name = charset_utf8.name then roundDownUtf8 b offset.toNat
    else (offset.toNat, b)) = r at hround ⊢
  obtain ⟨o, b₁⟩ := r
  have h₁ := hround.cachesValid h
  exact ⟨h₁.decoding, charOffsetPages_coherent h₁.coherent o 0⟩

/-- `eb_set_charset` leaves no cache behind. -/
theorem ebSetCharset_cachesValid (b : EditBuffer) (charset : QECharset) (eolType : EOLType) :
    (ebSetCharset b charset eolType).CachesValid := by
  refine ⟨rfl, ?_⟩
  intro q hq
  obtain ⟨p, -, rfl⟩ := List.mem_map.mp hq
  exact Page.NoCache.coherent ⟨rfl, rfl⟩ _ _

end Readers

/-! ## Every reachable buffer -/

/-- The buffers reachable from a new or an mmap-loaded buffer by the editions
of `Reachable`, `eb_set_charset`, and the functions that fill the caches. -/
inductive CacheReachable : EditBuffer → Prop
  | empty (charset : QECharset) (eolType : EOLType) :
      CacheReachable (EditBuffer.empty charset eolType)
  | mmap (charset : QECharset) (eolType : EOLType) (file : List UInt8) :
      CacheReachable (ebMmapBuffer (EditBuffer.empty charset eolType) file)
  | toggleReadOnly {b : EditBuffer} : CacheReachable b → CacheReachable (doToggleReadOnly b)
  | insert {b : EditBuffer} (offset : Int) (buf : List UInt8) (size : Int) :
      CacheReachable b → CacheReachable (ebInsert b offset buf size).2
  | delete {b : EditBuffer} (offset size : Int) :
      CacheReachable b → CacheReachable (ebDelete b offset size).2
  | write {b : EditBuffer} (offset : Int) (buf : List UInt8) (size : Int) :
      CacheReachable b → CacheReachable (ebWrite b offset buf size).2
  | insertBuffer {dest src : EditBuffer} (destOffset srcOffset size : Int) :
      CacheReachable dest → CacheReachable src →
        CacheReachable (ebInsertBuffer dest destOffset src srcOffset size).2.1
  | insertBufferSrc {dest src : EditBuffer} (destOffset srcOffset size : Int) :
      CacheReachable dest → CacheReachable src →
        CacheReachable (ebInsertBuffer dest destOffset src srcOffset size).2.2
  | replace {b : EditBuffer} (offset size : Int) (buf : List UInt8) (size1 : Int) :
      CacheReachable b → CacheReachable (ebReplace b offset size buf size1).2
  | setCharset {b : EditBuffer} (charset : QECharset) (eolType : EOLType) :
      CacheReachable b → CacheReachable (ebSetCharset b charset eolType)
  | getPos {b : EditBuffer} (offset : Nat) :
      CacheReachable b → CacheReachable (ebGetPos b offset).2
  | gotoPos {b : EditBuffer} (line1 col1 : Int) :
      CacheReachable b → CacheReachable (ebGotoPos b line1 col1).2
  | gotoChar {b : EditBuffer} (pos : Nat) :
      CacheReachable b → CacheReachable (ebGotoChar b pos).2
  | getCharOffset {b : EditBuffer} (offset : Int) :
      CacheReachable b → CacheReachable (ebGetCharOffset b offset).2

theorem doToggleReadOnly_cachesFrom (b : EditBuffer) : b.CachesFrom (doToggleReadOnly b) :=
  .of_eq rfl rfl rfl rfl

/-- The pages `eb_mmap_buffer` maps hold no cache. -/
theorem mmapPages_noCache (file : List UInt8) : ∀ q ∈ mmapPages file, q.NoCache := by
  intro q hq
  obtain ⟨p, hp, rfl⟩ := List.mem_map.mp hq
  exact newPages_noCache _ _ p hp

/-- The cache invariant holds in every reachable buffer. -/
theorem cacheReachable_cachesValid {b : EditBuffer} (h : CacheReachable b) : b.CachesValid := by
  induction h with
  | empty charset eolType => exact ⟨rfl, fun _ hp => absurd hp List.not_mem_nil⟩
  | mmap charset eolType file =>
    exact ⟨rfl, fun q hq => (mmapPages_noCache file q hq).coherent _ _⟩
  | toggleReadOnly _ ih => exact (doToggleReadOnly_cachesFrom _).cachesValid ih
  | insert _ _ _ _ ih => exact (ebInsert_cachesFrom _ _ _ _).cachesValid ih
  | delete _ _ _ ih => exact (ebDelete_cachesFrom _ _ _).cachesValid ih
  | write _ _ _ _ ih => exact (ebWrite_cachesFrom _ _ _ _).cachesValid ih
  | insertBuffer _ _ _ _ _ ih _ => exact (ebInsertBuffer_cachesFrom _ _ _ _ _).1.cachesValid ih
  | insertBufferSrc _ _ _ _ _ _ ih => exact (ebInsertBuffer_cachesFrom _ _ _ _ _).2.cachesValid ih
  | replace _ _ _ _ _ ih => exact (ebReplace_cachesFrom _ _ _ _ _).cachesValid ih
  | setCharset charset eolType _ _ => exact ebSetCharset_cachesValid _ charset eolType
  | getPos offset _ ih => exact ebGetPos_cachesValid ih offset
  | gotoPos line1 col1 _ ih => exact ebGotoPos_cachesValid ih line1 col1
  | gotoChar pos _ ih => exact ebGotoChar_cachesValid ih pos
  | getCharOffset offset _ ih => exact ebGetCharOffset_cachesValid ih offset

/-- In every reachable buffer, a page with `PG_VALID_POS` holds the line count
and column that the decoding state of the buffer's charset and end-of-line type
computes on its bytes, and a page with `PG_VALID_CHAR` the character count that
the charset computes. -/
theorem cacheReachable_pages_coherent {b : EditBuffer} (h : CacheReachable b) :
    ∀ p ∈ b.pages,
      (p.validPos = true →
          (p.nbLines, p.col) = getPosOf (charsetDecodeInit b.charset b.eolType) p.data) ∧
        (p.validChar = true → p.nbChars = b.charset.getCharsFunc b.eolType p.data) := by
  have hv := cacheReachable_cachesValid h
  intro p hp
  have hc := hv.coherent p hp
  rw [hv.decoding] at hc
  exact hc

theorem cacheReachable_pages_coherent_after_getPos :
    CacheReachable
        (ebGetPos (ebInsert (EditBuffer.empty charset_utf8 .unix) 0 [0x41, 10] 2).2 2).2 ∧
      ∀ p ∈ (ebGetPos (ebInsert (EditBuffer.empty charset_utf8 .unix) 0 [0x41, 10] 2).2
          2).2.pages,
        (p.validPos = true →
            (p.nbLines, p.col) = getPosOf (charsetDecodeInit charset_utf8 .unix) p.data) ∧
          (p.validChar = true → p.nbChars = charset_utf8.getCharsFunc .unix p.data) :=
  ⟨.getPos 2 (.insert 0 _ 2 (.empty _ _)),
    cacheReachable_pages_coherent (.getPos 2 (.insert 0 _ 2 (.empty _ _)))⟩

/-- With `EOL_DOS`, `eb_get_char_offset` does not round an offset down to a
character boundary (the source says it should): in the buffer `"\r\n"`, reached
by an insertion, `eb_nextc` reads the first character from 0 to 2, and the
offset 1 inside it counts 1 character, where the boundary at or before it is 0,
reached in no step. The same in a UTF-8 buffer. -/
theorem ebGetCharOffset_dos_inside_crlf :
    CacheReachable (ebInsert (EditBuffer.empty charset_raw .dos) 0 [13, 10] 2).2 ∧
      (ebNextc (ebInsert (EditBuffer.empty charset_raw .dos) 0 [13, 10] 2).2 0).2.1 = 2 ∧
      (ebGetCharOffset (ebInsert (EditBuffer.empty charset_raw .dos) 0 [13, 10] 2).2 1).1 = 1 ∧
      CacheReachable (ebInsert (EditBuffer.empty charset_utf8 .dos) 0 [13, 10] 2).2 ∧
      (ebNextc (ebInsert (EditBuffer.empty charset_utf8 .dos) 0 [13, 10] 2).2 0).2.1 = 2 ∧
      (ebGetCharOffset (ebInsert (EditBuffer.empty charset_utf8 .dos) 0 [13, 10] 2).2 1).1 = 1 := by
  refine ⟨.insert 0 _ 2 (.empty _ _), ?_, ?_, .insert 0 _ 2 (.empty _ _), ?_, ?_⟩ <;> decide

end Qemacs
