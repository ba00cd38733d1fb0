import Qemacs.Lib.Chunks
import Qemacs.Charset.Basic

/-!
# Edit buffers: pages, the page cache and the undo log records

The data model of `EditBuffer` (qe.h, buffer.c). The contents live in a table
of pages of at most `MAX_PAGE_SIZE` bytes; `total_size` is kept beside them, and
a one-page cache (`cur_page`, `cur_offset`) remembers the last page found by
`find_page`. A page pointer is its index in the table.

Two parts of the C structure are kept in abstract form:

* the log buffer is itself an `EditBuffer` holding, per log record, a
  `LogBuffer` header, the saved bytes and an `int` trailer. It is kept as the
  list of records; byte positions in it (`log_new_index`, `log_current`) are
  computed from the record sizes;
* modification callbacks are kept as the sequence of `(op, offset, size)`
  notifications `eb_addlog` sends them, in order.

The refinement invariant `EditBuffer.WF` and its first consequence, that the
cached `find_page` answers as an uncached walk from page 0, close the module.
-/

namespace Qemacs

/-- `MAX_PAGE_SIZE` (qe.h). -/
def MAX_PAGE_SIZE : Nat := 4096

theorem MAX_PAGE_SIZE_pos : 0 < MAX_PAGE_SIZE := by decide

/-- `NB_LOGS_MAX` (qe.h). -/
def NB_LOGS_MAX : Nat := 100000

/-- `struct Page`. The size is the length of the data; the flags `PG_READ_ONLY`,
`PG_VALID_POS`, `PG_VALID_CHAR` and `PG_VALID_COLORS` are booleans. -/
structure Page where
  data : List UInt8
  readOnly : Bool := false
  validPos : Bool := false
  validChar : Bool := false
  validColors : Bool := false
  nbLines : Nat := 0
  col : Nat := 0
  nbChars : Nat := 0
deriving DecidableEq, Repr, Inhabited

/-- `p->size`. -/
def Page.size (p : Page) : Nat := p.data.length

/-- `update_page`: a page about to be written gets its own copy of the data
(a read-only page is copied) and loses its cached positions. -/
def updatePage (p : Page) : Page :=
  { p with readOnly := false, validPos := false, validChar := false, validColors := false }

@[simp] theorem Page.size_default : (default : Page).size = 0 := rfl

@[simp] theorem updatePage_data (p : Page) : (updatePage p).data = p.data := rfl

@[simp] theorem updatePage_size (p : Page) : (updatePage p).size = p.size := rfl

/-- `enum LogOperation`. -/
inductive LogOperation where
  | free
  | write
  | insert
  | delete
deriving DecidableEq, Repr

/-- One undo record of the log buffer: the `LogBuffer` header fields and the
bytes saved after it (none for an insertion). -/
structure LogRecord where
  op : LogOperation
  offset : Int
  size : Int
  wasModified : Bool
  data : List UInt8
deriving DecidableEq, Repr

/-- A notification sent to the modification callbacks. -/
structure EditEvent where
  op : LogOperation
  offset : Int
  size : Int
deriving DecidableEq, Repr

/-- `struct EditBuffer`, the fields buffer edition, decoding and undo read. -/
structure EditBuffer where
  pages : List Page
  totalSize : Nat
  curPage : Option Nat
  curOffset : Nat
  readOnly : Bool
  modified : Bool
  charset : QECharset
  charsetState : CharsetDecodeState
  eolType : EOLType
  saveLog : Nat
  logBuffer : Option (List LogRecord)
  logNewIndex : Int
  logCurrent : Int
  lastLog : LogOperation
  nbLogs : Nat
  events : List EditEvent

namespace EditBuffer

/-- A freshly created buffer: no pages, no log, logging on. -/
def empty (charset : QECharset) (eolType : EOLType) : EditBuffer where
  pages := []
  totalSize := 0
  curPage := none
  curOffset := 0
  readOnly := false
  modified := false
  charset := charset
  charsetState := charsetDecodeInit charset eolType
  eolType := eolType
  saveLog := 1
  logBuffer := none
  logNewIndex := 0
  logCurrent := 0
  lastLog := .free
  nbLogs := 0
  events := []

/-- The bytes of the buffer: the pages' data in table order. -/
def content (b : EditBuffer) : List UInt8 := (b.pages.map Page.data).flatten

end EditBuffer

/-! ## `find_page` -/

/-- Where `find_page` starts walking: at the cached page, with the offset past
its start, when `offset` is at or past that start; at page 0 otherwise. -/
def findStart (b : EditBuffer) (offset : Nat) : Nat × Nat :=
  match b.curPage with
  | some cp => if b.curOffset ≤ offset then (cp, offset - b.curOffset) else (0, offset)
  | none => (0, offset)

/-- `find_page`: the index of the page holding `offset` and the offset inside
it. The walk starts at `findStart`, and the cache then points at the page
found. -/
def findPage (b : EditBuffer) (offset : Nat) : Nat × Nat × EditBuffer :=
  let start := findStart b offset
  -- the cached page itself holds the offset: the cache is left as it is
  if b.curPage.isSome ∧ b.curOffset ≤ offset ∧ start.2 < (b.pages.getD start.1 default).size then
    (start.1, start.2, b)
  else
    let w := Chunks.walk Page.size (b.pages.drop start.1) start.2
    (start.1 + w.1, w.2, { b with curOffset := offset - w.2, curPage := some (start.1 + w.1) })

/-- `find_page` in one shape: the fast path returns what the walk from the
cached page returns, and leaves the cache as the walk would set it. -/
theorem findPage_eq (b : EditBuffer) (offset : Nat) :
    findPage b offset =
      ((findStart b offset).1 + (Chunks.walk Page.size (b.pages.drop (findStart b offset).1)
          (findStart b offset).2).1,
        (Chunks.walk Page.size (b.pages.drop (findStart b offset).1) (findStart b offset).2).2,
        { b with
          curOffset := offset - (Chunks.walk Page.size (b.pages.drop (findStart b offset).1)
            (findStart b offset).2).2,
          curPage := some ((findStart b offset).1 + (Chunks.walk Page.size
            (b.pages.drop (findStart b offset).1) (findStart b offset).2).1) }) := by
  unfold findPage
  dsimp only
  split
  · rename_i hhit
    obtain ⟨hsome, hle, hsz⟩ := hhit
    obtain ⟨cp, hcp⟩ := Option.isSome_iff_exists.mp hsome
    have hstart : findStart b offset = (cp, offset - b.curOffset) := by
      simp [findStart, hcp, hle]
    rw [hstart] at hsz ⊢
    simp only at hsz
    -- the fast path is only taken on a page of the table
    have hcpl : cp < b.pages.length := by
      by_contra hge
      simp [List.getElem?_eq_none (Nat.le_of_not_lt hge)] at hsz
    have hwalk : Chunks.walk Page.size (b.pages.drop cp) (offset - b.curOffset) =
        (0, offset - b.curOffset) := by
      simp only [List.getD_eq_getElem?_getD, List.getElem?_eq_getElem hcpl,
        Option.getD_some] at hsz
      rw [List.drop_eq_getElem_cons hcpl]
      simp [Chunks.walk, hsz]
    rw [hwalk]
    cases b
    simp_all
    omega
  · rfl

/-- `find_page` moves the cache and nothing else. -/
theorem findPage_frame (b : EditBuffer) (offset : Nat) :
    ∃ cp co, (findPage b offset).2.2 = { b with curPage := cp, curOffset := co } := by
  rw [findPage_eq]
  exact ⟨_, _, rfl⟩

/-! ## The refinement invariant -/

/-- A page in a well-formed table holds between one and `MAX_PAGE_SIZE` bytes. -/
def Page.Ok (p : Page) : Prop := 0 < p.size ∧ p.size ≤ MAX_PAGE_SIZE

/-- The bytes of a run of pages. -/
def flat (ps : List Page) : List UInt8 := (ps.map Page.data).flatten

@[simp] theorem flat_nil : flat [] = [] := rfl

@[simp] theorem flat_cons (p : Page) (ps : List Page) : flat (p :: ps) = p.data ++ flat ps := rfl

@[simp] theorem flat_append (ps qs : List Page) : flat (ps ++ qs) = flat ps ++ flat qs := by
  simp [flat]

theorem total_eq_length_flat (ps : List Page) : Chunks.total Page.size ps = (flat ps).length := by
  induction ps with
  | nil => rfl
  | cons p ps ih => simp [ih, Page.size]

/-- The one-page cache is sound: when set, it names a page and the offset at
which that page starts. -/
def EditBuffer.CacheOk (b : EditBuffer) : Prop :=
  ∀ cp, b.curPage = some cp → cp < b.pages.length ∧ b.curOffset = (flat (b.pages.take cp)).length

/-- The page table invariant: every page is `Ok`, `total_size` is the sum of
the page sizes, and the cache is sound. -/
structure EditBuffer.WF (b : EditBuffer) : Prop where
  pages_ok : ∀ p ∈ b.pages, p.Ok
  total : b.totalSize = (flat b.pages).length
  cache : b.CacheOk

theorem EditBuffer.content_eq_flat (b : EditBuffer) : b.content = flat b.pages := rfl

theorem EditBuffer.WF.totalSize_eq {b : EditBuffer} (h : b.WF) :
    b.totalSize = b.content.length := h.total

theorem EditBuffer.empty_wf (charset : QECharset) (eolType : EOLType) :
    (EditBuffer.empty charset eolType).WF where
  pages_ok := by simp [EditBuffer.empty]
  total := rfl
  cache := by
    intro cp h
    simp [EditBuffer.empty] at h

/-- Soundness of the cache reads only the page sizes. -/
theorem EditBuffer.CacheOk.of_sizes {b b' : EditBuffer} (hc : b.CacheOk)
    (hs : b'.pages.map Page.size = b.pages.map Page.size) (hp : b'.curPage = b.curPage)
    (ho : b'.curOffset = b.curOffset) : b'.CacheOk := by
  intro cp hcp
  obtain ⟨hlt, hoff⟩ := hc cp (hp ▸ hcp)
  have hlen : b'.pages.length = b.pages.length := by
    simpa using congrArg List.length hs
  refine ⟨hlen ▸ hlt, ?_⟩
  rw [ho, hoff, ← total_eq_length_flat, ← total_eq_length_flat]
  simp only [Chunks.total, List.map_take, hs]

/-- The invariant reads only the page sizes, `total_size` and the cache: a
change that keeps them, such as an overwrite in place, keeps it. -/
theorem EditBuffer.WF.of_sizes {b b' : EditBuffer} (hwf : b.WF)
    (hs : b'.pages.map Page.size = b.pages.map Page.size) (ht : b'.totalSize = b.totalSize)
    (hp : b'.curPage = b.curPage) (ho : b'.curOffset = b.curOffset) : b'.WF where
  pages_ok := by
    intro q hq
    have hq' : q.size ∈ b.pages.map Page.size := hs ▸ List.mem_map_of_mem hq
    obtain ⟨r, hr, hsz⟩ := List.mem_map.mp hq'
    have := hwf.pages_ok r hr
    simpa only [Page.Ok, hsz] using this
  total := by
    rw [ht, hwf.total, ← total_eq_length_flat, ← total_eq_length_flat]
    simp only [Chunks.total, hs]
  cache := hwf.cache.of_sizes hs hp ho

/-- Two buffers with the same bytes, size and flags: they differ at most in
the cache, the log and the record of callbacks. -/
structure EditBuffer.SamePages (b b' : EditBuffer) : Prop where
  pages : b'.pages = b.pages
  totalSize : b'.totalSize = b.totalSize
  readOnly : b'.readOnly = b.readOnly
  saveLog : b'.saveLog = b.saveLog

theorem EditBuffer.SamePages.refl (b : EditBuffer) : b.SamePages b := ⟨rfl, rfl, rfl, rfl⟩

theorem EditBuffer.SamePages.trans {b b' b'' : EditBuffer} (h : b.SamePages b')
    (h' : b'.SamePages b'') : b.SamePages b'' :=
  ⟨h'.pages.trans h.pages, h'.totalSize.trans h.totalSize, h'.readOnly.trans h.readOnly,
    h'.saveLog.trans h.saveLog⟩

/-- With the same pages and size, a sound cache is all the invariant needs. -/
theorem EditBuffer.WF.of_samePages {b b' : EditBuffer} (hwf : b.WF) (h : b.SamePages b')
    (hc : b'.CacheOk) : b'.WF :=
  ⟨h.pages ▸ hwf.pages_ok, h.totalSize ▸ h.pages ▸ hwf.total, hc⟩

section FindPage

variable {b : EditBuffer} {offset : Nat}

/-- The walk `find_page` makes from its starting point. -/
theorem findStart_walk (hc : b.CacheOk) :
    ((findStart b offset).1 + (Chunks.walk Page.size (b.pages.drop (findStart b offset).1)
        (findStart b offset).2).1,
      (Chunks.walk Page.size (b.pages.drop (findStart b offset).1) (findStart b offset).2).2) =
      Chunks.walk Page.size b.pages offset := by
  unfold findStart
  rcases hcp : b.curPage with _ | cp
  · simp
  · obtain ⟨hcpl, hcur⟩ := hc cp hcp
    by_cases hle : b.curOffset ≤ offset
    · -- the pages before the cached one are passed whole by a walk from page 0
      rw [← total_eq_length_flat] at hcur
      have hsplit := Chunks.walk_append_of_le Page.size (b.pages.take cp) (b.pages.drop cp)
        offset (hcur ▸ hle)
      rw [List.take_append_drop, List.length_take_of_le (Nat.le_of_lt hcpl), ← hcur] at hsplit
      simp [hle, hsplit]
    · simp [hle]

/-- With a sound cache, `find_page` returns what a walk from page 0 returns. -/
theorem findPage_eq_walk (hc : b.CacheOk) :
    ((findPage b offset).1, (findPage b offset).2.1) = Chunks.walk Page.size b.pages offset := by
  rw [findPage_eq, ← findStart_walk hc]

/-- `find_page` only moves the cache, and it keeps the invariant. -/
theorem findPage_buffer (hc : b.CacheOk) :
    (findPage b offset).2.2 = { b with
      curOffset := offset - (Chunks.walk Page.size b.pages offset).2,
      curPage := some (Chunks.walk Page.size b.pages offset).1 } := by
  have h : _ = Chunks.walk Page.size b.pages offset := findStart_walk hc
  rw [findPage_eq]
  simp only [Prod.ext_iff] at h
  simp [h.1, h.2]

/-- Below the end, `find_page` lands inside a page of the table. -/
theorem findPage_split (hc : b.CacheOk) (hlt : offset < (flat b.pages).length) :
    ∃ L p R, b.pages = L ++ p :: R ∧ (findPage b offset).1 = L.length ∧
      (findPage b offset).2.1 = offset - (flat L).length ∧ (flat L).length ≤ offset ∧
      offset - (flat L).length < p.size := by
  obtain ⟨L, p, R, hpages, hwalk, hle, hin⟩ :=
    Chunks.walk_spec Page.size b.pages offset (total_eq_length_flat b.pages ▸ hlt)
  have h := @findPage_eq_walk b offset hc
  rw [hwalk, Prod.mk.injEq] at h
  rw [total_eq_length_flat] at hle hin h
  exact ⟨L, p, R, hpages, h.1, h.2, hle, hin⟩

theorem findPage_wf (hwf : b.WF) (hlt : offset < b.totalSize) : (findPage b offset).2.2.WF := by
  rw [findPage_buffer hwf.cache]
  obtain ⟨L, p, R, hpages, hwalk, hle, hin⟩ :=
    Chunks.walk_spec Page.size b.pages offset (total_eq_length_flat b.pages ▸ hwf.total ▸ hlt)
  refine ⟨hwf.pages_ok, hwf.total, ?_⟩
  intro cp hcp
  simp only [Option.some.injEq] at hcp
  rw [hwalk] at hcp ⊢
  subst hcp
  rw [hpages, ← total_eq_length_flat]
  simp
  omega

end FindPage

end Qemacs
