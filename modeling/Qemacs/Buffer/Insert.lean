import Qemacs.Buffer.Page

/-!
# Insertion into the page table

`eb_insert1` and `eb_insert_lowlevel` (buffer.c). `eb_insert1` puts bytes in
front of the page at an index: what fits goes into that page, taken from the
end of the bytes, and the rest goes into new pages inserted before it.

`eb_insert_lowlevel` finds the page holding the byte before the insertion
point and enters the `retry:` loop. While the bytes to insert would make the
page overflow and the previous page has room, bytes of the page in front of
the insertion point move to the previous page; a page emptied that way is
removed, and the loop restarts on the previous page. When no more bytes can
move, the part of the page that would overflow goes to the next page
(`eb_insert1`), the bytes that fit are inserted in place, and the remaining
bytes go in front of the next page.

The loop is modelled on the table split at the current page: `prev` holds the
pages before it, nearest first, and `next` those after it. It terminates
because every pass strictly fills the pages before the current one.
-/

namespace Qemacs

/-- The pages `eb_insert1` allocates for `buf`: `n` pages of `MAX_PAGE_SIZE`
bytes, the last one holding what is left. -/
def newPages : Nat → List UInt8 → List Page
  | 0, _ => []
  | n + 1, buf => { data := buf.take MAX_PAGE_SIZE } :: newPages n (buf.drop MAX_PAGE_SIZE)

/-- `eb_insert1`: insert `buf` in front of the page at `pageIndex`. -/
def ebInsert1 (pages : List Page) (pageIndex : Nat) (buf : List UInt8) : List Page :=
  -- the end of `buf` goes into the page at `pageIndex` as far as it has room
  let (pages, buf) :=
    match pages[pageIndex]? with
    | some p =>
      let len := min (MAX_PAGE_SIZE - p.size) buf.length
      if 0 < len then
        (pages.set pageIndex { updatePage p with data := buf.drop (buf.length - len) ++ p.data },
          buf.take (buf.length - len))
      else (pages, buf)
    | none => (pages, buf)
  let n := (buf.length + MAX_PAGE_SIZE - 1) / MAX_PAGE_SIZE
  pages.take pageIndex ++ newPages n buf ++ pages.drop pageIndex

/-- Free room of the pages before the current one: the measure of the
`retry:` loop. -/
def freeBefore (prev : List Page) : Nat := (prev.map fun q => MAX_PAGE_SIZE - q.size).sum

@[simp] theorem freeBefore_nil : freeBefore [] = 0 := rfl

@[simp] theorem freeBefore_cons (q : Page) (prev : List Page) :
    freeBefore (q :: prev) = (MAX_PAGE_SIZE - q.size) + freeBefore prev := by
  simp [freeBefore]

/-- The shifting part of the `retry:` loop of `eb_insert_lowlevel`, inserting
`size` bytes at `offset` in page `p`, with `prev` the pages before `p`
(nearest first) and `next` those after it. It returns the table split at the
page where the bytes go and the offset there. -/
def shiftLoop (prev : List Page) (p : Page) (next : List Page) (offset size : Nat) :
    List Page × Page × List Page × Nat :=
  let len := min (MAX_PAGE_SIZE - offset) size
  -- `len_out > 0`: part of the page would overflow
  if MAX_PAGE_SIZE < p.size + len then
    match prev with
    | q :: rest =>
      if _hq : q.size < MAX_PAGE_SIZE then
        -- first try and shift some of these bytes to the previous page
        let chunk := min (MAX_PAGE_SIZE - q.size) offset
        let q' := { updatePage q with data := q.data ++ p.data.take chunk }
        let p' := { updatePage p with data := p.data.drop chunk }
        if _hp : p'.size = 0 then
          -- the page was completely fused with the previous one
          shiftLoop rest q' next q'.size size
        else if _hr : offset - chunk = 0 ∧ q'.size < MAX_PAGE_SIZE then
          -- restart from the previous page
          shiftLoop rest q' (p' :: next) q'.size size
        else
          shiftLoop (q' :: rest) p' next (offset - chunk) size
      else (prev, p, next, offset)
    | [] => (prev, p, next, offset)
  else (prev, p, next, offset)
termination_by freeBefore prev
decreasing_by
  · simp only [freeBefore_cons]; omega
  · simp only [freeBefore_cons]; omega
  · simp only [q', p', chunk, freeBefore_cons, Page.size, List.length_append,
      List.length_take, List.length_drop] at _hp _hr _hq ⊢
    omega

/-- The end of the `retry:` loop: the overflowing tail of `p` goes in front of
the next page, then the bytes that fit are inserted at `offset`. Returns the
new page, the new pages after it and the bytes still to insert. -/
def insertInPage (p : Page) (next : List Page) (offset : Nat) (buf : List UInt8) :
    Page × List Page × List UInt8 :=
  let len := min (MAX_PAGE_SIZE - offset) buf.length
  let lenOut := p.size + len - MAX_PAGE_SIZE
  -- `eb_insert1` at `page_index + 1` works on the first page of `next`
  let next := if 0 < lenOut then ebInsert1 next 0 (p.data.drop (p.size - lenOut)) else next
  if 0 < len then
    ({ updatePage p with
        data := p.data.take offset ++ buf.take len ++ (p.data.take (p.size - lenOut)).drop offset },
      next, buf.drop len)
  else (p, next, buf)

/-- `eb_insert_lowlevel`: insert `buf` at `offset`, which must be at most
`total_size`. The page cache is cleared. -/
def ebInsertLowlevel (b : EditBuffer) (offset : Nat) (buf : List UInt8) : EditBuffer :=
  let b := { b with totalSize := b.totalSize + buf.length }
  if 0 < offset then
    -- the page holding the byte before the insertion point
    let (i, po, b) := findPage b (offset - 1)
    match b.pages[i]? with
    | some p =>
      let (prev, p, next, off) :=
        shiftLoop (b.pages.take i).reverse p (b.pages.drop (i + 1)) (po + 1) buf.length
      let (p, next, rest) := insertInPage p next off buf
      let pages := prev.reverse ++ p :: next
      { b with pages := if 0 < rest.length then ebInsert1 pages (prev.length + 1) rest else pages,
               curPage := none }
    | none => { b with curPage := none }
  else
    { b with pages := if 0 < buf.length then ebInsert1 b.pages 0 buf else b.pages,
             curPage := none }

/-! ## Specification of `eb_insert1` -/

theorem flat_newPages (n : Nat) (buf : List UInt8) (h : buf.length ≤ n * MAX_PAGE_SIZE) :
    flat (newPages n buf) = buf := by
  induction n generalizing buf with
  | zero => simp_all [newPages]
  | succ n ih =>
    have hrest : (buf.drop MAX_PAGE_SIZE).length ≤ n * MAX_PAGE_SIZE := by
      simp only [List.length_drop]
      rw [Nat.succ_mul] at h
      omega
    simp [newPages, ih _ hrest]

/-- The pages allocated for the bytes are `Ok` when there are just enough of
them, as `eb_insert1` computes. -/
theorem newPages_ok (n : Nat) (buf : List UInt8) (h : n * MAX_PAGE_SIZE < buf.length + MAX_PAGE_SIZE) :
    ∀ p ∈ newPages n buf, p.Ok := by
  induction n generalizing buf with
  | zero => simp [newPages]
  | succ n ih =>
    rw [Nat.succ_mul] at h
    have hrest : n * MAX_PAGE_SIZE < (buf.drop MAX_PAGE_SIZE).length + MAX_PAGE_SIZE := by
      simp only [List.length_drop]
      omega
    intro p hp
    simp only [newPages, List.mem_cons] at hp
    rcases hp with rfl | hp
    · have hpos := MAX_PAGE_SIZE_pos
      simp only [Page.Ok, Page.size, List.length_take]
      constructor <;> omega
    · exact ih _ hrest p hp

/-- The page count `eb_insert1` computes is the ceiling of the byte count. -/
theorem pageCount_spec (len : Nat) :
    len ≤ (len + MAX_PAGE_SIZE - 1) / MAX_PAGE_SIZE * MAX_PAGE_SIZE ∧
      (len + MAX_PAGE_SIZE - 1) / MAX_PAGE_SIZE * MAX_PAGE_SIZE < len + MAX_PAGE_SIZE := by
  simp only [MAX_PAGE_SIZE]
  omega

theorem flat_newPages_count (buf : List UInt8) :
    flat (newPages ((buf.length + MAX_PAGE_SIZE - 1) / MAX_PAGE_SIZE) buf) = buf :=
  flat_newPages _ buf (pageCount_spec buf.length).1

theorem newPages_count_ok (buf : List UInt8) :
    ∀ p ∈ newPages ((buf.length + MAX_PAGE_SIZE - 1) / MAX_PAGE_SIZE) buf, p.Ok :=
  newPages_ok _ buf (pageCount_spec buf.length).2

/-- The same for the first `k` bytes, as `eb_insert1` has them after filling
the page at its index. -/
theorem flat_newPages_take (buf : List UInt8) (k : Nat) (hk : k ≤ buf.length) :
    flat (newPages ((k + MAX_PAGE_SIZE - 1) / MAX_PAGE_SIZE) (buf.take k)) = buf.take k := by
  have h := flat_newPages_count (buf.take k)
  rwa [List.length_take, Nat.min_eq_left hk] at h

theorem newPages_take_ok (buf : List UInt8) (k : Nat) (hk : k ≤ buf.length) :
    ∀ p ∈ newPages ((k + MAX_PAGE_SIZE - 1) / MAX_PAGE_SIZE) (buf.take k), p.Ok := by
  have h := newPages_count_ok (buf.take k)
  rwa [List.length_take, Nat.min_eq_left hk] at h

/-- A table seen around its page at index `k`. -/
theorem pages_split_at {pages : List Page} {k : Nat} {p : Page} (hk : pages[k]? = some p) :
    pages = pages.take k ++ p :: pages.drop (k + 1) := by
  obtain ⟨hlt, rfl⟩ := List.getElem?_eq_some_iff.mp hk
  exact (List.take_append_drop k pages).symm.trans (by rw [List.drop_eq_getElem_cons hlt])

/-- The room `eb_insert1` finds in the page at its index. -/
def insert1Room (p : Page) (buf : List UInt8) : Nat := min (MAX_PAGE_SIZE - p.size) buf.length

/-- `eb_insert1` past the end of the table, or in front of a full page: only
new pages. -/
theorem ebInsert1_of_no_room (pages : List Page) (k : Nat) (buf : List UInt8)
    (h : ∀ p, pages[k]? = some p → insert1Room p buf = 0) :
    ebInsert1 pages k buf =
      pages.take k ++ newPages ((buf.length + MAX_PAGE_SIZE - 1) / MAX_PAGE_SIZE) buf ++
        pages.drop k := by
  unfold ebInsert1
  rcases hp : pages[k]? with _ | p
  · rfl
  · have h0 := h p hp
    simp only [insert1Room] at h0
    simp [h0]

/-- `eb_insert1` in front of a page with room: the end of the bytes fills it. -/
theorem ebInsert1_of_room (pages : List Page) (k : Nat) (buf : List UInt8) (p : Page)
    (hp : pages[k]? = some p) (h : 0 < insert1Room p buf) :
    ebInsert1 pages k buf =
      pages.take k ++
        newPages ((buf.length - insert1Room p buf + MAX_PAGE_SIZE - 1) / MAX_PAGE_SIZE)
          (buf.take (buf.length - insert1Room p buf)) ++
        { updatePage p with data := buf.drop (buf.length - insert1Room p buf) ++ p.data } ::
          pages.drop (k + 1) := by
  have hlt : k < pages.length := (List.getElem?_eq_some_iff.mp hp).1
  have htake : (pages.take k).length = k := List.length_take_of_le (Nat.le_of_lt hlt)
  simp only [insert1Room] at h
  unfold ebInsert1
  simp only [hp, h, if_true, insert1Room, List.length_take,
    Nat.min_eq_left (Nat.sub_le buf.length _)]
  rw [List.set_eq_take_cons_drop _ hlt, List.take_append_of_le_length (by omega),
    List.drop_append_of_le_length (by omega)]
  simp [htake]

/-- `eb_insert1` puts the bytes in front of the page at `pageIndex`. -/
theorem flat_ebInsert1 (pages : List Page) (k : Nat) (buf : List UInt8) :
    flat (ebInsert1 pages k buf) = flat (pages.take k) ++ buf ++ flat (pages.drop k) := by
  by_cases hroom : ∃ p, pages[k]? = some p ∧ 0 < insert1Room p buf
  · obtain ⟨p, hp, h⟩ := hroom
    rw [ebInsert1_of_room pages k buf p hp h, pages_split_at hp]
    have hlt : k < pages.length := (List.getElem?_eq_some_iff.mp hp).1
    simp [List.drop_append, List.drop_take, List.length_take_of_le (Nat.le_of_lt hlt),
      flat_newPages_take _ _ (Nat.sub_le _ _)]
    rw [← List.append_assoc, List.take_append_drop]
  · simp only [not_exists, not_and, Nat.not_lt, Nat.le_zero] at hroom
    rw [ebInsert1_of_no_room pages k buf hroom]
    simp [flat_newPages_count]

/-- `eb_insert1` keeps every page `Ok`. -/
theorem ebInsert1_ok (pages : List Page) (k : Nat) (buf : List UInt8)
    (hok : ∀ p ∈ pages, p.Ok) : ∀ q ∈ ebInsert1 pages k buf, q.Ok := by
  by_cases hroom : ∃ p, pages[k]? = some p ∧ 0 < insert1Room p buf
  · obtain ⟨p, hp, h⟩ := hroom
    have hpok : p.Ok := hok p (List.mem_of_getElem? hp)
    -- the filled page stays within a page
    have hnew : Page.Ok
        { updatePage p with data := buf.drop (buf.length - insert1Room p buf) ++ p.data } := by
      simp only [insert1Room, Page.Ok, Page.size, List.length_append, List.length_drop] at hpok h ⊢
      omega
    rw [ebInsert1_of_room pages k buf p hp h]
    intro q hq
    simp only [List.mem_append, List.mem_cons] at hq
    rcases hq with (hq | hq) | rfl | hq
    · exact hok q (List.mem_of_mem_take hq)
    · exact newPages_take_ok _ _ (Nat.sub_le _ _) q hq
    · exact hnew
    · exact hok q (List.mem_of_mem_drop hq)
  · simp only [not_exists, not_and, Nat.not_lt, Nat.le_zero] at hroom
    rw [ebInsert1_of_no_room pages k buf hroom]
    intro q hq
    simp only [List.mem_append] at hq
    rcases hq with (hq | hq) | hq
    · exact hok q (List.mem_of_mem_take hq)
    · exact newPages_count_ok _ q hq
    · exact hok q (List.mem_of_mem_drop hq)

/-! ## The `retry:` loop keeps the bytes and the insertion point -/

/-- The invariant of the `retry:` loop: the table around the current page `p`
holds `bytes`, the insertion point sits at `pos`, inside `p`, and every page is
`Ok`. -/
structure RetryInv (bytes : List UInt8) (pos : Nat) (prev : List Page) (p : Page)
    (next : List Page) (offset : Nat) : Prop where
  bytes_eq : flat prev.reverse ++ p.data ++ flat next = bytes
  pos_eq : (flat prev.reverse).length + offset = pos
  offset_le : offset ≤ p.size
  prev_ok : ∀ q ∈ prev, q.Ok
  cur_ok : p.Ok
  next_ok : ∀ q ∈ next, q.Ok

section RetryStep

variable {bytes : List UInt8} {pos : Nat} {q p : Page} {rest next : List Page} {offset : Nat}

theorem take_append_drop_append {α : Type*} (n : Nat) (l r : List α) :
    l.take n ++ (l.drop n ++ r) = l ++ r := by
  rw [← List.append_assoc, List.take_append_drop]

/-- What a shift moves: at most the bytes before the insertion point, and at
most the room of the previous page. -/
theorem chunk_spec (q : Page) (offset : Nat) :
    min (MAX_PAGE_SIZE - q.size) offset ≤ offset ∧
      min (MAX_PAGE_SIZE - q.size) offset ≤ MAX_PAGE_SIZE - q.size ∧
      (min (MAX_PAGE_SIZE - q.size) offset = offset ∨
        min (MAX_PAGE_SIZE - q.size) offset = MAX_PAGE_SIZE - q.size) := by
  omega

/-- The current page moved whole into the previous one, which becomes current. -/
theorem RetryInv.fuse (h : RetryInv bytes pos (q :: rest) p next offset)
    (hq : q.size < MAX_PAGE_SIZE)
    (hp : (p.data.drop (min (MAX_PAGE_SIZE - q.size) offset)).length = 0) :
    RetryInv bytes pos rest
      { updatePage q with data := q.data ++ p.data.take (min (MAX_PAGE_SIZE - q.size) offset) }
      next (q.data ++ p.data.take (min (MAX_PAGE_SIZE - q.size) offset)).length := by
  obtain ⟨hbytes, hpos, hoff, hprev, hcur, hnext⟩ := h
  have hqok : q.Ok := hprev q (by simp)
  obtain ⟨hc1, hc2, -⟩ := chunk_spec q offset
  generalize min (MAX_PAGE_SIZE - q.size) offset = c at *
  simp only [List.length_drop] at hp
  -- the whole page was shifted, so the insertion point was at its end
  have htake : p.data.take c = p.data := List.take_of_length_le (by omega)
  simp only [Page.Ok, Page.size] at hqok hcur hoff hq hc2
  refine ⟨?_, ?_, ?_, fun r hr => hprev r (by simp [hr]), ?_, hnext⟩
  · rw [← hbytes, htake]
    simp
  · rw [← hpos, htake]
    simp only [List.reverse_cons, flat_append, flat_cons, flat_nil, List.append_nil,
      List.length_append]
    omega
  · simp [Page.size]
  · simp only [Page.Ok, Page.size, List.length_append, htake]
    omega

/-- Bytes up to the insertion point moved to the previous page, which becomes
current with the insertion point at its end. -/
theorem RetryInv.restart (h : RetryInv bytes pos (q :: rest) p next offset)
    (hq : q.size < MAX_PAGE_SIZE)
    (hp : ¬(p.data.drop (min (MAX_PAGE_SIZE - q.size) offset)).length = 0)
    (hr : offset - min (MAX_PAGE_SIZE - q.size) offset = 0) :
    RetryInv bytes pos rest
      { updatePage q with data := q.data ++ p.data.take (min (MAX_PAGE_SIZE - q.size) offset) }
      ({ updatePage p with data := p.data.drop (min (MAX_PAGE_SIZE - q.size) offset) } :: next)
      (q.data ++ p.data.take (min (MAX_PAGE_SIZE - q.size) offset)).length := by
  obtain ⟨hbytes, hpos, hoff, hprev, hcur, hnext⟩ := h
  have hqok : q.Ok := hprev q (by simp)
  obtain ⟨hc1, hc2, -⟩ := chunk_spec q offset
  generalize min (MAX_PAGE_SIZE - q.size) offset = c at *
  simp only [List.length_drop] at hp
  simp only [Page.Ok, Page.size] at hqok hcur hoff hq hc2
  refine ⟨?_, ?_, ?_, fun r hr => hprev r (by simp [hr]), ?_, ?_⟩
  · rw [← hbytes]
    simp [take_append_drop_append]
  · rw [← hpos]
    simp only [List.reverse_cons, flat_append, flat_cons, flat_nil, List.append_nil,
      List.length_append, List.length_take]
    omega
  · simp [Page.size]
  · simp only [Page.Ok, Page.size, List.length_append, List.length_take]
    omega
  · intro r hr
    simp only [List.mem_cons] at hr
    rcases hr with rfl | hr
    · simp only [Page.Ok, Page.size, List.length_drop]
      omega
    · exact hnext r hr

/-- Bytes before the insertion point moved to the previous page; the current
page stays, with the insertion point nearer its start. -/
theorem RetryInv.stay (h : RetryInv bytes pos (q :: rest) p next offset)
    (hq : q.size < MAX_PAGE_SIZE)
    (hp : ¬(p.data.drop (min (MAX_PAGE_SIZE - q.size) offset)).length = 0) :
    RetryInv bytes pos
      ({ updatePage q with data := q.data ++ p.data.take (min (MAX_PAGE_SIZE - q.size) offset) }
        :: rest)
      { updatePage p with data := p.data.drop (min (MAX_PAGE_SIZE - q.size) offset) }
      next (offset - min (MAX_PAGE_SIZE - q.size) offset) := by
  obtain ⟨hbytes, hpos, hoff, hprev, hcur, hnext⟩ := h
  have hqok : q.Ok := hprev q (by simp)
  obtain ⟨hc1, hc2, -⟩ := chunk_spec q offset
  generalize min (MAX_PAGE_SIZE - q.size) offset = c at *
  simp only [List.length_drop] at hp
  simp only [Page.Ok, Page.size] at hqok hcur hoff hq hc2
  refine ⟨?_, ?_, ?_, ?_, ?_, hnext⟩
  · rw [← hbytes]
    simp
  · rw [← hpos]
    simp only [List.reverse_cons, flat_append, flat_cons, flat_nil, List.append_nil,
      List.length_append, List.length_take]
    omega
  · simp only [Page.size, List.length_drop]
    omega
  · intro r hr
    simp only [List.mem_cons] at hr
    rcases hr with rfl | hr
    · simp only [Page.Ok, Page.size, List.length_append, List.length_take]
      omega
    · exact hprev r (by simp [hr])
  · simp only [Page.Ok, Page.size, List.length_drop]
    omega

end RetryStep

/-- The `retry:` loop keeps its invariant: a run lemma over the loop's own
recursion. -/
theorem shiftLoop_inv {bytes : List UInt8} {pos : Nat} {prev : List Page} {p : Page}
    {next : List Page} {offset : Nat} (size : Nat) (h : RetryInv bytes pos prev p next offset) :
    RetryInv bytes pos (shiftLoop prev p next offset size).1 (shiftLoop prev p next offset size).2.1
      (shiftLoop prev p next offset size).2.2.1 (shiftLoop prev p next offset size).2.2.2 := by
  fun_induction shiftLoop prev p next offset size with
  | case1 p next offset len hov q rest hq chunk q' p' hp ih => exact ih (h.fuse hq hp)
  | case2 p next offset len hov q rest hq chunk q' p' hp hr ih =>
    exact ih (h.restart hq hp hr.1)
  | case3 p next offset len hov q rest hq chunk q' p' hp hr ih => exact ih (h.stay hq hp)
  | case4 => exact h
  | case5 => exact h
  | case6 => exact h

/-! ## Inserting in the page the loop ends on -/

/-- After the loop: the bytes that fit go in at the insertion point, the end
of the page they push out goes in front of the next page, and the bytes left
over come back, to be inserted after the page. -/
theorem insertInPage_spec (p : Page) (next : List Page) (off : Nat) (buf : List UInt8)
    (hp : p.Ok) (hoff : off ≤ p.size) (hnext : ∀ q ∈ next, q.Ok) :
    (insertInPage p next off buf).1.data ++ (insertInPage p next off buf).2.2 ++
        flat (insertInPage p next off buf).2.1 =
      p.data.take off ++ buf ++ p.data.drop off ++ flat next ∧
    (insertInPage p next off buf).1.Ok ∧ ∀ q ∈ (insertInPage p next off buf).2.1, q.Ok := by
  have hpos := MAX_PAGE_SIZE_pos
  simp only [Page.Ok, Page.size] at hp hoff
  unfold insertInPage
  simp only [Page.size]
  generalize hlen : min (MAX_PAGE_SIZE - off) buf.length = len
  by_cases hl : 0 < len
  · by_cases ho : 0 < p.data.length + len - MAX_PAGE_SIZE
    · -- the page overflows: its end moves in front of the next page
      simp only [hl, ho, if_true]
      refine ⟨?_, ?_, ebInsert1_ok next 0 _ hnext⟩
      · rw [flat_ebInsert1 next 0 _, List.take_zero, List.drop_zero, flat_nil,
          List.nil_append]
        have key := Chunks.splice_eq p.data buf (flat next) off len
            (p.data.length - (p.data.length + len - MAX_PAGE_SIZE)) (by omega) (by omega)
        simp only [List.append_assoc] at key ⊢
        exact key
      · simp only [Page.Ok, Page.size, List.length_append, List.length_take, List.length_drop]
        omega
    · -- the page has room for all that goes in
      have hout : p.data.length + len - MAX_PAGE_SIZE = 0 := by omega
      simp only [hl, hout, Nat.lt_irrefl, if_true, if_false, Nat.sub_zero, List.take_length]
      refine ⟨?_, ?_, hnext⟩
      · simpa only [List.take_length, List.drop_length, List.append_nil, List.append_assoc] using
          Chunks.splice_eq p.data buf (flat next) off len p.data.length hoff (by omega)
      · simp only [Page.Ok, Page.size, List.length_append, List.length_take, List.length_drop]
        omega
  · -- nothing goes in: the insertion point is at the end of a full page, or `buf` is empty
    have ho : ¬ 0 < p.data.length + len - MAX_PAGE_SIZE := by omega
    simp only [hl, ho, if_false]
    refine ⟨?_, ⟨hp.1, hp.2⟩, hnext⟩
    rcases Nat.eq_zero_or_pos buf.length with hb | hb
    · simp [List.eq_nil_of_length_eq_zero hb]
    · have hend : off = p.data.length := by omega
      simp [hend]

/-! ## Specification of `eb_insert_lowlevel` -/

/-- The table `eb_insert_lowlevel` builds around the page the loop ends on:
the bytes left over go in front of the page after it. -/
theorem flat_insertRest (pre : List Page) (p : Page) (nx : List Page) (rest : List UInt8) :
    flat (if 0 < rest.length then ebInsert1 (pre ++ p :: nx) (pre.length + 1) rest
      else pre ++ p :: nx) = flat pre ++ p.data ++ rest ++ flat nx := by
  split
  · rw [flat_ebInsert1 _ _ _]
    simp [List.take_append, List.drop_append, List.take_of_length_le, List.drop_eq_nil_of_le]
  · rename_i h
    simp [List.eq_nil_of_length_eq_zero (Nat.eq_zero_of_not_pos h)]

theorem insertRest_ok (pre : List Page) (p : Page) (nx : List Page) (rest : List UInt8)
    (hok : ∀ q ∈ pre ++ p :: nx, q.Ok) :
    ∀ q ∈ (if 0 < rest.length then ebInsert1 (pre ++ p :: nx) (pre.length + 1) rest
      else pre ++ p :: nx), q.Ok := by
  split
  · exact ebInsert1_ok _ _ _ hok
  · exact hok

section Lowlevel

variable {b : EditBuffer} {offset : Nat} (buf : List UInt8)

theorem ebInsertLowlevel_totalSize :
    (ebInsertLowlevel b offset buf).totalSize = b.totalSize + buf.length := by
  unfold ebInsertLowlevel
  split
  · simp only [findPage_eq]
    split <;> rfl
  · rfl

theorem ebInsertLowlevel_curPage : (ebInsertLowlevel b offset buf).curPage = none := by
  unfold ebInsertLowlevel
  split
  · dsimp only
    split <;> rfl
  · rfl

/-- Past the first byte, `eb_insert_lowlevel` runs the loop from the page
holding the byte before the insertion point and inserts in the page it ends
on. -/
theorem ebInsertLowlevel_pages_pos {L R : List Page} {p : Page} {po : Nat}
    (hc : b.CacheOk) (hpos : 0 < offset) (hpages : b.pages = L ++ p :: R)
    (hwalk : Chunks.walk Page.size b.pages (offset - 1) = (L.length, po)) :
    (ebInsertLowlevel b offset buf).pages =
      (let s := shiftLoop L.reverse p R (po + 1) buf.length
       let r := insertInPage s.2.1 s.2.2.1 s.2.2.2 buf
       if 0 < r.2.2.length then ebInsert1 (s.1.reverse ++ r.1 :: r.2.1) (s.1.length + 1) r.2.2
       else s.1.reverse ++ r.1 :: r.2.1) := by
  have hc' : ({ b with totalSize := b.totalSize + buf.length } : EditBuffer).CacheOk := hc
  have hfp := @findPage_buffer _ (offset - 1) hc'
  have hfw := @findPage_eq_walk _ (offset - 1) hc'
  simp only [hwalk, Prod.mk.injEq] at hfp hfw
  obtain ⟨hi, hpo⟩ := hfw
  -- the zipper the loop starts from: the pages before and after the found one
  have hget : b.pages[L.length]? = some p := by simp [hpages]
  have htake : b.pages.take L.length = L := by simp [hpages]
  have hdrop : b.pages.drop (L.length + 1) = R := by simp [hpages]
  unfold ebInsertLowlevel
  simp only [hpos, if_true, hfp, hi, hpo, hget, htake, hdrop]

theorem ebInsertLowlevel_pages_zero :
    (ebInsertLowlevel b 0 buf).pages =
      if 0 < buf.length then ebInsert1 b.pages 0 buf else b.pages := rfl

/-- The pages after `eb_insert_lowlevel` hold `buf` inserted at `offset`, and
all are `Ok`. -/
theorem ebInsertLowlevel_flat (hwf : b.WF) (hoff : offset ≤ b.totalSize) :
    flat (ebInsertLowlevel b offset buf).pages =
        (flat b.pages).take offset ++ buf ++ (flat b.pages).drop offset ∧
      ∀ q ∈ (ebInsertLowlevel b offset buf).pages, q.Ok := by
  rcases Nat.eq_zero_or_pos offset with rfl | hpos
  · -- at the start: the bytes go in front of the first page
    rw [ebInsertLowlevel_pages_zero]
    refine ⟨?_, ?_⟩
    · split
      · simpa using flat_ebInsert1 b.pages 0 buf
      · rename_i h
        simp [List.eq_nil_of_length_eq_zero (Nat.eq_zero_of_not_pos h)]
    · split
      · exact ebInsert1_ok _ _ _ hwf.pages_ok
      · exact hwf.pages_ok
  · -- the page holding the byte before the insertion point, and the loop's invariant there
    have hlt : offset - 1 < Chunks.total Page.size b.pages := by
      rw [total_eq_length_flat, ← hwf.total]
      omega
    obtain ⟨L, p, R, hpages, hwalk, hle, hin⟩ := Chunks.walk_spec Page.size b.pages (offset - 1) hlt
    have hinv : RetryInv (flat b.pages) offset L.reverse p R (offset - 1 - Chunks.total Page.size L + 1) := by
      have hok := hwf.pages_ok
      rw [hpages] at hok ⊢
      rw [total_eq_length_flat] at hle hin ⊢
      refine ⟨by simp, ?_, by omega, ?_, hok p (by simp), ?_⟩
      · simp only [List.reverse_reverse]
        omega
      · intro q hq
        exact hok q (by simp [List.mem_reverse.mp hq])
      · intro q hq
        exact hok q (by simp [hq])
    rw [ebInsertLowlevel_pages_pos buf hwf.cache hpos hpages hwalk]
    have hs := shiftLoop_inv buf.length hinv
    generalize shiftLoop L.reverse p R (offset - 1 - Chunks.total Page.size L + 1) buf.length = s at hs ⊢
    obtain ⟨prev, p1, next, off⟩ := s
    obtain ⟨hbytes, hpos', hoff1, hprev, hcur, hnext⟩ := hs
    have hins := insertInPage_spec p1 next off buf hcur hoff1 hnext
    dsimp only
    generalize insertInPage p1 next off buf = r at hins ⊢
    obtain ⟨p2, next2, rest⟩ := r
    obtain ⟨hflat, hok2, hnext2⟩ := hins
    dsimp only at hflat hok2 hnext2 ⊢
    rw [← @List.length_reverse _ prev]
    refine ⟨?_, insertRest_ok _ _ _ _ ?_⟩
    · -- the insertion point splits the page the loop ended on
      rw [flat_insertRest, ← hbytes, ← hpos', Chunks.take_append_split _ _ _ _ hoff1,
        Chunks.drop_append_split _ _ _ _ hoff1]
      simp only [List.append_assoc] at hflat ⊢
      rw [hflat]
    · intro q hq
      simp only [List.mem_append, List.mem_cons, List.mem_reverse] at hq
      rcases hq with hq | rfl | hq
      · exact hprev q hq
      · exact hok2
      · exact hnext2 q hq

/-- `eb_insert_lowlevel` inserts `buf` at `offset` and keeps the invariant. -/
theorem ebInsertLowlevel_spec (hwf : b.WF) (hoff : offset ≤ b.totalSize) :
    (ebInsertLowlevel b offset buf).content =
        b.content.take offset ++ buf ++ b.content.drop offset ∧
      (ebInsertLowlevel b offset buf).WF := by
  obtain ⟨hflat, hok⟩ := ebInsertLowlevel_flat buf hwf hoff
  refine ⟨hflat, hok, ?_, ?_⟩
  · rw [ebInsertLowlevel_totalSize, hflat, hwf.total]
    simp only [List.length_append, List.length_take, List.length_drop]
    omega
  · intro cp h
    simp [ebInsertLowlevel_curPage] at h

end Lowlevel

end Qemacs
