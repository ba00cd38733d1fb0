import Qemacs.Buffer.Page

/-!
# Reading and overwriting raw bytes

`eb_read_one_byte`, `eb_read` and the loop of `eb_write` that overwrites bytes
in place (buffer.c). Both loops start at the page `find_page` returns, at the
offset inside it, and go on page by page from offset 0 while bytes remain.

Each loop is specified on the flat contents of the pages it walks:
`readLoop_eq` and `flat_writeLoop`, proved by induction on the pages. The
overwrite keeps every page size (`writeLoop_sizes`), which is all the page
table invariant reads.
-/

namespace Qemacs

/-- The `for (remain = size;;)` loop of `eb_read`: the bytes copied out of the
pages, from `offset` in the first one. -/
def readLoop : List Page → Nat → Nat → List UInt8
  | [], _, _ => []
  | p :: ps, offset, remain =>
    let len := min (p.size - offset) remain
    if remain ≤ len then (p.data.drop offset).take len
    else (p.data.drop offset).take len ++ readLoop ps 0 (remain - len)

/-- `eb_read_one_byte`: the byte at `offset`, or `-1` out of range. -/
def ebReadOneByte (b : EditBuffer) (offset : Int) : Int × EditBuffer :=
  if offset < 0 ∨ b.totalSize ≤ offset then (-1, b)
  else
    let (i, po, b) := findPage b offset.toNat
    (((b.pages.getD i default).data.getD po 0).toNat, b)

/-- `eb_read`: at most `size` bytes from `offset`, clipped to the end of the
buffer; returns the count, the bytes, and the buffer with its cache moved. -/
def ebRead (b : EditBuffer) (offset size : Int) : Int × List UInt8 × EditBuffer :=
  if offset < 0 ∨ size ≤ 0 ∨ b.totalSize ≤ offset then (0, [], b)
  else
    let size := min size (b.totalSize - offset)
    let (i, po, b) := findPage b offset.toNat
    (size, readLoop (b.pages.drop i) po size.toNat, b)

/-- The loop of `eb_write` that overwrites `remain` bytes from `offset` in the
first page with the bytes of `buf`. -/
def writeLoop : List Page → Nat → List UInt8 → Nat → List Page
  | [], _, _, _ => []
  | p :: ps, offset, buf, remain =>
    let len := min (p.size - offset) remain
    let p := { updatePage p with
      data := p.data.take offset ++ buf.take len ++ p.data.drop (offset + len) }
    if remain ≤ len then p :: ps
    else p :: writeLoop ps 0 (buf.drop len) (remain - len)

@[simp] theorem readLoop_zero (ps : List Page) (offset : Nat) : readLoop ps offset 0 = [] := by
  cases ps <;> simp [readLoop]

/-- One page of `eb_read`'s loop; past the last byte asked for, the rest is
empty. -/
theorem readLoop_cons (p : Page) (ps : List Page) (offset remain : Nat) :
    readLoop (p :: ps) offset remain =
      (p.data.drop offset).take (min (p.size - offset) remain) ++
        readLoop ps 0 (remain - min (p.size - offset) remain) := by
  by_cases hle : remain ≤ min (p.size - offset) remain
  · have hzero : remain - min (p.size - offset) remain = 0 := by omega
    rw [readLoop, if_pos hle, hzero, readLoop_zero, List.append_nil]
  · rw [readLoop, if_neg hle]

/-! ## The loops on the flat contents -/

/-- The first page size, which bounds the starting offset of both loops. -/
def firstSize (ps : List Page) : Nat := (ps.map Page.size).headD 0

@[simp] theorem firstSize_cons (p : Page) (ps : List Page) : firstSize (p :: ps) = p.size := rfl

/-- `eb_read`'s loop copies the bytes from `offset` on, as far as they go. -/
theorem readLoop_eq (ps : List Page) (offset remain : Nat) (h : offset ≤ firstSize ps) :
    readLoop ps offset remain = ((flat ps).drop offset).take remain := by
  induction ps generalizing offset remain with
  | nil => simp [readLoop]
  | cons p ps ih =>
    simp only [firstSize_cons] at h
    simp only [readLoop, flat_cons]
    rw [List.drop_append_of_le_length h]
    by_cases hle : remain ≤ p.size - offset
    · -- the bytes end in this page
      have hlen : min (p.size - offset) remain = remain := by omega
      rw [if_pos (by omega), hlen,
        List.take_append_of_le_length (by simp only [List.length_drop]; exact hle)]
    · -- the rest of the page, then the next pages from their start
      have hlen : min (p.size - offset) remain = p.size - offset := by omega
      have hdrop : (p.data.drop offset).length = p.size - offset := List.length_drop
      have hrest : (p.data.drop offset).take (p.size - offset) = p.data.drop offset :=
        List.take_of_length_le (Nat.le_of_eq hdrop)
      have hall : (p.data.drop offset).take remain = p.data.drop offset :=
        List.take_of_length_le (by omega)
      rw [if_neg (by omega), hlen, hrest, ih 0 _ (Nat.zero_le _), List.drop_zero, List.take_append,
        hall, hdrop]

/-- The overwrite puts `buf` over the `remain` bytes from `offset`. -/
theorem flat_writeLoop (ps : List Page) (offset : Nat) (buf : List UInt8) (remain : Nat)
    (h : offset ≤ firstSize ps) (hbuf : remain ≤ buf.length)
    (hend : offset + remain ≤ (flat ps).length) :
    flat (writeLoop ps offset buf remain) =
      (flat ps).take offset ++ buf.take remain ++ (flat ps).drop (offset + remain) := by
  induction ps generalizing offset buf remain with
  | nil =>
    have : remain = 0 := by simp at hend; omega
    simp [writeLoop, this]
  | cons p ps ih =>
    simp only [firstSize_cons] at h
    simp only [flat_cons, List.length_append] at hend
    simp only [writeLoop]
    by_cases hle : remain ≤ p.size - offset
    · -- the overwrite ends in this page
      have hlen : min (p.size - offset) remain = remain := by omega
      rw [if_pos (by omega), hlen, flat_cons, flat_cons,
        List.take_append_of_le_length h, List.drop_append_of_le_length (by exact (by omega : offset + remain ≤ p.size))]
      simp
    · -- the page is overwritten to its end, then the next pages from their start
      have hlen : min (p.size - offset) remain = p.size - offset := by omega
      have hps : p.data.length = p.size := rfl
      rw [if_neg (by omega), hlen, flat_cons, flat_cons,
        ih 0 _ _ (Nat.zero_le _) (by simp; omega) (by omega),
        List.take_append_of_le_length (hps ▸ h), List.drop_append]
      -- the bytes of `buf` split at the end of the page
      have htake : buf.take remain = buf.take (p.size - offset) ++
          (buf.drop (p.size - offset)).take (remain - (p.size - offset)) := by
        rw [← List.take_add]
        congr 1
        omega
      have hend' : offset + remain - p.data.length = remain - (p.size - offset) := by omega
      have hnil : p.data.drop (offset + (p.size - offset)) = [] :=
        List.drop_eq_nil_of_le (by omega)
      have hnil' : p.data.drop (offset + remain) = [] := List.drop_eq_nil_of_le (by omega)
      simp only [htake, hend', hnil, hnil', Nat.zero_add, List.take_zero, List.nil_append,
        List.append_nil, List.append_assoc]

/-- The overwrite keeps every page size. -/
theorem writeLoop_sizes (ps : List Page) (offset : Nat) (buf : List UInt8) (remain : Nat)
    (h : offset ≤ firstSize ps) (hbuf : remain ≤ buf.length) :
    (writeLoop ps offset buf remain).map Page.size = ps.map Page.size := by
  induction ps generalizing offset buf remain with
  | nil => rfl
  | cons p ps ih =>
    simp only [firstSize_cons] at h
    simp only [writeLoop]
    by_cases hle : remain ≤ min (p.size - offset) remain
    · rw [if_pos hle]
      simp only [List.map_cons, Page.size, List.length_append, List.length_take,
        List.length_drop]
      congr 1
      omega
    · rw [if_neg hle]
      simp only [List.map_cons, Page.size, List.length_append, List.length_take,
        List.length_drop]
      rw [ih 0 _ _ (Nat.zero_le _) (by simp; omega)]
      congr 1
      omega

/-! ## `eb_read` and `eb_read_one_byte` -/

section Read

variable {b : EditBuffer}

/-- The pages from the one `find_page` lands on hold the contents from `offset`. -/
theorem findPage_drop (hc : b.CacheOk) {offset : Nat} (hlt : offset < (flat b.pages).length) :
    (findPage b offset).2.1 ≤ firstSize (b.pages.drop (findPage b offset).1) ∧
      (flat (b.pages.drop (findPage b offset).1)).drop (findPage b offset).2.1 =
        (flat b.pages).drop offset := by
  obtain ⟨L, p, R, hpages, hi, hpo, hle, hin⟩ := findPage_split hc hlt
  have hdrop : b.pages.drop L.length = p :: R := by simp [hpages]
  rw [hi, hpo, hdrop]
  refine ⟨Nat.le_of_lt hin, ?_⟩
  rw [hpages, flat_append, List.drop_append, List.drop_eq_nil_of_le hle, List.nil_append]

/-- `eb_read` returns the count it clips the request to and the bytes of the
contents in that range. -/
theorem ebRead_spec (hwf : b.WF) (offset size : Int) :
    (ebRead b offset size).1 =
        (if offset < 0 ∨ size ≤ 0 ∨ b.totalSize ≤ offset then 0
          else min size (b.totalSize - offset)) ∧
      (ebRead b offset size).2.1 =
        (b.content.drop offset.toNat).take (ebRead b offset size).1.toNat := by
  unfold ebRead
  split
  · simp
  · rename_i hin
    have hlt : offset.toNat < (flat b.pages).length := by
      rw [← hwf.total]
      omega
    obtain ⟨hfirst, hdrop⟩ := findPage_drop hwf.cache hlt
    refine ⟨rfl, ?_⟩
    obtain ⟨cp, co, hb⟩ := findPage_frame b offset.toNat
    have hpages : (findPage b offset.toNat).2.2.pages = b.pages := by rw [hb]
    dsimp only
    generalize findPage b offset.toNat = r at hfirst hdrop hpages ⊢
    obtain ⟨i, po, b'⟩ := r
    dsimp only at hfirst hdrop hpages ⊢
    rw [hpages, readLoop_eq _ _ _ hfirst, hdrop, EditBuffer.content_eq_flat]

/-- `eb_read_one_byte` returns the byte of the contents at `offset`. -/
theorem ebReadOneByte_spec (hwf : b.WF) (offset : Int) :
    (ebReadOneByte b offset).1 =
      if offset < 0 ∨ b.totalSize ≤ offset then -1
      else ((b.content.getD offset.toNat 0).toNat : Int) := by
  unfold ebReadOneByte
  split
  · rfl
  · rename_i hin
    have hlt : offset.toNat < (flat b.pages).length := by
      rw [← hwf.total]
      omega
    obtain ⟨L, p, R, hpages, hi, hpo, hle, hin⟩ := findPage_split hwf.cache hlt
    obtain ⟨cp, co, hb⟩ := findPage_frame b offset.toNat
    have hget : (b.pages.getD L.length default) = p := by simp [hpages]
    dsimp only
    rw [hb, hi, hpo, hget, EditBuffer.content_eq_flat, hpages, flat_append, flat_cons]
    -- the byte sits in `p`, past the pages before it
    have hoff : offset.toNat = (flat L).length + (offset.toNat - (flat L).length) := by omega
    rw [hoff, List.getD_eq_getElem?_getD, List.getD_eq_getElem?_getD,
      List.getElem?_append_right (by omega), Nat.add_sub_cancel_left,
      List.getElem?_append_left hin]

/-- `eb_read` moves the cache and nothing else, and keeps the invariant. -/
theorem ebRead_frame (hwf : b.WF) (offset size : Int) :
    (∃ cp co, (ebRead b offset size).2.2 = { b with curPage := cp, curOffset := co }) ∧
      (ebRead b offset size).2.2.WF := by
  unfold ebRead
  split
  · exact ⟨⟨b.curPage, b.curOffset, rfl⟩, hwf⟩
  · rename_i hin
    exact ⟨findPage_frame b offset.toNat, findPage_wf hwf (by omega)⟩

end Read

end Qemacs
