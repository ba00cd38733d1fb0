import Qemacs.Buffer.Insert
import Qemacs.Buffer.Log

/-!
# Buffer edition

`eb_insert`, `eb_delete`, `eb_write`, `eb_insert_buffer` and `eb_replace`
(buffer.c): the checks on their `int` arguments, the log record, and the page
work. Offsets and sizes are the C `int`s as integers; `(buf, size)` arguments
are a byte list of which the first `size` bytes are read, which the C requires
to exist.

`eb_delete` walks the pages from the one holding the offset: a page all of
whose remaining bytes go is left in place and counted, the first of them
recorded as `del_start`; a page losing part of its bytes is cut. The counted
pages are then removed as one block. That the counted pages do form one block,
right after the first page when that page is only cut, is what `deleteRun_spec`
and `deleteLoop_spec` establish.
-/

namespace Qemacs

/-- `eb_insert`: insert the first `size` bytes of `buf` at `offset`, clamped
to `total_size`. Returns the count inserted. -/
def ebInsert (b : EditBuffer) (offset : Int) (buf : List UInt8) (size : Int) : Int × EditBuffer :=
  if b.readOnly then (0, b)
  else
    -- sanity checks
    let offset := if (b.totalSize : Int) < offset then (b.totalSize : Int) else offset
    if offset < 0 ∨ size ≤ 0 then (0, b)
    else
      let b := ebAddlog b .insert offset size
      (size, ebInsertLowlevel b offset.toNat (buf.take size.toNat))

/-- The `while (size > 0)` loop of `eb_delete`, on the pages from the one
holding the offset; `k` is the index of the current page among them. Returns
the pages as the loop leaves them, the count `n` of pages to remove and
`del_start`. -/
def deleteLoop (ps : List Page) (k offset size n : Nat) (delStart : Option Nat) :
    List Page × Nat × Option Nat :=
  if size = 0 then (ps, n, delStart)
  else
    match ps with
    | [] => ([], n, delStart)
    | p :: rest =>
      let len := min (p.size - offset) size
      if hfull : len = p.size then
        -- every byte of the page goes: it is counted, not cut
        let r := deleteLoop rest (k + 1) 0 (size - len) (n + 1) (some (delStart.getD k))
        (p :: r.1, r.2)
      else
        let p' := { updatePage p with data := p.data.take offset ++ p.data.drop (offset + len) }
        if _hnext : p'.size ≤ offset + len then
          let r := deleteLoop rest (k + 1) 0 (size - len) n delStart
          (p' :: r.1, r.2)
        else deleteLoop (p' :: rest) k (offset + len) (size - len) n delStart
termination_by size + ps.length
decreasing_by
  · simp only [List.length_cons]; omega
  · simp only [List.length_cons]; omega
  · simp only [p', len, Page.size, List.length_cons, List.length_append, List.length_take,
      List.length_drop] at hfull _hnext ⊢
    omega

/-- `eb_delete`: remove `size` bytes at `offset`, clipped to the end of the
buffer. Returns the count removed. -/
def ebDelete (b : EditBuffer) (offset size : Int) : Int × EditBuffer :=
  if b.readOnly then (0, b)
  else if offset < 0 ∨ (b.totalSize : Int) ≤ offset ∨ size ≤ 0 then (0, b)
  else
    let size := if (b.totalSize : Int) - offset < size then (b.totalSize : Int) - offset else size
    -- dispatch callbacks before buffer update
    let b := ebAddlog b .delete offset size
    let b := { b with totalSize := b.totalSize - size.toNat }
    let (i, po, b) := findPage b offset.toNat
    let (ps, n, delStart) := deleteLoop (b.pages.drop i) 0 po size.toNat 0 none
    let pages := b.pages.take i ++ ps
    -- now delete the requested pages
    let d := i + delStart.getD 0
    let pages := if 0 < n then pages.take d ++ pages.drop (d + n) else pages
    (size, { b with pages := pages, curPage := none })

/-- `eb_write`: overwrite the bytes from `offset`, and insert the bytes that
go past the end. Returns `size`. -/
def ebWrite (b : EditBuffer) (offset : Int) (buf : List UInt8) (size : Int) : Int × EditBuffer :=
  if b.readOnly then (0, b)
  else if offset < 0 ∨ size ≤ 0 ∨ (b.totalSize : Int) < offset then (0, b)
  else
    let writeSize := if (b.totalSize : Int) - offset < size then (b.totalSize : Int) - offset
      else size
    let b :=
      if 0 < writeSize then
        let b := ebAddlog b .write offset writeSize
        let (i, po, b) := findPage b offset.toNat
        { b with pages := b.pages.take i ++ writeLoop (b.pages.drop i) po buf writeSize.toNat }
      else b
    let b :=
      if writeSize < size then
        (ebInsert b (offset + writeSize) (buf.drop writeSize.toNat) (size - writeSize)).2
      else b
    (size, b)

/-- The `while (size > 0)` loop of `eb_insert_buffer`: the bytes of each page
of the source, from `srcOffset` in the first, inserted in turn. -/
def insertBufferLoop (dest : EditBuffer) (destOffset : Nat) : List Page → Nat → Nat → EditBuffer
  | [], _, _ => dest
  | p :: ps, srcOffset, size =>
    if size = 0 then dest
    else
      let len := min (p.size - srcOffset) size
      let dest := ebInsertLowlevel dest destOffset ((p.data.drop srcOffset).take len)
      insertBufferLoop dest (destOffset + len) ps 0 (size - len)

/-- `eb_insert_buffer`: insert `size` bytes of `src` from `srcOffset` into
`dest` at `destOffset`. Returns the count, `dest`, and `src`, whose cache
`find_page` moves. -/
def ebInsertBuffer (dest : EditBuffer) (destOffset : Int) (src : EditBuffer)
    (srcOffset size : Int) : Int × EditBuffer × EditBuffer :=
  if dest.readOnly then (0, dest, src)
  -- Assert parameter consistency
  else if destOffset < 0 ∨ srcOffset < 0 ∨ (src.totalSize : Int) ≤ srcOffset then (0, dest, src)
  else
    let size := if (src.totalSize : Int) < srcOffset + size then (src.totalSize : Int) - srcOffset
      else size
    let destOffset := if (dest.totalSize : Int) < destOffset then (dest.totalSize : Int)
      else destOffset
    if size ≤ 0 then (0, dest, src)
    else
      let dest := ebAddlog dest .insert destOffset size
      let (i, po, src) := findPage src srcOffset.toNat
      (size, insertBufferLoop dest destOffset.toNat (src.pages.drop i) po size.toNat, src)

/-- `eb_replace`: a write when the sizes agree, a deletion and an insertion
otherwise. Returns what the last call returns. -/
def ebReplace (b : EditBuffer) (offset size : Int) (buf : List UInt8) (size1 : Int) :
    Int × EditBuffer :=
  if size = size1 then ebWrite b offset buf size1
  else ebInsert (ebDelete b offset size).2 offset buf size1

/-! ## The deletion loop -/

section DeleteLoop

variable (p : Page) (rest : List Page) (k n : Nat) (ds : Option Nat)

theorem deleteLoop_zero (ps : List Page) (offset : Nat) :
    deleteLoop ps k offset 0 n ds = (ps, n, ds) := by
  rw [deleteLoop.eq_def]
  simp

/-- A page deleted whole, from its start. -/
theorem deleteLoop_full {size : Nat} (hs : 0 < size) (hp : p.size ≤ size) :
    deleteLoop (p :: rest) k 0 size n ds =
      (p :: (deleteLoop rest (k + 1) 0 (size - p.size) (n + 1) (some (ds.getD k))).1,
        (deleteLoop rest (k + 1) 0 (size - p.size) (n + 1) (some (ds.getD k))).2) := by
  have hlen : min (p.size - 0) size = p.size := by omega
  rw [deleteLoop]
  simp only [Nat.pos_iff_ne_zero.mp hs, if_false, hlen, dite_true]

/-- The head of a page deleted, up to the end of the deletion. -/
theorem deleteLoop_head {size : Nat} (hs : 0 < size) (hp : size < p.size) :
    deleteLoop (p :: rest) k 0 size n ds =
      ({ updatePage p with data := p.data.drop size } :: rest, n, ds) := by
  have hlen : min (p.size - 0) size = size := by omega
  rw [deleteLoop]
  simp only [Nat.pos_iff_ne_zero.mp hs, if_false, hlen, Nat.ne_of_lt hp, dite_false,
    List.take_zero, List.nil_append, Nat.zero_add, Nat.sub_self, deleteLoop_zero]
  split <;> rfl

/-- The first page, cut from `po > 0`: the loop goes on from the next page
with what is left to delete. -/
theorem deleteLoop_cut {po size : Nat} (hpo : 0 < po) (hin : po < p.size) (hs : 0 < size) :
    deleteLoop (p :: rest) k po size n ds =
      ({ updatePage p with
          data := p.data.take po ++ p.data.drop (po + min (p.size - po) size) } ::
        (deleteLoop rest (k + 1) 0 (size - min (p.size - po) size) n ds).1,
        (deleteLoop rest (k + 1) 0 (size - min (p.size - po) size) n ds).2) := by
  have hne : min (p.size - po) size ≠ p.size := by omega
  rw [deleteLoop]
  simp only [Nat.pos_iff_ne_zero.mp hs, if_false, hne, dite_false]
  split
  · rfl
  · -- staying in the page: the deletion ended inside it
    rename_i hstay
    have hend : size - min (p.size - po) size = 0 := by
      simp only [Page.size, List.length_append, List.length_take, List.length_drop] at hstay hin ⊢
      omega
    rw [hend, deleteLoop_zero, deleteLoop_zero]

end DeleteLoop

/-- From the start of a page, the loop counts the pages it deletes whole, a
block `R.take m`, and then cuts the head of at most one page; the pages `T`
left after the block hold the contents past the deletion. The block extends
the one already counted, whose first page is `del_start`. -/
theorem deleteRun_spec (R : List Page) (k s n : Nat) (ds : Option Nat)
    (hok : ∀ q ∈ R, q.Ok) (hs : s ≤ (flat R).length) :
    ∃ m T, m ≤ R.length ∧
      deleteLoop R k 0 s n ds = (R.take m ++ T, n + m, if m = 0 then ds else some (ds.getD k)) ∧
      flat T = (flat R).drop s ∧ ∀ q ∈ T, q.Ok := by
  induction R generalizing k s n ds with
  | nil =>
    have hs0 : s = 0 := by simpa using hs
    exact ⟨0, [], Nat.zero_le _, by simp [hs0, deleteLoop_zero], by simp, by simp⟩
  | cons p rest ih =>
    have hpok : p.Ok := hok p (by simp)
    rcases Nat.eq_zero_or_pos s with rfl | hspos
    · exact ⟨0, p :: rest, Nat.zero_le _, by simp [deleteLoop_zero], by simp, hok⟩
    · by_cases hfull : p.size ≤ s
      · -- the page goes whole and the block grows by one
        simp only [flat_cons, List.length_append] at hs
        obtain ⟨m, T, hm, hloop, hflat, hTok⟩ :=
          ih (k + 1) (s - p.size) (n + 1) (some (ds.getD k)) (fun q hq => hok q (by simp [hq]))
            (by simp only [Page.size] at hfull ⊢; omega)
        refine ⟨m + 1, T, by simp [hm], ?_, ?_, hTok⟩
        · rw [deleteLoop_full p rest k n ds hspos hfull, hloop]
          simp only [List.take_succ_cons, List.cons_append, Nat.add_assoc, Nat.add_comm 1 m,
            Nat.succ_ne_zero, if_false]
          split <;> rfl
        · rw [hflat, flat_cons, List.drop_append, List.drop_eq_nil_of_le hfull, List.nil_append]
          rfl
      · -- the deletion ends inside the page: its head is cut
        have hlt : s < p.size := Nat.lt_of_not_le hfull
        refine ⟨0, { updatePage p with data := p.data.drop s } :: rest, Nat.zero_le _, ?_, ?_, ?_⟩
        · rw [deleteLoop_head p rest k n ds hspos hlt]
          simp
        · simp [List.drop_append_of_le_length (Nat.le_of_lt hlt)]
        · intro q hq
          simp only [List.mem_cons] at hq
          rcases hq with rfl | hq
          · simp only [Page.Ok, Page.size, List.length_drop] at hpok hlt ⊢
            omega
          · exact hok q (by simp [hq])

/-- The loop of `eb_delete` from the page holding the offset, at `po` in it:
it leaves that page cut or not at all (`A`), a block `D` of pages counted
for removal starting right after, and the pages `T` after the block. Without
the block the pages hold the contents around the deleted bytes. -/
theorem deleteLoop_spec (p : Page) (R : List Page) (po size : Nat)
    (hok : ∀ q ∈ p :: R, q.Ok) (hin : po < p.size) (hs : 0 < size)
    (hsize : po + size ≤ (flat (p :: R)).length) :
    ∃ A D T, deleteLoop (p :: R) 0 po size 0 none =
        (A ++ D ++ T, D.length, if D.length = 0 then none else some A.length) ∧
      flat A ++ flat T = (flat (p :: R)).take po ++ (flat (p :: R)).drop (po + size) ∧
      ∀ q ∈ A ++ T, q.Ok := by
  rcases Nat.eq_zero_or_pos po with rfl | hpo
  · -- from the start of the page: one run
    obtain ⟨m, T, hm, hloop, hflat, hTok⟩ :=
      deleteRun_spec (p :: R) 0 size 0 none hok (by omega)
    refine ⟨[], (p :: R).take m, T, ?_, by simp [hflat], by simpa using hTok⟩
    rw [hloop, List.length_take_of_le hm]
    simp only [List.nil_append, Nat.zero_add, List.length_nil]
    split <;> rfl
  · -- the page is cut from `po`, then a run from the next page
    have hpok : p.Ok := hok p (by simp)
    simp only [flat_cons, List.length_append] at hsize
    obtain ⟨m, T, hm, hloop, hflat, hTok⟩ :=
      deleteRun_spec R 1 (size - min (p.size - po) size) 0 none
        (fun q hq => hok q (by simp [hq])) (by simp only [Page.size] at hin ⊢; omega)
    refine ⟨[{ updatePage p with
        data := p.data.take po ++ p.data.drop (po + min (p.size - po) size) }], R.take m, T,
      ?_, ?_, ?_⟩
    · rw [deleteLoop_cut p R 0 0 none hpo hin hs, hloop, List.length_take_of_le hm]
      simp only [Nat.zero_add, List.length_singleton, List.cons_append]
      split <;> rfl
    · -- the page keeps its bytes before `po` and after the deleted ones
      have hps : p.data.length = p.size := rfl
      have hcut : p.data.drop (po + min (p.size - po) size) = p.data.drop (po + size) := by
        by_cases hle : size ≤ p.size - po
        · rw [Nat.min_eq_right hle]
        · rw [List.drop_eq_nil_of_le (by omega), List.drop_eq_nil_of_le (by omega)]
      have hrest : size - min (p.size - po) size = po + size - p.data.length := by omega
      rw [hflat, hrest, hcut, flat_cons p R, List.take_append_of_le_length (by omega), List.drop_append]
      simp
    · intro q hq
      simp only [List.mem_append, List.mem_singleton] at hq
      rcases hq with rfl | hq
      · simp only [Page.Ok, Page.size, List.length_append, List.length_take,
          List.length_drop] at hpok hin ⊢
        omega
      · exact hTok q hq

/-- The block counted by the loop, removed as `eb_delete` removes it. -/
theorem removeBlock_eq (L A D T : List Page) :
    (if 0 < D.length then
        (L ++ (A ++ D ++ T)).take
            (L.length + (if D.length = 0 then none else some A.length).getD 0) ++
          (L ++ (A ++ D ++ T)).drop
            (L.length + (if D.length = 0 then none else some A.length).getD 0 + D.length)
      else L ++ (A ++ D ++ T)) = L ++ A ++ T := by
  split
  · rename_i hD
    simp only [Nat.pos_iff_ne_zero.mp hD, if_false, Option.getD_some]
    have hkeep : (L ++ (A ++ D ++ T)).take (L.length + A.length) = L ++ A := by
      rw [show L ++ (A ++ D ++ T) = (L ++ A) ++ (D ++ T) by simp]
      exact List.take_left' (by simp)
    have hrest : (L ++ (A ++ D ++ T)).drop (L.length + A.length + D.length) = T := by
      rw [show L ++ (A ++ D ++ T) = (L ++ A ++ D) ++ T by simp]
      exact List.drop_left' (by simp only [List.length_append])
    rw [hkeep, hrest]
  · rename_i hD
    simp [List.eq_nil_of_length_eq_zero (Nat.eq_zero_of_not_pos hD)]

section Delete

variable {b : EditBuffer}

/-- `eb_delete` removes the bytes from `offset`, as many as asked and as there
are, and keeps the invariant. -/
theorem ebDelete_spec (hwf : b.WF) (offset size : Int) :
    (ebDelete b offset size).2.content =
        (if b.readOnly ∨ offset < 0 ∨ (b.totalSize : Int) ≤ offset ∨ size ≤ 0 then b.content
          else b.content.take offset.toNat ++
            b.content.drop (offset.toNat + (min size (b.totalSize - offset)).toNat)) ∧
      (ebDelete b offset size).2.WF := by
  unfold ebDelete
  by_cases hro : b.readOnly
  · simp [hro, hwf]
  by_cases hrange : offset < 0 ∨ (b.totalSize : Int) ≤ offset ∨ size ≤ 0
  · simp [hro, hrange, hwf]
  simp only [hro, hrange, if_false, Bool.false_eq_true, false_or]
  -- the clipped size
  have hsz : (if (b.totalSize : Int) - offset < size then (b.totalSize : Int) - offset else size) =
      min size (b.totalSize - offset) := by omega
  rw [hsz]
  have hwf0 := hwf.total
  generalize hs : min size ((b.totalSize : Int) - offset) = sz
  have hlt : offset.toNat < (flat b.pages).length := by omega
  have hend : offset.toNat + sz.toNat ≤ (flat b.pages).length := by omega
  -- the log record changes no byte
  obtain ⟨hsame, hwf1⟩ := ebAddlog_frame hwf .delete offset sz
  generalize ebAddlog b .delete offset sz = b1 at hsame hwf1 ⊢
  obtain ⟨hpages1, htotal1, -, -⟩ := hsame
  -- the page holding the offset, and the loop from there
  have hc2 : ({ b1 with totalSize := b1.totalSize - sz.toNat } : EditBuffer).CacheOk := hwf1.cache
  obtain ⟨L, p, R, hpages, hi, hpo, hle, hin⟩ :=
    findPage_split hc2 (show offset.toNat < (flat b1.pages).length by rw [hpages1]; exact hlt)
  obtain ⟨cp, co, hb3⟩ := findPage_frame { b1 with totalSize := b1.totalSize - sz.toNat } offset.toNat
  generalize findPage { b1 with totalSize := b1.totalSize - sz.toNat } offset.toNat = r
    at hi hpo hb3 ⊢
  obtain ⟨i, po, b3⟩ := r
  dsimp only at hi hpo hb3 ⊢
  subst hi hpo hb3
  dsimp only at hpages ⊢
  have hok : ∀ q ∈ p :: R, q.Ok := fun q hq => hwf1.pages_ok q (by simp [hpages, hq])
  rw [← hpages1, hpages] at hend
  simp only [flat_append, List.length_append] at hend
  obtain ⟨A, D, T, hloop, hflat, hAT⟩ := deleteLoop_spec p R _ sz.toNat hok hin (by omega)
    (by omega)
  rw [hpages, List.drop_left' rfl, List.take_left' rfl, hloop]
  dsimp only
  rw [removeBlock_eq]
  -- the contents around the offset, in `L` and in the pages from `p` on
  have hcontent : b.content = flat L ++ flat (p :: R) := by
    rw [EditBuffer.content_eq_flat, ← hpages1, hpages, flat_append]
  have hflat' : flat (L ++ A ++ T) = b.content.take offset.toNat ++
      b.content.drop (offset.toNat + sz.toNat) := by
    have htake : (flat L ++ flat (p :: R)).take offset.toNat =
        flat L ++ (flat (p :: R)).take (offset.toNat - (flat L).length) := by
      rw [List.take_append, List.take_of_length_le hle]
    have hdrop : (flat L ++ flat (p :: R)).drop (offset.toNat + sz.toNat) =
        (flat (p :: R)).drop (offset.toNat - (flat L).length + sz.toNat) := by
      rw [List.drop_append, List.drop_eq_nil_of_le (by omega), List.nil_append]
      congr 1
      omega
    rw [hcontent, htake, hdrop, flat_append, flat_append, List.append_assoc, hflat,
      List.append_assoc]
  refine ⟨hflat', ?_, ?_, ?_⟩
  · intro q hq
    simp only [List.mem_append] at hq
    rcases hq with (hq | hq) | hq
    · exact hwf1.pages_ok q (by simp [hpages, hq])
    · exact hAT q (by simp [hq])
    · exact hAT q (by simp [hq])
  · show b1.totalSize - sz.toNat = (flat (L ++ A ++ T)).length
    rw [hflat', htotal1, hwf.total, EditBuffer.content_eq_flat]
    simp only [List.length_append, List.length_take, List.length_drop]
    omega
  · intro cp h
    cases h

end Delete

section InsertWrite

variable {b : EditBuffer}

/-- `eb_insert` inserts the first `size` bytes of `buf` at `offset`, clamped to
the end of the buffer, and keeps the invariant. -/
theorem ebInsert_spec (hwf : b.WF) (offset : Int) (buf : List UInt8) (size : Int) :
    (ebInsert b offset buf size).2.content =
        (if b.readOnly ∨ min offset b.totalSize < 0 ∨ size ≤ 0 then b.content
          else b.content.take (min offset b.totalSize).toNat ++ buf.take size.toNat ++
            b.content.drop (min offset b.totalSize).toNat) ∧
      (ebInsert b offset buf size).2.WF := by
  unfold ebInsert
  have hclamp : (if (b.totalSize : Int) < offset then (b.totalSize : Int) else offset) =
      min offset b.totalSize := by omega
  rw [hclamp]
  by_cases hro : b.readOnly
  · simp [hro, hwf]
  by_cases hrange : min offset (b.totalSize : Int) < 0 ∨ size ≤ 0
  · have hcond : b.readOnly = true ∨ min offset (b.totalSize : Int) < 0 ∨ size ≤ 0 :=
      Or.inr hrange
    rw [if_neg hro, if_pos hrange, if_pos hcond]
    exact ⟨rfl, hwf⟩
  simp only [hro, hrange, if_false, Bool.false_eq_true, false_or]
  obtain ⟨hsame, hwf1⟩ := ebAddlog_frame hwf .insert (min offset b.totalSize) size
  have hoff : (min offset (b.totalSize : Int)).toNat ≤ (ebAddlog b .insert
      (min offset b.totalSize) size).totalSize := by
    rw [hsame.totalSize]
    omega
  obtain ⟨hcontent, hwf2⟩ := ebInsertLowlevel_spec (buf.take size.toNat) hwf1 hoff
  refine ⟨?_, hwf2⟩
  rw [hcontent, EditBuffer.content_eq_flat, EditBuffer.content_eq_flat, hsame.pages]

/-- The end of `eb_write`: once `ws` bytes are overwritten, the rest of `buf`
goes in at `offset + ws`, which is then the end of the buffer. -/
theorem ebWrite_rest (hwf : b.WF) {offset size ws : Int} {buf : List UInt8}
    (hbuf : size ≤ buf.length) (hoff : 0 ≤ offset) (hsize : 0 < size) (hend : offset ≤ b.totalSize)
    (hw : min size ((b.totalSize : Int) - offset) = ws) (bw : EditBuffer) (hbw : bw.WF)
    (hro' : bw.readOnly = false) (htot' : bw.totalSize = b.totalSize)
    (hc : bw.content = b.content.take offset.toNat ++ buf.take ws.toNat ++
      b.content.drop (offset.toNat + ws.toNat)) :
    (if ws < size then (ebInsert bw (offset + ws) (buf.drop ws.toNat) (size - ws)).2
      else bw).content = b.content.take offset.toNat ++ buf.take size.toNat ++
        b.content.drop (offset.toNat + size.toNat) ∧
    (if ws < size then (ebInsert bw (offset + ws) (buf.drop ws.toNat) (size - ws)).2
      else bw).WF := by
  have htot := hwf.total
  have hwsle : ws ≤ size := by omega
  have hwsend : offset + ws ≤ b.totalSize := by omega
  have hadd : (offset + ws).toNat = offset.toNat + ws.toNat := by omega
  split
  · rename_i hlt
    obtain ⟨hc', hwf'⟩ := ebInsert_spec hbw (offset + ws) (buf.drop ws.toNat) (size - ws)
    refine ⟨?_, hwf'⟩
    have hmin : min (offset + ws) (bw.totalSize : Int) = offset + ws := by
      rw [htot']
      exact Int.min_eq_left hwsend
    have hcond : ¬(bw.readOnly = true ∨ min (offset + ws) (bw.totalSize : Int) < 0 ∨
        size - ws ≤ 0) := by simp only [hro', hmin, Bool.false_eq_true, false_or]; omega
    have hlen : (b.content.take offset.toNat ++ buf.take ws.toNat).length = offset.toNat + ws.toNat := by
      simp only [List.length_append, List.length_take]
      rw [← EditBuffer.content_eq_flat] at htot
      omega
    have hnil : b.content.drop (offset.toNat + ws.toNat) = [] :=
      List.drop_eq_nil_of_le (by rw [← EditBuffer.content_eq_flat] at htot; omega)
    have hnil' : b.content.drop (offset.toNat + size.toNat) = [] :=
      List.drop_eq_nil_of_le (by rw [← EditBuffer.content_eq_flat] at htot; omega)
    rw [hc', if_neg hcond, hmin, hc, hnil, hnil', List.append_nil, hadd, ← hlen,
      List.take_length, List.drop_length, List.append_nil, List.append_assoc,
      ← List.take_add, List.append_nil, show ws.toNat + (size - ws).toNat = size.toNat by omega]
  · rename_i hge
    have hsz : ws = size := by omega
    subst hsz
    exact ⟨hc, hbw⟩

/-- `eb_write` puts the first `size` bytes of `buf` at `offset`, over the
bytes there and past the end, and keeps the invariant. -/
theorem ebWrite_spec (hwf : b.WF) (offset : Int) (buf : List UInt8) (size : Int)
    (hbuf : size ≤ buf.length) :
    (ebWrite b offset buf size).2.content =
        (if b.readOnly ∨ offset < 0 ∨ size ≤ 0 ∨ (b.totalSize : Int) < offset then b.content
          else b.content.take offset.toNat ++ buf.take size.toNat ++
            b.content.drop (offset.toNat + size.toNat)) ∧
      (ebWrite b offset buf size).2.WF := by
  unfold ebWrite
  by_cases hro : b.readOnly
  · simp [hro, hwf]
  by_cases hrange : offset < 0 ∨ size ≤ 0 ∨ (b.totalSize : Int) < offset
  · simp [hro, hrange, hwf]
  simp only [hro, hrange, if_false, Bool.false_eq_true, false_or]
  have hws : (if (b.totalSize : Int) - offset < size then (b.totalSize : Int) - offset else size) =
      min size (b.totalSize - offset) := by omega
  rw [hws]
  have htot := hwf.total
  generalize hw : min size ((b.totalSize : Int) - offset) = ws
  by_cases hpos : 0 < ws
  · simp only [hpos, if_true]
    -- the log record, then the overwrite from the page holding the offset
    obtain ⟨hsame, hwf1⟩ := ebAddlog_frame hwf .write offset ws
    generalize ebAddlog b .write offset ws = b1 at hsame hwf1 ⊢
    have hlt : offset.toNat < (flat b1.pages).length := by
      rw [hsame.pages, ← htot]
      omega
    obtain ⟨L, p, R, hpages, hi, hpo, hle, hin⟩ := findPage_split hwf1.cache hlt
    obtain ⟨cp, co, hb3⟩ := findPage_frame b1 offset.toNat
    have hwf3 := findPage_wf hwf1 (show offset.toNat < b1.totalSize by rw [hsame.totalSize]; omega)
    generalize findPage b1 offset.toNat = r at hi hpo hb3 hwf3 ⊢
    obtain ⟨i, po, b3⟩ := r
    dsimp only at hi hpo hb3 hwf3 ⊢
    subst hi hpo hb3
    have htake : b1.pages.take L.length = L := by simp [hpages]
    have hdrop : b1.pages.drop L.length = p :: R := by simp [hpages]
    rw [htake, hdrop]
    have hc : b.content = flat L ++ flat (p :: R) := by
      rw [EditBuffer.content_eq_flat, ← hsame.pages, hpages, flat_append]
    have hlenc : (flat L).length + (flat (p :: R)).length = b.totalSize := by
      rw [htot, ← EditBuffer.content_eq_flat, hc, List.length_append]
    have hpoend : offset.toNat - (flat L).length + ws.toNat ≤ (flat (p :: R)).length := by omega
    have hbufws : ws.toNat ≤ buf.length := by omega
    refine ebWrite_rest hwf hbuf (by omega) (by omega) (by omega) hw _ ?_ ?_ ?_ ?_
    · -- the overwrite keeps the page sizes
      refine hwf3.of_sizes ?_ rfl rfl rfl
      rw [List.map_append, writeLoop_sizes _ _ _ _ (Nat.le_of_lt hin) hbufws, hpages]
      simp
    · simpa [hsame.readOnly] using hro
    · exact hsame.totalSize
    · show flat (L ++ writeLoop (p :: R) _ buf ws.toNat) = _
      have hoff : offset.toNat = (flat L).length + (offset.toNat - (flat L).length) := by omega
      rw [flat_append, flat_writeLoop _ _ _ _ (Nat.le_of_lt hin) hbufws hpoend, hc, hoff,
        List.take_length_add_append, Nat.add_assoc, List.drop_length_add_append,
        Nat.add_sub_cancel_left]
      simp only [List.append_assoc]
  · -- nothing to overwrite: the offset is the end of the buffer
    simp only [hpos, if_false]
    have hws : ws.toNat = 0 := by omega
    refine ebWrite_rest hwf hbuf (by omega) (by omega) (by omega) hw b hwf (by simpa using hro) rfl ?_
    have hend : b.content.length ≤ offset.toNat := by
      rw [← EditBuffer.content_eq_flat] at htot
      omega
    rw [hws, List.take_zero, List.append_nil, Nat.add_zero, List.drop_eq_nil_of_le hend,
      List.take_of_length_le hend, List.append_nil]

end InsertWrite

section InsertBuffer

/-- The loop of `eb_insert_buffer` inserts what `eb_read`'s loop reads from the
same pages, chunk after chunk at the end of the previous one. -/
theorem insertBufferLoop_spec (ps : List Page) (dest : EditBuffer) (d srcOffset size : Nat)
    (hwf : dest.WF) (hd : d ≤ dest.totalSize) :
    (insertBufferLoop dest d ps srcOffset size).content =
        dest.content.take d ++ readLoop ps srcOffset size ++ dest.content.drop d ∧
      (insertBufferLoop dest d ps srcOffset size).WF := by
  induction ps generalizing dest d srcOffset size with
  | nil => simp [insertBufferLoop, readLoop, hwf]
  | cons p ps ih =>
    rw [readLoop_cons]
    rcases Nat.eq_zero_or_pos size with rfl | hpos
    · simp [insertBufferLoop, hwf]
    · -- one chunk goes in at `d`, the rest after it
      simp only [insertBufferLoop, Nat.pos_iff_ne_zero.mp hpos, if_false]
      generalize hlen : min (p.size - srcOffset) size = len
      have hchunk : ((p.data.drop srcOffset).take len).length = len := by
        simp only [List.length_take, List.length_drop]
        simp only [Page.size] at hlen
        omega
      obtain ⟨hc1, hwf1⟩ := ebInsertLowlevel_spec ((p.data.drop srcOffset).take len) hwf hd
      have hd1 : d + len ≤ (ebInsertLowlevel dest d ((p.data.drop srcOffset).take len)).totalSize := by
        rw [hwf1.totalSize_eq, hc1]
        simp only [List.length_append, List.length_take, List.length_drop, hchunk]
        rw [← hwf.totalSize_eq]
        omega
      obtain ⟨hc2, hwf2⟩ := ih _ (d + len) 0 (size - len) hwf1 hd1
      refine ⟨?_, hwf2⟩
      have hdc : (dest.content.take d).length = d := by
        rw [List.length_take, ← hwf.totalSize_eq]
        omega
      have hkeep : (dest.content.take d ++ (p.data.drop srcOffset).take len ++
          dest.content.drop d).take (d + len) =
            dest.content.take d ++ (p.data.drop srcOffset).take len :=
        List.take_left' (by simp only [List.length_append, hdc, hchunk])
      have hrest : (dest.content.take d ++ (p.data.drop srcOffset).take len ++
          dest.content.drop d).drop (d + len) = dest.content.drop d :=
        List.drop_left' (by simp only [List.length_append, hdc, hchunk])
      rw [hc2, hc1, hkeep, hrest]
      simp only [List.append_assoc]

/-- `eb_insert_buffer` inserts the bytes of `src` from `srcOffset`, as many as
asked and as there are, at `destOffset` clamped to the end of `dest`; both
buffers keep the invariant and `src` keeps its bytes. -/
theorem ebInsertBuffer_spec {dest src : EditBuffer} (hd : dest.WF) (hs : src.WF)
    (destOffset srcOffset size : Int) :
    (ebInsertBuffer dest destOffset src srcOffset size).2.1.content =
        (if dest.readOnly ∨ destOffset < 0 ∨ srcOffset < 0 ∨ (src.totalSize : Int) ≤ srcOffset ∨
            min size (src.totalSize - srcOffset) ≤ 0 then dest.content
          else dest.content.take (min destOffset dest.totalSize).toNat ++
            (src.content.drop srcOffset.toNat).take (min size (src.totalSize - srcOffset)).toNat ++
            dest.content.drop (min destOffset dest.totalSize).toNat) ∧
      (ebInsertBuffer dest destOffset src srcOffset size).2.1.WF ∧
      (ebInsertBuffer dest destOffset src srcOffset size).2.2.WF ∧
      (ebInsertBuffer dest destOffset src srcOffset size).2.2.content = src.content := by
  unfold ebInsertBuffer
  have hclip : (if (src.totalSize : Int) < srcOffset + size then (src.totalSize : Int) - srcOffset
      else size) = min size (src.totalSize - srcOffset) := by omega
  have hclamp : (if (dest.totalSize : Int) < destOffset then (dest.totalSize : Int)
      else destOffset) = min destOffset dest.totalSize := by omega
  rw [hclip, hclamp]
  by_cases hro : dest.readOnly
  · simp [hro, hd, hs]
  by_cases hrange : destOffset < 0 ∨ srcOffset < 0 ∨ (src.totalSize : Int) ≤ srcOffset
  · have hcond : dest.readOnly = true ∨ destOffset < 0 ∨ srcOffset < 0 ∨
        (src.totalSize : Int) ≤ srcOffset ∨ min size ((src.totalSize : Int) - srcOffset) ≤ 0 := by
      omega
    rw [if_neg hro, if_pos hrange, if_pos hcond]
    exact ⟨rfl, hd, hs, rfl⟩
  by_cases hsize : min size ((src.totalSize : Int) - srcOffset) ≤ 0
  · have hcond : dest.readOnly = true ∨ destOffset < 0 ∨ srcOffset < 0 ∨
        (src.totalSize : Int) ≤ srcOffset ∨ min size ((src.totalSize : Int) - srcOffset) ≤ 0 := by
      omega
    rw [if_neg hro, if_neg hrange, if_pos hcond]
    dsimp only
    rw [if_pos hsize]
    exact ⟨rfl, hd, hs, rfl⟩
  have hcond : ¬(dest.readOnly = true ∨ destOffset < 0 ∨ srcOffset < 0 ∨
      (src.totalSize : Int) ≤ srcOffset ∨ min size ((src.totalSize : Int) - srcOffset) ≤ 0) := by
    rintro (h | h | h | h | h)
    · exact hro h
    · exact hrange (Or.inl h)
    · exact hrange (Or.inr (Or.inl h))
    · exact hrange (Or.inr (Or.inr h))
    · exact hsize h
  rw [if_neg hcond]
  simp only [hro, hrange, hsize, if_false, Bool.false_eq_true]
  -- the source side: the pages from the one holding `srcOffset`
  have hlt : srcOffset.toNat < (flat src.pages).length := by
    rw [← hs.total]
    omega
  obtain ⟨hfirst, hdrop⟩ := findPage_drop hs.cache hlt
  obtain ⟨cp, co, hsrc⟩ := findPage_frame src srcOffset.toNat
  have hswf := findPage_wf hs (show srcOffset.toNat < src.totalSize by omega)
  -- the destination side: the log record changes no byte
  obtain ⟨hsame, hwf1⟩ := ebAddlog_frame hd .insert (min destOffset dest.totalSize)
    (min size (src.totalSize - srcOffset))
  have hd1 : (min destOffset (dest.totalSize : Int)).toNat ≤ (ebAddlog dest .insert
      (min destOffset dest.totalSize) (min size (src.totalSize - srcOffset))).totalSize := by
    rw [hsame.totalSize]
    omega
  obtain ⟨hc, hwf2⟩ := insertBufferLoop_spec ((findPage src srcOffset.toNat).2.2.pages.drop
    (findPage src srcOffset.toNat).1) _ _ (findPage src srcOffset.toNat).2.1
    (min size (src.totalSize - srcOffset)).toNat hwf1 hd1
  have hpages : (findPage src srcOffset.toNat).2.2.pages = src.pages := by rw [hsrc]
  refine ⟨?_, hwf2, hswf, by rw [hsrc]; rfl⟩
  rw [hc, hpages, readLoop_eq _ _ _ hfirst, hdrop, EditBuffer.content_eq_flat,
    EditBuffer.content_eq_flat, EditBuffer.content_eq_flat, hsame.pages]

end InsertBuffer

end Qemacs
