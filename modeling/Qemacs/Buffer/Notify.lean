import Qemacs.Buffer.Undo

/-!
# What the edition functions notify

`eb_addlog` calls each callback of the buffer with the operation, the offset
and the size of a change, before the change is made, and returns at once while
the callbacks are off (`save_log & 2`, which the replays of `do_undo` and
`do_redo` set). The model keeps the notifications sent in `events`.

`Sends b b' es` says that `b'` is `b` after the notifications `es`, with the
same flags. `find_page`, `eb_read`, the log and `eb_insert_lowlevel` send
nothing; each edition function sends one notification per call of
`eb_addlog`, with its arguments as clipped at the time of the call.
-/

namespace Qemacs

namespace EditBuffer

/-- What `eb_addlog` sends for `e`: nothing while the callbacks are off. -/
def notify (b : EditBuffer) (e : EditEvent) : List EditEvent :=
  if b.saveLog &&& 2 ≠ 0 then [] else [e]

/-- `b'` is `b` after the notifications `es`, with the same flags. -/
structure Sends (b b' : EditBuffer) (es : List EditEvent) : Prop where
  events : b'.events = b.events ++ es
  readOnly : b'.readOnly = b.readOnly
  saveLog : b'.saveLog = b.saveLog

variable {b b₁ b₂ : EditBuffer} {es es' : List EditEvent}

/-- A change that keeps the notifications and the flags sends nothing. -/
theorem Sends.quiet (hev : b₁.events = b.events) (hro : b₁.readOnly = b.readOnly)
    (hsl : b₁.saveLog = b.saveLog) : b.Sends b₁ [] :=
  ⟨by rw [hev, List.append_nil], hro, hsl⟩

theorem Sends.trans (h : b.Sends b₁ es) (h' : b₁.Sends b₂ es') : b.Sends b₂ (es ++ es') :=
  ⟨by rw [h'.events, h.events, List.append_assoc], h'.readOnly.trans h.readOnly,
    h'.saveLog.trans h.saveLog⟩

theorem Sends.trans_quiet (h : b.Sends b₁ es) (h' : b₁.Sends b₂ []) : b.Sends b₂ es := by
  simpa using h.trans h'

theorem Sends.quiet_trans (h : b.Sends b₁ []) (h' : b₁.Sends b₂ es) : b.Sends b₂ es := by
  simpa using h.trans h'

/-- Buffers with the same flags send the same notifications. -/
theorem Sends.notify_eq (h : b.Sends b₁ es) : b₁.notify = b.notify := by
  funext e
  simp only [notify, h.saveLog]

theorem notify_of_on (h : b.saveLog &&& 2 = 0) (e : EditEvent) : b.notify e = [e] := by
  simp [notify, h]

theorem notify_of_off (h : b.saveLog &&& 2 ≠ 0) (e : EditEvent) : b.notify e = [] := by
  simp [notify, h]

end EditBuffer

open EditBuffer

/-! ## What sends nothing -/

section Quiet

variable (b : EditBuffer)

theorem ebRead_sends (offset size : Int) : b.Sends (ebRead b offset size).2.2 [] := by
  unfold ebRead
  split
  · exact .quiet rfl rfl rfl
  · simp only [findPage_eq]
    exact .quiet rfl rfl rfl

theorem logOpen_sends : b.Sends (logOpen b) [] := by
  unfold logOpen
  split <;> exact .quiet rfl rfl rfl

theorem logEvict_sends : b.Sends (logEvict b) [] := by
  unfold logEvict
  split <;> exact .quiet rfl rfl rfl

theorem logAddRecord_sends (op : LogOperation) (offset size : Int) (wasModified : Bool)
    (log : List LogRecord) : b.Sends (logAddRecord b op offset size wasModified log) [] := by
  unfold logAddRecord
  -- the bytes saved for a deletion or a write are read, which moves the cache
  cases op with
  | delete | write =>
    dsimp only
    exact .quiet ((ebRead_sends _ _ _).events.trans (List.append_nil _))
      (ebRead_sends _ _ _).readOnly (ebRead_sends _ _ _).saveLog
  | free | insert => exact .quiet rfl rfl rfl

theorem logAppend_sends (op : LogOperation) (offset size : Int) (wasModified : Bool) :
    b.Sends (logAppend b op offset size wasModified) [] := by
  unfold logAppend
  dsimp only
  split
  · split
    · exact .quiet rfl rfl rfl
    · exact logAddRecord_sends b _ _ _ _ _
  · exact logAddRecord_sends b _ _ _ _ _

theorem ebInsertLowlevel_sends (offset : Nat) (buf : List UInt8) :
    b.Sends (ebInsertLowlevel b offset buf) [] := by
  unfold ebInsertLowlevel
  split
  · simp only [findPage_eq]
    split <;> exact .quiet rfl rfl rfl
  · exact .quiet rfl rfl rfl

theorem insertBufferLoop_sends (d : Nat) (ps : List Page) (srcOffset size : Nat) :
    b.Sends (insertBufferLoop b d ps srcOffset size) [] := by
  induction ps generalizing b d srcOffset size with
  | nil => exact .quiet rfl rfl rfl
  | cons p ps ih =>
    unfold insertBufferLoop
    split
    · exact .quiet rfl rfl rfl
    · exact (ebInsertLowlevel_sends b d _).trans_quiet (ih _ _ _ _)

end Quiet

/-! ## `eb_addlog` and the edition functions -/

section Notify

variable (b : EditBuffer)

/-- `eb_addlog` sends its change, unless the callbacks are off. -/
theorem ebAddlog_sends (op : LogOperation) (offset size : Int) :
    b.Sends (ebAddlog b op offset size) (b.notify ⟨op, offset, size⟩) := by
  unfold ebAddlog notify
  split
  · exact .quiet rfl rfl rfl
  · have h1 : b.Sends { b with events := b.events ++ [⟨op, offset, size⟩], modified := true }
        [⟨op, offset, size⟩] := ⟨rfl, rfl, rfl⟩
    dsimp only
    split
    · exact h1
    · generalize ({ b with events := b.events ++ [⟨op, offset, size⟩], modified := true } :
        EditBuffer) = b1 at h1 ⊢
      refine h1.trans_quiet ((logOpen_sends b1).quiet_trans ?_)
      -- the oldest record may be evicted first
      have h2 : (logOpen b1).Sends (if NB_LOGS_MAX - 1 ≤ (logOpen b1).nbLogs then
          logEvict (logOpen b1) else logOpen b1) [] := by
        split
        · exact logEvict_sends _
        · exact .quiet rfl rfl rfl
      exact h2.quiet_trans (logAppend_sends _ _ _ _ _)

/-- `eb_insert` sends the insertion at the offset clamped to the end. -/
theorem ebInsert_sends (offset : Int) (buf : List UInt8) (size : Int) :
    b.Sends (ebInsert b offset buf size).2
      (if b.readOnly ∨ min offset b.totalSize < 0 ∨ size ≤ 0 then []
        else b.notify ⟨.insert, min offset b.totalSize, size⟩) := by
  unfold ebInsert
  have hclamp : (if (b.totalSize : Int) < offset then (b.totalSize : Int) else offset) =
      min offset b.totalSize := by omega
  rw [hclamp]
  by_cases hro : b.readOnly
  · simp only [hro, if_true, true_or]
    exact .quiet rfl rfl rfl
  by_cases hrange : min offset (b.totalSize : Int) < 0 ∨ size ≤ 0
  · simp only [hro, hrange, Bool.false_eq_true, false_or, if_false, if_true]
    exact .quiet rfl rfl rfl
  · simp only [hro, hrange, Bool.false_eq_true, false_or, if_false]
    exact (ebAddlog_sends b _ _ _).trans_quiet (ebInsertLowlevel_sends _ _ _)

/-- `eb_delete` sends the deletion of the bytes there are. -/
theorem ebDelete_sends (offset size : Int) :
    b.Sends (ebDelete b offset size).2
      (if b.readOnly ∨ offset < 0 ∨ (b.totalSize : Int) ≤ offset ∨ size ≤ 0 then []
        else b.notify ⟨.delete, offset, min size (b.totalSize - offset)⟩) := by
  unfold ebDelete
  by_cases hro : b.readOnly
  · simp only [hro, if_true, true_or]
    exact .quiet rfl rfl rfl
  by_cases hrange : offset < 0 ∨ (b.totalSize : Int) ≤ offset ∨ size ≤ 0
  · simp only [hro, hrange, Bool.false_eq_true, false_or, if_false, if_true]
    exact .quiet rfl rfl rfl
  simp only [hro, hrange, Bool.false_eq_true, false_or, if_false]
  have hsz : (if (b.totalSize : Int) - offset < size then (b.totalSize : Int) - offset else size) =
      min size (b.totalSize - offset) := by omega
  rw [hsz]
  have h1 := ebAddlog_sends b .delete offset (min size (b.totalSize - offset))
  generalize ebAddlog b .delete offset (min size (b.totalSize - offset)) = b1 at h1 ⊢
  -- `find_page`, the loop and the removal of the pages emptied change no flag
  simp only [findPage_eq]
  split <;> exact h1.trans_quiet (.quiet rfl rfl rfl)

/-- `eb_insert_buffer` sends the insertion of the bytes there are, at the
offset clamped to the end. -/
theorem ebInsertBuffer_sends (destOffset : Int) (src : EditBuffer) (srcOffset size : Int) :
    b.Sends (ebInsertBuffer b destOffset src srcOffset size).2.1
      (if b.readOnly ∨ destOffset < 0 ∨ srcOffset < 0 ∨ (src.totalSize : Int) ≤ srcOffset ∨
          min size (src.totalSize - srcOffset) ≤ 0 then []
        else b.notify ⟨.insert, min destOffset b.totalSize, min size (src.totalSize - srcOffset)⟩) := by
  unfold ebInsertBuffer
  have hclip : (if (src.totalSize : Int) < srcOffset + size then (src.totalSize : Int) - srcOffset
      else size) = min size (src.totalSize - srcOffset) := by omega
  have hclamp : (if (b.totalSize : Int) < destOffset then (b.totalSize : Int)
      else destOffset) = min destOffset b.totalSize := by omega
  rw [hclip, hclamp]
  by_cases hro : b.readOnly
  · simp only [hro, if_true, true_or]
    exact .quiet rfl rfl rfl
  by_cases hrange : destOffset < 0 ∨ srcOffset < 0 ∨ (src.totalSize : Int) ≤ srcOffset
  · have hcond : b.readOnly = true ∨ destOffset < 0 ∨ srcOffset < 0 ∨
        (src.totalSize : Int) ≤ srcOffset ∨ min size ((src.totalSize : Int) - srcOffset) ≤ 0 := by
      omega
    rw [if_neg hro, if_pos hrange, if_pos hcond]
    exact .quiet rfl rfl rfl
  by_cases hsize : min size ((src.totalSize : Int) - srcOffset) ≤ 0
  · simp only [hro, hrange, hsize, Bool.false_eq_true, if_false, if_true, or_true]
    exact .quiet rfl rfl rfl
  have hcond : ¬(b.readOnly = true ∨ destOffset < 0 ∨ srcOffset < 0 ∨
      (src.totalSize : Int) ≤ srcOffset ∨ min size ((src.totalSize : Int) - srcOffset) ≤ 0) := by
    simp only [hro, Bool.false_eq_true, false_or]
    omega
  rw [if_neg hro, if_neg hrange, if_neg hsize, if_neg hcond]
  simp only [findPage_eq]
  exact (ebAddlog_sends b _ _ _).trans_quiet (insertBufferLoop_sends _ _ _ _ _)

/-- An insertion at an offset of the text sends itself. -/
theorem ebInsert_sends_of_le (offset : Int) (buf : List UInt8) (size : Int)
    (hro : b.readOnly = false) (h0 : 0 ≤ offset) (hle : offset ≤ b.totalSize) (hs : 0 < size) :
    b.Sends (ebInsert b offset buf size).2 (b.notify ⟨.insert, offset, size⟩) := by
  have h := ebInsert_sends b offset buf size
  have hcond : ¬(b.readOnly = true ∨ offset < 0 ∨ size ≤ 0) := by
    simp only [hro, Bool.false_eq_true, false_or]
    omega
  rwa [Int.min_eq_left hle, if_neg hcond] at h

/-- The end of `eb_write`: the bytes past the end go in as an insertion at the
end. -/
theorem ebWrite_rest_sends {b₁ : EditBuffer} {es : List EditEvent} (h1 : b.Sends b₁ es)
    (ht : b₁.totalSize = b.totalSize) (hro : b.readOnly = false) (buf : List UInt8)
    {offset ws size : Int} (h0 : 0 ≤ offset) (hws : 0 ≤ ws) (hend : offset + ws ≤ b.totalSize) :
    b.Sends (if ws < size then (ebInsert b₁ (offset + ws) (buf.drop ws.toNat) (size - ws)).2 else b₁)
      (es ++ if ws < size then b.notify ⟨.insert, offset + ws, size - ws⟩ else []) := by
  split
  · have h2 := ebInsert_sends_of_le b₁ (offset + ws) (buf.drop ws.toNat) (size - ws)
      (h1.readOnly.trans hro) (by omega) (by omega) (by omega)
    rw [h1.notify_eq] at h2
    exact h1.trans h2
  · simpa using h1

/-- `eb_write` sends the write of the bytes there are, then the insertion of the
rest at the end. -/
theorem ebWrite_sends (hwf : b.WF) (offset : Int) (buf : List UInt8) (size : Int) :
    b.Sends (ebWrite b offset buf size).2
      (if b.readOnly ∨ offset < 0 ∨ size ≤ 0 ∨ (b.totalSize : Int) < offset then []
        else (if 0 < min size (b.totalSize - offset) then
            b.notify ⟨.write, offset, min size (b.totalSize - offset)⟩ else []) ++
          (if min size (b.totalSize - offset) < size then
            b.notify ⟨.insert, offset + min size (b.totalSize - offset),
              size - min size (b.totalSize - offset)⟩ else [])) := by
  unfold ebWrite
  by_cases hro : b.readOnly
  · simp only [hro, if_true, true_or]
    exact .quiet rfl rfl rfl
  by_cases hrange : offset < 0 ∨ size ≤ 0 ∨ (b.totalSize : Int) < offset
  · simp only [hro, hrange, Bool.false_eq_true, false_or, if_false, if_true]
    exact .quiet rfl rfl rfl
  have hcond : ¬(b.readOnly = true ∨ offset < 0 ∨ size ≤ 0 ∨ (b.totalSize : Int) < offset) := by
    simp only [hro, Bool.false_eq_true, false_or]
    exact hrange
  rw [if_neg hro, if_neg hrange, if_neg hcond]
  have hws : (if (b.totalSize : Int) - offset < size then (b.totalSize : Int) - offset else size) =
      min size (b.totalSize - offset) := by omega
  dsimp only
  rw [hws]
  have hend : offset + min size ((b.totalSize : Int) - offset) ≤ b.totalSize := by omega
  have hws0 : 0 ≤ min size ((b.totalSize : Int) - offset) := by omega
  generalize min size ((b.totalSize : Int) - offset) = ws at hend hws0 ⊢
  have hro' : b.readOnly = false := by simpa using hro
  by_cases hpos : 0 < ws
  · -- the overwritten bytes: one write, and the size kept
    simp only [hpos, if_true, findPage_eq]
    have h1 := ebAddlog_sends b .write offset ws
    have ht1 := (ebAddlog_frame hwf .write offset ws).1.totalSize
    generalize ebAddlog b .write offset ws = b₁ at h1 ht1 ⊢
    refine ebWrite_rest_sends b ?_ ?_ hro' buf (by omega) (by omega) hend
    · exact h1.trans_quiet (.quiet rfl rfl rfl)
    · exact ht1
  · simp only [hpos, if_false]
    exact ebWrite_rest_sends b (.quiet rfl rfl rfl) rfl hro' buf (by omega) hws0 hend

/-- With the callbacks off, `eb_delete` sends nothing. -/
theorem ebDelete_sends_off (hoff : b.saveLog &&& 2 ≠ 0) (offset size : Int) :
    b.Sends (ebDelete b offset size).2 [] := by
  have h := ebDelete_sends b offset size
  rwa [notify_of_off hoff, ite_self] at h

/-- With the callbacks off, putting back the bytes of a record sends nothing. -/
theorem insertFromLog_sends_off (hoff : b.saveLog &&& 2 ≠ 0) (lb : LogRecord) :
    b.Sends (insertFromLog b lb) [] := by
  have h := ebInsertBuffer_sends b lb.offset (logSource lb) 0 lb.size
  rwa [notify_of_off hoff, ite_self] at h

end Notify

/-! ## The callback bit of `save_log` -/

section Bits

theorem and_two_eq (x : Nat) : x &&& 2 = x % 4 / 2 * 2 := by
  have h3 : x &&& 2 = x % 4 &&& 2 := by
    rw [← Nat.and_two_pow_sub_one_eq_mod x 2, Nat.and_assoc]
    rfl
  have hlt : x % 4 < 4 := Nat.mod_lt _ (by decide)
  rw [h3]
  generalize x % 4 = y at hlt ⊢
  rcases (by omega : y = 0 ∨ y = 1 ∨ y = 2 ∨ y = 3) with rfl | rfl | rfl | rfl <;> rfl

/-- `save_log |= 2` turns the callbacks off. -/
theorem or_two_off (x : Nat) : (x ||| 2) &&& 2 ≠ 0 := by
  rw [Nat.and_or_distrib_right, and_two_eq]
  rcases (by omega : x % 4 / 2 * 2 = 0 ∨ x % 4 / 2 * 2 = 2) with h | h <;> rw [h] <;> decide

/-- `save_log &= ~2` turns them on. -/
theorem clearBits_two_on (x : Nat) : clearBits x 2 &&& 2 = 0 := by
  unfold clearBits
  rw [and_two_eq, and_two_eq]
  omega

/-- So does `save_log &= ~3`. -/
theorem clearBits_three_on (x : Nat) : clearBits x 3 &&& 2 = 0 := by
  unfold clearBits
  rw [and_two_eq, Nat.and_two_pow_sub_one_eq_mod x 2]
  omega

/-- The log bit leaves the callbacks as they are. -/
theorem or_one_and_two (x : Nat) : (x ||| 1) &&& 2 = x &&& 2 := by
  rw [Nat.and_or_distrib_right]
  simp

theorem clearBits_one_and_two (x : Nat) : clearBits x 1 &&& 2 = x &&& 2 := by
  unfold clearBits
  rw [and_two_eq, and_two_eq, Nat.and_one_is_mod]
  omega

end Bits

end Qemacs
