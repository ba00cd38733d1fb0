import Qemacs.Buffer.Refinement

/-!
# Undo and redo: `do_undo` and `do_redo`

`do_undo` (buffer.c) walks the log backward from `log_current`, replays the
inverse of one record, and appends that inverse as a new record through
`eb_addlog`, so that a chain of undos can itself be undone. `do_redo` pops the
last record, the inverse appended by the last undo, and replays it, with the
log off; `log_current` moves forward over the record that undo had taken back.

Positions in the log are byte offsets in the C log buffer; with the log kept as
its records (`LogRecord.length` bytes each), a position is found by the record
that starts or ends there. A record's saved bytes are copied back by
`eb_insert_buffer` from the log buffer, a raw buffer.

The replay of a write record is not its own inverse: the record written by
undo's `eb_addlog` saves the bytes as they are after the restore, not the bytes
the undo overwrote (`undo_redo_write_restores_old`).
-/

namespace Qemacs

/-- What an undo or a redo reports. -/
inductive UndoStatus where
  /-- The record was replayed; the cursor goes to this offset (`s->offset`). -/
  | done (offset : Int)
  /-- `put_error`, with the buffer as left. -/
  | error (msg : String)
  /-- `abort()`: a record with operation `LOGOP_FREE`. -/
  | abort
  /-- A log position that is no record boundary, where the C would read bytes of
  another record as a header; the log functions never leave one. -/
  | noRecord
deriving DecidableEq, Repr

/-- Each record of the log with the byte offset of its header, the first at `pos`. -/
def logStarts : List LogRecord → Int → List (Int × LogRecord)
  | [], _ => []
  | r :: rs, pos => (pos, r) :: logStarts rs (pos + r.length)

/-- The record whose header is at `index`. -/
def recordAt (log : List LogRecord) (index : Int) : Option LogRecord :=
  ((logStarts log 0).find? fun e => e.1 = index).map Prod.snd

/-- The record whose trailer ends at `index`, and the offset of its header:
what reading the `size_trailer` before `index` and going back over the record
finds. -/
def recordBefore (log : List LogRecord) (index : Int) : Option (Int × LogRecord) :=
  (logStarts log 0).find? fun e => e.1 + e.2.length = index

/-- `eb_delete(b->log_buffer, index, b->log_new_index - index)` at a record
boundary: the records from `index` on go. -/
def truncateLog (log : List LogRecord) (index : Int) : List LogRecord :=
  ((logStarts log 0).filter fun e => e.1 < index).map Prod.snd

/-- `x & ~mask`. -/
def clearBits (x mask : Nat) : Nat := x - (x &&& mask)

/-- The log buffer as `eb_insert_buffer` reads it to put a record's bytes back:
a raw buffer whose bytes from the read position are the saved ones. -/
def logSource (lb : LogRecord) : EditBuffer :=
  { EditBuffer.empty charset_raw .unix with
    pages := newPages ((lb.data.length + MAX_PAGE_SIZE - 1) / MAX_PAGE_SIZE) lb.data
    totalSize := lb.data.length }

/-- `eb_insert_buffer(b, lb.offset, b->log_buffer, log_index, lb.size)`. -/
def insertFromLog (b : EditBuffer) (lb : LogRecord) : EditBuffer :=
  (ebInsertBuffer b lb.offset (logSource lb) 0 lb.size).2.1

/-- The `switch (lb.op)` of `do_undo`: the inverse of the record, and the
offset the cursor goes to; `none` where the C aborts. -/
def undoPlay (b : EditBuffer) (lb : LogRecord) : Option (EditBuffer × Int) :=
  match lb.op with
  | .write =>
    -- we must disable the log because we want to record a single write
    let b := { b with saveLog := b.saveLog ||| 2 }
    let b := (ebDelete b lb.offset lb.size).2
    let b := insertFromLog b lb
    let b := { b with saveLog := clearBits b.saveLog 2 }
    some (ebAddlog b .write lb.offset lb.size, lb.offset + lb.size)
  | .delete =>
    -- the log buffer would be modified before we insert it by the implicit eb_addlog
    let b := { b with saveLog := b.saveLog ||| 2 }
    let b := insertFromLog b lb
    let b := { b with saveLog := clearBits b.saveLog 2 }
    some (ebAddlog b .insert lb.offset lb.size, lb.offset + lb.size)
  | .insert => some ((ebDelete b lb.offset lb.size).2, lb.offset)
  | .free => none

/-- `do_undo`. `lastUndoRedo` says whether the previous command was an undo or
a redo (`qs->last_cmd_func`). -/
def doUndo (b : EditBuffer) (lastUndoRedo : Bool) : EditBuffer × UndoStatus :=
  match b.logBuffer with
  | none => (b, .error "No undo information")
  | some log =>
    -- Should actually keep undo state current until new logs are added
    let b := if lastUndoRedo then b else { b with logCurrent := 0 }
    let logIndex := if b.logCurrent = 0 then b.logNewIndex else b.logCurrent - 1
    if logIndex = 0 then (b, .error "No further undo information")
    else
      match recordBefore log logIndex with
      | none => (b, .noRecord)
      | some (start, lb) =>
        -- log_current is 1 + index to have zero as default value
        let b := { b with logCurrent := start + 1, lastLog := .free }
        match undoPlay b lb with
        | none => (b, .abort)
        | some (b, offset) => ({ b with modified := lb.wasModified }, .done offset)

/-- The `switch (lb.op)` of `do_redo`: the record replayed with the log off. -/
def redoPlay (b : EditBuffer) (lb : LogRecord) : Option (EditBuffer × Int) :=
  match lb.op with
  | .write =>
    let b := { b with saveLog := b.saveLog ||| 2 }
    let b := (ebDelete b lb.offset lb.size).2
    let b := insertFromLog b lb
    let b := { b with saveLog := clearBits b.saveLog 3 }
    let b := ebAddlog b .write lb.offset lb.size
    some ({ b with saveLog := b.saveLog ||| 1 }, lb.offset + lb.size)
  | .delete =>
    let b := { b with saveLog := b.saveLog ||| 2 }
    let b := insertFromLog b lb
    let b := { b with saveLog := clearBits b.saveLog 3 }
    let b := ebAddlog b .insert lb.offset lb.size
    some ({ b with saveLog := b.saveLog ||| 1 }, lb.offset + lb.size)
  | .insert =>
    let b := { b with saveLog := clearBits b.saveLog 1 }
    let b := (ebDelete b lb.offset lb.size).2
    some ({ b with saveLog := b.saveLog ||| 1 }, lb.offset)
  | .free => none

/-- `do_redo`. -/
def doRedo (b : EditBuffer) (lastUndoRedo : Bool) : EditBuffer × UndoStatus :=
  match b.logBuffer with
  | none => (b, .error "No undo information")
  | some log =>
    let b := if lastUndoRedo then b else { b with logCurrent := 0 }
    if b.logCurrent = 0 ∨ b.logNewIndex = 0 then (b, .error "Nothing to redo")
    else
      -- go forward in undo stack, then backward from the end to the undo record
      match recordAt log (b.logCurrent - 1), recordBefore log b.logNewIndex with
      | some cur, some (start, lb) =>
        let next := b.logCurrent - 1 + sizeofLogBuffer +
          (if cur.op ≠ .insert then cur.size else 0) + sizeofInt
        let b := { b with logCurrent := next + 1 }
        match redoPlay b lb with
        | none => (b, .abort)
        | some (b, offset) =>
          let b := { b with modified := lb.wasModified }
          -- remove the undo record
          let b := { b with logBuffer := some (truncateLog (b.logBuffer.getD []) start),
                            logNewIndex := start }
          -- redone everything
          let b := if start + 1 ≤ b.logCurrent then { b with logCurrent := 0 } else b
          (b, .done offset)
      | _, _ => (b, .noRecord)

unseal lineScan deleteLoop shiftLoop in
/-- A single write of `X` over `Y`, undone and then redone, leaves `Y`. -/
theorem undo_redo_write_restores_old :
    (ebWrite (ebMmapBuffer (EditBuffer.empty charset_raw .unix) [89]) 0 [88] 1).2.content =
        [88] ∧
      (doUndo (ebWrite (ebMmapBuffer (EditBuffer.empty charset_raw .unix) [89]) 0 [88] 1).2
        false).1.content = [89] ∧
      (doRedo (doUndo (ebWrite (ebMmapBuffer (EditBuffer.empty charset_raw .unix) [89]) 0 [88]
        1).2 false).1 true).1.content = [89] := by
  decide

end Qemacs
