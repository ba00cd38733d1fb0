import Qemacs.Buffer.Access

/-!
# The undo log: `eb_addlog`

`eb_addlog` (buffer.c) runs before every change of a buffer. Unless the undo
code has suspended it (bit 2 of `save_log`), it notifies the callbacks, marks
the buffer modified and, when logging is on, appends an undo record: the
operation, the offset, the size, whether the buffer was modified before, and
for a deletion or a write the bytes about to be lost. An insertion that
continues the last insertion record is merged into it instead.

The log buffer is kept as its list of records. In the C it holds, per record,
a `LogBuffer` header, the saved bytes and an `int` trailer with their count;
`log_new_index` and `log_current` are byte offsets in it and are kept as such.

`eb_addlog` changes neither the pages nor `total_size`; reading the saved bytes
moves the page cache, soundly (`ebAddlog_frame`).
-/

namespace Qemacs

/-- `sizeof(LogBuffer)`. -/
def sizeofLogBuffer : Int := 12

/-- `sizeof(int)`. -/
def sizeofInt : Int := 4

/-- The `size_trailer` written after a record: the count of saved bytes. -/
def LogRecord.trailer (r : LogRecord) : Int :=
  match r.op with
  | .delete | .write => r.size
  | _ => 0

/-- The bytes a record takes in the log buffer. -/
def LogRecord.length (r : LogRecord) : Int := sizeofLogBuffer + r.trailer + sizeofInt

/-- The bytes a run of records takes: `log_new_index` after it. -/
def logLength (log : List LogRecord) : Int := (log.map LogRecord.length).sum

/-- Dropping the oldest record when `nb_logs` reaches `NB_LOGS_MAX - 1`; the
length removed is read from its header. -/
def logEvict (b : EditBuffer) : EditBuffer :=
  match b.logBuffer with
  | some (r :: rest) =>
    let len := (if r.op = .insert then 0 else r.size) + sizeofLogBuffer + sizeofInt
    { b with
      logBuffer := some rest
      logNewIndex := b.logNewIndex - len
      logCurrent := if 1 < b.logCurrent then b.logCurrent - len else b.logCurrent
      nbLogs := b.nbLogs - 1 }
  | _ => b

/-- The coalescing test of `eb_addlog` on the last record of the log: an
insertion record (trailer 0) that ends where the new insertion starts. -/
def canCoalesce (logNewIndex : Int) (last : LogRecord) (offset : Int) : Bool :=
  decide (sizeofLogBuffer + sizeofInt ≤ logNewIndex) && decide (last.trailer = 0) &&
    decide (last.op = .insert) && decide (last.offset + last.size = offset)

/-- The log buffer is created on first use, with its indices reset. -/
def logOpen (b : EditBuffer) : EditBuffer :=
  match b.logBuffer with
  | some _ => b
  | none =>
    { b with logBuffer := some [], logNewIndex := 0, logCurrent := 0, lastLog := .free,
             nbLogs := 0 }

/-- A new record at the end of the log. The bytes of a deletion or a write are
copied by `eb_insert_buffer` from the buffer itself, which reads them as
`eb_read` does. -/
def logAddRecord (b : EditBuffer) (op : LogOperation) (offset size : Int) (wasModified : Bool)
    (log : List LogRecord) : EditBuffer :=
  let b := { b with lastLog := op }
  let (data, b) := match op with
    | .delete | .write => let r := ebRead b offset size; (r.2.1, r.2.2)
    | _ => ([], b)
  let r : LogRecord := { op, offset, size, wasModified, data }
  { b with logBuffer := some (log ++ [r]), logNewIndex := b.logNewIndex + r.length,
           nbLogs := b.nbLogs + 1 }

/-- The record of an operation: merged into the last insertion record when it
continues it, a new record otherwise. -/
def logAppend (b : EditBuffer) (op : LogOperation) (offset size : Int) (wasModified : Bool) :
    EditBuffer :=
  let log := b.logBuffer.getD []
  match log.getLast? with
  | some last =>
    if op = .insert ∧ b.lastLog = .insert ∧ canCoalesce b.logNewIndex last offset then
      { b with logBuffer := some (log.dropLast ++ [{ last with size := last.size + size }]) }
    else logAddRecord b op offset size wasModified log
  | none => logAddRecord b op offset size wasModified log

/-- `eb_addlog`. -/
def ebAddlog (b : EditBuffer) (op : LogOperation) (offset size : Int) : EditBuffer :=
  -- callbacks and logging disabled for composite undo phase
  if b.saveLog &&& 2 ≠ 0 then b
  else
    let wasModified := b.modified
    let b := { b with events := b.events ++ [⟨op, offset, size⟩], modified := true }
    if b.saveLog = 0 then b
    else
      let b := logOpen b
      let b := if NB_LOGS_MAX - 1 ≤ b.nbLogs then logEvict b else b
      logAppend b op offset size wasModified

/-! ## What `eb_addlog` leaves alone -/

section Frame

variable {b : EditBuffer}

theorem logEvict_frame (hwf : b.WF) : b.SamePages (logEvict b) ∧ (logEvict b).WF := by
  unfold logEvict
  split
  · exact ⟨⟨rfl, rfl, rfl, rfl⟩, hwf.of_samePages ⟨rfl, rfl, rfl, rfl⟩ hwf.cache⟩
  · exact ⟨.refl b, hwf⟩

theorem logOpen_frame (hwf : b.WF) : b.SamePages (logOpen b) ∧ (logOpen b).WF := by
  unfold logOpen
  split
  · exact ⟨.refl b, hwf⟩
  · exact ⟨⟨rfl, rfl, rfl, rfl⟩, hwf.of_samePages ⟨rfl, rfl, rfl, rfl⟩ hwf.cache⟩

theorem logAddRecord_frame (hwf : b.WF) (op : LogOperation) (offset size : Int)
    (wasModified : Bool) (log : List LogRecord) :
    b.SamePages (logAddRecord b op offset size wasModified log) ∧
      (logAddRecord b op offset size wasModified log).WF := by
  have hwf' : ({ b with lastLog := op } : EditBuffer).WF :=
    hwf.of_samePages ⟨rfl, rfl, rfl, rfl⟩ hwf.cache
  unfold logAddRecord
  -- only the bytes saved for a deletion or a write are read, which moves the cache
  cases op with
  | delete | write =>
    obtain ⟨⟨cp, co, hr⟩, hrwf⟩ := ebRead_frame hwf' offset size
    dsimp only
    rw [hr] at hrwf ⊢
    exact ⟨⟨rfl, rfl, rfl, rfl⟩, hrwf.of_samePages ⟨rfl, rfl, rfl, rfl⟩ hrwf.cache⟩
  | free | insert => exact ⟨⟨rfl, rfl, rfl, rfl⟩, hwf'.of_samePages ⟨rfl, rfl, rfl, rfl⟩ hwf.cache⟩

theorem logAppend_frame (hwf : b.WF) (op : LogOperation) (offset size : Int)
    (wasModified : Bool) :
    b.SamePages (logAppend b op offset size wasModified) ∧
      (logAppend b op offset size wasModified).WF := by
  unfold logAppend
  dsimp only
  rcases (b.logBuffer.getD []).getLast? with _ | last
  · exact logAddRecord_frame hwf _ _ _ _ _
  · dsimp only
    by_cases hc : op = .insert ∧ b.lastLog = .insert ∧ canCoalesce b.logNewIndex last offset
    · -- the merge rewrites the last record only
      rw [if_pos hc]
      exact ⟨⟨rfl, rfl, rfl, rfl⟩, hwf.of_samePages ⟨rfl, rfl, rfl, rfl⟩ hwf.cache⟩
    · rw [if_neg hc]
      exact logAddRecord_frame hwf _ _ _ _ _

/-- `eb_addlog` changes no byte of the buffer and keeps the invariant. -/
theorem ebAddlog_frame (hwf : b.WF) (op : LogOperation) (offset size : Int) :
    b.SamePages (ebAddlog b op offset size) ∧ (ebAddlog b op offset size).WF := by
  unfold ebAddlog
  split
  · exact ⟨.refl b, hwf⟩
  · dsimp only
    have h1 : b.SamePages
        { b with events := b.events ++ [⟨op, offset, size⟩], modified := true } :=
      ⟨rfl, rfl, rfl, rfl⟩
    have w1 := hwf.of_samePages h1 hwf.cache
    split
    · exact ⟨h1, w1⟩
    · generalize ({ b with events := b.events ++ [⟨op, offset, size⟩], modified := true } :
        EditBuffer) = b1 at h1 w1 ⊢
      obtain ⟨h2, w2⟩ := logOpen_frame w1
      have h3 : (logOpen b1).SamePages (if NB_LOGS_MAX - 1 ≤ (logOpen b1).nbLogs then
            logEvict (logOpen b1) else logOpen b1) ∧
          (if NB_LOGS_MAX - 1 ≤ (logOpen b1).nbLogs then
            logEvict (logOpen b1) else logOpen b1).WF := by
        split
        · exact logEvict_frame w2
        · exact ⟨.refl _, w2⟩
      obtain ⟨h4, w4⟩ := logAppend_frame h3.2 op offset size b.modified
      exact ⟨h1.trans (h2.trans (h3.1.trans h4)), w4⟩

end Frame

end Qemacs
