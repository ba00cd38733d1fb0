import Qemacs.Command.Offsets
import Qemacs.Lib.Undo

/-!
# Undo pressed again and again walks the log back

Each record of the undo log says how to take the text back to what it was before the
change it logs (`LogRecord.revert`), and fits the text after that change
(`LogRecord.Takes`). A log whose records do so, from a text `t₀` to the current text,
is an `UndoLog.History`.

`do_undo` pressed several times in a row walks such a log back: the first undo starts
from the end of the log, each later one from the record before the one the previous
undo replayed (`log_current`), and the records the undos append themselves lie past the
part of the log walked. After `k` undos the text is the current one with the last `k`
records reverted; after as many undos as records it is `t₀`, and the next undo reports
that there is nothing left to undo (`undoRepeat_reverts`).
-/

namespace Qemacs

/-! ## What a record says -/

namespace LogRecord

/-- The text before the change a record logs, from the text after it: the bytes an
insertion put in are taken out, and those a deletion or a write saved come back. -/
def revert (r : LogRecord) (t : List UInt8) : List UInt8 :=
  match r.op with
  | .insert => t.take r.offset.toNat ++ t.drop (r.offset + r.size).toNat
  | .delete => t.take r.offset.toNat ++ r.data ++ t.drop r.offset.toNat
  | .write => t.take r.offset.toNat ++ r.data ++ t.drop (r.offset + r.size).toNat
  | .free => t

/-- The record fits the text after its change: the bytes it reverts are bytes of the
text, and it saved as many bytes as it puts back. -/
def Fits (r : LogRecord) (t : List UInt8) : Prop :=
  0 ≤ r.offset ∧ 0 < r.size ∧
    match r.op with
    | .insert => r.offset + r.size ≤ t.length
    | .delete => r.offset ≤ t.length ∧ (r.data.length : Int) = r.size
    | .write => r.offset + r.size ≤ t.length ∧ (r.data.length : Int) = r.size
    | .free => False

/-- The record logs the change of `t` into `t'`. -/
structure Takes (r : LogRecord) (t t' : List UInt8) : Prop where
  fits : r.Fits t'
  revert_eq : r.revert t' = t

/-- A record that fits a text takes room in the log: its header, its saved bytes and
their count. -/
theorem Fits.length_pos {r : LogRecord} {t : List UInt8} (h : r.Fits t) : 0 < r.length := by
  obtain ⟨-, hpos, -⟩ := h
  unfold length trailer sizeofLogBuffer sizeofInt
  split <;> omega

end LogRecord

/-! ## Positions in the log -/

theorem logLength_cons (r : LogRecord) (log : List LogRecord) :
    logLength (r :: log) = r.length + logLength log := by
  simp [logLength]

theorem logLength_nonneg {log : List LogRecord} (h : ∀ r ∈ log, 0 < r.length) :
    0 ≤ logLength log := by
  induction log with
  | nil => simp [logLength]
  | cons r rs ih =>
    rw [logLength_cons]
    have h₁ := h r List.mem_cons_self
    have h₂ := ih fun q hq => h q (List.mem_cons_of_mem r hq)
    omega

/-- The record that ends where the first `m + 1` records of `L` end is the last of them,
whatever follows `L`: records take room, so no earlier one ends there. -/
theorem find_logStarts (E : List LogRecord) :
    ∀ (L : List LogRecord) (pos : Int) (m : Nat) (hm : m < L.length), (∀ r ∈ L, 0 < r.length) →
      (logStarts (L ++ E) pos).find? (fun e => e.1 + e.2.length = pos + logLength (L.take (m + 1))) =
        some (pos + logLength (L.take m), L.get ⟨m, hm⟩)
  | [], _, _, hm, _ => absurd hm (Nat.not_lt_zero _)
  | r :: rs, pos, m, hm, hpos => by
    have hr := hpos r List.mem_cons_self
    have hrs : ∀ q ∈ rs, 0 < q.length := fun q hq => hpos q (List.mem_cons_of_mem r hq)
    rw [List.cons_append, logStarts, List.find?_cons]
    cases m with
    | zero => simp [logLength]
    | succ k =>
      -- the first record ends before the `k + 2`-th
      have hk : k < rs.length := by simp only [List.length_cons] at hm; omega
      have hne : ¬(pos + r.length = pos + logLength ((r :: rs).take (k + 1 + 1))) := by
        rw [List.take_succ_cons, logLength_cons, List.take_add_one,
          List.getElem?_eq_getElem hk, Option.toList_some]
        have h₁ : 0 ≤ logLength (rs.take k) :=
          logLength_nonneg fun q hq => hrs q (List.mem_of_mem_take hq)
        have h₂ := hrs _ (List.getElem_mem hk)
        simp only [logLength, List.map_append, List.sum_append, List.map_cons, List.map_nil,
          List.sum_cons, List.sum_nil] at h₁ ⊢
        omega
      rw [decide_eq_false hne]
      have ih := find_logStarts E rs (pos + r.length) k hk hrs
      rw [List.take_succ_cons, List.take_succ_cons, logLength_cons, logLength_cons,
        ← Int.add_assoc, ih, ← Int.add_assoc]
      rfl

theorem recordBefore_take {L : List LogRecord} (E : List LogRecord) {m : Nat} (hm : m < L.length)
    (hpos : ∀ r ∈ L, 0 < r.length) :
    recordBefore (L ++ E) (logLength (L.take (m + 1))) =
      some (logLength (L.take m), L.get ⟨m, hm⟩) := by
  have h := find_logStarts E L 0 m hm hpos
  simp only [Int.zero_add] at h
  exact h

/-! ## The replay of one record -/

/-- The log of `b` is `log`, with `log_new_index` its length in bytes and `nb_logs` its
count of records. -/
def EditBuffer.LogIs (b : EditBuffer) (log : List LogRecord) : Prop :=
  b.logBuffer = some log ∧ b.logNewIndex = logLength log ∧ b.nbLogs = log.length

/-- `b'` is `b` with other pages, another size and another page cache, and every
other field as it was. -/
def EditBuffer.PagesOnly (b b' : EditBuffer) : Prop :=
  ∃ (pages : List Page) (totalSize : Nat) (curPage : Option Nat) (curOffset : Nat),
    b' = { b with pages, totalSize, curPage, curOffset }

section Replay

variable {b b₁ b₂ : EditBuffer} {log : List LogRecord}

theorem EditBuffer.PagesOnly.refl (b : EditBuffer) : b.PagesOnly b :=
  ⟨b.pages, b.totalSize, b.curPage, b.curOffset, rfl⟩

theorem EditBuffer.PagesOnly.trans (h₁ : b.PagesOnly b₁) (h₂ : b₁.PagesOnly b₂) :
    b.PagesOnly b₂ := by
  obtain ⟨_, _, _, _, rfl⟩ := h₁
  obtain ⟨p, t, c, o, rfl⟩ := h₂
  exact ⟨p, t, c, o, rfl⟩

/-- Moving pages keeps the log, the log bits, the last operation and the read-only flag. -/
theorem EditBuffer.PagesOnly.fields (h : b.PagesOnly b₁) :
    (∀ log, b.LogIs log → b₁.LogIs log) ∧ b₁.saveLog = b.saveLog ∧ b₁.lastLog = b.lastLog ∧
      b₁.readOnly = b.readOnly ∧ b₁.logCurrent = b.logCurrent := by
  obtain ⟨_, _, _, _, rfl⟩ := h
  exact ⟨fun _ h => h, rfl, rfl, rfl, rfl⟩

theorem ebInsertLowlevel_pagesOnly (b : EditBuffer) (offset : Nat) (buf : List UInt8) :
    b.PagesOnly (ebInsertLowlevel b offset buf) := by
  obtain ⟨cp, co, hb⟩ := findPage_frame { b with totalSize := b.totalSize + buf.length } (offset - 1)
  unfold ebInsertLowlevel
  split
  · -- the page before the insertion point is found, which moves only the cache
    dsimp only
    rw [hb]
    split
    · exact ⟨_, _, none, co, rfl⟩
    · exact ⟨_, _, none, co, rfl⟩
  · exact ⟨_, _, none, b.curOffset, rfl⟩

theorem insertBufferLoop_pagesOnly (ps : List Page) :
    ∀ (dest : EditBuffer) (destOffset srcOffset size : Nat),
      dest.PagesOnly (insertBufferLoop dest destOffset ps srcOffset size) := by
  induction ps with
  | nil => exact fun dest _ _ _ => .refl dest
  | cons p ps ih =>
    intro dest destOffset srcOffset size
    unfold insertBufferLoop
    split
    · exact .refl dest
    · exact (ebInsertLowlevel_pagesOnly _ _ _).trans (ih _ _ _ _)

/-- With the callbacks off, `eb_addlog` does nothing. -/
theorem ebAddlog_off (hoff : b.saveLog &&& 2 ≠ 0) (op : LogOperation) (offset size : Int) :
    ebAddlog b op offset size = b := by
  unfold ebAddlog
  rw [if_pos hoff]

/-- `eb_delete` of bytes of a writable text: the log record, then the pages. -/
theorem ebDelete_pagesOnly (hro : b.readOnly = false) {offset size : Int} (h0 : 0 ≤ offset)
    (hlt : offset < b.totalSize) (hs : 0 < size) :
    (ebAddlog b .delete offset (min size (b.totalSize - offset))).PagesOnly
      (ebDelete b offset size).2 := by
  unfold ebDelete
  rw [if_neg (by simp [hro]), if_neg (by omega)]
  dsimp only
  rw [show (if (b.totalSize : Int) - offset < size then (b.totalSize : Int) - offset else size) =
    min size (b.totalSize - offset) by omega]
  generalize ebAddlog b .delete offset (min size (b.totalSize - offset)) = b₁
  -- the page holding the offset is found, which moves only the cache
  obtain ⟨cp, co, hb⟩ := findPage_frame
    { b₁ with totalSize := b₁.totalSize - (min size (b.totalSize - offset)).toNat } offset.toNat
  rw [hb]
  exact ⟨_, _, none, co, rfl⟩

/-- With the callbacks off, `eb_insert_buffer` only moves pages. -/
theorem ebInsertBuffer_pagesOnly_off (hoff : b.saveLog &&& 2 ≠ 0) (destOffset : Int)
    (src : EditBuffer) (srcOffset size : Int) :
    b.PagesOnly (ebInsertBuffer b destOffset src srcOffset size).2.1 := by
  unfold ebInsertBuffer
  split
  · exact .refl b
  split
  · exact .refl b
  dsimp only
  generalize (if (src.totalSize : Int) < srcOffset + size then (src.totalSize : Int) - srcOffset
    else size) = sz
  generalize (if (b.totalSize : Int) < destOffset then (b.totalSize : Int) else destOffset) = d
  split
  · exact .refl b
  rw [ebAddlog_off hoff]
  exact insertBufferLoop_pagesOnly _ _ _ _ _

theorem insertFromLog_pagesOnly_off (hoff : b.saveLog &&& 2 ≠ 0) (lb : LogRecord) :
    b.PagesOnly (insertFromLog b lb) :=
  ebInsertBuffer_pagesOnly_off hoff _ _ _ _

theorem logLength_append_singleton (log : List LogRecord) (r : LogRecord) :
    logLength (log ++ [r]) = logLength log + r.length := by
  simp [logLength]

/-- A new record at the end of the log. -/
theorem logAddRecord_logIs (hwf : b.WF) (hidx : b.logNewIndex = logLength log)
    (hnb : b.nbLogs = log.length) (op : LogOperation) (offset size : Int) (w : Bool) :
    ∃ r, (logAddRecord b op offset size w log).LogIs (log ++ [r]) ∧
      (logAddRecord b op offset size w log).logCurrent = b.logCurrent := by
  have hwf' : ({ b with lastLog := op } : EditBuffer).WF :=
    hwf.of_samePages ⟨rfl, rfl, rfl, rfl⟩ hwf.cache
  unfold logAddRecord
  cases op with
  | delete | write =>
    -- the saved bytes are read, which moves the page cache only
    obtain ⟨⟨cp, co, hr⟩, -⟩ := ebRead_frame hwf' offset size
    dsimp only
    rw [hr]
    exact ⟨_, ⟨rfl, by simp only [hidx, logLength_append_singleton],
      by simp only [hnb, List.length_append, List.length_singleton]⟩, rfl⟩
  | free | insert =>
    exact ⟨_, ⟨rfl, by simp only [hidx, logLength_append_singleton],
      by simp only [hnb, List.length_append, List.length_singleton]⟩, rfl⟩

/-- `eb_addlog` with logging on and room in the log, after a change that was not an
insertion: one record more, merged into none. -/
theorem ebAddlog_appends (hwf : b.WF) (hsave : b.saveLog = 1) (hlog : b.LogIs log)
    (hroom : log.length < NB_LOGS_MAX - 1) (hnc : b.lastLog ≠ .insert) (op : LogOperation)
    (offset size : Int) :
    ∃ r, (ebAddlog b op offset size).LogIs (log ++ [r]) ∧
      (ebAddlog b op offset size).logCurrent = b.logCurrent := by
  obtain ⟨hbuf, hidx, hnb⟩ := hlog
  unfold ebAddlog
  rw [if_neg (by rw [hsave]; decide)]
  dsimp only
  rw [if_neg (by rw [hsave]; decide)]
  -- the log exists and is not full
  unfold logOpen
  rw [hbuf]
  dsimp only
  rw [if_neg (by omega)]
  unfold logAppend
  dsimp only
  rw [Option.getD_some]
  cases log.getLast? with
  | none =>
    dsimp only
    refine logAddRecord_logIs ?_ ?_ ?_ _ _ _ _
    exacts [hwf.of_samePages ⟨rfl, rfl, rfl, rfl⟩ hwf.cache, hidx, hnb]
  | some last =>
    dsimp only
    rw [if_neg (fun h => hnc h.2.1)]
    refine logAddRecord_logIs ?_ ?_ ?_ _ _ _ _
    exacts [hwf.of_samePages ⟨rfl, rfl, rfl, rfl⟩ hwf.cache, hidx, hnb]

/-- A silent change followed by `eb_addlog` with logging on: the record is appended, and
the flags are those of `b`. -/
theorem ebAddlog_after (hwf : b₁.WF) (hsave : b₁.saveLog = 1) (hlog : b₁.LogIs log)
    (hroom : log.length < NB_LOGS_MAX - 1) (hnc : b₁.lastLog ≠ .insert) (op : LogOperation)
    (offset size : Int) :
    (ebAddlog b₁ op offset size).content = b₁.content ∧ (ebAddlog b₁ op offset size).WF ∧
      (ebAddlog b₁ op offset size).readOnly = b₁.readOnly ∧
      (ebAddlog b₁ op offset size).saveLog = 1 ∧
      ∃ r, (ebAddlog b₁ op offset size).LogIs (log ++ [r]) ∧
        (ebAddlog b₁ op offset size).logCurrent = b₁.logCurrent := by
  obtain ⟨hsame, hwf'⟩ := ebAddlog_frame hwf op offset size
  refine ⟨?_, hwf', hsame.readOnly, hsame.saveLog.trans hsave,
    ebAddlog_appends hwf hsave hlog hroom hnc op offset size⟩
  rw [EditBuffer.content_eq_flat, EditBuffer.content_eq_flat, hsame.pages]

/-- The end of the replays of a deletion and of a write: a change made with the
callbacks off, from `b` with bit 2 of `save_log` set, logged once the bit is cleared. -/
theorem relog_of_silent (hwf₂ : b₂.WF)
    (hp : ({ b with saveLog := b.saveLog ||| 2 } : EditBuffer).PagesOnly b₂)
    (hro : b.readOnly = false) (hsave : b.saveLog = 1) (hnc : b.lastLog ≠ .insert)
    (hlog : b.LogIs log) (hroom : log.length < NB_LOGS_MAX - 1) (op : LogOperation)
    (offset size : Int) :
    (ebAddlog { b₂ with saveLog := clearBits b₂.saveLog 2 } op offset size).content =
        b₂.content ∧
      (ebAddlog { b₂ with saveLog := clearBits b₂.saveLog 2 } op offset size).WF ∧
      (ebAddlog { b₂ with saveLog := clearBits b₂.saveLog 2 } op offset size).readOnly = false ∧
      (ebAddlog { b₂ with saveLog := clearBits b₂.saveLog 2 } op offset size).saveLog = 1 ∧
      (ebAddlog { b₂ with saveLog := clearBits b₂.saveLog 2 } op offset size).logCurrent =
        b.logCurrent ∧
      ∃ r, (ebAddlog { b₂ with saveLog := clearBits b₂.saveLog 2 } op offset size).LogIs
        (log ++ [r]) := by
  obtain ⟨hlogs, hsaves, hlasts, hros, hcurs⟩ := hp.fields
  have hon : clearBits b₂.saveLog 2 = 1 := by
    rw [hsaves]
    show clearBits (b.saveLog ||| 2) 2 = 1
    rw [hsave]
    decide
  have hwf₃ : ({ b₂ with saveLog := clearBits b₂.saveLog 2 } : EditBuffer).WF :=
    hwf₂.of_sizes rfl rfl rfl rfl
  obtain ⟨hc, hwf', hro', hsave', r, hlog', hcur'⟩ := ebAddlog_after hwf₃ hon (hlogs log hlog)
    hroom (by rw [hlasts]; exact hnc) op offset size
  exact ⟨hc, hwf', hro'.trans (hros.trans hro), hsave', hcur'.trans hcurs, r, hlog'⟩

/-- With logging on and room in the log, the replay of a record that fits the text
reverts the record's change and appends one record. -/
theorem undoPlay_reverts (hwf : b.WF) (hro : b.readOnly = false) (hsave : b.saveLog = 1)
    (hlast : b.lastLog = .free) (hlog : b.LogIs log) (hroom : log.length < NB_LOGS_MAX - 1)
    {lb : LogRecord} (hfit : lb.Fits b.content) :
    ∃ b' offset, undoPlay b lb = some (b', offset) ∧ b'.content = lb.revert b.content ∧ b'.WF ∧
      b'.readOnly = false ∧ b'.saveLog = 1 ∧ b'.logCurrent = b.logCurrent ∧
      ∃ r, b'.LogIs (log ++ [r]) := by
  obtain ⟨h0, hpos, hop⟩ := hfit
  have htot := hwf.totalSize_eq
  have hnc : b.lastLog ≠ .insert := by rw [hlast]; decide
  -- the replays of a deletion and of a write work with the callbacks off
  have hoff : ({ b with saveLog := b.saveLog ||| 2 } : EditBuffer).saveLog &&& 2 ≠ 0 :=
    or_two_off b.saveLog
  have hwf₁ : ({ b with saveLog := b.saveLog ||| 2 } : EditBuffer).WF := hwf.of_sizes rfl rfl rfl rfl
  unfold undoPlay
  cases hk : lb.op with
  | insert =>
    simp only [hk] at hop ⊢
    -- `eb_delete` of the inserted bytes, logged
    have hp := ebDelete_pagesOnly hro h0 (by omega) hpos
    obtain ⟨-, hwf₂, hro₂, hsave₂, r, hlog₂, hcur₂⟩ := ebAddlog_after hwf hsave hlog hroom hnc
      .delete lb.offset (min lb.size (b.totalSize - lb.offset))
    obtain ⟨hlogs, hsaves, -, hros, hcurs⟩ := hp.fields
    refine ⟨_, _, rfl, ?_, (ebDelete_spec hwf _ _).2, by rw [hros, hro₂, hro],
      by rw [hsaves, hsave₂], by rw [hcurs, hcur₂], r, hlogs _ hlog₂⟩
    rw [ebDelete_content_of_le hwf hro h0 hpos.le (by omega), LogRecord.revert, hk]
  | delete =>
    simp only [hk] at hop ⊢
    obtain ⟨hle, hsize⟩ := hop
    -- the saved bytes go back silently, then the insertion is logged
    have hp := insertFromLog_pagesOnly_off hoff lb
    have hwf₂ := insertFromLog_wf hwf₁ lb
    have hc₂ := insertFromLog_content hwf₁ lb hro h0 (by show lb.offset ≤ (b.totalSize : Int); omega)
      hsize
    generalize insertFromLog { b with saveLog := b.saveLog ||| 2 } lb = b₂ at hp hwf₂ hc₂ ⊢
    obtain ⟨hc₄, hwf₄, hro₄, hsave₄, hcur₄, hlog₄⟩ :=
      relog_of_silent hwf₂ hp hro hsave hnc hlog hroom .insert lb.offset lb.size
    refine ⟨_, _, rfl, ?_, hwf₄, hro₄, hsave₄, hcur₄, hlog₄⟩
    rw [hc₄, hc₂, LogRecord.revert, hk]
    rfl
  | write =>
    simp only [hk] at hop ⊢
    obtain ⟨hle, hsize⟩ := hop
    -- the bytes written are deleted and the saved ones put back, silently
    have hp₂ := ebDelete_pagesOnly (b := { b with saveLog := b.saveLog ||| 2 }) hro h0
      (by show lb.offset < (b.totalSize : Int); omega) hpos
    rw [ebAddlog_off hoff] at hp₂
    have hwf₂ := (ebDelete_spec hwf₁ lb.offset lb.size).2
    have hc₂ : (ebDelete { b with saveLog := b.saveLog ||| 2 } lb.offset lb.size).2.content =
        b.content.take lb.offset.toNat ++ b.content.drop (lb.offset + lb.size).toNat :=
      ebDelete_content_of_le hwf₁ hro h0 hpos.le
        (by show lb.offset + lb.size ≤ (b.totalSize : Int); omega)
    generalize (ebDelete { b with saveLog := b.saveLog ||| 2 } lb.offset lb.size).2 = b₂
      at hp₂ hwf₂ hc₂ ⊢
    obtain ⟨-, hsaves₂, -, hros₂, -⟩ := hp₂.fields
    have hoff₂ : b₂.saveLog &&& 2 ≠ 0 := by
      rw [hsaves₂]
      exact hoff
    have htot₂ := hwf₂.totalSize_eq
    rw [hc₂] at htot₂
    simp only [List.length_append, List.length_take, List.length_drop] at htot₂
    have hp₃ := insertFromLog_pagesOnly_off hoff₂ lb
    have hwf₃ := insertFromLog_wf hwf₂ lb
    have hc₃ := insertFromLog_content hwf₂ lb (hros₂.trans hro) h0 (by omega) hsize
    generalize insertFromLog b₂ lb = b₃ at hp₃ hwf₃ hc₃ ⊢
    obtain ⟨hc₅, hwf₅, hro₅, hsave₅, hcur₅, hlog₅⟩ :=
      relog_of_silent hwf₃ (hp₂.trans hp₃) hro hsave hnc hlog hroom .write lb.offset lb.size
    refine ⟨_, _, rfl, ?_, hwf₅, hro₅, hsave₅, hcur₅, hlog₅⟩
    rw [hc₅, hc₃, hc₂, LogRecord.revert, hk]
    have hlen : (b.content.take lb.offset.toNat).length = lb.offset.toNat := by
      simp only [List.length_take]
      omega
    rw [List.take_left' hlen, List.drop_left' hlen]
  | free =>
    -- no record that fits a text is a free one
    simp only [hk] at hop

end Replay

/-! ## Undo after undo -/

section Walk

variable {b : EditBuffer} {log : List LogRecord}

/-- `do_undo` once it has found the record to replay: the cursor goes to the record's
offset and the modified flag to the one the record saved. -/
theorem doUndo_of_record {last : Bool} {b₁ b₂ : EditBuffer} {i start offset : Int}
    {lb : LogRecord} (hlog : b.logBuffer = some log)
    (hb₁ : (if last then b else { b with logCurrent := 0 }) = b₁)
    (hi : (if b₁.logCurrent = 0 then b₁.logNewIndex else b₁.logCurrent - 1) = i) (hi0 : i ≠ 0)
    (hrec : recordBefore log i = some (start, lb))
    (hplay : undoPlay { b₁ with logCurrent := start + 1, lastLog := .free } lb = some (b₂, offset)) :
    doUndo b last = ({ b₂ with modified := lb.wasModified }, .done offset) := by
  unfold doUndo
  dsimp only
  rw [hb₁, hlog]
  dsimp only
  rw [hi, if_neg hi0, hrec]
  dsimp only
  rw [hplay]

/-- `do_undo` at the start of the log. -/
theorem doUndo_of_start {last : Bool} {b₁ : EditBuffer} (hlog : b.logBuffer = some log)
    (hb₁ : (if last then b else { b with logCurrent := 0 }) = b₁)
    (hi : (if b₁.logCurrent = 0 then b₁.logNewIndex else b₁.logCurrent - 1) = 0) :
    doUndo b last = (b₁, .error "No further undo information") := by
  unfold doUndo
  dsimp only
  rw [hb₁, hlog]
  dsimp only
  rw [hi, if_pos rfl]

theorem logLength_take_succ {L : List LogRecord} {m : Nat} (hm : m < L.length) :
    logLength (L.take (m + 1)) = logLength (L.take m) + (L.get ⟨m, hm⟩).length := by
  rw [List.take_add_one, List.getElem?_eq_getElem hm, Option.toList_some,
    logLength_append_singleton, List.get_eq_getElem]

/-- Part way through undos in a row: the first `m` records of `L` are still to be undone,
the log is `L` followed by the records the undos appended, and the text is `c₀` with the
records of `L` from the `m`-th on reverted, which the first `m` records log the steps to
from `t₀`. -/
structure UndoWalk (L : List LogRecord) (t₀ c₀ : List UInt8) (m : Nat) (b : EditBuffer) :
    Prop where
  wf : b.WF
  writable : b.readOnly = false
  logging : b.saveLog = 1
  log : ∃ E, b.LogIs (L ++ E) ∧ (L ++ E).length + m ≤ 2 * L.length
  le : m ≤ L.length
  history : UndoLog.History LogRecord.Takes (L.take m) t₀ b.content
  content : b.content = (L.drop m).foldr LogRecord.revert c₀

variable {L : List LogRecord} {t₀ c₀ : List UInt8} {m : Nat}

/-- One undo more, from a log position at the end of the first `m + 1` records: their
last is replayed, and the position moves to its start. -/
theorem UndoWalk.undo (hw : UndoWalk L t₀ c₀ (m + 1) b) (hpos : ∀ r ∈ L, 0 < r.length)
    (hroom : 2 * L.length < NB_LOGS_MAX) {last : Bool} {b₁ : EditBuffer}
    (hb₁ : (if last then b else { b with logCurrent := 0 }) = b₁)
    (hi : (if b₁.logCurrent = 0 then b₁.logNewIndex else b₁.logCurrent - 1) =
      logLength (L.take (m + 1))) :
    UndoWalk L t₀ c₀ m (doUndo b last).1 ∧
      (doUndo b last).1.logCurrent = logLength (L.take m) + 1 := by
  have hm : m < L.length := hw.le
  obtain ⟨E, ⟨hbuf, hidx, hnb⟩, hlen⟩ := hw.log
  -- the reset of the log position changes nothing else
  have hb₁' : b₁ = { b with logCurrent := b₁.logCurrent } := by
    cases last
    · rw [← hb₁]
      rfl
    · rw [← hb₁]
      rfl
  -- the record replayed is the `m`-th, which fits the text
  have hh := hw.history
  rw [List.take_add_one, List.getElem?_eq_getElem hm, Option.toList_some] at hh
  obtain ⟨s, -, htakes⟩ := UndoLog.History.snoc_inv hh
  have hrec := recordBefore_take E hm hpos
  have hi0 : logLength (L.take (m + 1)) ≠ 0 := by
    rw [logLength_take_succ hm]
    have h₁ : 0 ≤ logLength (L.take m) :=
      logLength_nonneg fun q hq => hpos q (List.mem_of_mem_take hq)
    have h₂ := hpos _ (List.get_mem L ⟨m, hm⟩)
    omega
  have hwf₂ : ({ b₁ with logCurrent := logLength (L.take m) + 1, lastLog := .free } :
      EditBuffer).WF := by
    rw [hb₁']
    exact hw.wf.of_sizes rfl rfl rfl rfl
  have hlog₂ : ({ b₁ with logCurrent := logLength (L.take m) + 1, lastLog := .free } :
      EditBuffer).LogIs (L ++ E) := by
    rw [hb₁']
    exact ⟨hbuf, hidx, hnb⟩
  have hfit : (L.get ⟨m, hm⟩).Fits
      ({ b₁ with logCurrent := logLength (L.take m) + 1, lastLog := .free } : EditBuffer).content := by
    rw [hb₁']
    exact htakes.fits
  obtain ⟨b₃, offset, hplay, hc₃, hwf₃, hro₃, hsave₃, hcur₃, r, hlog₃⟩ :=
    undoPlay_reverts hwf₂ (by rw [hb₁']; exact hw.writable) (by rw [hb₁']; exact hw.logging) rfl
      hlog₂ (by rw [List.length_append] at hlen ⊢; omega) hfit
  rw [doUndo_of_record hbuf hb₁ hi hi0 hrec hplay]
  refine ⟨⟨hwf₃.of_sizes rfl rfl rfl rfl, hro₃, hsave₃, ⟨E ++ [r], ?_, ?_⟩, by omega, ?_, ?_⟩,
    hcur₃⟩
  · rw [← List.append_assoc]
    exact hlog₃
  · simp only [List.length_append, List.length_singleton] at hlen ⊢
    omega
  · -- the first `m` records log the steps to the text the replay leaves
    show UndoLog.History LogRecord.Takes (L.take m) t₀ b₃.content
    rw [hc₃, hb₁']
    exact UndoLog.History.take_succ LogRecord.revert (fun r _ _ h => h.revert_eq) hm hw.history
  · show b₃.content = _
    rw [hc₃, hb₁', List.drop_eq_getElem_cons hm, List.foldr_cons, ← hw.content,
      List.get_eq_getElem]
    rfl

/-- `do_undo` run `k` more times, each right after an undo. -/
def undoAgain : Nat → EditBuffer → EditBuffer
  | 0, b => b
  | k + 1, b => undoAgain k (doUndo b true).1

/-- `do_undo` run `k` times in a row: the first finds that the previous command was not an
undo, each later one that it was. -/
def undoRepeat : Nat → EditBuffer → EditBuffer
  | 0, b => b
  | k + 1, b => undoAgain k (doUndo b false).1

/-- Every record of a history fits some text, so takes room in the log. -/
theorem history_length_pos {log : List LogRecord} {t₀ t : List UInt8}
    (h : UndoLog.History LogRecord.Takes log t₀ t) : ∀ r ∈ log, 0 < r.length := by
  induction h with
  | nil => exact fun r hr => absurd hr List.not_mem_nil
  | snoc _ hr ih =>
    intro q hq
    rcases List.mem_append.mp hq with hq | hq
    · exact ih q hq
    · rw [List.mem_singleton.mp hq]
      exact hr.fits.length_pos

/-- Undos after an undo, from a log position at the end of the first `m + k` records:
`k` more of them are replayed. -/
theorem undoAgain_walk (hpos : ∀ r ∈ L, 0 < r.length) (hroom : 2 * L.length < NB_LOGS_MAX) :
    ∀ k b, UndoWalk L t₀ c₀ (m + k) b → b.logCurrent = logLength (L.take (m + k)) + 1 →
      UndoWalk L t₀ c₀ m (undoAgain k b) ∧
        (undoAgain k b).logCurrent = logLength (L.take m) + 1 := by
  intro k
  induction k with
  | zero => exact fun b hw hcur => ⟨hw, hcur⟩
  | succ k ih =>
    intro b hw hcur
    rw [← Nat.add_assoc] at hw hcur
    have hnn : 0 ≤ logLength (L.take (m + k + 1)) :=
      logLength_nonneg fun q hq => hpos q (List.mem_of_mem_take hq)
    -- the position is past a record, so the undo replays the one that ends there
    have hi : (if b.logCurrent = 0 then b.logNewIndex else b.logCurrent - 1) =
        logLength (L.take (m + k + 1)) := by
      rw [if_neg (by omega), hcur, Int.add_sub_cancel]
    obtain ⟨hw', hcur'⟩ := hw.undo hpos hroom (if_pos rfl) hi
    exact ih _ hw' hcur'

variable (hwf : b.WF) (hro : b.readOnly = false) (hsave : b.saveLog = 1) (hlog : b.LogIs L)
  (hH : UndoLog.History LogRecord.Takes L t₀ b.content) (hroom : 2 * L.length < NB_LOGS_MAX)
include hwf hro hsave hlog hH hroom

/-- The first `j + 1` undos in a row replay the last `j + 1` records of the log. -/
theorem undoRepeat_walk {j : Nat} (hj : j + 1 ≤ L.length) :
    UndoWalk L t₀ b.content (L.length - (j + 1)) (undoRepeat (j + 1) b) ∧
      (undoRepeat (j + 1) b).logCurrent = logLength (L.take (L.length - (j + 1))) + 1 := by
  have hpos := history_length_pos hH
  have hstart : UndoWalk L t₀ b.content (L.length - (j + 1) + j + 1) b := by
    rw [show L.length - (j + 1) + j + 1 = L.length by omega]
    refine ⟨hwf, hro, hsave, ⟨[], by rw [List.append_nil]; exact hlog, by simp; omega⟩, le_rfl,
      by rw [List.take_length]; exact hH, by rw [List.drop_length]; rfl⟩
  -- the first undo starts from the end of the log
  have hi : (if ({ b with logCurrent := 0 } : EditBuffer).logCurrent = 0 then
      ({ b with logCurrent := 0 } : EditBuffer).logNewIndex
      else ({ b with logCurrent := 0 } : EditBuffer).logCurrent - 1) =
      logLength (L.take (L.length - (j + 1) + j + 1)) := by
    rw [show L.length - (j + 1) + j + 1 = L.length by omega, List.take_length, if_pos rfl]
    exact hlog.2.1
  obtain ⟨hw₁, hcur₁⟩ := hstart.undo hpos hroom (if_neg Bool.false_ne_true) hi
  exact undoAgain_walk hpos hroom j _ hw₁ hcur₁

/-- `do_undo` pressed again and again on a buffer whose log is a history from `t₀`:
after `k` undos the text is the current one with the last `k` records reverted, after as
many undos as records it is `t₀`, and the undo after that reports that there is nothing
left to undo. -/
theorem undoRepeat_reverts :
    (∀ k ≤ L.length, (undoRepeat k b).content =
        (L.drop (L.length - k)).foldr LogRecord.revert b.content) ∧
      (undoRepeat L.length b).content = t₀ ∧
      (0 < L.length →
        (doUndo (undoRepeat L.length b) true).2 = .error "No further undo information") := by
  have hk : ∀ k ≤ L.length, (undoRepeat k b).content =
      (L.drop (L.length - k)).foldr LogRecord.revert b.content := by
    intro k hk
    cases k with
    | zero => rw [Nat.sub_zero, List.drop_length]; rfl
    | succ j => exact (undoRepeat_walk hwf hro hsave hlog hH hroom hk).1.content
  refine ⟨hk, ?_, fun hn => ?_⟩
  · rw [hk L.length le_rfl, Nat.sub_self, List.drop_zero]
    exact UndoLog.History.foldr_revert LogRecord.revert (fun r _ _ h => h.revert_eq) hH
  · -- after the last record the position is at the start of the log
    obtain ⟨j, hj⟩ : ∃ j, L.length = j + 1 := ⟨L.length - 1, by omega⟩
    obtain ⟨hw, hcur⟩ := undoRepeat_walk hwf hro hsave hlog hH hroom (show j + 1 ≤ L.length by omega)
    rw [← hj, Nat.sub_self] at hw hcur
    obtain ⟨E, ⟨hbuf, -, -⟩, -⟩ := hw.log
    have hi : (if (undoRepeat L.length b).logCurrent = 0 then
        (undoRepeat L.length b).logNewIndex else (undoRepeat L.length b).logCurrent - 1) = 0 := by
      rw [hcur, List.take_zero]
      rfl
    rw [doUndo_of_start hbuf (if_pos rfl) hi]

end Walk

/-- A buffer holding `"a"` whose log is the insertion of that byte into the empty text:
one undo takes the text back to empty, and the next one has nothing left to undo. -/
theorem undoRepeat_reverts_insert :
    let L : List LogRecord := [⟨.insert, 0, 1, false, []⟩]
    let b : EditBuffer := { ebMmapBuffer (EditBuffer.empty charset_raw .unix) [0x61] with
      logBuffer := some L, logNewIndex := logLength L, nbLogs := L.length }
    (∀ k ≤ L.length, (undoRepeat k b).content =
        (L.drop (L.length - k)).foldr LogRecord.revert b.content) ∧
      (undoRepeat L.length b).content = [] ∧
      (0 < L.length →
        (doUndo (undoRepeat L.length b) true).2 = .error "No further undo information") :=
  undoRepeat_reverts ((mmap_wf charset_raw .unix [0x61]).of_sizes rfl rfl rfl rfl) rfl rfl
    ⟨rfl, rfl, rfl⟩ (.snoc (.nil []) ⟨⟨le_rfl, by decide, by decide⟩, by decide⟩) (by decide)

end Qemacs
