import Qemacs.Command.Offsets

/-!
# Text properties

The property list of buffer.c: properties anchored at offsets of the buffer
(source tags, and the current directory of a shell buffer), kept in a list
that `eb_add_property` keeps in ascending order of offset, and that
`eb_find_property`, `eb_delete_properties` and `eb_add_tag` scan only up to the
first offset past their bound. `eb_plist_callback`, registered on the buffer
by `eb_add_property` when the list is empty, moves the properties with each
insertion and deletion the buffer notifies.

The order is what the scans rely on. Adding,
deleting and a deletion's callback keep it; an insertion keeps it where no
`QE_PROP_MARK` property stands after an unmarked one at its offset
(`ebPlistCallback_sorted`). `eb_add_property` puts a new property after those
of the same offset, whatever its flags, so a marked property added after an
unmarked one and an insertion there undo the order. And the registration is not
undone when the list becomes empty through `eb_del_property` or a deletion, so
the next `eb_add_property` registers the callback once more and every later
change moves the properties twice.
-/

namespace Qemacs

/-! ## The model -/

def QE_PROP_FREE : Nat := 1
def QE_PROP_DUP : Nat := 2
def QE_PROP_KEEP : Nat := 4
def QE_PROP_MARK : Nat := 8

def QE_PROP_TAG : Nat := 1
def QE_PROP_CWD : Nat := 2
def QE_PROP_ALL : Nat := 3

/-- `struct QEProperty` without its link: the list is the property list, and
`data` the text the property holds. -/
structure QEProperty where
  offset : Int
  type : Nat
  flags : Nat
  data : List UInt8
deriving DecidableEq, Repr

namespace QEProperty

/-- `p->flags & QE_PROP_MARK`: the offset stays on an insertion right at it. -/
def isMark (p : QEProperty) : Bool := p.flags &&& QE_PROP_MARK != 0

/-- `p->flags & QE_PROP_KEEP`: a deletion over the property keeps it. -/
def isKeep (p : QEProperty) : Bool := p.flags &&& QE_PROP_KEEP != 0

end QEProperty

/-- The `LOGOP_INSERT` branch of `eb_plist_callback` on one property: at or
after `offset` it moves by `size`, unless it is a marked one right at
`offset`. -/
def plistInsert (offset size : Int) (p : QEProperty) : QEProperty :=
  if p.offset ≥ offset then
    if p.offset = offset ∧ p.isMark then p else { p with offset := p.offset + size }
  else p

/-- The `LOGOP_DELETE` branch of `eb_plist_callback` on one property: `none`
when it is anchored inside the deleted block and not kept. -/
def plistDelete (offset size : Int) (p : QEProperty) : Option QEProperty :=
  if p.offset ≥ offset then
    if p.offset = offset ∧ p.isMark then some p
    else if p.offset < offset + size then
      if !p.isKeep then none else some { p with offset := offset }
    else some { p with offset := p.offset - size }
  else some p

/-- `eb_plist_callback`: the property list after one notification. -/
def ebPlistCallback (pl : List QEProperty) (e : EditEvent) : List QEProperty :=
  match e.op with
  | .insert => pl.map (plistInsert e.offset e.size)
  | .delete => pl.filterMap (plistDelete e.offset e.size)
  | .write | .free => pl

/-- The property list, and how many times `eb_plist_callback` stands in the
buffer's callback list. -/
structure PropertyState where
  propertyList : List QEProperty
  plistCallbacks : Nat
deriving DecidableEq, Repr

/-- A buffer without properties. -/
def PropertyState.empty : PropertyState := ⟨[], 0⟩

/-- The loop of `eb_add_property`: `p` goes before the first property past its
offset, after all those at or before it. -/
def insertProperty (p : QEProperty) : List QEProperty → List QEProperty
  | [] => [p]
  | q :: pl => if q.offset > p.offset then p :: q :: pl else q :: insertProperty p pl

/-- `eb_add_property`: a duplicated text is not freed by the property; the
callback is registered when the list is empty. -/
def ebAddProperty (st : PropertyState) (offset : Int) (type flags : Nat) (data : List UInt8) :
    PropertyState :=
  let flags := if flags &&& QE_PROP_DUP ≠ 0 then clearBits flags QE_PROP_FREE else flags
  let callbacks := if st.propertyList = [] then st.plistCallbacks + 1 else st.plistCallbacks
  ⟨insertProperty ⟨offset, type, flags, data⟩ st.propertyList, callbacks⟩

/-- `eb_del_property` of the property at position `i` of the list: 1 when
there is one. The callback stays registered. -/
def ebDelProperty (st : PropertyState) (i : Nat) : Int × PropertyState :=
  if i < st.propertyList.length then (1, { st with propertyList := st.propertyList.eraseIdx i })
  else (0, st)

/-- `eb_add_tag`: nothing when a tag of the same text is at `offset`, among
the properties up to it. -/
def ebAddTag (st : PropertyState) (offset : Int) (s : List UInt8) : PropertyState :=
  if (st.propertyList.takeWhile (·.offset ≤ offset)).any
      (fun p => p.offset = offset ∧ p.type = QE_PROP_TAG ∧ p.data = s) then st
  else ebAddProperty st offset QE_PROP_TAG QE_PROP_DUP s

/-- The loop of `eb_find_property` from position `i`: the last property of
`type` at or after `offset`, among those before the first at or past `offset2`
and before the position `stop`. -/
def findPropertyLoop (offset offset2 : Int) (type : Nat) (stop : Option Nat) :
    List QEProperty → Nat → Option QEProperty → Option QEProperty
  | [], _, found => found
  | p :: pl, i, found =>
    if stop = some i ∨ offset2 ≤ p.offset then found
    else findPropertyLoop offset offset2 type stop pl (i + 1)
      (if offset ≤ p.offset ∧ p.type = type then some p else found)

/-- `eb_find_property`, with the position of the property `stop` in the list
(`none` for `NULL`). -/
def ebFindProperty (pl : List QEProperty) (offset offset2 : Int) (type : Nat) (stop : Option Nat) :
    Option QEProperty :=
  findPropertyLoop offset offset2 type stop pl 0 none

/-- The loop of `eb_delete_properties`: up to the first property past
`offset2`, those at or after `offset` with a type in `mask` go. -/
def deletePropertiesLoop (offset offset2 : Int) (mask : Nat) : List QEProperty → List QEProperty
  | [] => []
  | p :: pl =>
    if p.offset < offset2 then
      if offset ≤ p.offset ∧ p.offset < offset2 ∧ p.type &&& mask ≠ 0 then
        deletePropertiesLoop offset offset2 mask pl
      else p :: deletePropertiesLoop offset offset2 mask pl
    else p :: pl

/-- `eb_delete_properties`: an emptied list frees one registration of the
callback. -/
def ebDeleteProperties (st : PropertyState) (offset offset2 : Int) (mask : Nat) : PropertyState :=
  if st.propertyList = [] then st
  else
    let pl := deletePropertiesLoop offset offset2 mask st.propertyList
    ⟨pl, if pl = [] then st.plistCallbacks - 1 else st.plistCallbacks⟩

namespace PropertyState

/-- `eb_addlog` calls each callback of the list with the notification:
`eb_plist_callback` runs once per registration. -/
def notify (st : PropertyState) (e : EditEvent) : PropertyState :=
  { st with propertyList := Nat.iterate (ebPlistCallback · e) st.plistCallbacks st.propertyList }

/-- The notifications of a change, in order. -/
def notifyAll (st : PropertyState) (es : List EditEvent) : PropertyState := es.foldl notify st

end PropertyState

/-- A buffer and its properties. -/
structure PropBuffer where
  buffer : EditBuffer
  props : PropertyState

/-- The functions on the property list, and the buffer functions, whose
notifications reach `eb_plist_callback`. -/
inductive PropertyOp
  | addProperty (offset : Int) (type flags : Nat) (data : List UInt8)
  | addTag (offset : Int) (s : List UInt8)
  | delProperty (i : Nat)
  | deleteProperties (offset offset2 : Int) (mask : Nat)
  | edit (op : BufferOp)

/-- One function; `none` where a buffer function does. -/
def PropertyOp.run : PropertyOp → PropBuffer → Option PropBuffer
  | .addProperty offset type flags data, s =>
    some { s with props := ebAddProperty s.props offset type flags data }
  | .addTag offset str, s => some { s with props := ebAddTag s.props offset str }
  | .delProperty i, s => some { s with props := (ebDelProperty s.props i).2 }
  | .deleteProperties offset offset2 mask, s =>
    some { s with props := ebDeleteProperties s.props offset offset2 mask }
  | .edit op, s =>
    (op.run s.buffer).map fun b' => ⟨b', s.props.notifyAll (s.buffer.sentSince b')⟩

/-- The functions in turn. -/
def runProps : List PropertyOp → PropBuffer → Option PropBuffer
  | [], s => some s
  | op :: ops, s => (op.run s).bind (runProps ops)

/-! ## The order of the list -/

/-- The properties in ascending order of offset. -/
def OffsetsSorted (pl : List QEProperty) : Prop := pl.Pairwise fun p q => p.offset ≤ q.offset

/-- At `offset`, no marked property stands after an unmarked one. -/
def MarksFirstAt (offset : Int) (pl : List QEProperty) : Prop :=
  pl.Pairwise fun p q => p.offset = offset → q.offset = offset → p.isMark = true ∨ q.isMark = false

section Sorted

variable {st : PropertyState} {pl : List QEProperty}

theorem mem_insertProperty {p x : QEProperty} : x ∈ insertProperty p pl ↔ x = p ∨ x ∈ pl := by
  induction pl with
  | nil => simp [insertProperty]
  | cons q pl ih =>
    rw [insertProperty]
    split <;> simp [ih, or_left_comm]

theorem insertProperty_sorted (p : QEProperty) (h : OffsetsSorted pl) :
    OffsetsSorted (insertProperty p pl) := by
  induction pl with
  | nil => exact List.pairwise_singleton _ p
  | cons q pl ih =>
    have hq := List.pairwise_cons.mp h
    rw [insertProperty]
    split
    case isTrue hlt =>
      -- `p` goes first, before a list that starts past it
      refine List.Pairwise.cons (fun x hx => ?_) h
      rcases List.mem_cons.mp hx with rfl | hx
      · omega
      · have := hq.1 x hx
        omega
    case isFalse hge =>
      refine List.Pairwise.cons (fun x hx => ?_) (ih hq.2)
      rcases mem_insertProperty.mp hx with rfl | hx
      · omega
      · exact hq.1 x hx

theorem ebAddProperty_sorted (h : OffsetsSorted st.propertyList) (offset : Int) (type flags : Nat)
    (data : List UInt8) : OffsetsSorted (ebAddProperty st offset type flags data).propertyList :=
  insertProperty_sorted _ h

theorem ebAddTag_sorted (h : OffsetsSorted st.propertyList) (offset : Int) (s : List UInt8) :
    OffsetsSorted (ebAddTag st offset s).propertyList := by
  unfold ebAddTag
  split
  · exact h
  · exact ebAddProperty_sorted h _ _ _ _

theorem ebDelProperty_sorted (h : OffsetsSorted st.propertyList) (i : Nat) :
    OffsetsSorted (ebDelProperty st i).2.propertyList := by
  unfold ebDelProperty
  split
  · exact h.sublist (List.eraseIdx_sublist _ _)
  · exact h

theorem deletePropertiesLoop_sublist (offset offset2 : Int) (mask : Nat) (pl : List QEProperty) :
    (deletePropertiesLoop offset offset2 mask pl).Sublist pl := by
  induction pl with
  | nil => exact .slnil
  | cons p pl ih =>
    rw [deletePropertiesLoop]
    split
    · split
      · exact ih.cons p
      · exact ih.cons_cons p
    · exact .refl _

theorem ebDeleteProperties_sorted (h : OffsetsSorted st.propertyList) (offset offset2 : Int)
    (mask : Nat) : OffsetsSorted (ebDeleteProperties st offset offset2 mask).propertyList := by
  unfold ebDeleteProperties
  split
  · exact h
  · exact h.sublist (deletePropertiesLoop_sublist _ _ _ _)

/-- Where an insertion puts a property. -/
theorem plistInsert_offset (offset size : Int) (p : QEProperty) :
    (plistInsert offset size p).offset =
      if offset ≤ p.offset ∧ ¬(p.offset = offset ∧ p.isMark = true) then p.offset + size
      else p.offset := by
  unfold plistInsert
  by_cases h : offset ≤ p.offset ∧ ¬(p.offset = offset ∧ p.isMark = true)
  · rw [if_pos h, if_pos (ge_iff_le.mpr h.1), if_neg h.2]
  · rw [if_neg h]
    split_ifs with h1 h2
    · rfl
    · exact absurd ⟨h1, h2⟩ h
    · rfl

/-- An insertion keeps two properties in order, unless they are an unmarked
one and a marked one at its offset. -/
theorem plistInsert_le {offset size : Int} (hs : 0 ≤ size) {p q : QEProperty}
    (hle : p.offset ≤ q.offset)
    (hm : p.offset = offset → q.offset = offset → p.isMark = true ∨ q.isMark = false) :
    (plistInsert offset size p).offset ≤ (plistInsert offset size q).offset := by
  rw [plistInsert_offset, plistInsert_offset]
  by_cases hq : offset ≤ q.offset ∧ ¬(q.offset = offset ∧ q.isMark = true)
  · -- `q` moves by `size`, and `p` by as much or not at all
    rw [if_pos hq]
    split <;> omega
  · rw [if_neg hq]
    split
    case isTrue hp =>
      -- `p` would move and `q` not: both at `offset`, `p` unmarked and `q` marked
      exfalso
      have hqo : q.offset = offset ∧ q.isMark = true := by
        by_contra h
        exact hq ⟨by omega, h⟩
      have hpo : p.offset = offset := by omega
      have hpm : p.isMark = false := by simpa [hpo] using hp.2
      rcases hm hpo hqo.1 with h | h
      · simp [hpm] at h
      · simp [hqo.2] at h
    case isFalse => exact hle

/-- A deletion keeps two properties it keeps in order. -/
theorem plistDelete_le {offset size : Int} (hs : 0 ≤ size) {p q p' q' : QEProperty}
    (hle : p.offset ≤ q.offset) (hp : plistDelete offset size p = some p')
    (hq : plistDelete offset size q = some q') : p'.offset ≤ q'.offset := by
  unfold plistDelete at hp hq
  split_ifs at hp hq <;> cases hp <;> cases hq <;> (try dsimp only) <;> omega

/-- `eb_plist_callback` keeps the list in order, but for an insertion at an
offset where a marked property follows an unmarked one. -/
theorem ebPlistCallback_sorted {e : EditEvent} (hs : 0 ≤ e.size) (h : OffsetsSorted pl)
    (hm : e.op = .insert → MarksFirstAt e.offset pl) : OffsetsSorted (ebPlistCallback pl e) := by
  unfold OffsetsSorted MarksFirstAt at *
  unfold ebPlistCallback
  split
  case h_1 hop =>
    exact List.pairwise_map.mpr ((h.and (hm hop)).imp fun hpq => plistInsert_le hs hpq.1 hpq.2)
  case h_2 =>
    exact List.Pairwise.filterMap (plistDelete e.offset e.size)
      (fun _ _ hle _ hp _ hq => plistDelete_le hs hle hp hq) h
  case h_3 | h_4 => exact h

end Sorted

/-! ## What the order is for

On a list in order, `eb_find_property` with no `stop` property finds the last
property of the type in `[offset, offset2)`: the scan may stop at the first
property past `offset2`, since none after it is inside. -/

section Find

variable {pl : List QEProperty} {offset offset2 : Int} {type : Nat}

theorem findPropertyLoop_of_sorted (h : OffsetsSorted pl) (i : Nat) (found : Option QEProperty) :
    findPropertyLoop offset offset2 type none pl i found =
      ((pl.filter fun p => offset ≤ p.offset ∧ p.offset < offset2 ∧ p.type = type).getLast?).or
        found := by
  induction pl generalizing i found with
  | nil => rfl
  | cons p pl ih =>
    have hp := List.pairwise_cons.mp h
    rw [findPropertyLoop]
    by_cases hstop : offset2 ≤ p.offset
    · -- every property from `p` on is past `offset2`
      have hnil : ((p :: pl).filter fun p =>
          offset ≤ p.offset ∧ p.offset < offset2 ∧ p.type = type) = [] := by
        rw [List.filter_eq_nil_iff]
        intro q hq
        rcases List.mem_cons.mp hq with rfl | hq
        · simp only [decide_eq_true_eq]
          omega
        · have := hp.1 q hq
          simp only [decide_eq_true_eq]
          omega
      rw [if_pos (.inr hstop), hnil]
      rfl
    · rw [if_neg (by simp [hstop]), ih hp.2, List.filter_cons]
      by_cases hin : offset ≤ p.offset ∧ p.type = type
      · rw [if_pos hin, if_pos (by simp only [decide_eq_true_eq]; omega), List.getLast?_cons]
        cases (pl.filter _).getLast? <;> rfl
      · rw [if_neg hin, if_neg (by simp only [decide_eq_true_eq]; omega)]

/-- On a list in order, `eb_find_property` with no `stop` finds the last property of the
type in `[offset, offset2)`. -/
theorem ebFindProperty_of_sorted (h : OffsetsSorted pl) :
    ebFindProperty pl offset offset2 type none =
      (pl.filter fun p => offset ≤ p.offset ∧ p.offset < offset2 ∧ p.type = type).getLast? := by
  rw [ebFindProperty, findPropertyLoop_of_sorted h]
  cases (pl.filter _).getLast? <;> rfl

end Find

/-! ## Unmarked properties stay in order

The tags of the colorizers carry no `QE_PROP_MARK`: over any run of the buffer
functions and of the property functions that adds no marked property, the list
stays in order. -/

/-- No property of the list is marked. -/
def NoMarks (pl : List QEProperty) : Prop := ∀ p ∈ pl, p.isMark = false

section NoMarks

variable {st : PropertyState} {pl : List QEProperty}

theorem NoMarks.marksFirstAt (h : NoMarks pl) (offset : Int) : MarksFirstAt offset pl := by
  induction pl with
  | nil => exact .nil
  | cons p pl ih =>
    have hpl : NoMarks pl := fun q hq => h q (List.mem_cons_of_mem p hq)
    exact .cons (fun q hq _ _ => .inr (hpl q hq)) (ih hpl)

theorem and_eight_eq (x : Nat) : x &&& 8 = x % 16 / 8 * 8 := by
  have h15 : x &&& 8 = x % 16 &&& 8 := by
    rw [← Nat.and_two_pow_sub_one_eq_mod x 4, Nat.and_assoc]
    rfl
  have hsmall : ∀ y, y < 16 → y &&& 8 = y / 8 * 8 := by decide
  rw [h15, hsmall _ (Nat.mod_lt _ (by decide))]

/-- Freeing the text is no mark. -/
theorem clearBits_free_mark (x : Nat) : clearBits x QE_PROP_FREE &&& QE_PROP_MARK = x &&& QE_PROP_MARK := by
  unfold clearBits QE_PROP_FREE QE_PROP_MARK
  rw [and_eight_eq, and_eight_eq, Nat.and_one_is_mod]
  omega

theorem ebAddProperty_noMarks (h : NoMarks st.propertyList) (offset : Int) (type : Nat) {flags : Nat}
    (hflags : flags &&& QE_PROP_MARK = 0) (data : List UInt8) :
    NoMarks (ebAddProperty st offset type flags data).propertyList := by
  intro p hp
  rcases mem_insertProperty.mp hp with rfl | hp
  · -- the new property, with the flags given or without `QE_PROP_FREE`
    simp only [QEProperty.isMark, bne_eq_false_iff_eq]
    split
    · rw [clearBits_free_mark, hflags]
    · exact hflags
  · exact h p hp

theorem ebAddTag_noMarks (h : NoMarks st.propertyList) (offset : Int) (s : List UInt8) :
    NoMarks (ebAddTag st offset s).propertyList := by
  unfold ebAddTag
  split
  · exact h
  · exact ebAddProperty_noMarks h _ _ (by decide) _

theorem plistInsert_flags (offset size : Int) (p : QEProperty) :
    (plistInsert offset size p).flags = p.flags := by
  unfold plistInsert
  split_ifs <;> rfl

theorem plistDelete_flags {offset size : Int} {p p' : QEProperty}
    (h : plistDelete offset size p = some p') : p'.flags = p.flags := by
  unfold plistDelete at h
  split_ifs at h <;> cases h <;> rfl

theorem ebPlistCallback_noMarks (h : NoMarks pl) (e : EditEvent) :
    NoMarks (ebPlistCallback pl e) := by
  intro p hp
  unfold ebPlistCallback at hp
  split at hp
  · obtain ⟨q, hq, rfl⟩ := List.mem_map.mp hp
    simpa [QEProperty.isMark, plistInsert_flags] using h q hq
  · obtain ⟨q, hq, hqp⟩ := List.mem_filterMap.mp hp
    simpa [QEProperty.isMark, plistDelete_flags hqp] using h q hq
  all_goals exact h p hp

/-- What one notification keeps, `notify` keeps, however many times the
callback is registered. -/
theorem PropertyState.notify_of {P : List QEProperty → Prop} {e : EditEvent}
    (hP : ∀ pl, P pl → P (ebPlistCallback pl e)) (h : P st.propertyList) :
    P (st.notify e).propertyList :=
  Function.Iterate.rec P h hP st.plistCallbacks

/-- What each notification keeps, `notifyAll` keeps. -/
theorem PropertyState.notifyAll_of {P : List QEProperty → Prop} :
    ∀ {es : List EditEvent} {st : PropertyState},
      (∀ e ∈ es, ∀ pl, P pl → P (ebPlistCallback pl e)) → P st.propertyList →
        P (st.notifyAll es).propertyList
  | [], _, _, h => h
  | e :: es, st, hP, h => by
    have h₁ := notify_of (hP e List.mem_cons_self) h
    exact @notifyAll_of P es (st.notify e) (fun e' he' => hP e' (List.mem_cons_of_mem e he')) h₁

/-- Unmarked properties in order stay so through notifications of sizes at
least 0. -/
theorem notifyAll_sorted {es : List EditEvent} (hs : ∀ e ∈ es, 0 ≤ e.size)
    (h : OffsetsSorted st.propertyList ∧ NoMarks st.propertyList) :
    OffsetsSorted (st.notifyAll es).propertyList ∧ NoMarks (st.notifyAll es).propertyList := by
  have hstep : ∀ e ∈ es, ∀ pl, OffsetsSorted pl ∧ NoMarks pl →
      OffsetsSorted (ebPlistCallback pl e) ∧ NoMarks (ebPlistCallback pl e) :=
    fun e he _ hpl => ⟨ebPlistCallback_sorted (hs e he) hpl.1 (fun _ => hpl.2.marksFirstAt _),
      ebPlistCallback_noMarks hpl.2 e⟩
  exact PropertyState.notifyAll_of hstep h

end NoMarks

/-- The notifications of a change of the text have sizes at least 0. -/
theorem Describes.size_nonneg {es : List EditEvent} {t t' : List UInt8} (h : Describes es t t') :
    ∀ e ∈ es, 0 ≤ e.size := by
  induction h with
  | nil => intro e he; cases he
  | cons he _ ih =>
    intro e' he'
    rcases List.mem_cons.mp he' with rfl | he'
    · exact he.fits.2.1
    · exact ih e' he'

namespace PropertyOp

/-- What a buffer function asks of its arguments (`BufferOp.Ok`). -/
def Ok : PropertyOp → PropBuffer → Prop
  | edit op, s => op.Ok s.buffer
  | _, _ => True

/-- The function adds no marked property. -/
def Unmarked : PropertyOp → Prop
  | addProperty _ _ flags _ => flags &&& QE_PROP_MARK = 0
  | _ => True

/-- The buffer keeps the page invariant with the callbacks on, and the
properties, none marked, are in order. -/
structure Inv (s : PropBuffer) : Prop where
  wf : s.buffer.WF
  callbacks : s.buffer.saveLog &&& 2 = 0
  sorted : OffsetsSorted s.props.propertyList
  noMarks : NoMarks s.props.propertyList

variable {s s' : PropBuffer}

theorem run_inv {op : PropertyOp} (h : Inv s) (hok : op.Ok s) (hun : op.Unmarked)
    (hrun : op.run s = some s') : Inv s' := by
  cases op with
  | addProperty offset type flags data =>
    cases hrun
    exact ⟨h.wf, h.callbacks, ebAddProperty_sorted h.sorted _ _ _ _,
      ebAddProperty_noMarks h.noMarks _ _ hun _⟩
  | addTag offset str =>
    cases hrun
    exact ⟨h.wf, h.callbacks, ebAddTag_sorted h.sorted _ _, ebAddTag_noMarks h.noMarks _ _⟩
  | delProperty i =>
    cases hrun
    have hsub : ((ebDelProperty s.props i).2.propertyList).Sublist s.props.propertyList := by
      unfold ebDelProperty
      split
      · exact List.eraseIdx_sublist _ _
      · exact .refl _
    exact ⟨h.wf, h.callbacks, ebDelProperty_sorted h.sorted _,
      fun p hp => h.noMarks p (hsub.subset hp)⟩
  | deleteProperties offset offset2 mask =>
    cases hrun
    have hsub : (ebDeleteProperties s.props offset offset2 mask).propertyList.Sublist
        s.props.propertyList := by
      unfold ebDeleteProperties
      split
      · exact .refl _
      · exact deletePropertiesLoop_sublist _ _ _ _
    exact ⟨h.wf, h.callbacks, ebDeleteProperties_sorted h.sorted _ _ _,
      fun p hp => h.noMarks p (hsub.subset hp)⟩
  | edit op =>
    -- the buffer function notifies its change, in notifications of sizes at least 0
    obtain ⟨b', hb', rfl⟩ := Option.map_eq_some_iff.mp hrun
    have hn := BufferOp.run_notifies h.wf h.callbacks hok hb'
    have hps := notifyAll_sorted hn.sentSince.size_nonneg ⟨h.sorted, h.noMarks⟩
    exact ⟨hn.wf, hn.callbacks, hps.1, hps.2⟩

end PropertyOp

/-- What each function of the run asks, of the state it meets. -/
def PropOpsOk : List PropertyOp → PropBuffer → Prop
  | [], _ => True
  | op :: ops, s => op.Ok s ∧ ∀ s', op.run s = some s' → PropOpsOk ops s'

/-- Over a run that adds no marked property, the property list stays in
order. -/
theorem runProps_inv :
    ∀ (ops : List PropertyOp) (s s' : PropBuffer), PropertyOp.Inv s → PropOpsOk ops s →
      (∀ op ∈ ops, op.Unmarked) → runProps ops s = some s' → PropertyOp.Inv s'
  | [], s, s', h, _, _, hrun => by
    cases hrun
    exact h
  | op :: ops, s, s', h, hok, hun, hrun => by
    obtain ⟨s₁, h₁, hrest⟩ := Option.bind_eq_some_iff.mp hrun
    have hinv₁ := PropertyOp.run_inv h hok.1 (hun op List.mem_cons_self) h₁
    exact runProps_inv ops s₁ s' hinv₁ (hok.2 s₁ h₁) (fun op' hop' => hun op' (List.mem_cons_of_mem op hop')) hrest

/-- The text `abcdef`, loaded, with no property. -/
def abcdefProps : PropBuffer :=
  ⟨ebMmapBuffer (EditBuffer.empty charset_raw .unix) (cstr "abcdef"), PropertyState.empty⟩

/-- Over a run that adds no marked property, `eb_find_property` still finds, in the state
the run ends in, the last property of the type in `[offset, offset2)`. -/
theorem runProps_find {ops : List PropertyOp} {s s' : PropBuffer} (h : PropertyOp.Inv s)
    (hok : PropOpsOk ops s) (hun : ∀ op ∈ ops, op.Unmarked) (hrun : runProps ops s = some s') :
    PropertyOp.Inv s' ∧ ∀ (offset offset2 : Int) (type : Nat),
      ebFindProperty s'.props.propertyList offset offset2 type none =
        (s'.props.propertyList.filter fun p =>
          offset ≤ p.offset ∧ p.offset < offset2 ∧ p.type = type).getLast? := by
  have hinv := runProps_inv ops s s' h hok hun hrun
  exact ⟨hinv, fun _ _ _ => ebFindProperty_of_sorted hinv.sorted⟩

/-- A tag, an insertion in front of it and a second tag, from `abcdef`. -/
theorem runProps_find_tags :
    ∃ s', runProps [.addTag 2 (cstr "f"), .edit (.insert 0 (cstr "xy") 2), .addTag 5 (cstr "g")]
        abcdefProps = some s' ∧
      PropertyOp.Inv s' ∧ ∀ (offset offset2 : Int) (type : Nat),
        ebFindProperty s'.props.propertyList offset offset2 type none =
          (s'.props.propertyList.filter fun p =>
            offset ≤ p.offset ∧ p.offset < offset2 ∧ p.type = type).getLast? := by
  have h : PropertyOp.Inv abcdefProps :=
    ⟨mmap_wf _ _ _, by decide, List.Pairwise.nil, fun _ h => absurd h List.not_mem_nil⟩
  have hun : ∀ op ∈ [PropertyOp.addTag 2 (cstr "f"), .edit (.insert 0 (cstr "xy") 2),
      .addTag 5 (cstr "g")], op.Unmarked := by
    intro op hop
    simp only [List.mem_cons, List.not_mem_nil, or_false] at hop
    rcases hop with rfl | rfl | rfl <;> trivial
  refine ⟨_, rfl, runProps_find h ?_ hun rfl⟩
  -- only the insertion asks something: that its buffer holds its 2 bytes
  have hins : (2 : Int) ≤ (cstr "xy").length := by decide
  exact ⟨trivial, fun _ _ => ⟨hins, fun _ _ => ⟨trivial, fun _ _ => trivial⟩⟩⟩

/-! ## Where the order and the bounds are lost -/

/-- A tag at offset 5, then a shell directory (`QE_PROP_MARK | QE_PROP_KEEP`)
at the same offset, placed after it, and an insertion of 3 bytes there: the tag
moves to 8 and the directory stays at 5, out of order, and
`eb_find_property` over `[0, 6)` no longer finds the directory. A tag deleted
with its text leaves the callback registered, the next tag registers it again,
and an insertion of 3 bytes in the emptied buffer moves the new tag by 6, past
the end of the text. -/
theorem runProps_mark_unsorts_and_reregisters :
    ((runProps [.addTag 5 (cstr "f"),
        .addProperty 5 QE_PROP_CWD (QE_PROP_DUP ||| QE_PROP_KEEP ||| QE_PROP_MARK) (cstr "/"),
        .edit (.insert 5 (cstr "xyz") 3)] abcdefProps).map fun s =>
      (s.props.propertyList.map (·.offset),
        ebFindProperty s.props.propertyList 0 6 QE_PROP_CWD none)) = some ([8, 5], none) ∧
    ((runProps [.addTag 0 (cstr "f"), .edit (.delete 0 6), .addTag 0 (cstr "g"),
        .edit (.insert 0 (cstr "xyz") 3)] abcdefProps).map fun s =>
      (s.buffer.totalSize, s.props.plistCallbacks, s.props.propertyList.map (·.offset))) =
      some (3, 2, [6]) := by
  constructor <;> decide

end Qemacs
