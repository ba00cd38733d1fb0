import Mathlib.Data.List.Infix

/-!
# `strxcmp` and `strxfind`

The comparisons of names in util.c that ignore ASCII case and the bytes `-`, `_` and
space: `strxcmp`, and `strxfind`, which looks a name up in a list of names separated by
`|` (the extensions and names of a mode). Strings are C strings: the bytes before the
terminating NUL, none of them a NUL.

Both compute the same thing, the equality of names once the skipped bytes are dropped and
the letters upper-cased (`strxKey`): `strxcmp` returns 0 exactly then
(`strxcmp_eq_zero_iff`), and `strxfind` finds a name without `|` exactly when some item of
the list, a maximal run of bytes without `|`, has the same key (`strxfind_iff`). Every item
counts there, the empty first and last items included: a name made of skipped bytes only,
such as `"-"`, has an empty key and is found in `"|abc"`. The empty name is the special
case: it is found when the list holds `||`. A name with a `|` in it is compared across the
items of the list.
-/

namespace Qemacs

/-- The bytes `strxcmp` and `strxfind` pass over: `-`, `_` and space. -/
def isSkip (c : UInt8) : Bool := c == 0x2d || c == 0x5f || c == 0x20

/-- `qe_toupper` on a byte. -/
def qeToupper8 (c : UInt8) : UInt8 := if 0x61 ≤ c ∧ c ≤ 0x7a then c + 0x41 - 0x61 else c

/-! ## The model -/

theorem ne_zero_of_isSkip {c : UInt8} (h : isSkip c = true) : c ≠ 0 := by
  rintro rfl
  simp [isSkip] at h

/-- Reading a byte that is not the NUL moves along the string. -/
theorem tail_length_lt {l : List UInt8} (h : l.headD 0 ≠ 0) : l.tail.length < l.length := by
  cases l with
  | nil => simp at h
  | cons c l => simp

/-- `strxcmp`: the sign of the comparison; a byte that differs from the other side is passed
over when it is skipped, the right side's first. -/
def strxcmp (str1 str2 : List UInt8) : Int :=
  let c1 := str1.headD 0
  let c2 := str2.headD 0
  if qeToupper8 c1 ≠ qeToupper8 c2 then
    if isSkip c2 then strxcmp str1 str2.tail
    else if isSkip c1 then strxcmp str1.tail str2
    else if qeToupper8 c1 < qeToupper8 c2 then -1 else 1
  else if c1 = 0 then 0
  else strxcmp str1.tail str2.tail
termination_by str1.length + str2.length
decreasing_by
  · have := tail_length_lt (ne_zero_of_isSkip ‹isSkip c2 = true›)
    omega
  · have := tail_length_lt (ne_zero_of_isSkip ‹isSkip c1 = true›)
    omega
  · have h1 := tail_length_lt (l := str1) ‹¬c1 = 0›
    have h2 : str2.tail.length ≤ str2.length := by simp
    omega

/-- The `do ... while` loops of `strxfind`: the next byte upper-cased, past `-`, `_` and
spaces, and the bytes after it; at the end of the string, the NUL. -/
def nextKey : List UInt8 → UInt8 × List UInt8
  | [] => (0, [])
  | c :: s => if isSkip (qeToupper8 c) then nextKey s else (qeToupper8 c, s)

/-- The loop from `skip:` on: the bytes of the current item are passed over up to the next
`|`, after which the scan starts again (`some`), or up to the end of the list (`none`). -/
def skipItem : List UInt8 → Option (List UInt8)
  | [] => none
  | c :: q => if c = 0x7c then some q else skipItem q

theorem nextKey_length_le (q : List UInt8) : (nextKey q).2.length ≤ q.length := by
  induction q with
  | nil => simp [nextKey]
  | cons c q ih =>
    unfold nextKey
    split <;> simp only [List.length_cons] <;> omega

theorem nextKey_length_lt {q : List UInt8} (h : (nextKey q).1 ≠ 0) :
    (nextKey q).2.length < q.length := by
  induction q with
  | nil => simp [nextKey] at h
  | cons c q ih =>
    by_cases hc : isSkip (qeToupper8 c) = true
    · rw [nextKey, if_pos hc] at h ⊢
      have := ih h
      simp only [List.length_cons]
      omega
    · rw [nextKey, if_neg hc]
      simp

theorem skipItem_length {q q' : List UInt8} (h : skipItem q = some q') : q'.length < q.length := by
  induction q with
  | nil => simp [skipItem] at h
  | cons c q ih =>
    unfold skipItem at h
    split at h
    · cases h
      simp
    · have := ih h
      simp only [List.length_cons]
      omega

/-- The scan of `strxfind` (from `scan:`), with `p` what is left of the name and `q` of the
list. -/
def strxfindScan (s p q : List UInt8) : Bool :=
  let c1 := (nextKey p).1
  let c2 := (nextKey q).1
  if c1 = 0 then
    -- the name is over: found if the item is over too
    if c2 = 0 ∨ c2 = 0x7c then true
    else match _h : skipItem (nextKey q).2 with
      | none => false
      | some q' => strxfindScan s s q'
  else if c1 ≠ c2 then
    if c2 = 0x7c then strxfindScan s s (nextKey q).2
    else if c2 = 0 then false
    else match _h : skipItem (nextKey q).2 with
      | none => false
      | some q' => strxfindScan s s q'
  else strxfindScan s (nextKey p).2 (nextKey q).2
termination_by q.length
decreasing_by
  · have h1 := nextKey_length_le q
    have h2 := skipItem_length _h
    omega
  · have hc2 : (nextKey q).1 = 0x7c := ‹c2 = 0x7c›
    exact nextKey_length_lt (by rw [hc2]; decide)
  · have h1 := nextKey_length_le q
    have h2 := skipItem_length _h
    omega
  · have hc : c1 = c2 := not_not.mp ‹¬c1 ≠ c2›
    exact nextKey_length_lt fun h0 => ‹¬c1 = 0› (hc.trans h0)

/-- The special case of the empty name: a `||` in the list. -/
def hasEmptyItem : List UInt8 → Bool
  | a :: b :: q => (a == 0x7c && b == 0x7c) || hasEmptyItem (b :: q)
  | _ => false

/-- `strxfind` (the list is not a null pointer). -/
def strxfind (list s : List UInt8) : Bool :=
  if s = [] then hasEmptyItem list else strxfindScan s s list

/-! ## Keys -/

/-- The key of a name: its bytes but the skipped ones, upper-cased. -/
def strxKey (w : List UInt8) : List UInt8 := (w.filter fun c => !isSkip c).map qeToupper8

@[simp] theorem strxKey_nil : strxKey [] = [] := rfl

theorem strxKey_cons_skip {c : UInt8} (w : List UInt8) (hc : isSkip c = true) :
    strxKey (c :: w) = strxKey w := by
  simp [strxKey, hc]

theorem strxKey_cons {c : UInt8} (w : List UInt8) (hc : isSkip c = false) :
    strxKey (c :: w) = qeToupper8 c :: strxKey w := by
  simp [strxKey, hc]

theorem qeToupper8_eq_zero_iff (c : UInt8) : qeToupper8 c = 0 ↔ c = 0 := by
  unfold qeToupper8
  split_ifs with h
  · simp only [UInt8.le_iff_toNat_le, UInt8.ext_iff, UInt8.toNat_sub, UInt8.toNat_add,
      UInt8.reduceToNat, Nat.reducePow] at h ⊢
    omega
  · rfl

theorem qeToupper8_eq_bar_iff (c : UInt8) : qeToupper8 c = 0x7c ↔ c = 0x7c := by
  unfold qeToupper8
  split_ifs with h
  · simp only [UInt8.le_iff_toNat_le, UInt8.ext_iff, UInt8.toNat_sub, UInt8.toNat_add,
      UInt8.reduceToNat, Nat.reducePow] at h ⊢
    omega
  · rfl

/-- Upper-casing neither makes nor unmakes a skipped byte. -/
@[simp] theorem isSkip_qeToupper8 (c : UInt8) : isSkip (qeToupper8 c) = isSkip c := by
  unfold qeToupper8
  split_ifs with h
  · rw [Bool.eq_iff_iff]
    simp only [isSkip, Bool.or_eq_true, beq_iff_eq, UInt8.ext_iff, UInt8.toNat_sub,
      UInt8.toNat_add, UInt8.reduceToNat, Nat.reducePow, UInt8.le_iff_toNat_le] at h ⊢
    omega
  · rfl

/-! ## `strxcmp` compares keys -/

section Heads

variable {l : List UInt8}

theorem eq_nil_of_headD {a : UInt8} (h : a ∉ l) (h' : l.headD 0 = a) : l = [] := by
  cases l with
  | nil => rfl
  | cons c l =>
    subst h'
    simp at h

theorem strxKey_of_skip_head (h : isSkip (l.headD 0) = true) : strxKey l = strxKey l.tail := by
  cases l with
  | nil => simp [isSkip] at h
  | cons c l => exact strxKey_cons_skip l h

theorem strxKey_of_head (h0 : l.headD 0 ≠ 0) (h : isSkip (l.headD 0) = false) :
    strxKey l = qeToupper8 (l.headD 0) :: strxKey l.tail := by
  cases l with
  | nil => simp at h0
  | cons c l => exact strxKey_cons l h

/-- The first byte of a key, or the NUL: the first byte of the name upper-cased, when it is
not skipped. -/
theorem headD_strxKey (h : isSkip (l.headD 0) = false) :
    (strxKey l).headD 0 = qeToupper8 (l.headD 0) := by
  cases l with
  | nil => rfl
  | cons c l =>
    rw [List.headD_cons] at h ⊢
    rw [strxKey_cons l h, List.headD_cons]

end Heads

/-- `strxcmp` returns 0 exactly on names of the same key. -/
theorem strxcmp_eq_zero_iff (str1 str2 : List UInt8) (h1 : 0 ∉ str1) (h2 : 0 ∉ str2) :
    strxcmp str1 str2 = 0 ↔ strxKey str1 = strxKey str2 := by
  have tail_ok : ∀ {l : List UInt8}, 0 ∉ l → 0 ∉ l.tail := fun h h' => h (List.mem_of_mem_tail h')
  fun_induction strxcmp str1 str2 with
  | case1 str1 str2 c1 c2 _ hc2 ih =>
    -- a skipped byte on the right
    refine (ih h1 (tail_ok h2)).trans ?_
    rw [strxKey_of_skip_head (l := str2) hc2]
  | case2 str1 str2 c1 c2 _ _ hc1 ih =>
    -- a skipped byte on the left
    refine (ih (tail_ok h1) h2).trans ?_
    rw [strxKey_of_skip_head (l := str1) hc1]
  | case3 str1 str2 c1 c2 hne hc2 hc1 _ | case4 str1 str2 c1 c2 hne hc2 hc1 _ =>
    -- the keys differ in their first byte
    simp only [Int.reduceNeg, Int.reduceEq, false_iff, reduceCtorEq]
    intro hkey
    apply hne
    rw [← headD_strxKey (l := str1) (Bool.eq_false_iff.mpr hc1),
      ← headD_strxKey (l := str2) (Bool.eq_false_iff.mpr hc2), hkey]
  | case5 str1 str2 c1 c2 heq hc1 =>
    -- both names are over
    have heq' : qeToupper8 c1 = qeToupper8 c2 := not_not.mp heq
    have hs1 : str1 = [] := eq_nil_of_headD h1 hc1
    have hc2 : c2 = 0 := (qeToupper8_eq_zero_iff c2).mp (heq'.symm.trans (by rw [hc1]; rfl))
    rw [hs1, eq_nil_of_headD h2 hc2]
    simp
  | case6 str1 str2 c1 c2 heq hc1 ih =>
    -- the same byte on both sides, but for its case
    have heq' : qeToupper8 c1 = qeToupper8 c2 := not_not.mp heq
    have hc2 : c2 ≠ 0 := fun h0 =>
      hc1 ((qeToupper8_eq_zero_iff c1).mp (heq'.trans (by rw [h0]; rfl)))
    have hskip : isSkip c1 = isSkip c2 := by rw [← isSkip_qeToupper8 c1, heq', isSkip_qeToupper8]
    refine (ih (tail_ok h1) (tail_ok h2)).trans ?_
    cases hs : isSkip c1
    · rw [strxKey_of_head (l := str1) hc1 hs, strxKey_of_head (l := str2) hc2 (hskip ▸ hs), heq',
        List.cons.injEq]
      exact ⟨fun h => ⟨rfl, h⟩, fun h => h.2⟩
    · rw [strxKey_of_skip_head (l := str1) hs, strxKey_of_skip_head (l := str2) (hskip ▸ hs)]

/-! ## `strxfind` compares the name with each item -/

/-- The item of the list that starts at `q`, up to the next `|`. -/
def firstItem (q : List UInt8) : List UInt8 := (q.splitOn 0x7c).headD []

/-- The items of the list after the one that starts at `q`. -/
def laterItems (q : List UInt8) : List (List UInt8) := (q.splitOn 0x7c).tail

section Items

variable {c : UInt8} {q : List UInt8}

theorem splitOn_eq_items (q : List UInt8) : q.splitOn 0x7c = firstItem q :: laterItems q := by
  unfold firstItem laterItems
  obtain ⟨w, ws, h⟩ := List.exists_cons_of_ne_nil (List.splitOn_ne_nil 0x7c q)
  rw [h]
  rfl

theorem exists_mem_splitOn (q : List UInt8) (P : List UInt8 → Prop) :
    (∃ w ∈ q.splitOn 0x7c, P w) ↔ P (firstItem q) ∨ ∃ w ∈ laterItems q, P w := by
  rw [splitOn_eq_items]
  simp only [List.mem_cons, or_and_right, exists_or, exists_eq_left]

@[simp] theorem firstItem_nil : firstItem [] = [] := rfl

@[simp] theorem laterItems_nil : laterItems [] = [] := rfl

@[simp] theorem firstItem_cons_bar : firstItem (0x7c :: q) = [] := by
  simp [firstItem, List.splitOn_cons_eq_if_modifyHead]

@[simp] theorem laterItems_cons_bar : laterItems (0x7c :: q) = q.splitOn 0x7c := by
  simp [laterItems, List.splitOn_cons_eq_if_modifyHead]

theorem firstItem_cons (hc : c ≠ 0x7c) : firstItem (c :: q) = c :: firstItem q := by
  unfold firstItem
  rw [List.splitOn_cons_eq_if_modifyHead, if_neg (by simpa using hc), splitOn_eq_items]
  rfl

theorem laterItems_cons (hc : c ≠ 0x7c) : laterItems (c :: q) = laterItems q := by
  unfold laterItems
  rw [List.splitOn_cons_eq_if_modifyHead, if_neg (by simpa using hc), List.tail_modifyHead]

/-- Past the current item, the later items are those after the `|` that ends it. -/
theorem laterItems_of_skipItem_some {q' : List UInt8} (h : skipItem q = some q') :
    laterItems q = q'.splitOn 0x7c := by
  induction q with
  | nil => simp [skipItem] at h
  | cons c q ih =>
    unfold skipItem at h
    split at h
    · rename_i hc
      cases h
      rw [hc, laterItems_cons_bar]
    · rename_i hc
      rw [laterItems_cons hc, ih h]

theorem laterItems_of_skipItem_none (h : skipItem q = none) : laterItems q = [] := by
  induction q with
  | nil => rfl
  | cons c q ih =>
    unfold skipItem at h
    split at h
    · cases h
    · rename_i hc
      rw [laterItems_cons hc, ih h]

theorem skipItem_suffix {q' : List UInt8} (h : skipItem q = some q') : q' <:+ q := by
  induction q with
  | nil => simp [skipItem] at h
  | cons c q ih =>
    unfold skipItem at h
    split at h
    · cases h
      exact List.suffix_cons c _
    · exact (ih h).trans (List.suffix_cons c q)

theorem nextKey_suffix (q : List UInt8) : (nextKey q).2 <:+ q := by
  induction q with
  | nil => exact List.suffix_refl _
  | cons c q ih =>
    unfold nextKey
    split
    · exact ih.trans (List.suffix_cons c q)
    · exact List.suffix_cons c q

/-- On the name's side: the key is what `nextKey` reads, then the key of the rest. -/
theorem nextKey_key (h0 : 0 ∉ q) :
    strxKey q = if (nextKey q).1 = 0 then [] else (nextKey q).1 :: strxKey (nextKey q).2 := by
  induction q with
  | nil => rfl
  | cons c q ih =>
    have hc0 : c ≠ 0 := fun h => h0 (h ▸ List.mem_cons_self)
    unfold nextKey
    split
    · rename_i hs
      rw [isSkip_qeToupper8] at hs
      rw [strxKey_cons_skip q hs, ih (fun h => h0 (List.mem_cons_of_mem c h))]
    · rename_i hs
      rw [isSkip_qeToupper8, Bool.not_eq_true] at hs
      rw [strxKey_cons q hs, if_neg (by rwa [qeToupper8_eq_zero_iff])]

/-- `nextKey` reads the NUL only at the end of the string. -/
theorem nextKey_snd_of_fst_zero (h0 : 0 ∉ q) (h : (nextKey q).1 = 0) : (nextKey q).2 = [] := by
  induction q with
  | nil => rfl
  | cons c q ih =>
    unfold nextKey at h ⊢
    split at h
    · rename_i hs
      rw [if_pos hs]
      exact ih (fun h' => h0 (List.mem_cons_of_mem c h')) h
    · rw [qeToupper8_eq_zero_iff] at h
      exact absurd (h ▸ List.mem_cons_self) h0

theorem nextKey_fst_ne_bar (hb : 0x7c ∉ q) : (nextKey q).1 ≠ 0x7c := by
  induction q with
  | nil => decide
  | cons c q ih =>
    unfold nextKey
    split
    · exact ih (fun h => hb (List.mem_cons_of_mem c h))
    · rw [ne_eq, qeToupper8_eq_bar_iff]
      exact fun h => hb (h ▸ List.mem_cons_self)

/-- On the list's side: the key of the current item is what `nextKey` reads, unless that
is the NUL or a `|`, then the key of the rest of the item. -/
theorem nextKey_firstItem (h0 : 0 ∉ q) :
    strxKey (firstItem q) = if (nextKey q).1 = 0 ∨ (nextKey q).1 = 0x7c then []
      else (nextKey q).1 :: strxKey (firstItem (nextKey q).2) := by
  induction q with
  | nil => rfl
  | cons c q ih =>
    have hc0 : c ≠ 0 := fun h => h0 (h ▸ List.mem_cons_self)
    unfold nextKey
    split
    · rename_i hs
      rw [isSkip_qeToupper8] at hs
      have hbar : c ≠ 0x7c := by rintro rfl; simp [isSkip] at hs
      rw [firstItem_cons hbar, strxKey_cons_skip _ hs, ih (fun h => h0 (List.mem_cons_of_mem c h))]
    · rename_i hs
      rw [isSkip_qeToupper8, Bool.not_eq_true] at hs
      by_cases hbar : c = 0x7c
      · subst hbar
        rfl
      · rw [firstItem_cons hbar, strxKey_cons _ hs, if_neg]
        rw [qeToupper8_eq_zero_iff, qeToupper8_eq_bar_iff]
        tauto

/-- On the list's side: the later items stay, unless `nextKey` read the `|` that ends the
current item. -/
theorem nextKey_laterItems (h0 : 0 ∉ q) :
    laterItems q = if (nextKey q).1 = 0x7c then (nextKey q).2.splitOn 0x7c
      else laterItems (nextKey q).2 := by
  induction q with
  | nil => rfl
  | cons c q ih =>
    unfold nextKey
    split
    · rename_i hs
      rw [isSkip_qeToupper8] at hs
      have hbar : c ≠ 0x7c := by rintro rfl; simp [isSkip] at hs
      rw [laterItems_cons hbar, ih (fun h => h0 (List.mem_cons_of_mem c h))]
    · by_cases hbar : c = 0x7c
      · subst hbar
        rfl
      · rw [laterItems_cons hbar, if_neg (by rwa [qeToupper8_eq_bar_iff])]

end Items

section Scan

variable {p q : List UInt8}

theorem not_mem_of_suffix {a : UInt8} {l l' : List UInt8} (h : l' <:+ l) (ha : a ∉ l) : a ∉ l' :=
  fun h' => ha (h.subset h')

/-- The scan leaves the current item when what it read on both sides differs: then the
item's key is not the rest of the name's. -/
theorem firstItem_key_ne (hp0 : 0 ∉ p) (hq0 : 0 ∉ q) (hne : (nextKey p).1 ≠ (nextKey q).1)
    (h : (nextKey p).1 ≠ 0 ∨ ((nextKey q).1 ≠ 0 ∧ (nextKey q).1 ≠ 0x7c)) :
    strxKey (firstItem q) ≠ strxKey p := by
  rw [nextKey_key hp0, nextKey_firstItem hq0]
  split_ifs with h1 h2 h2
  · exfalso
    rcases h with h | ⟨h, h'⟩ <;> tauto
  · exact (List.cons_ne_nil _ _).symm
  · exact List.cons_ne_nil _ _
  · exact fun heq => hne (List.cons.inj heq).1.symm

/-- Past the rest of an item that the scan gave up. -/
theorem laterItems_after_skip {q' : List UInt8} (hq0 : 0 ∉ q) (hbar : (nextKey q).1 ≠ 0x7c)
    (h : skipItem (nextKey q).2 = some q') : laterItems q = q'.splitOn 0x7c := by
  rw [nextKey_laterItems hq0, if_neg hbar, laterItems_of_skipItem_some h]

theorem laterItems_after_skip_none (hq0 : 0 ∉ q) (hbar : (nextKey q).1 ≠ 0x7c)
    (h : skipItem (nextKey q).2 = none) : laterItems q = [] := by
  rw [nextKey_laterItems hq0, if_neg hbar, laterItems_of_skipItem_none h]

end Scan

/-- The scan from `p` in the name and `q` in the list finds the name when the rest of the
current item has the key of the rest of the name, or a later item the key of the name. -/
theorem strxfindScan_iff (s p q : List UInt8) (hs0 : 0 ∉ s) (hsb : 0x7c ∉ s) (hp0 : 0 ∉ p)
    (hpb : 0x7c ∉ p) (hq0 : 0 ∉ q) :
    strxfindScan s p q = true ↔
      strxKey (firstItem q) = strxKey p ∨ ∃ w ∈ laterItems q, strxKey w = strxKey s := by
  -- the scan of the whole name at the start of an item: the item and the later ones
  have restart : ∀ {r}, (strxfindScan s s r = true ↔
      strxKey (firstItem r) = strxKey s ∨ ∃ w ∈ laterItems r, strxKey w = strxKey s) →
      (strxfindScan s s r = true ↔ ∃ w ∈ r.splitOn 0x7c, strxKey w = strxKey s) :=
    fun h => h.trans (exists_mem_splitOn _ (fun w => strxKey w = strxKey s)).symm
  fun_induction strxfindScan s p q with
  | case1 p q c1 c2 hc1 hc2 =>
    -- both the name and the item are over
    refine iff_of_true rfl (.inl ?_)
    rw [nextKey_key hp0, nextKey_firstItem hq0, if_pos hc2, if_pos hc1]
  | case2 p q c1 c2 hc1 hc2 hskip =>
    -- the name is over, not the item, and no item follows
    have hbar : c2 ≠ 0x7c := fun h => hc2 (.inr h)
    refine iff_of_false (by simp) ?_
    rintro (h | ⟨w, hw, -⟩)
    · exact firstItem_key_ne hp0 hq0 (fun h => hc2 (.inl (h.symm.trans hc1)))
        (.inr ⟨fun h => hc2 (.inl h), hbar⟩) h
    · rw [laterItems_after_skip_none hq0 hbar hskip] at hw
      cases hw
  | case3 p q c1 c2 hc1 hc2 q' hskip ih =>
    -- the name is over, not the item: the scan starts again at the next item
    have hbar : c2 ≠ 0x7c := fun h => hc2 (.inr h)
    have hq0' : 0 ∉ q' :=
      not_mem_of_suffix ((skipItem_suffix hskip).trans (nextKey_suffix q)) hq0
    rw [restart (ih hs0 hsb hq0'), laterItems_after_skip hq0 hbar hskip,
      or_iff_right (firstItem_key_ne hp0 hq0 (fun h => hc2 (.inl (h.symm.trans hc1)))
        (.inr ⟨fun h => hc2 (.inl h), hbar⟩))]
  | case4 p q c1 c2 hc1 hne hc2 ih =>
    -- a mismatch on the `|` that ends the item: the scan starts again after it
    have hq0' : 0 ∉ (nextKey q).2 := not_mem_of_suffix (nextKey_suffix q) hq0
    rw [restart (ih hs0 hsb hq0'), nextKey_laterItems hq0, if_pos hc2,
      or_iff_right (firstItem_key_ne hp0 hq0 hne (.inl hc1))]
  | case5 p q c1 c2 hc1 hne hbar hc2 =>
    -- a mismatch at the end of the list
    refine iff_of_false (by simp) ?_
    rintro (h | ⟨w, hw, -⟩)
    · exact firstItem_key_ne hp0 hq0 hne (.inl hc1) h
    · rw [nextKey_laterItems hq0, if_neg hbar] at hw
      rw [nextKey_snd_of_fst_zero hq0 hc2] at hw
      cases hw
  | case6 p q c1 c2 hc1 hne hbar hc2 hskip =>
    -- a mismatch inside the last item
    refine iff_of_false (by simp) ?_
    rintro (h | ⟨w, hw, -⟩)
    · exact firstItem_key_ne hp0 hq0 hne (.inl hc1) h
    · rw [laterItems_after_skip_none hq0 hbar hskip] at hw
      cases hw
  | case7 p q c1 c2 hc1 hne hbar hc2 q' hskip ih =>
    -- a mismatch inside an item: the scan starts again at the next one
    have hq0' : 0 ∉ q' :=
      not_mem_of_suffix ((skipItem_suffix hskip).trans (nextKey_suffix q)) hq0
    rw [restart (ih hs0 hsb hq0'), laterItems_after_skip hq0 hbar hskip,
      or_iff_right (firstItem_key_ne hp0 hq0 hne (.inl hc1))]
  | case8 p q c1 c2 hc1 heq ih =>
    -- the same byte on both sides
    have heq' : c1 = c2 := not_not.mp heq
    have hc2 : c2 ≠ 0 := heq' ▸ hc1
    have hbar : c2 ≠ 0x7c := heq' ▸ nextKey_fst_ne_bar hpb
    refine (ih (not_mem_of_suffix (nextKey_suffix p) hp0) (not_mem_of_suffix (nextKey_suffix p) hpb)
      (not_mem_of_suffix (nextKey_suffix q) hq0)).trans ?_
    rw [nextKey_key hp0, nextKey_firstItem hq0, nextKey_laterItems hq0, if_neg hc1,
      if_neg (not_or.mpr ⟨hc2, hbar⟩), if_neg hbar]
    rw [List.cons.injEq, eq_true (heq'.symm : (nextKey q).1 = (nextKey p).1), true_and]

theorem hasEmptyItem_iff (list : List UInt8) : hasEmptyItem list = true ↔ [0x7c, 0x7c] <:+: list := by
  fun_induction hasEmptyItem list with
  | case1 a b q ih =>
    -- `||` at the front, or further on
    conv_rhs => rw [List.infix_cons_iff, List.cons_prefix_cons, List.cons_prefix_cons]
    rw [Bool.or_eq_true, ih, Bool.and_eq_true, beq_iff_eq, beq_iff_eq]
    simp only [List.nil_prefix, and_true, eq_comm]
  | case2 l hl =>
    refine iff_of_false (by simp) fun h => ?_
    have hlen := h.length_le
    match l, hl with
    | [], _ => simp at hlen
    | [_], _ => simp at hlen
    | _ :: _ :: _, hl => exact hl _ _ _ rfl

/-- An item of a list without NUL has no NUL. -/
theorem not_mem_of_mem_splitOn {b : UInt8} {l w : List UInt8} (h : b ∉ l)
    (hw : w ∈ l.splitOn 0x7c) : b ∉ w := by
  induction l generalizing w with
  | nil =>
    rw [List.splitOn_nil, List.mem_singleton] at hw
    subst hw
    simp
  | cons c l ih =>
    have hl : b ∉ l := fun h' => h (List.mem_cons_of_mem c h')
    have hlater : ∀ {w}, w ∈ laterItems l → b ∉ w := fun hw' =>
      ih hl (by rw [splitOn_eq_items]; exact List.mem_cons_of_mem _ hw')
    rw [splitOn_eq_items, List.mem_cons] at hw
    by_cases hc : c = 0x7c
    · subst hc
      rw [firstItem_cons_bar, laterItems_cons_bar] at hw
      rcases hw with rfl | hw
      · simp
      · exact ih hl hw
    · rw [firstItem_cons hc, laterItems_cons hc] at hw
      rcases hw with rfl | hw
      · have hfirst : b ∉ firstItem l := ih hl (by rw [splitOn_eq_items]; exact List.mem_cons_self)
        rw [List.mem_cons, not_or]
        exact ⟨fun hb => h (hb ▸ List.mem_cons_self), hfirst⟩
      · exact hlater hw

/-- `strxfind` finds a name without `|` exactly when `strxcmp` matches it with an item of
the list, any item, the empty first and last ones included; it finds the empty name exactly
when the list holds `||`. -/
theorem strxfind_iff (list s : List UInt8) (hl : 0 ∉ list) (hs0 : 0 ∉ s) (hsb : 0x7c ∉ s) :
    strxfind list s = true ↔
      if s = [] then [0x7c, 0x7c] <:+: list else ∃ w ∈ list.splitOn 0x7c, strxcmp w s = 0 := by
  unfold strxfind
  split_ifs with hs
  · exact hasEmptyItem_iff list
  · have hkey : ∀ w ∈ list.splitOn 0x7c, strxcmp w s = 0 ↔ strxKey w = strxKey s :=
      fun w hw => strxcmp_eq_zero_iff w s (not_mem_of_mem_splitOn hl hw) hs0
    rw [strxfindScan_iff s s list hs0 hsb hs0 hsb hl,
      ← exists_mem_splitOn list (fun w => strxKey w = strxKey s)]
    exact ⟨fun ⟨w, hw, h⟩ => ⟨w, hw, (hkey w hw).mpr h⟩,
      fun ⟨w, hw, h⟩ => ⟨w, hw, (hkey w hw).mp h⟩⟩

unseal strxcmp strxfindScan in
/-- `strxfind` finds `"H"` in `"c|h"`, so some item matches it under `strxcmp`. -/
theorem strxfind_finds_folded_item : ∃ w ∈ [0x63, 0x7c, 0x68].splitOn 0x7c, strxcmp w [0x48] = 0 := by
  have h := strxfind_iff [0x63, 0x7c, 0x68] [0x48] (by decide) (by decide) (by decide)
  rw [if_neg (by decide)] at h
  exact h.mp (by decide)

unseal strxcmp strxfindScan in
/-- The empty first item counts for a name of skipped bytes only: `"-"` is found in `"|abc"`
although `strxcmp` does not match it with `"abc"`. A name with a `|` is compared across the
items: `"a|b"` is found in `"a|b"`, and matches none of its items. -/
theorem strxfind_edge_items :
    strxfind [0x7c, 0x61, 0x62, 0x63] [0x2d] = true ∧ strxcmp [0x61, 0x62, 0x63] [0x2d] ≠ 0 ∧
      strxfind [0x61, 0x7c, 0x62] [0x61, 0x7c, 0x62] = true ∧
      ∀ w ∈ [0x61, 0x7c, 0x62].splitOn 0x7c, strxcmp w [0x61, 0x7c, 0x62] ≠ 0 := by
  decide

end Qemacs
