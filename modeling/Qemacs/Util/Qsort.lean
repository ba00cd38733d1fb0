import Mathlib.Data.List.Perm.Basic

/-!
# `qe_qsort_r`

The sort of util.c: a quicksort without recursion, on a stack of `MAXSTACK` entries
holding the segments left to sort. It partitions a segment of 7 elements or more
around the median of three of them, pushes the larger part and keeps sorting the
smaller, and ends each segment by an insertion sort. The comparison takes an opaque
argument, here a state `σ` that each call may change (the sort of lines reads the
buffer through its page cache).

Each loop takes a fuel argument, and the model fails (`none`) where the C code has no
defined behaviour: a comparison or an exchange of an element outside the array, and a
push past the last entry of the stack. A comparison may fail too, as a model of one
that runs out of fuel.

Whatever the comparison does, the sort only ever exchanges two elements of the array,
so what `qe_qsort_r` returns is a permutation of what it got (`qeQsortR_perm`).
-/

namespace Qemacs

section Qsort

variable {α σ : Type} (cmp : σ → α → α → Option (Int × σ))

/-- `MAXSTACK`: the number of entries of the stack of segments. -/
def MAXSTACK : Nat := 64

/-- `exchange`: the elements at `i` and `j` swapped; `none` for an index outside the
array. -/
def exchange (a : List α) (i j : Nat) : Option (List α) := do
  let x ← a[i]?
  let y ← a[j]?
  return (a.set i y).set j x

/-- `compare(thunk, base + x * size, base + y * size)`: the comparison of the elements at
`x` and `y`; `none` for an index outside the array. -/
def compareAt (a : List α) (s : σ) (x y : Nat) : Option (Int × σ) := do
  let ex ← a[x]?
  let ey ← a[y]?
  cmp s ex ey

/-- `med3_r`: the index of the median of the elements at `x`, `y` and `z`. -/
def med3 (a : List α) (s : σ) (x y z : Nat) : Option (Nat × σ) := do
  let (r, s) ← compareAt cmp a s x y
  if r < 0 then
    let (r, s) ← compareAt cmp a s y z
    if r < 0 then return (y, s)
    let (r, s) ← compareAt cmp a s x z
    return (if r < 0 then z else x, s)
  else
    let (r, s) ← compareAt cmp a s y z
    if r > 0 then return (y, s)
    let (r, s) ← compareAt cmp a s x z
    return (if r < 0 then x else z, s)

/-- The scan up of the partition: from `i`, past the elements below `j` that the
pivot at `lb` is greater than. -/
def scanUp (lb j : Nat) : Nat → List α → σ → Nat → Option (Nat × σ)
  | 0, _, _, _ => none
  | fuel + 1, a, s, i =>
    if i < j then do
      let (r, s) ← compareAt cmp a s lb i
      if r > 0 then scanUp lb j fuel a s (i + 1) else return (i, s)
    else some (i, s)

/-- The scan down of the partition: from `j`, past the elements from `i` on that
are greater than the pivot; `m0` stays the offset of `j` from `lb`. -/
def scanDown (lb i : Nat) : Nat → List α → σ → Nat → Nat → Option (Nat × Nat × σ)
  | 0, _, _, _, _ => none
  | fuel + 1, a, s, j, m0 =>
    if j ≥ i then do
      let (r, s) ← compareAt cmp a s j lb
      if r > 0 then scanDown lb i fuel a s (j - 1) (m0 - 1) else return (j, m0, s)
    else some (j, m0, s)

/-- The partition loop around the pivot at `lb`: the elements the scans stop at
are exchanged, until the scans meet. Where the pivot belongs, and its offset. -/
def partitionLoop (lb : Nat) : Nat → List α → σ → Nat → Nat → Nat →
    Option (List α × σ × Nat × Nat)
  | 0, _, _, _, _, _ => none
  | fuel + 1, a, s, i, j, m0 => do
    let (i, s) ← scanUp cmp lb j fuel a s i
    let (j, m0, s) ← scanDown cmp lb i fuel a s j m0
    if i ≥ j then return (a, s, j, m0)
    let a ← exchange a i j
    partitionLoop lb fuel a s (i + 1) (j - 1) (m0 - 1)

/-- `sp->base = ..., sp->count = ..., sp++`: the segment on top of the stack; `none`
past its `MAXSTACK` entries. -/
def pushSegment (seg : Nat × Nat) (stack : List (Nat × Nat)) : Option (List (Nat × Nat)) :=
  if stack.length < MAXSTACK then some (seg :: stack) else none

/-- The `while (n >= 7)` loop on the segment of `n` elements at `lb`: each turn
partitions it, pushes the larger part and goes on with the smaller. The array,
the state, the stack and the segment left for the insertion sort. -/
def quickLoop : Nat → List α → σ → List (Nat × Nat) → Nat → Nat →
    Option (List α × σ × List (Nat × Nat) × Nat × Nat)
  | 0, _, _, _, _, _ => none
  | fuel + 1, a, s, stack, lb, n =>
    if n ≥ 7 then do
      let m0 := n / 4
      let (m, s) ← med3 cmp a s (lb + m0) (lb + 2 * m0) (lb + 3 * m0)
      let a ← exchange a lb m
      let (a, s, j, m0) ← partitionLoop cmp lb fuel a s (lb + 1) (lb + n - 1) (n - 1)
      -- the pivot goes where the scans met
      let a ← exchange a lb j
      let n := n - m0 - 1
      if m0 < n then
        let stack ← if n > 1 then pushSegment (j + 1, n) stack else pure stack
        quickLoop fuel a s stack lb m0
      else
        let stack ← if m0 > 1 then pushSegment (lb, m0) stack else pure stack
        quickLoop fuel a s stack (j + 1) n
    else some (a, s, stack, lb, n)

/-- The inner loop of the insertion sort: the element at `m` moved down while the
one before it is greater. -/
def insertDown (lb : Nat) : Nat → List α → σ → Nat → Option (List α × σ)
  | 0, _, _, _ => none
  | fuel + 1, a, s, m =>
    if m > lb then do
      let (r, s) ← compareAt cmp a s (m - 1) m
      if r > 0 then
        let a ← exchange a m (m - 1)
        insertDown lb fuel a s (m - 1)
      else return (a, s)
    else some (a, s)

/-- The insertion sort of the segment `[lb, stop)`, from `i`. -/
def insertionLoop (lb stop : Nat) : Nat → List α → σ → Nat → Option (List α × σ)
  | 0, _, _, _ => none
  | fuel + 1, a, s, i =>
    if i < stop then do
      let (a, s) ← insertDown cmp lb fuel a s i
      insertionLoop lb stop fuel a s (i + 1)
    else some (a, s)

/-- The loop over the stack of segments. -/
def stackLoop : Nat → List α → σ → List (Nat × Nat) → Option (List α × σ)
  | 0, _, _, _ => none
  | _ + 1, a, s, [] => some (a, s)
  | fuel + 1, a, s, (lb, n) :: stack => do
    let (a, s, stack, lb, n) ← quickLoop cmp fuel a s stack lb n
    let (a, s) ← insertionLoop cmp lb (lb + n) fuel a s (lb + 1)
    stackLoop fuel a s stack

/-- `qe_qsort_r` on the array `a`, the comparison's argument being `s`. -/
def qeQsortR (fuel : Nat) (a : List α) (s : σ) : Option (List α × σ) :=
  if a.length < 2 then some (a, s) else stackLoop cmp fuel a s [(0, a.length)]

end Qsort

/-! ## `exchange` and `compareAt` -/

section Access

variable {α σ : Type}

theorem exchange_eq {a : List α} {i j : Nat} (hi : i < a.length) (hj : j < a.length) :
    exchange a i j = some ((a.set i a[j]).set j a[i]) := by
  simp [exchange, List.getElem?_eq_getElem hi, List.getElem?_eq_getElem hj]

/-- An exchange that succeeds was of two elements of the array. -/
theorem exchange_some {a a' : List α} {i j : Nat} (h : exchange a i j = some a') :
    ∃ (hi : i < a.length) (hj : j < a.length), a' = (a.set i a[j]).set j a[i] := by
  have hi : i < a.length := by
    by_contra hi
    simp [exchange, List.getElem?_eq_none (Nat.le_of_not_lt hi)] at h
  have hj : j < a.length := by
    by_contra hj
    simp [exchange, List.getElem?_eq_none (Nat.le_of_not_lt hj)] at h
  rw [exchange_eq hi hj, Option.some.injEq] at h
  exact ⟨hi, hj, h.symm⟩

theorem exchange_length {a a' : List α} {i j : Nat} (h : exchange a i j = some a') :
    a'.length = a.length := by
  obtain ⟨-, -, rfl⟩ := exchange_some h
  simp

theorem exchange_perm {a a' : List α} {i j : Nat} (h : exchange a i j = some a') :
    a'.Perm a := by
  obtain ⟨hi, hj, rfl⟩ := exchange_some h
  exact List.set_set_perm hi hj

/-- The elements after an exchange: the two swapped, the others as they were. -/
theorem exchange_getElem? {a a' : List α} {i j : Nat} (h : exchange a i j = some a')
    (k : Nat) : a'[k]? = if k = j then a[i]? else if k = i then a[j]? else a[k]? := by
  obtain ⟨hi, hj, rfl⟩ := exchange_some h
  rw [List.getElem?_set, List.length_set, List.getElem?_set]
  by_cases hkj : k = j
  · subst hkj
    rw [if_pos rfl, if_pos hj, if_pos rfl, List.getElem?_eq_getElem hi]
  · rw [if_neg (Ne.symm hkj), if_neg hkj]
    by_cases hki : k = i
    · subst hki
      rw [if_pos rfl, if_pos hi, if_pos rfl, List.getElem?_eq_getElem hj]
    · rw [if_neg (Ne.symm hki), if_neg hki]

theorem exchange_getElem?_left {a a' : List α} {i j : Nat} (h : exchange a i j = some a') :
    a'[i]? = a[j]? := by
  rw [exchange_getElem? h]
  by_cases hij : i = j
  · rw [if_pos hij, hij]
  · rw [if_neg hij, if_pos rfl]

theorem exchange_getElem?_right {a a' : List α} {i j : Nat} (h : exchange a i j = some a') :
    a'[j]? = a[i]? := by
  rw [exchange_getElem? h, if_pos rfl]

theorem exchange_getElem?_of_ne {a a' : List α} {i j k : Nat} (h : exchange a i j = some a')
    (hki : k ≠ i) (hkj : k ≠ j) : a'[k]? = a[k]? := by
  rw [exchange_getElem? h, if_neg hkj, if_neg hki]

theorem compareAt_eq (cmp : σ → α → α → Option (Int × σ)) {a : List α} {x y : Nat}
    (hx : x < a.length) (hy : y < a.length) (s : σ) :
    compareAt cmp a s x y = cmp s a[x] a[y] := by
  simp [compareAt, List.getElem?_eq_getElem hx, List.getElem?_eq_getElem hy]

/-- A comparison that succeeds was of two elements of the array. -/
theorem compareAt_some {cmp : σ → α → α → Option (Int × σ)} {a : List α} {s s' : σ}
    {x y : Nat} {r : Int} (h : compareAt cmp a s x y = some (r, s')) :
    ∃ (hx : x < a.length) (hy : y < a.length), cmp s a[x] a[y] = some (r, s') := by
  have hx : x < a.length := by
    by_contra hx
    simp [compareAt, List.getElem?_eq_none (Nat.le_of_not_lt hx)] at h
  have hy : y < a.length := by
    by_contra hy
    simp [compareAt, List.getElem?_eq_none (Nat.le_of_not_lt hy)] at h
  exact ⟨hx, hy, (compareAt_eq cmp hx hy s).symm.trans h⟩

end Access

/-! ## The sort permutes the array -/

section QsortPerm

variable {α σ : Type} {cmp : σ → α → α → Option (Int × σ)}

/-- The partition permutes the array. -/
theorem partitionLoop_perm {lb : Nat} {s' : σ} {a' : List α} {j' m0' : Nat} (fuel : Nat) :
    ∀ {a : List α} {s : σ} {i j m0 : Nat},
      partitionLoop cmp lb fuel a s i j m0 = some (a', s', j', m0') → a'.Perm a := by
  induction fuel with
  | zero => intro a s i j m0 h; cases h
  | succ fuel ih =>
    intro a s i j m0 h
    unfold partitionLoop at h
    obtain ⟨⟨i₁, s₁⟩, -, h⟩ := Option.bind_eq_some_iff.mp h
    obtain ⟨⟨j₁, m0₁, s₂⟩, -, h⟩ := Option.bind_eq_some_iff.mp h
    dsimp only at h
    split at h
    · -- the scans met: the array as it is
      cases h
      exact List.Perm.refl _
    · -- the elements where the scans stopped are exchanged
      obtain ⟨a₁, hex, h⟩ := Option.bind_eq_some_iff.mp h
      exact (ih h).trans (exchange_perm hex)

/-- A push leaves the segments as they were, the new one on top. -/
theorem pushSegment_some {seg : Nat × Nat} {stack stack' : List (Nat × Nat)}
    (h : pushSegment seg stack = some stack') :
    stack.length < MAXSTACK ∧ stack' = seg :: stack := by
  unfold pushSegment at h
  split at h
  · exact ⟨‹_›, (Option.some.inj h).symm⟩
  · cases h

/-- A push when `c` holds, then `f` on the stack: `f` on the stack pushed. -/
theorem pushIf_bind {β : Type} {c : Prop} [Decidable c] {seg : Nat × Nat}
    {stack : List (Nat × Nat)} {f : List (Nat × Nat) → Option β} {r : β}
    (h : (if c then pushSegment seg stack >>= f else pure stack >>= f) = some r) :
    f (if c then seg :: stack else stack) = some r := by
  split at h
  · obtain ⟨stack₁, hpush, h⟩ := Option.bind_eq_some_iff.mp h
    rw [if_pos ‹c›, ← (pushSegment_some hpush).2]
    exact h
  · rw [if_neg ‹¬c›]
    exact h

/-- The quicksort loop permutes the array. -/
theorem quickLoop_perm {a' : List α} {s' : σ} {stack' : List (Nat × Nat)} {lb' n' : Nat}
    (fuel : Nat) : ∀ {a : List α} {s : σ} {stack : List (Nat × Nat)} {lb n : Nat},
      quickLoop cmp fuel a s stack lb n = some (a', s', stack', lb', n') → a'.Perm a := by
  induction fuel with
  | zero => intro a s stack lb n h; cases h
  | succ fuel ih =>
    intro a s stack lb n h
    unfold quickLoop at h
    split at h
    · obtain ⟨⟨m, s₁⟩, -, h⟩ := Option.bind_eq_some_iff.mp h
      obtain ⟨a₁, hex₁, h⟩ := Option.bind_eq_some_iff.mp h
      obtain ⟨⟨a₂, s₂, j, m0⟩, hpart, h⟩ := Option.bind_eq_some_iff.mp h
      obtain ⟨a₃, hex₃, h⟩ := Option.bind_eq_some_iff.mp h
      -- the median to the front, the partition, the pivot to where the scans met
      have hperm : a₃.Perm a :=
        (exchange_perm hex₃).trans ((partitionLoop_perm fuel hpart).trans (exchange_perm hex₁))
      dsimp only at h
      -- whichever part is pushed, if any, the loop goes on from `a₃`
      split at h
      · exact (ih (pushIf_bind h)).trans hperm
      · exact (ih (pushIf_bind h)).trans hperm
    · cases h
      exact List.Perm.refl _

/-- The inner loop of the insertion sort permutes the array. -/
theorem insertDown_perm {lb : Nat} {a' : List α} {s' : σ} (fuel : Nat) :
    ∀ {a : List α} {s : σ} {m : Nat}, insertDown cmp lb fuel a s m = some (a', s') →
      a'.Perm a := by
  induction fuel with
  | zero => intro a s m h; cases h
  | succ fuel ih =>
    intro a s m h
    unfold insertDown at h
    split at h
    · obtain ⟨⟨r, s₁⟩, -, h⟩ := Option.bind_eq_some_iff.mp h
      dsimp only at h
      split at h
      · obtain ⟨a₁, hex, h⟩ := Option.bind_eq_some_iff.mp h
        exact (ih h).trans (exchange_perm hex)
      · cases h
        exact List.Perm.refl _
    · cases h
      exact List.Perm.refl _

/-- The insertion sort of a segment permutes the array. -/
theorem insertionLoop_perm {lb stop : Nat} {a' : List α} {s' : σ} (fuel : Nat) :
    ∀ {a : List α} {s : σ} {i : Nat}, insertionLoop cmp lb stop fuel a s i = some (a', s') →
      a'.Perm a := by
  induction fuel with
  | zero => intro a s i h; cases h
  | succ fuel ih =>
    intro a s i h
    unfold insertionLoop at h
    split at h
    · obtain ⟨⟨a₁, s₁⟩, hdown, h⟩ := Option.bind_eq_some_iff.mp h
      exact (ih h).trans (insertDown_perm fuel hdown)
    · cases h
      exact List.Perm.refl _

/-- The loop over the stack permutes the array. -/
theorem stackLoop_perm {a' : List α} {s' : σ} (fuel : Nat) :
    ∀ {a : List α} {s : σ} {stack : List (Nat × Nat)}, stackLoop cmp fuel a s stack = some (a', s') →
      a'.Perm a := by
  induction fuel with
  | zero => intro a s stack h; cases h
  | succ fuel ih =>
    intro a s stack h
    cases stack with
    | nil =>
      cases h
      exact List.Perm.refl _
    | cons seg stack =>
      obtain ⟨lb, n⟩ := seg
      unfold stackLoop at h
      obtain ⟨⟨a₁, s₁, stack₁, lb₁, n₁⟩, hquick, h⟩ := Option.bind_eq_some_iff.mp h
      obtain ⟨⟨a₂, s₂⟩, hins, h⟩ := Option.bind_eq_some_iff.mp h
      exact (ih h).trans ((insertionLoop_perm fuel hins).trans (quickLoop_perm fuel hquick))

/-- `qe_qsort_r` only ever exchanges elements of the array: whatever the comparison,
consistent or not, what it returns is a permutation of what it got. -/
theorem qeQsortR_perm {fuel : Nat} {a a' : List α} {s s' : σ}
    (h : qeQsortR cmp fuel a s = some (a', s')) : a'.Perm a := by
  unfold qeQsortR at h
  split at h
  · cases h
    exact List.Perm.refl _
  · exact stackLoop_perm fuel h

end QsortPerm

end Qemacs
