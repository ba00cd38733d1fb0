import Qemacs.Util.Qsort
import Mathlib.Algebra.Order.BigOperators.Group.List
import Mathlib.Tactic.Ring

/-!
# `qe_qsort_r` runs to its end

Whatever the comparison answers, `qe_qsort_r` ends, compares and exchanges only
elements of the array, and never pushes past the `MAXSTACK` entries of its stack: with
enough fuel the model returns a result (`qeQsortR_run`).

The scans of the partition stay between the pivot and the end of the segment
(`DownBound`), and the pivot lands inside the segment, so both parts lie inside it. The
loop over the stack ends because the total size of the segments on the stack goes down
each time one is taken off (`segSum`). The stack stays shallow because the larger part
is the one pushed: a segment at depth `d` has at most `L / 2 ^ (d - 1)` elements of the
`L` of the array (`StackDepth`), and a pushed segment has at least 2, so the depth stays
below 64 for an array of fewer than `2 ^ 64` elements, all that a `size_t` counts.
-/

namespace Qemacs

section QsortSpec

variable {α σ : Type} {cmp : σ → α → α → Option (Int × σ)}

/-! ## The partition -/

theorem scanUp_spec {lb j : Nat} {a : List α} {s' : σ} {i' : Nat} (fuel : Nat) :
    ∀ {s : σ} {i : Nat}, scanUp cmp lb j fuel a s i = some (i', s') →
      i ≤ i' ∧ (i' ≤ j ∨ i' = i) := by
  induction fuel with
  | zero => intro s i h; cases h
  | succ fuel ih =>
    intro s i h
    unfold scanUp at h
    split at h
    · rename_i hij
      obtain ⟨⟨r, s₁⟩, -, h⟩ := Option.bind_eq_some_iff.mp h
      dsimp only at h
      split at h
      · have := ih h
        omega
      · cases h
        exact ⟨le_rfl, .inl (Nat.le_of_lt hij)⟩
    · cases h
      exact ⟨le_rfl, .inr rfl⟩

/-- The bounds of the scan down: above the place `lb` of the pivot, inside the array, and
`m0` its offset from `lb`. -/
structure DownBound (lb len j m0 : Nat) : Prop where
  ge : lb ≤ j
  lt : j < len
  offset : m0 + lb = j

theorem scanDown_spec {lb i len : Nat} {a : List α} {s' : σ} {j' m0' : Nat} (hi : lb + 1 ≤ i)
    (fuel : Nat) : ∀ {s : σ} {j m0 : Nat}, scanDown cmp lb i fuel a s j m0 = some (j', m0', s') →
      DownBound lb len j m0 → j' ≤ j ∧ DownBound lb len j' m0' ∧ min i (j + 1) ≤ j' + 1 := by
  induction fuel with
  | zero => intro s j m0 h; cases h
  | succ fuel ih =>
    intro s j m0 h hb
    unfold scanDown at h
    split at h
    · rename_i hji
      obtain ⟨⟨r, s₁⟩, -, h⟩ := Option.bind_eq_some_iff.mp h
      dsimp only at h
      split at h
      · -- one step down: `j - 1` is still at or above `lb`, as `j ≥ i > lb`
        have hb' : DownBound lb len (j - 1) (m0 - 1) :=
          ⟨by omega, by have := hb.lt; omega, by have := hb.offset; omega⟩
        obtain ⟨hle, hb'', hmin⟩ := ih h hb'
        exact ⟨by omega, hb'', by omega⟩
      · cases h
        exact ⟨le_rfl, hb, by omega⟩
    · cases h
      exact ⟨le_rfl, hb, by omega⟩

/-- The partition keeps the length of the array and leaves the scan down within its
bounds, at or below where it started. -/
theorem partitionLoop_spec {lb : Nat} {s' : σ} {a' : List α} {j' m0' : Nat} (fuel : Nat) :
    ∀ {a : List α} {s : σ} {i j m0 : Nat},
      partitionLoop cmp lb fuel a s i j m0 = some (a', s', j', m0') → lb + 1 ≤ i →
        DownBound lb a.length j m0 →
          a'.length = a.length ∧ j' ≤ j ∧ DownBound lb a.length j' m0' := by
  induction fuel with
  | zero => intro a s i j m0 h; cases h
  | succ fuel ih =>
    intro a s i j m0 h hi hb
    unfold partitionLoop at h
    obtain ⟨⟨i₁, s₁⟩, hup, h⟩ := Option.bind_eq_some_iff.mp h
    obtain ⟨⟨j₁, m0₁, s₂⟩, hdown, h⟩ := Option.bind_eq_some_iff.mp h
    have hi₁ : i ≤ i₁ := (scanUp_spec fuel hup).1
    obtain ⟨hj₁, hb₁, -⟩ := scanDown_spec (by omega) fuel hdown hb
    dsimp only at h
    split at h
    · cases h
      exact ⟨rfl, hj₁, hb₁⟩
    · -- the elements where the scans stopped are exchanged; the scans go on inside
      rename_i hlt
      obtain ⟨a₁, hex, h⟩ := Option.bind_eq_some_iff.mp h
      have hlen := exchange_length hex
      have hb₂ : DownBound lb a₁.length (j₁ - 1) (m0₁ - 1) := by
        rw [hlen]
        exact ⟨by omega, by have := hb₁.lt; omega, by have := hb₁.offset; omega⟩
      obtain ⟨hlen', hle, hb'⟩ := ih h (by omega) hb₂
      rw [hlen] at hb' hlen'
      exact ⟨hlen', by omega, hb'⟩

/-- The median is one of the three elements. -/
theorem med3_mem {a : List α} {s s' : σ} {x y z m : Nat} (h : med3 cmp a s x y z = some (m, s')) :
    m = x ∨ m = y ∨ m = z := by
  unfold med3 at h
  obtain ⟨⟨r, s₁⟩, -, h⟩ := Option.bind_eq_some_iff.mp h
  dsimp only at h
  split at h
  all_goals
    obtain ⟨⟨r, s₂⟩, -, h⟩ := Option.bind_eq_some_iff.mp h
    dsimp only at h
    split at h
    · cases h
      simp
    · obtain ⟨⟨r, s₃⟩, -, h⟩ := Option.bind_eq_some_iff.mp h
      cases h
      split <;> simp

/-- One partition of the segment of `n ≥ 7` elements at `lb`: the median to the front,
the partition, the pivot to where the scans met. The pivot lands inside the segment,
at the offset `m0` the scan down kept. -/
theorem partitionStep_spec {a a₁ a₂ a₃ : List α} {s₁ s₂ : σ} {lb n m j m0 fuel : Nat}
    (hn : 7 ≤ n) (hseg : lb + n ≤ a.length)
    (hex₁ : exchange a lb m = some a₁)
    (hpart : partitionLoop cmp lb fuel a₁ s₁ (lb + 1) (lb + n - 1) (n - 1) = some (a₂, s₂, j, m0))
    (hex₃ : exchange a₂ lb j = some a₃) :
    a₃.length = a.length ∧ lb ≤ j ∧ j < lb + n ∧ m0 + lb = j := by
  have hlen₁ := exchange_length hex₁
  have hb : DownBound lb a₁.length (lb + n - 1) (n - 1) := by
    rw [hlen₁]
    exact ⟨by omega, by omega, by omega⟩
  obtain ⟨hlen₂, hj, hb'⟩ := partitionLoop_spec fuel hpart (by omega) hb
  have hlen₃ := exchange_length hex₃
  exact ⟨by omega, hb'.ge, by omega, hb'.offset⟩

/-! ## The stack -/

/-- The segments on the stack have at least two elements and lie inside an array of
`len` elements. -/
def SegmentsIn (len : Nat) (stack : List (Nat × Nat)) : Prop :=
  ∀ seg ∈ stack, 2 ≤ seg.2 ∧ seg.1 + seg.2 ≤ len

/-- A segment at depth `d` of the stack has at most `len / 2 ^ (d - 1)` elements. -/
def StackDepth (len : Nat) : List (Nat × Nat) → Prop
  | [] => True
  | seg :: stack => seg.2 * 2 ^ stack.length ≤ len ∧ StackDepth len stack

/-- The total size of the segments on the stack. -/
def segSum (stack : List (Nat × Nat)) : Nat := (stack.map (·.2)).sum

@[simp] theorem segSum_nil : segSum [] = 0 := rfl

@[simp] theorem segSum_cons (seg : Nat × Nat) (stack : List (Nat × Nat)) :
    segSum (seg :: stack) = seg.2 + segSum stack := by
  simp [segSum]

/-- The invariant of the quicksort loop on the segment of `n` elements at `lb`: the
segments inside the array, and the segment being sorted no larger than one more
entry on the stack allows. -/
structure QuickInv (len : Nat) (stack : List (Nat × Nat)) (lb n : Nat) : Prop where
  seg : lb + n ≤ len
  segs : SegmentsIn len stack
  depth : StackDepth len stack
  cur : n * 2 ^ stack.length ≤ len

/-- The segment at the top of the stack, taken off it, meets the invariant. -/
theorem QuickInv.pop {len lb n : Nat} {stack : List (Nat × Nat)}
    (hsegs : SegmentsIn len ((lb, n) :: stack)) (hdepth : StackDepth len ((lb, n) :: stack)) :
    QuickInv len stack lb n :=
  ⟨(hsegs (lb, n) List.mem_cons_self).2,
    fun seg h => hsegs seg (List.mem_cons_of_mem _ h), hdepth.2, hdepth.1⟩

/-- A segment of `P ≥ 2` elements may be pushed: the stack has room for it when the array
has fewer than `2 ^ 64` elements. -/
theorem QuickInv.push_ok {len lb n P : Nat} {stack : List (Nat × Nat)}
    (h : QuickInv len stack lb n) (hlen : len < 2 ^ 64) (hP : 2 ≤ P) (hPn : P ≤ n) :
    stack.length < MAXSTACK := by
  have h2 : 2 ^ (stack.length + 1) < 2 ^ 64 :=
    calc 2 ^ (stack.length + 1) = 2 * 2 ^ stack.length := by ring
      _ ≤ n * 2 ^ stack.length := Nat.mul_le_mul_right _ (hP.trans hPn)
      _ ≤ len := h.cur
      _ < 2 ^ 64 := hlen
  have := (Nat.pow_lt_pow_iff_right (by norm_num : 1 < 2)).mp h2
  unfold MAXSTACK
  omega

/-- After the partition of the segment, with the pivot at `j`, the part kept is no more
than half of the rest, and the part pushed, if it has two elements or more, fits on the
stack: the invariant holds again, and the total size of the segments has gone down. -/
theorem QuickInv.step {len lb n j m0 : Nat} {stack : List (Nat × Nat)}
    (h : QuickInv len stack lb n) (hj : lb ≤ j) (hjn : j < lb + n) (hm0 : m0 + lb = j) :
    (m0 < n - m0 - 1 →
      QuickInv len (if n - m0 - 1 > 1 then (j + 1, n - m0 - 1) :: stack else stack) lb m0 ∧
      segSum (if n - m0 - 1 > 1 then (j + 1, n - m0 - 1) :: stack else stack) + m0 + 1 ≤
        segSum stack + n) ∧
    (¬m0 < n - m0 - 1 →
      QuickInv len (if m0 > 1 then (lb, m0) :: stack else stack) (j + 1) (n - m0 - 1) ∧
      segSum (if m0 > 1 then (lb, m0) :: stack else stack) + (n - m0 - 1) + 1 ≤
        segSum stack + n) := by
  have hcur := h.cur
  -- the part kept after a push is at most half of the `n - 1` elements beside the pivot
  have half : ∀ Q, 2 * Q ≤ n → Q * 2 ^ (stack.length + 1) ≤ len := fun Q hQ =>
    calc Q * 2 ^ (stack.length + 1) = (2 * Q) * 2 ^ stack.length := by ring
      _ ≤ n * 2 ^ stack.length := Nat.mul_le_mul_right _ hQ
      _ ≤ len := hcur
  have part : ∀ P, P ≤ n → P * 2 ^ stack.length ≤ len := fun P hP =>
    (Nat.mul_le_mul_right _ hP).trans hcur
  have hseg := h.seg
  constructor
  · intro hlt
    split_ifs with hpush
    · refine ⟨⟨by omega, ?_, ⟨part _ (by omega), h.depth⟩, half _ (by omega)⟩, by simp; omega⟩
      intro seg hs
      rcases List.mem_cons.mp hs with rfl | hs
      · exact ⟨by omega, by omega⟩
      · exact h.segs seg hs
    · exact ⟨⟨by omega, h.segs, h.depth, part _ (by omega)⟩, by omega⟩
  · intro hge
    split_ifs with hpush
    · refine ⟨⟨by omega, ?_, ⟨part _ (by omega), h.depth⟩, half _ (by omega)⟩, by simp; omega⟩
      intro seg hs
      rcases List.mem_cons.mp hs with rfl | hs
      · exact ⟨by omega, by omega⟩
      · exact h.segs seg hs
    · exact ⟨⟨by omega, h.segs, h.depth, part _ (by omega)⟩, by omega⟩

/-- The quicksort loop keeps the length of the array and its invariant, and takes as
much off the total size of the segments as it leaves for the insertion sort, and more
once it has partitioned. -/
theorem quickLoop_spec {a' : List α} {s' : σ} {stack' : List (Nat × Nat)} {lb' n' : Nat}
    (fuel : Nat) : ∀ {a : List α} {s : σ} {stack : List (Nat × Nat)} {lb n : Nat},
      quickLoop cmp fuel a s stack lb n = some (a', s', stack', lb', n') →
        QuickInv a.length stack lb n →
          a'.length = a.length ∧ QuickInv a.length stack' lb' n' ∧
            segSum stack' + n' ≤ segSum stack + n ∧
            (1 ≤ n → segSum stack' + 1 ≤ segSum stack + n) := by
  induction fuel with
  | zero => intro a s stack lb n h; cases h
  | succ fuel ih =>
    intro a s stack lb n h hinv
    unfold quickLoop at h
    split at h
    · rename_i hn
      obtain ⟨⟨m, s₁⟩, hmed, h⟩ := Option.bind_eq_some_iff.mp h
      obtain ⟨a₁, hex₁, h⟩ := Option.bind_eq_some_iff.mp h
      obtain ⟨⟨a₂, s₂, j, m0⟩, hpart, h⟩ := Option.bind_eq_some_iff.mp h
      obtain ⟨a₃, hex₃, h⟩ := Option.bind_eq_some_iff.mp h
      obtain ⟨hlen₃, hj, hjn, hm0⟩ := partitionStep_spec hn hinv.seg hex₁ hpart hex₃
      obtain ⟨hleft, hright⟩ := QuickInv.step hinv hj hjn hm0
      dsimp only at h
      split at h
      · -- the right part pushed, if it has two elements, the left one kept
        rename_i hlt
        obtain ⟨hinv₁, hsum₁⟩ := hleft hlt
        rw [← hlen₃] at hinv₁
        obtain ⟨hlen, hinv', hsum, -⟩ := ih (pushIf_bind h) hinv₁
        exact ⟨hlen.trans hlen₃, hlen₃ ▸ hinv', by omega, fun _ => by omega⟩
      · -- the left part pushed, if it has two elements, the right one kept
        rename_i hge
        obtain ⟨hinv₁, hsum₁⟩ := hright hge
        rw [← hlen₃] at hinv₁
        obtain ⟨hlen, hinv', hsum, -⟩ := ih (pushIf_bind h) hinv₁
        exact ⟨hlen.trans hlen₃, hlen₃ ▸ hinv', by omega, fun _ => by omega⟩
    · cases h
      exact ⟨rfl, hinv, le_rfl, fun h => by omega⟩

/-! ## Runs to the end -/

/-- The comparison answers every call: a model of one that returns. -/
def Answers (cmp : σ → α → α → Option (Int × σ)) : Prop :=
  ∀ s x y, (cmp s x y).isSome

theorem compareAt_run (hcmp : Answers cmp) {a : List α} {x y : Nat} (hx : x < a.length)
    (hy : y < a.length) (s : σ) : ∃ r s', compareAt cmp a s x y = some (r, s') := by
  obtain ⟨⟨r, s'⟩, h⟩ := Option.isSome_iff_exists.mp (hcmp s a[x] a[y])
  exact ⟨r, s', (compareAt_eq cmp hx hy s).trans h⟩

theorem scanUp_run (hcmp : Answers cmp) {lb j : Nat} {a : List α} (hlb : lb < a.length)
    (hj : j ≤ a.length) (fuel : Nat) : ∀ {s : σ} {i : Nat}, j - i < fuel →
      ∃ r, scanUp cmp lb j fuel a s i = some r := by
  induction fuel with
  | zero => intro s i hf; omega
  | succ fuel ih =>
    intro s i hf
    unfold scanUp
    split
    · rename_i hij
      obtain ⟨r, s₁, hc⟩ := compareAt_run hcmp hlb (by omega : i < a.length) s
      simp only [hc, Option.bind_eq_bind, Option.bind_some]
      split
      · exact ih (by omega)
      · exact ⟨_, rfl⟩
    · exact ⟨_, rfl⟩

theorem scanDown_run (hcmp : Answers cmp) {lb i : Nat} {a : List α} (hlb : lb < a.length)
    (hi : 1 ≤ i) (fuel : Nat) : ∀ {s : σ} {j m0 : Nat}, j < a.length → j + 1 - i < fuel →
      ∃ r, scanDown cmp lb i fuel a s j m0 = some r := by
  induction fuel with
  | zero => intro s j m0 _ hf; omega
  | succ fuel ih =>
    intro s j m0 hj hf
    unfold scanDown
    split
    · rename_i hji
      obtain ⟨r, s₁, hc⟩ := compareAt_run hcmp hj hlb s
      simp only [hc, Option.bind_eq_bind, Option.bind_some]
      split
      · exact ih (by omega) (by omega)
      · exact ⟨_, rfl⟩
    · exact ⟨_, rfl⟩

theorem partitionLoop_run (hcmp : Answers cmp) {lb : Nat} (fuel : Nat) :
    ∀ {a : List α} {s : σ} {i j m0 : Nat}, lb + 1 ≤ i → i ≤ j + 1 → DownBound lb a.length j m0 →
      j + 2 - i < fuel → ∃ r, partitionLoop cmp lb fuel a s i j m0 = some r := by
  induction fuel with
  | zero => intro a s i j m0 _ _ _ hf; omega
  | succ fuel ih =>
    intro a s i j m0 hi hij hb hf
    have hlb : lb < a.length := by have := hb.ge; have := hb.lt; omega
    have hup_fuel : j - i < fuel := by omega
    obtain ⟨⟨i₁, s₁⟩, hup⟩ : ∃ r, scanUp cmp lb j fuel a s i = some r :=
      scanUp_run hcmp hlb (Nat.le_of_lt hb.lt) fuel hup_fuel
    have hi₁ : i ≤ i₁ := (scanUp_spec fuel hup).1
    have hdown_fuel : j + 1 - i₁ < fuel := by omega
    obtain ⟨⟨j₁, m0₁, s₂⟩, hdown⟩ : ∃ r, scanDown cmp lb i₁ fuel a s₁ j m0 = some r :=
      scanDown_run hcmp hlb (by omega) fuel hb.lt hdown_fuel
    obtain ⟨hj₁, hb₁, -⟩ := scanDown_spec (by omega) fuel hdown hb
    unfold partitionLoop
    simp only [hup, hdown, Option.bind_eq_bind, Option.bind_some]
    split
    · exact ⟨_, rfl⟩
    · -- the elements where the scans stopped are inside the array, and so are the scans
      -- that go on from them
      rename_i hlt
      obtain ⟨a₁, hex⟩ : ∃ a₁, exchange a i₁ j₁ = some a₁ :=
        ⟨_, exchange_eq (by have := hb₁.lt; omega) hb₁.lt⟩
      have hb₂ : DownBound lb a₁.length (j₁ - 1) (m0₁ - 1) := by
        rw [exchange_length hex]
        exact ⟨by omega, by have := hb₁.lt; omega, by have := hb₁.offset; omega⟩
      simp only [hex, Option.bind_some]
      exact ih (by omega) (by omega) hb₂ (by omega)

theorem med3_run (hcmp : Answers cmp) {a : List α} {x y z : Nat} (hx : x < a.length)
    (hy : y < a.length) (hz : z < a.length) (s : σ) : ∃ r, med3 cmp a s x y z = some r := by
  obtain ⟨r₁, s₁, h₁⟩ := compareAt_run hcmp hx hy s
  obtain ⟨r₂, s₂, h₂⟩ := compareAt_run hcmp hy hz s₁
  obtain ⟨r₃, s₃, h₃⟩ := compareAt_run hcmp hx hz s₂
  unfold med3
  simp only [h₁, h₂, h₃, Option.bind_eq_bind, Option.bind_some]
  split_ifs <;> exact ⟨_, rfl⟩

/-- The segment pushed when it has two elements or more: the stack has room for it. -/
theorem pushIf_run {β : Type} {c : Prop} [Decidable c] {seg : Nat × Nat}
    {stack : List (Nat × Nat)} {f : List (Nat × Nat) → Option β}
    (hroom : c → stack.length < MAXSTACK) (h : ∃ r, f (if c then seg :: stack else stack) = some r) :
    ∃ r, (if c then pushSegment seg stack >>= f else pure stack >>= f) = some r := by
  split
  · rename_i hc
    rw [if_pos hc] at h
    rw [pushSegment, if_pos (hroom hc)]
    exact h
  · rename_i hc
    rw [if_neg hc] at h
    exact h

theorem quickLoop_run (hcmp : Answers cmp) (fuel : Nat) :
    ∀ {a : List α} {s : σ} {stack : List (Nat × Nat)} {lb n : Nat},
      QuickInv a.length stack lb n → a.length < 2 ^ 64 → n + 1 < fuel →
        ∃ r, quickLoop cmp fuel a s stack lb n = some r := by
  induction fuel with
  | zero => intro a s stack lb n _ _ hf; omega
  | succ fuel ih =>
    intro a s stack lb n hinv hlen hf
    unfold quickLoop
    split
    · rename_i hn
      have hseg := hinv.seg
      -- the three elements of the median of three lie inside the segment
      obtain ⟨⟨m, s₁⟩, hmed⟩ : ∃ r, med3 cmp a s (lb + n / 4) (lb + 2 * (n / 4))
          (lb + 3 * (n / 4)) = some r :=
        med3_run hcmp (by omega) (by omega) (by omega) s
      have hm : m < a.length := by
        rcases med3_mem hmed with rfl | rfl | rfl <;> omega
      obtain ⟨a₁, hex₁⟩ : ∃ a₁, exchange a lb m = some a₁ := ⟨_, exchange_eq (by omega) hm⟩
      have hb : DownBound lb a₁.length (lb + n - 1) (n - 1) := by
        rw [exchange_length hex₁]
        exact ⟨by omega, by omega, by omega⟩
      obtain ⟨⟨a₂, s₂, j, m0⟩, hpart⟩ : ∃ r, partitionLoop cmp lb fuel a₁ s₁ (lb + 1)
          (lb + n - 1) (n - 1) = some r :=
        partitionLoop_run hcmp fuel (by omega) (by omega) hb (by omega)
      obtain ⟨hlen₂, -, hb₂⟩ := partitionLoop_spec fuel hpart (by omega) hb
      obtain ⟨a₃, hex₃⟩ : ∃ a₃, exchange a₂ lb j = some a₃ :=
        ⟨_, exchange_eq (by have := hb₂.ge; have := hb₂.lt; omega) (hlen₂ ▸ hb₂.lt)⟩
      obtain ⟨hlen₃, hj, hjn, hm0⟩ := partitionStep_spec hn hseg hex₁ hpart hex₃
      obtain ⟨hleft, hright⟩ := QuickInv.step hinv hj hjn hm0
      rw [← hlen₃] at hleft hright hlen
      simp only [hmed, hex₁, hpart, hex₃, Option.bind_eq_bind, Option.bind_some]
      split
      · -- the right part pushed if it has two elements, and the loop goes on on the left
        rename_i hlt
        refine pushIf_run (fun hpush => hinv.push_ok (hlen₃ ▸ hlen) hpush (by omega)) ?_
        exact ih (hleft hlt).1 hlen (by omega)
      · -- the left part pushed if it has two elements, and the loop goes on on the right
        rename_i hge
        refine pushIf_run (fun hpush => hinv.push_ok (hlen₃ ▸ hlen) hpush (by omega)) ?_
        exact ih (hright hge).1 hlen (by omega)
    · exact ⟨_, rfl⟩

theorem insertDown_run (hcmp : Answers cmp) {lb : Nat} (fuel : Nat) :
    ∀ {a : List α} {s : σ} {m : Nat}, m < a.length → m - lb < fuel →
      ∃ r, insertDown cmp lb fuel a s m = some r := by
  induction fuel with
  | zero => intro a s m _ hf; omega
  | succ fuel ih =>
    intro a s m hm hf
    unfold insertDown
    split
    · rename_i hlb
      obtain ⟨r, s₁, hc⟩ := compareAt_run hcmp (by omega : m - 1 < a.length) hm s
      simp only [hc, Option.bind_eq_bind, Option.bind_some]
      split
      · obtain ⟨a₁, hex⟩ : ∃ a₁, exchange a m (m - 1) = some a₁ :=
          ⟨_, exchange_eq hm (by omega)⟩
        simp only [hex, Option.bind_some]
        exact ih (by rw [exchange_length hex]; omega) (by omega)
      · exact ⟨_, rfl⟩
    · exact ⟨_, rfl⟩

theorem insertionLoop_run (hcmp : Answers cmp) {lb stop : Nat} (fuel : Nat) :
    ∀ {a : List α} {s : σ} {i : Nat}, stop ≤ a.length → (stop - lb) + (stop - i) < fuel →
      ∃ r, insertionLoop cmp lb stop fuel a s i = some r := by
  induction fuel with
  | zero => intro a s i _ hf; omega
  | succ fuel ih =>
    intro a s i hstop hf
    unfold insertionLoop
    split
    · rename_i hi
      obtain ⟨⟨a₁, s₁⟩, hdown⟩ : ∃ r, insertDown cmp lb fuel a s i = some r :=
        insertDown_run hcmp fuel (by omega) (by omega)
      have hlen₁ := (insertDown_perm fuel hdown).length_eq
      simp only [hdown, Option.bind_eq_bind, Option.bind_some]
      exact ih (by omega) (by omega)
    · exact ⟨_, rfl⟩

theorem stackLoop_run (hcmp : Answers cmp) (fuel : Nat) :
    ∀ {a : List α} {s : σ} {stack : List (Nat × Nat)}, SegmentsIn a.length stack →
      StackDepth a.length stack → a.length < 2 ^ 64 → 2 * a.length + segSum stack < fuel →
        ∃ r, stackLoop cmp fuel a s stack = some r := by
  induction fuel with
  | zero => intro a s stack _ _ _ hf; omega
  | succ fuel ih =>
    intro a s stack hsegs hdepth hlen hf
    cases stack with
    | nil => exact ⟨_, rfl⟩
    | cons seg stack =>
      obtain ⟨lb, n⟩ := seg
      have hinv := QuickInv.pop hsegs hdepth
      have hn : 2 ≤ n := (hsegs (lb, n) List.mem_cons_self).1
      have hsum : 2 * a.length + n + segSum stack < fuel + 1 := by simpa [Nat.add_assoc] using hf
      have hnlen := hinv.seg
      obtain ⟨⟨a₁, s₁, stack₁, lb₁, n₁⟩, hquick⟩ :
          ∃ r, quickLoop cmp fuel a s stack lb n = some r :=
        quickLoop_run hcmp fuel hinv hlen (by omega)
      obtain ⟨hlen₁, hinv₁, -, hdec⟩ := quickLoop_spec fuel hquick hinv
      have hdec := hdec (by omega)
      have hseg₁ := hinv₁.seg
      obtain ⟨⟨a₂, s₂⟩, hins⟩ : ∃ r, insertionLoop cmp lb₁ (lb₁ + n₁) fuel a₁ s₁ (lb₁ + 1) = some r :=
        insertionLoop_run hcmp fuel (by omega) (by omega)
      have hlen₂ := (insertionLoop_perm fuel hins).length_eq
      unfold stackLoop
      simp only [hquick, hins, Option.bind_eq_bind, Option.bind_some]
      rw [← hlen₁, ← hlen₂] at hinv₁
      exact ih hinv₁.segs hinv₁.depth (by omega) (by omega)

/-- The whole array, the one segment on the stack at the start of the sort. -/
theorem segmentsIn_init {len : Nat} (h : 2 ≤ len) : SegmentsIn len [(0, len)] := by
  intro seg hseg
  rw [List.mem_singleton.mp hseg]
  exact ⟨h, by omega⟩

theorem stackDepth_init (len : Nat) : StackDepth len [(0, len)] := ⟨by simp, trivial⟩

/-- Whatever the comparison answers, `qe_qsort_r` on an array of fewer than `2 ^ 64` elements
returns, with no comparison or exchange outside the array and no push past the stack. -/
theorem qeQsortR_run (hcmp : Answers cmp) {fuel : Nat} {a : List α} (hlen : a.length < 2 ^ 64)
    (hfuel : 3 * a.length < fuel) (s : σ) : ∃ r, qeQsortR cmp fuel a s = some r := by
  unfold qeQsortR
  split
  · exact ⟨_, rfl⟩
  · rename_i h2
    exact stackLoop_run hcmp fuel (segmentsIn_init (by omega)) (stackDepth_init _) hlen
      (by simp; omega)

end QsortSpec

end Qemacs
