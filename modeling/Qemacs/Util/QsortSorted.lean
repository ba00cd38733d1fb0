import Qemacs.Util.QsortRun

/-!
# `qe_qsort_r` sorts

For a comparison whose answers are those of a total preorder `c` (the sign of `c x y` the
opposite of that of `c y x`, and `c x y ≤ 0` transitive), what `qe_qsort_r` returns is in
order: `c x y ≤ 0` for each element `x` before an element `y` (`qeQsortR_sorted`).

The invariant of the whole sort is about the segments left to sort, those on the stack and
the one being partitioned (`Blocks`): two elements of the array that do not lie in one of
them are in order. Each pass on a segment only moves its elements inside it
(`SegFrame`), so it keeps the order of the pairs it does not sort, and it puts in order
those it does: the partition puts the pivot between the two parts (`Partitioned`), and
the insertion sort puts in order what is left of a segment (`SortedIn`).
-/

namespace Qemacs

/-! ## Section 1: Order -/

section Order

variable {α : Type} (c : α → α → Int)

/-- A comparison that is a total preorder: the sign of `c x y` is the opposite of that
    of `c y x`, and `c x y ≤ 0` is transitive. -/
structure TotalPreorder : Prop where
  sign_swap : ∀ x y, Int.sign (c x y) = - Int.sign (c y x)
  trans : ∀ x y z, c x y ≤ 0 → c y z ≤ 0 → c x z ≤ 0

/-- The elements at `k` and `l` of `a` are in order (or one of them is missing). -/
def LeAt (a : List α) (k l : Nat) : Prop :=
  ∀ x y, a[k]? = some x → a[l]? = some y → c x y ≤ 0

/-- The elements of `a` from `lo` up to `hi` are in order. -/
def SortedIn (a : List α) (lo hi : Nat) : Prop :=
  ∀ k l, lo ≤ k → k < l → l < hi → LeAt c a k l

variable {c}

theorem TotalPreorder.le_of_pos (hc : TotalPreorder c) {x y : α} (h : 0 < c x y) :
    c y x ≤ 0 := by
  have hs := hc.sign_swap x y
  rw [Int.sign_eq_one_of_pos h] at hs
  have : Int.sign (c y x) = -1 := by omega
  exact Int.le_of_lt (Int.sign_eq_neg_one_iff_neg.mp this)

theorem TotalPreorder.refl (hc : TotalPreorder c) (x : α) : c x x ≤ 0 := by
  have hs := hc.sign_swap x x
  have : Int.sign (c x x) = 0 := by omega
  rw [Int.sign_eq_zero_iff_zero.mp this]

theorem LeAt.of_getElem {a : List α} {k l : Nat} (hk : k < a.length) (hl : l < a.length)
    (h : c a[k] a[l] ≤ 0) : LeAt c a k l := by
  intro x y hx hy
  rw [List.getElem?_eq_getElem hk, Option.some.injEq] at hx
  rw [List.getElem?_eq_getElem hl, Option.some.injEq] at hy
  rw [← hx, ← hy]
  exact h

/-- Two positions of `a'` holding what two positions of `a` held are in order if those are. -/
theorem LeAt.congr {a a' : List α} {k l k' l' : Nat} (hk : a'[k]? = a[k']?)
    (hl : a'[l]? = a[l']?) (h : LeAt c a k' l') : LeAt c a' k l := by
  intro x y hx hy
  exact h x y (hk ▸ hx) (hl ▸ hy)

theorem LeAt.trans (hc : TotalPreorder c) {a : List α} {k j l : Nat} (hj : j < a.length)
    (h₁ : LeAt c a k j) (h₂ : LeAt c a j l) : LeAt c a k l := by
  intro x z hx hz
  have hy := List.getElem?_eq_getElem hj
  exact hc.trans x a[j] z (h₁ x _ hx hy) (h₂ _ z hy hz)

theorem SortedIn.mono {a : List α} {lo hi hi' : Nat} (h : SortedIn c a lo hi) (hle : hi' ≤ hi) :
    SortedIn c a lo hi' :=
  fun k l hk hkl hl => h k l hk hkl (Nat.lt_of_lt_of_le hl hle)

end Order

/-! ## Section 2: What the comparisons say -/

section Compare

variable {α σ : Type} {c : α → α → Int} {cmp : σ → α → α → Option (Int × σ)}

/-- The comparison's answers are those of `c`, whatever the state it reads. -/
def Agrees (cmp : σ → α → α → Option (Int × σ)) (c : α → α → Int) : Prop :=
  ∀ s x y r s', cmp s x y = some (r, s') → r = c x y

theorem compareAt_agrees (hag : Agrees cmp c) {a : List α} {s s' : σ} {x y : Nat} {r : Int}
    (h : compareAt cmp a s x y = some (r, s')) :
    ∃ (hx : x < a.length) (hy : y < a.length), r = c a[x] a[y] := by
  obtain ⟨hx, hy, h⟩ := compareAt_some h
  exact ⟨hx, hy, hag _ _ _ _ _ h⟩

/-- A comparison that answers `r ≤ 0`: the two elements are in order. -/
theorem leAt_of_compareAt (hag : Agrees cmp c) {a : List α} {s s' : σ} {x y : Nat} {r : Int}
    (h : compareAt cmp a s x y = some (r, s')) (hr : ¬r > 0) : LeAt c a x y := by
  obtain ⟨hx, hy, rfl⟩ := compareAt_agrees hag h
  exact LeAt.of_getElem hx hy (Int.not_lt.mp hr)

/-- A comparison that answers `r > 0`: the two elements are in the other order. -/
theorem leAt_of_compareAt_pos (hc : TotalPreorder c) (hag : Agrees cmp c) {a : List α}
    {s s' : σ} {x y : Nat} {r : Int} (h : compareAt cmp a s x y = some (r, s')) (hr : r > 0) :
    LeAt c a y x := by
  obtain ⟨hx, hy, rfl⟩ := compareAt_agrees hag h
  exact LeAt.of_getElem hy hx (hc.le_of_pos hr)

end Compare

/-! ## Section 3: Segments -/

section Segments

variable {α : Type} (c : α → α → Int)

/-- The position `k` lies in the segment `seg`, of `seg.2` elements from `seg.1`. -/
def InSeg (seg : Nat × Nat) (k : Nat) : Prop := seg.1 ≤ k ∧ k < seg.1 + seg.2

/-- The segment `seg` lies inside the segment `seg'`. -/
def SegWithin (seg seg' : Nat × Nat) : Prop := seg'.1 ≤ seg.1 ∧ seg.1 + seg.2 ≤ seg'.1 + seg'.2

/-- Two segments one after the other. -/
def SegDisjoint (seg seg' : Nat × Nat) : Prop := seg.1 + seg.2 ≤ seg'.1 ∨ seg'.1 + seg'.2 ≤ seg.1

/-- `a'` is `a` with the elements of the segment `seg` moved inside it: the others where
    they were, and each of the segment's one of the segment's before. -/
structure SegFrame (seg : Nat × Nat) (a a' : List α) : Prop where
  out : ∀ k, ¬InSeg seg k → a'[k]? = a[k]?
  into : ∀ k, InSeg seg k → ∃ k', InSeg seg k' ∧ a'[k]? = a[k']?

/-- The invariant of the sort: two elements that do not lie in one of the segments left
    to sort are in order. -/
def Blocks (a : List α) (pending : List (Nat × Nat)) : Prop :=
  ∀ k l, k < l → (∀ seg ∈ pending, ¬(InSeg seg k ∧ InSeg seg l)) → LeAt c a k l

/-- The invariant of the sort, with the segments left to sort one after the other. -/
structure SortInv (a : List α) (pending : List (Nat × Nat)) : Prop where
  blocks : Blocks c a pending
  disjoint : pending.Pairwise SegDisjoint

variable {c}

theorem SegFrame.refl (seg : Nat × Nat) (a : List α) : SegFrame seg a a :=
  ⟨fun _ _ => rfl, fun k hk => ⟨k, hk, rfl⟩⟩

theorem SegFrame.trans {seg : Nat × Nat} {a a' a'' : List α} (h₁ : SegFrame seg a a')
    (h₂ : SegFrame seg a' a'') : SegFrame seg a a'' := by
  refine ⟨fun k hk => (h₂.out k hk).trans (h₁.out k hk), fun k hk => ?_⟩
  obtain ⟨k', hk', h₂k⟩ := h₂.into k hk
  obtain ⟨k'', hk'', h₁k⟩ := h₁.into k' hk'
  exact ⟨k'', hk'', h₂k.trans h₁k⟩

/-- An exchange of two elements of a segment moves its elements inside it. -/
theorem exchange_segFrame {seg : Nat × Nat} {a a' : List α} {i j : Nat}
    (h : exchange a i j = some a') (hi : InSeg seg i) (hj : InSeg seg j) : SegFrame seg a a' := by
  constructor
  · intro k hk
    exact exchange_getElem?_of_ne h (fun hki => hk (hki ▸ hi)) (fun hkj => hk (hkj ▸ hj))
  · intro k hk
    by_cases hkj : k = j
    · exact ⟨i, hi, hkj ▸ exchange_getElem?_right h⟩
    · by_cases hki : k = i
      · exact ⟨j, hj, hki ▸ exchange_getElem?_left h⟩
      · exact ⟨k, hk, exchange_getElem?_of_ne h hki hkj⟩

theorem SegDisjoint.of_within {seg seg' S : Nat × Nat} (hw : SegWithin seg seg')
    (hd : SegDisjoint seg' S) : SegDisjoint seg S := by
  unfold SegWithin at hw
  unfold SegDisjoint at *
  omega

/-- A pass on the segment `seg` at the top of the segments left to sort: the pairs it does
    not put in order keep the order they had. -/
theorem Blocks.frame {a a' : List α} {seg : Nat × Nat} {rest pending : List (Nat × Nat)}
    (hb : Blocks c a (seg :: rest)) (hdisj : ∀ S ∈ rest, SegDisjoint seg S)
    (hframe : SegFrame seg a a') (hrest : ∀ S ∈ rest, S ∈ pending)
    (hin : ∀ k l, k < l → InSeg seg k → InSeg seg l →
      (∀ S ∈ pending, ¬(InSeg S k ∧ InSeg S l)) → LeAt c a' k l) :
    Blocks c a' pending := by
  intro k l hkl hsep
  -- the old order of a position outside `seg` and of one inside it, where its element was
  have apart : ∀ k' l', InSeg seg k' → ¬InSeg seg l' →
      ∀ S ∈ seg :: rest, ¬(InSeg S k' ∧ InSeg S l') := by
    intro k' l' hk' hl' S hS hboth
    rcases List.mem_cons.mp hS with rfl | hS
    · exact hl' hboth.2
    · have hd := hdisj S hS
      unfold InSeg at hk' hboth
      unfold SegDisjoint at hd
      omega
  by_cases hk : InSeg seg k <;> by_cases hl : InSeg seg l
  · exact hin k l hkl hk hl hsep
  · -- `k` inside the segment, `l` after it
    obtain ⟨k', hk', hk'eq⟩ := hframe.into k hk
    have hlt : k' < l := by unfold InSeg at hk hl hk'; omega
    exact LeAt.congr hk'eq (hframe.out l hl) (hb k' l hlt (apart k' l hk' hl))
  · -- `k` before the segment, `l` inside it
    obtain ⟨l', hl', hl'eq⟩ := hframe.into l hl
    have hlt : k < l' := by unfold InSeg at hk hl hl'; omega
    refine LeAt.congr (hframe.out k hk) hl'eq (hb k l' hlt ?_)
    intro S hS hboth
    exact apart l' k hl' hk S hS ⟨hboth.2, hboth.1⟩
  · refine LeAt.congr (hframe.out k hk) (hframe.out l hl) (hb k l hkl ?_)
    intro S hS hboth
    rcases List.mem_cons.mp hS with rfl | hS
    · exact hk hboth.1
    · exact hsep S (hrest S hS) hboth

/-- The two parts of a segment, the one kept first and the other pushed if `b`: one after
    the other and after the segments below them. -/
theorem pairwise_parts {seg keep push : Nat × Nat} {stack : List (Nat × Nat)}
    (hd : (seg :: stack).Pairwise SegDisjoint) (hkeep : SegWithin keep seg)
    (hpush : SegWithin push seg) (hkp : SegDisjoint keep push) (b : Prop) [Decidable b] :
    (keep :: if b then push :: stack else stack).Pairwise SegDisjoint := by
  obtain ⟨hseg, hstack⟩ := List.pairwise_cons.mp hd
  have hkeep' : ∀ S ∈ stack, SegDisjoint keep S := fun S hS => (hseg S hS).of_within hkeep
  have hpush' : ∀ S ∈ stack, SegDisjoint push S := fun S hS => (hseg S hS).of_within hpush
  split
  · refine List.pairwise_cons.mpr ⟨?_, List.pairwise_cons.mpr ⟨hpush', hstack⟩⟩
    intro S hS
    rcases List.mem_cons.mp hS with rfl | hS
    · exact hkp
    · exact hkeep' S hS
  · exact List.pairwise_cons.mpr ⟨hkeep', hstack⟩

/-- Nothing left to sort: the array is in order. -/
theorem Blocks.pairwise {a : List α} (hb : Blocks c a []) : a.Pairwise (fun x y => c x y ≤ 0) := by
  rw [List.pairwise_iff_getElem]
  intro k l hk hl hkl
  exact hb k l hkl (fun _ h => absurd h List.not_mem_nil) _ _
    (List.getElem?_eq_getElem hk) (List.getElem?_eq_getElem hl)

/-- The whole array as the one segment left to sort. -/
theorem SortInv.init (a : List α) : SortInv c a [(0, a.length)] := by
  refine ⟨?_, List.pairwise_singleton _ _⟩
  intro k l hkl hsep x y _ hy
  -- `l` lies past the end of the array, or both lie in it
  have hl : a.length ≤ l := by
    by_contra hl
    exact hsep (0, a.length) List.mem_cons_self ⟨⟨Nat.zero_le _, by omega⟩, ⟨Nat.zero_le _, by omega⟩⟩
  rw [List.getElem?_eq_none hl] at hy
  cases hy

end Segments

/-! ## Section 4: The partition -/

section Partition

variable {α σ : Type} {c : α → α → Int} {cmp : σ → α → α → Option (Int × σ)}

/-- The invariant of the partition of the segment of `n` elements at `lb`, around the
    pivot at `lb`: the elements after it up to `i` at most it, those after `j` in the
    segment at least it. -/
structure PartInv (c : α → α → Int) (a : List α) (lb n i j : Nat) : Prop where
  left : ∀ k, lb < k → k < i → LeAt c a k lb
  right : ∀ l, j < l → l < lb + n → LeAt c a lb l

/-- The segment of `n` elements at `lb` partitioned around the position `j`: the elements
    before it at most the one at `j`, those after it at least it. -/
structure Partitioned (c : α → α → Int) (a : List α) (lb n j : Nat) : Prop where
  left : ∀ k, lb ≤ k → k < j → LeAt c a k j
  right : ∀ l, j < l → l < lb + n → LeAt c a j l

variable (hc : TotalPreorder c) (hag : Agrees cmp c)
include hc hag

/-- The scan up passes the elements less than the pivot, and stops below `j` at one that
    is not. -/
theorem scanUp_sorted {lb j : Nat} {a : List α} {s' : σ} {i' : Nat} (fuel : Nat) :
    ∀ {s : σ} {i : Nat}, scanUp cmp lb j fuel a s i = some (i', s') →
      (∀ k, i ≤ k → k < i' → LeAt c a k lb) ∧ (i' < j → LeAt c a lb i') := by
  induction fuel with
  | zero => intro s i h; cases h
  | succ fuel ih =>
    intro s i h
    unfold scanUp at h
    split at h
    · obtain ⟨⟨r, s₁⟩, hcmp, h⟩ := Option.bind_eq_some_iff.mp h
      dsimp only at h
      split at h
      · -- the pivot is greater than the element at `i`: the scan goes past it
        rename_i hr
        have hi := leAt_of_compareAt_pos hc hag hcmp hr
        obtain ⟨hpast, hstop⟩ := ih h
        refine ⟨fun k hk hk' => ?_, hstop⟩
        rcases Nat.eq_or_lt_of_le hk with rfl | hk
        · exact hi
        · exact hpast k hk hk'
      · cases h
        exact ⟨fun k hk hk' => absurd hk' (Nat.not_lt.mpr hk), fun _ => leAt_of_compareAt hag hcmp ‹_›⟩
    · cases h
      exact ⟨fun k hk hk' => absurd hk' (Nat.not_lt.mpr hk), fun h => absurd h ‹_›⟩

/-- The scan down passes the elements greater than the pivot, and stops from `i` on at one
    that is not. -/
theorem scanDown_sorted {lb i : Nat} {a : List α} {s' : σ} {j' m0' : Nat} (fuel : Nat) :
    ∀ {s : σ} {j m0 : Nat}, scanDown cmp lb i fuel a s j m0 = some (j', m0', s') →
      (∀ l, j' < l → l ≤ j → LeAt c a lb l) ∧ (i ≤ j' → LeAt c a j' lb) := by
  induction fuel with
  | zero => intro s j m0 h; cases h
  | succ fuel ih =>
    intro s j m0 h
    unfold scanDown at h
    split at h
    · rename_i hji
      obtain ⟨⟨r, s₁⟩, hcmp, h⟩ := Option.bind_eq_some_iff.mp h
      dsimp only at h
      split at h
      · -- the element at `j` is greater than the pivot: the scan goes down past it
        rename_i hr
        have hj := leAt_of_compareAt_pos hc hag hcmp hr
        obtain ⟨hpast, hstop⟩ := ih h
        refine ⟨fun l hl hl' => ?_, hstop⟩
        by_cases hlj : l = j
        · exact hlj ▸ hj
        · exact hpast l hl (by omega)
      · cases h
        exact ⟨fun l hl hl' => absurd hl (Nat.not_lt.mpr hl'), fun _ => leAt_of_compareAt hag hcmp ‹_›⟩
    · cases h
      exact ⟨fun l hl hl' => absurd hl (Nat.not_lt.mpr hl'), fun h => absurd h ‹_›⟩

omit hc hag in
/-- The exchange of the elements where the scans stopped keeps the invariant, one step
    further on each side. -/
theorem PartInv.swap {a a' : List α} {lb n i j : Nat} (hinv : PartInv c a lb n i j)
    (hi : lb < i) (hij : i < j) (hup : LeAt c a lb i) (hdown : LeAt c a j lb)
    (h : exchange a i j = some a') : PartInv c a' lb n (i + 1) (j - 1) := by
  have hlb : a'[lb]? = a[lb]? := exchange_getElem?_of_ne h (by omega) (by omega)
  constructor
  · intro k hk hki
    by_cases hk' : k = i
    · exact LeAt.congr (hk' ▸ exchange_getElem?_left h) hlb hdown
    · exact LeAt.congr (exchange_getElem?_of_ne h hk' (by omega)) hlb (hinv.left k hk (by omega))
  · intro l hl hln
    by_cases hl' : l = j
    · exact LeAt.congr hlb (hl' ▸ exchange_getElem?_right h) hup
    · exact LeAt.congr hlb (exchange_getElem?_of_ne h (by omega) hl') (hinv.right l (by omega) hln)

/-- The partition loop keeps the elements of the segment inside it, and ends with those
    after the pivot up to where the scan down stopped at most the pivot, and the others
    at least it. -/
theorem partitionLoop_sorted {lb n : Nat} {s' : σ} {a' : List α} {j' m0' : Nat} (fuel : Nat) :
    ∀ {a : List α} {s : σ} {i j m0 : Nat},
      partitionLoop cmp lb fuel a s i j m0 = some (a', s', j', m0') → lb + 1 ≤ i → i ≤ j + 1 →
        j < lb + n → DownBound lb a.length j m0 → PartInv c a lb n i j →
          PartInv c a' lb n (j' + 1) j' ∧ SegFrame (lb, n) a a' := by
  induction fuel with
  | zero => intro a s i j m0 h; cases h
  | succ fuel ih =>
    intro a s i j m0 h hi hij hjn hb hinv
    unfold partitionLoop at h
    obtain ⟨⟨i₁, s₁⟩, hup, h⟩ := Option.bind_eq_some_iff.mp h
    obtain ⟨⟨j₁, m0₁, s₂⟩, hdown, h⟩ := Option.bind_eq_some_iff.mp h
    obtain ⟨hi₁, hi₁j⟩ := scanUp_spec fuel hup
    obtain ⟨hj₁, hb₁, hmin⟩ := scanDown_spec (by omega) fuel hdown hb
    obtain ⟨hpastUp, hstopUp⟩ := scanUp_sorted hc hag fuel hup
    obtain ⟨hpastDown, hstopDown⟩ := scanDown_sorted hc hag fuel hdown
    -- what the two scans passed joins the two sides of the invariant
    have hinv₁ : PartInv c a lb n i₁ j₁ := by
      constructor
      · intro k hk hki
        by_cases hk' : k < i
        · exact hinv.left k hk hk'
        · exact hpastUp k (by omega) hki
      · intro l hl hln
        by_cases hl' : l ≤ j
        · exact hpastDown l hl hl'
        · exact hinv.right l (by omega) hln
    dsimp only at h
    split at h
    · -- the scans met: the element where the scan down stopped is at most the pivot too
      rename_i hmet
      cases h
      refine ⟨⟨fun k hk hkj => ?_, hinv₁.right⟩, SegFrame.refl _ _⟩
      by_cases hki : k < i₁
      · exact hinv₁.left k hk hki
      · have : k = j' := by omega
        exact this ▸ hstopDown (by omega)
    · rename_i hlt
      obtain ⟨a₁, hex, h⟩ := Option.bind_eq_some_iff.mp h
      have hinv₂ := hinv₁.swap (by omega) (by omega) (hstopUp (by omega))
        (hstopDown (by omega)) hex
      have hb₂ : DownBound lb a₁.length (j₁ - 1) (m0₁ - 1) := by
        rw [exchange_length hex]
        exact ⟨by omega, by have := hb₁.lt; omega, by have := hb₁.offset; omega⟩
      obtain ⟨hinv', hframe'⟩ := ih h (by omega) (by omega) (by omega) hb₂ hinv₂
      have hframe : SegFrame (lb, n) a a₁ :=
        exchange_segFrame hex ⟨by omega, by omega⟩ ⟨by omega, by omega⟩
      exact ⟨hinv', hframe.trans hframe'⟩

omit hc hag in
/-- The pivot exchanged with the element where the scan down stopped: the segment is
    partitioned around it. -/
theorem PartInv.pivot {a a' : List α} {lb n j : Nat} (hinv : PartInv c a lb n (j + 1) j)
    (hj : lb ≤ j) (h : exchange a lb j = some a') : Partitioned c a' lb n j := by
  have hpivot : a'[j]? = a[lb]? := exchange_getElem?_right h
  constructor
  · intro k hk hkj
    by_cases hklb : k = lb
    · exact LeAt.congr (hklb ▸ exchange_getElem?_left h) hpivot (hinv.left j (by omega) (by omega))
    · exact LeAt.congr (exchange_getElem?_of_ne h hklb (by omega)) hpivot
        (hinv.left k (by omega) (by omega))
  · intro l hl hln
    have hl' : a'[l]? = a[l]? := exchange_getElem?_of_ne h (by omega) (by omega)
    exact LeAt.congr hpivot hl' (hinv.right l hl hln)

omit hag in
/-- Two elements of a partitioned segment, not both before the pivot and not both after
    it, are in order. -/
theorem Partitioned.leAt {a : List α} {lb n j k l : Nat} (hp : Partitioned c a lb n j)
    (hjlen : j < a.length) (hk : lb ≤ k) (hkl : k < l) (hl : l < lb + n) (hkj : k ≤ j)
    (hjl : j ≤ l) : LeAt c a k l := by
  rcases Nat.eq_or_lt_of_le hkj with rfl | hkj
  · exact hp.right l hkl hl
  · rcases Nat.eq_or_lt_of_le hjl with rfl | hjl
    · exact hp.left k hk hkj
    · exact LeAt.trans hc hjlen (hp.left k hk hkj) (hp.right l hjl hl)

omit hag in
/-- After the partition of the segment `(lb, n)` at the top of the segments left to sort,
    with the pivot at `j = lb + m0`: each of its two parts is left to sort or has at most
    one element, and the order holds again. -/
theorem Blocks.partition {a a' : List α} {lb n j m0 : Nat} {stack pending : List (Nat × Nat)}
    (hb : Blocks c a ((lb, n) :: stack)) (hdisj : ∀ S ∈ stack, SegDisjoint (lb, n) S)
    (hframe : SegFrame (lb, n) a a') (hp : Partitioned c a' lb n j) (hm0 : m0 + lb = j)
    (hjlen : j < a'.length) (hsub : ∀ S ∈ stack, S ∈ pending)
    (hleft : (lb, m0) ∈ pending ∨ m0 ≤ 1) (hright : (j + 1, n - m0 - 1) ∈ pending ∨ n - m0 - 1 ≤ 1) :
    Blocks c a' pending := by
  refine hb.frame hdisj hframe hsub fun k l hkl hk hl hsep => ?_
  unfold InSeg at hk hl
  dsimp only at hk hl
  -- two elements of one part would lie in a segment left to sort, or in one of one element
  have hjl : j ≤ l := by
    by_contra hlj
    rcases hleft with hmem | hsmall
    · exact hsep _ hmem ⟨⟨hk.1, by omega⟩, ⟨by omega, by omega⟩⟩
    · omega
  have hkj : k ≤ j := by
    by_contra hjk
    rcases hright with hmem | hsmall
    · exact hsep _ hmem ⟨⟨by omega, by omega⟩,
        ⟨by omega, by omega⟩⟩
    · omega
  exact hp.leAt hc hjlen hk.1 hkl hl.2 hkj hjl

omit hag in
/-- After the partition of the segment `(lb, n)` around `j = lb + m0`, one of its two parts
    kept and the other pushed when `b`, which it must be if it has two elements or more:
    the invariant of the sort holds again. -/
theorem SortInv.parts {a a' : List α} {lb n j m0 : Nat} {stack : List (Nat × Nat)}
    (hinv : SortInv c a ((lb, n) :: stack)) (hframe : SegFrame (lb, n) a a')
    (hp : Partitioned c a' lb n j) (hm0 : m0 + lb = j) (hjn : j < lb + n)
    (hjlen : j < a'.length) {keep push : Nat × Nat} {b : Prop} [Decidable b]
    (hparts : keep = (lb, m0) ∧ push = (j + 1, n - m0 - 1) ∨
      keep = (j + 1, n - m0 - 1) ∧ push = (lb, m0))
    (hsmall : ¬b → push.2 ≤ 1) :
    SortInv c a' (keep :: if b then push :: stack else stack) := by
  have hkeep : keep ∈ keep :: if b then push :: stack else stack := List.mem_cons_self
  have hpush : push ∈ (keep :: if b then push :: stack else stack) ∨ push.2 ≤ 1 := by
    by_cases hb : b
    · exact .inl (by rw [if_pos hb]; simp)
    · exact .inr (hsmall hb)
  have hstack : ∀ S ∈ stack, S ∈ keep :: if b then push :: stack else stack := by
    intro S hS
    split <;> simp [hS]
  -- each part is inside the segment, and the two are one after the other
  have hleft : SegWithin (lb, m0) (lb, n) := ⟨le_rfl, by omega⟩
  have hright : SegWithin (j + 1, n - m0 - 1) (lb, n) := ⟨by omega, by omega⟩
  rcases hparts with ⟨rfl, rfl⟩ | ⟨rfl, rfl⟩
  · exact ⟨hinv.blocks.partition hc (List.pairwise_cons.mp hinv.disjoint).1 hframe hp hm0 hjlen
      hstack (.inl hkeep) hpush, pairwise_parts hinv.disjoint hleft hright (.inl (by omega)) b⟩
  · exact ⟨hinv.blocks.partition hc (List.pairwise_cons.mp hinv.disjoint).1 hframe hp hm0 hjlen
      hstack hpush (.inl hkeep), pairwise_parts hinv.disjoint hright hleft (.inr (by omega)) b⟩

end Partition

/-! ## Section 5: The quicksort loop -/

section Quick

variable {α σ : Type} {c : α → α → Int} {cmp : σ → α → α → Option (Int × σ)}
variable (hc : TotalPreorder c) (hag : Agrees cmp c)
include hc hag

/-- The quicksort loop keeps the invariant of the sort, with the segment it leaves for the
    insertion sort at the top. -/
theorem quickLoop_sorted {a' : List α} {s' : σ} {stack' : List (Nat × Nat)} {lb' n' : Nat}
    (fuel : Nat) : ∀ {a : List α} {s : σ} {stack : List (Nat × Nat)} {lb n : Nat},
      quickLoop cmp fuel a s stack lb n = some (a', s', stack', lb', n') → lb + n ≤ a.length →
        SortInv c a ((lb, n) :: stack) → SortInv c a' ((lb', n') :: stack') := by
  induction fuel with
  | zero => intro a s stack lb n h; cases h
  | succ fuel ih =>
    intro a s stack lb n h hseg hinv
    unfold quickLoop at h
    split at h
    · rename_i hn
      obtain ⟨⟨m, s₁⟩, hmed, h⟩ := Option.bind_eq_some_iff.mp h
      obtain ⟨a₁, hex₁, h⟩ := Option.bind_eq_some_iff.mp h
      obtain ⟨⟨a₂, s₂, j, m0⟩, hpart, h⟩ := Option.bind_eq_some_iff.mp h
      obtain ⟨a₃, hex₃, h⟩ := Option.bind_eq_some_iff.mp h
      obtain ⟨hlen₃, hj, hjn, hm0⟩ := partitionStep_spec hn hseg hex₁ hpart hex₃
      -- the median of three to the front, the partition, the pivot between the two parts:
      -- each moves the elements of the segment inside it
      have hm : InSeg (lb, n) m := by
        rcases med3_mem hmed with rfl | rfl | rfl <;> exact ⟨by omega, by omega⟩
      have hframe₁ : SegFrame (lb, n) a a₁ :=
        exchange_segFrame hex₁ ⟨le_rfl, by omega⟩ hm
      have hb : DownBound lb a₁.length (lb + n - 1) (n - 1) := by
        rw [exchange_length hex₁]
        exact ⟨by omega, by omega, by omega⟩
      obtain ⟨hpinv, hframe₂⟩ : PartInv c a₂ lb n (j + 1) j ∧ SegFrame (lb, n) a₁ a₂ :=
        partitionLoop_sorted hc hag fuel hpart (by omega) (by omega) (by omega) hb
          ⟨fun k _ hk => absurd hk (by omega), fun l hl _ => absurd hl (by omega)⟩
      have hp := hpinv.pivot hj hex₃
      have hframe₃ : SegFrame (lb, n) a₂ a₃ := exchange_segFrame hex₃ ⟨le_rfl, by omega⟩ ⟨hj, hjn⟩
      have hframe := hframe₁.trans (hframe₂.trans hframe₃)
      have hjlen : j < a₃.length := by omega
      dsimp only at h
      split at h
      · -- the right part pushed if it has two elements, and the loop goes on on the left
        exact ih (pushIf_bind h) (by omega)
          (hinv.parts hc hframe hp hm0 hjn hjlen (.inl ⟨rfl, rfl⟩) (fun _ => by omega))
      · -- the left part pushed if it has two elements, and the loop goes on on the right
        exact ih (pushIf_bind h) (by omega)
          (hinv.parts hc hframe hp hm0 hjn hjlen (.inr ⟨rfl, rfl⟩) (fun _ => by omega))
    · cases h
      exact hinv

end Quick

/-! ## Section 6: The insertion sort -/

section Insertion

variable {α σ : Type} {c : α → α → Int} {cmp : σ → α → α → Option (Int × σ)}

/-- The invariant of the insertion of the element from `i`, now at `m`: the elements from
    `lb` up to `i` but the one at `m` in order, and the one at `m` at most those after it. -/
structure InsertInv (c : α → α → Int) (a : List α) (lb i m : Nat) : Prop where
  hole : ∀ k l, lb ≤ k → k < l → l ≤ i → k ≠ m → l ≠ m → LeAt c a k l
  above : ∀ l, m < l → l ≤ i → LeAt c a m l

/-- The element moving down stops at the start of the segment, or after one at most it:
    the elements from `lb` up to `i` are in order. -/
theorem InsertInv.sorted (hc : TotalPreorder c) {a : List α} {lb i m : Nat}
    (hinv : InsertInv c a lb i m)
    (hstop : m ≤ lb ∨ (m - 1 < a.length ∧ LeAt c a (m - 1) m)) : SortedIn c a lb (i + 1) := by
  intro k l hk hkl hl
  by_cases hkm : k = m
  · exact hkm ▸ hinv.above l (hkm ▸ hkl) (by omega)
  by_cases hlm : l = m
  · -- an element before the one that stopped is at most the one just before it
    subst hlm
    rcases hstop with hlb | ⟨hlen, hprev⟩
    · omega
    by_cases hk' : k = l - 1
    · exact hk' ▸ hprev
    · exact LeAt.trans hc hlen (hinv.hole k (l - 1) hk (by omega) (by omega) hkm (by omega)) hprev
  · exact hinv.hole k l hk hkl (by omega) hkm hlm

/-- The element at `m` exchanged with the greater one before it: the invariant holds
    one place down. -/
theorem InsertInv.swap {a a' : List α} {lb i m : Nat} (hinv : InsertInv c a lb i m)
    (hm : lb < m) (hgt : LeAt c a m (m - 1)) (h : exchange a m (m - 1) = some a') :
    InsertInv c a' lb i (m - 1) := by
  have hdown : a'[m - 1]? = a[m]? := exchange_getElem?_right h
  have hup : a'[m]? = a[m - 1]? := exchange_getElem?_left h
  constructor
  · intro k l hk hkl hl hk' hl'
    by_cases hkm : k = m
    · -- the element now at `m` was just before it, and at most those after it
      have hl₀ : a'[l]? = a[l]? := exchange_getElem?_of_ne h (by omega) hl'
      exact LeAt.congr (hkm ▸ hup) hl₀ (hinv.hole (m - 1) l (by omega) (by omega) hl (by omega) (by omega))
    have hk₀ : a'[k]? = a[k]? := exchange_getElem?_of_ne h hkm hk'
    by_cases hlm : l = m
    · exact LeAt.congr hk₀ (hlm ▸ hup) (hinv.hole k (m - 1) hk (by omega) (by omega) hkm (by omega))
    · have hl₀ : a'[l]? = a[l]? := exchange_getElem?_of_ne h hlm hl'
      exact LeAt.congr hk₀ hl₀ (hinv.hole k l hk hkl hl hkm hlm)
  · intro l hl hli
    by_cases hlm : l = m
    · exact LeAt.congr hdown (hlm ▸ hup) hgt
    · have hl₀ : a'[l]? = a[l]? := exchange_getElem?_of_ne h hlm (by omega)
      exact LeAt.congr hdown hl₀ (hinv.above l (by omega) hli)

variable (hc : TotalPreorder c) (hag : Agrees cmp c)
include hc hag

/-- The inner loop of the insertion sort puts the elements from `lb` up to `i` in order,
    moving them inside the segment. -/
theorem insertDown_sorted {lb n i : Nat} {a' : List α} {s' : σ} (fuel : Nat) :
    ∀ {a : List α} {s : σ} {m : Nat}, insertDown cmp lb fuel a s m = some (a', s') →
      lb ≤ m → m ≤ i → i < lb + n → InsertInv c a lb i m →
        SortedIn c a' lb (i + 1) ∧ SegFrame (lb, n) a a' := by
  induction fuel with
  | zero => intro a s m h; cases h
  | succ fuel ih =>
    intro a s m h hlb hmi hin hinv
    unfold insertDown at h
    split at h
    · rename_i hm
      obtain ⟨⟨r, s₁⟩, hcmp, h⟩ := Option.bind_eq_some_iff.mp h
      dsimp only at h
      split at h
      · -- the element before is greater: the two are exchanged
        rename_i hr
        obtain ⟨a₁, hex, h⟩ := Option.bind_eq_some_iff.mp h
        have hinv₁ := hinv.swap hm (leAt_of_compareAt_pos hc hag hcmp hr) hex
        have hframe : SegFrame (lb, n) a a₁ :=
          exchange_segFrame hex ⟨by omega, by omega⟩ ⟨by omega, by omega⟩
        obtain ⟨hsorted, hframe'⟩ := ih h (by omega) (by omega) hin hinv₁
        exact ⟨hsorted, hframe.trans hframe'⟩
      · cases h
        have hlen := (compareAt_some hcmp).1
        exact ⟨hinv.sorted hc (.inr ⟨hlen, leAt_of_compareAt hag hcmp ‹_›⟩), SegFrame.refl _ _⟩
    · cases h
      exact ⟨hinv.sorted hc (.inl (by omega)), SegFrame.refl _ _⟩

/-- The insertion sort of the segment of `n` elements at `lb`, from `i` on, puts it in
    order, moving its elements inside it. -/
theorem insertionLoop_sorted {lb n : Nat} {a' : List α} {s' : σ} (fuel : Nat) :
    ∀ {a : List α} {s : σ} {i : Nat}, insertionLoop cmp lb (lb + n) fuel a s i = some (a', s') →
      lb ≤ i → SortedIn c a lb i → SortedIn c a' lb (lb + n) ∧ SegFrame (lb, n) a a' := by
  induction fuel with
  | zero => intro a s i h; cases h
  | succ fuel ih =>
    intro a s i h hi hsorted
    unfold insertionLoop at h
    split at h
    · rename_i hin
      obtain ⟨⟨a₁, s₁⟩, hdown, h⟩ := Option.bind_eq_some_iff.mp h
      -- the element at `i` moves down into the elements before it, in order
      have hinv : InsertInv c a lb i i :=
        ⟨fun k l hk hkl hl _ hli => hsorted k l hk hkl (by omega),
          fun l hl hli => absurd hli (by omega)⟩
      obtain ⟨hsorted₁, hframe⟩ := insertDown_sorted hc hag fuel hdown hi le_rfl hin hinv
      obtain ⟨hsorted', hframe'⟩ := ih h (by omega) hsorted₁
      exact ⟨hsorted', hframe.trans hframe'⟩
    · cases h
      exact ⟨hsorted.mono (by omega), SegFrame.refl _ _⟩

end Insertion

/-! ## Section 7: The sort -/

section Sorting

variable {α σ : Type} {c : α → α → Int} {cmp : σ → α → α → Option (Int × σ)}
variable (hc : TotalPreorder c) (hag : Agrees cmp c)
include hc hag

/-- The loop over the stack keeps the invariant of the sort until no segment is left. -/
theorem stackLoop_sorted {a' : List α} {s' : σ} (fuel : Nat) :
    ∀ {a : List α} {s : σ} {stack : List (Nat × Nat)}, stackLoop cmp fuel a s stack = some (a', s') →
      SegmentsIn a.length stack → StackDepth a.length stack → SortInv c a stack → Blocks c a' [] := by
  induction fuel with
  | zero => intro a s stack h; cases h
  | succ fuel ih =>
    intro a s stack h hsegs hdepth hinv
    cases stack with
    | nil =>
      cases h
      exact hinv.blocks
    | cons seg stack =>
      obtain ⟨lb, n⟩ := seg
      unfold stackLoop at h
      obtain ⟨⟨a₁, s₁, stack₁, lb₁, n₁⟩, hquick, h⟩ := Option.bind_eq_some_iff.mp h
      obtain ⟨⟨a₂, s₂⟩, hins, h⟩ := Option.bind_eq_some_iff.mp h
      have hq := QuickInv.pop hsegs hdepth
      obtain ⟨hlen₁, hq₁, -, -⟩ := quickLoop_spec fuel hquick hq
      have hinv₁ := quickLoop_sorted hc hag fuel hquick hq.seg hinv
      -- the segment the quicksort loop leaves is sorted by the insertion sort
      obtain ⟨hsorted, hframe⟩ := insertionLoop_sorted hc hag fuel hins (by omega)
        (fun k l hk hkl hl => absurd hl (by omega))
      obtain ⟨hdisj, hstack⟩ := List.pairwise_cons.mp hinv₁.disjoint
      have hinv₂ : SortInv c a₂ stack₁ :=
        ⟨hinv₁.blocks.frame hdisj hframe (fun S hS => hS)
          (fun k l hkl hk hl _ => hsorted k l hk.1 hkl hl.2), hstack⟩
      have hlen₂ := (insertionLoop_perm fuel hins).length_eq
      rw [← hlen₁, ← hlen₂] at hq₁
      exact ih h hq₁.segs hq₁.depth hinv₂

/-- For a comparison whose answers are those of a total preorder, what `qe_qsort_r`
    returns is in order. -/
theorem qeQsortR_sorted {fuel : Nat} {a a' : List α} {s s' : σ}
    (h : qeQsortR cmp fuel a s = some (a', s')) : a'.Pairwise (fun x y => c x y ≤ 0) := by
  unfold qeQsortR at h
  split at h
  · -- fewer than two elements: nothing to sort
    rename_i hlen
    cases h
    refine Blocks.pairwise fun k l hkl _ x y _ hy => ?_
    rw [List.getElem?_eq_none (by omega)] at hy
    cases hy
  · exact Blocks.pairwise (stackLoop_sorted hc hag fuel h (segmentsIn_init (by omega))
      (stackDepth_init _) (SortInv.init a))

end Sorting

/-! ## Section 8: `qe_qsort_r` ends and sorts -/

section Correct

variable {α σ : Type}

/-- `qe_qsort_r` with a comparison that answers every call, on an array of fewer than
    `2 ^ 64` elements: it ends, with no comparison or exchange outside the array and no
    push past the `MAXSTACK` entries of its stack, and returns a permutation of the array,
    in order for each total preorder whose answers the comparison gives. -/
theorem qeQsortR_sorts (cmp : σ → α → α → Int × σ) {a : List α} (hlen : a.length < 2 ^ 64)
    {fuel : Nat} (hfuel : 3 * a.length < fuel) (s : σ) :
    ∃ a' s', qeQsortR (fun s x y => some (cmp s x y)) fuel a s = some (a', s') ∧ a'.Perm a ∧
      ∀ c : α → α → Int, TotalPreorder c → (∀ s x y, (cmp s x y).1 = c x y) →
        a'.Pairwise (fun x y => c x y ≤ 0) := by
  have hcmp : Answers (fun s x y => some (cmp s x y)) := fun _ _ _ => rfl
  obtain ⟨⟨a', s'⟩, h⟩ := qeQsortR_run hcmp hlen hfuel s
  refine ⟨a', s', h, qeQsortR_perm h, fun c hc hagree => qeQsortR_sorted hc ?_ h⟩
  intro s x y r s' hr
  rw [← hagree s x y, Option.some.inj hr]

theorem qeQsortR_sorts_eight :
    [5, 3, 8, 1, 9, 2, 7, 4].length < 2 ^ 64 ∧ 3 * [5, 3, 8, 1, 9, 2, 7, 4].length < 25 ∧
      ∃ a' s', qeQsortR (fun (s : Unit) (x y : Int) => some (x - y, s)) 25
          [5, 3, 8, 1, 9, 2, 7, 4] () = some (a', s') ∧ a'.Perm [5, 3, 8, 1, 9, 2, 7, 4] ∧
        ∀ c : Int → Int → Int, TotalPreorder c → (∀ (_ : Unit) (x y : Int), x - y = c x y) →
          a'.Pairwise (fun x y => c x y ≤ 0) :=
  ⟨by decide, by decide, qeQsortR_sorts (fun (s : Unit) (x y : Int) => (x - y, s)) (by decide)
    (by decide) ()⟩

example : qeQsortR (fun (s : Unit) (x y : Int) => some (x - y, s)) 25 [5, 3, 8, 1, 9, 2, 7, 4] () =
    some ([1, 2, 3, 4, 5, 7, 8, 9], ()) := by decide

end Correct

end Qemacs
