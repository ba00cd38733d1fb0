import Qemacs.Script.Token
import Qemacs.Util.Strx
import Qemacs.Util.QsortSorted
import Mathlib.Data.List.TakeWhile
import Mathlib.Data.List.Lex

/-!
# `qe_strcollate`

The comparison that dired, bufed and completion sort their names with (util.c): bytes
compare by value, except that `'/'` sorts right after the end of the string and `'*'` after
every other byte, and runs of digits compare by length before they compare digit by digit,
so that `"file9"` sorts before `"file10"`.

The source finds the first byte where the strings differ, orders the two bytes, and then
looks at the digits the strings have at the same places from there on: when the byte before
the difference is a digit, or both differing bytes are, the string whose digit run stops
first is the smaller. The model keeps its two loops (`collateCommon`, `collateDigits`).

What it computes is the lexicographic order of a collation key (`collateKey`): every digit
run becomes the rank of `'0'`, its length and the ranks of its digits, every other byte its
rank. `qeStrcollate_eq` says that `qe_strcollate` compares these keys, and `collateKey`
determines the string (`collateKey_injective`), so `qe_strcollate` is a total order on C
strings: it answers 0 on equal strings only, it is antisymmetric and transitive, and
`qe_qsort_r` sorts with it (`collate_totalPreorder`).
-/

namespace Qemacs

/-! ## The model -/

/-- `res`: the order of the first differing bytes, `'/'` right after the NUL and `'*'` last. -/
def collateRes (c1 c2 : UInt8) : Int :=
  if c1 = 0x2f then (if c2 = 0 then 1 else -1)
  else if c2 = 0x2f then (if c1 = 0 then -1 else 1)
  else if c1 = 0x2a then 1
  else if c2 = 0x2a then -1
  else if c1 < c2 then -1 else 1

/-- The first loop of `qe_strcollate`: it passes the bytes the strings share and stops on
the first pair that differs, giving `last`, the two bytes and the rests after them; `none`
when both strings end together. -/
def collateCommon (last : UInt8) (s1 s2 : List UInt8) :
    Option (UInt8 × UInt8 × UInt8 × List UInt8 × List UInt8) :=
  let c1 := s1.headD 0
  let c2 := s2.headD 0
  if c1 = c2 then
    if c1 = 0 then none else collateCommon c1 s1.tail s2.tail
  else some (last, c1, c2, s1.tail, s2.tail)
termination_by s1.length
decreasing_by exact tail_length_lt ‹¬c1 = 0›

/-- The byte after a digit is read only when the digit is not the end of the string. -/
theorem tail_length_add_isdigit_le (s : List UInt8) :
    s.tail.length + (if qeIsdigit (s.headD 0) then 1 else 0) ≤ s.length := by
  cases s with
  | nil => decide
  | cons c s => split <;> simp

/-- The second loop of `qe_strcollate`: it passes the places from the first difference on
where both strings hold a digit, giving `last` and `flags`, which says which of the two
bytes after them is a digit. -/
def collateDigits (last c1 c2 : UInt8) (s1 s2 : List UInt8) : UInt8 × Nat :=
  let flags := (if qeIsdigit c1 then 2 else 0) + (if qeIsdigit c2 then 1 else 0)
  if flags = 3 then collateDigits c1 (s1.headD 0) (s2.headD 0) s1.tail s2.tail
  else (last, flags)
termination_by s1.length + (if qeIsdigit c1 then 1 else 0)
decreasing_by
  have hc1 : qeIsdigit c1 = true := by
    by_contra h
    have : flags ≤ 1 := by
      by_cases h2 : qeIsdigit c2 <;> simp [flags, h, h2]
    omega
  have := tail_length_add_isdigit_le s1
  simp only [hc1, if_true]
  omega

/-- `qe_strcollate`: negative, zero or positive as `s1` sorts before, with or after `s2`. -/
def qeStrcollate (s1 s2 : List UInt8) : Int :=
  match collateCommon 0 s1 s2 with
  | none => 0
  | some (last, c1, c2, s1, s2) =>
    let res := collateRes c1 c2
    let (last, flags) := collateDigits last c1 c2 s1 s2
    if !qeIsdigit last || flags = 0 then res
    else if flags = 1 then -1 else 1

/-! ## The collation key -/

/-- The place of a byte in the order of `qe_strcollate`: the NUL, `'/'`, the other bytes by
value, `'*'`. -/
def collateRank (c : UInt8) : Nat :=
  if c = 0 then 0 else if c = 0x2f then 1 else if c = 0x2a then 257 else c.toNat + 1

/-- The key a string sorts by: each run of digits gives the rank of `'0'`, its length and the
ranks of its digits, and every other byte its rank. -/
def collateKey (s : List UInt8) : List Nat :=
  match s with
  | [] => []
  | c :: t =>
    if qeIsdigit c then
      collateRank 0x30 :: (s.takeWhile qeIsdigit).length ::
        ((s.takeWhile qeIsdigit).map collateRank ++ collateKey (t.dropWhile qeIsdigit))
    else collateRank c :: collateKey t
termination_by s.length
decreasing_by
  all_goals
    have : (t.dropWhile qeIsdigit).length ≤ t.length := (List.dropWhile_sublist _).length_le
    simp only [List.length_cons]
    omega

@[simp] theorem qeIsdigit_zero : qeIsdigit 0 = false := by decide

theorem qeIsdigit_iff (c : UInt8) : qeIsdigit c = true ↔ 48 ≤ c.toNat ∧ c.toNat ≤ 57 := by
  simp [qeIsdigit, UInt8.le_iff_toNat_le]

/-- The rank as arithmetic on the byte's value. -/
theorem collateRank_toNat (c : UInt8) : collateRank c =
    if c.toNat = 0 then 0 else if c.toNat = 47 then 1 else if c.toNat = 42 then 257
    else c.toNat + 1 := by
  simp only [collateRank, ← UInt8.toNat_inj, UInt8.toNat_ofNat]

/-- Digits keep their order among the ranks. -/
theorem collateRank_of_isdigit {c : UInt8} (h : qeIsdigit c = true) :
    collateRank c = c.toNat + 1 := by
  rw [qeIsdigit_iff] at h
  rw [collateRank_toNat]
  split_ifs <;> omega

/-- No other byte ranks among the digits: a digit run sorts against a byte as its first digit
would. -/
theorem collateRank_of_not_isdigit {c : UInt8} (h : qeIsdigit c = false) :
    collateRank c < 49 ∨ 58 < collateRank c := by
  have h' : ¬(48 ≤ c.toNat ∧ c.toNat ≤ 57) := by
    rw [← qeIsdigit_iff]
    simp [h]
  rw [collateRank_toNat]
  split_ifs <;> omega

theorem collateRank_injective : Function.Injective collateRank := by
  intro a b h
  have ha := a.toNat_lt
  have hb := b.toNat_lt
  rw [← UInt8.toNat_inj]
  rw [collateRank_toNat, collateRank_toNat] at h
  split_ifs at h <;> omega

theorem collateRank_pos {c : UInt8} (h : c ≠ 0) : 0 < collateRank c := by
  rw [Ne, ← UInt8.toNat_inj] at h
  rw [collateRank_toNat]
  split_ifs <;> simp_all

/-- `res` is the order of the ranks. -/
theorem collateRes_eq {c1 c2 : UInt8} (h : c1 ≠ c2) :
    collateRes c1 c2 = if collateRank c1 < collateRank c2 then -1 else 1 := by
  have h1 := c1.toNat_lt
  have h2 := c2.toNat_lt
  rw [Ne, ← UInt8.toNat_inj] at h
  simp only [collateRes, collateRank_toNat, ← UInt8.toNat_inj, UInt8.lt_iff_toNat_lt,
    UInt8.toNat_ofNat]
  split_ifs <;> omega

/-! ## How the key is built -/

@[simp] theorem collateKey_nil : collateKey [] = [] := by
  simp [collateKey]

theorem collateKey_cons_of_not_isdigit {c : UInt8} (t : List UInt8) (h : qeIsdigit c = false) :
    collateKey (c :: t) = collateRank c :: collateKey t := by
  rw [collateKey, if_neg (by simp [h])]

/-- A string that starts with a digit: its key starts with the run of digits. -/
theorem collateKey_of_isdigit_head {s : List UInt8} (h : qeIsdigit (s.headD 0) = true) :
    collateKey s = collateRank 0x30 :: (s.takeWhile qeIsdigit).length ::
      ((s.takeWhile qeIsdigit).map collateRank ++ collateKey (s.dropWhile qeIsdigit)) := by
  cases s with
  | nil => simp at h
  | cons c t =>
    simp only [List.headD_cons] at h
    rw [collateKey, if_pos h, List.dropWhile_cons_of_pos h]

/-- The first entry of a key: the rank of `'0'` for a run of digits, the byte's rank
otherwise. -/
def collateHead (c : UInt8) : Nat := if qeIsdigit c then collateRank 0x30 else collateRank c

theorem collateKey_cons (c : UInt8) (t : List UInt8) :
    ∃ k, collateKey (c :: t) = collateHead c :: k := by
  unfold collateHead
  by_cases h : qeIsdigit c
  · exact ⟨_, by rw [collateKey_of_isdigit_head (by simpa using h), if_pos h]⟩
  · rw [Bool.not_eq_true] at h
    exact ⟨_, by rw [collateKey_cons_of_not_isdigit t h, if_neg (by simp [h])]⟩

@[simp] theorem collateKey_eq_nil_iff {s : List UInt8} : collateKey s = [] ↔ s = [] := by
  cases s with
  | nil => simp
  | cons c t =>
    obtain ⟨k, hk⟩ := collateKey_cons c t
    simp [hk]

/-- Two different first bytes that are not both digits: their heads compare as their ranks. -/
theorem collateHead_lt_iff {x y : UInt8} (hxy : x ≠ y)
    (hd : ¬(qeIsdigit x = true ∧ qeIsdigit y = true)) :
    collateHead x ≠ collateHead y ∧
      (collateHead x < collateHead y ↔ collateRank x < collateRank y) := by
  have hr0 : collateRank 0x30 = 49 := by decide
  have hne : collateRank x ≠ collateRank y := fun h => hxy (collateRank_injective h)
  unfold collateHead
  by_cases hx : qeIsdigit x <;> by_cases hy : qeIsdigit y
  · exact absurd ⟨hx, hy⟩ hd
  · rw [Bool.not_eq_true] at hy
    have := collateRank_of_isdigit hx
    have := (qeIsdigit_iff x).mp hx
    have := collateRank_of_not_isdigit hy
    simp only [hx, hy, if_true, hr0, Bool.false_eq_true, if_false]
    omega
  · rw [Bool.not_eq_true] at hx
    have := collateRank_of_isdigit hy
    have := (qeIsdigit_iff y).mp hy
    have := collateRank_of_not_isdigit hx
    simp only [hx, hy, if_true, hr0, Bool.false_eq_true, if_false]
    omega
  · simp only [hx, hy]
    exact ⟨hne, Iff.rfl⟩

/-- A digit run, the digits the strings share at its start included. -/
theorem collateKey_digits_append {d : List UInt8} (r : List UInt8)
    (hd : ∀ x ∈ d, qeIsdigit x = true) (hrun : d ≠ [] ∨ qeIsdigit (r.headD 0) = true) :
    collateKey (d ++ r) = collateRank 0x30 :: (d.length + (r.takeWhile qeIsdigit).length) ::
      ((d ++ r.takeWhile qeIsdigit).map collateRank ++ collateKey (r.dropWhile qeIsdigit)) := by
  have hhead : qeIsdigit ((d ++ r).headD 0) = true := by
    cases d with
    | nil => simpa using hrun
    | cons x d => exact hd x (by simp)
  rw [collateKey_of_isdigit_head hhead, List.takeWhile_append_of_pos hd,
    List.dropWhile_append_of_pos hd, List.length_append]

/-- Where the string before a boundary does not end in a digit, the keys of the two sides
join. -/
theorem collateKey_append (q r : List UInt8) (h : ∀ x ∈ q.getLast?, qeIsdigit x = false) :
    collateKey (q ++ r) = collateKey q ++ collateKey r := by
  induction q using collateKey.induct with
  | case1 => simp
  | case2 c t hc ih =>
    -- `t` ends in the byte that is not a digit, so the run stops inside `c :: t`
    obtain ⟨z, hz, hzd⟩ : ∃ z ∈ t, qeIsdigit z = false := by
      cases ht : t.getLast? with
      | none =>
        rw [List.getLast?_eq_none_iff] at ht
        subst ht
        simp [hc] at h
      | some z =>
        refine ⟨z, List.mem_of_getLast? ht, h z ?_⟩
        simp [List.getLast?_cons, ht]
    have hdrop : t.dropWhile qeIsdigit ≠ [] := by
      rw [Ne, List.dropWhile_eq_nil_iff]
      exact fun hall => by simp [hall z hz] at hzd
    obtain ⟨w, v, hwv⟩ := List.exists_cons_of_ne_nil hdrop
    have hw : qeIsdigit w = false := by
      have := List.head?_dropWhile_not qeIsdigit t
      simpa [hwv] using this
    have htw : ∀ x ∈ t.takeWhile qeIsdigit, qeIsdigit x = true :=
      fun x hx => List.mem_takeWhile_imp hx
    have ht : t = t.takeWhile qeIsdigit ++ w :: v := by
      rw [← hwv, List.takeWhile_append_dropWhile]
    have hrun : (c :: (t ++ r)).takeWhile qeIsdigit = (c :: t).takeWhile qeIsdigit := by
      rw [List.takeWhile_cons_of_pos hc, List.takeWhile_cons_of_pos hc, ht, List.append_assoc,
        List.takeWhile_append_of_pos htw, List.takeWhile_append_of_pos htw, List.cons_append,
        List.takeWhile_cons_of_neg (by simp [hw]), List.takeWhile_cons_of_neg (by simp [hw])]
    have hrest : (t ++ r).dropWhile qeIsdigit = t.dropWhile qeIsdigit ++ r := by
      rw [ht, List.append_assoc, List.dropWhile_append_of_pos htw, List.dropWhile_append_of_pos htw,
        List.cons_append, List.dropWhile_cons_of_neg (by simp [hw]),
        List.dropWhile_cons_of_neg (by simp [hw]), List.cons_append]
    have hlast : ∀ x ∈ (t.dropWhile qeIsdigit).getLast?, qeIsdigit x = false := by
      intro x hx
      apply h x
      rw [List.getLast?_cons, ht, List.getLast?_append_of_ne_nil _ (by simp)]
      rw [hwv, Option.mem_def] at hx
      simp [hx]
    have hc' : qeIsdigit ((c :: t).headD 0) = true := hc
    have hcr : qeIsdigit ((c :: (t ++ r)).headD 0) = true := hc
    rw [List.cons_append, collateKey_of_isdigit_head hcr, hrun, List.dropWhile_cons_of_pos hc, hrest,
      ih hlast, collateKey_of_isdigit_head hc', List.dropWhile_cons_of_pos hc]
    simp
  | case3 c t hc ih =>
    rw [Bool.not_eq_true] at hc
    have ht : ∀ x ∈ t.getLast?, qeIsdigit x = false := by
      intro x hx
      apply h x
      rw [Option.mem_def] at hx
      simp [List.getLast?_cons, hx]
    rw [List.cons_append, collateKey_cons_of_not_isdigit _ hc, collateKey_cons_of_not_isdigit _ hc,
      ih ht, List.cons_append]

/-! ## What the two loops compute -/

theorem eq_nil_of_headD_eq_zero {s : List UInt8} (hs : 0 ∉ s) (h : s.headD 0 = 0) : s = [] := by
  cases s with
  | nil => rfl
  | cons c t =>
    simp only [List.headD_cons] at h
    simp [h] at hs

/-- Past a shared byte that is not the NUL, the strings are equal when their rests are. -/
theorem eq_iff_tail_eq {s1 s2 : List UInt8} (h0 : s1.headD 0 ≠ 0) (h : s1.headD 0 = s2.headD 0) :
    s1 = s2 ↔ s1.tail = s2.tail := by
  cases s1 with
  | nil => simp at h0
  | cons c1 t1 =>
    cases s2 with
    | nil => simp_all
    | cons c2 t2 => simp_all

/-- The first loop ends without a difference exactly on equal strings. -/
theorem collateCommon_eq_none_iff {s1 s2 : List UInt8} (h1 : 0 ∉ s1) (h2 : 0 ∉ s2) (last : UInt8) :
    collateCommon last s1 s2 = none ↔ s1 = s2 := by
  fun_induction collateCommon last s1 s2 with
  | case1 last s1 s2 c1 c2 heq h0 =>
    -- both strings end here
    simp only [true_iff]
    rw [eq_nil_of_headD_eq_zero h1 h0, eq_nil_of_headD_eq_zero h2 (show c2 = 0 from heq ▸ h0)]
  | case2 last s1 s2 c1 c2 heq h0 ih =>
    have ht1 : 0 ∉ s1.tail := fun h => h1 (List.mem_of_mem_tail h)
    have ht2 : 0 ∉ s2.tail := fun h => h2 (List.mem_of_mem_tail h)
    rw [ih ht1 ht2, eq_iff_tail_eq h0 heq]
  | case3 last s1 s2 c1 c2 hne =>
    simp only [reduceCtorEq, false_iff]
    rintro rfl
    exact hne rfl

theorem eq_cons_of_headD_ne_zero {s : List UInt8} (h : s.headD 0 ≠ 0) : s = s.headD 0 :: s.tail := by
  cases s with
  | nil => simp at h
  | cons c t => rfl

/-- The first loop stops after the longest common prefix `p`, on the first bytes of the two
rests, with the last byte of `p` as `last`. -/
theorem collateCommon_eq_some {last : UInt8} {s1 s2 : List UInt8}
    {r : UInt8 × UInt8 × UInt8 × List UInt8 × List UInt8} (h : collateCommon last s1 s2 = some r) :
    ∃ p a b, s1 = p ++ a ∧ s2 = p ++ b ∧ a.headD 0 ≠ b.headD 0 ∧
      r = (p.getLastD last, a.headD 0, b.headD 0, a.tail, b.tail) := by
  fun_induction collateCommon last s1 s2 with
  | case1 => cases h
  | case2 last s1 s2 c1 c2 heq h0 ih =>
    obtain ⟨p, a, b, ha, hb, hab, hr⟩ := ih h
    have hs1 : s1 = c1 :: s1.tail := eq_cons_of_headD_ne_zero h0
    have hs2 : s2 = c1 :: s2.tail := heq ▸ eq_cons_of_headD_ne_zero (show c2 ≠ 0 from heq ▸ h0)
    refine ⟨c1 :: p, a, b, ?_, ?_, hab, by rw [hr, List.getLastD_cons]⟩
    · rw [hs1, ha, List.cons_append]
    · rw [hs2, hb, List.cons_append]
  | case3 last s1 s2 c1 c2 hne =>
    cases h
    exact ⟨[], s1, s2, rfl, rfl, hne, rfl⟩

theorem takeWhile_isdigit_eq_nil_iff {s : List UInt8} :
    s.takeWhile qeIsdigit = [] ↔ qeIsdigit (s.headD 0) = false := by
  cases s with
  | nil => simp
  | cons c t => by_cases h : qeIsdigit c <;> simp [h]

theorem takeWhile_isdigit_length_pos_iff {s : List UInt8} :
    0 < (s.takeWhile qeIsdigit).length ↔ qeIsdigit (s.headD 0) = true := by
  rw [List.length_pos_iff, Ne, takeWhile_isdigit_eq_nil_iff, Bool.not_eq_false]

/-- The second loop runs over the places where both strings hold a digit; `flags` says which
of the two digit runs goes on after them, and `last` is a digit when the loop ran or `last`
was one. -/
theorem collateDigits_spec (last : UInt8) (a b : List UInt8) :
    (qeIsdigit (collateDigits last (a.headD 0) (b.headD 0) a.tail b.tail).1 =
        (qeIsdigit last || (0 < (a.takeWhile qeIsdigit).length &&
          0 < (b.takeWhile qeIsdigit).length))) ∧
      (collateDigits last (a.headD 0) (b.headD 0) a.tail b.tail).2 =
        (if (b.takeWhile qeIsdigit).length < (a.takeWhile qeIsdigit).length then 2 else 0) +
          (if (a.takeWhile qeIsdigit).length < (b.takeWhile qeIsdigit).length then 1 else 0) := by
  induction a generalizing b last with
  | nil =>
    cases b with
    | nil => simp [collateDigits]
    | cons y u =>
      rw [collateDigits]
      by_cases hy : qeIsdigit y <;> simp [hy]
  | cons x t ih =>
    cases b with
    | nil =>
      rw [collateDigits]
      by_cases hx : qeIsdigit x <;> simp [hx]
    | cons y u =>
      rw [collateDigits]
      by_cases hx : qeIsdigit x <;> by_cases hy : qeIsdigit y
      · -- both digits: the loop goes on with the rests
        obtain ⟨ih1, ih2⟩ := ih x u
        simp only [List.headD_cons, List.tail_cons, hx, hy, if_true, Nat.reduceAdd,
          List.takeWhile_cons_of_pos hx, List.takeWhile_cons_of_pos hy, List.length_cons, ih1, ih2]
        refine ⟨by simp, ?_⟩
        split_ifs <;> omega
      all_goals
        simp only [Bool.not_eq_true] at *
        simp [hx, hy]

/-! ## Comparing keys -/

theorem append_lt_append_iff (l : List Nat) {u v : List Nat} : l ++ u < l ++ v ↔ u < v := by
  induction l with
  | nil => rfl
  | cons x l ih => simp [ih]

/-- Strings whose first bytes differ and are not both digits compare as the ranks of those
bytes. -/
theorem collateKey_lt_iff_of_head {a b : List UInt8} (hb : 0 ∉ b) (hab : a.headD 0 ≠ b.headD 0)
    (hd : ¬(qeIsdigit (a.headD 0) = true ∧ qeIsdigit (b.headD 0) = true)) :
    collateKey a < collateKey b ↔ collateRank (a.headD 0) < collateRank (b.headD 0) := by
  cases a with
  | nil =>
    cases b with
    | nil => exact absurd rfl hab
    | cons y u =>
      have hy : y ≠ 0 := fun h => hb (by simp [h])
      obtain ⟨k, hk⟩ := collateKey_cons y u
      simp only [collateKey_nil, hk, List.headD_nil, List.headD_cons, List.nil_lt_cons, true_iff]
      rw [show collateRank 0 = 0 by decide]
      exact collateRank_pos hy
  | cons x t =>
    obtain ⟨k, hk⟩ := collateKey_cons x t
    cases b with
    | nil =>
      simp only [hk, collateKey_nil, List.not_lt_nil, List.headD_nil, false_iff, not_lt]
      rw [show collateRank 0 = 0 by decide]
      exact Nat.zero_le _
    | cons y u =>
      obtain ⟨k', hk'⟩ := collateKey_cons y u
      simp only [List.headD_cons] at hab hd ⊢
      obtain ⟨hne, hlt⟩ := collateHead_lt_iff hab hd
      rw [hk, hk', List.cons_lt_cons_iff, ← hlt]
      exact ⟨fun h => h.resolve_right fun h' => hne h'.1, Or.inl⟩

/-- Inside a digit run the longer run sorts last, and runs of one length compare as their
first differing digits. -/
theorem collateKey_lt_iff_of_run {d a b : List UInt8} (hd : ∀ x ∈ d, qeIsdigit x = true)
    (hb : 0 ∉ b) (hab : a.headD 0 ≠ b.headD 0)
    (hrun : d ≠ [] ∨ (qeIsdigit (a.headD 0) = true ∧ qeIsdigit (b.headD 0) = true)) :
    collateKey (d ++ a) < collateKey (d ++ b) ↔
      (a.takeWhile qeIsdigit).length < (b.takeWhile qeIsdigit).length ∨
        ((a.takeWhile qeIsdigit).length = (b.takeWhile qeIsdigit).length ∧
          collateRank (a.headD 0) < collateRank (b.headD 0)) := by
  rw [collateKey_digits_append a hd (hrun.imp_right And.left),
    collateKey_digits_append b hd (hrun.imp_right And.right)]
  simp only [List.cons_lt_cons_iff, lt_self_iff_false, true_and, false_or, Nat.add_lt_add_iff_left,
    Nat.add_left_cancel_iff, List.map_append, List.append_assoc, append_lt_append_iff]
  refine or_congr Iff.rfl (and_congr_right fun hlen => ?_)
  have hsplit : ∀ s : List UInt8, s = s.takeWhile qeIsdigit ++ s.dropWhile qeIsdigit :=
    fun s => List.takeWhile_append_dropWhile.symm
  cases hra : a.takeWhile qeIsdigit with
  | nil =>
    -- neither run goes on: the bytes after the shared digits decide
    rw [hra, List.length_nil, eq_comm, List.length_eq_zero_iff] at hlen
    have hda : a.dropWhile qeIsdigit = a := by simpa [hra] using (hsplit a).symm
    have hdb : b.dropWhile qeIsdigit = b := by simpa [hlen] using (hsplit b).symm
    rw [hlen, hda, hdb, List.map_nil, List.nil_append, List.nil_append]
    exact collateKey_lt_iff_of_head hb hab
      (fun h => absurd h.1 (by rw [takeWhile_isdigit_eq_nil_iff.mp hra]; decide))
  | cons x ra =>
    -- both runs go on: their first digits differ
    obtain ⟨y, rb, hrb⟩ : ∃ y rb, b.takeWhile qeIsdigit = y :: rb := by
      rw [hra, List.length_cons] at hlen
      exact List.exists_cons_of_length_eq_add_one hlen.symm
    have hx : a.headD 0 = x := by rw [hsplit a, hra]; rfl
    have hy : b.headD 0 = y := by rw [hsplit b, hrb]; rfl
    have hne : collateRank x ≠ collateRank y :=
      fun h => hab (by rw [hx, hy, collateRank_injective h])
    rw [hrb, hx, hy, List.map_cons, List.map_cons, List.cons_append, List.cons_append,
      List.cons_lt_cons_iff]
    exact ⟨fun h => h.resolve_right fun h' => hne h'.1, Or.inl⟩

/-- Every string is a part that does not end in a digit followed by its trailing digits. -/
theorem exists_digit_suffix (p : List UInt8) :
    ∃ q d, p = q ++ d ∧ (∀ x ∈ d, qeIsdigit x = true) ∧ ∀ x ∈ q.getLast?, qeIsdigit x = false := by
  induction p with
  | nil => exact ⟨[], [], rfl, by simp, by simp⟩
  | cons c p ih =>
    obtain ⟨q, d, rfl, hd, hq⟩ := ih
    cases q with
    | nil =>
      by_cases hc : qeIsdigit c
      · exact ⟨[], c :: d, rfl, by simpa [hc] using hd, by simp⟩
      · exact ⟨[c], d, rfl, hd, by simpa using hc⟩
    | cons z w =>
      refine ⟨c :: z :: w, d, rfl, hd, fun x hx => hq x ?_⟩
      rwa [List.getLast?_cons_cons] at hx

/-- The last byte before the first difference is a digit exactly when the shared part ends in
digits. -/
theorem isdigit_getLastD_iff {q d : List UInt8} (hd : ∀ x ∈ d, qeIsdigit x = true)
    (hq : ∀ x ∈ q.getLast?, qeIsdigit x = false) :
    qeIsdigit ((q ++ d).getLastD 0) = true ↔ d ≠ [] := by
  rw [List.getLastD_eq_getLast?, List.getLast?_append]
  cases hdl : d.getLast? with
  | some z =>
    have hz := hd z (List.mem_of_getLast? hdl)
    have hne : d ≠ [] := fun h => by simp [h] at hdl
    simp [hz, hne]
  | none =>
    rw [List.getLast?_eq_none_iff] at hdl
    cases hql : q.getLast? with
    | none => simp [hdl]
    | some z => simp [hdl, hq z hql]

/-! ## `qe_strcollate` compares collation keys -/

/-- `qe_strcollate` is the comparison of the collation keys. -/
theorem qeStrcollate_eq {a b : List UInt8} (ha : 0 ∉ a) (hb : 0 ∉ b) :
    qeStrcollate a b = if a = b then 0 else if collateKey a < collateKey b then -1 else 1 := by
  by_cases hab : a = b
  · subst hab
    rw [qeStrcollate, (collateCommon_eq_none_iff ha ha 0).mpr rfl, if_pos rfl]
  obtain ⟨r, hr⟩ := Option.ne_none_iff_exists'.mp (mt (collateCommon_eq_none_iff ha hb 0).mp hab)
  obtain ⟨p, a', b', rfl, rfl, hxy, rfl⟩ := collateCommon_eq_some hr
  obtain ⟨q, d, rfl, hd, hq⟩ := exists_digit_suffix p
  have hb' : 0 ∉ b' := fun h => hb (List.mem_append_right _ h)
  obtain ⟨hl, hf⟩ := collateDigits_spec ((q ++ d).getLastD 0) a' b'
  rw [qeStrcollate, hr, if_neg hab]
  dsimp only
  rw [List.append_assoc, List.append_assoc, collateKey_append q _ hq, collateKey_append q _ hq,
    collateRes_eq hxy, hf, hl]
  simp only [append_lt_append_iff]
  have hlast := isdigit_getLastD_iff hd hq
  by_cases hrun : d ≠ [] ∨ (qeIsdigit (a'.headD 0) = true ∧ qeIsdigit (b'.headD 0) = true)
  · -- in a digit run: the lengths of the runs decide, then the first differing digits
    have hdig : (qeIsdigit ((q ++ d).getLastD 0) || (0 < (a'.takeWhile qeIsdigit).length &&
        0 < (b'.takeWhile qeIsdigit).length)) = true := by
      rcases hrun with hne | ⟨hx, hy⟩
      · rw [hlast.mpr hne, Bool.true_or]
      · simp [takeWhile_isdigit_length_pos_iff.mpr hx, takeWhile_isdigit_length_pos_iff.mpr hy]
    simp only [collateKey_lt_iff_of_run hd hb' hxy hrun, hdig]
    rcases lt_trichotomy (a'.takeWhile qeIsdigit).length (b'.takeWhile qeIsdigit).length
      with hlt | heq | hgt
    · simp [hlt, Nat.not_lt.mpr hlt.le]
    · simp [heq]
    · simp [hgt, Nat.not_lt.mpr hgt.le, Nat.ne_of_gt hgt]
  · -- outside a digit run: the first differing bytes decide
    rw [not_or, not_not] at hrun
    obtain ⟨rfl, hnd⟩ := hrun
    have hnot : (qeIsdigit ((q ++ []).getLastD 0) || (0 < (a'.takeWhile qeIsdigit).length &&
        0 < (b'.takeWhile qeIsdigit).length)) = false := by
      have h1 : qeIsdigit ((q ++ []).getLastD 0) = false := by simpa using hlast
      rw [h1, Bool.false_or, Bool.and_eq_false_iff, decide_eq_false_iff_not,
        decide_eq_false_iff_not, takeWhile_isdigit_length_pos_iff, takeWhile_isdigit_length_pos_iff]
      by_contra hc
      rw [not_or, not_not, not_not] at hc
      exact hnd hc
    rw [hnot]
    simp only [List.nil_append, collateKey_lt_iff_of_head hb' hxy hnd]
    simp

/-- `"file9"` sorts before `"file10"`, and `"a/"` right after `"a"`, before `"a0"`. -/
example : qeStrcollate [0x66, 0x39] [0x66, 0x31, 0x30] = -1 := by decide +kernel
example : qeStrcollate [0x61] [0x61, 0x2f] = -1 ∧ qeStrcollate [0x61, 0x2f] [0x61, 0x30] = -1 := by
  decide +kernel

/-- The key determines the string. -/
theorem collateKey_injective : Function.Injective collateKey := by
  intro a b h
  induction a using collateKey.induct generalizing b with
  | case1 =>
    rw [collateKey_nil, eq_comm, collateKey_eq_nil_iff] at h
    exact h.symm
  | case2 c t hc ih =>
    -- a digit run: the other string starts with a run of the same digits
    have hc' : qeIsdigit ((c :: t).headD 0) = true := hc
    cases b with
    | nil => simp at h
    | cons c' t' =>
      by_cases hd' : qeIsdigit c'
      · have hd'' : qeIsdigit ((c' :: t').headD 0) = true := hd'
        rw [collateKey_of_isdigit_head hc', collateKey_of_isdigit_head hd'',
          List.cons.injEq, List.cons.injEq] at h
        obtain ⟨-, hlen, hrest⟩ := h
        obtain ⟨hruns, hkeys⟩ := List.append_inj hrest (by simpa using hlen)
        have hrun := (List.map_injective_iff.mpr collateRank_injective) hruns
        rw [List.dropWhile_cons_of_pos hc, List.dropWhile_cons_of_pos hd'] at hkeys
        calc c :: t = (c :: t).takeWhile qeIsdigit ++ t.dropWhile qeIsdigit := by
              rw [← List.dropWhile_cons_of_pos hc, List.takeWhile_append_dropWhile]
          _ = (c' :: t').takeWhile qeIsdigit ++ t'.dropWhile qeIsdigit := by rw [hrun, ih hkeys]
          _ = c' :: t' := by
              rw [← List.dropWhile_cons_of_pos hd', List.takeWhile_append_dropWhile]
      · rw [Bool.not_eq_true] at hd'
        rw [collateKey_of_isdigit_head hc', collateKey_cons_of_not_isdigit t' hd',
          List.cons.injEq] at h
        have := collateRank_of_not_isdigit hd'
        have h49 : collateRank 0x30 = 49 := by decide
        omega
  | case3 c t hc ih =>
    rw [Bool.not_eq_true] at hc
    cases b with
    | nil => simp at h
    | cons c' t' =>
      by_cases hd' : qeIsdigit c'
      · -- the other string starts a digit run, whose head no other byte has
        have hd'' : qeIsdigit ((c' :: t').headD 0) = true := hd'
        rw [collateKey_cons_of_not_isdigit t hc, collateKey_of_isdigit_head hd'',
          List.cons.injEq] at h
        have := collateRank_of_not_isdigit hc
        have h49 : collateRank 0x30 = 49 := by decide
        omega
      · rw [Bool.not_eq_true] at hd'
        rw [collateKey_cons_of_not_isdigit t hc, collateKey_cons_of_not_isdigit t' hd',
          List.cons.injEq] at h
        rw [collateRank_injective h.1, ih h.2]

/-! ## `qe_strcollate` is a total order -/

section Order

variable {a b c : List UInt8}

theorem qeStrcollate_eq_zero_iff (ha : 0 ∉ a) (hb : 0 ∉ b) : qeStrcollate a b = 0 ↔ a = b := by
  rw [qeStrcollate_eq ha hb]
  by_cases hab : a = b
  · simp [hab]
  · rw [if_neg hab]
    split_ifs <;> simp [hab]

theorem qeStrcollate_neg_iff (ha : 0 ∉ a) (hb : 0 ∉ b) :
    qeStrcollate a b < 0 ↔ collateKey a < collateKey b := by
  rw [qeStrcollate_eq ha hb]
  by_cases hab : a = b
  · subst hab
    simp
  · rw [if_neg hab]
    split_ifs with hlt <;> simp [hlt]

theorem qeStrcollate_sign_swap (ha : 0 ∉ a) (hb : 0 ∉ b) :
    Int.sign (qeStrcollate a b) = -Int.sign (qeStrcollate b a) := by
  rw [qeStrcollate_eq ha hb, qeStrcollate_eq hb ha]
  by_cases hab : a = b
  · subst hab
    simp
  · have hne : collateKey a ≠ collateKey b := fun h => hab (collateKey_injective h)
    rw [if_neg hab, if_neg (Ne.symm hab)]
    rcases lt_trichotomy (collateKey a) (collateKey b) with hlt | heq | hgt
    · simp [hlt, List.lt_asymm hlt]
    · exact absurd heq hne
    · simp [hgt, List.lt_asymm hgt]

theorem qeStrcollate_neg_trans (ha : 0 ∉ a) (hb : 0 ∉ b) (hc : 0 ∉ c)
    (hab : qeStrcollate a b < 0) (hbc : qeStrcollate b c < 0) : qeStrcollate a c < 0 := by
  rw [qeStrcollate_neg_iff ha hb] at hab
  rw [qeStrcollate_neg_iff hb hc] at hbc
  rw [qeStrcollate_neg_iff ha hc]
  exact List.lt_trans hab hbc

/-- `qe_strcollate` is a total order on C strings: it answers 0 on equal strings only, it is
antisymmetric, and it is transitive. -/
theorem qeStrcollate_total_order (ha : 0 ∉ a) (hb : 0 ∉ b) (hc : 0 ∉ c) :
    (qeStrcollate a b = 0 ↔ a = b) ∧
      Int.sign (qeStrcollate a b) = -Int.sign (qeStrcollate b a) ∧
      (qeStrcollate a b < 0 → qeStrcollate b c < 0 → qeStrcollate a c < 0) :=
  ⟨qeStrcollate_eq_zero_iff ha hb, qeStrcollate_sign_swap ha hb, qeStrcollate_neg_trans ha hb hc⟩

/-- `"file9"`, `"file10"` and `"file10/"`, in this order. -/
theorem qeStrcollate_total_order_files :
    (0 : UInt8) ∉ [0x66, 0x39] ∧ (0 : UInt8) ∉ [0x66, 0x31, 0x30] ∧
      (0 : UInt8) ∉ [0x66, 0x31, 0x30, 0x2f] ∧
      ((qeStrcollate [0x66, 0x39] [0x66, 0x31, 0x30] = 0 ↔
          ([0x66, 0x39] : List UInt8) = [0x66, 0x31, 0x30]) ∧
        Int.sign (qeStrcollate [0x66, 0x39] [0x66, 0x31, 0x30]) =
          -Int.sign (qeStrcollate [0x66, 0x31, 0x30] [0x66, 0x39]) ∧
        (qeStrcollate [0x66, 0x39] [0x66, 0x31, 0x30] < 0 →
          qeStrcollate [0x66, 0x31, 0x30] [0x66, 0x31, 0x30, 0x2f] < 0 →
            qeStrcollate [0x66, 0x39] [0x66, 0x31, 0x30, 0x2f] < 0)) :=
  ⟨by decide, by decide, by decide, qeStrcollate_total_order (by decide) (by decide) (by decide)⟩

end Order

end Qemacs
