import Mathlib

/-!
# Records laid out one after the other

Records of varying length, each encoded as a list of entries, are laid out in an array one
after the other (`layout`); a record's offset is the length of the layout of the records
before it. Reading, writing and dropping at an offset inside a record act on that record's
entries only (`getD_layout`, `set_layout`, `drop_layout`).

A loop that starts at a record's offset and steps from the offset of each record to the
offset of the next one, until a test holds, is a walk over the records (`walk`). When the
test at each offset depends only on the record there (`Steps`), the walk stops at the first
record that passes it, or at the end of the records, as long as it is given a step for every
record (`walk_eq_takeWhile`). A walk that moves one entry at a time stops at the first entry
that passes the test going up (`walk_succ`), and at the last one going down (`walk_pred`).
-/

namespace Layout

variable {α β : Type*} (enc : β → List α)

/-- The entries of the records `bs`, one record after the other. -/
def layout (bs : List β) : List α := bs.flatMap enc

@[simp] theorem layout_nil : layout enc [] = [] := rfl

@[simp] theorem layout_cons (b : β) (bs : List β) :
    layout enc (b :: bs) = enc b ++ layout enc bs :=
  List.flatMap_cons

@[simp] theorem layout_append (bs cs : List β) :
    layout enc (bs ++ cs) = layout enc bs ++ layout enc cs :=
  List.flatMap_append

/-! ## Inside one record -/

section Access

variable (pre : List β) (b : β) (post : List β) (tail : List α)

/-- The array from a record's offset on. -/
theorem layout_split :
    layout enc (pre ++ b :: post) ++ tail = layout enc pre ++ (enc b ++ (layout enc post ++ tail)) := by
  rw [layout_append, layout_cons, List.append_assoc, List.append_assoc]

/-- Entry `j` of a record, read at its offset. -/
theorem getD_layout (d : α) {j : Nat} (hj : j < (enc b).length) :
    (layout enc (pre ++ b :: post) ++ tail).getD ((layout enc pre).length + j) d =
      (enc b).getD j d := by
  rw [layout_split, List.getD_append_right _ _ _ _ (by omega), Nat.add_sub_cancel_left,
    List.getD_append _ _ _ _ hj]

/-- Writing entry `j` of a record writes that entry of the record only. -/
theorem set_layout (v : α) {j : Nat} (hj : j < (enc b).length) :
    (layout enc (pre ++ b :: post) ++ tail).set ((layout enc pre).length + j) v =
      layout enc pre ++ ((enc b).set j v ++ (layout enc post ++ tail)) := by
  rw [layout_split, List.set_append_right _ _ (by omega), Nat.add_sub_cancel_left,
    List.set_append_left _ _ hj]

/-- The array from entry `j` of a record on. -/
theorem drop_layout {j : Nat} (hj : j ≤ (enc b).length) :
    (layout enc (pre ++ b :: post) ++ tail).drop ((layout enc pre).length + j) =
      (enc b).drop j ++ (layout enc post ++ tail) := by
  rw [layout_split, List.drop_append, List.drop_eq_nil_of_le (by omega), List.nil_append,
    Nat.add_sub_cancel_left, List.drop_append_of_le_length hj]

end Access

/-- Writing entry `n` and dropping the entries before it. -/
theorem drop_set_self {l : List α} {n : Nat} (x : α) (hn : n < l.length) :
    (l.set n x).drop n = x :: l.drop (n + 1) := by
  induction l generalizing n with
  | nil => simp at hn
  | cons a l ih =>
    cases n with
    | zero => rfl
    | succ n =>
      rw [List.set_cons_succ, List.drop_succ_cons, ih (by simpa using hn), List.drop_succ_cons]

/-- The records from the first one that a test stops at. -/
theorem dropWhile_eq_cons {p : β → Bool} {l post : List β} {b : β}
    (h : l.dropWhile p = b :: post) : l = l.takeWhile p ++ b :: post ∧ p b = false := by
  refine ⟨by rw [← h, List.takeWhile_append_dropWhile], ?_⟩
  have := List.head?_dropWhile_not p l
  rw [h] at this
  exact this

/-- No record stops the test. -/
theorem takeWhile_of_dropWhile_nil {p : β → Bool} {l : List β} (h : l.dropWhile p = []) :
    l.takeWhile p = l := by
  rw [← List.append_nil (l.takeWhile p), ← h, List.takeWhile_append_dropWhile]

/-! ## Walks -/

/-- The loop `for (i = start; !stop(i); i = next(i))`, bounded by `fuel` turns: where it
stops, or `none` when it has not stopped within `fuel` turns. -/
def walk (stop : Nat → Bool) (next : Nat → Nat) : Nat → Nat → Option Nat
  | 0, _ => none
  | fuel + 1, i => if stop i then some i else walk stop next fuel (next i)

/-- From offset `i` on, the records `bs` are laid out so that at each record's offset the test
`stop` is `p` of the record and `next` is the offset of the next record, and the test holds
after the last one. -/
def Steps (stop : Nat → Bool) (next : Nat → Nat) (p : β → Bool) : Nat → List β → Prop
  | i, [] => stop i = true
  | i, b :: bs => stop i = p b ∧ next i = i + (enc b).length ∧
      Steps stop next p (i + (enc b).length) bs

/-- The walk stops at the offset of the first record that passes `p`, after the records that
do not, or at the end of the records. -/
theorem walk_eq_takeWhile (stop : Nat → Bool) (next : Nat → Nat) (p : β → Bool) :
    ∀ (bs : List β) (i fuel : Nat), Steps enc stop next p i bs → bs.length < fuel →
      walk stop next fuel i = some (i + (layout enc (bs.takeWhile fun b => !p b)).length)
  | [], i, fuel + 1, h, _ => by
    rw [walk, if_pos (show stop i = true from h)]
    rfl
  | b :: bs, i, fuel + 1, ⟨hstop, hnext, hsteps⟩, hfuel => by
    rw [walk, hstop]
    cases hp : p b with
    | true =>
      rw [if_pos rfl, List.takeWhile_cons_of_neg (by simp [hp])]
      rfl
    | false =>
      -- one record stepped over, then the walk over the rest
      have hrest := walk_eq_takeWhile stop next p bs (i + (enc b).length) fuel hsteps
        (by simp only [List.length_cons] at hfuel; omega)
      rw [if_neg (by simp), hnext, hrest, List.takeWhile_cons_of_pos (by simp [hp]), layout_cons,
        List.length_append, Nat.add_assoc]

/-! ## Walks one entry at a time -/

/-- A walk that moves up one entry at a time stops at the first entry from `i` on that passes
the test, when there is one within its fuel. -/
theorem walk_succ (stop : Nat → Bool) : ∀ (fuel i : Nat),
    (∃ j, i ≤ j ∧ j < i + fuel ∧ stop j = true) →
    ∃ p, walk stop (· + 1) fuel i = some p ∧ i ≤ p ∧ p < i + fuel ∧ stop p = true ∧
      ∀ j, i ≤ j → j < p → stop j = false
  | 0, _, ⟨_, h1, h2, _⟩ => absurd h2 (by omega)
  | fuel + 1, i, ⟨j, h1, h2, hj⟩ => by
    cases hi : stop i with
    | true =>
      exact ⟨i, by rw [walk, if_pos hi], le_refl i, by omega, hi, fun k h1 h2 => absurd h2 (by omega)⟩
    | false =>
      -- the entry that passes is after `i`, and the walk goes on from `i + 1`
      have hji : j ≠ i := fun h => by rw [h, hi] at hj; cases hj
      obtain ⟨p, hp, hp1, hp2, hs, hbefore⟩ :=
        walk_succ stop fuel (i + 1) ⟨j, by omega, by omega, hj⟩
      refine ⟨p, by rw [walk, if_neg (by rw [hi]; simp), hp], by omega, by omega, hs, ?_⟩
      intro k hk1 hk2
      by_cases hk : k = i
      · rw [hk]
        exact hi
      · exact hbefore k (by omega) hk2

/-- A walk that moves down one entry at a time stops at the last entry up to `i` that passes the
test, when there is one within its fuel. -/
theorem walk_pred (stop : Nat → Bool) : ∀ (fuel i : Nat),
    (∃ j, j ≤ i ∧ i < j + fuel ∧ stop j = true) →
    ∃ p, walk stop (· - 1) fuel i = some p ∧ p ≤ i ∧ stop p = true ∧
      ∀ j, p < j → j ≤ i → stop j = false
  | 0, _, ⟨_, h1, h2, _⟩ => absurd h2 (by omega)
  | fuel + 1, i, ⟨j, h1, h2, hj⟩ => by
    cases hi : stop i with
    | true =>
      exact ⟨i, by rw [walk, if_pos hi], le_refl i, hi, fun k h1 h2 => absurd h2 (by omega)⟩
    | false =>
      -- the entry that passes is before `i`, and the walk goes on from `i - 1`
      have hji : j ≠ i := fun h => by rw [h, hi] at hj; cases hj
      obtain ⟨p, hp, hp1, hs, hafter⟩ := walk_pred stop fuel (i - 1) ⟨j, by omega, by omega, hj⟩
      refine ⟨p, by rw [walk, if_neg (by rw [hi]; simp), hp], by omega, hs, ?_⟩
      intro k hk1 hk2
      by_cases hk : k = i
      · rw [hk]
        exact hi
      · exact hafter k hk1 (by omega)

end Layout
