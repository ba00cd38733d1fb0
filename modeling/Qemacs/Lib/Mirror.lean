import Mathlib

/-!
# An array with a mirror

An array of at least `2 * n` entries whose entries from `n` on mirror the first `n`: entry
`j + n` is the copy of entry `j` as it was last written out. `Copy n sync mem mem'` says that
`mem'` is `mem` with the copy of every entry `j` for which `sync j` holds brought up to date,
and every other entry as it was.

Copies of one entry are made with `List.set` (`Copy.set`). Rounds of copies compose
(`Copy.trans`), and copies of two adjacent ranges of entries make one of the whole range
(`Copy.append`). A set of entries may be widened by entries whose copy was up to date
already (`Copy.congr`, `Copy.widen_right`, `Copy.widen_left`). When the array is the
entries followed by their copies, the copies after the round are read off the set
(`Copy.drop_append`).
-/

namespace Mirror

variable {α : Type*}

/-- `mem'` is `mem` with the copies of the entries in `sync` brought up to date. -/
structure Copy (n : Nat) (sync : Nat → Bool) (mem mem' : List α) : Prop where
  length_eq : mem'.length = mem.length
  orig_eq : ∀ j < n, mem'[j]? = mem[j]?
  copy_eq : ∀ j, mem'[j + n]? = if sync j then mem[j]? else mem[j + n]?

namespace Copy

variable {n : Nat} {mem mem' mem'' : List α}

theorem refl (n : Nat) (mem : List α) : Copy n (fun _ => false) mem mem :=
  ⟨rfl, fun _ _ => rfl, fun _ => rfl⟩

/-- Two rounds of copies are one, as long as the second copies entries of the first `n`. -/
theorem trans {s₁ s₂ : Nat → Bool} (h₁ : Copy n s₁ mem mem') (h₂ : Copy n s₂ mem' mem'')
    (hlt : ∀ j, s₂ j = true → j < n) : Copy n (fun j => s₁ j || s₂ j) mem mem'' := by
  refine ⟨h₂.length_eq.trans h₁.length_eq, fun j hj => (h₂.orig_eq j hj).trans (h₁.orig_eq j hj),
    fun j => ?_⟩
  rw [h₂.copy_eq, h₁.copy_eq]
  cases h2 : s₂ j with
  | true => rw [if_pos rfl, h₁.orig_eq j (hlt j h2), Bool.or_true, if_pos rfl]
  | false => simp

/-- The entries where two sets differ have their copy up to date already. -/
theorem congr {s s' : Nat → Bool} (h : Copy n s mem mem')
    (hs : ∀ j, s j ≠ s' j → mem[j]? = mem[j + n]?) : Copy n s' mem mem' := by
  refine ⟨h.length_eq, h.orig_eq, fun j => ?_⟩
  rw [h.copy_eq]
  by_cases hj : s j = s' j
  · rw [hj]
  · have := hs j hj
    split <;> split <;> simp_all

theorem of_eq {s s' : Nat → Bool} (h : Copy n s mem mem') (hs : ∀ j, s j = s' j) :
    Copy n s' mem mem' :=
  h.congr fun j hne => absurd (hs j) hne

/-- No copy. -/
theorem nil (i : Nat) : Copy n (fun j => decide (i ≤ j ∧ j < i)) mem mem :=
  (refl n mem).of_eq fun j => by simp

/-- Entry `i`, of value `v`, copied. -/
theorem set {i : Nat} {v : α} (hv : mem[i]? = some v) (hi : i < n) (hlen : i + n < mem.length) :
    Copy n (fun j => decide (i ≤ j ∧ j < i + 1)) mem (mem.set (i + n) v) := by
  refine ⟨List.length_set .., fun j hj => List.getElem?_set_ne (by omega), fun j => ?_⟩
  rw [List.getElem?_set]
  by_cases hji : j = i
  · subst hji
    simp [hlen, hv]
  · rw [if_neg (by omega), if_neg (by simp only [decide_eq_true_eq]; omega)]

/-- The copies of the entries `[a, b)` then `[b, c)`. -/
theorem append {a b c : Nat} (h₁ : Copy n (fun j => decide (a ≤ j ∧ j < b)) mem mem')
    (h₂ : Copy n (fun j => decide (b ≤ j ∧ j < c)) mem' mem'') (hab : a ≤ b) (hbc : b ≤ c)
    (hc : c ≤ n) : Copy n (fun j => decide (a ≤ j ∧ j < c)) mem mem'' := by
  have hlt : ∀ j, decide (b ≤ j ∧ j < c) = true → j < n := fun j hj => by
    simp only [decide_eq_true_eq] at hj
    omega
  refine (h₁.trans h₂ hlt).of_eq fun j => ?_
  rw [← Bool.decide_or]
  exact decide_eq_decide.mpr ⟨fun h => by omega, fun h => by omega⟩

/-- A range widened on the right by entries whose copy is up to date. -/
theorem widen_right {a b c : Nat} (h : Copy n (fun j => decide (a ≤ j ∧ j < b)) mem mem')
    (hbc : b ≤ c) (heq : ∀ j, b ≤ j → j < c → mem[j]? = mem[j + n]?) :
    Copy n (fun j => decide (a ≤ j ∧ j < c)) mem mem' :=
  h.congr fun j hj => heq j
    (by by_contra hc; exact hj (decide_eq_decide.mpr ⟨fun h => ⟨h.1, by omega⟩, fun h => ⟨h.1, by omega⟩⟩))
    (by by_contra hc; exact hj (decide_eq_decide.mpr ⟨fun h => ⟨h.1, by omega⟩, fun h => ⟨h.1, by omega⟩⟩))

/-- A range widened on the left by entries whose copy is up to date. -/
theorem widen_left {a b c : Nat} (h : Copy n (fun j => decide (b ≤ j ∧ j < c)) mem mem')
    (hab : a ≤ b) (heq : ∀ j, a ≤ j → j < b → mem[j]? = mem[j + n]?) :
    Copy n (fun j => decide (a ≤ j ∧ j < c)) mem mem' :=
  h.congr fun j hj => heq j
    (by by_contra hc; exact hj (decide_eq_decide.mpr ⟨fun h => ⟨by omega, h.2⟩, fun h => ⟨by omega, h.2⟩⟩))
    (by by_contra hc; exact hj (decide_eq_decide.mpr ⟨fun h => ⟨by omega, h.2⟩, fun h => ⟨by omega, h.2⟩⟩))

/-- The entries `front` followed by their copies `back`: after the round, the copies are those
of `front` in `sync` and the old ones elsewhere, and the entries are as they were. -/
theorem drop_append {s : Nat → Bool} {front back : List α} (h : Copy n s (front ++ back) mem')
    (hfront : front.length = n) (hs : ∀ j, s j = true → j < n) :
    mem'.take n = front ∧ ∀ j, (mem'.drop n)[j]? = if s j then front[j]? else back[j]? := by
  refine ⟨List.ext_getElem? fun j => ?_, fun j => ?_⟩
  · rw [List.getElem?_take]
    split
    · rw [h.orig_eq j (by omega), List.getElem?_append_left (by omega)]
    · rw [List.getElem?_eq_none (by omega)]
  · rw [List.getElem?_drop, Nat.add_comm, h.copy_eq]
    split
    · rename_i hj
      rw [List.getElem?_append_left (by rw [hfront]; exact hs j hj)]
    · rw [List.getElem?_append_right (by omega), hfront, Nat.add_sub_cancel]

end Copy

end Mirror
