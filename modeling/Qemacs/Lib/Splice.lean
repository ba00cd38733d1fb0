import Mathlib.Algebra.BigOperators.Group.List.Basic

/-!
# Reading a spliced list

A splice `l.take i ++ m ++ l.drop j` replaces the elements of `l` in
`[i, j)` by `m`: an insertion when `i = j`, a deletion when `m` is empty, an
overwrite when `m` has `j - i` elements. The elements of `l` before `i` stay
where they are, and those from `j` on move by `i + m.length - j`.
-/

namespace Splice

variable {α : Type*}

/-- Before the splice, an element stays in place. -/
theorem getElem?_lt (l m : List α) {i j p : Nat} (hp : p < i) (hi : i ≤ l.length) :
    (l.take i ++ m ++ l.drop j)[p]? = l[p]? := by
  rw [List.append_assoc, List.getElem?_append_left (by simp; omega), List.getElem?_take_of_lt hp]

/-- After the splice, an element moves by what the splice adds or removes. -/
theorem getElem?_ge (l m : List α) {i j p : Nat} (hij : i ≤ j) (hjp : j ≤ p) (hp : p < l.length) :
    (l.take i ++ m ++ l.drop j)[p - j + i + m.length]? = l[p]? := by
  have hlen : (l.take i ++ m).length = i + m.length := by simp; omega
  rw [List.getElem?_append_right (by omega), hlen, List.getElem?_drop]
  congr 1
  omega

theorem length (l m : List α) {i j : Nat} (hij : i ≤ j) (hj : j ≤ l.length) :
    (l.take i ++ m ++ l.drop j).length = l.length - (j - i) + m.length := by
  simp only [List.length_append, List.length_take, List.length_drop]
  omega

end Splice
