import Qemacs.Lib.Rect

/-!
# The window layout

The windows of the screen are rectangles `[x1, x2) × [y1, y2)` in a list, in the order of
`first_window`. Popups and the minibuffer float over the others; the rest share the
content area, the screen without its status line. Three commands change them:

* `qe_split_window` cuts a window in two, side by side or one above the other, each part
  keeping at least a minimum size, and attaches the new window next to the old one;
* `do_delete_window` removes a window and lets its neighbours grow over the hole: in two
  passes over the list, a window that shares the top left corner of what is left of the
  hole, along one of its edges, grows over a strip of it;
* `do_delete_other_windows` keeps one window, over the whole content area, or none.

Each of them keeps the windows that do not float a packing of the content area
(`runWindows_packs`): they stay inside it, are not empty and do not overlap. They need not
cover it: the sweep of `do_delete_window` takes the first neighbour that fits, and can leave
a strip that no neighbour fits (`runWindows_leaves_hole`), as its comment allows.

The metrics of a character (`char_width`, `line_height`) are those of the screen's default
style, the same for every window.
-/

namespace Qemacs

open Grid

/-! ## Windows and the screen -/

/-- The flags of a window that the layout reads or writes: `WF_POPUP`, `WF_MODELINE`,
`WF_RSEPARATOR`, `WF_POPLEFT` and `WF_MINIBUF`. -/
structure WindowFlags where
  popup : Bool := false
  modeline : Bool := false
  rseparator : Bool := false
  popleft : Bool := false
  minibuf : Bool := false
deriving DecidableEq, Repr

/-- A window: its rectangle on the screen, borders included, and its flags. -/
structure Window where
  x1 : Int
  y1 : Int
  x2 : Int
  y2 : Int
  flags : WindowFlags
deriving DecidableEq, Repr

/-- The rectangle of the window. -/
def Window.rect (e : Window) : Rect := ⟨e.x1, e.y1, e.x2, e.y2⟩

/-- `flags & (WF_POPUP | WF_MINIBUF)`: the window floats over the layout. -/
def Window.isFloating (e : Window) : Bool := e.flags.popup || e.flags.minibuf

/-- The screen: its size, the heights of the status line and of a mode line, and the
size of a character, which `compute_client_area` makes at least 1. -/
structure Screen where
  width : Int
  height : Int
  statusHeight : Int
  modeLineHeight : Int
  charWidth : Int
  lineHeight : Int
  width_pos : 0 < width
  statusHeight_lt : statusHeight < height
  modeLineHeight_nonneg : 0 ≤ modeLineHeight
  charWidth_pos : 0 < charWidth
  lineHeight_pos : 0 < lineHeight

/-- The content area: the screen without its status line. -/
def Screen.content (sc : Screen) : Rect := ⟨0, 0, sc.width, sc.height - sc.statusHeight⟩

/-- The rectangles of the windows that do not float, in list order. -/
def layout (ws : List Window) : List Rect := (ws.filter fun e => !e.isFloating).map Window.rect

/-! ## `qe_split_window` -/

def SW_ABOVE : Nat := 0x02
def SW_SIDE_BY_SIDE : Nat := 0x10
def SW_RIGHT : Nat := 0x20
def SW_LEFT : Nat := 0x40

/-- `clamp_int`. -/
def clampInt (a b c : Int) : Int := if a < b then b else if a > c then c else a

/-- Where `edit_attach` puts a new window that does not float: before the window at
`next`, or with no `next` before the first popup or minibuffer window. -/
def attachIndex (ws : List Window) (next : Option Nat) : Nat :=
  match next with
  | some j => j
  | none => ws.findIdx Window.isFloating

/-- The list after a split: the window at `i` becomes `s'`, and the new window `e` is
attached before `next`. -/
def attachSplit (ws : List Window) (i : Nat) (s' e : Window) (next : Option Nat) : List Window :=
  (ws.set i s').insertIdx (attachIndex ws next) e

/-- What `qe_split_window` does: the new list, the error it puts, or nothing for a popup
or the minibuffer. -/
inductive SplitResult
  | split (ws : List Window)
  | error (msg : String)
  | refused
deriving DecidableEq, Repr

/-- `qe_split_window` on the window at `i`. `prop` is the percentage the window keeps,
or minus the percentage the new window takes. -/
def qeSplitWindow (sc : Screen) (ws : List Window) (i sfFlags : Nat) (prop : Int) : SplitResult :=
  match ws[i]? with
  | none => .refused
  | some s =>
    let flags : WindowFlags := { modeline := true, rseparator := s.flags.rseparator }
    -- the new window goes after `s`, or before it when it is on the left or above
    let next := if i + 1 < ws.length then some (i + 1) else none
    if s.isFloating then .refused
    else
      let prop := if prop < 0 then -(max prop (-100)) else max (100 - prop) 0
      let w := s.x2 - s.x1
      let h := s.y2 - s.y1
      if sfFlags &&& (SW_SIDE_BY_SIDE ||| SW_RIGHT ||| SW_LEFT) ≠ 0 then
        let minLeft := 5 * sc.charWidth
        let minRight := (if flags.rseparator then 5 else 4) * sc.charWidth
        if w < minLeft + minRight then .error "Window is too narrow to split side by side"
        else if sfFlags &&& SW_LEFT ≠ 0 then
          let w := clampInt ((w * prop + 50).tdiv 100) minLeft (w - minRight)
          .split (attachSplit ws i { s with x1 := s.x1 + w }
            ⟨s.x1, s.y1, s.x1 + w, s.y2, { flags with rseparator := true }⟩ (some i))
        else
          let w := clampInt ((w * prop + 50).tdiv 100) minRight (w - minLeft)
          .split (attachSplit ws i { s with x2 := s.x2 - w, flags := { s.flags with rseparator := true } }
            ⟨s.x2 - w, s.y1, s.x2, s.y2, flags⟩ next)
      else
        let minHeight := sc.lineHeight + sc.modeLineHeight
        if h < 2 * minHeight then .error "Window is too small to split vertically"
        else
          let h := clampInt ((h * prop + 50).tdiv 100) minHeight (h - minHeight)
          if sfFlags &&& SW_ABOVE ≠ 0 then
            .split (attachSplit ws i { s with y1 := s.y1 + h } ⟨s.x1, s.y1, s.x2, s.y1 + h, flags⟩ (some i))
          else
            .split (attachSplit ws i { s with y2 := s.y2 - h } ⟨s.x1, s.y2 - h, s.x2, s.y2, flags⟩ next)

/-! ## `do_delete_window` -/

/-- One window of the sweep of `do_delete_window` over what is left `r` of the deleted
window: a neighbour that shares its top left corner along one of its edges, and is not
longer than it along that edge, grows over a strip of it. The grown window and what is
left. -/
def mergeNeighbour (rsep : Bool) (r : Rect) (e : Window) : Option (Window × Rect) :=
  if r.x1 = e.x2 ∧ r.y1 = e.y1 ∧ r.y2 ≥ e.y2 then
    -- partial vertical split along the left border: the separator is the deleted window's
    some ({ e with x2 := r.x2, flags := { e.flags with rseparator := rsep } }, { r with y1 := e.y2 })
  else if r.x2 = e.x1 ∧ r.y1 = e.y1 ∧ r.y2 ≥ e.y2 then
    -- partial vertical split along the right border
    some ({ e with x1 := r.x1 }, { r with y1 := e.y2 })
  else if r.y1 = e.y2 ∧ r.x1 = e.x1 ∧ r.x2 ≥ e.x2 then
    -- partial horizontal split along the top border
    some ({ e with y2 := r.y2 }, { r with x1 := e.x2 })
  else if r.y2 = e.y1 ∧ r.x1 = e.x1 ∧ r.x2 ≥ e.x2 then
    -- partial horizontal split along the bottom border
    some ({ e with y1 := r.y1 }, { r with x1 := e.x2 })
  else none

/-- One pass of the sweep over the other windows, in list order; popups and the
minibuffer are passed over. -/
def sweepPass (rsep : Bool) : List Window → Rect → List Window × Rect
  | [], r => ([], r)
  | e :: es, r =>
    match (if e.isFloating then none else mergeNeighbour rsep r e) with
    | some (e', r') => (sweepPass rsep es r').map (e' :: ·) id
    | none => (sweepPass rsep es r).map (e :: ·) id

/-- The two passes of `do_delete_window`, the second only while something is left. -/
def sweepHole (rsep : Bool) (ws : List Window) (r : Rect) : List Window × Rect :=
  let (ws, r) := sweepPass rsep ws r
  if r.x1 = r.x2 ∨ r.y1 = r.y2 then (ws, r) else sweepPass rsep ws r

/-- `do_delete_window` on the window at `i`: nothing for the minibuffer or the only
window unless forced; a popup just goes; another window goes and its neighbours grow
over it. The window skipped in the sweep is the one deleted, so the sweep runs over the
list without it. -/
def doDeleteWindow (ws : List Window) (i : Nat) (force : Bool) : List Window :=
  match ws[i]? with
  | none => ws
  | some s =>
    let count := (ws.filter fun e => !e.isFloating).length
    if (s.flags.minibuf || decide (count ≤ 1)) && !force then ws
    else if s.flags.popup then ws.eraseIdx i
    else (sweepHole s.flags.rseparator (ws.eraseIdx i) s.rect).1

/-! ## `do_delete_other_windows` -/

/-- `do_delete_other_windows` on the window at `i`: every other window but the
minibuffer is closed; with `all` the window too, otherwise it takes the content area. -/
def doDeleteOtherWindows (sc : Screen) (ws : List Window) (i : Nat) (all : Bool) : List Window :=
  match ws[i]? with
  | none => ws
  | some s =>
    if s.isFloating then ws
    else
      let before := (ws.take i).filter (·.flags.minibuf)
      let after := (ws.drop (i + 1)).filter (·.flags.minibuf)
      if all then before ++ after
      else
        before ++ ⟨0, 0, sc.width, sc.height - sc.statusHeight,
          { s.flags with popleft := false, rseparator := false }⟩ :: after

/-! ## Runs -/

/-- The window commands: `delete-window` does not force. -/
inductive WindowOp
  | split (i sfFlags : Nat) (prop : Int)
  | delete (i : Nat)
  | deleteOthers (i : Nat) (all : Bool)
deriving DecidableEq, Repr

/-- One command; a split that fails leaves the windows as they are. -/
def WindowOp.run (sc : Screen) (ws : List Window) : WindowOp → List Window
  | .split i sfFlags prop =>
    match qeSplitWindow sc ws i sfFlags prop with
    | .split ws' => ws'
    | _ => ws
  | .delete i => doDeleteWindow ws i false
  | .deleteOthers i all => doDeleteOtherWindows sc ws i all

/-- A run of commands. -/
def runWindows (sc : Screen) (ops : List WindowOp) (ws : List Window) : List Window :=
  ops.foldl (WindowOp.run sc) ws

/-- The window qemacs starts with, over the content area. -/
def initialWindow (sc : Screen) : Window :=
  ⟨0, 0, sc.width, sc.height - sc.statusHeight, { modeline := true }⟩

/-! ## The layout of a list -/

section Layout

variable {ws ws' : List Window} {i : Nat} {s : Window}

theorem layout_cons (e : Window) (ws : List Window) :
    layout (e :: ws) = (if e.isFloating then [] else [e.rect]) ++ layout ws := by
  unfold layout
  cases h : e.isFloating <;> simp [h]

theorem layout_append (ws ws' : List Window) : layout (ws ++ ws') = layout ws ++ layout ws' := by
  simp [layout]

theorem layout_perm (h : ws.Perm ws') : (layout ws).Perm (layout ws') :=
  (h.filter _).map _

theorem layout_minibufs (ws : List Window) : layout (ws.filter (·.flags.minibuf)) = [] := by
  induction ws with
  | nil => rfl
  | cons e ws ih =>
    rw [List.filter_cons]
    split
    · rename_i hm
      rw [layout_cons, ih]
      simp [Window.isFloating, hm]
    · exact ih

/-- The window at `i` taken out to the front. -/
theorem perm_eraseIdx (h : ws[i]? = some s) : ws.Perm (s :: ws.eraseIdx i) := by
  obtain ⟨hi, rfl⟩ := List.getElem?_eq_some_iff.mp h
  have hle : i ≤ (ws.eraseIdx i).length := by
    rw [List.length_eraseIdx_of_lt hi]
    omega
  calc ws = (ws.eraseIdx i).insertIdx i ws[i] := (List.insertIdx_eraseIdx_getElem hi).symm
    List.Perm _ (ws[i] :: ws.eraseIdx i) := List.perm_insertIdx _ _ hle

theorem attachIndex_le {next : Option Nat} (hnext : ∀ j, next = some j → j ≤ ws.length) :
    attachIndex ws next ≤ ws.length := by
  unfold attachIndex
  split
  · exact hnext _ rfl
  · exact List.findIdx_le_length

/-- After a split, the list holds the new window, the window cut and the others. -/
theorem attachSplit_perm {s' e : Window} {next : Option Nat} (hi : i < ws.length)
    (hnext : ∀ j, next = some j → j ≤ ws.length) :
    (attachSplit ws i s' e next).Perm (e :: s' :: ws.eraseIdx i) := by
  have hset : ws.set i s' = (ws.eraseIdx i).insertIdx i s' :=
    (List.insertIdx_eraseIdx_self (by omega) s').symm
  have hle : i ≤ (ws.eraseIdx i).length := by
    rw [List.length_eraseIdx_of_lt hi]
    omega
  unfold attachSplit
  calc List.Perm ((ws.set i s').insertIdx (attachIndex ws next) e) (e :: ws.set i s') :=
        List.perm_insertIdx _ _ (by simpa using attachIndex_le hnext)
    List.Perm _ (e :: s' :: ws.eraseIdx i) := by
        rw [hset]
        exact (List.perm_insertIdx _ _ hle).cons e

/-- The layout after a split: the new window's rectangle, then the cut one's. -/
theorem layout_attachSplit {s' e : Window} {next : Option Nat} (hi : i < ws.length)
    (hnext : ∀ j, next = some j → j ≤ ws.length) (he : e.isFloating = false)
    (hs' : s'.isFloating = false) :
    (layout (attachSplit ws i s' e next)).Perm (e.rect :: s'.rect :: layout (ws.eraseIdx i)) := by
  have hp : (attachSplit ws i s' e next).Perm (e :: s' :: ws.eraseIdx i) :=
    attachSplit_perm hi hnext
  have h := layout_perm hp
  rwa [layout_cons, layout_cons, if_neg (by simp [he]), if_neg (by simp [hs'])] at h

end Layout

/-! ## Splits keep a packing -/

theorem clampInt_mem {a b c m : Int} (hm : clampInt a b c = m) (h : b ≤ c) : b ≤ m ∧ m ≤ c := by
  unfold clampInt at hm
  split_ifs at hm <;> omega

variable {sc : Screen} {ws ws' : List Window} {i sfFlags : Nat} {prop : Int} {c : Rect}

/-- What a split does to the layout: the rectangle of the window at `i` gives way to its
two parts on either side of a column or of a row strictly inside it. -/
theorem qeSplitWindow_layout (h : qeSplitWindow sc ws i sfFlags prop = .split ws') :
    ∃ s, ws[i]? = some s ∧ s.isFloating = false ∧ ∃ m,
      (s.x1 < m ∧ m < s.x2 ∧ (layout ws').Perm
        ({ s.rect with x2 := m } :: { s.rect with x1 := m } :: layout (ws.eraseIdx i))) ∨
      (s.y1 < m ∧ m < s.y2 ∧ (layout ws').Perm
        ({ s.rect with y2 := m } :: { s.rect with y1 := m } :: layout (ws.eraseIdx i))) := by
  unfold qeSplitWindow at h
  split at h
  · cases h
  rename_i s hs
  dsimp only at h
  have hi : i < ws.length := (List.getElem?_eq_some_iff.mp hs).1
  have hnext : ∀ j, (if i + 1 < ws.length then some (i + 1) else none) = some j →
      j ≤ ws.length := by
    intro j hj
    split at hj
    · cases hj
      omega
    · cases hj
  have hself : ∀ j, some i = some j → j ≤ ws.length := by
    rintro j ⟨⟩
    omega
  by_cases hfl : s.isFloating = true
  · rw [if_pos hfl] at h
    cases h
  rw [if_neg hfl] at h
  -- both parts keep the popup and minibuffer flags of `s`
  have hnf : s.isFloating = false := by simpa using hfl
  refine ⟨s, hs, hnf, ?_⟩
  have hcw := sc.charWidth_pos
  have hmr : 0 < (if s.flags.rseparator = true then 5 else 4) * sc.charWidth := by
    split <;> omega
  have hmh : 0 < sc.lineHeight + sc.modeLineHeight := by
    have := sc.lineHeight_pos
    have := sc.modeLineHeight_nonneg
    omega
  by_cases hside : sfFlags &&& (SW_SIDE_BY_SIDE ||| SW_RIGHT ||| SW_LEFT) ≠ 0
  · rw [if_pos hside] at h
    by_cases hnarrow : s.x2 - s.x1 <
        5 * sc.charWidth + (if s.flags.rseparator = true then 5 else 4) * sc.charWidth
    · rw [if_pos hnarrow] at h
      cases h
    rw [if_neg hnarrow] at h
    by_cases hleft : sfFlags &&& SW_LEFT ≠ 0
    · -- the new window on the left, before the window cut
      rw [if_pos hleft] at h
      generalize hm : clampInt _ _ _ = m at h
      obtain ⟨hlo, hhi⟩ := clampInt_mem hm (by omega)
      cases h
      exact ⟨s.x1 + m, .inl ⟨by omega, by omega, layout_attachSplit hi hself rfl hnf⟩⟩
    · -- the new window on the right, after it
      rw [if_neg hleft] at h
      generalize hm : clampInt _ _ _ = m at h
      obtain ⟨hlo, hhi⟩ := clampInt_mem hm (by omega)
      cases h
      refine ⟨s.x2 - m, .inl ⟨by omega, by omega, ?_⟩⟩
      exact List.Perm.trans (layout_attachSplit hi hnext rfl hnf) (List.Perm.swap _ _ _)
  · rw [if_neg hside] at h
    by_cases hlow : s.y2 - s.y1 < 2 * (sc.lineHeight + sc.modeLineHeight)
    · rw [if_pos hlow] at h
      cases h
    rw [if_neg hlow] at h
    generalize hm : clampInt _ _ _ = m at h
    obtain ⟨hlo, hhi⟩ := clampInt_mem hm (by omega)
    by_cases habove : sfFlags &&& SW_ABOVE ≠ 0
    · -- the new window above, before the window cut
      rw [if_pos habove] at h
      cases h
      exact ⟨s.y1 + m, .inr ⟨by omega, by omega, layout_attachSplit hi hself rfl hnf⟩⟩
    · -- the new window below, after it
      rw [if_neg habove] at h
      cases h
      refine ⟨s.y2 - m, .inr ⟨by omega, by omega, ?_⟩⟩
      exact List.Perm.trans (layout_attachSplit hi hnext rfl hnf) (List.Perm.swap _ _ _)

/-- The rectangle of a window that does not float, taken out to the front of a packing. -/
theorem packing_eraseIdx {s : Window} (hp : Packing c (layout ws)) (hs : ws[i]? = some s)
    (hfl : s.isFloating = false) : Packing c (s.rect :: layout (ws.eraseIdx i)) := by
  have hperm := layout_perm (perm_eraseIdx hs)
  rw [layout_cons, if_neg (by simp [hfl])] at hperm
  exact hp.perm hperm

/-- The rectangle of a window that does not float, taken out of a packing, is a free
region of the others. -/
theorem free_eraseIdx {s : Window} (hp : Packing c (layout ws)) (hs : ws[i]? = some s)
    (hfl : s.isFloating = false) : FreeIn c (layout (ws.eraseIdx i)) s.rect :=
  FreeIn.of_cons (packing_eraseIdx hp hs hfl)

theorem qeSplitWindow_packs (hp : Packing c (layout ws))
    (h : qeSplitWindow sc ws i sfFlags prop = .split ws') : Packing c (layout ws') := by
  obtain ⟨s, hs, hfl, m, hcut⟩ := qeSplitWindow_layout h
  have hpack := packing_eraseIdx hp hs hfl
  rcases hcut with ⟨h1, h2, hperm⟩ | ⟨h1, h2, hperm⟩
  · exact (hpack.cutX h1 h2).perm hperm.symm
  · exact (hpack.cutY h1 h2).perm hperm.symm

/-! ## Deletions keep a packing -/

/-- A step of the sweep: the window grows over the strip of the hole along its edge. It
keeps its flags but the separator, covers only what it and the hole covered, stays in any
frame that holds both, and is apart from what is left of the hole, which lies in it. -/
theorem mergeNeighbour_grows {rsep : Bool} {r r' : Rect} {e e' : Window}
    (h : mergeNeighbour rsep r e = some (e', r')) (he : e.rect.Proper) (hr : r.Ordered) :
    e'.isFloating = e.isFloating ∧ e'.rect.Proper ∧ e'.rect.cells ⊆ e.rect.cells ∪ r.cells ∧
      (∀ c, e.rect.Within c → r.Within c → e'.rect.Within c) ∧ r'.Within r ∧ r'.Ordered ∧
      e'.rect.Apart r' := by
  unfold mergeNeighbour at h
  simp only [Rect.Proper, Window.rect] at he
  unfold Rect.Ordered at hr
  -- the neighbour on the left, on the right, above and below
  split_ifs at h with h1 h2 h3 h4 <;> cases h
  all_goals
    refine ⟨by simp [Window.isFloating], ?_, ?subset, ?within, ?_, ?_, ?_⟩
    case subset =>
      rintro ⟨x, y⟩ hp
      simp only [Set.mem_union, Rect.mem_cells, Rect.mem_iff, Window.rect] at hp ⊢
      omega
    case within =>
      intro c hec hrc
      simp only [Rect.Within, Window.rect] at hec hrc ⊢
      omega
    all_goals
      simp only [Rect.Proper, Rect.Within, Rect.Ordered, Rect.Apart, Window.rect]
      omega

/-- A pass of the sweep keeps the hole free. The windows already passed are `done`. -/
theorem sweepPass_free (rsep : Bool) : ∀ (todo : List Window) (done : List Rect) (r : Rect),
    FreeIn c (done ++ layout todo) r →
      FreeIn c (done ++ layout (sweepPass rsep todo r).1) (sweepPass rsep todo r).2
  | [], _, _, h => h
  | e :: es, done, r, h => by
    rw [layout_cons] at h
    unfold sweepPass
    split
    · -- `e` grows over a strip of the hole
      rename_i e' r' hmerge
      have hfl : e.isFloating = false := by
        by_contra hfl
        simp [hfl] at hmerge
      rw [if_neg (by simp [hfl])] at hmerge
      rw [if_neg (by simp [hfl]), List.singleton_append] at h
      have hmid : FreeIn c (e.rect :: (done ++ layout es)) r := h.perm List.perm_middle
      have he : e.rect.Proper := hmid.packing.proper e.rect (by simp)
      obtain ⟨hfl', hp, hsub, hw, hr, hro, hsep⟩ := mergeNeighbour_grows hmerge he hmid.ordered
      have hgrown := hmid.grow hp hsub (hw c (hmid.packing.within e.rect (by simp)) hmid.within)
        hr hro hsep
      have hnext : FreeIn c ((done ++ [e'.rect]) ++ layout es) r' := by
        rw [List.append_assoc, List.singleton_append]
        exact hgrown.perm List.perm_middle.symm
      have := sweepPass_free rsep es (done ++ [e'.rect]) r' hnext
      simpa [layout_cons, hfl', hfl] using this
    · -- `e` is passed over
      rw [← List.append_assoc] at h
      have := sweepPass_free rsep es (done ++ (if e.isFloating then [] else [e.rect])) r h
      simpa [layout_cons] using this

/-- The two passes keep the hole free. -/
theorem sweepHole_free {rsep : Bool} {r : Rect} (h : FreeIn c (layout ws) r) :
    FreeIn c (layout (sweepHole rsep ws r).1) (sweepHole rsep ws r).2 := by
  have h1 := sweepPass_free rsep ws [] r (by simpa using h)
  simp only [List.nil_append] at h1
  unfold sweepHole
  rcases hpass : sweepPass rsep ws r with ⟨ws1, r1⟩
  rw [hpass] at h1
  dsimp only
  split
  · exact h1
  · simpa using sweepPass_free rsep ws1 [] r1 (by simpa using h1)

/-- `delete-window` keeps a packing: a popup goes without a trace in the layout, and the
neighbours of another window grow only over it. -/
theorem doDeleteWindow_packs (hp : Packing c (layout ws)) :
    Packing c (layout (doDeleteWindow ws i false)) := by
  unfold doDeleteWindow
  split
  · exact hp
  rename_i s hs
  dsimp only
  split
  · exact hp
  rename_i hguard
  split
  · -- a popup floats: the others are the layout
    rename_i hpop
    have hperm := layout_perm (perm_eraseIdx hs)
    rw [layout_cons, if_pos (by simp [Window.isFloating, hpop])] at hperm
    exact hp.perm hperm
  · rename_i hpop
    obtain ⟨hmini, -⟩ : s.flags.minibuf = false ∧ _ := by simpa using hguard
    have hfl : s.isFloating = false := by simp [Window.isFloating, hpop, hmini]
    exact (sweepHole_free (free_eraseIdx hp hs hfl)).packing

/-- `delete-other-windows` leaves one window over the content area, or none. -/
theorem doDeleteOtherWindows_packs (hp : Packing sc.content (layout ws)) (all : Bool) :
    Packing sc.content (layout (doDeleteOtherWindows sc ws i all)) := by
  unfold doDeleteOtherWindows
  split
  · exact hp
  rename_i s hs
  dsimp only
  split
  · exact hp
  rename_i hfl
  split
  · rw [layout_append, layout_minibufs, layout_minibufs]
    exact Packing.nil
  · rw [layout_append, layout_cons, layout_minibufs, layout_minibufs,
      if_neg (by simpa [Window.isFloating] using hfl)]
    have hw := sc.width_pos
    have hh := sc.statusHeight_lt
    apply Packing.single
    · simp only [Rect.Proper, Window.rect]
      omega
    · simp only [Rect.Within, Window.rect, Screen.content]
      omega

/-! ## Runs -/

/-- Every command keeps the windows that do not float a packing of the content area. -/
theorem WindowOp.run_packs (op : WindowOp) (hp : Packing sc.content (layout ws)) :
    Packing sc.content (layout (op.run sc ws)) := by
  cases op with
  | split i sfFlags prop =>
    simp only [WindowOp.run]
    split
    · rename_i ws' h
      exact qeSplitWindow_packs hp h
    · exact hp
  | delete i => exact doDeleteWindow_packs hp
  | deleteOthers i all => exact doDeleteOtherWindows_packs hp all

theorem runWindows_packs_of (ops : List WindowOp) :
    ∀ ws, Packing sc.content (layout ws) → Packing sc.content (layout (runWindows sc ops ws)) := by
  induction ops with
  | nil => exact fun _ hp => hp
  | cons op ops ih =>
    intro ws hp
    exact ih _ (op.run_packs hp)

/-- From the first window over the content area, with popups and the minibuffer over
it, the windows that do not float stay inside the content area, each with a cell, and no
two of them share a cell, whatever the splits and deletions. -/
theorem runWindows_packs (sc : Screen) (ops : List WindowOp) (floats : List Window)
    (hfloats : ∀ f ∈ floats, f.isFloating = true) :
    (∀ r ∈ layout (runWindows sc ops (initialWindow sc :: floats)),
        r.Proper ∧ r.cells ⊆ sc.content.cells) ∧
      (layout (runWindows sc ops (initialWindow sc :: floats))).Pairwise
        fun r q => Disjoint r.cells q.cells := by
  have hfirst : layout (initialWindow sc :: floats) = [sc.content] := by
    have hnone : layout floats = [] := by
      simpa [layout, List.filter_eq_nil_iff] using hfloats
    rw [layout_cons, hnone]
    rfl
  have hinit : Packing sc.content (layout (initialWindow sc :: floats)) := by
    have hw := sc.width_pos
    have hh := sc.statusHeight_lt
    rw [hfirst]
    apply Packing.single
    · simp only [Rect.Proper, Screen.content]
      omega
    · simp only [Rect.Within]
      omega
  have hrun := runWindows_packs_of ops _ hinit
  exact ⟨fun r hr => ⟨hrun.proper r hr, hrun.subset r hr⟩, hrun.pairwise_disjoint⟩

/-- A terminal of 80 columns and 25 lines, the last one the status line. -/
def ttyScreen : Screen :=
  ⟨80, 25, 1, 1, 1, 1, by decide, by decide, by decide, by decide, by decide⟩

/-- The minibuffer window on the status line of `ttyScreen`. -/
def ttyMinibuf : Window := ⟨0, 24, 80, 25, { minibuf := true }⟩

theorem runWindows_packs_tty :
    (∀ f ∈ [ttyMinibuf], f.isFloating = true) ∧
      ((∀ r ∈ layout (runWindows ttyScreen [.split 0 SW_SIDE_BY_SIDE 50]
          (initialWindow ttyScreen :: [ttyMinibuf])), r.Proper ∧ r.cells ⊆ ttyScreen.content.cells) ∧
        (layout (runWindows ttyScreen [.split 0 SW_SIDE_BY_SIDE 50]
          (initialWindow ttyScreen :: [ttyMinibuf]))).Pairwise
          fun r q => Disjoint r.cells q.cells) :=
  ⟨by decide, runWindows_packs ttyScreen [.split 0 SW_SIDE_BY_SIDE 50] [ttyMinibuf] (by decide)⟩

/-- The sweep can leave a hole. On the terminal, split the window to the left, the left
window above, the right window above with the new window taking all it can, and that
window to the left: the window deleted then is `[40, 60) × [0, 22)`. The window above on
the left, listed first, shares its top left corner and grows over its top `[40, 60) × [0, 12)`;
what is left, `[40, 60) × [12, 22)`, has on its left a window that reaches lower, on its
right and below windows that are longer than it, and stays a hole. -/
theorem runWindows_leaves_hole :
    layout (runWindows ttyScreen [.split 0 (SW_SIDE_BY_SIDE ||| SW_LEFT) 50, .split 0 SW_ABOVE 50,
        .split 2 SW_ABOVE 0, .split 2 (SW_SIDE_BY_SIDE ||| SW_LEFT) 50, .delete 2]
        [initialWindow ttyScreen]) =
      [⟨0, 0, 60, 12⟩, ⟨0, 12, 40, 24⟩, ⟨60, 0, 80, 22⟩, ⟨40, 22, 80, 24⟩] ∧
    (50, 15) ∈ ttyScreen.content ∧
    ∀ r ∈ layout (runWindows ttyScreen [.split 0 (SW_SIDE_BY_SIDE ||| SW_LEFT) 50,
        .split 0 SW_ABOVE 50, .split 2 SW_ABOVE 0, .split 2 (SW_SIDE_BY_SIDE ||| SW_LEFT) 50,
        .delete 2] [initialWindow ttyScreen]), (50, 15) ∉ r := by
  refine ⟨?_, ?_, ?_⟩ <;> decide

end Qemacs
