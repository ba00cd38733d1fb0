import Qemacs.Charset.Utf8
import Qemacs.Html.CssParse
import Qemacs.Tty.Input

/-!
# Key names

The names of keys (util.c): `strtokeys` reads a string such as `"C-x M-f RET"` into a
sequence of keys, and `buf_put_keys` writes a sequence of keys back as such a string, for
the bindings the user sees and for the keyboard macros that `save_last_kbd_macro` and
`do_edit_last_kbd_macro` write out and read back.

A key is a code point, or a special key of the range `0xE000`–`0xEFFF`. The modifiers are
bits of that range: `KEY_META` sets `0xE200`, `KEY_SHIFT` `0xE400` and `KEY_CONTROL`
`0xE800`. `buf_put_key` reads a key of the range from `0xE200` on back into modifiers by
testing those bits. A code point whose bits `0xE00` are set, such as `U+0E01`, gives with
a modifier a key whose bits say more modifiers than were given: `"M-"` followed by `U+0E01`
reads as `0xEE01`, which is written `"M-C-S-C-a"` and read back as `0xE601`
(`strtokeys_meta_thai`).
-/

namespace Qemacs

/-! ## Key codes (util.h) -/

def KEY_CTRL (c : UInt32) : UInt32 := c &&& 0x1f
def KEY_ESC1 (c : UInt32) : UInt32 := c ||| 0xe100
def KEY_META (c : UInt32) : UInt32 := c ||| 0xe200
def KEY_SHIFT (c : UInt32) : UInt32 := c ||| 0xe400
def KEY_CONTROL (c : UInt32) : UInt32 := c ||| 0xe800

def KEY_IS_ESC1 (c : UInt32) : Bool := KEY_ESC1 0 ≤ c ∧ c ≤ KEY_ESC1 0xff
def KEY_IS_SPECIAL (c : UInt32) : Bool := 0xe000 ≤ c ∧ c < 0xf000

def KEY_STATE_SHIFT : Nat := 1
def KEY_STATE_META : Nat := 2
def KEY_STATE_CONTROL : Nat := 4
def KEY_STATE_COMMAND : Nat := 8

def KEY_NONE : UInt32 := 0xe000
def KEY_DEFAULT : UInt32 := 0xe001
def KEY_UNKNOWN : UInt32 := 0xe002
def KEY_TAB : UInt32 := KEY_CTRL 0x69
def KEY_LF : UInt32 := KEY_CTRL 0x6a
def KEY_RET : UInt32 := KEY_CTRL 0x6d
def KEY_SPC : UInt32 := 0x20

/-- The bytes of an ASCII name. -/
def ascii (s : String) : List UInt8 := s.toList.map (·.toNat.toUInt8)

/-- `keycodes` and `keystr`: the special keys and their names, in the order of the tables.
`KEY_HOME` to `KEY_EXIT` are `KEY_ESC1(1)` to `KEY_ESC1(33)`; the last three are `{`, `}`
and `|`. -/
def keycodes : List (UInt32 × List UInt8) :=
  [(KEY_SPC, ascii "SPC"), (KEY_DEL, ascii "DEL"), (KEY_RET, ascii "RET"),
   (KEY_LF, ascii "LF"), (KEY_ESC, ascii "ESC"), (KEY_TAB, ascii "TAB"),
   (KEY_ESC1 10, ascii "left"), (KEY_ESC1 9, ascii "right"), (KEY_ESC1 7, ascii "up"),
   (KEY_ESC1 8, ascii "down"),
   (KEY_ESC1 1, ascii "home"), (KEY_ESC1 4, ascii "end"), (KEY_ESC1 5, ascii "pageup"),
   (KEY_ESC1 6, ascii "pagedown"),
   (KEY_ESC1 5, ascii "prior"), (KEY_ESC1 6, ascii "next"), (KEY_ESC1 2, ascii "insert"),
   (KEY_ESC1 3, ascii "delete"),
   (KEY_DEFAULT, ascii "default"), (KEY_NONE, ascii "none"), (KEY_UNKNOWN, ascii "unknown"),
   (KEY_ESC1 31, ascii "QUIT"), (KEY_ESC1 32, ascii "CLOSE"), (KEY_ESC1 33, ascii "EXIT"),
   (KEY_ESC1 11, ascii "f1"), (KEY_ESC1 12, ascii "f2"), (KEY_ESC1 13, ascii "f3"),
   (KEY_ESC1 14, ascii "f4"), (KEY_ESC1 15, ascii "f5"), (KEY_ESC1 16, ascii "f6"),
   (KEY_ESC1 17, ascii "f7"), (KEY_ESC1 18, ascii "f8"), (KEY_ESC1 19, ascii "f9"),
   (KEY_ESC1 20, ascii "f10"), (KEY_ESC1 21, ascii "f11"), (KEY_ESC1 22, ascii "f12"),
   (KEY_ESC1 23, ascii "f13"), (KEY_ESC1 24, ascii "f14"), (KEY_ESC1 25, ascii "f15"),
   (KEY_ESC1 26, ascii "f16"), (KEY_ESC1 27, ascii "f17"), (KEY_ESC1 28, ascii "f18"),
   (KEY_ESC1 29, ascii "f19"), (KEY_ESC1 30, ascii "f20"),
   (0x7b, ascii "LB"), (0x7d, ascii "RB"), (0x7c, ascii "VB")]

/-! ## Reading keys -/

/-- The scan for the separator of `strtokey1`: the bytes before the end, a space, or a
comma followed by a space. -/
def keyTokenLen : List UInt8 → Nat
  | [] => 0
  | c :: rest => if c = 0x20 ∨ (c = 0x2c ∧ rest.head? = some 0x20) then 0 else keyTokenLen rest + 1

/-- `strtokey1`: a key name that is the whole token, or a single code point that is;
`none` for the `-1` of a token that is neither, the pointer left where it was. -/
def strtokey1 (p : List UInt8) : Option (UInt32 × List UInt8) :=
  let n := keyTokenLen p
  match keycodes.find? (fun e => e.2 = p.take n) with
  | some e => some (e.1, p.drop n)
  | none => if (utf8Decode p).2 = n then some ((utf8Decode p).1, p.drop n) else none

/-- `get_modified_key`. -/
def getModifiedKey (key : UInt32) (state : Nat) : UInt32 :=
  let key :=
    if state &&& KEY_STATE_CONTROL ≠ 0 then
      if key = 0x20 ∨ (0x40 ≤ key ∧ key ≤ 0x5f) ∨ (0x61 ≤ key ∧ key ≤ 0x7a) then KEY_CTRL key
      else if key = 0x3f then 127
      else KEY_CONTROL key
    else key
  let key :=
    if state &&& KEY_STATE_SHIFT ≠ 0 ∧ (key < 32 ∨ key = 127 ∨ KEY_IS_SPECIAL key) then
      KEY_SHIFT key
    else key
  if state &&& (KEY_STATE_META ||| KEY_STATE_COMMAND) ≠ 0 then KEY_META key else key

/-- The end of the loop of `strtokey` on a token that is no key: `KEY_UNKNOWN` past the
token after a modifier, else the code point at `p`. -/
def strtokeyEnd (state : Nat) (p : List UInt8) : UInt32 × List UInt8 :=
  if state ≠ 0 then (KEY_UNKNOWN, p.drop (keyTokenLen p))
  else (getModifiedKey (utf8Decode p).1 state, p.drop (utf8Decode p).2)

/-- The loop of `strtokey`: the prefixes `M-`, `C-` and `S-` gather modifiers until a
token reads as a key. -/
def strtokeyLoop (state : Nat) (p : List UInt8) : UInt32 × List UInt8 :=
  match strtokey1 p with
  | some (key, rest) => (getModifiedKey key state, rest)
  | none =>
    match p with
    | c :: d :: rest =>
      if d = 0x2d ∧ c = 0x4d then strtokeyLoop (state ||| KEY_STATE_META) rest
      else if d = 0x2d ∧ c = 0x43 then strtokeyLoop (state ||| KEY_STATE_CONTROL) rest
      else if d = 0x2d ∧ c = 0x53 then strtokeyLoop (state ||| KEY_STATE_SHIFT) rest
      else strtokeyEnd state p
    | _ => strtokeyEnd state p

/-- `strtokey`. -/
def strtokey (p : List UInt8) : UInt32 × List UInt8 := strtokeyLoop 0 p

/-- `qe_skip_spaces`. -/
def skipSpaces : List UInt8 → List UInt8
  | [] => []
  | c :: p => if c = 0x20 ∨ c = 0x09 ∨ c = 0x0a ∨ c = 0x0d ∨ c = 160 then skipSpaces p else c :: p

/-- `compose_keys` on the keys read so far, the last one first: `ESC` and a byte or a
function key after it become one meta key. -/
def composeKeys : List UInt32 → List UInt32
  | k1 :: k0 :: rest =>
    if k0 = KEY_ESC ∧ k1 ≠ KEY_ESC ∧ (k1 ≤ 0xff ∨ KEY_IS_ESC1 k1) then KEY_META k1 :: rest
    else k1 :: k0 :: rest
  | keys => keys

theorem utf8DecodeLoop_len_pos {lead : UInt8} {len : Nat} (hlen : 0 < len) (l : List UInt8)
    (i : Nat) (c : UInt32) : 0 < (utf8DecodeLoop lead len l i c).2 := by
  induction l generalizing i c with
  | nil => simp [utf8DecodeLoop]
  | cons b rest ih =>
    unfold utf8DecodeLoop
    dsimp only
    split_ifs
    · exact Nat.one_pos
    · exact hlen
    · exact ih _ _

/-- `utf8_decode` moves past at least one byte. -/
theorem utf8Decode_len_pos (p : List UInt8) : 0 < (utf8Decode p).2 := by
  unfold utf8Decode
  split
  · exact Nat.one_pos
  · split
    · exact Nat.one_pos
    · apply utf8DecodeLoop_len_pos
      unfold utf8x_length
      split_ifs <;> omega

theorem keyTokenLen_le (p : List UInt8) : keyTokenLen p ≤ p.length := by
  induction p with
  | nil => exact Nat.le_refl _
  | cons c p ih =>
    unfold keyTokenLen
    split_ifs
    · exact Nat.zero_le _
    · simp only [List.length_cons]
      omega

theorem keycodes_names_ne_nil : ∀ e ∈ keycodes, e.2 ≠ [] := by decide

/-- A key read by `strtokey1` is the whole token, which is not empty. -/
theorem strtokey1_spec {p rest : List UInt8} {key : UInt32} (h : strtokey1 p = some (key, rest)) :
    rest = p.drop (keyTokenLen p) ∧ 0 < keyTokenLen p := by
  unfold strtokey1 at h
  dsimp only at h
  split at h
  · -- a name of the tables, which is not empty
    rename_i e he
    obtain ⟨-, rfl⟩ := Prod.mk.inj (Option.some.inj h)
    refine ⟨rfl, Nat.pos_of_ne_zero fun h0 => ?_⟩
    have hname : e.2 = p.take (keyTokenLen p) := by
      have := List.find?_some he
      simpa using this
    rw [h0, List.take_zero] at hname
    exact keycodes_names_ne_nil e (List.mem_of_find?_eq_some he) hname
  · -- one code point, at least one byte long
    split at h
    · rename_i hlen
      obtain ⟨-, rfl⟩ := Prod.mk.inj (Option.some.inj h)
      exact ⟨rfl, hlen ▸ utf8Decode_len_pos p⟩
    · cases h

theorem strtokey1_length {p rest : List UInt8} {key : UInt32} (h : strtokey1 p = some (key, rest)) :
    rest.length < p.length := by
  obtain ⟨rfl, hn⟩ := strtokey1_spec h
  have := keyTokenLen_le p
  simp only [List.length_drop]
  omega

theorem strtokeyEnd_length (state : Nat) (p : List UInt8) :
    (strtokeyEnd state p).2.length ≤ p.length ∧
      (state = 0 → p ≠ [] → (strtokeyEnd state p).2.length < p.length) := by
  unfold strtokeyEnd
  split_ifs with hs
  · exact ⟨by simp, fun h => absurd h hs⟩
  · have := utf8Decode_len_pos p
    refine ⟨by simp, fun _ hp => ?_⟩
    have : p.length ≠ 0 := by simpa using hp
    simp only [List.length_drop]
    omega

/-- `strtokey` reads past at least one byte of a string that is not empty. -/
theorem strtokeyLoop_length (state : Nat) (p : List UInt8) :
    (strtokeyLoop state p).2.length ≤ p.length ∧
      (state = 0 → p ≠ [] → (strtokeyLoop state p).2.length < p.length) := by
  fun_induction strtokeyLoop state p with
  | case1 p state key rest h =>
    have := strtokey1_length h
    exact ⟨Nat.le_of_lt this, fun _ _ => this⟩
  | case2 state c d rest _ _ ih =>
    have := ih.1
    simp only [List.length_cons]
    exact ⟨by omega, fun _ _ => by omega⟩
  | case3 state c d rest _ _ _ ih =>
    have := ih.1
    simp only [List.length_cons]
    exact ⟨by omega, fun _ _ => by omega⟩
  | case4 state c d rest _ _ _ _ ih =>
    have := ih.1
    simp only [List.length_cons]
    exact ⟨by omega, fun _ _ => by omega⟩
  | case5 => exact strtokeyEnd_length _ _
  | case6 => exact strtokeyEnd_length _ _

theorem skipSpaces_length (p : List UInt8) : (skipSpaces p).length ≤ p.length := by
  induction p with
  | nil => exact Nat.le_refl _
  | cons c p ih =>
    unfold skipSpaces
    split_ifs
    · simp only [List.length_cons]
      omega
    · exact Nat.le_refl _

/-- The loop of `strtokeys`, with the keys read so far, the last one first. -/
def strtokeysLoop (maxKeys : Nat) (acc : List UInt32) (p : List UInt8) :
    List UInt32 × List UInt8 :=
  match _hp : skipSpaces p with
  | [] => (acc.reverse, [])
  | c :: q =>
    let keys := composeKeys ((strtokey (c :: q)).1 :: acc)
    let rest := (strtokey (c :: q)).2
    if rest.take 2 = [0x2c, 0x20] then (keys.reverse, rest.drop 2)
    else if keys.length ≥ maxKeys then (keys.reverse, rest)
    else strtokeysLoop maxKeys keys rest
termination_by p.length
decreasing_by
  have h1 := (strtokeyLoop_length 0 (c :: q)).2 rfl (List.cons_ne_nil c q)
  have h2 := skipSpaces_length p
  rw [_hp] at h2
  exact Nat.lt_of_lt_of_le h1 h2

/-- `strtokeys`: the keys read, at most `max_keys` of them, and where the reading ended. -/
def strtokeys (maxKeys : Nat) (str : List UInt8) : List UInt32 × List UInt8 :=
  strtokeysLoop maxKeys [] str

/-! ## Writing keys -/

/-- The name of a key in the tables, the first one for a key with two. -/
def keyName (key : UInt32) : Option (List UInt8) := (keycodes.find? (·.1 = key)).map (·.2)

/-- The last cases of `buf_put_key`: a control character as `C-` and a lowercase letter,
any other key as its UTF-8 bytes. -/
def bufPutKeyTail (key : UInt32) : List UInt8 :=
  if key ≤ KEY_CTRL 0x5f then [0x43, 0x2d, Css.qeTolower (key + 0x41 - 1).toUInt8]
  else utf8Encode key

/-- The call `buf_put_key` makes on the key without its modifiers: the key is below
`0xE200`, so it is written by its name or by `bufPutKeyTail`. -/
def bufPutKeyBase (key : UInt32) : List UInt8 :=
  match keyName key with
  | some s => s
  | none => bufPutKeyTail key

/-- `buf_put_key`: a key of the range of modifiers as the modifiers its bits say, then the
key below them. -/
def bufPutKey (key : UInt32) : List UInt8 :=
  match keyName key with
  | some s => s
  | none =>
    if 0xe200 ≤ key ∧ key < 0xf000 then
      (if key &&& KEY_META 0 = KEY_META 0 then ascii "M-" else []) ++
      (if key &&& KEY_CONTROL 0 = KEY_CONTROL 0 then ascii "C-" else []) ++
      (if key &&& KEY_SHIFT 0 = KEY_SHIFT 0 then ascii "S-" else []) ++
      bufPutKeyBase (if key &&& 0x100 ≠ 0 then key &&& ~~~0xe00 else key &&& 0xff)
    else bufPutKeyTail key

/-- `buf_put_keys`: the keys written one after the other, a space between two. -/
def bufPutKeys (keys : List UInt32) : List UInt8 := [0x20].intercalate (keys.map bufPutKey)

unseal strtokeysLoop in
/-- `"M-"` and `U+0E01` read as `0xEE01`, whose bits `0xE00` then read as the modifiers
`C-` and `S-` too: it is written `"M-C-S-C-a"`, which reads back as `0xE601`. -/
theorem strtokeys_meta_thai :
    (strtokeys 10 [0x4d, 0x2d, 0xe0, 0xb8, 0x81]).1 = [0xee01] ∧
      bufPutKeys [0xee01] = ascii "M-C-S-C-a" ∧
      (strtokeys 10 (bufPutKeys [0xee01])).1 = [0xe601] := by
  decide

end Qemacs
