import Mathlib.Data.List.Infix

/-!
# `canonicalize_path`

`canonicalize_path` and `canonicalize_path1` (util.c), which normalise the file names that
qemacs opens, on C strings (the bytes before the NUL) and a destination array of
`buf_size` bytes, written with `pstrcat`, so that what does not fit is cut off.

`canonicalize_path1` takes the components of the path, the runs of bytes between `/`, one
after the other, and keeps the result in the destination as it goes: it drops empty and
`.` components, appends the others after a `/`, and for `..` cuts the destination at its
last `/`. The reference is the lexical normal form (`lexicalNormal`): the components on a
stack, `..` popping a component that is not `..` itself and dropped at the root of an
absolute path.

The two differ on relative paths: the first component of a relative path has no `/` before
it in the destination, so `strrchr` finds none and the `..` after it is appended, as if the
destination were already going up. `canonicalize_path("a/..")` is `"a/.."`, not `"."`
(`canonicalizePath_relative_parent`).
-/

namespace Qemacs

/-- `MAX_FILENAME_SIZE` (util.c): the size of the array a component is copied to. -/
def MAX_FILENAME_SIZE : Nat := 1024

/-- `pstrcpy` to an array of `size` bytes holding `buf`: what fits before the NUL. -/
def pstrcpy (buf : List UInt8) (size : Nat) (str : List UInt8) : List UInt8 :=
  if size > 0 then str.take (size - 1) else buf

/-- `pstrcat` to an array of `size` bytes holding `buf`. -/
def pstrcat (buf : List UInt8) (size : Nat) (s : List UInt8) : List UInt8 :=
  if buf.length < size then buf ++ pstrcpy [] (size - buf.length) s else buf

/-- `strrchr`: the index of the last occurrence of `c`. -/
def strrchr : List UInt8 → UInt8 → Option Nat
  | [], _ => none
  | x :: s, c =>
    match strrchr s c with
    | some i => some (i + 1)
    | none => if x = c then some 0 else none

/-- The label `copy:` of `canonicalize_path1`: the component appended, after a `/` unless
it starts a relative path. -/
def copyFile (bufSize : Nat) (absPath : Bool) (buf file : List UInt8) : List UInt8 :=
  let buf := if buf ≠ [] ∨ absPath then pstrcat buf bufSize [0x2f] else buf
  pstrcat buf bufSize file

/-- The body of the loop of `canonicalize_path1` on the component `file`. -/
def canonStep (bufSize : Nat) (absPath : Bool) (buf file : List UInt8) : List UInt8 :=
  if file = [] ∨ file = [0x2e] then buf
  else if file = [0x2e, 0x2e] then
    -- go up one directory
    if buf = [] then
      if absPath then buf else copyFile bufSize absPath buf file
    else
      match strrchr buf 0x2f with
      | none => copyFile bufSize absPath buf file
      | some i =>
        -- already going up: cannot do more
        if buf.drop (i + 1) = [0x2e, 0x2e] then copyFile bufSize absPath buf file
        else buf.take i
  else copyFile bufSize absPath buf file

/-- `canonicalize_path1`: the loop over the components of the path, each one as the inner
loop copies it, at most `MAX_FILENAME_SIZE - 1` bytes; then `/` or `.` if nothing is left. -/
def canonicalizePath1 (bufSize : Nat) (path : List UInt8) : List UInt8 :=
  let absPath := decide (path.head? = some 0x2f)
  let buf := ((path.splitOn 0x2f).map (·.take (MAX_FILENAME_SIZE - 1))).foldl
    (canonStep bufSize absPath) []
  if buf = [] then pstrcat buf bufSize (if absPath then [0x2f] else [0x2e]) else buf

/-- `canonicalize_path`: a drive letter `X:` kept in front, another name with a `:` before
its first `/` (a URL) copied as it is, any other path through `canonicalize_path1`. -/
def canonicalizePath (bufSize : Nat) (path : List UInt8) : List UInt8 :=
  let pre := path.takeWhile (fun c => c ≠ 0x2f ∧ c ≠ 0x3a)
  if (path.drop pre.length).head? = some 0x3a then
    if pre.length = 2 then path.take 2 ++ canonicalizePath1 (bufSize - 2) (path.drop 2)
    else pstrcpy [] bufSize path
  else canonicalizePath1 bufSize path

/-! ## The lexical normal form -/

/-- One component on the stack of the lexical normal form. -/
def lexicalStep (absPath : Bool) (stack : List (List UInt8)) (comp : List UInt8) :
    List (List UInt8) :=
  if comp = [] ∨ comp = [0x2e] then stack
  else if comp = [0x2e, 0x2e] then
    match stack with
    | [] => if absPath then [] else [comp]
    | top :: rest => if top = [0x2e, 0x2e] then comp :: top :: rest else rest
  else comp :: stack

/-- The lexical normal form of a path: its components through `lexicalStep`, joined by `/`
after a leading `/` for an absolute path; `/` or `.` when none is left. -/
def lexicalNormal (path : List UInt8) : List UInt8 :=
  let absPath := decide (path.head? = some 0x2f)
  let stack := (path.splitOn 0x2f).foldl (lexicalStep absPath) []
  if stack = [] then (if absPath then [0x2f] else [0x2e])
  else (if absPath then [0x2f] else []) ++ [0x2f].intercalate stack.reverse

/-- `a/..` keeps its `..`: after the first component of a relative path there is no `/` in
the destination, and `..` is appended as if it were going up already. -/
theorem canonicalizePath_relative_parent :
    canonicalizePath MAX_FILENAME_SIZE [0x61, 0x2f, 0x2e, 0x2e] = [0x61, 0x2f, 0x2e, 0x2e] ∧
      lexicalNormal [0x61, 0x2f, 0x2e, 0x2e] = [0x2e] := by
  decide

end Qemacs
