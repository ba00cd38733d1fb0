import Mathlib.Data.List.Basic

/-!
# The lookahead buffer of `xml_parse`

`xml_parse` (libqhtml/xmlparse.c) takes the document in chunks. It keeps the
last `LOOKAHEAD_SIZE - 1` bytes of each chunk in `lookahead_buf`, so that the
character loop of `xml_parse_internal`, which decodes multibyte characters and
entities, may read past the point where it is told to stop. At the next call
the lookahead bytes are topped up from the new chunk and parsed first;
`xml_end` parses what is left.

The character loop is a parameter (`XmlMachine`): one turn decodes a
character and runs the `switch (s->state)` on it, and says how many bytes it
took. The lookahead logic around it is modelled from the source.
-/

namespace Qemacs.Xml

/-- `LOOKAHEAD_SIZE`. -/
def LOOKAHEAD_SIZE : Nat := 16

/-- One turn of the character loop of `xml_parse_internal` on the bytes from
the current position: the state after the character and the bytes the turn
took, or `none` when `abort_func` stops the parse at a newline. A turn takes
at least one byte. `σ` holds the parser state of `XMLState` other than the
lookahead buffer. -/
structure XmlMachine (σ : Type) where
  scan : σ → List UInt8 → Option (σ × Nat)
  scan_pos : ∀ s bytes s' k, scan s bytes = some (s', k) → 0 < k

variable {σ : Type}

/-- The `for (;;)` loop of `xml_parse_internal` from `buf_start + pos` up to
`buf_end = buf_start + limit`: the state and the bytes consumed, `buf -
buf_start`, or `-1` when the parse is stopped. A turn may read past `limit`. -/
def parseInternal (m : XmlMachine σ) (s : σ) (bytes : List UInt8) (limit pos : Nat) :
    σ × Int :=
  if pos < limit then
    match h : m.scan s (bytes.drop pos) with
    | none => (s, -1)
    | some (s', k) =>
      have := m.scan_pos _ _ _ _ h
      parseInternal m s' bytes limit (pos + k)
  else (s, pos)
termination_by limit - pos

/-- `memcpy(dst + off, src, n)`. -/
def memcpyAt (dst : List UInt8) (off : Nat) (src : List UInt8) (n : Nat) : List UInt8 :=
  dst.take off ++ src.take n ++ dst.drop (off + n)

/-- The part of `XMLState` `xml_parse` works on: the parser state, and the
lookahead buffer of `2 * LOOKAHEAD_SIZE` bytes, of which `lookaheadSize` are
pending. -/
structure XMLState (σ : Type) where
  machine : σ
  lookaheadSize : Nat
  lookaheadBuf : List UInt8

/-- `xml_begin`: the state is zeroed, the lookahead buffer empty. -/
def xmlBegin (s : σ) : XMLState σ :=
  { machine := s, lookaheadSize := 0, lookaheadBuf := List.replicate (2 * LOOKAHEAD_SIZE) 0 }

/-- The end of `xml_parse`, with no byte pending: all but the last
`LOOKAHEAD_SIZE - 1` bytes are parsed, and those that are left are put in the
lookahead buffer. -/
def xmlParseRest (m : XmlMachine σ) (s : XMLState σ) (buf : List UInt8) : Int × XMLState σ :=
  if LOOKAHEAD_SIZE - 1 < buf.length then
    let (s', len) := parseInternal m s.machine buf (buf.length - (LOOKAHEAD_SIZE - 1)) 0
    if len < 0 then (-1, { s with machine := s' })
    else
      let buf := buf.drop len.toNat
      (0, { machine := s', lookaheadSize := buf.length,
            lookaheadBuf := memcpyAt s.lookaheadBuf 0 buf buf.length })
  else
    (0, { s with lookaheadSize := buf.length,
                 lookaheadBuf := memcpyAt s.lookaheadBuf 0 buf buf.length })

/-- `xml_parse`: parse a chunk of the document. -/
def xmlParse (m : XmlMachine σ) (s : XMLState σ) (buf : List UInt8) : Int × XMLState σ :=
  if 0 < s.lookaheadSize then
    -- fill the lookahead buffer with the content of `buf`
    let len := min (LOOKAHEAD_SIZE - 1) buf.length
    let la := memcpyAt s.lookaheadBuf s.lookaheadSize buf len
    let total := s.lookaheadSize + len
    -- parse only if enough chars for lookahead
    if LOOKAHEAD_SIZE - 1 < total then
      let (s', len) := parseInternal m s.machine la (total - (LOOKAHEAD_SIZE - 1)) 0
      if len < 0 then (-1, { s with machine := s', lookaheadBuf := la })
      else if len.toNat ≤ s.lookaheadSize then
        -- `len1 <= 0`: the bytes copied from `buf` are not counted
        let ls := s.lookaheadSize - len.toNat
        let s := { machine := s', lookaheadSize := ls,
                   lookaheadBuf := memcpyAt la 0 (la.drop len.toNat) ls }
        -- if could not parse everything, no need to go further
        if 0 < ls then (0, s) else xmlParseRest m s buf
      else
        xmlParseRest m { machine := s', lookaheadSize := 0, lookaheadBuf := la }
          (buf.drop (len.toNat - s.lookaheadSize))
    else
      -- all chars were put in lookahead buffer
      (0, { s with lookaheadSize := total, lookaheadBuf := la })
  else xmlParseRest m s buf

/-- `xml_end`: the pending bytes are parsed, ended by a NUL, and the parser
state is what the document built. -/
def xmlEnd (m : XmlMachine σ) (s : XMLState σ) : σ :=
  if 0 < s.lookaheadSize then
    (parseInternal m s.machine (s.lookaheadBuf.set s.lookaheadSize 0) s.lookaheadSize 0).1
  else s.machine

/-- `xml_parse` on each chunk in turn. -/
def xmlParseChunks (m : XmlMachine σ) (s : XMLState σ) : List (List UInt8) → XMLState σ
  | [] => s
  | c :: cs => xmlParseChunks m (xmlParse m s c).2 cs

/-! ## A machine that reads a byte a turn -/

section ByteMachine

variable {m : XmlMachine σ} {f : σ → UInt8 → σ} {A : UInt8 → Prop}

/-- On bytes of `A` that it reads one a turn, stepping with `f`, the loop of
`xml_parse_internal` folds `f` over the bytes from `pos` to `limit`. -/
theorem parseInternal_bytes (hm : ∀ s b bs, A b → m.scan s (b :: bs) = some (f s b, 1))
    (s : σ) (bytes : List UInt8) (limit pos : Nat) (hlen : limit ≤ bytes.length)
    (hA : ∀ b ∈ (bytes.drop pos).take (limit - pos), A b) :
    parseInternal m s bytes limit pos =
      (((bytes.drop pos).take (limit - pos)).foldl f s, ((max pos limit : Nat) : Int)) := by
  fun_induction parseInternal m s bytes limit pos with
  | case1 s pos hlt hnone =>
    -- a byte of `A` is there, and the machine reads it
    obtain ⟨b, bs, hbs⟩ := List.exists_cons_of_ne_nil (List.ne_nil_of_length_pos
      (show 0 < (bytes.drop pos).length by simp; omega))
    rw [hbs, List.take_cons (by omega)] at hA
    rw [hbs, hm s b bs (hA b List.mem_cons_self)] at hnone
    contradiction
  | case2 s pos hlt s' k hsome _ ih =>
    obtain ⟨b, bs, hbs⟩ := List.exists_cons_of_ne_nil (List.ne_nil_of_length_pos
      (show 0 < (bytes.drop pos).length by simp; omega))
    have htake : (bytes.drop pos).take (limit - pos) = b :: (bytes.drop (pos + 1)).take
        (limit - (pos + 1)) := by
      rw [hbs, List.take_cons (by omega), ← List.drop_drop, hbs, List.drop_one,
        List.tail_cons]
      congr 2
    rw [htake] at hA
    rw [hbs, hm s b bs (hA b List.mem_cons_self)] at hsome
    obtain ⟨rfl, rfl⟩ := Prod.mk.inj (Option.some.inj hsome).symm
    rw [ih (fun c hc => hA c (List.mem_cons_of_mem b hc)), htake, List.foldl_cons]
    congr 2
    omega
  | case3 s pos hge =>
    simp [Nat.sub_eq_zero_of_le (Nat.le_of_not_lt hge), Nat.max_eq_left (Nat.le_of_not_lt hge)]

/-- With no byte pending, a chunk longer than `LOOKAHEAD_SIZE - 1` is parsed
but for its last `LOOKAHEAD_SIZE - 1` bytes, which become pending. -/
theorem xmlParseRest_bytes (hm : ∀ s b bs, A b → m.scan s (b :: bs) = some (f s b, 1))
    (s : XMLState σ) (buf : List UInt8) (hbuf : LOOKAHEAD_SIZE - 1 < buf.length)
    (hA : ∀ b ∈ buf.take (buf.length - (LOOKAHEAD_SIZE - 1)), A b) :
    xmlParseRest m s buf =
      (0, { machine := (buf.take (buf.length - (LOOKAHEAD_SIZE - 1))).foldl f s.machine,
            lookaheadSize := LOOKAHEAD_SIZE - 1,
            lookaheadBuf := memcpyAt s.lookaheadBuf 0 (buf.drop (buf.length - (LOOKAHEAD_SIZE - 1)))
              (LOOKAHEAD_SIZE - 1) }) := by
  have hp := parseInternal_bytes hm s.machine buf (buf.length - (LOOKAHEAD_SIZE - 1)) 0
    (Nat.sub_le _ _) (by simpa using hA)
  simp only [List.drop_zero, Nat.sub_zero, Nat.zero_max] at hp
  -- the bytes parsed are all but the last `LOOKAHEAD_SIZE - 1`
  have hrest : (buf.drop (buf.length - (LOOKAHEAD_SIZE - 1))).length = LOOKAHEAD_SIZE - 1 := by
    simp only [List.length_drop]
    omega
  simp only [xmlParseRest, hbuf, if_true, hp, Int.toNat_natCast, hrest]
  simp

/-- A chunk shorter than `LOOKAHEAD_SIZE - 1`, arriving when the pending bytes
and the chunk together are more than `LOOKAHEAD_SIZE - 1`, is copied after the
pending bytes; what is parsed ends before the chunk, and the bytes left
pending are the old ones that were not parsed. The chunk is dropped. -/
theorem xmlParse_drops_short_chunk (hm : ∀ s b bs, A b → m.scan s (b :: bs) = some (f s b, 1))
    (s : XMLState σ) (buf : List UInt8) (hpos : 0 < s.lookaheadSize)
    (hbuf : buf.length < LOOKAHEAD_SIZE - 1)
    (hover : LOOKAHEAD_SIZE - 1 < s.lookaheadSize + buf.length)
    (hroom : s.lookaheadSize + buf.length ≤ s.lookaheadBuf.length)
    (hA : ∀ b ∈ s.lookaheadBuf.take (s.lookaheadSize + buf.length - (LOOKAHEAD_SIZE - 1)),
      A b) :
    xmlParse m s buf =
      (0, { machine :=
              (s.lookaheadBuf.take (s.lookaheadSize + buf.length - (LOOKAHEAD_SIZE - 1))).foldl f
                s.machine,
            lookaheadSize := LOOKAHEAD_SIZE - 1 - buf.length,
            lookaheadBuf := memcpyAt (memcpyAt s.lookaheadBuf s.lookaheadSize buf buf.length) 0
              ((memcpyAt s.lookaheadBuf s.lookaheadSize buf buf.length).drop
                (s.lookaheadSize + buf.length - (LOOKAHEAD_SIZE - 1)))
              (LOOKAHEAD_SIZE - 1 - buf.length) }) := by
  have hmin : min (LOOKAHEAD_SIZE - 1) buf.length = buf.length :=
    Nat.min_eq_right (Nat.le_of_lt hbuf)
  -- the bytes parsed are pending ones: the copy of the chunk starts past them
  have hpre : (memcpyAt s.lookaheadBuf s.lookaheadSize buf buf.length).take
      (s.lookaheadSize + buf.length - (LOOKAHEAD_SIZE - 1)) =
      s.lookaheadBuf.take (s.lookaheadSize + buf.length - (LOOKAHEAD_SIZE - 1)) := by
    rw [memcpyAt, List.append_assoc, List.take_append_of_le_length (by simp; omega),
      List.take_take, Nat.min_eq_left (by omega)]
  have hp := parseInternal_bytes hm s.machine (memcpyAt s.lookaheadBuf s.lookaheadSize buf
    buf.length) (s.lookaheadSize + buf.length - (LOOKAHEAD_SIZE - 1)) 0
    (by simp [memcpyAt]; omega) (by simpa [hpre] using hA)
  simp only [List.drop_zero, Nat.sub_zero, Nat.zero_max, hpre] at hp
  simp only [xmlParse, hpos, if_true, hmin, hover, hp, Int.toNat_natCast]
  -- the parse stops before the copied chunk, so bytes stay pending and the call returns
  simp only [
    show ¬ ((s.lookaheadSize + buf.length - (LOOKAHEAD_SIZE - 1) : Nat) : Int) < 0 by omega,
    if_false, show s.lookaheadSize + buf.length - (LOOKAHEAD_SIZE - 1) ≤ s.lookaheadSize by omega,
    if_true, show s.lookaheadSize - (s.lookaheadSize + buf.length - (LOOKAHEAD_SIZE - 1)) =
      LOOKAHEAD_SIZE - 1 - buf.length by omega]
  rw [if_pos (by omega)]

/-- `xml_end` folds the machine over the pending bytes. -/
theorem xmlEnd_bytes (hm : ∀ s b bs, A b → m.scan s (b :: bs) = some (f s b, 1))
    (s : XMLState σ) (hroom : s.lookaheadSize ≤ s.lookaheadBuf.length)
    (hA : ∀ b ∈ s.lookaheadBuf.take s.lookaheadSize, A b) :
    xmlEnd m s = (s.lookaheadBuf.take s.lookaheadSize).foldl f s.machine := by
  unfold xmlEnd
  split
  · -- the NUL written at the end is past the bytes parsed
    have hset : (s.lookaheadBuf.set s.lookaheadSize 0).take s.lookaheadSize =
        s.lookaheadBuf.take s.lookaheadSize := List.take_set_of_le (Nat.le_refl _)
    rw [parseInternal_bytes hm _ _ _ 0 (by simpa using hroom) (by simpa [hset] using hA)]
    simp [hset]
  · rename_i h
    simp [Nat.eq_zero_of_not_pos h]

end ByteMachine

/-! ## A chunk that is dropped -/

/-- A document of twenty bytes `a` and ten bytes `b`, given in two chunks
split between them, and in one piece: to a machine that reads one byte a turn,
the two chunks hand the first twenty bytes only, the piece all thirty. -/
theorem xmlParse_drops_chunk (m : XmlMachine σ) (f : σ → UInt8 → σ)
    (hm : ∀ s b bs, (b = 0x61 ∨ b = 0x62) → m.scan s (b :: bs) = some (f s b, 1))
    (s₀ : σ) :
    xmlEnd m (xmlParseChunks m (xmlBegin s₀)
        [List.replicate 20 (0x61 : UInt8), List.replicate 10 (0x62 : UInt8)]) =
        (List.replicate 20 (0x61 : UInt8)).foldl f s₀ ∧
      xmlEnd m (xmlParseChunks m (xmlBegin s₀)
        [List.replicate 20 (0x61 : UInt8) ++ List.replicate 10 (0x62 : UInt8)]) =
        (List.replicate 20 (0x61 : UInt8) ++ List.replicate 10 (0x62 : UInt8)).foldl f s₀ := by
  constructor
  · -- the first chunk leaves 15 bytes pending
    have h₁ : xmlParse m (xmlBegin s₀) (List.replicate 20 0x61) =
        (0, { machine := (List.replicate 5 (0x61 : UInt8)).foldl f s₀, lookaheadSize := 15,
              lookaheadBuf := List.replicate 15 0x61 ++ List.replicate 17 0 }) := by
      rw [xmlParse, if_neg (by simp [xmlBegin]),
        xmlParseRest_bytes hm _ _ (by simp [LOOKAHEAD_SIZE]) (by simp [LOOKAHEAD_SIZE])]
      simp [xmlBegin, memcpyAt, LOOKAHEAD_SIZE]
    -- the second is copied after them, but only ten pending bytes are parsed
    have h₂ : xmlParse m
          { machine := (List.replicate 5 (0x61 : UInt8)).foldl f s₀, lookaheadSize := 15,
            lookaheadBuf := List.replicate 15 0x61 ++ List.replicate 17 0 }
          (List.replicate 10 0x62) =
        (0, { machine := (List.replicate 10 (0x61 : UInt8)).foldl f
                ((List.replicate 5 (0x61 : UInt8)).foldl f s₀),
              lookaheadSize := 5,
              lookaheadBuf := List.replicate 15 0x61 ++ List.replicate 10 0x62 ++
                List.replicate 7 0 }) := by
      rw [xmlParse_drops_short_chunk hm _ _ (by simp) (by simp [LOOKAHEAD_SIZE])
        (by simp [LOOKAHEAD_SIZE]) (by simp) (by simp [LOOKAHEAD_SIZE])]
      simp [memcpyAt, LOOKAHEAD_SIZE]
    -- `xml_end` parses the five bytes left pending, all from the first chunk
    simp only [xmlParseChunks, h₁, h₂]
    rw [xmlEnd_bytes hm _ (by simp) (by simp), ← List.foldl_append, ← List.foldl_append]
    congr 1
  · -- in one piece: fifteen bytes parsed, fifteen pending, then parsed by `xml_end`
    have h : xmlParse m (xmlBegin s₀) (List.replicate 20 0x61 ++ List.replicate 10 0x62) =
        (0, { machine := (List.replicate 15 (0x61 : UInt8)).foldl f s₀, lookaheadSize := 15,
              lookaheadBuf := List.replicate 5 0x61 ++ List.replicate 10 0x62 ++
                List.replicate 17 0 }) := by
      rw [xmlParse, if_neg (by simp [xmlBegin]),
        xmlParseRest_bytes hm _ _ (by simp [LOOKAHEAD_SIZE]) (by simp [LOOKAHEAD_SIZE])]
      simp [xmlBegin, memcpyAt, LOOKAHEAD_SIZE]
    simp only [xmlParseChunks, h]
    rw [xmlEnd_bytes hm _ (by simp) (by simp), ← List.foldl_append]
    congr 1

/-- A machine that records the bytes it is handed, one a turn. -/
def recorder : XmlMachine (List UInt8) where
  scan s bytes := some (s ++ [bytes.headD 0], 1)
  scan_pos _ _ _ _ h := by
    cases h
    exact Nat.one_pos

theorem xmlParse_drops_chunk_recorded :
    (∀ s b bs, (b = 0x61 ∨ b = 0x62) → recorder.scan s (b :: bs) = some (s ++ [b], 1)) ∧
      xmlEnd recorder (xmlParseChunks recorder (xmlBegin [])
          [List.replicate 20 (0x61 : UInt8), List.replicate 10 (0x62 : UInt8)]) =
        List.replicate 20 0x61 ∧
      xmlEnd recorder (xmlParseChunks recorder (xmlBegin [])
          [List.replicate 20 (0x61 : UInt8) ++ List.replicate 10 (0x62 : UInt8)]) =
        List.replicate 20 0x61 ++ List.replicate 10 0x62 := by
  have hm :
      ∀ s b bs, (b = 0x61 ∨ b = 0x62) → recorder.scan s (b :: bs) = some (s ++ [b], 1) :=
    fun _ _ _ _ => rfl
  obtain ⟨h₁, h₂⟩ := xmlParse_drops_chunk recorder (fun s b => s ++ [b]) hm []
  refine ⟨hm, ?_, ?_⟩
  · rw [h₁]
    decide
  · rw [h₂]
    decide

end Qemacs.Xml
