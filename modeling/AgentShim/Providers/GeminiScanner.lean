import AgentShim.Core.Json
import AgentShim.Lib.JsonText
import AgentShim.Lib.Transducer

/-
  The Gemini array scanner

  A Gemini stream is one JSON array, sent in chunks that end anywhere. The scanner
  reads it byte by byte: it counts braces outside strings, keeps the bytes of the
  open object, and decodes them when its last brace comes.

  What is proved:
    1. `scan_of_flatten` — the chunks are read as their bytes, wherever they end.
    2. `framed_object` — a JSON object is read from its first brace to its last
       without leaving it, whatever strings and brackets it holds.
    3. `scan_exact` — on an array of objects the items are its elements, decoded,
       and a stream that ends early is reported iff it ends inside an element.
    4. `deep_unframed` — an object with more braces open than a `u32` counts is not
       read as one.

  Correspondence (Rust ↔ Lean):
    `Scanner`                          ↔ `Scanner`; `depth` is a `u32`
    `Scanner::feed`, one byte of it    ↔ `feed`, `feedByte`, its parts by the state:
                                          `beforeArray`, `betweenObjects`,
                                          `insideString`, `insideObject`
    `Scanner::finalize`                ↔ `Scanner.finalize`
    `is_json_whitespace`               ↔ `isWs`
    `serde_json::from_slice`           ↔ a parameter, `decode`
    all that a stream of chunks gives  ↔ `scan`
-/

namespace AgentShim.GeminiScanner

open Transducer JsonText

structure Scanner where
  buf : Bytes := []
  started : Bool := false
  finished : Bool := false
  depth : Nat := 0
  inString : Bool := false
  escapePending : Bool := false
  deriving DecidableEq, Repr

/-- Two hexadecimal digits. -/
def hexByte (byte : UInt8) : String :=
  String.ofList [Nat.digitChar (byte.toNat / 16), Nat.digitChar (byte.toNat % 16)]

section Scan

variable {R : Type} (decode : Bytes → Except String R)

/-- What an object's bytes are decoded to. -/
def decoded (buf : Bytes) : Except StreamError R :=
  match decode buf with
  | .ok resp => .ok resp
  | .error e => .error (.decode s!"failed to decode Gemini stream object: {e}")

def beforeArray (byte : UInt8) : Emitter Scanner (Except StreamError R) := fun s =>
  if isWs byte then (s, [])
  else if byte = 0x5b then ({ s with started := true }, [])
  else
    ({ s with finished := true },
      [.error (.decode ("expected `[` at start of Gemini stream, got byte 0x" ++ hexByte byte))])

/-- A byte with no place between two elements. -/
def strayByte (byte : UInt8) : StreamError :=
  .decode s!"unexpected byte 0x{hexByte byte} between Gemini stream objects"

def betweenObjects (byte : UInt8) : Emitter Scanner (Except StreamError R) := fun s =>
  if byte = 0x7b then ({ s with depth := 1, buf := s.buf ++ [byte] }, [])
  else if byte = 0x5d then ({ s with finished := true }, [])
  else if isWs byte || byte == 0x2c then (s, [])
  else (s, [.error (strayByte byte)])

def insideString (byte : UInt8) : Emitter Scanner (Except StreamError R) := fun s =>
  if s.escapePending then ({ s with escapePending := false }, [])
  else if byte = 0x5c then ({ s with escapePending := true }, [])
  else if byte = 0x22 then ({ s with inString := false }, [])
  else (s, [])

def insideObject (byte : UInt8) : Emitter Scanner (Except StreamError R) := fun s =>
  if byte = 0x22 then ({ s with inString := true }, [])
  else if byte = 0x7b then ({ s with depth := Wire.addU32 s.depth 1 }, [])
  else if byte = 0x7d then
    if Wire.subU32 s.depth 1 = 0 then ({ s with depth := 0, buf := [] }, [decoded decode s.buf])
    else ({ s with depth := Wire.subU32 s.depth 1 }, [])
  else (s, [])

def feedByte (byte : UInt8) : Emitter Scanner (Except StreamError R) := fun s =>
  if s.finished then (s, [])
  else if !s.started then beforeArray byte s
  else if s.depth = 0 then betweenObjects byte s
  else if s.inString then insideString byte { s with buf := s.buf ++ [byte] }
  else insideObject decode byte { s with buf := s.buf ++ [byte] }

def feed (chunk : Bytes) : Emitter Scanner (Except StreamError R) := forEach (feedByte decode) chunk

def Scanner.finalize (s : Scanner) : Option StreamError :=
  if 0 < s.depth || s.inString then
    some (.decode s!"Gemini stream ended mid-object (depth={s.depth}, in_string={s.inString})")
  else none

/-- The scanner after all chunks, and what it has put out. -/
def feedAll (chunks : List Bytes) : Scanner × List (Except StreamError R) :=
  forEach (feed decode) chunks {}

/-- Everything a stream of chunks gives. -/
def scan (chunks : List Bytes) : List (Except StreamError R) :=
  (feedAll decode chunks).2 ++ (feedAll decode chunks).1.finalize.toList.map .error

/-- The chunks are read as their bytes. -/
theorem feedAll_eq (chunks : List Bytes) :
    feedAll decode chunks = feed decode chunks.flatten {} := by
  have hflat : forEach (feed decode) chunks = forEach (feedByte decode) (chunks.flatMap id) :=
    forEach_flatMap (fun _ => rfl) chunks
  rw [feedAll, hflat, List.flatMap_id, feed]

theorem scan_of_flatten {chunks chunks' : List Bytes} (h : chunks.flatten = chunks'.flatten) :
    scan decode chunks = scan decode chunks' := by
  rw [scan, scan, feedAll_eq, feedAll_eq, h]

/-! ## Inside an object -/

/-- Between two elements. -/
def idle : Scanner := { started := true }

/-- In an object, outside its strings. -/
def inside (depth : Nat) (buf : Bytes) : Scanner := { buf := buf, started := true, depth := depth }

/-- In a string of an object. -/
def quoting (depth : Nat) (buf : Bytes) : Scanner := { inside depth buf with inString := true }

/-- After a backslash. -/
def escaping (depth : Nat) (buf : Bytes) : Scanner :=
  { quoting depth buf with escapePending := true }

/-- Reading the bytes puts nothing out and does not leave the object. -/
inductive Stays : Scanner → Bytes → Scanner → Prop
  | done (s : Scanner) : Stays s [] s
  | next {s m s' : Scanner} {b : UInt8} {bytes : Bytes} (h : feedByte decode b s = (m, []))
      (hdepth : 0 < m.depth) (hrest : Stays m bytes s') : Stays s (b :: bytes) s'

variable {decode}

namespace Stays

theorem single {s m : Scanner} {b : UInt8} (h : feedByte decode b s = (m, []))
    (hdepth : 0 < m.depth) : Stays decode s [b] m := .next h hdepth (.done m)

theorem append {s m s' : Scanner} {a b : Bytes} (h : Stays decode s a m)
    (h' : Stays decode m b s') : Stays decode s (a ++ b) s' := by
  induction h with
  | done s => exact h'
  | next hbyte hdepth _ ih => exact .next hbyte hdepth (ih h')

theorem split {s s' : Scanner} {a b : Bytes} (h : Stays decode s (a ++ b) s') :
    ∃ m, Stays decode s a m ∧ Stays decode m b s' := by
  induction a generalizing s with
  | nil => exact ⟨s, .done s, h⟩
  | cons x a ih =>
    cases h with
    | next hbyte hdepth hrest =>
      obtain ⟨m, hfront, hback⟩ := ih hrest
      exact ⟨m, .next hbyte hdepth hfront, hback⟩

theorem feed {s s' : Scanner} {bytes : Bytes} (h : Stays decode s bytes s') :
    GeminiScanner.feed decode bytes s = (s', []) := by
  induction h with
  | done s => rfl
  | next hbyte _ _ ih =>
    rw [GeminiScanner.feed] at ih ⊢
    rw [forEach_cons, andThen_apply, hbyte, ih]
    rfl

theorem depth_pos {s s' : Scanner} {bytes : Bytes} (h : Stays decode s bytes s')
    (hs : 0 < s.depth) : 0 < s'.depth := by
  induction h with
  | done s => exact hs
  | next _ hdepth _ ih => exact ih hdepth

end Stays

section Bytes

variable {depth : Nat} {buf : Bytes} {b : UInt8}

theorem feedByte_inside (hdepth : 0 < depth) :
    feedByte decode b (inside depth buf) = insideObject decode b (inside depth (buf ++ [b])) := by
  have hne : depth ≠ 0 := Nat.ne_of_gt hdepth
  simp [feedByte, inside, hne]

theorem feedByte_quoting (hdepth : 0 < depth) :
    feedByte decode b (quoting depth buf) = insideString b (quoting depth (buf ++ [b])) := by
  have hne : depth ≠ 0 := Nat.ne_of_gt hdepth
  simp [feedByte, quoting, inside, hne]

theorem feedByte_escaping (hdepth : 0 < depth) :
    feedByte decode b (escaping depth buf) = (quoting depth (buf ++ [b]), []) := by
  have hne : depth ≠ 0 := Nat.ne_of_gt hdepth
  simp [feedByte, escaping, quoting, inside, insideString, hne]

/-- A byte that is no quote and no brace. -/
theorem stays_byte (hdepth : 0 < depth) (hquote : b ≠ 0x22) (hopen : b ≠ 0x7b)
    (hclose : b ≠ 0x7d) : Stays decode (inside depth buf) [b] (inside depth (buf ++ [b])) := by
  refine .single ?_ hdepth
  rw [feedByte_inside hdepth, insideObject, if_neg hquote, if_neg hopen, if_neg hclose]

theorem stays_run {bytes : Bytes} (hdepth : 0 < depth) (h : ∀ b ∈ bytes, isPlain b = true) :
    Stays decode (inside depth buf) bytes (inside depth (buf ++ bytes)) := by
  induction bytes generalizing buf with
  | nil =>
    rw [List.append_nil]
    exact .done _
  | cons b bytes ih =>
    have hb := h b List.mem_cons_self
    simp only [isPlain, Bool.and_eq_true, bne_iff_ne] at hb
    have hrest : Stays decode (inside depth (buf ++ [b])) bytes
        (inside depth (buf ++ [b] ++ bytes)) := ih fun x hx => h x (List.mem_cons_of_mem _ hx)
    rw [List.append_assoc] at hrest
    exact (stays_byte hdepth hb.1.1.1.1 hb.1.1.1.2 hb.1.1.2).append hrest

theorem stays_stringByte (hdepth : 0 < depth) (h : isStringByte b = true) :
    Stays decode (quoting depth buf) [b] (quoting depth (buf ++ [b])) := by
  simp only [isStringByte, Bool.and_eq_true, bne_iff_ne] at h
  have hfree : ¬ (quoting depth (buf ++ [b])).escapePending = true := Bool.false_ne_true
  refine .single ?_ hdepth
  rw [feedByte_quoting hdepth, insideString, if_neg hfree, if_neg h.2, if_neg h.1.2]

theorem stays_stringBytes {bytes : Bytes} (hdepth : 0 < depth)
    (h : ∀ b ∈ bytes, isStringByte b = true) :
    Stays decode (quoting depth buf) bytes (quoting depth (buf ++ bytes)) := by
  induction bytes generalizing buf with
  | nil =>
    rw [List.append_nil]
    exact .done _
  | cons b bytes ih =>
    have hrest : Stays decode (quoting depth (buf ++ [b])) bytes
        (quoting depth (buf ++ [b] ++ bytes)) := ih fun x hx => h x (List.mem_cons_of_mem _ hx)
    rw [List.append_assoc] at hrest
    exact (stays_stringByte hdepth (h b List.mem_cons_self)).append hrest

/-- A backslash and the byte it escapes. -/
theorem stays_escape (hdepth : 0 < depth) :
    Stays decode (quoting depth buf) [0x5c, b] (quoting depth (buf ++ [0x5c, b])) := by
  have hslash : feedByte decode 0x5c (quoting depth buf) =
      (escaping depth (buf ++ [0x5c]), []) := by
    rw [feedByte_quoting hdepth]
    rfl
  refine .next hslash hdepth (.single ?_ hdepth)
  rw [feedByte_escaping hdepth, List.append_assoc]
  rfl

theorem isStringByte_of_isHex (h : isHex b = true) : isStringByte b = true := by
  simp only [isHex, isDigit, isStringByte, Bool.or_eq_true, Bool.and_eq_true, decide_eq_true_eq,
    bne_iff_ne, ne_eq] at h ⊢
  refine ⟨⟨?_, ?_⟩, ?_⟩
  · rcases h with (⟨hle, -⟩ | ⟨hle, -⟩) | ⟨hle, -⟩
    · exact UInt8.le_trans (by decide) hle
    · exact UInt8.le_trans (by decide) hle
    · exact UInt8.le_trans (by decide) hle
  · rintro rfl
    revert h
    decide
  · rintro rfl
    revert h
    decide

theorem stays_piece (hdepth : 0 < depth) (p : Piece) :
    Stays decode (quoting depth buf) p.bytes (quoting depth (buf ++ p.bytes)) := by
  cases p with
  | byte b hb => exact stays_stringByte hdepth hb
  | escape e => exact stays_escape hdepth
  | unicode u =>
    -- the four digits after the escaped letter are bytes like any other
    have hhex : ∀ b ∈ u.bytes, isStringByte b = true := by
      intro b hb
      obtain ⟨ha, hb', hc, hd⟩ := u.hex
      simp only [Hex4.bytes, List.mem_cons, List.not_mem_nil, or_false] at hb
      rcases hb with rfl | rfl | rfl | rfl
      · exact isStringByte_of_isHex ha
      · exact isStringByte_of_isHex hb'
      · exact isStringByte_of_isHex hc
      · exact isStringByte_of_isHex hd
    have hdigits : Stays decode (quoting depth (buf ++ [0x5c, 0x75])) u.bytes
        (quoting depth (buf ++ [0x5c, 0x75] ++ u.bytes)) := stays_stringBytes hdepth hhex
    rw [List.append_assoc] at hdigits
    exact (stays_escape hdepth).append hdigits

theorem stays_spelling (hdepth : 0 < depth) (s : List Piece) :
    Stays decode (quoting depth buf) (spelling s) (quoting depth (buf ++ spelling s)) := by
  induction s generalizing buf with
  | nil =>
    rw [spelling, List.flatMap_nil, List.append_nil]
    exact .done _
  | cons p s ih =>
    have hsplit : spelling (p :: s) = p.bytes ++ spelling s := List.flatMap_cons
    have hrest : Stays decode (quoting depth (buf ++ p.bytes)) (spelling s)
        (quoting depth (buf ++ p.bytes ++ spelling s)) := ih
    rw [List.append_assoc] at hrest
    rw [hsplit]
    exact (stays_piece hdepth p).append hrest

/-- A string, from quote to quote. -/
theorem stays_string (hdepth : 0 < depth) (s : List Piece) :
    Stays decode (inside depth buf) (quoted (spelling s))
      (inside depth (buf ++ quoted (spelling s))) := by
  have hopen : feedByte decode 0x22 (inside depth buf) = (quoting depth (buf ++ [0x22]), []) := by
    rw [feedByte_inside hdepth]
    rfl
  have hclose : feedByte decode 0x22 (quoting depth (buf ++ [0x22] ++ spelling s)) =
      (inside depth (buf ++ [0x22] ++ spelling s ++ [0x22]), []) := by
    rw [feedByte_quoting hdepth]
    rfl
  have hstring := Stays.next hopen hdepth
    ((stays_spelling hdepth s).append (.single hclose hdepth))
  simpa [quoted, List.append_assoc] using hstring

end Bytes

/-! ## Objects -/

theorem addU32_one {level : Nat} (h : level + 1 < 4294967296) :
    Wire.addU32 level 1 = level + 1 := Nat.mod_eq_of_lt h

theorem subU32_one {level : Nat} (h : level + 1 < 4294967296) :
    Wire.subU32 (level + 1) 1 = level := by
  unfold Wire.subU32
  omega

/-- A brace outside strings. -/
theorem feedByte_open {depth : Nat} (buf : Bytes) (hdepth : 0 < depth) :
    feedByte decode 0x7b (inside depth buf) =
      (inside (Wire.addU32 depth 1) (buf ++ [0x7b]), []) := by
  rw [feedByte_inside hdepth, insideObject, if_neg (by decide), if_pos rfl]
  rfl

theorem feedByte_close {depth : Nat} (buf : Bytes) (hdepth : 0 < depth) :
    feedByte decode 0x7d (inside depth buf) =
      if Wire.subU32 depth 1 = 0 then (idle, [decoded decode (buf ++ [0x7d])])
      else (inside (Wire.subU32 depth 1) (buf ++ [0x7d]), []) := by
  rw [feedByte_inside hdepth, insideObject, if_neg (by decide), if_neg (by decide), if_pos rfl]
  rfl

/-- A token moves the count of braces as it moves their level. -/
theorem stays_token {top level level' : Nat} {t : Token} {buf : Bytes} (htop : top + 1 < 4294967296)
    (hlevel : level ≤ top) (h : t.step .brace top level = some level') :
    Stays decode (inside (level + 1) buf) t.bytes (inside (level' + 1) (buf ++ t.bytes)) := by
  have hdepth : 0 < level + 1 := Nat.succ_pos _
  cases t with
  | run r =>
    cases h
    exact stays_run hdepth r.plain
  | string s =>
    cases h
    exact stays_string hdepth s
  | opening k =>
    cases k with
    | square =>
      cases h
      exact stays_byte hdepth (by decide) (by decide) (by decide)
    | brace =>
      rw [Token.step, if_pos rfl] at h
      split at h
      · rename_i hlt
        cases h
        refine .single ?_ (Nat.succ_pos _)
        show feedByte decode 0x7b (inside (level + 1) buf) = _
        rw [feedByte_open buf hdepth, addU32_one (by omega)]
        rfl
      · cases h
  | closing k =>
    cases k with
    | square =>
      cases h
      exact stays_byte hdepth (by decide) (by decide) (by decide)
    | brace =>
      rw [Token.step, if_pos rfl] at h
      split at h
      · cases h
      · rename_i hne
        cases h
        have hsub : Wire.subU32 (level + 1) 1 = level := subU32_one (by omega)
        have hlevel' : level - 1 + 1 = level := Nat.sub_one_add_one hne
        rw [hlevel']
        refine .single ?_ (Nat.pos_of_ne_zero hne)
        show feedByte decode 0x7d (inside (level + 1) buf) = _
        rw [feedByte_close buf hdepth, hsub, if_neg hne]
        rfl

theorem stays_tokens {top level level' : Nat} {ts : List Token} {buf : Bytes}
    (htop : top + 1 < 4294967296) (hlevel : level ≤ top)
    (h : walk .brace top level ts = some level') :
    Stays decode (inside (level + 1) buf) (bytesOf ts)
      (inside (level' + 1) (buf ++ bytesOf ts)) := by
  induction ts generalizing level buf with
  | nil =>
    cases h
    rw [bytesOf, List.flatMap_nil, List.append_nil]
    exact .done _
  | cons t ts ih =>
    rw [walk, List.foldlM_cons] at h
    obtain ⟨m, hstep, hrest⟩ := Option.bind_eq_some_iff.mp h
    have hm := Token.step_le hstep hlevel
    have htail : Stays decode (inside (m + 1) (buf ++ t.bytes)) (bytesOf ts)
        (inside (level' + 1) (buf ++ t.bytes ++ bytesOf ts)) := ih hm hrest
    rw [List.append_assoc] at htail
    rw [bytesOf_cons]
    exact (stays_token htop hlevel hstep).append htail

variable (decode) in
/-- Bytes from a first brace to a last one, read without leaving the object. -/
def Framed (bytes : Bytes) : Prop :=
  ∃ inner, bytes = 0x7b :: (inner ++ [0x7d]) ∧
    Stays decode (inside 1 [0x7b]) inner (inside 1 (0x7b :: inner))

/-- An object. -/
def IsObject (t : Text) : Prop := ∃ ws members, t = .object ws members

theorem framed_object {t : Text} (hobject : IsObject t) (hdepth : t.depthOf .brace < 4294967296) :
    Framed decode t.bytes := by
  obtain ⟨ws, members, rfl⟩ := hobject
  refine ⟨_, bytes_object ws members, ?_⟩
  have hhere : 1 ≤ (Text.object ws members).depthOf .brace := Nat.le_add_left _ _
  have hinner : walk .brace ((Text.object ws members).depthOf .brace - 1) 0
      (.run ws.run :: joined (members.map Member.tokens)) = some 0 := by
    rw [walk_run]
    apply walk_members
    intro m hm
    have hle := Text.depthOf_member .brace ws hm
    rw [if_pos rfl] at hle
    omega
  exact stays_tokens (by omega) (Nat.zero_le _) hinner

theorem feed_append (a b : Bytes) (s : Scanner) :
    feed decode (a ++ b) s = andThen (feed decode a) (feed decode b) s := by
  rw [feed, forEach_append]
  rfl

/-- Reading bytes and then others. -/
theorem feed_trans {a b : Bytes} {s m s' : Scanner} {out out' : List (Except StreamError R)}
    (ha : feed decode a s = (m, out)) (hb : feed decode b m = (s', out')) :
    feed decode (a ++ b) s = (s', out ++ out') := by
  rw [feed_append, andThen_apply, ha, hb]

theorem feed_open : feed decode [0x7b] idle = (inside 1 [0x7b], []) := rfl

/-- The last brace of an object. -/
theorem feed_close (buf : Bytes) :
    feed decode [0x7d] (inside 1 buf) = (idle, [decoded decode (buf ++ [0x7d])]) := by
  have hsub : Wire.subU32 (0 + 1) 1 = 0 := subU32_one (by decide)
  rw [feed, forEach_singleton, feedByte_close buf Nat.one_pos, hsub, if_pos rfl]

theorem Framed.feed {bytes : Bytes} (h : Framed decode bytes) :
    feed decode bytes idle = (idle, [decoded decode bytes]) := by
  obtain ⟨inner, rfl, hinner⟩ := h
  calc GeminiScanner.feed decode (0x7b :: (inner ++ [0x7d])) idle
      = andThen (GeminiScanner.feed decode inner) (GeminiScanner.feed decode [0x7d])
          (inside 1 [0x7b]) := feed_append inner [0x7d] _
    _ = (idle, [decoded decode (0x7b :: (inner ++ [0x7d]))]) := by
        rw [andThen_apply, hinner.feed, feed_close]
        rfl

/-- A part of an object, without its end, leaves the scanner in the object. -/
theorem Framed.cut {a b : Bytes} (h : Framed decode (a ++ b)) (ha : a ≠ []) (hb : b ≠ []) :
    ∃ m, GeminiScanner.feed decode a idle = (m, []) ∧ 0 < m.depth := by
  obtain ⟨inner, hbytes, hinner⟩ := h
  obtain ⟨x, a, rfl⟩ := List.exists_cons_of_ne_nil ha
  rcases List.eq_nil_or_concat b with rfl | ⟨b, y, rfl⟩
  · exact absurd rfl hb
  rw [List.cons_append, List.cons.injEq, List.concat_eq_append, ← List.append_assoc] at hbytes
  obtain ⟨rfl, htail⟩ := hbytes
  have hprefix : a ++ b = inner := (List.append_inj' htail rfl).1
  rw [← hprefix] at hinner
  obtain ⟨m, hfront, -⟩ := hinner.split
  refine ⟨m, ?_, hfront.depth_pos Nat.one_pos⟩
  exact hfront.feed

/-! ## Arrays -/

/-- White space and commas, between elements. -/
def isGap (b : UInt8) : Bool := isWs b || b == 0x2c

theorem feed_gap {gap : Bytes} (h : ∀ b ∈ gap, isGap b = true) :
    feed decode gap idle = (idle, []) := by
  induction gap with
  | nil => rfl
  | cons b gap ih =>
    have hb := h b List.mem_cons_self
    have hopen : b ≠ 0x7b := by
      rintro rfl
      revert hb
      decide
    have hclose : b ≠ 0x5d := by
      rintro rfl
      revert hb
      decide
    have hbyte : feedByte decode b idle = (idle, []) := by
      show betweenObjects b idle = _
      have hgap : (isWs b || b == 0x2c) = true := hb
      rw [betweenObjects, if_neg hopen, if_neg hclose, if_pos hgap]
    have hrest := ih fun x hx => h x (List.mem_cons_of_mem _ hx)
    rw [feed] at hrest ⊢
    rw [forEach_cons, andThen_apply, hbyte, hrest]
    rfl

theorem isGap_ws (w : Ws) : ∀ b ∈ w.bytes, isGap b = true := by
  intro b hb
  rw [isGap, w.ws b hb]
  rfl

theorem bytes_elem (e : Elem Text) :
    bytesOf e.tokens = e.before.bytes ++ (e.value.bytes ++ e.after.bytes) := by
  rw [Elem.tokens, bytesOf_cons, bytesOf_append, ← Text.bytes]
  simp [bytesOf, Token.bytes, Ws.run]

theorem feed_elem {e : Elem Text} (h : Framed decode e.value.bytes) :
    feed decode (bytesOf e.tokens) idle = (idle, [decoded decode e.value.bytes]) := by
  rw [bytes_elem]
  exact feed_trans (feed_gap (isGap_ws e.before))
    (feed_trans h.feed (feed_gap (isGap_ws e.after)))

variable (decode) in
/-- What the elements of an array are decoded to. -/
def decodedItems (items : List (Elem Text)) : List (Except StreamError R) :=
  items.map fun e => decoded decode e.value.bytes

theorem feed_comma : feed decode [0x2c] idle = (idle, []) := rfl

theorem feed_rowsBefore {items : List (Elem Text)}
    (h : ∀ e ∈ items, Framed decode e.value.bytes) :
    feed decode (rowsBefore (items.map Elem.tokens)) idle = (idle, decodedItems decode items) := by
  induction items with
  | nil => rfl
  | cons e items ih =>
    have hrest := ih fun x hx => h x (List.mem_cons_of_mem _ hx)
    rw [List.map_cons, rowsBefore_cons]
    exact feed_trans (feed_elem (h e List.mem_cons_self)) (feed_trans feed_comma hrest)

theorem feed_items {items : List (Elem Text)} (h : ∀ e ∈ items, Framed decode e.value.bytes) :
    feed decode (bytesOf (joined (items.map Elem.tokens))) idle =
      (idle, decodedItems decode items) := by
  rcases List.eq_nil_or_concat items with rfl | ⟨pre, e, rfl⟩
  · rfl
  · rw [List.concat_eq_append, List.map_append, List.map_cons, List.map_nil, bytesOf_rows_split]
    have hpre : ∀ x ∈ pre, Framed decode x.value.bytes := fun x hx => h x (by simp [hx])
    have hlast : feed decode (rowsAfter []) idle = (idle, []) := rfl
    rw [feed_trans (feed_rowsBefore hpre) (feed_trans (feed_elem (h e (by simp))) hlast)]
    simp [decodedItems]

/-- A JSON array with white space before it, and any bytes after it. -/
def arrayStream (lead ws : Ws) (items : List (Elem Text)) (rest : Bytes) : Bytes :=
  lead.bytes ++ (Text.array ws items).bytes ++ rest

theorem arrayStream_eq (lead ws : Ws) (items : List (Elem Text)) (rest : Bytes) :
    arrayStream lead ws items rest = lead.bytes ++ 0x5b :: (ws.bytes ++
      (bytesOf (joined (items.map Elem.tokens)) ++ 0x5d :: rest)) := by
  rw [arrayStream, bytes_array, bytesOf_cons]
  simp [Token.bytes, Ws.run]

theorem feed_lead {lead : Bytes} (h : ∀ b ∈ lead, isWs b = true) :
    feed decode lead {} = ({}, []) := by
  induction lead with
  | nil => rfl
  | cons b lead ih =>
    have hbyte : feedByte decode b {} = ({}, []) := by
      show beforeArray b {} = _
      rw [beforeArray, if_pos (h b List.mem_cons_self)]
    have hrest := ih fun x hx => h x (List.mem_cons_of_mem _ hx)
    rw [feed] at hrest ⊢
    rw [forEach_cons, andThen_apply, hbyte, hrest]
    rfl

/-- Up to the opening bracket nothing is put out. -/
theorem feed_start (lead : Ws) (bytes : Bytes) :
    feed decode (lead.bytes ++ 0x5b :: bytes) {} = feed decode bytes idle := by
  calc feed decode (lead.bytes ++ 0x5b :: bytes) {}
      = andThen (feed decode lead.bytes) (feed decode (0x5b :: bytes)) {} := feed_append _ _ _
    _ = feed decode (0x5b :: bytes) {} := by
        rw [andThen_apply, feed_lead lead.ws]
        rfl
    _ = feed decode bytes idle := rfl

theorem feed_finished {s : Scanner} (h : s.finished = true) (bytes : Bytes) :
    feed decode bytes s = (s, []) := by
  induction bytes with
  | nil => rfl
  | cons b bytes ih =>
    have hbyte : feedByte decode b s = (s, []) := if_pos h
    rw [feed] at ih ⊢
    rw [forEach_cons, andThen_apply, hbyte, ih]
    rfl

/-- Past the closing bracket. -/
def ended : Scanner := { idle with finished := true }

theorem feed_end (rest : Bytes) : feed decode (0x5d :: rest) idle = (ended, []) := by
  calc feed decode (0x5d :: rest) idle
      = andThen (feed decode [0x5d]) (feed decode rest) idle := feed_append [0x5d] rest idle
    _ = (ended, []) := by
        have hlast : feed decode [0x5d] idle = (ended, []) := rfl
        rw [andThen_apply, hlast, feed_finished rfl]
        rfl

theorem feed_arrayStream {lead ws : Ws} {items : List (Elem Text)} {rest : Bytes}
    (h : ∀ e ∈ items, Framed decode e.value.bytes) :
    feed decode (arrayStream lead ws items rest) {} = (ended, decodedItems decode items) := by
  rw [arrayStream_eq, feed_start]
  rw [feed_trans (feed_gap (isGap_ws ws)) (feed_trans (feed_items h) (feed_end rest)),
    List.nil_append, List.append_nil]

/-! ## Streams that end early -/

/-- Within an element, after its first byte and before its last, with the elements
`done` before it. -/
def CutAfter (lead ws : Ws) (items done : List (Elem Text)) (front : Bytes) : Prop :=
  ∃ e post a b, items = done ++ e :: post ∧ e.value.bytes = a ++ b ∧ a ≠ [] ∧ b ≠ [] ∧
    front = lead.bytes ++ 0x5b ::
      (ws.bytes ++ (rowsBefore (done.map Elem.tokens) ++ (e.before.bytes ++ a)))

theorem feed_cutAfter {lead ws : Ws} {items done : List (Elem Text)} {front : Bytes}
    (h : ∀ e ∈ items, Framed decode e.value.bytes) (hcut : CutAfter lead ws items done front) :
    ∃ m, feed decode front {} = (m, decodedItems decode done) ∧ 0 < m.depth := by
  obtain ⟨e, post, a, b, rfl, hbytes, ha, hb, rfl⟩ := hcut
  have he : Framed decode (a ++ b) := hbytes ▸ h e (by simp)
  have hdone : ∀ x ∈ done, Framed decode x.value.bytes := fun x hx => h x (by simp [hx])
  obtain ⟨m, hpart, hdepth⟩ := he.cut ha hb
  refine ⟨m, ?_, hdepth⟩
  rw [feed_start, feed_trans (feed_gap (isGap_ws ws)) (feed_trans (feed_rowsBefore hdone)
    (feed_trans (feed_gap (isGap_ws e.before)) hpart))]
  simp

theorem cut_elem {e : Elem Text} {front back : Bytes} (h : Framed decode e.value.bytes)
    (hsplit : front ++ back = bytesOf e.tokens) :
    (∃ out, feed decode front idle = (idle, out)) ∨
      ∃ a b, e.value.bytes = a ++ b ∧ a ≠ [] ∧ b ≠ [] ∧ front = e.before.bytes ++ a := by
  have hbefore : feed decode e.before.bytes idle = (idle, []) := feed_gap (isGap_ws e.before)
  rw [bytes_elem] at hsplit
  rcases List.append_eq_append_iff.mp hsplit with ⟨z, hz, -⟩ | ⟨z, rfl, hz⟩
  · refine Or.inl ⟨[], feed_gap fun b hb => isGap_ws e.before b ?_⟩
    rw [hz]
    exact List.mem_append_left _ hb
  rcases List.append_eq_append_iff.mp hz.symm with ⟨y, hy, -⟩ | ⟨y, rfl, hy⟩
  · by_cases hempty : z = []
    · subst hempty
      rw [List.append_nil]
      exact Or.inl ⟨[], hbefore⟩
    by_cases hwhole : y = []
    · subst hwhole
      rw [List.append_nil] at hy
      exact Or.inl ⟨_, feed_trans hbefore (hy ▸ h.feed)⟩
    · exact Or.inr ⟨z, y, hy, hempty, hwhole, rfl⟩
  · refine Or.inl ⟨_, feed_trans hbefore (feed_trans h.feed (feed_gap fun b hb => ?_))⟩
    apply isGap_ws e.after b
    rw [hy]
    exact List.mem_append_left _ hb

theorem cut_items {items : List (Elem Text)} {front back : Bytes}
    (h : ∀ e ∈ items, Framed decode e.value.bytes)
    (hsplit : front ++ back = bytesOf (joined (items.map Elem.tokens))) :
    (∃ out, feed decode front idle = (idle, out)) ∨
      ∃ done e post a b, items = done ++ e :: post ∧ e.value.bytes = a ++ b ∧ a ≠ [] ∧ b ≠ [] ∧
        front = rowsBefore (done.map Elem.tokens) ++ (e.before.bytes ++ a) := by
  induction items generalizing front with
  | nil =>
    obtain ⟨rfl, -⟩ := List.append_eq_nil_iff.mp hsplit
    exact Or.inl ⟨[], rfl⟩
  | cons e items ih =>
    have he := h e List.mem_cons_self
    -- where the cut is in the first element, the elements done are none
    have hfirst : ∀ back', front ++ back' = bytesOf e.tokens →
        (∃ out, feed decode front idle = (idle, out)) ∨
          ∃ done e' post a b, e :: items = done ++ e' :: post ∧ e'.value.bytes = a ++ b ∧
            a ≠ [] ∧ b ≠ [] ∧
            front = rowsBefore (done.map Elem.tokens) ++ (e'.before.bytes ++ a) := by
      intro back' hback
      rcases cut_elem he hback with hidle | ⟨a, b, hbytes, ha, hb, hfront⟩
      · exact Or.inl hidle
      · exact Or.inr ⟨[], e, items, a, b, rfl, hbytes, ha, hb, hfront⟩
    cases items with
    | nil =>
      exact hfirst back
        (by rw [hsplit, List.map_cons, List.map_nil, bytesOf_joined_singleton])
    | cons e' items =>
      rw [List.map_cons, List.map_cons, bytesOf_joined_cons] at hsplit
      rcases List.append_eq_append_iff.mp hsplit with ⟨z, hz, -⟩ | ⟨z, rfl, hz⟩
      · exact hfirst z hz.symm
      cases z with
      | nil =>
        rw [List.append_nil]
        exact Or.inl ⟨_, feed_elem he⟩
      | cons comma z =>
        rw [List.cons_append, List.cons.injEq] at hz
        obtain ⟨rfl, hz⟩ := hz
        rcases ih (fun x hx => h x (List.mem_cons_of_mem _ hx)) hz.symm with
          ⟨out, hidle⟩ | ⟨done, x, post, a, b, hitems, hbytes, ha, hb, rfl⟩
        · exact Or.inl ⟨_, feed_trans (feed_elem he) (feed_trans feed_comma hidle)⟩
        · refine Or.inr ⟨e :: done, x, post, a, b, by rw [hitems]; rfl, hbytes, ha, hb, ?_⟩
          rw [List.map_cons, rowsBefore_cons]
          simp

/-- A stream that ends early ends within an element, or where nothing is open. -/
theorem cut_arrayStream {lead ws : Ws} {items : List (Elem Text)} {rest front back : Bytes}
    (h : ∀ e ∈ items, Framed decode e.value.bytes)
    (hsplit : front ++ back = arrayStream lead ws items rest) :
    (feed decode front {}).1.finalize = none ∨ ∃ done, CutAfter lead ws items done front := by
  rw [arrayStream_eq] at hsplit
  rcases List.append_eq_append_iff.mp hsplit with ⟨z, hz, -⟩ | ⟨z, rfl, hz⟩
  · have hlead : ∀ b ∈ front, isWs b = true := fun b hb =>
      lead.ws b (hz ▸ List.mem_append_left _ hb)
    rw [feed_lead hlead]
    exact Or.inl rfl
  cases z with
  | nil =>
    rw [List.append_nil, feed_lead lead.ws]
    exact Or.inl rfl
  | cons bracket z =>
    rw [List.cons_append, List.cons.injEq] at hz
    obtain ⟨rfl, hz⟩ := hz
    rw [feed_start]
    rcases List.append_eq_append_iff.mp hz.symm with ⟨y, hy, -⟩ | ⟨y, rfl, hy⟩
    · rw [feed_gap fun b hb => isGap_ws ws b (hy ▸ List.mem_append_left _ hb)]
      exact Or.inl rfl
    rcases List.append_eq_append_iff.mp hy.symm with ⟨x, hx, -⟩ | ⟨x, rfl, hx⟩
    · rcases cut_items h hx.symm with
        ⟨out, hidle⟩ | ⟨done, e, post, a, b, hitems, hbytes, ha, hb, rfl⟩
      · rw [feed_trans (feed_gap (isGap_ws ws)) hidle]
        exact Or.inl rfl
      · exact Or.inr ⟨done, e, post, a, b, hitems, hbytes, ha, hb, rfl⟩
    · have hbody := feed_trans (feed_gap (isGap_ws ws)) (feed_items h)
      cases x with
      | nil =>
        rw [List.append_nil, hbody]
        exact Or.inl rfl
      | cons bracket x =>
        rw [List.cons_append, List.cons.injEq] at hx
        obtain ⟨rfl, -⟩ := hx
        rw [← List.append_assoc, feed_trans hbody (feed_end x)]
        exact Or.inl rfl

theorem finalize_of_depth {s : Scanner} (h : 0 < s.depth) : s.finalize.isSome = true := by
  simp [Scanner.finalize, h]

/-- However the stream is cut into chunks the scanner gives the same; on an array of
objects, none with 2^32 braces open, it gives the elements in order, and reports
an end within an element, and no other. -/
theorem scan_exact (decode : Bytes → Except String R) :
    (∀ chunks chunks' : List Bytes, chunks.flatten = chunks'.flatten →
      scan decode chunks = scan decode chunks') ∧
    ∀ (lead ws : Ws) (items : List (Elem Text)) (rest : Bytes),
      (∀ e ∈ items, IsObject e.value ∧ e.value.depthOf .brace < 4294967296) →
      (∀ chunks, chunks.flatten = arrayStream lead ws items rest →
        scan decode chunks = decodedItems decode items) ∧
      ∀ chunks back, chunks.flatten ++ back = arrayStream lead ws items rest →
        (feedAll decode chunks).2 <+: decodedItems decode items ∧
        ((feedAll decode chunks).1.finalize.isSome = true ↔
          ∃ done, CutAfter lead ws items done chunks.flatten) ∧
        ∀ done, CutAfter lead ws items done chunks.flatten →
          (feedAll decode chunks).2 = decodedItems decode done := by
  refine ⟨fun chunks chunks' => scan_of_flatten decode, ?_⟩
  intro lead ws items rest hobjects
  have hframed : ∀ e ∈ items, Framed decode e.value.bytes := fun e he =>
    framed_object (hobjects e he).1 (hobjects e he).2
  have hwhole : feed decode (arrayStream lead ws items rest) {} =
      (ended, decodedItems decode items) := feed_arrayStream hframed
  refine ⟨?_, ?_⟩
  · intro chunks hchunks
    rw [scan, feedAll_eq, hchunks, hwhole]
    exact List.append_nil _
  · intro chunks back hsplit
    rw [feedAll_eq]
    refine ⟨?_, ⟨?_, ?_⟩, ?_⟩
    · rw [← hsplit, feed_append, andThen_apply, Prod.mk.injEq] at hwhole
      exact ⟨_, hwhole.2⟩
    · intro hsome
      rcases cut_arrayStream hframed hsplit with hnone | hcut
      · rw [hnone] at hsome
        cases hsome
      · exact hcut
    · rintro ⟨done, hcut⟩
      obtain ⟨m, hfeed, hdepth⟩ := feed_cutAfter hframed hcut
      rw [hfeed]
      exact finalize_of_depth hdepth
    · intro done hcut
      obtain ⟨m, hfeed, -⟩ := feed_cutAfter hframed hcut
      rw [hfeed]

/-! ## Objects nested too deep -/

/-- An empty object in so many others. -/
def nestedObject : Nat → Text
  | 0 => .object .none []
  | n + 1 => .object .none [⟨.none, [], .none, .none, nestedObject n, .none⟩]

/-- The bytes of an empty key, from its quotes to the colon. -/
def emptyKey : Bytes := [0x22, 0x22, 0x3a]

theorem nestedObject_zero : (nestedObject 0).bytes = [0x7b, 0x7d] := by
  rw [nestedObject, bytes_object]
  rfl

theorem nestedObject_succ (n : Nat) :
    (nestedObject (n + 1)).bytes = 0x7b :: (emptyKey ++ ((nestedObject n).bytes ++ [0x7d])) := by
  rw [nestedObject, bytes_object, List.map_cons, List.map_nil, bytesOf_cons,
    bytesOf_joined_singleton, bytes_member]
  simp [Token.bytes, Ws.run, Ws.none, spelling, emptyKey]

theorem isObject_nestedObject (n : Nat) : IsObject (nestedObject n) := by
  cases n with
  | zero => exact ⟨_, _, rfl⟩
  | succ n => exact ⟨_, _, rfl⟩

theorem stays_emptyKey {depth : Nat} (buf : Bytes) (hdepth : 0 < depth) :
    Stays decode (inside depth buf) emptyKey (inside depth (buf ++ emptyKey)) := by
  have hstring : Stays decode (inside depth buf) [0x22, 0x22]
      (inside depth (buf ++ [0x22, 0x22])) :=
    stays_string hdepth []
  have hcolon : Stays decode (inside depth (buf ++ [0x22, 0x22])) [0x3a]
      (inside depth (buf ++ [0x22, 0x22] ++ [0x3a])) :=
    stays_byte hdepth (by decide) (by decide) (by decide)
  rw [List.append_assoc] at hcolon
  exact hstring.append hcolon

/-- A closing brace where the count has wrapped to zero. -/
theorem feed_stray (buf : Bytes) :
    feed decode [0x7d] (inside 0 buf) = (inside 0 buf, [.error (strayByte 0x7d)]) := rfl

/-- Where the last brace to open wraps the count, every brace to close is stray. -/
theorem feed_nestedObject (n : Nat) {depth : Nat} (buf : Bytes) (hdepth : 0 < depth)
    (h : depth + (n + 1) = 4294967296) :
    ∃ buf', feed decode (nestedObject n).bytes (inside depth buf) =
      (inside 0 buf', List.replicate (n + 1) (.error (strayByte 0x7d))) := by
  induction n generalizing depth buf with
  | zero =>
    have hwrap : Wire.addU32 depth 1 = 0 := by
      unfold Wire.addU32
      omega
    have hopen : feed decode [0x7b] (inside depth buf) = (inside 0 (buf ++ [0x7b]), []) := by
      rw [feed, forEach_singleton, feedByte_open buf hdepth, hwrap]
    refine ⟨buf ++ [0x7b], ?_⟩
    rw [nestedObject_zero]
    exact feed_trans hopen (feed_stray (buf ++ [0x7b]))
  | succ n ih =>
    have hopen : feed decode [0x7b] (inside depth buf) =
        (inside (depth + 1) (buf ++ [0x7b]), []) := by
      rw [feed, forEach_singleton, feedByte_open buf hdepth, addU32_one (by omega)]
    have hkey : feed decode emptyKey (inside (depth + 1) (buf ++ [0x7b])) =
        (inside (depth + 1) (buf ++ [0x7b] ++ emptyKey), []) :=
      (stays_emptyKey _ (Nat.succ_pos depth)).feed
    obtain ⟨buf', hinner⟩ := ih (buf ++ [0x7b] ++ emptyKey) (Nat.succ_pos depth) (by omega)
    have hall := feed_trans hopen (feed_trans hkey (feed_trans hinner (feed_stray buf')))
    refine ⟨buf', ?_⟩
    rw [nestedObject_succ, List.replicate_succ']
    exact hall

/-- An object of 2^32 open braces is given as as many errors. -/
theorem deep_unframed {n : Nat} (h : n + 2 = 4294967296) :
    scan decode [arrayStream .none .none [⟨.none, nestedObject (n + 1), .none⟩] []] =
      List.replicate (n + 2) (.error (strayByte 0x7d)) := by
  have hkey : feed decode emptyKey (inside 1 [0x7b]) = (inside 1 ([0x7b] ++ emptyKey), []) :=
    (stays_emptyKey [0x7b] Nat.one_pos).feed
  obtain ⟨buf', hinner⟩ : ∃ buf',
      feed decode (nestedObject n).bytes (inside 1 ([0x7b] ++ emptyKey)) =
        (inside 0 buf', List.replicate (n + 1) (.error (strayByte 0x7d))) :=
    feed_nestedObject n _ Nat.one_pos (by omega)
  have hlast : feed decode [0x5d] (inside 0 buf') =
      ({ inside 0 buf' with finished := true }, []) := rfl
  have hall := feed_trans feed_open (feed_trans hkey (feed_trans hinner
    (feed_trans (feed_stray buf') hlast)))
  have hbytes : arrayStream .none .none [⟨.none, nestedObject (n + 1), .none⟩] [] =
      Ws.none.bytes ++
        0x5b :: ([0x7b] ++ (emptyKey ++ ((nestedObject n).bytes ++ ([0x7d] ++ [0x5d])))) := by
    rw [arrayStream_eq, List.map_cons, List.map_nil, bytesOf_joined_singleton, bytes_elem,
      nestedObject_succ]
    simp [Ws.none]
  rw [scan, feedAll_eq, List.flatten_singleton, hbytes, feed_start, hall,
    show n + 2 = n + 1 + 1 from rfl, List.replicate_succ' (n := n + 1)]
  simp [Scanner.finalize, inside]

/-- Not every array of objects is read as its elements. -/
theorem deep_object_lost :
    ¬ ∀ (lead ws : Ws) (items : List (Elem Text)) (rest : Bytes),
        (∀ e ∈ items, IsObject e.value) →
        ∀ chunks, chunks.flatten = arrayStream lead ws items rest →
          scan (fun _ => Except.ok ()) chunks = decodedItems (fun _ => Except.ok ()) items := by
  intro hclaim
  have hobject : ∀ e ∈ [(⟨.none, nestedObject (4294967294 + 1), .none⟩ : Elem Text)],
      IsObject e.value := by
    intro e he
    obtain rfl := List.mem_singleton.mp he
    exact isObject_nestedObject _
  have hread := hclaim .none .none _ [] hobject [_] List.flatten_singleton
  rw [deep_unframed rfl, List.replicate_succ] at hread
  cases hread

/-- Two objects, the second with an escaped quote and a brace in a string. -/
def twoObjects : List (Elem Text) :=
  [⟨.none, .object .none [], .none⟩,
    ⟨.none, .object .none [⟨.none, [], .none, .none,
      .string [.escape .quote, .byte 0x7d (by decide)], .none⟩], .none⟩]

theorem scan_exact_twoObjects :
    scan (fun _ => Except.ok ()) [arrayStream .none .none twoObjects [0x0a]] =
      decodedItems (fun _ => Except.ok ()) twoObjects := by
  refine ((scan_exact fun _ => Except.ok ()).2 .none .none twoObjects [0x0a] ?_).1 _
    List.flatten_singleton
  intro e he
  rcases List.mem_pair.mp he with rfl | rfl
  · exact ⟨⟨_, _, rfl⟩, by decide⟩
  · exact ⟨⟨_, _, rfl⟩, by decide⟩

end Scan

end AgentShim.GeminiScanner
