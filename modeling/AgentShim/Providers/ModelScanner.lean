import AgentShim.Core.Json
import AgentShim.Lib.Cursor
import AgentShim.Lib.JsonText

/-
  The scan for a top-level string

  A passthrough body is searched for the string under a top-level key without
  being parsed: keys are compared as they are spelled, values are passed by their
  quotes and brackets. Whatever does not look like an object makes the scan give up.

  What is proved:
    1. `span_bounds` — a span found lies within the body, whatever the bytes.
    2. `scanValueEnd_at` — the scan finds the end of any JSON text whose containers
       are nested less than 2^32 deep.
    3. `findSpan_hit`, `findSpan_miss` — on a JSON object the scan finds the string
       under the first member spelled as the field, and nothing where there is none.

  Correspondence (Rust ↔ Lean):
    an index and the bytes from there  ↔ `Cursor.At`
    `skip_whitespace`, `scan_string_end`, ↔ the same names; the loops over the bytes
      `scan_value_end`, `scan_balanced`   from an index are `stringEndFrom`,
                                          `scanBalanced`, `Cursor.skipWhile`
    `find_top_level_string_value_span` ↔ `findTopLevelStringValueSpan`, its loop
                                          `memberLoop`, one round `memberRound`
    `Span`                             ↔ `Span`; its `end` is `stop`
    `body.get(a..b)`                   ↔ `sliceBetween`
-/

namespace AgentShim.ModelRewrite

open Cursor JsonText

/-! ## The scanner -/

def skipWhitespace (body : Bytes) (i : Nat) : Nat := skipWhile isWs (body.drop i) i

/-- From the byte after an opening quote. -/
def stringEndFrom : Bytes → Nat → Option Nat
  | [], _ => none
  | [b], i => if b = 0x22 then some i else none
  | b :: c :: rest, i =>
    -- the byte after a backslash is skipped, whatever it is
    if b = 0x5c then stringEndFrom rest (i + 2)
    else if b = 0x22 then some i
    else stringEndFrom (c :: rest) (i + 1)

/-- The offset of the closing quote. -/
def scanStringEnd (body : Bytes) (i : Nat) : Option Nat := stringEndFrom (body.drop i) i

theorem stringEndFrom_bounds {rest : Bytes} {i stop : Nat}
    (h : stringEndFrom rest i = some stop) : i ≤ stop ∧ stop < i + rest.length := by
  fun_induction stringEndFrom rest i with
  | case1 => cases h
  | case2 =>
    cases h
    simp
  | case3 => cases h
  | case4 c rest i ih =>
    have := ih h
    simp only [List.length_cons]
    omega
  | case5 =>
    cases h
    simp only [List.length_cons]
    omega
  | case6 b c rest i hslash hquote ih =>
    have := ih h
    simp only [List.length_cons] at this ⊢
    omega

theorem scanStringEnd_bounds {body : Bytes} {i stop : Nat}
    (h : scanStringEnd body i = some stop) : i ≤ stop ∧ stop < body.length := by
  have hbounds := stringEndFrom_bounds h
  rw [List.length_drop] at hbounds
  omega

theorem lt_length_of_get {body : Bytes} {i : Nat} {b : UInt8} (h : body[i]? = some b) :
    i < body.length := by
  obtain ⟨hlt, -⟩ := List.getElem?_eq_some_iff.mp h
  exact hlt

/-- The loop over a container, from a depth. -/
def scanBalanced (body : Bytes) (k : Kind) (depth i : Nat) : Option Nat :=
  match hget : body[i]? with
  | none => none
  | some b =>
    if b = k.openByte then scanBalanced body k (Wire.addU32 depth 1) (i + 1)
    else if b = k.closeByte then
      if Wire.subU32 depth 1 = 0 then some (i + 1)
      else scanBalanced body k (Wire.subU32 depth 1) (i + 1)
    else if b = 0x22 then
      match hend : scanStringEnd body (i + 1) with
      | none => none
      | some stop => scanBalanced body k depth (stop + 1)
    else scanBalanced body k depth (i + 1)
termination_by body.length - i
decreasing_by
  all_goals have hlt := lt_length_of_get hget
  · omega
  · omega
  · have hbounds := scanStringEnd_bounds hend
    omega
  · omega

/-- The offset one past a value. -/
def scanValueEnd (body : Bytes) (i : Nat) : Option Nat :=
  match body[i]? with
  | none => none
  | some first =>
    if first = 0x22 then (scanStringEnd body (i + 1)).map (· + 1)
    else if first = 0x7b then scanBalanced body .brace 0 i
    else if first = 0x5b then scanBalanced body .square 0 i
    else if first = 0x74 ∨ first = 0x6e then some (i + 4)
    else if first = 0x66 then some (i + 5)
    else if first = 0x2d ∨ isDigit first then some (skipWhile isNumberByte (body.drop i) i)
    else none

structure Span where
  start : Nat
  stop : Nat
  deriving DecidableEq, Repr

/-- `body.get(a..b)`. -/
def sliceBetween (body : Bytes) (a b : Nat) : Option Bytes :=
  if a ≤ b ∧ b ≤ body.length then some ((body.drop a).take (b - a)) else none

/-- What a round of the loop over the members comes to. -/
inductive Round
  | done (span : Option Span)
  | next (i : Nat)
  deriving DecidableEq, Repr

/-- From the colon of a member with this key on. -/
def valueRound (body field key : Bytes) (i : Nat) : Round :=
  let valueStart := skipWhitespace body i
  match scanValueEnd body valueStart with
  | none => .done none
  | some valueEnd =>
    if key = field then
      if body[valueStart]? = some 0x22 then .done (some ⟨valueStart, valueEnd⟩) else .done none
    else
      let i := skipWhitespace body valueEnd
      if body[i]? = some 0x2c then .next (i + 1) else .done none

def memberRound (body field : Bytes) (i : Nat) : Round :=
  let i := skipWhitespace body i
  if body[i]? = some 0x22 then
    let keyStart := i + 1
    match scanStringEnd body keyStart with
    | none => .done none
    | some keyEnd =>
      match sliceBetween body keyStart keyEnd with
      | none => .done none
      | some key =>
        let i := skipWhitespace body (keyEnd + 1)
        if body[i]? = some 0x3a then valueRound body field key (i + 1) else .done none
  else .done none

/-! Where the scans end. -/

theorem le_skipWhitespace (body : Bytes) (i : Nat) : i ≤ skipWhitespace body i :=
  le_skipWhile _ _ _

theorem scanBalanced_bounds {body : Bytes} {k : Kind} {depth i stop : Nat}
    (h : scanBalanced body k depth i = some stop) : i < stop ∧ stop ≤ body.length := by
  fun_induction scanBalanced body k depth i with
  | case1 => cases h
  | case2 depth i hget ih =>
    have := ih h
    omega
  | case3 depth i hopen hget hzero =>
    have := lt_length_of_get hget
    cases h
    omega
  | case4 depth i hopen hget hzero ih =>
    have := ih h
    omega
  | case5 => cases h
  | case6 depth i stop' hend hget hopen hclose ih =>
    have := ih h
    have := scanStringEnd_bounds hend
    omega
  | case7 depth i b hget hopen hclose hquote ih =>
    have := ih h
    omega

/-- A value ends after it starts; a string ends within the body. -/
theorem scanValueEnd_bounds {body : Bytes} {i stop : Nat} (h : scanValueEnd body i = some stop) :
    i ≤ stop ∧ (body[i]? = some 0x22 → i < stop ∧ stop ≤ body.length) := by
  unfold scanValueEnd at h
  split at h
  · cases h
  · rename_i first hget
    split at h
    · -- a string
      obtain ⟨e, hend, rfl⟩ := Option.map_eq_some_iff.mp h
      have := scanStringEnd_bounds hend
      exact ⟨by omega, fun _ => by omega⟩
    · rename_i hquote
      refine ⟨?_, fun hstring => absurd (Option.some.inj (hget.symm.trans hstring)) hquote⟩
      split at h
      · exact Nat.le_of_lt (scanBalanced_bounds h).1
      · split at h
        · exact Nat.le_of_lt (scanBalanced_bounds h).1
        · split at h
          · cases h
            omega
          · split at h
            · cases h
              omega
            · split at h
              · cases h
                exact le_skipWhile _ _ _
              · cases h

theorem valueRound_next {body field key : Bytes} {i j : Nat}
    (h : valueRound body field key i = .next j) : i < j ∧ j ≤ body.length := by
  unfold valueRound at h
  dsimp only at h
  split at h
  · cases h
  · rename_i valueEnd hend
    split at h
    · split at h <;> cases h
    · split at h
      · rename_i hcomma
        cases h
        have hstart := le_skipWhitespace body i
        have hvalue := (scanValueEnd_bounds hend).1
        have hafter := le_skipWhitespace body valueEnd
        have hlt := lt_length_of_get hcomma
        omega
      · cases h

/-- A round that goes on has read at least a byte. -/
theorem memberRound_next {body field : Bytes} {i j : Nat}
    (h : memberRound body field i = .next j) : i < j ∧ j ≤ body.length := by
  unfold memberRound at h
  dsimp only at h
  split at h
  · split at h
    · cases h
    · rename_i keyEnd hend
      split at h
      · cases h
      · split at h
        · have hstart := le_skipWhitespace body i
          have hkey := (scanStringEnd_bounds hend).1
          have hafter := le_skipWhitespace body (keyEnd + 1)
          have hvalue := valueRound_next h
          omega
        · cases h
  · cases h

/-- The loop over the members. -/
def memberLoop (body field : Bytes) (i : Nat) : Option Span :=
  match _hround : memberRound body field i with
  | .done span => span
  | .next j => memberLoop body field j
termination_by body.length - i
decreasing_by
  have := memberRound_next _hround
  omega

def findTopLevelStringValueSpan (body field : Bytes) : Option Span :=
  let i := skipWhitespace body 0
  if body[i]? = some 0x7b then memberLoop body field (i + 1) else none

/-! The span found. -/

theorem memberRound_done {body field : Bytes} {i : Nat} {span : Span}
    (h : memberRound body field i = .done (some span)) :
    span.start < span.stop ∧ span.stop ≤ body.length := by
  unfold memberRound at h
  dsimp only at h
  split at h
  · split at h
    · cases h
    · split at h
      · cases h
      · split at h
        · unfold valueRound at h
          dsimp only at h
          split at h
          · cases h
          · rename_i valueEnd hend
            split at h
            · split at h
              · rename_i hstring
                cases h
                exact (scanValueEnd_bounds hend).2 hstring
              · cases h
            · split at h <;> cases h
        · cases h
  · cases h

theorem memberLoop_bounds {body field : Bytes} {i : Nat} {span : Span}
    (h : memberLoop body field i = some span) :
    span.start < span.stop ∧ span.stop ≤ body.length := by
  fun_induction memberLoop body field i with
  | case1 i found hround =>
    subst h
    exact memberRound_done hround
  | case2 i j hround ih => exact ih h

/-- Whatever the bytes, the span found is one of the body. -/
theorem span_bounds {body field : Bytes} {span : Span}
    (h : findTopLevelStringValueSpan body field = some span) :
    span.start < span.stop ∧ span.stop ≤ body.length := by
  unfold findTopLevelStringValueSpan at h
  dsimp only at h
  split at h
  · exact memberLoop_bounds h
  · cases h

/-! ## The scans at a text -/

section At
variable {body rest : Bytes} {i : Nat}

theorem skipWhitespace_at {w : Bytes} (hat : At body i (w ++ rest))
    (hw : ∀ b ∈ w, isWs b = true) (hrest : ∀ b ∈ rest.head?, isWs b = false) :
    skipWhitespace body i = i + w.length := by
  rw [skipWhitespace, hat.drop]
  exact skipWhile_append hw hrest i

/-- One piece of a string is passed as a whole. -/
theorem stringEndFrom_piece (p : Piece) (hrest : rest ≠ []) (i : Nat) :
    stringEndFrom (p.bytes ++ rest) i = stringEndFrom rest (i + p.bytes.length) := by
  obtain ⟨c, rest, rfl⟩ := List.exists_cons_of_ne_nil hrest
  have hbyte : ∀ (b : UInt8) (more : Bytes) (j : Nat), b ≠ 0x22 → b ≠ 0x5c → more ≠ [] →
      stringEndFrom (b :: more) j = stringEndFrom more (j + 1) := by
    intro b more j hquote hslash hmore
    obtain ⟨c, more, rfl⟩ := List.exists_cons_of_ne_nil hmore
    rw [stringEndFrom, if_neg hslash, if_neg hquote]
  have hslash : ∀ (l : UInt8) (more : Bytes) (j : Nat),
      stringEndFrom (0x5c :: l :: more) j = stringEndFrom more (j + 2) := by
    intro l more j
    rw [stringEndFrom, if_pos rfl]
  have hhex : ∀ b, isHex b = true → b ≠ 0x22 ∧ b ≠ 0x5c := by
    intro b h
    constructor <;> (rintro rfl; exact absurd h (by decide))
  cases p with
  | byte b h =>
    simp only [isStringByte, Bool.and_eq_true, bne_iff_ne, ne_eq] at h
    exact hbyte b (c :: rest) i h.1.2 h.2 (List.cons_ne_nil _ _)
  | escape e => exact hslash e.letter (c :: rest) i
  | unicode u =>
    obtain ⟨ha, hb, hc, hd⟩ := u.hex
    simp only [Piece.bytes, Hex4.bytes, List.cons_append, List.nil_append]
    rw [hslash, hbyte _ _ _ (hhex _ ha).1 (hhex _ ha).2 (List.cons_ne_nil _ _),
      hbyte _ _ _ (hhex _ hb).1 (hhex _ hb).2 (List.cons_ne_nil _ _),
      hbyte _ _ _ (hhex _ hc).1 (hhex _ hc).2 (List.cons_ne_nil _ _),
      hbyte _ _ _ (hhex _ hd).1 (hhex _ hd).2 (List.cons_ne_nil _ _)]
    rfl

theorem stringEndFrom_spelling (s : List Piece) (i : Nat) :
    stringEndFrom (spelling s ++ 0x22 :: rest) i = some (i + (spelling s).length) := by
  induction s generalizing i with
  | nil =>
    cases rest with
    | nil => rfl
    | cons b rest => rfl
  | cons p s ih =>
    have hsplit : spelling (p :: s) = p.bytes ++ spelling s := List.flatMap_cons
    rw [hsplit, List.append_assoc, stringEndFrom_piece p (by simp), ih, List.length_append,
      Nat.add_assoc]

/-- The scan of a string ends at its closing quote. -/
theorem scanStringEnd_at {s : List Piece} (hat : At body i (spelling s ++ 0x22 :: rest)) :
    scanStringEnd body i = some (i + (spelling s).length) := by
  rw [scanStringEnd, hat.drop]
  exact stringEndFrom_spelling s i

/-! Containers. -/

theorem not_bracket_of_plain {b : UInt8} (h : isPlain b = true) :
    (∀ k : Kind, b ≠ k.openByte ∧ b ≠ k.closeByte) ∧ b ≠ 0x22 := by
  refine ⟨fun k => ⟨?_, ?_⟩, ?_⟩
  · rintro rfl
    cases k <;> exact absurd h (by decide)
  · rintro rfl
    cases k <;> exact absurd h (by decide)
  · rintro rfl
    exact absurd h (by decide)

/-- A byte that is no quote and no bracket of the kind is passed. -/
theorem scanBalanced_other {k : Kind} {depth : Nat} {b : UInt8} (hat : At body i (b :: rest))
    (hopen : b ≠ k.openByte) (hclose : b ≠ k.closeByte) (hquote : b ≠ 0x22) :
    scanBalanced body k depth i = scanBalanced body k depth (i + 1) := by
  rw [scanBalanced]
  split
  · rename_i hget
    cases hat.get.symm.trans hget
  · rename_i b' hget
    cases hat.get.symm.trans hget
    rw [if_neg hopen, if_neg hclose, if_neg hquote]

theorem scanBalanced_open {k : Kind} {depth : Nat} (hat : At body i (k.openByte :: rest)) :
    scanBalanced body k depth i = scanBalanced body k (Wire.addU32 depth 1) (i + 1) := by
  rw [scanBalanced]
  split
  · rename_i hget
    cases hat.get.symm.trans hget
  · rename_i b' hget
    cases hat.get.symm.trans hget
    rw [if_pos rfl]

theorem scanBalanced_close {k : Kind} {depth : Nat} (hat : At body i (k.closeByte :: rest)) :
    scanBalanced body k depth i =
      if Wire.subU32 depth 1 = 0 then some (i + 1)
      else scanBalanced body k (Wire.subU32 depth 1) (i + 1) := by
  have hne : k.closeByte ≠ k.openByte := by cases k <;> decide
  rw [scanBalanced]
  split
  · rename_i hget
    cases hat.get.symm.trans hget
  · rename_i b' hget
    cases hat.get.symm.trans hget
    rw [if_neg hne, if_pos rfl]

theorem scanBalanced_quote {k : Kind} {depth stop : Nat} (hat : At body i (0x22 :: rest))
    (hend : scanStringEnd body (i + 1) = some stop) :
    scanBalanced body k depth i = scanBalanced body k depth (stop + 1) := by
  have hopen : (0x22 : UInt8) ≠ k.openByte := by cases k <;> decide
  have hclose : (0x22 : UInt8) ≠ k.closeByte := by cases k <;> decide
  rw [scanBalanced]
  split
  · rename_i hget
    cases hat.get.symm.trans hget
  · rename_i b' hget
    cases hat.get.symm.trans hget
    rw [if_neg hopen, if_neg hclose, if_pos rfl]
    split
    · rename_i hnone
      cases hend.symm.trans hnone
    · rename_i stop' hsome
      cases hend.symm.trans hsome
      rfl

theorem scanBalanced_run {k : Kind} {depth : Nat} {bytes : Bytes}
    (hplain : ∀ b ∈ bytes, isPlain b = true) (hat : At body i (bytes ++ rest)) :
    scanBalanced body k depth i = scanBalanced body k depth (i + bytes.length) := by
  induction bytes generalizing i with
  | nil => rfl
  | cons b bytes ih =>
    obtain ⟨hbracket, hquote⟩ := not_bracket_of_plain (hplain b List.mem_cons_self)
    rw [scanBalanced_other hat (hbracket k).1 (hbracket k).2 hquote,
      ih (fun x hx => hplain x (List.mem_cons_of_mem _ hx)) hat.step, List.length_cons]
    congr 1
    omega

theorem subU32_one {n : Nat} (h : n < 4294967296) (hpos : ¬ n = 0) :
    Wire.subU32 (n + 1) 1 = n - 1 + 1 := by
  have hsum : n + 1 + (4294967296 - 1) = n - 1 + 1 + 4294967296 := by omega
  rw [Wire.subU32, hsum, Nat.add_mod_right, Nat.mod_eq_of_lt (by omega)]

/-- At the tokens of a value the depth follows their level. -/
theorem scanBalanced_token {k : Kind} {top level level' : Nat} (htop : top + 1 < 4294967296)
    (hlevel : level ≤ top) {t : Token} (hat : At body i (t.bytes ++ rest))
    (hstep : t.step k top level = some level') :
    scanBalanced body k (level + 1) i = scanBalanced body k (level' + 1) (i + t.bytes.length) := by
  cases t with
  | run r =>
    cases hstep
    exact scanBalanced_run r.plain hat
  | string s =>
    cases hstep
    have hstring : At body (i + 1) (spelling s ++ 0x22 :: rest) := by
      have hstep : At body (i + 1) ((spelling s ++ [0x22]) ++ rest) := hat.step
      rwa [List.append_assoc] at hstep
    rw [scanBalanced_quote hat (scanStringEnd_at hstring)]
    congr 1
    simp only [Token.bytes, quoted, List.length_cons, List.length_append, List.length_nil]
    omega
  | opening k' =>
    rw [Token.step] at hstep
    by_cases hk : k' = k
    · subst hk
      rw [if_pos rfl] at hstep
      split at hstep
      case isFalse => cases hstep
      case isTrue hlt =>
        cases hstep
        have hadd : Wire.addU32 (level + 1) 1 = level + 1 + 1 := Nat.mod_eq_of_lt (by omega)
        rw [scanBalanced_open hat, hadd]
        rfl
    · rw [if_neg hk] at hstep
      cases hstep
      have hopen : k'.openByte ≠ k.openByte := by
        cases k' <;> cases k <;> first | exact absurd rfl hk | decide
      have hclose : k'.openByte ≠ k.closeByte := by cases k' <;> cases k <;> decide
      exact scanBalanced_other hat hopen hclose (by cases k' <;> decide)
  | closing k' =>
    rw [Token.step] at hstep
    by_cases hk : k' = k
    · subst hk
      rw [if_pos rfl] at hstep
      split at hstep
      case isTrue => cases hstep
      case isFalse hpos =>
        cases hstep
        have hsub : Wire.subU32 (level + 1) 1 = level - 1 + 1 := subU32_one (by omega) hpos
        rw [scanBalanced_close hat, hsub, if_neg (Nat.succ_ne_zero _)]
        rfl
    · rw [if_neg hk] at hstep
      cases hstep
      have hclose : k'.closeByte ≠ k.closeByte := by
        cases k' <;> cases k <;> first | exact absurd rfl hk | decide
      have hopen : k'.closeByte ≠ k.openByte := by cases k' <;> cases k <;> decide
      exact scanBalanced_other hat hopen hclose (by cases k' <;> decide)

theorem scanBalanced_walk {k : Kind} {top : Nat} (htop : top + 1 < 4294967296) {ts : List Token}
    {level level' : Nat} (hlevel : level ≤ top) (hat : At body i (bytesOf ts ++ rest))
    (h : walk k top level ts = some level') :
    scanBalanced body k (level + 1) i =
      scanBalanced body k (level' + 1) (i + (bytesOf ts).length) := by
  induction ts generalizing level i with
  | nil =>
    cases h
    rfl
  | cons t ts ih =>
    rw [walk, List.foldlM_cons] at h
    obtain ⟨mid, hmid, hts⟩ := Option.bind_eq_some_iff.mp h
    rw [bytesOf_cons, List.append_assoc] at hat
    rw [scanBalanced_token htop hlevel hat hmid, ih (Token.step_le hmid hlevel) hat.append hts,
      bytesOf_cons, List.length_append, Nat.add_assoc]

/-- The scan of a container ends after its closing bracket. -/
theorem scanBalanced_at {k : Kind} (top : Nat) (htop : top + 1 < 4294967296) {inner : List Token}
    (hat : At body i (k.openByte :: (bytesOf inner ++ [k.closeByte]) ++ rest))
    (h : walk k top 0 inner = some 0) :
    scanBalanced body k 0 i =
      some (i + (k.openByte :: (bytesOf inner ++ [k.closeByte])).length) := by
  rw [List.cons_append] at hat
  have hinner : At body (i + 1) (bytesOf inner ++ k.closeByte :: rest) := by
    have hstep := hat.step
    rwa [List.append_assoc] at hstep
  have hadd : Wire.addU32 0 1 = 0 + 1 := rfl
  have hsub : Wire.subU32 (0 + 1) 1 = 0 := rfl
  rw [scanBalanced_open hat, hadd, scanBalanced_walk htop (Nat.zero_le _) hinner h,
    scanBalanced_close hinner.append, hsub, if_pos rfl]
  simp only [List.length_cons, List.length_append, List.length_nil]
  congr 1
  omega

/-- The byte after a value is none that a number could go on with. -/
def Follows (rest : Bytes) : Prop := ∀ b ∈ rest.head?, isNumberByte b = false

theorem scanValueEnd_number {n : Number} (hat : At body i (n.bytes ++ rest))
    (hrest : Follows rest) : scanValueEnd body i = some (i + n.bytes.length) := by
  obtain ⟨b, more, hcons, hfirst⟩ := n.bytes_cons
  have hscan : skipWhile isNumberByte (body.drop i) i = i + n.bytes.length := by
    rw [hat.drop]
    exact skipWhile_append n.numberBytes hrest i
  have hget : body[i]? = some b := by
    rw [hcons] at hat
    exact hat.get
  have hnot : ∀ x : UInt8, x ≠ 0x2d → isDigit x = false → b ≠ x := by
    rintro x hminus hdigit rfl
    rcases hfirst with hfirst | hfirst
    · exact hminus hfirst
    · rw [hdigit] at hfirst
      cases hfirst
  unfold scanValueEnd
  rw [hget]
  dsimp only
  rw [if_neg (hnot _ (by decide) (by decide)), if_neg (hnot _ (by decide) (by decide)),
    if_neg (hnot _ (by decide) (by decide)),
    if_neg (not_or.mpr ⟨hnot _ (by decide) (by decide), hnot _ (by decide) (by decide)⟩),
    if_neg (hnot _ (by decide) (by decide)), if_pos hfirst, hscan]

theorem scanValueEnd_string {s : List Piece} (hat : At body i (quoted (spelling s) ++ rest)) :
    scanValueEnd body i = some (i + (quoted (spelling s)).length) := by
  have hstring : At body (i + 1) (spelling s ++ 0x22 :: rest) := by
    have hstep : At body (i + 1) ((spelling s ++ [0x22]) ++ rest) := hat.step
    rwa [List.append_assoc] at hstep
  unfold scanValueEnd
  rw [hat.get]
  dsimp only
  rw [if_pos rfl, scanStringEnd_at hstring]
  simp only [Option.map_some, quoted, List.length_cons, List.length_append, List.length_nil]
  congr 1
  omega

/-- A container is scanned by its own brackets. -/
theorem scanValueEnd_open {k : Kind} {more : Bytes} (hat : At body i (k.openByte :: more)) :
    scanValueEnd body i = scanBalanced body k 0 i := by
  unfold scanValueEnd
  rw [hat.get]
  cases k <;> rfl

/-- The scan finds the end of any JSON text. -/
theorem scanValueEnd_at {t : Text} (hat : At body i (t.bytes ++ rest)) (hrest : Follows rest)
    (hdepth : t.depth < 4294967296) : scanValueEnd body i = some (i + t.bytes.length) := by
  cases t with
  | literal l =>
    have hbytes : (Text.literal l).bytes = l.bytes := List.append_nil _
    rw [hbytes] at hat ⊢
    unfold scanValueEnd
    cases l with
    | null =>
      rw [hat.get]
      rfl
    | bool b =>
      cases b with
      | true =>
        rw [hat.get]
        rfl
      | false =>
        rw [hat.get]
        rfl
  | number n =>
    have hbytes : (Text.number n).bytes = n.bytes := List.append_nil _
    rw [hbytes] at hat ⊢
    exact scanValueEnd_number hat hrest
  | string s =>
    have hbytes : (Text.string s).bytes = quoted (spelling s) := List.append_nil _
    rw [hbytes] at hat ⊢
    exact scanValueEnd_string hat
  | array ws items =>
    rw [bytes_array] at hat ⊢
    have hpos : 0 < (Text.array ws items).depth := Nat.succ_pos _
    have hitems : ∀ e ∈ items, 0 + e.value.depthOf .square ≤ (Text.array ws items).depth - 1 := by
      intro e he
      have hlt := Text.depth_item ws he
      have hle := Text.depthOf_le_depth .square e.value
      omega
    rw [scanValueEnd_open (k := .square) hat]
    exact scanBalanced_at (k := .square) ((Text.array ws items).depth - 1) (by omega) hat
      (walk_items .square hitems)
  | object ws members =>
    rw [bytes_object] at hat ⊢
    have hpos : 0 < (Text.object ws members).depth := Nat.succ_pos _
    have hmembers : ∀ m ∈ members,
        0 + m.value.depthOf .brace ≤ (Text.object ws members).depth - 1 := by
      intro m hm
      have hlt := Text.depth_member ws hm
      have hle := Text.depthOf_le_depth .brace m.value
      omega
    rw [scanValueEnd_open (k := .brace) hat]
    exact scanBalanced_at (k := .brace) ((Text.object ws members).depth - 1) (by omega) hat
      (walk_members .brace hmembers)

/-! Members. -/

theorem bytes_head (t : Text) : ∃ b more, t.bytes = b :: more ∧ isWs b = false := by
  cases t with
  | literal l =>
    have hbytes : (Text.literal l).bytes = l.bytes := List.append_nil _
    rw [hbytes]
    cases l with
    | null => exact ⟨_, _, rfl, by decide⟩
    | bool b => cases b <;> exact ⟨_, _, rfl, by decide⟩
  | number n =>
    have hbytes : (Text.number n).bytes = n.bytes := List.append_nil _
    obtain ⟨b, more, hcons, hfirst⟩ := n.bytes_cons
    refine ⟨b, more, hbytes.trans hcons, ?_⟩
    cases hws : isWs b with
    | false => rfl
    | true =>
      simp only [isWs, Bool.or_eq_true, beq_iff_eq] at hws
      rcases hws with ((rfl | rfl) | rfl) | rfl <;> exact absurd hfirst (by decide)
  | string s => exact ⟨0x22, _, rfl, by decide⟩
  | array ws items => exact ⟨0x5b, _, bytes_array ws items, by decide⟩
  | object ws members => exact ⟨0x7b, _, bytes_object ws members, by decide⟩

/-- What comes after a value and white space ends a number. -/
theorem follows_after {w : Ws} {b : UInt8} {more : Bytes} (hb : isNumberByte b = false) :
    Follows (w.bytes ++ b :: more) := by
  obtain ⟨bytes, hws⟩ := w
  cases bytes with
  | nil =>
    intro x hx
    cases hx
    exact hb
  | cons x bytes =>
    intro y hy
    cases hy
    have hx := hws x List.mem_cons_self
    simp only [isWs, Bool.or_eq_true, beq_iff_eq] at hx
    rcases hx with ((rfl | rfl) | rfl) | rfl <;> decide

/-- From a colon on, the value is found where it stands. -/
theorem value_at {w after : Ws} {t : Text} {b : UInt8} {more : Bytes}
    (hat : At body i (w.bytes ++ (t.bytes ++ (after.bytes ++ b :: more))))
    (hb : b = 0x2c ∨ b = 0x7d) (hdepth : t.depth < 4294967296) :
    ∃ start, skipWhitespace body i = start ∧
      At body start (t.bytes ++ (after.bytes ++ b :: more)) ∧
      scanValueEnd body start = some (start + t.bytes.length) ∧
      ∃ j, skipWhitespace body (start + t.bytes.length) = j ∧ At body j (b :: more) := by
  have hstart : skipWhitespace body i = i + w.bytes.length := by
    apply skipWhitespace_at hat w.ws
    intro x hx
    obtain ⟨b', more', hcons, hnot⟩ := bytes_head t
    rw [hcons] at hx
    cases hx
    exact hnot
  have hvalue := hat.append
  have hnumber : isNumberByte b = false := by rcases hb with rfl | rfl <;> decide
  refine ⟨_, hstart, hvalue, scanValueEnd_at hvalue (follows_after hnumber) hdepth, ?_⟩
  have hafter := hvalue.append
  refine ⟨_, skipWhitespace_at hafter after.ws ?_, hafter.append⟩
  intro x hx
  cases hx
  rcases hb with rfl | rfl <;> decide

/-- The key of a member is read as it is spelled, and the scan goes on at the value. -/
theorem memberRound_key (field : Bytes) {w : Ws} {m : Member Text}
    (hat : At body i (w.bytes ++ (bytesOf m.tokens ++ rest))) :
    ∃ j, At body j (m.beforeValue.bytes ++ (m.value.bytes ++ (m.after.bytes ++ rest))) ∧
      memberRound body field i = valueRound body field (spelling m.key) j := by
  rw [bytes_member] at hat
  simp only [List.append_assoc, List.cons_append] at hat
  rw [← List.append_assoc] at hat
  have hws : ∀ x ∈ w.bytes ++ m.before.bytes, isWs x = true := by
    intro x hx
    rcases List.mem_append.mp hx with hx | hx
    · exact w.ws x hx
    · exact m.before.ws x hx
  set start := i + (w.bytes ++ m.before.bytes).length with hstartEq
  have hstart : skipWhitespace body i = start :=
    skipWhitespace_at hat hws fun x hx => by cases hx; decide
  have hquote := hat.append
  have hkey := hquote.step
  have hend := scanStringEnd_at hkey
  have hafter := hkey.append.step
  have hcolon : skipWhitespace body (start + 1 + (spelling m.key).length + 1) =
      start + 1 + (spelling m.key).length + 1 + m.afterKey.bytes.length :=
    skipWhitespace_at hafter m.afterKey.ws fun x hx => by cases hx; decide
  have hslice : sliceBetween body (start + 1) (start + 1 + (spelling m.key).length) =
      some (spelling m.key) := by
    rw [sliceBetween, if_pos ⟨Nat.le_add_right _ _, hkey.append.le⟩, Nat.add_sub_cancel_left,
      hkey.slice]
  refine ⟨_, hafter.append.step, ?_⟩
  unfold memberRound
  rw [hstart]
  dsimp only
  rw [if_pos hquote.get, hend]
  dsimp only
  rw [hslice]
  dsimp only
  rw [hcolon, if_pos hafter.append.get]

/-- A member under another key is passed, up to the comma after it. -/
theorem memberRound_other {field : Bytes} {w : Ws} {m : Member Text} {b : UInt8} {more : Bytes}
    (hat : At body i (w.bytes ++ (bytesOf m.tokens ++ b :: more))) (hb : b = 0x2c ∨ b = 0x7d)
    (hkey : spelling m.key ≠ field) (hdepth : m.value.depth < 4294967296) :
    ∃ j, At body j (b :: more) ∧
      memberRound body field i = if b = 0x2c then .next (j + 1) else .done none := by
  obtain ⟨colon, hcolon, hround⟩ := memberRound_key field hat
  obtain ⟨start, hstart, -, hscan, j, hj, hnext⟩ := value_at hcolon hb hdepth
  refine ⟨j, hnext, ?_⟩
  rw [hround, valueRound, hstart]
  dsimp only
  rw [hscan]
  dsimp only
  rw [if_neg hkey, hj, hnext.get]
  by_cases hcomma : b = 0x2c
  · rw [if_pos hcomma, if_pos (congrArg some hcomma)]
  · rw [if_neg hcomma, if_neg fun h => hcomma (Option.some.inj h)]

/-- A string under the key is the span. -/
theorem memberRound_hit {field : Bytes} {w : Ws} {m : Member Text} {old : List Piece} {b : UInt8}
    {more : Bytes} (hat : At body i (w.bytes ++ (bytesOf m.tokens ++ b :: more)))
    (hb : b = 0x2c ∨ b = 0x7d) (hkey : spelling m.key = field) (hvalue : m.value = .string old) :
    ∃ start, At body start (quoted (spelling old) ++ (m.after.bytes ++ b :: more)) ∧
      memberRound body field i =
        .done (some ⟨start, start + (quoted (spelling old)).length⟩) := by
  have hbytes : m.value.bytes = quoted (spelling old) := by
    rw [hvalue]
    exact List.append_nil _
  have hdepth : m.value.depth < 4294967296 := by
    rw [hvalue]
    exact Nat.zero_lt_succ _
  obtain ⟨colon, hcolon, hround⟩ := memberRound_key field hat
  obtain ⟨start, hstart, hat', hscan, -⟩ := value_at hcolon hb hdepth
  rw [hbytes] at hat' hscan
  refine ⟨start, hat', ?_⟩
  have hget : body[start]? = some 0x22 := hat'.get
  rw [hround, valueRound, hstart]
  dsimp only
  rw [hscan]
  dsimp only
  rw [if_pos hkey, if_pos hget]

/-! The loop over the members. -/

theorem memberLoop_next {field : Bytes} {j : Nat} (h : memberRound body field i = .next j) :
    memberLoop body field i = memberLoop body field j := by
  rw [memberLoop]
  split
  · rename_i span hdone
    cases h.symm.trans hdone
  · rename_i j' hnext
    cases h.symm.trans hnext
    rfl

theorem memberLoop_done {field : Bytes} {span : Option Span}
    (h : memberRound body field i = .done span) : memberLoop body field i = span := by
  rw [memberLoop]
  split
  · rename_i span' hdone
    cases h.symm.trans hdone
    rfl
  · rename_i j' hnext
    cases h.symm.trans hnext

/-- The members under other keys are passed. -/
theorem memberLoop_before (field : Bytes) {w : Ws} {pre : List (Member Text)}
    (hat : At body i (w.bytes ++ (membersBefore pre ++ rest)))
    (hpre : ∀ m ∈ pre, spelling m.key ≠ field ∧ m.value.depth < 4294967296) :
    ∃ (j : Nat) (w' : Ws), At body j (w'.bytes ++ rest) ∧
      memberLoop body field i = memberLoop body field j := by
  induction pre generalizing i w with
  | nil => exact ⟨i, w, hat, rfl⟩
  | cons m pre ih =>
    have hsplit : membersBefore (m :: pre) = bytesOf m.tokens ++ [0x2c] ++ membersBefore pre :=
      List.flatMap_cons
    rw [hsplit, List.append_assoc, List.append_assoc] at hat
    obtain ⟨hkey, hdepth⟩ := hpre m List.mem_cons_self
    obtain ⟨j, hj, hround⟩ := memberRound_other hat (Or.inl rfl) hkey hdepth
    rw [if_pos rfl] at hround
    obtain ⟨j', w', hj', hloop⟩ :=
      ih (w := .none) hj.step fun m' hm' => hpre m' (List.mem_cons_of_mem _ hm')
    exact ⟨j', w', hj', (memberLoop_next hround).trans hloop⟩

end At

/-! ## The span of a body -/

/-- A JSON object with white space around it. -/
def bodyOf (lead ws : Ws) (members : List (Member Text)) (trail : Ws) : Bytes :=
  lead.bytes ++ (Text.object ws members).bytes ++ trail.bytes

theorem at_members (lead ws : Ws) (pre post : List (Member Text)) (m : Member Text) (trail : Ws) :
    ∃ i, skipWhitespace (bodyOf lead ws (pre ++ m :: post) trail) 0 = i ∧
      (bodyOf lead ws (pre ++ m :: post) trail)[i]? = some 0x7b ∧
      At (bodyOf lead ws (pre ++ m :: post) trail) (i + 1) (ws.bytes ++ (membersBefore pre ++
        (bytesOf m.tokens ++ (membersAfter post ++ 0x7d :: trail.bytes)))) := by
  have hbody : bodyOf lead ws (pre ++ m :: post) trail =
      lead.bytes ++ 0x7b :: (ws.bytes ++ (membersBefore pre ++
        (bytesOf m.tokens ++ (membersAfter post ++ 0x7d :: trail.bytes)))) := by
    rw [bodyOf, bytes_object, bytesOf_cons, bytesOf_joined_split]
    simp [Token.bytes, Ws.run, List.append_assoc]
  have hat : At (bodyOf lead ws (pre ++ m :: post) trail) 0
      (lead.bytes ++ 0x7b :: (ws.bytes ++ (membersBefore pre ++
        (bytesOf m.tokens ++ (membersAfter post ++ 0x7d :: trail.bytes))))) := by
    rw [hbody]
    exact At.start _
  have hskip := skipWhitespace_at hat lead.ws fun x hx => by cases hx; decide
  exact ⟨_, hskip, hat.append.get, hat.append.step⟩

/-- After the last byte of a member comes a comma or the closing brace. -/
theorem membersAfter_head (post : List (Member Text)) (trail : Ws) :
    ∃ b more, membersAfter post ++ 0x7d :: trail.bytes = b :: more ∧ (b = 0x2c ∨ b = 0x7d) := by
  cases post with
  | nil => exact ⟨_, _, rfl, Or.inr rfl⟩
  | cons m post => exact ⟨_, _, rfl, Or.inl rfl⟩

/-- No member is spelled as the field: nothing is found. -/
theorem findSpan_miss {field : Bytes} {lead ws trail : Ws} {members : List (Member Text)}
    (hmembers : members ≠ [])
    (h : ∀ m ∈ members, spelling m.key ≠ field ∧ m.value.depth < 4294967296) :
    findTopLevelStringValueSpan (bodyOf lead ws members trail) field = none := by
  obtain ⟨pre, last, rfl⟩ : ∃ pre last, members = pre ++ [last] :=
    ⟨members.dropLast, members.getLast hmembers, (List.dropLast_append_getLast hmembers).symm⟩
  obtain ⟨i, hskip, hbrace, hat⟩ := at_members lead ws pre [] last trail
  obtain ⟨j, w, hj, hloop⟩ := memberLoop_before field hat
    fun m hm => h m (List.mem_append_left _ hm)
  obtain ⟨hkey, hdepth⟩ := h last (List.mem_append_right _ List.mem_cons_self)
  obtain ⟨j', -, hround⟩ := memberRound_other (b := 0x7d) hj (Or.inr rfl) hkey hdepth
  rw [if_neg (by decide)] at hround
  rw [findTopLevelStringValueSpan, hskip, if_pos hbrace, hloop, memberLoop_done hround]

/-- The first member spelled as the field is a string: its value is the span. -/
theorem findSpan_hit (lead ws trail : Ws) {field : Bytes} {pre : List (Member Text)}
    (post : List (Member Text)) {m : Member Text} {old : List Piece}
    (hpre : ∀ m ∈ pre, spelling m.key ≠ field ∧ m.value.depth < 4294967296)
    (hkey : spelling m.key = field) (hvalue : m.value = .string old) :
    ∃ start, findTopLevelStringValueSpan (bodyOf lead ws (pre ++ m :: post) trail) field =
        some ⟨start, start + (quoted (spelling old)).length⟩ ∧
      At (bodyOf lead ws (pre ++ m :: post) trail) start (quoted (spelling old) ++
        (m.after.bytes ++ (membersAfter post ++ 0x7d :: trail.bytes))) := by
  obtain ⟨i, hskip, hbrace, hat⟩ := at_members lead ws pre post m trail
  obtain ⟨j, w, hj, hloop⟩ := memberLoop_before field hat hpre
  obtain ⟨b, more, hmore, hb⟩ := membersAfter_head post trail
  rw [hmore] at hj
  obtain ⟨start, hstart, hround⟩ := memberRound_hit hj hb hkey hvalue
  refine ⟨start, ?_, hmore.symm ▸ hstart⟩
  rw [findTopLevelStringValueSpan, hskip, if_pos hbrace, hloop, memberLoop_done hround]

end AgentShim.ModelRewrite
