import Mathlib.Data.List.Basic

/-
  JSON texts, byte by byte

  The grammar of JSON over bytes, as the trees of its texts: a tree keeps every
  byte of its text, white space and spelling included, and has a value. A text is
  also a row of tokens (strings, brackets, and runs of other bytes), which is what
  a scanner that only looks for brackets and quotes goes through.

  Strings are bytes without control characters; whether the bytes above 0x7f are
  UTF-8 is not looked at. An unpaired surrogate is kept as the three bytes of its
  code unit.

  What is proved:
    1. `Text.induction` — induction over texts, with what holds of all elements.
    2. `walk_tokens` — a text leaves the level of either kind of bracket where it
       was, and rises above it by the depth of that kind at most.
    3. `decode_of_plain` — a string without a backslash means its own bytes.
    4. `bytesOf_joined_split` — the bytes of the members of an object around one of
       them.
-/

namespace JsonText

abbrev Bytes := List UInt8

/-! ## Bytes -/

def isWs (b : UInt8) : Bool := b == 0x20 || b == 0x09 || b == 0x0a || b == 0x0d

def isDigit (b : UInt8) : Bool := 0x30 ≤ b && b ≤ 0x39

/-- The bytes a number is made of. -/
def isNumberByte (b : UInt8) : Bool :=
  isDigit b || b == 0x2d || b == 0x2b || b == 0x2e || b == 0x65 || b == 0x45

def isHex (b : UInt8) : Bool :=
  isDigit b || (0x61 ≤ b && b ≤ 0x66) || (0x41 ≤ b && b ≤ 0x46)

/-- A byte that stands for itself in a string. -/
def isStringByte (b : UInt8) : Bool := 0x20 ≤ b && b != 0x22 && b != 0x5c

/-- Neither a quote nor a bracket. -/
def isPlain (b : UInt8) : Bool :=
  b != 0x22 && b != 0x7b && b != 0x7d && b != 0x5b && b != 0x5d

theorem isPlain_of_isWs {b : UInt8} (h : isWs b = true) : isPlain b = true := by
  simp only [isWs, Bool.or_eq_true, beq_iff_eq] at h
  rcases h with ((rfl | rfl) | rfl) | rfl <;> decide

theorem isPlain_of_isNumberByte {b : UInt8} (h : isNumberByte b = true) : isPlain b = true := by
  cases hplain : isPlain b with
  | true => rfl
  | false =>
    simp only [isPlain, Bool.and_eq_false_iff, bne_eq_false_iff_eq] at hplain
    rcases hplain with (((rfl | rfl) | rfl) | rfl) | rfl <;> exact absurd h (by decide)

/-! ## The pieces of a text -/

/-- White space, maybe none. -/
structure Ws where
  bytes : Bytes
  ws : ∀ b ∈ bytes, isWs b = true

def Ws.none : Ws := ⟨[], fun _ h => absurd h List.not_mem_nil⟩

/-- Bytes that are neither quotes nor brackets. -/
structure Run where
  bytes : Bytes
  plain : ∀ b ∈ bytes, isPlain b = true

def Ws.run (w : Ws) : Run := ⟨w.bytes, fun b h => isPlain_of_isWs (w.ws b h)⟩

inductive Literal
  | null
  | bool (b : Bool)
  deriving DecidableEq

def Literal.bytes : Literal → Bytes
  | null => [0x6e, 0x75, 0x6c, 0x6c]
  | bool true => [0x74, 0x72, 0x75, 0x65]
  | bool false => [0x66, 0x61, 0x6c, 0x73, 0x65]

theorem Literal.plain (l : Literal) : ∀ b ∈ l.bytes, isPlain b = true := by
  cases l with
  | null => exact List.all_eq_true.mp (by decide)
  | bool b => cases b <;> exact List.all_eq_true.mp (by decide)

/-- One digit or more. -/
structure Digits where
  bytes : Bytes
  digits : ∀ b ∈ bytes, isDigit b = true
  nonempty : bytes ≠ []

structure Exponent where
  upper : Bool
  sign : Option Bool
  digits : Digits

def Exponent.bytes (e : Exponent) : Bytes :=
  (if e.upper then 0x45 else 0x65) ::
    ((e.sign.elim [] fun plus => [if plus then 0x2b else 0x2d]) ++ e.digits.bytes)

structure Number where
  negative : Bool
  int : Digits
  noLeadingZero : int.bytes.head? = some 0x30 → int.bytes = [0x30]
  fraction : Option Digits
  exponent : Option Exponent

def Number.bytes (n : Number) : Bytes :=
  (if n.negative then [0x2d] else []) ++ n.int.bytes ++
    (n.fraction.elim [] fun d => 0x2e :: d.bytes) ++ n.exponent.elim [] Exponent.bytes

theorem isNumberByte_of_isDigit {b : UInt8} (h : isDigit b = true) : isNumberByte b = true := by
  simp [isNumberByte, h]

theorem Exponent.numberBytes (e : Exponent) : ∀ b ∈ e.bytes, isNumberByte b = true := by
  intro b hb
  rcases List.mem_cons.mp hb with rfl | hb
  · cases e.upper <;> decide
  · rcases List.mem_append.mp hb with hb | hb
    · cases hsign : e.sign with
      | none =>
        rw [hsign] at hb
        cases hb
      | some plus =>
        rw [hsign] at hb
        obtain rfl := List.mem_singleton.mp hb
        cases plus <;> decide
    · exact isNumberByte_of_isDigit (e.digits.digits b hb)

theorem Number.numberBytes (n : Number) : ∀ b ∈ n.bytes, isNumberByte b = true := by
  intro b hb
  rcases List.mem_append.mp hb with hb | hb
  · rcases List.mem_append.mp hb with hb | hb
    · rcases List.mem_append.mp hb with hb | hb
      · cases hneg : n.negative with
        | false =>
          rw [hneg] at hb
          cases hb
        | true =>
          rw [hneg] at hb
          obtain rfl := List.mem_singleton.mp hb
          decide
      · exact isNumberByte_of_isDigit (n.int.digits b hb)
    · cases hfrac : n.fraction with
      | none =>
        rw [hfrac] at hb
        cases hb
      | some d =>
        rw [hfrac] at hb
        rcases List.mem_cons.mp hb with rfl | hb
        · decide
        · exact isNumberByte_of_isDigit (d.digits b hb)
  · cases hexp : n.exponent with
    | none =>
      rw [hexp] at hb
      cases hb
    | some e =>
      rw [hexp] at hb
      exact e.numberBytes b hb

/-- A number starts with a minus or a digit. -/
theorem Number.bytes_cons (n : Number) :
    ∃ b rest, n.bytes = b :: rest ∧ (b = 0x2d ∨ isDigit b = true) := by
  unfold Number.bytes
  cases n.negative with
  | true => exact ⟨0x2d, _, rfl, Or.inl rfl⟩
  | false =>
    obtain ⟨d, ds, hint⟩ := List.exists_cons_of_ne_nil n.int.nonempty
    refine ⟨d, _, by rw [hint]; rfl, Or.inr (n.int.digits d ?_)⟩
    rw [hint]
    exact List.mem_cons_self

/-! Strings. -/

inductive Escape
  | quote
  | backslash
  | slash
  | backspace
  | formFeed
  | newline
  | carriageReturn
  | tab
  deriving DecidableEq

/-- The letter after the backslash. -/
def Escape.letter : Escape → UInt8
  | quote => 0x22
  | backslash => 0x5c
  | slash => 0x2f
  | backspace => 0x62
  | formFeed => 0x66
  | newline => 0x6e
  | carriageReturn => 0x72
  | tab => 0x74

/-- The byte it stands for. -/
def Escape.value : Escape → UInt8
  | quote => 0x22
  | backslash => 0x5c
  | slash => 0x2f
  | backspace => 0x08
  | formFeed => 0x0c
  | newline => 0x0a
  | carriageReturn => 0x0d
  | tab => 0x09

/-- Four hexadecimal digits, in either case. -/
structure Hex4 where
  a : UInt8
  b : UInt8
  c : UInt8
  d : UInt8
  hex : isHex a = true ∧ isHex b = true ∧ isHex c = true ∧ isHex d = true

def Hex4.bytes (u : Hex4) : Bytes := [u.a, u.b, u.c, u.d]

def hexDigit (b : UInt8) : Nat :=
  if isDigit b then b.toNat - 0x30
  else if 0x61 ≤ b then b.toNat - 0x61 + 10
  else b.toNat - 0x41 + 10

/-- The code unit. -/
def Hex4.value (u : Hex4) : Nat :=
  ((hexDigit u.a * 16 + hexDigit u.b) * 16 + hexDigit u.c) * 16 + hexDigit u.d

inductive Piece
  | byte (b : UInt8) (h : isStringByte b = true)
  | escape (e : Escape)
  | unicode (u : Hex4)

def Piece.bytes : Piece → Bytes
  | byte b _ => [b]
  | escape e => [0x5c, e.letter]
  | unicode u => 0x5c :: 0x75 :: u.bytes

/-- The bytes between the quotes. -/
def spelling (s : List Piece) : Bytes := s.flatMap Piece.bytes

/-- The UTF-8 bytes of a code point, and three bytes for a surrogate. -/
def codePoint (n : Nat) : Bytes :=
  if n < 0x80 then [UInt8.ofNat n]
  else if n < 0x800 then [UInt8.ofNat (0xc0 + n / 0x40), UInt8.ofNat (0x80 + n % 0x40)]
  else if n < 0x10000 then
    [UInt8.ofNat (0xe0 + n / 0x1000), UInt8.ofNat (0x80 + n / 0x40 % 0x40),
      UInt8.ofNat (0x80 + n % 0x40)]
  else
    [UInt8.ofNat (0xf0 + n / 0x40000), UInt8.ofNat (0x80 + n / 0x1000 % 0x40),
      UInt8.ofNat (0x80 + n / 0x40 % 0x40), UInt8.ofNat (0x80 + n % 0x40)]

/-- A high surrogate before a low one. -/
def isPair (high low : Nat) : Bool :=
  0xd800 ≤ high && high < 0xdc00 && 0xdc00 ≤ low && low < 0xe000

/-- The bytes a string means. -/
def decode : List Piece → Bytes
  | [] => []
  | .byte b _ :: rest => b :: decode rest
  | .escape e :: rest => e.value :: decode rest
  | .unicode u :: .unicode v :: rest =>
    if isPair u.value v.value then
      codePoint (0x10000 + (u.value - 0xd800) * 0x400 + (v.value - 0xdc00)) ++ decode rest
    else codePoint u.value ++ decode (.unicode v :: rest)
  | .unicode u :: rest => codePoint u.value ++ decode rest

/-- A string without a backslash means its own bytes. -/
theorem decode_of_plain {s : List Piece} (h : 0x5c ∉ spelling s) : decode s = spelling s := by
  induction s with
  | nil => rfl
  | cons p rest ih =>
    have hsplit : spelling (p :: rest) = p.bytes ++ spelling rest := List.flatMap_cons
    rw [hsplit, List.mem_append, not_or] at h
    cases p with
    | byte b hb => rw [hsplit, decode, ih h.2, Piece.bytes, List.singleton_append]
    | escape e => exact absurd List.mem_cons_self h.1
    | unicode u => exact absurd List.mem_cons_self h.1

/-- The pieces of bytes that all stand for themselves. -/
def plainPieces : (s : Bytes) → (∀ b ∈ s, isStringByte b = true) → List Piece
  | [], _ => []
  | b :: rest, h =>
    .byte b (h b List.mem_cons_self) ::
      plainPieces rest fun x hx => h x (List.mem_cons_of_mem _ hx)

theorem spelling_plainPieces (s : Bytes) (h : ∀ b ∈ s, isStringByte b = true) :
    spelling (plainPieces s h) = s := by
  induction s with
  | nil => rfl
  | cons b rest ih =>
    have hsplit : spelling (plainPieces (b :: rest) h) =
        b :: spelling (plainPieces rest fun x hx => h x (List.mem_cons_of_mem _ hx)) := rfl
    rw [hsplit, ih]

theorem decode_plainPieces (s : Bytes) (h : ∀ b ∈ s, isStringByte b = true) :
    decode (plainPieces s h) = s := by
  induction s with
  | nil => rfl
  | cons b rest ih =>
    have hsplit : decode (plainPieces (b :: rest) h) =
        b :: decode (plainPieces rest fun x hx => h x (List.mem_cons_of_mem _ hx)) := rfl
    rw [hsplit, ih]

/-! ## Texts -/

/-- An element of an array. -/
structure Elem (α : Type) where
  before : Ws
  value : α
  after : Ws

/-- A member of an object. -/
structure Member (α : Type) where
  before : Ws
  key : List Piece
  afterKey : Ws
  beforeValue : Ws
  value : α
  after : Ws

/-- A JSON text without white space around it. An empty array or object may hold
white space; one that is not empty may have more before its first element. -/
inductive Text
  | literal (l : Literal)
  | number (n : Number)
  | string (s : List Piece)
  | array (ws : Ws) (items : List (Elem Text))
  | object (ws : Ws) (members : List (Member Text))

theorem Text.induction {P : Text → Prop} (literal : ∀ l, P (.literal l))
    (number : ∀ n, P (.number n)) (string : ∀ s, P (.string s))
    (array : ∀ ws items, (∀ e ∈ items, P e.value) → P (.array ws items))
    (object : ∀ ws members, (∀ m ∈ members, P m.value) → P (.object ws members)) :
    ∀ t, P t := by
  apply Text.rec (motive_1 := P) (motive_2 := fun items => ∀ e ∈ items, P e.value)
    (motive_3 := fun members => ∀ m ∈ members, P m.value) (motive_4 := fun e => P e.value)
    (motive_5 := fun m => P m.value)
  · exact literal
  · exact number
  · exact string
  · exact array
  · exact object
  · exact fun _ h => absurd h List.not_mem_nil
  · intro e rest he hrest e' h
    rcases List.mem_cons.mp h with rfl | h
    · exact he
    · exact hrest e' h
  · exact fun _ h => absurd h List.not_mem_nil
  · intro m rest hm hrest m' h
    rcases List.mem_cons.mp h with rfl | h
    · exact hm
    · exact hrest m' h
  · exact fun _ _ _ h => h
  · exact fun _ _ _ _ _ _ h => h

/-! ## Tokens -/

/-- The two kinds of brackets. -/
inductive Kind
  | brace
  | square
  deriving DecidableEq

def Kind.openByte : Kind → UInt8
  | brace => 0x7b
  | square => 0x5b

def Kind.closeByte : Kind → UInt8
  | brace => 0x7d
  | square => 0x5d

inductive Token
  | run (r : Run)
  | opening (k : Kind)
  | closing (k : Kind)
  | string (s : List Piece)

def quoted (s : Bytes) : Bytes := 0x22 :: (s ++ [0x22])

def Token.bytes : Token → Bytes
  | run r => r.bytes
  | opening k => [k.openByte]
  | closing k => [k.closeByte]
  | string s => quoted (spelling s)

def bytesOf (ts : List Token) : Bytes := ts.flatMap Token.bytes

def commaToken : Token := .run ⟨[0x2c], List.all_eq_true.mp (by decide)⟩

def colonToken : Token := .run ⟨[0x3a], List.all_eq_true.mp (by decide)⟩

/-- Rows of tokens, with commas between them. -/
def joined : List (List Token) → List Token
  | [] => []
  | first :: rest => first ++ rest.flatMap (commaToken :: ·)

/-- The tokens of a key, up to its value. -/
def Member.label {α : Type} (m : Member α) : List Token :=
  [.run m.before.run, .string m.key, .run m.afterKey.run, colonToken, .run m.beforeValue.run]

mutual

def Text.tokens : Text → List Token
  | .literal l => [.run ⟨l.bytes, l.plain⟩]
  | .number n => [.run ⟨n.bytes, fun b h => isPlain_of_isNumberByte (n.numberBytes b h)⟩]
  | .string s => [.string s]
  | .array ws items =>
    .opening .square :: .run ws.run :: (joined (itemsTokens items) ++ [.closing .square])
  | .object ws members =>
    .opening .brace :: .run ws.run :: (joined (membersTokens members) ++ [.closing .brace])

def itemsTokens : List (Elem Text) → List (List Token)
  | [] => []
  | ⟨before, value, after⟩ :: rest =>
    (.run before.run :: (value.tokens ++ [.run after.run])) :: itemsTokens rest

def membersTokens : List (Member Text) → List (List Token)
  | [] => []
  | ⟨before, key, afterKey, beforeValue, value, after⟩ :: rest =>
    ([.run before.run, .string key, .run afterKey.run, colonToken, .run beforeValue.run] ++
      value.tokens ++ [.run after.run]) :: membersTokens rest

end

def Elem.tokens (e : Elem Text) : List Token :=
  .run e.before.run :: (e.value.tokens ++ [.run e.after.run])

def Member.tokens (m : Member Text) : List Token :=
  m.label ++ m.value.tokens ++ [.run m.after.run]

theorem itemsTokens_eq (items : List (Elem Text)) : itemsTokens items = items.map Elem.tokens := by
  induction items with
  | nil => rfl
  | cons e rest ih =>
    rw [itemsTokens, ih]
    rfl

theorem membersTokens_eq (members : List (Member Text)) :
    membersTokens members = members.map Member.tokens := by
  induction members with
  | nil => rfl
  | cons m rest ih =>
    rw [membersTokens, ih]
    rfl

/-- The bytes of a text. -/
def Text.bytes (t : Text) : Bytes := bytesOf t.tokens

/-! ## Depth -/

def maxOf (l : List Nat) : Nat := l.foldr max 0

theorem le_maxOf {l : List Nat} {n : Nat} (h : n ∈ l) : n ≤ maxOf l := by
  induction l with
  | nil => cases h
  | cons a rest ih =>
    rcases List.mem_cons.mp h with rfl | h
    · exact Nat.le_max_left _ _
    · exact Nat.le_trans (ih h) (Nat.le_max_right _ _)

mutual

/-- How deep arrays and objects are nested. -/
def Text.depth : Text → Nat
  | .literal _ => 0
  | .number _ => 0
  | .string _ => 0
  | .array _ items => maxOf (itemDepths items) + 1
  | .object _ members => maxOf (memberDepths members) + 1

def itemDepths : List (Elem Text) → List Nat
  | [] => []
  | ⟨_, value, _⟩ :: rest => value.depth :: itemDepths rest

def memberDepths : List (Member Text) → List Nat
  | [] => []
  | ⟨_, _, _, _, value, _⟩ :: rest => value.depth :: memberDepths rest

end

theorem itemDepths_eq (items : List (Elem Text)) :
    itemDepths items = items.map (·.value.depth) := by
  induction items with
  | nil => rfl
  | cons e rest ih =>
    rw [itemDepths, ih]
    rfl

theorem memberDepths_eq (members : List (Member Text)) :
    memberDepths members = members.map (·.value.depth) := by
  induction members with
  | nil => rfl
  | cons m rest ih =>
    rw [memberDepths, ih]
    rfl

theorem Text.depth_item (ws : Ws) {items : List (Elem Text)} {e : Elem Text} (h : e ∈ items) :
    e.value.depth < (Text.array ws items).depth := by
  rw [Text.depth, itemDepths_eq]
  exact Nat.lt_succ_of_le (le_maxOf (List.mem_map_of_mem h))

theorem Text.depth_member (ws : Ws) {members : List (Member Text)} {m : Member Text}
    (h : m ∈ members) : m.value.depth < (Text.object ws members).depth := by
  rw [Text.depth, memberDepths_eq]
  exact Nat.lt_succ_of_le (le_maxOf (List.mem_map_of_mem h))

mutual

/-- How deep the brackets of one kind are nested. -/
def Text.depthOf (k : Kind) : Text → Nat
  | .literal _ => 0
  | .number _ => 0
  | .string _ => 0
  | .array _ items => maxOf (itemDepthsOf k items) + (if k = .square then 1 else 0)
  | .object _ members => maxOf (memberDepthsOf k members) + (if k = .brace then 1 else 0)

def itemDepthsOf (k : Kind) : List (Elem Text) → List Nat
  | [] => []
  | ⟨_, value, _⟩ :: rest => value.depthOf k :: itemDepthsOf k rest

def memberDepthsOf (k : Kind) : List (Member Text) → List Nat
  | [] => []
  | ⟨_, _, _, _, value, _⟩ :: rest => value.depthOf k :: memberDepthsOf k rest

end

theorem itemDepthsOf_eq (k : Kind) (items : List (Elem Text)) :
    itemDepthsOf k items = items.map (·.value.depthOf k) := by
  induction items with
  | nil => rfl
  | cons e rest ih =>
    rw [itemDepthsOf, ih]
    rfl

theorem memberDepthsOf_eq (k : Kind) (members : List (Member Text)) :
    memberDepthsOf k members = members.map (·.value.depthOf k) := by
  induction members with
  | nil => rfl
  | cons m rest ih =>
    rw [memberDepthsOf, ih]
    rfl

theorem Text.depthOf_item (k : Kind) (ws : Ws) {items : List (Elem Text)} {e : Elem Text}
    (h : e ∈ items) :
    e.value.depthOf k + (if k = .square then 1 else 0) ≤ (Text.array ws items).depthOf k := by
  have hle : e.value.depthOf k ≤ maxOf (items.map (·.value.depthOf k)) :=
    le_maxOf (List.mem_map_of_mem h)
  rw [Text.depthOf, itemDepthsOf_eq]
  omega

theorem Text.depthOf_member (k : Kind) (ws : Ws) {members : List (Member Text)}
    {m : Member Text} (h : m ∈ members) :
    m.value.depthOf k + (if k = .brace then 1 else 0) ≤ (Text.object ws members).depthOf k := by
  have hle : m.value.depthOf k ≤ maxOf (members.map (·.value.depthOf k)) :=
    le_maxOf (List.mem_map_of_mem h)
  rw [Text.depthOf, memberDepthsOf_eq]
  omega

theorem maxOf_le {l : List Nat} {n : Nat} (h : ∀ a ∈ l, a ≤ n) : maxOf l ≤ n := by
  induction l with
  | nil => exact Nat.zero_le _
  | cons a rest ih =>
    have ha := h a List.mem_cons_self
    have hrest := ih fun b hb => h b (List.mem_cons_of_mem _ hb)
    exact Nat.max_le.mpr ⟨ha, hrest⟩

/-- Brackets of one kind are not nested deeper than those of both. -/
theorem Text.depthOf_le_depth (k : Kind) (t : Text) : t.depthOf k ≤ t.depth := by
  induction t using Text.induction with
  | literal l => exact Nat.le_refl _
  | number n => exact Nat.le_refl _
  | string s => exact Nat.le_refl _
  | array ws items ih =>
    have hmax : maxOf (items.map (·.value.depthOf k)) ≤ maxOf (items.map (·.value.depth)) := by
      apply maxOf_le
      intro d hd
      obtain ⟨e, he, rfl⟩ := List.mem_map.mp hd
      exact Nat.le_trans (ih e he) (le_maxOf (List.mem_map_of_mem he))
    rw [Text.depthOf, Text.depth, itemDepthsOf_eq, itemDepths_eq]
    split <;> omega
  | object ws members ih =>
    have hmax : maxOf (members.map (·.value.depthOf k)) ≤ maxOf (members.map (·.value.depth)) := by
      apply maxOf_le
      intro d hd
      obtain ⟨m, hm, rfl⟩ := List.mem_map.mp hd
      exact Nat.le_trans (ih m hm) (le_maxOf (List.mem_map_of_mem hm))
    rw [Text.depthOf, Text.depth, memberDepthsOf_eq, memberDepths_eq]
    split <;> omega

/-- The level of one kind of bracket after a token; none where it would fall below
zero or rise above `top`. -/
def Token.step (k : Kind) (top level : Nat) : Token → Option Nat
  | opening k' => if k' = k then if level < top then some (level + 1) else none else some level
  | closing k' => if k' = k then if level = 0 then none else some (level - 1) else some level
  | _ => some level

def walk (k : Kind) (top level : Nat) (ts : List Token) : Option Nat :=
  ts.foldlM (Token.step k top) level

section Walk
variable {k : Kind} {top level : Nat}

theorem Token.step_le {t : Token} {level' : Nat} (h : t.step k top level = some level')
    (hle : level ≤ top) : level' ≤ top := by
  unfold Token.step at h
  split at h
  · split at h
    · split at h
      · cases h
        omega
      · cases h
    · cases h
      exact hle
  · split at h
    · split at h
      · cases h
      · cases h
        omega
    · cases h
      exact hle
  · cases h
    exact hle

theorem walk_append {ts us : List Token} :
    walk k top level (ts ++ us) = (walk k top level ts).bind fun l => walk k top l us :=
  List.foldlM_append

theorem walk_append_of_neutral {ts us : List Token} (h : walk k top level ts = some level) :
    walk k top level (ts ++ us) = walk k top level us := by
  rw [walk_append, h]
  rfl

theorem walk_run {r : Run} {ts : List Token} :
    walk k top level (.run r :: ts) = walk k top level ts := rfl

theorem walk_joined {rows : List (List Token)}
    (h : ∀ row ∈ rows, walk k top level row = some level) :
    walk k top level (joined rows) = some level := by
  have hrest : ∀ rest : List (List Token), (∀ row ∈ rest, walk k top level row = some level) →
      walk k top level (rest.flatMap (commaToken :: ·)) = some level := by
    intro rest hrows
    induction rest with
    | nil => rfl
    | cons row rest ih =>
      rw [List.flatMap_cons, List.cons_append, commaToken, walk_run,
        walk_append_of_neutral (hrows row List.mem_cons_self)]
      exact ih fun r hr => hrows r (List.mem_cons_of_mem _ hr)
  cases rows with
  | nil => rfl
  | cons first rest =>
    rw [joined, walk_append_of_neutral (h first List.mem_cons_self)]
    exact hrest rest fun r hr => h r (List.mem_cons_of_mem _ hr)

/-- A row of neutral rows between brackets. -/
theorem walk_brackets {k' : Kind} {ws : Ws} {rows : List (List Token)}
    (htop : level + (if k = k' then 1 else 0) ≤ top)
    (h : ∀ row ∈ rows, ∀ l ≤ level + (if k = k' then 1 else 0), walk k top l row = some l) :
    walk k top level (.opening k' :: .run ws.run :: (joined rows ++ [.closing k'])) =
      some level := by
  by_cases hk : k = k'
  · subst hk
    rw [if_pos rfl] at htop h
    have hinner := walk_joined fun row hrow => h row hrow (level + 1) (Nat.le_refl _)
    calc walk k top level (.opening k :: .run ws.run :: (joined rows ++ [.closing k]))
        = walk k top (level + 1) (joined rows ++ [.closing k]) := by
          rw [walk, List.foldlM_cons, Token.step, if_pos rfl, if_pos (Nat.lt_of_succ_le htop)]
          rfl
      _ = walk k top (level + 1) [.closing k] := walk_append_of_neutral hinner
      _ = some level := by
          rw [walk, List.foldlM_cons, Token.step, if_pos rfl, if_neg (Nat.succ_ne_zero _)]
          rfl
  · have hinner := walk_joined fun row hrow => h row hrow level (Nat.le_add_right _ _)
    calc walk k top level (.opening k' :: .run ws.run :: (joined rows ++ [.closing k']))
        = walk k top level (joined rows ++ [.closing k']) := by
          rw [walk, List.foldlM_cons, Token.step, if_neg (Ne.symm hk)]
          rfl
      _ = walk k top level [.closing k'] := walk_append_of_neutral hinner
      _ = some level := by
          rw [walk, List.foldlM_cons, Token.step, if_neg (Ne.symm hk)]
          rfl

end Walk

/-- A text leaves the level of a bracket where it was. -/
theorem walk_tokens (k : Kind) {top : Nat} : ∀ (t : Text) (level : Nat),
    level + t.depthOf k ≤ top → walk k top level t.tokens = some level := by
  intro t
  induction t using Text.induction with
  | literal l => exact fun _ _ => rfl
  | number n => exact fun _ _ => rfl
  | string s => exact fun _ _ => rfl
  | array ws items ih =>
    intro level hdepth
    have hhere : (if k = .square then 1 else 0) ≤ (Text.array ws items).depthOf k :=
      Nat.le_add_left _ _
    rw [Text.tokens, itemsTokens_eq]
    apply walk_brackets (by omega)
    intro row hrow l hl
    obtain ⟨e, he, rfl⟩ := List.mem_map.mp hrow
    have hle := Text.depthOf_item k ws he
    rw [Elem.tokens, walk_run, walk_append_of_neutral (ih e he l (by omega))]
    rfl
  | object ws members ih =>
    intro level hdepth
    have hhere : (if k = .brace then 1 else 0) ≤ (Text.object ws members).depthOf k :=
      Nat.le_add_left _ _
    rw [Text.tokens, membersTokens_eq]
    apply walk_brackets (by omega)
    intro row hrow l hl
    obtain ⟨m, hm, rfl⟩ := List.mem_map.mp hrow
    have hle := Text.depthOf_member k ws hm
    rw [Member.tokens, List.append_assoc, walk_append_of_neutral rfl,
      walk_append_of_neutral (ih m hm l (by omega))]
    rfl

/-- What stands between the brackets of an array is neutral too. -/
theorem walk_items (k : Kind) {top level : Nat} {items : List (Elem Text)}
    (h : ∀ e ∈ items, level + e.value.depthOf k ≤ top) :
    walk k top level (joined (items.map Elem.tokens)) = some level := by
  apply walk_joined
  intro row hrow
  obtain ⟨e, he, rfl⟩ := List.mem_map.mp hrow
  rw [Elem.tokens, walk_run, walk_append_of_neutral (walk_tokens k e.value level (h e he))]
  rfl

theorem walk_members (k : Kind) {top level : Nat} {members : List (Member Text)}
    (h : ∀ m ∈ members, level + m.value.depthOf k ≤ top) :
    walk k top level (joined (members.map Member.tokens)) = some level := by
  apply walk_joined
  intro row hrow
  obtain ⟨m, hm, rfl⟩ := List.mem_map.mp hrow
  rw [Member.tokens, List.append_assoc, walk_append_of_neutral rfl,
    walk_append_of_neutral (walk_tokens k m.value level (h m hm))]
  rfl

/-! ## The bytes of a text -/

theorem bytesOf_cons (t : Token) (ts : List Token) : bytesOf (t :: ts) = t.bytes ++ bytesOf ts :=
  List.flatMap_cons

theorem bytesOf_append (ts us : List Token) : bytesOf (ts ++ us) = bytesOf ts ++ bytesOf us :=
  List.flatMap_append

theorem bytes_array (ws : Ws) (items : List (Elem Text)) :
    (Text.array ws items).bytes =
      0x5b :: (bytesOf (.run ws.run :: joined (items.map Elem.tokens)) ++ [0x5d]) := by
  rw [Text.bytes, Text.tokens, itemsTokens_eq, bytesOf_cons, ← List.cons_append, bytesOf_append]
  rfl

theorem bytes_object (ws : Ws) (members : List (Member Text)) :
    (Text.object ws members).bytes =
      0x7b :: (bytesOf (.run ws.run :: joined (members.map Member.tokens)) ++ [0x7d]) := by
  rw [Text.bytes, Text.tokens, membersTokens_eq, bytesOf_cons, ← List.cons_append, bytesOf_append]
  rfl

/-- A row and the rows after it. -/
theorem bytesOf_joined_cons (row next : List Token) (rest : List (List Token)) :
    bytesOf (joined (row :: next :: rest)) =
      bytesOf row ++ 0x2c :: bytesOf (joined (next :: rest)) := by
  rw [joined, joined, List.flatMap_cons, bytesOf_append, List.cons_append, bytesOf_cons]
  rfl

theorem bytesOf_joined_singleton (row : List Token) : bytesOf (joined [row]) = bytesOf row := by
  rw [joined, List.flatMap_nil, List.append_nil]

theorem bytes_member (m : Member Text) :
    bytesOf m.tokens = m.before.bytes ++ 0x22 :: (spelling m.key ++ 0x22 ::
      (m.afterKey.bytes ++ 0x3a :: (m.beforeValue.bytes ++ (m.value.bytes ++ m.after.bytes)))) := by
  rw [Member.tokens, bytesOf_append, bytesOf_append, ← Text.bytes]
  simp [Member.label, bytesOf, Token.bytes, quoted, Ws.run, colonToken]

/-- Rows with a comma after each. -/
def rowsBefore (rows : List (List Token)) : Bytes := rows.flatMap fun row => bytesOf row ++ [0x2c]

/-- Rows with a comma before each. -/
def rowsAfter (rows : List (List Token)) : Bytes := rows.flatMap fun row => 0x2c :: bytesOf row

theorem rowsBefore_cons (row : List Token) (rows : List (List Token)) :
    rowsBefore (row :: rows) = bytesOf row ++ 0x2c :: rowsBefore rows := by
  simp [rowsBefore]

/-- The bytes of some rows around one of them. -/
theorem bytesOf_rows_split (pre post : List (List Token)) (row : List Token) :
    bytesOf (joined (pre ++ row :: post)) =
      rowsBefore pre ++ (bytesOf row ++ rowsAfter post) := by
  have hafter : ∀ rest : List (List Token),
      bytesOf (rest.flatMap (commaToken :: ·)) = rowsAfter rest := by
    intro rest
    induction rest with
    | nil => rfl
    | cons r rest ih =>
      rw [List.flatMap_cons, bytesOf_append, ih, bytesOf_cons]
      rfl
  induction pre with
  | nil =>
    rw [List.nil_append, joined, bytesOf_append, hafter]
    rfl
  | cons p pre ih =>
    obtain ⟨next, rest, hnext⟩ : ∃ next rest, pre ++ row :: post = next :: rest := by
      cases pre with
      | nil => exact ⟨_, _, rfl⟩
      | cons q pre => exact ⟨_, _, rfl⟩
    rw [List.cons_append, hnext, bytesOf_joined_cons, ← hnext, ih, rowsBefore_cons]
    simp [List.append_assoc]

/-- Members with a comma after each. -/
def membersBefore (members : List (Member Text)) : Bytes :=
  members.flatMap fun m => bytesOf m.tokens ++ [0x2c]

/-- Members with a comma before each. -/
def membersAfter (members : List (Member Text)) : Bytes :=
  members.flatMap fun m => 0x2c :: bytesOf m.tokens

/-- The bytes of a list of members around one of them. -/
theorem bytesOf_joined_split (pre post : List (Member Text)) (m : Member Text) :
    bytesOf (joined ((pre ++ m :: post).map Member.tokens)) =
      membersBefore pre ++ (bytesOf m.tokens ++ membersAfter post) := by
  rw [List.map_append, List.map_cons, bytesOf_rows_split, rowsBefore, rowsAfter, List.flatMap_map,
    List.flatMap_map]
  rfl

/-! ## Values -/

/-- What a text means. A number is its spelling, a string its bytes. -/
inductive Val
  | null
  | bool (b : Bool)
  | number (spelling : Bytes)
  | string (s : Bytes)
  | array (items : List Val)
  | object (members : List (Bytes × Val))

def Literal.value : Literal → Val
  | null => .null
  | bool b => .bool b

mutual

def Text.value : Text → Val
  | .literal l => l.value
  | .number n => .number n.bytes
  | .string s => .string (decode s)
  | .array _ items => .array (itemValues items)
  | .object _ members => .object (memberValues members)

def itemValues : List (Elem Text) → List Val
  | [] => []
  | ⟨_, value, _⟩ :: rest => value.value :: itemValues rest

def memberValues : List (Member Text) → List (Bytes × Val)
  | [] => []
  | ⟨_, key, _, _, value, _⟩ :: rest => (decode key, value.value) :: memberValues rest

end

/-- A member's key and value. -/
def Member.entry (m : Member Text) : Bytes × Val := (decode m.key, m.value.value)

theorem memberValues_eq (members : List (Member Text)) :
    memberValues members = members.map Member.entry := by
  induction members with
  | nil => rfl
  | cons m rest ih =>
    rw [memberValues, ih]
    rfl

theorem value_object (ws : Ws) (members : List (Member Text)) :
    (Text.object ws members).value = .object (members.map Member.entry) := by
  rw [Text.value, memberValues_eq]

/-- `body` is a JSON text with this value, maybe with white space around it. -/
def Parses (body : Bytes) (v : Val) : Prop :=
  ∃ (lead : Ws) (t : Text) (trail : Ws),
    body = lead.bytes ++ t.bytes ++ trail.bytes ∧ t.value = v

end JsonText
