import Mathlib.Data.List.Basic

/-
  Texts and their bytes

  A text is a list of characters; its UTF-8 encoding is the list of their bytes.
  A byte position is a boundary if it lies between two characters. From any
  position the boundary at or below it is found by going back over the
  continuation bytes.

  What is proved:
    1. `takeBytes_append_dropBytes`, `byteLen_takeBytes_le`,
       `lt_byteLen_takeBytes` — a text splits at any byte position into the
       characters that lie before it and the rest, less than one character short
       of the position.
    2. `isContinuation_iff` — the bytes of a character after its first are the
       continuation bytes.
    3. `floorCharBoundary_eq` — going back over the continuation bytes ends
       exactly there.
-/

namespace Utf8

/-- The bytes of a text. -/
def bytes (s : List Char) : List UInt8 := s.flatMap String.utf8EncodeChar

def byteLen : List Char → Nat
  | [] => 0
  | c :: s => c.utf8Size + byteLen s

@[simp] theorem byteLen_nil : byteLen [] = 0 := rfl

@[simp] theorem byteLen_cons (c : Char) (s : List Char) :
    byteLen (c :: s) = c.utf8Size + byteLen s := rfl

@[simp] theorem byteLen_append (s t : List Char) : byteLen (s ++ t) = byteLen s + byteLen t := by
  induction s with
  | nil => simp
  | cons c s ih => rw [List.cons_append, byteLen_cons, byteLen_cons, ih, Nat.add_assoc]

/-! ## Splitting at a byte position -/

/-- The characters that lie wholly within the first `n` bytes. -/
def takeBytes : List Char → Nat → List Char
  | [], _ => []
  | c :: s, n => if c.utf8Size ≤ n then c :: takeBytes s (n - c.utf8Size) else []

/-- The characters from the first on that does not. -/
def dropBytes : List Char → Nat → List Char
  | [], _ => []
  | c :: s, n => if c.utf8Size ≤ n then dropBytes s (n - c.utf8Size) else c :: s

theorem takeBytes_append_dropBytes (s : List Char) (n : Nat) :
    takeBytes s n ++ dropBytes s n = s := by
  induction s generalizing n with
  | nil => rfl
  | cons c s ih =>
    unfold takeBytes dropBytes
    split
    · rw [List.cons_append, ih]
    · rfl

theorem byteLen_takeBytes_le (s : List Char) (n : Nat) : byteLen (takeBytes s n) ≤ n := by
  induction s generalizing n with
  | nil => exact Nat.zero_le n
  | cons c s ih =>
    unfold takeBytes
    split
    · rename_i hc
      rw [byteLen_cons]
      have := ih (n - c.utf8Size)
      omega
    · exact Nat.zero_le n

/-- What is left out of `n` bytes that the text has is less than a character. -/
theorem lt_byteLen_takeBytes {s : List Char} {n : Nat} (h : n ≤ byteLen s) :
    n < byteLen (takeBytes s n) + 4 := by
  induction s generalizing n with
  | nil =>
    rw [byteLen_nil] at h
    omega
  | cons c s ih =>
    rw [byteLen_cons] at h
    unfold takeBytes
    split
    · rename_i hc
      rw [byteLen_cons]
      have := ih (n := n - c.utf8Size) (by omega)
      omega
    · rename_i hc
      have := c.utf8Size_le_four
      omega

theorem byteLen_takeBytes_add (s : List Char) (n : Nat) :
    byteLen (takeBytes s n) + byteLen (dropBytes s n) = byteLen s := by
  rw [← byteLen_append, takeBytes_append_dropBytes]

/-- The cut made at a boundary is that boundary's. -/
theorem takeBytes_byteLen (s t : List Char) : takeBytes (s ++ t) (byteLen s) = s := by
  induction s with
  | nil =>
    cases t with
    | nil => rfl
    | cons c t =>
      have hc : ¬ c.utf8Size ≤ 0 := Nat.not_le.mpr c.utf8Size_pos
      exact if_neg hc
  | cons c s ih =>
    rw [List.cons_append, takeBytes, byteLen_cons, if_pos (Nat.le_add_right _ _),
      Nat.add_sub_cancel_left, ih]

theorem takeBytes_eq (s : List Char) (n : Nat) : takeBytes s n = s.take (takeBytes s n).length := by
  induction s generalizing n with
  | nil => rfl
  | cons c s ih =>
    unfold takeBytes
    split
    · rw [List.length_cons, List.take_succ_cons, ← ih]
    · rfl

theorem dropBytes_eq (s : List Char) (n : Nat) : dropBytes s n = s.drop (takeBytes s n).length := by
  induction s generalizing n with
  | nil => rfl
  | cons c s ih =>
    unfold takeBytes dropBytes
    split
    · rw [List.length_cons, List.drop_succ_cons, ih]
    · rfl

/-! ## Boundaries in the bytes -/

def isContinuation (b : UInt8) : Bool := b &&& 0b11000000 == 0b10000000

theorem isContinuation_rest : ∀ n < 64, isContinuation (UInt8.ofNat (n + 0x80)) = true := by
  decide

theorem isContinuation_first : (∀ n < 128, isContinuation (UInt8.ofNat n) = false) ∧
    (∀ n < 32, isContinuation (UInt8.ofNat (n + 0xc0)) = false) ∧
    (∀ n < 16, isContinuation (UInt8.ofNat (n + 0xe0)) = false) ∧
    ∀ n < 8, isContinuation (UInt8.ofNat (n + 0xf0)) = false := by
  decide

/-- Of the bytes of a character all but the first are continuation bytes. -/
theorem isContinuation_iff (c : Char) :
    ∃ b rest, String.utf8EncodeChar c = b :: rest ∧ isContinuation b = false ∧
      ∀ b' ∈ rest, isContinuation b' = true := by
  obtain ⟨hone, htwo, hthree, hfour⟩ := isContinuation_first
  have hrest (n : Nat) : isContinuation (UInt8.ofNat (n % 0x40 + 0x80)) = true :=
    isContinuation_rest _ (Nat.mod_lt _ (by decide))
  unfold String.utf8EncodeChar
  dsimp only
  split
  · refine ⟨_, _, rfl, hone _ (by omega), by simp⟩
  · split
    · refine ⟨_, _, rfl, htwo _ (Nat.mod_lt _ (by decide)), ?_⟩
      exact List.forall_mem_singleton.mpr (hrest _)
    · split
      · refine ⟨_, _, rfl, hthree _ (Nat.mod_lt _ (by decide)), ?_⟩
        exact List.forall_mem_cons.mpr ⟨hrest _, List.forall_mem_singleton.mpr (hrest _)⟩
      · refine ⟨_, _, rfl, hfour _ (Nat.mod_lt _ (by decide)), ?_⟩
        exact List.forall_mem_cons.mpr ⟨hrest _, List.forall_mem_cons.mpr
          ⟨hrest _, List.forall_mem_singleton.mpr (hrest _)⟩⟩

/-- Goes back over continuation bytes. -/
def backToBoundary (bs : List UInt8) : Nat → Nat
  | 0 => 0
  | i + 1 => if isContinuation (bs.getD (i + 1) 0) then backToBoundary bs i else i + 1

/-- The largest character boundary at or below a byte position. -/
def floorCharBoundary (s : List Char) (idx : Nat) : Nat :=
  if idx ≥ byteLen s then byteLen s else backToBoundary (bytes s) idx

/-- Inside the first character the way back ends at the start. -/
theorem backToBoundary_first {b : UInt8} {rest bs : List UInt8} {i : Nat}
    (hrest : ∀ b' ∈ rest, isContinuation b' = true) (hi : i ≤ rest.length) :
    backToBoundary (b :: rest ++ bs) i = 0 := by
  induction i with
  | zero => rfl
  | succ i ih =>
    have hbyte : (b :: rest ++ bs).getD (i + 1) 0 = rest[i] := by
      rw [List.getD_eq_getElem?_getD, List.cons_append, List.getElem?_cons_succ,
        List.getElem?_append_left hi, List.getElem?_eq_getElem hi, Option.getD_some]
    rw [backToBoundary, hbyte, if_pos (hrest _ (List.getElem_mem hi))]
    exact ih (by omega)

/-- Past a character that another one follows the way back ends in the rest. -/
theorem backToBoundary_append {as bs : List UInt8} {i : Nat} (has : as ≠ [])
    (hbs : isContinuation (bs.getD 0 0) = false) :
    backToBoundary (as ++ bs) (as.length + i) = as.length + backToBoundary bs i := by
  obtain ⟨n, hn⟩ : ∃ n, as.length = n + 1 :=
    Nat.exists_eq_add_one_of_ne_zero (by simpa using has)
  have hbyte (j : Nat) : (as ++ bs).getD (as.length + j) 0 = bs.getD j 0 := by
    rw [List.getD_eq_getElem?_getD, List.getElem?_append_right (by omega),
      Nat.add_sub_cancel_left, List.getD_eq_getElem?_getD]
  induction i with
  | zero =>
    have hzero := hbyte 0
    rw [Nat.add_zero, hn] at hzero
    have hstop : backToBoundary (as ++ bs) (n + 1) = n + 1 := by
      rw [backToBoundary, hzero, hbs]
      rfl
    rw [Nat.add_zero, hn, hstop]
    rfl
  | succ i ih =>
    have hsucc := hbyte (i + 1)
    rw [← Nat.add_assoc] at hsucc
    rw [← Nat.add_assoc, backToBoundary, backToBoundary, hsucc, ih]
    split
    · rfl
    · rw [Nat.add_assoc]

theorem isContinuation_head (s : List Char) : isContinuation ((bytes s).getD 0 0) = false := by
  cases s with
  | nil => rfl
  | cons c s =>
    obtain ⟨b, rest, henc, hb, -⟩ := isContinuation_iff c
    rw [bytes, List.flatMap_cons, henc]
    exact hb

theorem backToBoundary_bytes {s : List Char} {idx : Nat} (h : idx < byteLen s) :
    backToBoundary (bytes s) idx = byteLen (takeBytes s idx) := by
  induction s generalizing idx with
  | nil => cases h
  | cons c s ih =>
    rw [byteLen_cons] at h
    obtain ⟨b, rest, henc, -, hrest⟩ := isContinuation_iff c
    have hsize : rest.length + 1 = c.utf8Size := by
      rw [← String.length_utf8EncodeChar, henc, List.length_cons]
    have hbytes : bytes (c :: s) = b :: rest ++ bytes s := by
      rw [bytes, List.flatMap_cons, henc, ← bytes]
    unfold takeBytes
    split
    · -- the position lies past the first character
      rename_i hc
      obtain ⟨i, rfl⟩ := Nat.exists_eq_add_of_le hc
      have hlength : (b :: rest).length = c.utf8Size := hsize
      rw [hbytes, ← hlength, backToBoundary_append (by simp) (isContinuation_head s), hlength,
        Nat.add_sub_cancel_left, byteLen_cons, ih (by omega)]
    · rw [hbytes, backToBoundary_first hrest (by omega)]
      rfl

theorem floorCharBoundary_eq (s : List Char) (idx : Nat) :
    floorCharBoundary s idx = byteLen (takeBytes s idx) := by
  unfold floorCharBoundary
  split
  · rename_i hidx
    have hall : takeBytes s idx = s := by
      induction s generalizing idx with
      | nil => rfl
      | cons c s ih =>
        rw [byteLen_cons] at hidx
        rw [takeBytes, if_pos (by omega), ih _ (by omega)]
    rw [hall]
  · rename_i hidx
    exact backToBoundary_bytes (Nat.not_le.mp hidx)

end Utf8
