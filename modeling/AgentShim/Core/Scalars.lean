import Mathlib.Data.List.Basic
import Mathlib.Data.List.TakeDrop

/-
  Scalars of the source: double-precision numbers and strings

  A double is a rational, an infinity or not-a-number, with the IEEE
  comparisons the source's `<`, `<=` and `is_finite` make: every comparison
  with not-a-number is false. Strings are Lean strings; the operations below
  read them as their characters, and `len` counts UTF-8 bytes, as in the source.

  What is proved:
    1. `startsWith_iff`, `stripSuffixChar_eq_some` — the string operations in
       terms of the character lists.
    2. `startsWith_of_len_le` — beginnings of one string are ordered by length.
    3. `toAsciiLowercase_idem`, `len_toAsciiLowercase` — lower-casing twice is
       lower-casing once, and it keeps the length.
    4. `stripStart_eq_some`, `splitOnce_eq_some`, `splitOnce_append` — what is cut
       off joins up again.
    5. `F64.lt_of_le_of_lt` — the comparisons chain.
-/

namespace AgentShim

/-- A double-precision number as comparisons see it. -/
inductive F64
  | finite (q : Rat)
  | inf
  | negInf
  | nan
  deriving DecidableEq, Repr

namespace F64

def isFinite : F64 → Bool
  | finite _ => true
  | _ => false

/-- `a < b`. -/
def lt : F64 → F64 → Bool
  | nan, _ => false
  | _, nan => false
  | finite a, finite b => a < b
  | negInf, negInf => false
  | negInf, _ => true
  | _, negInf => false
  | inf, _ => false
  | finite _, inf => true

/-- `a <= b`. -/
def le : F64 → F64 → Bool
  | nan, _ => false
  | a, b => lt a b || a == b

theorem lt_irrefl (a : F64) : a.lt a = false := by
  cases a with
  | finite q => exact decide_eq_false (Std.lt_irrefl (a := q))
  | inf => rfl
  | negInf => rfl
  | nan => rfl

theorem lt_of_le_of_lt {a b c : F64} (hab : a.le b = true) (hbc : b.lt c = true) :
    a.lt c = true := by
  cases a <;> cases b <;> cases c <;> simp [le, lt] at hab hbc ⊢
  rcases hab with hlt | rfl
  · exact Std.lt_trans hlt hbc
  · exact hbc

end F64

namespace Text

/-- `str::starts_with`. -/
def startsWith (s pre : String) : Bool := pre.toList.isPrefixOf s.toList

/-- `str::ends_with` on a character. -/
def endsWithChar (s : String) (c : Char) : Bool := s.toList.getLast? == some c

/-- `str::strip_suffix` on a character. -/
def stripSuffixChar (s : String) (c : Char) : Option String :=
  if endsWithChar s c then some (String.ofList s.toList.dropLast) else none

/-- `str::strip_prefix`. -/
def stripStart (s pre : String) : Option String :=
  if startsWith s pre then some (String.ofList (s.toList.drop pre.toList.length)) else none

/-- `str::trim_end_matches` on a character. -/
def trimEndMatches (s : String) (c : Char) : String :=
  String.ofList (s.toList.reverse.dropWhile (· == c)).reverse

/-- `matches(c).count()`. -/
def countChar (s : String) (c : Char) : Nat := s.toList.count c

/-- `str::len`, in UTF-8 bytes. -/
def len (s : String) : Nat := s.utf8ByteSize

def isEmpty (s : String) : Bool := s.toList.isEmpty

/-- `str::to_ascii_lowercase`. -/
def toAsciiLowercase (s : String) : String := String.ofList (s.toList.map Char.toLower)

/-- `char::is_ascii_hexdigit`. -/
def isAsciiHexdigit (c : Char) : Bool :=
  ('0' ≤ c && c ≤ '9') || ('a' ≤ c && c ≤ 'f') || ('A' ≤ c && c ≤ 'F')

/-- `splitn(2, c)`: the part before the first `c`, and what follows it. -/
def splitOnce (s : String) (c : Char) : Option (String × String) :=
  match s.toList.span (· != c) with
  | (_, []) => none
  | (front, _ :: back) => some (String.ofList front, String.ofList back)

theorem stripStart_eq_some {s pre rest : String} (h : stripStart s pre = some rest) :
    s = pre ++ rest := by
  unfold stripStart at h
  split at h
  case isFalse => cases h
  case isTrue hstarts =>
    obtain rfl := Option.some.inj h
    obtain ⟨back, hback⟩ := List.isPrefixOf_iff_prefix.mp hstarts
    apply String.ext
    rw [String.toList_append, String.toList_ofList, ← hback, List.drop_left]

theorem splitOnce_eq_some {s front back : String} {c : Char}
    (h : splitOnce s c = some (front, back)) : s = front ++ String.singleton c ++ back := by
  unfold splitOnce at h
  split at h
  case h_1 => cases h
  case h_2 before x after hspan =>
    obtain ⟨rfl, rfl⟩ := Prod.mk.inj (Option.some.inj h)
    rw [List.span_eq_takeWhile_dropWhile, Prod.mk.injEq] at hspan
    obtain ⟨hbefore, hafter⟩ := hspan
    have hx : x = c := by
      have hhead : (s.toList.dropWhile (· != c)).head? = some x := by rw [hafter]; rfl
      have hnot := List.head?_dropWhile_not (· != c) s.toList
      rw [hhead] at hnot
      simpa using hnot
    apply String.ext
    rw [String.toList_append, String.toList_append, String.toList_ofList, String.toList_ofList,
      String.toList_singleton, List.append_assoc, List.singleton_append, ← hx, ← hafter, ← hbefore,
      List.takeWhile_append_dropWhile]

theorem splitOnce_append {front : String} {c : Char} (h : c ∉ front.toList) (back : String) :
    splitOnce (front ++ String.singleton c ++ back) c = some (front, back) := by
  have hfront : ∀ a ∈ front.toList, (a != c) = true := by
    intro a ha
    rw [bne_iff_ne]
    exact fun hac => h (hac ▸ ha)
  unfold splitOnce
  rw [List.span_eq_takeWhile_dropWhile, String.toList_append, String.toList_append,
    List.append_assoc, List.takeWhile_append_of_pos hfront, List.dropWhile_append_of_pos hfront,
    String.toList_singleton, List.singleton_append, List.takeWhile_cons_of_neg (by simp),
    List.dropWhile_cons_of_neg (by simp), List.append_nil]
  dsimp only
  rw [String.ofList_toList, String.ofList_toList]

theorem toLower_toLower (c : Char) : c.toLower.toLower = c.toLower := by
  have hlower : ¬ (c.toLower.val ≥ 'A'.val ∧ c.toLower.val ≤ 'Z'.val) := by
    unfold Char.toLower
    split <;> grind [UInt32.toNat_add, Char.toNat_val]
  rw [Char.toLower.eq_def c.toLower, dif_neg hlower]

theorem toAsciiLowercase_idem (s : String) :
    toAsciiLowercase (toAsciiLowercase s) = toAsciiLowercase s := by
  simp only [toAsciiLowercase, String.toList_ofList, List.map_map, Function.comp_def,
    toLower_toLower]

theorem toAsciiLowercase_append (s t : String) :
    toAsciiLowercase (s ++ t) = toAsciiLowercase s ++ toAsciiLowercase t := by
  apply String.ext
  simp [toAsciiLowercase]

theorem utf8Size_toLower (c : Char) : c.toLower.utf8Size = c.utf8Size := by
  unfold Char.toLower
  split
  · rename_i h
    have hlow : 65 ≤ c.val.toNat := h.1
    have hhigh : c.val.toNat ≤ 90 := h.2
    unfold Char.utf8Size
    grind [UInt32.toNat_add, Char.toNat_val]
  · rfl

theorem len_toAsciiLowercase (s : String) : len (toAsciiLowercase s) = len s := by
  have hchars : ∀ cs : List Char,
      (String.ofList (cs.map Char.toLower)).utf8ByteSize = (String.ofList cs).utf8ByteSize := by
    intro cs
    induction cs with
    | nil => rfl
    | cons c cs ih =>
      rw [List.map_cons, String.ofList_cons, String.ofList_cons, String.utf8ByteSize_append,
        String.utf8ByteSize_append, ih]
      simp [utf8Size_toLower]
  have h := hchars s.toList
  rw [String.ofList_toList] at h
  exact h

theorem isAsciiHexdigit_of_toLower {c : Char} (h : isAsciiHexdigit c.toLower = true) :
    isAsciiHexdigit c = true := by
  unfold Char.toLower at h
  split at h
  · rename_i hupper
    have hlow : 65 ≤ c.val.toNat := hupper.1
    have hhigh : c.val.toNat ≤ 90 := hupper.2
    unfold isAsciiHexdigit at *
    simp only [Char.le_def, Bool.or_eq_true, Bool.and_eq_true, decide_eq_true_eq] at *
    grind [UInt32.toNat_add, UInt32.le_iff_toNat_le, Char.toNat_val]
  · exact h

theorem startsWith_iff {s pre : String} : startsWith s pre = true ↔ pre.toList <+: s.toList :=
  List.isPrefixOf_iff_prefix

/-- Of two beginnings of one string the longer starts with the shorter. -/
theorem startsWith_of_len_le {s a b : String} (ha : startsWith s a = true)
    (hb : startsWith s b = true) (h : len a ≤ len b) : startsWith b a = true := by
  rw [startsWith_iff] at *
  rcases List.prefix_or_prefix_of_prefix ha hb with hab | ⟨rest, hba⟩
  · exact hab
  · have happ : a = b ++ String.ofList rest := by
      apply String.ext
      rw [String.toList_append, String.toList_ofList, hba]
    rw [len, len, happ, String.utf8ByteSize_append] at h
    have hrest : String.ofList rest = "" := String.utf8ByteSize_eq_zero_iff.mp (by omega)
    have heq : a = b := by rw [happ, hrest, String.append_empty]
    subst heq
    exact List.prefix_refl _

theorem endsWithChar_iff {s : String} {c : Char} :
    endsWithChar s c = true ↔ s.toList = s.toList.dropLast ++ [c] := by
  rw [endsWithChar, beq_iff_eq]
  constructor
  · intro h
    obtain ⟨l, hl⟩ := List.getLast?_eq_some_iff.mp h
    rw [hl, List.dropLast_concat]
  · intro h
    rw [h, List.getLast?_concat]

theorem stripSuffixChar_eq_some {s pre : String} {c : Char} :
    stripSuffixChar s c = some pre ↔ s.toList = pre.toList ++ [c] := by
  unfold stripSuffixChar
  constructor
  · intro h
    split at h
    · rename_i hend
      obtain rfl := Option.some.inj h
      rw [String.toList_ofList]
      exact endsWithChar_iff.mp hend
    · cases h
  · intro h
    have hend : endsWithChar s c = true := by
      rw [endsWithChar_iff, h, List.dropLast_concat]
    rw [if_pos hend, h, List.dropLast_concat, String.ofList_toList]

end Text

end AgentShim
