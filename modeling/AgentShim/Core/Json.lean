import AgentShim.Core.Types

/-
  Reading JSON values

  The accessors the stream parsers and the codecs use on a `serde_json::Value`,
  and the narrowing of the integers they read.

  Correspondence (Rust ↔ Lean):
    `Value::get` with a string key     ↔ `Json.get`
    `as_str`, `as_u64`, `as_array`     ↔ `Json.asStr`, `asU64`, `asArray`
    `is_null`                          ↔ `Json.isNull`
    `n as u32`                         ↔ `asU32`
    `a + b`, `a - b` on `u32` (release ↔ `addU32`, `subU32`
      build)
    an integer, serialized             ↔ `Json.number`
    a `skip_serializing_if` member     ↔ `Json.member`
-/

namespace AgentShim

namespace Json

/-- The member of an object under a key; nothing for any other value. -/
def get (v : Json) (key : String) : Option Json :=
  match v with
  | .obj fields => fields.lookup key
  | _ => none

def asStr : Json → Option String
  | .str s => some s
  | _ => none

/-- An integer that fits 64 unsigned bits. -/
def asU64 : Json → Option Nat
  | .num (.int n) => if 0 ≤ n ∧ n < 18446744073709551616 then some n.toNat else none
  | _ => none

def asArray : Json → Option (List Json)
  | .arr xs => some xs
  | _ => none

def isNull : Json → Bool
  | .null => true
  | _ => false

/-- `v.get(key).and_then(as_str)`. -/
def getStr (v : Json) (key : String) : Option String := (v.get key).bind asStr

/-- `v.get(key).and_then(as_u64)`. -/
def getU64 (v : Json) (key : String) : Option Nat := (v.get key).bind asU64

/-- `v.get(key).and_then(as_array)`. -/
def getArray (v : Json) (key : String) : Option (List Json) := (v.get key).bind asArray

def number (n : Nat) : Json := .num (.int n)

/-- A member that is left out where there is no value. -/
def member (key : String) (v : Option Json) : List (String × Json) :=
  v.toList.map fun v => (key, v)

theorem asU64_number {n : Nat} (h : n < 4294967296) : (number n).asU64 = some n := by
  have hn : (0 : Int) ≤ n ∧ (n : Int) < 18446744073709551616 := by omega
  rw [number, Json.asU64, if_pos hn, Int.toNat_natCast]

end Json

namespace Wire

/-- `n as u32`. -/
def asU32 (n : Nat) : Nat := n % 4294967296

/-- `a + b` in `u32`, which wraps in a release build. -/
def addU32 (a b : Nat) : Nat := (a + b) % 4294967296

/-- `a - b` in `u32`, which wraps in a release build. -/
def subU32 (a b : Nat) : Nat := (a + (4294967296 - b)) % 4294967296

/-- `a + b` in `usize`, on a 64-bit target. -/
def addUsize (a b : Nat) : Nat := (a + b) % 18446744073709551616

end Wire

end AgentShim
