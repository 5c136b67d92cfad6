import AgentShim.Core.Json
import AgentShim.Lib.Utf8
import AgentShim.Providers.ModelScanner

/-
  Rewriting the model of a passthrough body

  A passthrough request is sent on as it came, with the model of its route. The
  fast path finds the string under the top-level `model` by a scan of the bytes and
  splices the new name in; where the scan gives up, or the name has to be escaped,
  the body is read as a `serde_json::Value` and written again.

  What is proved:
    1. `rewriteModel_isSome` — no slice is out of range, whatever the bytes.
    2. `parses_spliced` — a spliced body is the object with the member's value
       replaced.
    3. `rewrite_model_replaces` — on a JSON object with one model, a string, the fast
       path is taken iff neither the key nor the name is escaped; its result is the
       body with the model replaced, byte for byte and as a value.
    4. `rewrite_refused` — the round trip refuses some of these objects.

  Correspondence (Rust ↔ Lean):
    `needs_no_json_escape`             ↔ `needsNoJsonEscape`
    `serde_json::{from_slice, to_vec}` ↔ `Serde`
    `Map::insert`                      ↔ `insertMember`
    `rewrite_model`                    ↔ `rewriteModel`, whose last part is
                                          `slowPath`; nothing where a slice panics
-/

namespace AgentShim.ModelRewrite

open Cursor JsonText

/-! ## Rewriting -/

/-- `serde_json::from_slice` and `to_vec` on a `Value`. -/
structure Serde where
  fromSlice : Bytes → Except String Json
  toVec : Json → Except String Bytes

/-- The bytes of a string. -/
def utf8 (s : String) : Bytes := Utf8.bytes s.toList

def needsNoJsonEscape (s : String) : Bool :=
  (utf8 s).all fun b => 0x20 ≤ b && b ≤ 0x7e && b != 0x22 && b != 0x5c

/-- `Map::insert`: at the place of the key, or at the end. -/
def insertMember (members : List (String × Json)) (key : String) (v : Json) :
    List (String × Json) :=
  if members.any fun m => m.1 == key then
    members.map fun m => if m.1 = key then (key, v) else m
  else members ++ [(key, v)]

/-- The round trip through a `Value`. -/
def slowPath (serde : Serde) (body : Bytes) (upstreamModel : String) :
    Except ProviderError Bytes :=
  match serde.fromSlice body with
  | .error e => .error (.decode e)
  | .ok (.obj members) =>
    match serde.toVec (.obj (insertMember members "model" (.str upstreamModel))) with
    | .error e => .error (.encode e)
    | .ok bytes => .ok bytes
  | .ok _ => .error (.decode "Anthropic Messages request body must be a JSON object")

/-- The body around a span with a new string in it; nothing where a slice is out of
range. -/
def splice (body : Bytes) (span : Span) (upstreamModel : String) : Option Bytes :=
  if span.start ≤ span.stop ∧ span.stop ≤ body.length then
    some (body.take span.start ++ quoted (utf8 upstreamModel) ++ body.drop span.stop)
  else none

def modelKey : Bytes := [0x6d, 0x6f, 0x64, 0x65, 0x6c]

/-- The span the fast path replaces, where it is taken. -/
def fastSpan (body : Bytes) (upstreamModel : String) : Option Span :=
  if needsNoJsonEscape upstreamModel then findTopLevelStringValueSpan body modelKey else none

def rewriteModel (serde : Serde) (body : Bytes) (upstreamModel : String) :
    Option (Except ProviderError Bytes) :=
  match fastSpan body upstreamModel with
  | some span => (splice body span upstreamModel).map .ok
  | none => some (slowPath serde body upstreamModel)

/-! ## No slice is out of range -/

theorem rewriteModel_isSome (serde : Serde) (body : Bytes) (upstreamModel : String) :
    (rewriteModel serde body upstreamModel).isSome = true := by
  unfold rewriteModel
  split
  · rename_i span hspan
    unfold fastSpan at hspan
    split at hspan
    · have hbounds := span_bounds hspan
      rw [splice, if_pos ⟨Nat.le_of_lt hbounds.1, hbounds.2⟩]
      rfl
    · cases hspan
  · rfl

/-! ## The body with a new model -/

theorem utf8_stringBytes {s : String} (h : needsNoJsonEscape s = true) :
    ∀ b ∈ utf8 s, isStringByte b = true := by
  intro b hb
  have hsafe := List.all_eq_true.mp h b hb
  simp only [Bool.and_eq_true] at hsafe
  simp only [isStringByte, Bool.and_eq_true]
  exact ⟨⟨hsafe.1.1.1, hsafe.1.2⟩, hsafe.2⟩

/-- The entries of an object with a new string under the model. -/
def replaceModel (s : Bytes) (entries : List (Bytes × Val)) : List (Bytes × Val) :=
  entries.map fun f => if f.1 = modelKey then (f.1, .string s) else f

theorem replaceModel_of_other {s : Bytes} {members : List (Member Text)}
    (h : ∀ m ∈ members, decode m.key ≠ modelKey) :
    replaceModel s (members.map Member.entry) = members.map Member.entry := by
  rw [replaceModel, List.map_map]
  apply List.map_congr_left
  intro m hm
  exact if_neg (h m hm)

/-- A key spelled as the model means it. -/
theorem decode_of_spelling {key : List Piece} (h : spelling key = modelKey) :
    decode key = modelKey :=
  (decode_of_plain (h ▸ by decide)).trans h

/-- A body with the value of one member spliced is the body of the object with that
value. -/
theorem parses_spliced {lead ws trail : Ws} {pre post : List (Member Text)} {m : Member Text}
    {old : List Piece} (hmodel : decode m.key = modelKey) (hvalue : m.value = .string old)
    (hothers : ∀ m' ∈ pre ++ post, decode m'.key ≠ modelKey) {front back s : Bytes}
    (hbody : bodyOf lead ws (pre ++ m :: post) trail =
      front ++ quoted (spelling old) ++ back)
    (hback : back = m.after.bytes ++ (membersAfter post ++ 0x7d :: trail.bytes))
    (hs : ∀ b ∈ s, isStringByte b = true) :
    Parses (front ++ quoted s ++ back)
      (.object (replaceModel s ((pre ++ m :: post).map Member.entry))) := by
  have hbytes (v : List Piece) : bodyOf lead ws (pre ++ { m with value := .string v } :: post)
      trail = lead.bytes ++ 0x7b :: (ws.bytes ++ (membersBefore pre ++ (m.before.bytes ++ 0x22 ::
        (spelling m.key ++ 0x22 :: (m.afterKey.bytes ++ 0x3a :: m.beforeValue.bytes))))) ++
        quoted (spelling v) ++ back := by
    have hstring : (Text.string v).bytes = quoted (spelling v) := List.append_nil _
    rw [bodyOf, bytes_object, bytesOf_cons, bytesOf_joined_split, bytes_member, hstring, hback]
    simp [Token.bytes, Ws.run, List.append_assoc]
  have hsame : ({ m with value := .string old } : Member Text) = m := by rw [← hvalue]
  have hfront : front = lead.bytes ++ 0x7b :: (ws.bytes ++ (membersBefore pre ++ (m.before.bytes ++
      0x22 :: (spelling m.key ++ 0x22 :: (m.afterKey.bytes ++ 0x3a :: m.beforeValue.bytes))))) := by
    have hold := hbytes old
    rw [hsame, hbody] at hold
    exact List.append_cancel_right (List.append_cancel_right hold)
  have hpre := replaceModel_of_other (s := s) fun m' hm' => hothers m' (List.mem_append_left _ hm')
  have hpost := replaceModel_of_other (s := s)
    fun m' hm' => hothers m' (List.mem_append_right _ hm')
  have hnew := hbytes (plainPieces s hs)
  rw [spelling_plainPieces, ← hfront] at hnew
  refine ⟨lead, .object ws (pre ++ { m with value := .string (plainPieces s hs) } :: post), trail,
    hnew.symm, ?_⟩
  rw [value_object]
  congr 1
  rw [List.map_append, List.map_append, List.map_cons, List.map_cons, replaceModel,
    List.map_append, List.map_cons]
  unfold replaceModel at hpre hpost
  rw [hpre, hpost]
  congr 2
  have hm : (Member.entry m).1 = modelKey := hmodel
  rw [if_pos hm]
  exact Prod.ext rfl (congrArg Val.string (decode_plainPieces s hs))

/-- The members of a value with a new string under the model. -/
def setModel (upstreamModel : String) (members : List (String × Json)) : List (String × Json) :=
  members.map fun f => if f.1 = "model" then ("model", .str upstreamModel) else f

/-- Where the body is read as an object with a model, the round trip writes that
object with the model replaced. -/
theorem slowPath_replaces {serde : Serde} {body out : Bytes} {upstreamModel : String}
    {members : List (String × Json)} (hread : serde.fromSlice body = .ok (.obj members))
    (hmodel : "model" ∈ members.map Prod.fst)
    (hwrite : serde.toVec (.obj (setModel upstreamModel members)) = .ok out) :
    slowPath serde body upstreamModel = .ok out := by
  have hany : (members.any fun m => m.1 == "model") = true := by
    obtain ⟨m, hm, hkey⟩ := List.mem_map.mp hmodel
    exact List.any_eq_true.mpr ⟨m, hm, beq_iff_eq.mpr hkey⟩
  rw [slowPath, hread]
  simp only [insertMember, hany, if_true]
  rw [← setModel, hwrite]

section Paths

variable {serde : Serde} {upstreamModel : String} (lead ws trail : Ws)
  {pre post : List (Member Text)} {m : Member Text}
  (hothers : ∀ m' ∈ pre ++ post, decode m'.key ≠ modelKey)
  (hscanned : ∀ m' ∈ pre ++ m :: post, m'.value.depth < 4294967296)

include hothers hscanned

/-- The fast path puts the name between the bytes around the old one. -/
theorem rewriteModel_fast {old : List Piece} (hmodel : decode m.key = modelKey)
    (hvalue : m.value = .string old) (hname : needsNoJsonEscape upstreamModel = true)
    (hkey : spelling m.key = modelKey) :
    ∃ front back,
      bodyOf lead ws (pre ++ m :: post) trail = front ++ quoted (spelling old) ++ back ∧
      rewriteModel serde (bodyOf lead ws (pre ++ m :: post) trail) upstreamModel =
        some (.ok (front ++ quoted (utf8 upstreamModel) ++ back)) ∧
      Parses (front ++ quoted (utf8 upstreamModel) ++ back)
        (.object (replaceModel (utf8 upstreamModel) ((pre ++ m :: post).map Member.entry))) := by
  have hbefore : ∀ m' ∈ pre, spelling m'.key ≠ modelKey ∧ m'.value.depth < 4294967296 :=
    fun m' hm' => ⟨fun h => hothers m' (List.mem_append_left _ hm') (decode_of_spelling h),
      hscanned m' (List.mem_append_left _ hm')⟩
  obtain ⟨start, hspan, hat⟩ := findSpan_hit lead ws trail post hbefore hkey hvalue
  generalize hbodyEq : bodyOf lead ws (pre ++ m :: post) trail = body at hspan hat ⊢
  have hbody : body = body.take start ++ quoted (spelling old) ++
      (m.after.bytes ++ (membersAfter post ++ 0x7d :: trail.bytes)) := by
    rw [List.append_assoc]
    exact hat.take_append.symm
  refine ⟨_, _, hbody, ?_, parses_spliced hmodel hvalue hothers (hbodyEq.trans hbody) rfl
    (utf8_stringBytes hname)⟩
  have hbounds := span_bounds hspan
  have hfast : fastSpan body upstreamModel =
      some ⟨start, start + (quoted (spelling old)).length⟩ := by
    rw [fastSpan, if_pos hname, hspan]
  rw [rewriteModel, hfast]
  dsimp only
  rw [splice, if_pos ⟨Nat.le_of_lt hbounds.1, hbounds.2⟩, hat.append.drop]
  rfl

/-- Elsewhere there is no span, and the body goes through the round trip. -/
theorem rewriteModel_slow
    (hescaped : ¬ (needsNoJsonEscape upstreamModel = true ∧ spelling m.key = modelKey)) :
    rewriteModel serde (bodyOf lead ws (pre ++ m :: post) trail) upstreamModel =
      some (slowPath serde (bodyOf lead ws (pre ++ m :: post) trail) upstreamModel) := by
  have hnone : fastSpan (bodyOf lead ws (pre ++ m :: post) trail) upstreamModel = none := by
    unfold fastSpan
    split
    case isFalse => rfl
    case isTrue hname =>
      apply findSpan_miss (List.append_ne_nil_of_right_ne_nil _ (List.cons_ne_nil _ _))
      intro m' hm'
      refine ⟨fun h => ?_, hscanned m' hm'⟩
      rcases List.mem_append.mp hm' with hm' | hm'
      · exact hothers m' (List.mem_append_left _ hm') (decode_of_spelling h)
      · rcases List.mem_cons.mp hm' with rfl | hm'
        · exact hescaped ⟨hname, h⟩
        · exact hothers m' (List.mem_append_right _ hm') (decode_of_spelling h)
  rw [rewriteModel, hnone]

end Paths

/-- A string of plain letters. -/
def letters (s : Bytes) (h : s.all isStringByte = true := by decide) : List Piece :=
  plainPieces s (List.all_eq_true.mp h)

/-- A member without white space. -/
def memberOf (key : List Piece) (value : Text) : Member Text where
  before := .none
  key := key
  afterKey := .none
  beforeValue := .none
  value := value
  after := .none

/-- A `from_slice` that refuses a body. -/
def refusing (message : String) : Serde where
  fromSlice := fun _ => .error message
  toVec := fun _ => .ok []

/-- The fast path is taken where neither the name nor the key is escaped, and replaces
the model in the bytes and in the value; elsewhere the round trip is. No slice is out of
range on any body. -/
theorem rewrite_model_replaces (serde : Serde) (upstreamModel : String) :
    (∀ body, (rewriteModel serde body upstreamModel).isSome = true) ∧
    ∀ (lead ws trail : Ws) (members : List (Member Text)) (m : Member Text) (old : List Piece),
      members.filter (fun m => decode m.key = modelKey) = [m] → m.value = .string old →
      (Text.object ws members).depth ≤ 4294967296 →
      let body := bodyOf lead ws members trail
      (needsNoJsonEscape upstreamModel = true → spelling m.key = modelKey →
        ∃ front back, body = front ++ quoted (spelling old) ++ back ∧
          rewriteModel serde body upstreamModel =
            some (.ok (front ++ quoted (utf8 upstreamModel) ++ back)) ∧
          Parses (front ++ quoted (utf8 upstreamModel) ++ back)
            (.object (replaceModel (utf8 upstreamModel) (members.map Member.entry)))) ∧
      (¬ (needsNoJsonEscape upstreamModel = true ∧ spelling m.key = modelKey) →
        rewriteModel serde body upstreamModel = some (slowPath serde body upstreamModel) ∧
        ∀ fields out, serde.fromSlice body = .ok (.obj fields) → "model" ∈ fields.map Prod.fst →
          serde.toVec (.obj (setModel upstreamModel fields)) = .ok out →
          rewriteModel serde body upstreamModel = some (.ok out)) := by
  refine ⟨fun body => rewriteModel_isSome serde body upstreamModel, ?_⟩
  intro lead ws trail members m old hfilter hvalue hdepth body
  -- the one member under the model, and the others around it
  obtain ⟨pre, post, rfl, hpre, hmodel, hpost⟩ := List.filter_eq_cons_iff.mp hfilter
  rw [decide_eq_true_eq] at hmodel
  have hothers : ∀ m' ∈ pre ++ post, decode m'.key ≠ modelKey := by
    intro m' hm' hkey
    rcases List.mem_append.mp hm' with hm' | hm'
    · exact hpre m' hm' (decide_eq_true hkey)
    · exact List.filter_eq_nil_iff.mp hpost m' hm' (decide_eq_true hkey)
  have hscanned : ∀ m' ∈ pre ++ m :: post, m'.value.depth < 4294967296 := fun m' hm' =>
    Nat.lt_of_lt_of_le (Text.depth_member ws hm') hdepth
  constructor
  · intro hname hkey
    exact rewriteModel_fast lead ws trail hothers hscanned hmodel hvalue hname hkey
  · intro hescaped
    have hslow : rewriteModel serde body upstreamModel =
        some (slowPath serde body upstreamModel) :=
      rewriteModel_slow lead ws trail hothers hscanned hescaped
    refine ⟨hslow, fun fields out hread hfields hwrite => ?_⟩
    rw [hslow, slowPath_replaces hread hfields hwrite]

/-- `{"model":"m"}` with the model `n`. -/
theorem rewrite_model_replaces_spliced :
    let members := [memberOf (letters modelKey) (.string (letters [0x6d]))]
    ∃ front back, bodyOf .none .none members .none = front ++ quoted [0x6d] ++ back ∧
      rewriteModel (refusing "not read") (bodyOf .none .none members .none) "n" =
        some (.ok (front ++ quoted (utf8 "n") ++ back)) ∧
      Parses (front ++ quoted (utf8 "n") ++ back) (.object [(modelKey, .string (utf8 "n"))]) := by
  intro members
  exact ((rewrite_model_replaces (refusing "not read") "n").2 .none .none .none members
    (memberOf (letters modelKey) (.string (letters [0x6d]))) (letters [0x6d]) rfl rfl
    (by decide)).1 (by decide) (by decide)

/-! ## Bodies the round trip refuses -/

/-- The key `model` with its fourth letter escaped. -/
def escapedKey : List Piece :=
  letters [0x6d, 0x6f, 0x64] ++ [.unicode ⟨0x30, 0x30, 0x36, 0x35, by decide⟩] ++ letters [0x6c]

/-- The number 1e999. -/
def hugeNumber : Number where
  negative := false
  int := ⟨[0x31], List.all_eq_true.mp (by decide), by decide⟩
  noLeadingZero := fun h => absurd h (by decide)
  fraction := none
  exponent := some
    ⟨false, none, ⟨[0x39, 0x39, 0x39], List.all_eq_true.mp (by decide), by decide⟩⟩

/-- `{"mod\u0065l":"m","x":1e999}` -/
def escapedMembers : List (Member Text) :=
  [memberOf escapedKey (.string (letters [0x6d])),
    memberOf (letters [0x78]) (.number hugeNumber)]

/-- Arrays in arrays. -/
def nestedArray : Nat → Text
  | 0 => .array .none []
  | n + 1 => .array .none [{ before := .none, value := nestedArray n, after := .none }]

theorem nestedArray_bytes (n : Nat) :
    (nestedArray n).bytes = List.replicate (n + 1) 0x5b ++ List.replicate (n + 1) 0x5d := by
  induction n with
  | zero => rfl
  | succ n ih =>
    have hinner : bytesOf (.run Ws.none.run :: joined
        ([{ before := .none, value := nestedArray n, after := .none }].map Elem.tokens)) =
        (nestedArray n).bytes := by
      rw [List.map_cons, List.map_nil, bytesOf_cons, bytesOf_joined_singleton, Elem.tokens,
        bytesOf_cons, bytesOf_append, ← Text.bytes]
      exact List.append_nil _
    rw [nestedArray, bytes_array, hinner, ih, List.replicate_succ (n := n + 1),
      List.replicate_succ' (n := n + 1) (a := (0x5d : UInt8))]
    simp [List.append_assoc]

/-- Opening brackets raise the depth, which wraps. -/
theorem scanBalanced_opens {body rest : Bytes} {depth n i : Nat} (hdepth : depth < 4294967296)
    (hat : At body i (List.replicate n 0x5b ++ rest)) :
    scanBalanced body .square depth i =
      scanBalanced body .square ((depth + n) % 4294967296) (i + n) := by
  induction n generalizing depth i with
  | zero => rw [Nat.add_zero, Nat.add_zero, Nat.mod_eq_of_lt hdepth]
  | succ n ih =>
    rw [List.replicate_succ, List.cons_append] at hat
    have hadd : Wire.addU32 depth 1 < 4294967296 := Nat.mod_lt _ (by decide)
    have hmod : (Wire.addU32 depth 1 + n) % 4294967296 = (depth + (n + 1)) % 4294967296 := by
      rw [Wire.addU32, Nat.mod_add_mod]
      congr 1
      omega
    rw [scanBalanced_open (k := .square) hat, ih hadd hat.step, hmod]
    congr 1
    omega

/-- `{"a":[[…]],"model":"m"}` -/
def deepMembers (n : Nat) : List (Member Text) :=
  [memberOf (letters [0x61]) (nestedArray n),
    memberOf (letters modelKey) (.string (letters [0x6d]))]

/-- One array more than the counter can tell from none: the scan of the value stops at
the first closing bracket. -/
theorem scanValueEnd_deep {body rest : Bytes} {n i : Nat} (hn : (n + 1) % 4294967296 = 0)
    (hat : At body i ((nestedArray (n + 1)).bytes ++ rest)) :
    ∃ stop, scanValueEnd body i = some stop ∧
      At body stop (0x5d :: (List.replicate n 0x5d ++ rest)) := by
  rw [nestedArray_bytes, List.append_assoc] at hat
  have hwrap : (0 + (n + 1 + 1)) % 4294967296 = 1 := by omega
  have hget : body[i]? = some 0x5b := by
    rw [List.replicate_succ, List.cons_append] at hat
    exact hat.get
  have hclose : At body (i + (n + 1 + 1)) (0x5d :: (List.replicate (n + 1) 0x5d ++ rest)) := by
    have happend := hat.append
    rwa [List.length_replicate, List.replicate_succ, List.cons_append] at happend
  have hzero : Wire.subU32 1 1 = 0 := rfl
  refine ⟨i + (n + 1 + 1) + 1, ?_, ?_⟩
  · unfold scanValueEnd
    rw [hget]
    dsimp only
    rw [if_neg (by decide), if_neg (by decide), if_pos rfl,
      scanBalanced_opens (by decide) hat, hwrap, scanBalanced_close (k := .square) hclose, hzero,
      if_pos rfl]
  · have hstep := hclose.step
    rwa [List.replicate_succ, List.cons_append] at hstep

theorem findSpan_deep {n : Nat} (hn : (n + 1) % 4294967296 = 0) :
    findTopLevelStringValueSpan (bodyOf .none .none (deepMembers (n + 1)) .none) modelKey =
      none := by
  let model := memberOf (letters modelKey) (.string (letters [0x6d]))
  let deep := memberOf (letters [0x61]) (nestedArray (n + 1))
  obtain ⟨i, hskip, hbrace, hat⟩ := at_members .none .none [] [model] deep .none
  have hmembers : deepMembers (n + 1) = [] ++ deep :: [model] := rfl
  rw [hmembers]
  generalize bodyOf .none .none ([] ++ deep :: [model]) .none = body at hskip hbrace hat ⊢
  have hmember : At body (i + 1)
      (Ws.none.bytes ++ (bytesOf deep.tokens ++ (membersAfter [model] ++ [0x7d]))) := by
    simpa [Ws.none, membersBefore] using hat
  obtain ⟨j, hat', hround⟩ := memberRound_key modelKey hmember
  have hvalue : At body j ((nestedArray (n + 1)).bytes ++ (membersAfter [model] ++ [0x7d])) := hat'
  have hstart : skipWhitespace body j = j := by
    apply skipWhitespace_at (w := []) hvalue (fun _ h => absurd h List.not_mem_nil)
    intro x hx
    cases hx
    decide
  obtain ⟨stop, hscan, hstop⟩ := scanValueEnd_deep hn hvalue
  have hafter : skipWhitespace body stop = stop :=
    skipWhitespace_at (w := []) hstop (fun _ h => absurd h List.not_mem_nil) fun x hx => by
      cases hx
      decide
  have hkey : spelling deep.key ≠ modelKey :=
    (by decide : spelling (letters [0x61]) ≠ modelKey)
  have hdone : memberRound body modelKey (i + 1) = .done none := by
    rw [hround, valueRound, hstart]
    dsimp only
    rw [hscan]
    dsimp only
    rw [if_neg hkey, hafter, hstop.get, if_neg (by decide)]
  rw [findTopLevelStringValueSpan, hskip, if_pos hbrace, memberLoop_done hdone]

/-- The round trip refuses a number out of its range, which an escaped key sends to it,
and arrays nested deeper than it goes, which the scan gives up on. -/
theorem rewrite_refused :
    let numberBody := bodyOf .none .none escapedMembers .none
    let deepBody := bodyOf .none .none (deepMembers 4294967296) .none
    needsNoJsonEscape "n" = true ∧
    (∃ fields, Parses numberBody (.object fields) ∧
      fields.filter (fun f => f.1 = modelKey) = [(modelKey, .string [0x6d])]) ∧
    rewriteModel (refusing "number out of range") numberBody "n" =
      some (.error (.decode "number out of range")) ∧
    (∃ fields, Parses deepBody (.object fields) ∧
      fields.filter (fun f => f.1 = modelKey) = [(modelKey, .string [0x6d])]) ∧
    rewriteModel (refusing "recursion limit exceeded") deepBody "n" =
      some (.error (.decode "recursion limit exceeded")) := by
  intro numberBody deepBody
  have hnumber : findTopLevelStringValueSpan numberBody modelKey = none := by
    apply findSpan_miss (List.cons_ne_nil _ _)
    intro m hm
    rcases List.mem_cons.mp hm with rfl | hm
    · exact ⟨by decide, by decide⟩
    · obtain rfl := List.mem_singleton.mp hm
      exact ⟨by decide, by decide⟩
  have hdeep : findTopLevelStringValueSpan deepBody modelKey = none :=
    findSpan_deep (n := 4294967295) (by decide)
  refine ⟨by decide, ⟨_, ⟨.none, _, .none, rfl, value_object _ _⟩, rfl⟩, ?_,
    ⟨_, ⟨.none, _, .none, rfl, value_object _ _⟩, rfl⟩, ?_⟩
  · rw [rewriteModel, fastSpan, if_pos (by decide), hnumber]
    rfl
  · rw [rewriteModel, fastSpan, if_pos (by decide), hdeep]
    rfl

end AgentShim.ModelRewrite
