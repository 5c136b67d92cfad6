import AgentShim.Lib.Scan
import AgentShim.Lib.Transducer
import AgentShim.Lib.Utf8
import AgentShim.Plugins.Invoke

/-
  The PII scrubber

  The scrubber applies its rules, each a regular expression and a replacement,
  to the texts of a request and to the text of a stream. In a stream it keeps
  back text and reasoning in one buffer each. A buffer that grows over the flush
  threshold is scrubbed up to its last bytes; any event that is no delta has
  both scrubbed and emptied first.

  What is proved:
    1. `flushSafePrefix_eq` — a flush scrubs the characters before the last
       `maxPatternTail` bytes and keeps the others.
    2. `applyRules_never`, `applyRules_start` — the rule that never fires, and the
       one that puts a text at the start.

  A text is a list of characters. The engine of the regular expressions is a
  parameter: where an expression matches, and what a replacement expands to at a
  match.

  Correspondence (Rust ↔ Lean):
    `regex::Regex`                          ↔ `Regex`, over `Scan.Matcher`
    `CompiledRule`, `PiiScrubber`           ↔ the same names
    `flush_safe_prefix`, `scrub_full`,      ↔ the same names, with
      `floor_char_boundary`                   `Utf8.floorCharBoundary`
    `index_from_event`, `apply_rules`       ↔ the same names
    `Plugin for PiiScrubber`                ↔ `PiiScrubber.hooks`,
                                              `scrubberMethods`
  The counter of matches is left out.
-/

namespace AgentShim.Plugins

open Transducer Utf8

/-- A compiled expression: where it matches, and what a replacement template
expands to at a match. -/
structure Regex extends Scan.Matcher Char where
  expand : List Char → List Char → Nat × Nat → List Char

namespace Regex

def replaceAll (r : Regex) (replacement text : List Char) : List Char :=
  r.toMatcher.replaceAll (r.expand replacement text) text

/-- An expression that matches nowhere. -/
def never : Regex where
  toMatcher := Scan.Matcher.never
  expand := fun replacement _ _ => replacement

/-- `\A`, the start of the text. -/
def atStart : Regex where
  toMatcher := Scan.Matcher.atStart
  expand := fun replacement _ _ => replacement

/-- An expression of plain characters. -/
def literal (word : List Char) : Regex where
  toMatcher := Scan.Matcher.literal word
  expand := fun replacement _ _ => replacement

end Regex

structure CompiledRule where
  name : String
  regex : Regex
  replacement : List Char

structure PiiScrubber where
  inbound : List CompiledRule
  outbound : List CompiledRule

def maxPatternTail : Nat := 64

def flushThreshold : Nat := 256

/-- Each rule in turn over the result of those before it. -/
def applyRules (rules : List CompiledRule) (text : List Char) : List Char :=
  rules.foldl
    (fun current rule =>
      if (rule.regex.findIter current).length > 0 then
        rule.regex.replaceAll rule.replacement current
      else current)
    text

/-- The text that is safe to emit, scrubbed, and what stays in the buffer. -/
def flushSafePrefix (rules : List CompiledRule) (buf : List Char) : List Char × List Char :=
  let splitAt := floorCharBoundary buf (byteLen buf - maxPatternTail)
  (applyRules rules (takeBytes buf splitAt), dropBytes buf splitAt)

def scrubFull (rules : List CompiledRule) (buf : List Char) : List Char := applyRules rules buf

/-- A flush scrubs what lies before the last `maxPatternTail` bytes. -/
theorem flushSafePrefix_eq (rules : List CompiledRule) (buf : List Char) :
    flushSafePrefix rules buf =
      (applyRules rules (takeBytes buf (byteLen buf - maxPatternTail)),
        dropBytes buf (byteLen buf - maxPatternTail)) := by
  have hcut := takeBytes_byteLen (takeBytes buf (byteLen buf - maxPatternTail))
    (dropBytes buf (byteLen buf - maxPatternTail))
  rw [takeBytes_append_dropBytes] at hcut
  rw [flushSafePrefix, floorCharBoundary_eq]
  rw [hcut, dropBytes_eq, hcut, ← dropBytes_eq]

@[simp] theorem applyRules_nil (text : List Char) : applyRules [] text = text := rfl

/-- A rule that never fires leaves every text alone. -/
def neverRule : CompiledRule where
  name := "never"
  regex := .never
  replacement := []

/-- A rule that puts a text at the start. -/
def startRule (text : List Char) : CompiledRule where
  name := "start"
  regex := .atStart
  replacement := text

theorem applyRules_never (text : List Char) : applyRules [neverRule] text = text := by
  have hnone : neverRule.regex.findIter text = [] := Scan.Matcher.findIter_never text
  rw [applyRules, List.foldl_cons, List.foldl_nil, hnone]
  rfl

theorem applyRules_start (front text : List Char) :
    applyRules [startRule front] text = front ++ text := by
  have hone : (startRule front).regex.findIter text = [(0, 0)] :=
    Scan.Matcher.findIter_atStart text
  rw [applyRules, List.foldl_cons, List.foldl_nil, hone]
  exact Scan.Matcher.replaceAll_atStart _ text

/-- The text held back in a request, per kind. -/
structure PiiBuffer where
  text : List Char := []
  reasoning : List Char := []

def indexFromEvent : StreamEvent → Option Nat
  | .contentBlockStart index _ | .contentBlockStop index | .toolCallStart index _ _
  | .toolCallArgumentsDelta index _ | .toolCallStop index => some index
  | _ => none

def onStreamEvent (rules : List CompiledRule) : StreamEvent → Emitter PiiBuffer StreamEvent
  | .textDelta index text => fun buf =>
    let pushed := buf.text ++ text.toList
    if byteLen pushed > flushThreshold then
      let (emitted, rest) := flushSafePrefix rules pushed
      ({ buf with text := rest },
        if emitted.isEmpty then [] else [.textDelta index (String.ofList emitted)])
    else ({ buf with text := pushed }, [])
  | .reasoningDelta index text => fun buf =>
    let pushed := buf.reasoning ++ text.toList
    if byteLen pushed > flushThreshold then
      let (emitted, rest) := flushSafePrefix rules pushed
      ({ buf with reasoning := rest },
        if emitted.isEmpty then [] else [.reasoningDelta index (String.ofList emitted)])
    else ({ buf with reasoning := pushed }, [])
  | other => fun buf =>
    let label := (indexFromEvent other).getD 0
    let textOut :=
      if buf.text.isEmpty then []
      else
        let scrubbed := scrubFull rules buf.text
        if scrubbed.isEmpty then [] else [.textDelta label (String.ofList scrubbed)]
    let reasoningOut :=
      if buf.reasoning.isEmpty then []
      else
        let scrubbed := scrubFull rules buf.reasoning
        if scrubbed.isEmpty then [] else [.reasoningDelta label (String.ofList scrubbed)]
    ({ text := [], reasoning := [] }, textOut ++ reasoningOut ++ [other])

/-- A stream scrubbed from the empty buffer. -/
def scrub (rules : List CompiledRule) (es : List StreamEvent) : List StreamEvent :=
  (forEach (onStreamEvent rules) es {}).2

/-- The texts of the messages scrubbed. -/
def onDecodedRequest (rules : List CompiledRule) (req : CanonicalRequest) : CanonicalRequest :=
  let scrubBlock : ContentBlock → ContentBlock
    | .text t => .text { t with text := String.ofList (applyRules rules t.text.toList) }
    | .reasoning r => .reasoning { r with text := String.ofList (applyRules rules r.text.toList) }
    | block => block
  { req with
    messages := req.messages.map fun msg => { msg with content := msg.content.map scrubBlock } }

/-- The hooks an instance has rules for. -/
def PiiScrubber.hooks (p : PiiScrubber) : HookSet where
  decodedRequest := !p.inbound.isEmpty
  resolved := false
  streamEvent := !p.outbound.isEmpty
  responseComplete := false

instance : Plugin PiiScrubber where
  kindName := fun _ => "pii_scrubber"
  hooks := PiiScrubber.hooks

/-- The hooks of the scrubbers of a request; the buffer is their scratch entry,
which all of them find under the name of their kind. -/
def scrubberMethods : PluginMethods PiiScrubber PiiBuffer where
  onDecodedRequest := fun _ p req buf => (.returned (.ok (onDecodedRequest p.inbound req)), buf)
  onResolved := fun _ _ req _ buf => (.returned (.ok req), buf)
  onStreamEvent := fun _ p event buf =>
    (.returned (.ok (onStreamEvent p.outbound event buf).2), (onStreamEvent p.outbound event buf).1)

end AgentShim.Plugins
