import Chronicle.Number.Reading
import Chronicle.Reading.Basic
import Chronicle.Text.Escape

/-!
# Literals

Numbers, quoted texts, the literals written as words, and templates.  A template is read as a chain
of additions that starts with the empty text, so that evaluating it concatenates its pieces; one
without substitutions is the text itself.
-/

set_option autoImplicit false

namespace Chronicle.Reading

/-- A numeral. -/
def number (source : ByteArray) (l : Tree.Label) : Except Fault Node := do
  let raw ← l.text source
  return .literal l.location (.number (← Number.ofLiteral raw)) raw

/-- A text between quotes. -/
def quoted (source : ByteArray) (l : Tree.Label) : Except Fault Node := do
  let raw ← l.text source
  let body := String.ofList (raw.toList.drop 1).dropLast
  return .literal l.location (.text (← Text.unescape body)) raw

/-- A literal that is a word. -/
def keyword (source : ByteArray) (l : Tree.Label) : Except Fault Node := do
  let raw ← l.text source
  match raw with
  | "true" => return .literal l.location (.boolean true) raw
  | "false" => return .literal l.location (.boolean false) raw
  | "null" => return .literal l.location .null raw
  | _ => throw .noElement

/-- A piece of a template: the parts so far, the text that follows them, and the byte up to which
the template is read. -/
structure TemplateState where
  parts : List Node := []
  pending : String := ""
  cursor : Nat

namespace TemplateState

/-- The text not yet made a part, as a literal. -/
def literal (location : Location) (s : TemplateState) : Node :=
  .literal location (.text s.pending) s.pending

/-- The state with the text before a byte taken up. -/
def upTo (source : ByteArray) (s : TemplateState) (start stop : Nat) :
    Except Fault TemplateState := do
  let text ← sourceText source s.cursor start
  return { s with pending := s.pending ++ text, cursor := stop }

/-- The state after an escape sequence or a substitution; other pieces change nothing, as their text
is taken up with that of the next one. -/
def step (source : ByteArray) (location : Location) (s : TemplateState) (piece : Reading) :
    Except Fault TemplateState := do
  let l := piece.label
  match l.kind with
  | "escape_sequence" =>
    let s ← s.upTo source l.start.byte l.stop.byte
    return { s with pending := s.pending ++ (← Text.unescape (← l.text source)) }
  | "template_substitution" =>
    let s ← s.upTo source l.start.byte l.stop.byte
    let parts := if s.pending == "" then s.parts else s.parts ++ [s.literal location]
    let inner ← firstConstruct piece.children
    return { s with parts := parts ++ [← inner.expression], pending := "" }
  | _ => return s

end TemplateState

/-- Additions from left to right, starting with the empty text. -/
def concatenation (location : Location) (parts : List Node) : Node :=
  parts.foldl (.binary location "+") (.literal location (.text "") "")

/-- A template. -/
def template (source : ByteArray) (l : Tree.Label) (pieces : List Reading) :
    Except Fault Node := do
  let s ← pieces.foldlM (TemplateState.step source l.location)
    ({ cursor := l.start.byte + 1 } : TemplateState)
  let s ← s.upTo source (l.stop.byte - 1) l.stop.byte
  let parts :=
    if s.pending == "" && !s.parts.isEmpty then s.parts else s.parts ++ [s.literal l.location]
  match parts with
  | [.literal location value raw] => return .literal location value raw
  | _ => return concatenation l.location parts

end Chronicle.Reading
