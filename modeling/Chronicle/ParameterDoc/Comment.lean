import Chronicle.ParameterDoc.Builder
import Chronicle.ParameterDoc.Line
import Chronicle.ParameterDoc.Values

/-!
# Annotations of comments

A block comment is an annotation when one of its lines declares a parameter.  Lines without values
and lines of an unknown kind are reported and passed over.
-/

set_option autoImplicit false

namespace Chronicle

namespace Draft

/-- The draft after a line that declares a parameter. -/
def addParameter (parse : SourceParser) (d : Draft) (number : Int) (line : ParameterLine) :
    Annotating Draft := do
  match line.values.getD "" with
  | "" => do
    Annotating.note (.noValue number line.name)
    return d
  | values =>
    match ParameterKind.ofName? line.kind with
    | none => do
      Annotating.note (.unknownKind number line.kind line.name)
      return d
    | some kind => do
      if line.name == "" then throw (.doc (.noName number))
      let candidates ← Candidates.read parse values
      match Draft.addLineFrom candidates.heap kind line.name candidates.values d with
      | .ok () d => return d
      | .error e _ => throw e

/-- The draft after the lines of a comment from a line number on, and whether one of them declares a
parameter. -/
def addLines (parse : SourceParser) (d : Draft) (found : Bool) (number : Int) :
    List (List Char) → Annotating (Draft × Bool)
  | [] => return (d, found)
  | text :: rest => do
    match ParameterLine.read? text with
    | none => addLines parse d found (number + 1) rest
    | some line => do
      let d ← d.addParameter parse number line
      addLines parse d true (number + 1) rest

end Draft

/-- The annotation of a comment, if it declares a parameter. -/
def Comment.annotated? (parse : SourceParser) (c : Comment) : Annotating (Option ParameterDoc) := do
  match c.kind with
  | .line => return none
  | .block => do
    let (d, found) ←
      ({} : Draft).addLines parse false c.location.startLine (ParameterLine.split c.text.toList)
    if found then return some ⟨c.location, d.heap, d.params⟩ else return none

/-- The annotations of comments, in their order. -/
def readAnnotations (parse : SourceParser) : List Comment → Annotating (List ParameterDoc)
  | [] => return []
  | c :: rest => do
    match ← c.annotated? parse with
    | some doc => return doc :: (← readAnnotations parse rest)
    | none => readAnnotations parse rest

end Chronicle
