import Chronicle.Number.Reading
import Chronicle.Tracing

/-!
# Options

The words of a command line and the options they give.  A long name may be cut short as long as it
is told from the others, a value may follow its name after an equals sign or, for a short name,
directly, and short names without values may be written together.
-/

set_option autoImplicit false

namespace Chronicle.CommandLine

/-- What a command line asks for. -/
structure Options where
  /-- The file to read; a demonstration is traced when there is none. -/
  file : String := ""
  /-- The only function to trace, or all when it is empty. -/
  function : String := ""
  maxSteps : Int := defaultLimit
  json : Bool := false
  verbose : Bool := false
  deriving DecidableEq, Repr

/-- Why a command line gives no options. -/
inductive Refusal where
  /-- It asks how it is to be used. -/
  | help
  /-- It is not used as it should be. -/
  | usage
  deriving DecidableEq, Repr

/-- The flags. -/
inductive Flag where
  | function | maxSteps | json | verbose | help
  deriving DecidableEq, Repr

namespace Flag

/-- The names of all flags. -/
def names : List (String × Flag) := [
  ("-h", help), ("--help", help), ("--function", function), ("-f", function),
  ("--max-steps", maxSteps), ("-n", maxSteps), ("--json", json), ("--verbose", verbose),
  ("-v", verbose)]

/-- The flag of a name. -/
def ofName? (name : String) : Option Flag :=
  names.lookup name

/-- Whether a value belongs to a flag. -/
def takesValue : Flag → Bool
  | function | maxSteps => true
  | json | verbose | help => false

end Flag

/-! ## Words -/

/-- A value written in the same word as its flag, and whether an equals sign stands before it. -/
structure Attached where
  text : String
  afterEquals : Bool
  deriving DecidableEq, Repr

/-- What a word of a command line is. -/
inductive Word where
  /-- A value or a file. -/
  | plain
  /-- The mark after which every word is plain. -/
  | separator
  | flag (flag : Flag) (isLong : Bool) (attached : Option Attached)
  /-- A word that looks like a flag and is none. -/
  | unknown
  deriving DecidableEq, Repr

/-- The parts of a word before and after its first equals sign, if it has one. -/
def splitEquals (cs : List Char) : String × Option Attached :=
  match cs.dropWhile (· != '=') with
  | [] => (String.ofList cs, none)
  | _ :: value => (String.ofList (cs.takeWhile (· != '=')), some ⟨String.ofList value, true⟩)

/-- Whether a word is a negative number. -/
def isNegative (cs : List Char) : Bool :=
  match cs with
  | '-' :: rest =>
    let isDigit (c : Char) : Bool := (Text.decimalValue? c).isSome
    let whole := rest.takeWhile isDigit
    match rest.drop whole.length with
    | [] => !whole.isEmpty
    | '.' :: places => !places.isEmpty && places.all isDigit
    | _ => false
  | _ => false

/-- What a word that begins with a hyphen is when it is no name of a flag. -/
def Word.ofInexact (cs : List Char) : Except Refusal Word :=
  let other : Word := if isNegative cs || cs.contains ' ' then .plain else .unknown
  match cs with
  | '-' :: '-' :: _ =>
    let (start, attached) := splitEquals cs
    match Flag.names.filter fun (name, _) => start.toList.isPrefixOf name.toList with
    | [] => .ok other
    | [(_, found)] => .ok (.flag found true attached)
    | _ => .error .usage
  | '-' :: c :: rest =>
    match Flag.ofName? (String.ofList ['-', c]) with
    | some found => .ok (.flag found false (some ⟨String.ofList rest, false⟩))
    | none => .ok other
  | _ => .ok .plain

/-- What a word is. -/
def Word.of (s : String) : Except Refusal Word :=
  let cs := s.toList
  let isLong := ['-', '-'].isPrefixOf cs
  if s == "--" then .ok .separator
  else if cs.head? != some '-' || s == "-" then .ok .plain
  else match Flag.ofName? s with
    | some found => .ok (.flag found isLong none)
    | none =>
      match splitEquals cs with
      | (name, some attached) =>
        match Flag.ofName? name with
        | some found => .ok (.flag found isLong (some attached))
        | none => Word.ofInexact cs
      | _ => Word.ofInexact cs

/-- What the words of a command line are. -/
def Word.all : List String → Except Refusal (List (String × Word))
  | [] => .ok []
  | s :: rest => do
    match ← Word.of s with
    | .separator => return (s, .separator) :: rest.map (·, .plain)
    | word => return (s, word) :: (← Word.all rest)

/-! ## Options -/

/-- An integer with an optional sign, in which single underscores may stand between digits. -/
def readCount (s : String) : Option Int :=
  let cs := Number.numeral s
  let isDigit := Text.isPlainDigit
  let separated := (cs.zip (cs.drop 1)).all fun (a, b) =>
    !(b == '_' && !isDigit a) && !(a == '_' && !isDigit b)
  let bounded := cs.head? != some '_' && cs.getLast? != some '_'
  if separated && bounded then
    (Number.readDecimal (String.ofList (Number.withoutUnderscores cs))).toOption
  else none

namespace Options

/-- The options with the value of a flag. -/
def withValue (o : Options) (flag : Flag) (value : String) : Except Refusal Options :=
  match flag with
  | .function => .ok { o with function := value }
  | .maxSteps =>
    match readCount value with
    | some n => .ok { o with maxSteps := n }
    | none => .error .usage
  | _ => .error .usage

/-- The options with a flag that takes no value. -/
def withFlag (o : Options) (flag : Flag) : Except Refusal Options :=
  match flag with
  | .json => .ok { o with json := true }
  | .verbose => .ok { o with verbose := true }
  | .help => .error .help
  | _ => .error .usage

/-- The options after short flags written together, and the flag whose value is still to come.  The
characters after the first flag are given. -/
def withTogether (o : Options) (flag : Flag) (afterEquals : Bool) :
    List Char → Except Refusal (Options × Option Flag)
  | [] => .error .usage
  | c :: rest =>
    if flag.takesValue then do
      return (← o.withValue flag (String.ofList (c :: rest)), none)
    else if afterEquals || c == '-' then .error .usage
    else do
      let o ← o.withFlag flag
      match Flag.ofName? (String.ofList ['-', c]) with
      | none => throw .usage
      | some next =>
        match rest with
        | [] =>
          if next.takesValue then return (o, some next)
          else return (← o.withFlag next, none)
        | '=' :: value =>
          if next.takesValue then
            return (← o.withValue next (String.ofList value), none)
          else throw .usage
        | rest => o.withTogether next false rest

/-- The options after a flag, and the flag whose value is still to come. -/
def withWord (o : Options) (flag : Flag) (isLong : Bool) (attached : Option Attached) :
    Except Refusal (Options × Option Flag) :=
  match attached with
  | none =>
    if flag.takesValue then .ok (o, some flag) else do return (← o.withFlag flag, none)
  | some a =>
    if flag.takesValue then do return (← o.withValue flag a.text, none)
    else if isLong then .error .usage
    else o.withTogether flag a.afterEquals a.text.toList

/-- The options of words, given those so far, whether a file was named, whether a word was too many,
and the flag whose value comes next. -/
def ofWords (o : Options) (hasFile tooMany : Bool) (due : Option Flag) :
    List (String × Word) → Except Refusal Options
  | [] => if due.isSome || tooMany then .error .usage else .ok o
  | (s, word) :: rest =>
    match due, word with
    | some flag, .plain => do
      let o ← o.withValue flag s
      ofWords o hasFile tooMany none rest
    | some _, _ => .error .usage
    | none, .plain =>
      if hasFile then ofWords o hasFile true none rest
      else ofWords { o with file := s } true tooMany none rest
    | none, .separator => ofWords o hasFile tooMany none rest
    | none, .unknown => ofWords o hasFile true none rest
    | none, .flag flag isLong attached => do
      let (o, due) ← o.withWord flag isLong attached
      ofWords o hasFile tooMany due rest

/-- The options that the words of a command line give. -/
def ofArguments (arguments : List String) : Except Refusal Options := do
  ofWords {} false false none (← Word.all arguments)

/-- The step limit: none when the number given is not positive. -/
def limit (o : Options) : Option Int :=
  if 0 < o.maxSteps then some o.maxSteps else none

end Options

end Chronicle.CommandLine
