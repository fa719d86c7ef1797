import Chronicle.Grammar.Operation

/-!
# Statements

Declarations, branches, loops and jumps.  Braces at the start of a statement hold statements, unless
what stands in them is an object.
-/

set_option autoImplicit false

namespace Chronicle.Grammar

/-! ## Declarations -/

/-- What a declaration binds: a name, or the names in a pattern. -/
def binding (rules : Rules) : Parser Pieces := do
  if ← nextIs "[" then asTarget (← array rules)
  else if ← nextIs "\x7b" then asTarget (← object rules)
  else name "identifier"
where
  /-- The pattern that an array or object is. -/
  asTarget (pieces : Pieces) : Parser Pieces :=
    match targetOf? pieces with
    | some target => pure target
    | none => failure

/-- A variable with or without a value. -/
def declarator (rules : Rules) : Parser Pieces := do
  let id ← binding rules
  if ← nextIs "=" then
    let mark ← punctuator "="
    let value ← rules (.expression true)
    return construct "variable_declarator" (inRole "name" id ++ mark ++ inRole "value" value)
  else return construct "variable_declarator" (inRole "name" id)

/-- Whether the last variable of a declaration has no value. -/
def endsWithName (pieces : Pieces) : Bool :=
  match pieces.main? with
  | some t => (t.childByField? "value").isNone
  | none => false

/-- A declaration after its word. -/
def declarationTail (rules : Rules) (kind : String) (before : Pieces) : Parser Pieces := do
  let first ← declarator rules
  let all ← grow (fun pieces => do
    if ← nextIs "," then
      let comma ← punctuator ","
      return some (pieces ++ comma ++ (← declarator rules))
    else return none) first
  return construct kind (before ++ all ++ (← statementEnd (endsWithName all)))

/-- Whether what a declaration binds comes next. -/
def nextIsBinding : Parser Bool := do
  match ← peek with
  | .word text => return !reservedWords.contains text
  | .punctuator "[" | .punctuator "\x7b" => return true
  | _ => return false

/-- A declaration of variables.  Where a statement may end, no line ends after the word `let`, which
could also be a name. -/
def declaration (rules : Rules) (ends : Bool) : Parser Pieces := do
  match ← peek with
  | .word "var" => declarationTail rules "variable_declaration" (← keyword "var")
  | .word "const" =>
    declarationTail rules "lexical_declaration" (inRole "kind" (← keyword "const"))
  | .word "let" =>
    let word ← keyword "let"
    ensure (!(← stopsHere ends) && (← nextIsBinding))
    declarationTail rules "lexical_declaration" (inRole "kind" word)
  | _ => failure

/-- A declaration of variables whose values are disposed of, with or without waiting. -/
def disposal (rules : Rules) : Parser Pieces := do
  let delayed ← optional (keyword "await")
  let word := delayed ++ (← keyword "using")
  declarationTail rules "using_declaration" (inRole "kind" word)

/-- Whether a declaration with the words `await using` comes next.  No line ends between them. -/
def nextIsDelayedDisposal : Parser Bool :=
  lookAhead do
    let _ ← keyword "await"
    return !(← atEnd false) && (← nextIsWord "using")

/-! ## Loops -/

/-- The value of a variable before the collection that a loop is over. -/
def loopValue (rules : Rules) : Parser Pieces := do
  let mark ← punctuator "="
  let value ← bareYield (nextIsWord "of") <|> rules (.operation false (relational + 1))
  return mark ++ inRole "value" value

/-- The left side of a loop over a collection.  After `let`, the word `of` is no name; after `var`,
the name can have a value, and no line ends after it unless the loop is `delayed`. -/
def loopTarget (rules : Rules) (delayed : Bool) : Parser Pieces := do
  let declared (word : String) : Parser Pieces := do
    let mark ← keyword word
    ensure !(word == "let" && (← nextIsWord "of"))
    let target ← binding rules
    let value ← (do
      if word == "var" then optional (loopValue rules) else return [])
    ensure !(word == "var" && !delayed && (← atEnd value.isEmpty))
    return inRole "kind" mark ++ inRole "left" target ++ value
  let assigned : Parser Pieces := do
    let first ← bareYield nextIsProperty <|> primary rules false
    let pieces ← grow (follower rules false false) first
    match targetOf? pieces with
    | some target => return inRole "left" target
    | none => failure
  if ← nextIsWord "using" then declared "using"
  else declared "var" <|> declared "let" <|> declared "const" <|> assigned

/-- A loop over a collection, after the word `for`. -/
def collectionLoop (rules : Rules) (place : Place) (before : Pieces) : Parser Pieces := do
  let delayed ← optional (keyword "await")
  let opening ← punctuator "("
  let target ← loopTarget rules !delayed.isEmpty
  let word ← keyword "in" <|> keyword "of"
  let right ← expressions rules false
  let closing ← unfinished (punctuator ")")
  let body ← rules (.statement place)
  return construct "for_in_statement"
    (before ++ delayed ++ opening ++ target ++ inRole "operator" word ++ inRole "right" right ++
      closing ++ inRole "body" body)

/-- A semicolon as a statement of its own. -/
def emptyStatement : Parser Pieces := do
  return construct "empty_statement" (← punctuator ";")

/-- A clause of a counting loop, which ends with a semicolon. -/
def loopClause (rules : Rules) (role : String) : Parser Pieces := do
  if ← nextIs ";" then return inRole role (← emptyStatement)
  else
    let inner ← expressions rules false
    return inRole role inner ++ (← punctuator ";")

/-- A counting loop, after the word `for`. -/
def countingLoop (rules : Rules) (place : Place) (before : Pieces) : Parser Pieces := do
  let opening ← punctuator "("
  ensure !((← nextAre "let" (.word "of")) || (← nextAre "async" (.word "of"))
    || (← nextIsWord "using"))
  let first ← (do return inRole "initializer" (← declaration rules false))
    <|> loopClause rules "initializer"
  let test ← loopClause rules "condition"
  let last ← (do
    if ← nextIs ")" then return []
    else return inRole "increment" (← expressions rules false))
  let closing ← unfinished (punctuator ")")
  let body ← rules (.statement place)
  return construct "for_statement"
    (before ++ opening ++ first ++ test ++ last ++ closing ++ inRole "body" body)

/-- A loop by the word `for`. -/
def forLoop (rules : Rules) (place : Place) : Parser Pieces := do
  let word ← keyword "for"
  collectionLoop rules place word <|> countingLoop rules place word

/-- A loop that tests after its body. -/
def doLoop (rules : Rules) : Parser Pieces := do
  let word ← keyword "do"
  let body ← rules (.statement .tested)
  let test ← keyword "while"
  let held ← condition rules
  return construct "do_statement"
    (word ++ inRole "body" body ++ test ++ inRole "condition" held ++
      (← optional (statementEnd true)))

/-! ## Branches -/

/-- A condition and what is done under it, after a word. -/
def guarded (rules : Rules) (place : Place) (kind word role body : String) : Parser Pieces := do
  let word ← keyword word
  let held ← unfinished (condition rules)
  return construct kind (word ++ inRole role held ++ inRole body (← rules (.statement place)))

/-- A conditional. -/
def conditional (rules : Rules) (place : Place) : Parser Pieces := do
  let word ← keyword "if"
  let held ← unfinished (condition rules)
  let consequence ← rules (.statement place)
  let alternative ← (do
    if ← nextIsWord "else" then
      let word ← keyword "else"
      let body ← rules (.statement place)
      return inRole "alternative" (construct "else_clause" (word ++ body))
    else return [])
  return construct "if_statement"
    (word ++ inRole "condition" held ++ inRole "consequence" consequence ++ alternative)

/-- One case of a choice. -/
def switchCase (rules : Rules) : Parser Pieces := do
  let body : Parser Pieces :=
    repeatUntil (do
      return (← nextIs "\x7d") || (← nextIsWord "case") || (← nextIsWord "default"))
      (rules (.statement .listed))
  if ← nextIsWord "case" then
    let word ← keyword "case"
    let value ← expressions rules false
    let colon ← punctuator ":"
    return construct "switch_case" (word ++ inRole "value" value ++ colon ++ (← body))
  else
    let word ← keyword "default"
    let colon ← punctuator ":"
    return construct "switch_default" (word ++ colon ++ (← body))

/-- A choice among cases. -/
def switchStatement (rules : Rules) : Parser Pieces := do
  let word ← keyword "switch"
  let value ← unfinished (condition rules)
  let opening ← punctuator "\x7b"
  let cases ← repeatUntil (nextIs "\x7d") (switchCase rules)
  let body := construct "switch_body" (opening ++ cases ++ (← punctuator "\x7d"))
  return construct "switch_statement" (word ++ inRole "value" value ++ inRole "body" body)

/-- A block whose errors are handled. -/
def attempt (rules : Rules) : Parser Pieces := do
  let word ← keyword "try"
  let body ← block rules .listed true
  let handler ← (do
    if ← nextIsWord "catch" then
      let word ← keyword "catch"
      let parameter ← (do
        if ← nextIs "(" then
          let opening ← punctuator "("
          let id ← binding rules
          return opening ++ inRole "parameter" id ++ (← unfinished (punctuator ")"))
        else return [])
      let body ← block rules .listed true
      return inRole "handler" (construct "catch_clause" (word ++ parameter ++ inRole "body" body))
    else return [])
  let finalizer ← (do
    if ← nextIsWord "finally" then
      let word ← keyword "finally"
      let body ← block rules .listed true
      return inRole "finalizer" (construct "finally_clause" (word ++ inRole "body" body))
    else return [])
  return construct "try_statement" (word ++ inRole "body" body ++ handler ++ finalizer)

/-! ## Jumps -/

/-- A jump out of or around a loop, with or without a label. -/
def jump (kind word : String) : Parser Pieces := do
  let mark ← keyword word
  let label ← (do
    if ← atEnd true then return []
    else optional (do return inRole "label" (← name "statement_identifier")))
  return construct kind (mark ++ label ++ (← statementEnd true))

/-- A return, with or without a value. -/
def returning (rules : Rules) : Parser Pieces := do
  let word ← keyword "return"
  if (← atEnd true) || (← nextIs ";") then
    return construct "return_statement" (word ++ (← statementEnd true))
  else
    let value ← expressions rules true
    return construct "return_statement" (word ++ value ++ (← statementEnd false))

/-- A raised error. -/
def throwing (rules : Rules) : Parser Pieces := do
  let word ← keyword "throw"
  let value ← expressions rules true
  return construct "throw_statement" (word ++ value ++ (← statementEnd false))

/-! ## Other statements -/

/-- An expression as a statement. -/
def expressionStatement (rules : Rules) : Parser Pieces := do
  let inner ← expressions rules true
  return construct "expression_statement" (inner ++ (← statementEnd false))

/-- An expression as a statement, beginning with given pieces. -/
def expressionStatementFrom (rules : Rules) (pieces : Pieces) : Parser Pieces := do
  let inner ← expressionsFrom rules true pieces
  return construct "expression_statement" (inner ++ (← statementEnd false))

/-- A statement after its label, which has a length. -/
def labelled (rules : Rules) (place : Place) (length : Nat) : Parser Pieces := do
  let label ← token "statement_identifier" true length
  let colon ← punctuator ":"
  return construct "labeled_statement"
    (inRole "label" label ++ colon ++ inRole "body" (← rules (.statement place)))

/-- A statement that begins with a name, which has a length: one with a label, or an expression. -/
def namedStatement (rules : Rules) (place : Place) (length : Nat) : Parser Pieces :=
  labelled rules place length <|> (do
    expressionStatementFrom rules (← nameOrArrow rules true "identifier" length))

/-- A statement that begins with a word of no meaning to other statements. -/
def wordStatement (rules : Rules) (place : Place) (word : String) : Parser Pieces := do
  let label : Parser Pieces := do
    ensure (isName word && word != "yield" && word != "undefined")
    labelled rules place word.length
  label <|> expressionStatement rules

/-- The tokens that go on with an expression and begin no statement. -/
def continuingMarks : List String := [
  ".", "?.", "?", "??", ",", "=", "==", "===", "!=", "!==", "<=", ">", ">=", "<<", ">>", ">>>",
  "*", "**", "%", "&", "&&", "|", "||", "^"]

/-- Whether the statement at a place, complete so far, goes on as an expression. -/
def goesOn (place : Place) : Parser Bool := do
  if ← atEnd false then return false
  match ← peek with
  | .word "in" | .word "instanceof" => return true
  | .word "while" | .word "else" => return false
  | .punctuator p => return place == .tested || continuingMarks.contains p
  | _ => return place == .tested

/-- The kind that a declaration is of as an expression. -/
def expressionKind (kind : String) : String :=
  match kind with
  | "function_declaration" => "function_expression"
  | "generator_function_declaration" => "generator_function"
  | "class_declaration" => "class"
  | kind => kind

/-- A declaration as an expression. -/
def asExpression (declared : Pieces) : Pieces :=
  declared.map fun
    | .node l cs => .node { l with kind := expressionKind l.kind } cs

/-- The declaration of a function or a class as a statement, unless it goes on as an expression. -/
def declarationStatement (rules : Rules) (place : Place) (declared : Parser Pieces) :
    Parser Pieces := do
  let pieces ← declared
  if ← goesOn place then expressionStatementFrom rules (asExpression pieces) else return pieces

/-- Whether a declaration of a function with the word `async` comes next.  Where a statement may
end, no line ends after the word. -/
def nextIsAsynchronous (ends : Bool) : Parser Bool :=
  lookAhead do
    let _ ← keyword "async"
    return !(← stopsHere ends) && (← nextIsNamed "function")

/-- A function declared with the word `async`. -/
def asynchronousDeclaration (rules : Rules) (closed : Bool) : Parser Pieces := do
  function rules (← keyword "async") true closed

/-- Braces at the start of a statement.  With nothing between them they are an object if an
expression goes on after them. -/
def braces (rules : Rules) (place : Place) : Parser Pieces := do
  if ← lookAhead beginsObject then expressionStatement rules <|> block rules .opening true
  else
    let pair ← optional emptyBraces
    if pair.isEmpty then block rules .opening true
    else if ← goesOn place then expressionStatementFrom rules (construct "object" pair)
    else return construct "statement_block" (pair ++ (← blockEnd false))

/-! ## Modules -/

/-- The name of something that a module gives or takes. -/
def moduleName : Parser Pieces :=
  quoted <|> keyword "default" <|> name "identifier"

/-- A name, and the name it has elsewhere. -/
def renamed (kind : String) (elsewhere : Parser Pieces) : Parser Pieces := do
  let id ← moduleName
  let word ← keyword "as"
  return construct kind (inRole "name" id ++ word ++ inRole "alias" (← elsewhere))

/-- A name that a module gives, with or without the name it has elsewhere. -/
def exportSpecifier : Parser Pieces :=
  renamed "export_specifier" moduleName <|> (do
    return construct "export_specifier" (inRole "name" (← moduleName)))

/-- A name that a module takes.  Here it has to be a plain one. -/
def importSpecifier : Parser Pieces :=
  renamed "import_specifier" (name "identifier") <|> (do
    return construct "import_specifier" (inRole "name" (← name "identifier")))

/-- Names in braces. -/
def specifiers (kind : String) (item : Parser Pieces) : Parser Pieces := do
  let opening ← punctuator "\x7b"
  let items ← listed "\x7d" item item
  let spare := items.filter (!isComment ·)
  ensure (spare.length ≤ 1 || alternates true true items)
  return construct kind (opening ++ items ++ (← punctuator "\x7d"))

/-- All names of a module under one. -/
def namespaceNames (kind : String) (one : Parser Pieces) : Parser Pieces := do
  let star ← punctuator "*"
  let word ← keyword "as"
  return construct kind (star ++ word ++ (← one))

/-- The module that names come from. -/
def fromClause : Parser Pieces := do
  let word ← keyword "from"
  return word ++ inRole "source" (← quoted)

/-- What a module takes: names and the module they come from. -/
def importClause : Parser Pieces := do
  let several :=
    namespaceNames "namespace_import" (name "identifier")
      <|> specifiers "named_imports" importSpecifier
  let single : Parser Pieces := do
    let id ← name "identifier"
    if ← nextIs "," then
      let comma ← punctuator ","
      return id ++ comma ++ (← several)
    else return id
  return construct "import_clause" (← several <|> single)

/-- The attributes of an import. -/
def importAttributes (rules : Rules) : Parser Pieces := do
  let word ← keyword "with"
  return construct "import_attribute" (word ++ (← object rules))

/-- A statement by which a module takes names. -/
def importStatement (rules : Rules) : Parser Pieces := do
  let word ← keyword "import"
  let clause ← (do return inRole "source" (← quoted)) <|> (do
    let clause ← importClause
    return clause ++ (← fromClause))
  let attributes ← (do
    if ← atEnd true then return [] else optional (importAttributes rules))
  return construct "import_statement" (word ++ clause ++ attributes ++ (← statementEnd true))

/-- A declaration of any kind.  `closed` says that it cannot be read as an expression. -/
def anyDeclaration (rules : Rules) (closed : Bool) : Parser Pieces := do
  match ← peek with
  | .word "function" => function rules [] true closed
  | .word "async" =>
    ensure (← nextIsAsynchronous !closed)
    asynchronousDeclaration rules closed
  | .word "class" => classTail rules [] true closed
  | .punctuator "@" => do classTail rules (← decorators rules) true closed
  | _ => declaration rules !closed <|> disposal rules

/-- A statement by which a module gives names. -/
def exportStatement (rules : Rules) : Parser Pieces := do
  let marks ← decorators rules
  let word ← keyword "export"
  let names : Parser Pieces := do
    let names ← (do
        let names ← namespaceNames "namespace_export" moduleName <|> punctuator "*"
        return names ++ (← fromClause)) <|> (do
        let names ← specifiers "export_clause" exportSpecifier
        if ← atEnd true then return names
        else return names ++ (← optional fromClause))
    return names ++ (← statementEnd true)
  let declared (closed : Bool) : Parser Pieces := do
    return inRole "declaration" (← anyDeclaration rules closed)
  let chosen : Parser Pieces := do
    let word ← keyword "default"
    let complete : Parser Pieces := do
      let pieces ← declared false
      ensure !(← goesOn .listed)
      return pieces
    let value : Parser Pieces := do
      let value ← rules (.expression true)
      return inRole "value" value ++ (← statementEnd false)
    return word ++ (← complete <|> value)
  return construct "export_statement" (marks ++ word ++ (← names <|> chosen <|> declared true))

/-! ## All statements -/

/-- Whether a statement ends after the given word, which comes next. -/
def nextEnds (word : String) : Parser Bool :=
  lookAhead do
    let _ ← keyword word
    atEnd false

/-- A statement at a place. -/
def statement (rules : Rules) (place : Place) : Parser Pieces := do
  let last := place.last
  match ← peek with
  | .punctuator "\x7b" => braces rules last
  | .punctuator ";" => emptyStatement
  | .punctuator "@" =>
    exportStatement rules
      <|> declarationStatement rules last (anyDeclaration rules false)
      <|> expressionStatement rules
  | .word "var" | .word "const" => declaration rules true
  | .word "function" =>
    if ← nextIsNamed "function" then
      declarationStatement rules last (function rules [] true false)
    else expressionStatement rules
  | .word "class" =>
    if ← nextIsNamed "class" then
      declarationStatement rules last (classTail rules [] true false)
    else expressionStatement rules
  | .word "if" => conditional rules last
  | .word "for" => forLoop rules last
  | .word "while" => guarded rules last "while_statement" "while" "condition" "body"
  | .word "with" => guarded rules last "with_statement" "with" "object" "body"
  | .word "do" => doLoop rules
  | .word "switch" => switchStatement rules
  | .word "try" => attempt rules
  | .word "return" => returning rules
  | .word "throw" => throwing rules
  | .word "break" => jump "break_statement" "break"
  | .word "continue" => jump "continue_statement" "continue"
  | .word "debugger" =>
    let word ← keyword "debugger"
    return construct "debugger_statement" (word ++ (← statementEnd true))
  | .word "import" => importStatement rules <|> expressionStatement rules
  | .word "export" =>
    if ← nextEnds "export" then wordStatement rules last "export"
    else if ← nextAre "export" (.punctuator "*") then exportStatement rules
    else exportStatement rules <|> wordStatement rules last "export"
  | .word "let" =>
    if ← nextAre "let" (.punctuator "[") then declaration rules true
    else declaration rules true <|> wordStatement rules last "let"
  | .word "using" => disposal rules
  | .word "await" =>
    if ← nextIsDelayedDisposal then disposal rules else wordStatement rules last "await"
  | .word "async" =>
    if ← nextIsAsynchronous true then
      declarationStatement rules last (asynchronousDeclaration rules false)
    else wordStatement rules last "async"
  | .word word =>
    if place == .opening && inertWords.contains word then
      namedStatement rules last word.length
    else wordStatement rules last word
  | _ => expressionStatement rules

end Chronicle.Grammar
