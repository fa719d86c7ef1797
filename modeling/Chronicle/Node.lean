import Chronicle.Location
import Chronicle.Value.Basic

/-!
# Programs

The nodes of a program.  Forms that are not interpreted are kept as `unsupported` nodes, since they
matter only when execution reaches them.  Any node may stand where a node is expected; what does not
make sense there is an error of the run.
-/

set_option autoImplicit false

namespace Chronicle

/-- The two kinds of comments. -/
inductive CommentKind where
  | line
  | block
  deriving DecidableEq, Repr

/-- A comment without its delimiters. -/
structure Comment where
  kind : CommentKind
  text : String
  location : Location := .unknown
  deriving DecidableEq, Repr

/-- A name where it stands in the source. -/
structure Identifier where
  name : String
  location : Location := .unknown
  deriving DecidableEq, Repr

/-- A node of a program. -/
inductive Node where
  | program (location : Location) (body : List Node) (comments : List Comment)
  | block (location : Location) (body : List Node)
  | functionDeclaration (location : Location) (id : Option Identifier) (params : List Node)
      (bodyLocation : Location) (body : List Node)
  | declarator (location : Location) (id : Node) (init : Option Node)
  | declaration (location : Location) (kind : String) (declarators : List Node)
  | ifStatement (location : Location) (test consequent : Node) (alternate : Option Node)
  | whileStatement (location : Location) (test body : Node)
  | forStatement (location : Location) (init test update : Option Node) (body : Node)
  | expressionStatement (location : Location) (expression : Node)
  | returnStatement (location : Location) (argument : Option Node)
  | continueStatement (location : Location) (label : Option String)
  | identifier (location : Location) (name : String)
  | thisValue (location : Location)
  | literal (location : Location) (value : Value) (raw : String)
  | array (location : Location) (elements : List (Option Node))
  | property (location : Location) (key : Node) (value : Option Node) (kind : String)
      (computed shorthand : Bool)
  | object (location : Location) (properties : List Node)
  | new (location : Location) (callee : Node) (arguments : List Node)
  | update (location : Location) (operator : String) (leading : Bool) (argument : Node)
  | unary (location : Location) (operator : String) (argument : Node)
  | binary (location : Location) (operator : String) (left right : Node)
  | assignment (location : Location) (operator : String) (left right : Node)
  | member (location : Location) (object property : Node) (computed : Bool)
  | call (location : Location) (callee : Node) (arguments : List Node)
  | functionExpression (location : Location) (id : Option Identifier) (params : List Node)
      (bodyLocation : Location) (body : List Node)
  | arrowFunction (location : Location) (params : List Node) (body : Node) (isExpression : Bool)
  | unsupported (location : Location) (form text : String)

namespace Node

instance : Inhabited Node := ⟨.block .unknown []⟩

/-- The name of a node's form. -/
def form : Node → String
  | program .. => "Program"
  | block .. => "BlockStatement"
  | functionDeclaration .. => "FunctionDeclaration"
  | declarator .. => "VariableDeclarator"
  | declaration .. => "VariableDeclaration"
  | ifStatement .. => "IfStatement"
  | whileStatement .. => "WhileStatement"
  | forStatement .. => "ForStatement"
  | expressionStatement .. => "ExpressionStatement"
  | returnStatement .. => "ReturnStatement"
  | continueStatement .. => "ContinueStatement"
  | identifier .. => "Identifier"
  | thisValue .. => "ThisExpression"
  | literal .. => "Literal"
  | array .. => "ArrayExpression"
  | property .. => "Property"
  | object .. => "ObjectExpression"
  | new .. => "NewExpression"
  | update .. => "UpdateExpression"
  | unary .. => "UnaryExpression"
  | binary .. => "BinaryExpression"
  | assignment .. => "AssignmentExpression"
  | member .. => "MemberExpression"
  | call .. => "CallExpression"
  | functionExpression .. => "FunctionExpression"
  | arrowFunction .. => "ArrowFunctionExpression"
  | unsupported _ form _ => form

/-- Where a node stands in the source. -/
def location : Node → Location
  | program l .. | block l .. | functionDeclaration l .. | declarator l .. | declaration l ..
  | ifStatement l .. | whileStatement l .. | forStatement l .. | expressionStatement l ..
  | returnStatement l .. | continueStatement l .. | identifier l .. | thisValue l | literal l ..
  | array l .. | property l .. | object l .. | new l .. | update l .. | unary l .. | binary l ..
  | assignment l .. | member l .. | call l .. | functionExpression l .. | arrowFunction l ..
  | unsupported l .. => l

/-- The identifier of a name in the source, as a node. -/
def ofIdentifier (i : Identifier) : Node :=
  .identifier i.location i.name

/-- The name that a node is, if it is an identifier. -/
def name? : Node → Option String
  | identifier _ name => some name
  | _ => none

end Node

end Chronicle
