/-!
# Errors

Everything that can go wrong with a program, as causes. The wording is in one place, the functions
`message`. An error that leaves the body of a function is wrapped with the function's name
(`Error.inCall`), so the wrappers of an error, read from the inside, are the calls it left.
-/

namespace ClauseLisp

/-- Why a text is no program. -/
inductive ParseCause where
  /-- Nothing can be read here; the text that follows is shown. -/
  | near (text : String)
  | endOfInput
  | badTypeAt (position : Nat)
  | tooDeep (limit : Nat)
  /-- One form was wanted, and more follow the first. -/
  | moreAfter (form : String)
  | typeInvalid (text : String)
  | typeTrailing (rest : String)
  /-- A special form that has not the parts it needs. -/
  | illFormed (keyword form : String)
  | duplicateParameter (name : String)
  | typeNotAllowed (form : String)
  | emptyCall
  | emptyBlock
  /-- `set` outside of a block. -/
  | misplacedSet (keyword form : String)
  /-- A definition that is not at top level. -/
  | misplacedDefinition (keyword : String)
deriving Repr, DecidableEq, Inhabited

/-- What is wrong with types. -/
inductive TypeCause where
  | taken (name : String)
  | genericParent (name parent : String)
  | unknown (name : String)
  | typeCollides (name : String)
  | functionCollides (name : String)
  | condition (found : String)
  | operand (form found : String)
  | bodyReturns (function found declared : String)
  | notCallable (found : String)
  /-- Raised by a host operation. -/
  | host (message : String)
deriving Repr, DecidableEq, Inhabited

/-- Why an evaluation failed. -/
inductive EvalCause where
  | depthLimit (limit : Nat)
  | overflow (operation : String)
  | divisionByZero
  | moduloByZero
  | notFunction (found : String)
  | emptyHead
  /-- An iterator returned something that is no step. -/
  | badStep (found : String)
  | frozenScope (name : String)
  | cannotLoad (path reason : String)
  | cannotOpen (path reason : String)
  | cannotRead (path reason : String)
  | closedFile (path : String)
  | invalidText (path : String)
  | invalidHandle (handle : Int)
  /-- Raised by the program, or by a host operation. -/
  | raised (message : String)
deriving Repr, DecidableEq, Inhabited

/-- Everything that can go wrong. -/
inductive Error where
  | parse (cause : ParseCause)
  /-- No clause accepts the arguments, shown as text. -/
  | dispatch (function : String) (arguments : List String)
  /-- Something is not of the type it should have. -/
  | cast (context expected found : String) (position : Nat)
  | typing (cause : TypeCause)
  | unbound (name : String)
  /-- A pure function calls one that is not. -/
  | purity (function callee : String)
  | arity (expected got : Nat) (expression : Option String)
  | eval (cause : EvalCause)
  /-- Releasing a resource failed. -/
  | resource (message : String)
  /-- An error that left the body of a function. -/
  | inCall (function : String) (source : Error)
deriving Repr, DecidableEq, Inhabited

/-- Wording of a parse error. -/
def ParseCause.message : ParseCause → String
  | .near text => "Invalid syntax near '" ++ text ++ "'"
  | .endOfInput => "Unexpected end of input"
  | .badTypeAt position => "Invalid type annotation at position " ++ toString position
  | .tooDeep limit => "Expression too deeply nested (max depth: " ++ toString limit ++ ")"
  | .moreAfter form => "Unexpected remaining input after '" ++ form ++ "'"
  | .typeInvalid text => "Invalid type annotation '" ++ text ++ "'"
  | .typeTrailing rest => "Unexpected input after type annotation: '" ++ rest ++ "'"
  | .illFormed keyword form => "malformed " ++ keyword ++ ": " ++ form
  | .duplicateParameter name => "Duplicate parameter name: " ++ name
  | .typeNotAllowed form => "type annotation not allowed here: " ++ form
  | .emptyCall => "Cannot evaluate empty list"
  | .emptyBlock => "do requires at least one expression"
  | .misplacedSet keyword form =>
    keyword ++ " is only allowed directly inside do or at top level: " ++ form
  | .misplacedDefinition keyword => keyword ++ " is only allowed at top level"

/-- Wording of a type error. -/
def TypeCause.message : TypeCause → String
  | .taken name => "type " ++ name ++ " is already defined"
  | .genericParent name parent => "type " ++ name ++ " cannot have a generic parent " ++ parent
  | .unknown name => "unknown type: " ++ name
  | .typeCollides name => "type " ++ name ++ " collides with a function of the same name"
  | .functionCollides name => "function " ++ name ++ " collides with a type of the same name"
  | .condition found => "if: condition must be a boolean, got " ++ found
  | .operand form found => form ++ ": expected boolean, got " ++ found
  | .bodyReturns function found declared =>
    function ++ ": body returns " ++ found ++ " but declared return type is " ++ declared
  | .notCallable found => "cannot call a value of type " ++ found
  | .host message => message

/-- Wording of an evaluation error. -/
def EvalCause.message : EvalCause → String
  | .depthLimit limit => "Evaluation depth limit exceeded (max: " ++ toString limit ++ ")"
  | .overflow operation => "Integer overflow in " ++ operation
  | .divisionByZero => "division by zero"
  | .moduloByZero => "modulo by zero"
  | .notFunction found => "Cannot apply non-function: " ++ found
  | .emptyHead => "empty list has no head"
  | .badStep found =>
    "gen: iterator must return '(), (value) or (value state), got " ++ found
  | .frozenScope name => "cannot bind " ++ name ++ " in a scope that has already exited"
  | .cannotLoad path reason => "cannot load module " ++ path ++ ": " ++ reason
  | .cannotOpen path reason => "cannot open " ++ path ++ ": " ++ reason
  | .cannotRead path reason => "cannot read " ++ path ++ ": " ++ reason
  | .closedFile path => "read from closed file " ++ path
  | .invalidText path => "invalid UTF-8 in " ++ path
  | .invalidHandle handle => "invalid file handle " ++ toString handle
  | .raised message => message

namespace Error

/-- Wording of an error, with one line for each call that it left. -/
def message : Error → String
  | .parse cause => "ParseError: " ++ cause.message
  | .dispatch function arguments =>
    function ++ ": no matching function implementation found for [" ++
      " ".intercalate arguments ++ "]"
  | .cast context expected found position =>
    context ++ ": Expected all " ++ expected ++ " arguments, found " ++ found ++ " at position " ++
      toString position
  | .typing cause => "Type error: " ++ cause.message
  | .unbound name => "Unbound variable: " ++ name
  | .purity function callee =>
    function ++ ": pure function calls impure function " ++ callee
  | .arity expected got (some expression) =>
    "ArityError: expression " ++ expression ++ ": expected " ++ toString expected ++
      " arguments, got " ++ toString got
  | .arity expected got none =>
    "ArityError: function expected " ++ toString expected ++ " arguments but got " ++ toString got
  | .eval cause => "EvaluationError: " ++ cause.message
  | .resource message => "ResourceError: " ++ message
  | .inCall function source => message source ++ "\n  in " ++ function

/-- The error without the calls that it left. -/
def root : Error → Error
  | .inCall _ source => root source
  | error => error

/-- The calls that an error left, outermost first. -/
def calls : Error → List String
  | .inCall function source => function :: calls source
  | _ => []

/-- The calls that an error left, innermost first. -/
def chain (error : Error) : List String := error.calls.reverse

/-- Name the operation in an argument error that names none. -/
def inOperation (name : String) : Error → Error
  | .cast "" expected found position => .cast name expected found position
  | error => error

end Error

end ClauseLisp
