import BbjAnalysis.Text.Span

/-! # Syntax errors

What can be wrong with a text, and in what words it is reported.
-/

namespace BbjAnalysis

/-- What a statement or expression needs at some place. -/
inductive Expectation where
  | expression
  | typeName
  | memberName
  | fieldName
  | label
  | variableName
  | globalName
  | className
  | methodName
  | functionName
  | parameterName
  | labelName
  | optionName
  | loopVariable
  | equals
  | openParen
  | openParenAfterOpen
  | closeParen
  | closeBracket
  | colonsAfterPath
  | endOfStatement
  | endOfClassHeader
  | gotoOrGosub
  | thenWord
  | toWord
deriving DecidableEq

def Expectation.text : Expectation → String
  | .expression => "expression"
  | .typeName => "type name"
  | .memberName => "member name"
  | .fieldName => "field name"
  | .label => "label"
  | .variableName => "variable name"
  | .globalName => "global name"
  | .className => "class name"
  | .methodName => "method name"
  | .functionName => "function name"
  | .parameterName => "parameter name"
  | .labelName => "label name"
  | .optionName => "option name"
  | .loopVariable => "loop variable"
  | .equals => "`=`"
  | .openParen => "`(`"
  | .openParenAfterOpen => "`(` after OPEN"
  | .closeParen => "`)`"
  | .closeBracket => "`]`"
  | .colonsAfterPath => "`::` after file path"
  | .endOfStatement => "end of statement"
  | .endOfClassHeader => "end of class header"
  | .gotoOrGosub => "GOTO or GOSUB"
  | .thenWord => "THEN"
  | .toWord => "TO"

/-- The cause of a syntax error. -/
inductive Fault where
  | expected (what : Expectation)
  /-- A block without its closing word; `closer` is that word in small letters. -/
  | missingCloser (closer : String)
  /-- A word that closes a block, met outside of one; as written. -/
  | strayCloser (word : String)
  | unexpectedToken
  | unexpectedInPrint
deriving DecidableEq

def Fault.message : Fault → String
  | .expected what => "expected " ++ what.text
  | .missingCloser closer => "missing " ++ closer.toUpper
  | .strayCloser word => "unexpected " ++ word.toUpper
  | .unexpectedToken => "unexpected token"
  | .unexpectedInPrint => "unexpected token in PRINT"

/-- A fault at the span of the token that shows it. -/
structure SyntaxError where
  fault : Fault
  span : Span
deriving DecidableEq

def SyntaxError.message (e : SyntaxError) : String := e.fault.message

end BbjAnalysis
