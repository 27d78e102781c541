/-
Error codes: one for each cause of failure, written `E` and four digits,
the first of which tells the phase.
-/

namespace UiScript

/-- The phases of a run, in order. -/
inductive Phase where
  | lexing
  | parsing
  | security
  | execution
deriving DecidableEq

/-- The causes of failure. -/
inductive ErrorCode where
  | unterminatedString
  | unterminatedComment
  | invalidCodePoint
  | unexpectedToken
  | missingExpression
  | unclosedDelimiter
  | missingName
  | nestingTooDeep
  | chainTooLong
  | duplicateKey
  | positionalAfterNamed
  | emptyInput
  | deniedName
  | constantName
  | dunderName
  | suspiciousName
  | suspiciousMark
  | suspiciousLiteral
  | unlistedName
  | unknownOperation
  | noSuchMethod
  | wrongCount
  | wrongType
  | missingArgument
  | unexpectedArgument
  | blockNotAccepted
  | invalidValue
deriving DecidableEq, Inhabited

namespace ErrorCode

/-- Every code, in ascending order. -/
def all : List ErrorCode :=
  [.unterminatedString, .unterminatedComment, .invalidCodePoint,
    .unexpectedToken, .missingExpression, .unclosedDelimiter, .missingName, .nestingTooDeep,
    .chainTooLong, .duplicateKey, .positionalAfterNamed, .emptyInput,
    .deniedName, .constantName, .dunderName, .suspiciousName, .suspiciousMark, .suspiciousLiteral,
    .unlistedName,
    .unknownOperation, .noSuchMethod, .wrongCount, .wrongType, .missingArgument,
    .unexpectedArgument, .blockNotAccepted, .invalidValue]

/-- The code as it is written. -/
def text : ErrorCode → String
  | .unterminatedString => "E0001"
  | .unterminatedComment => "E0002"
  | .invalidCodePoint => "E0003"
  | .unexpectedToken => "E1001"
  | .missingExpression => "E1002"
  | .unclosedDelimiter => "E1003"
  | .missingName => "E1004"
  | .nestingTooDeep => "E1005"
  | .chainTooLong => "E1006"
  | .duplicateKey => "E1007"
  | .positionalAfterNamed => "E1008"
  | .emptyInput => "E1009"
  | .deniedName => "E2001"
  | .constantName => "E2002"
  | .dunderName => "E2003"
  | .suspiciousName => "E2004"
  | .suspiciousMark => "E2005"
  | .suspiciousLiteral => "E2006"
  | .unlistedName => "E2007"
  | .unknownOperation => "E3001"
  | .noSuchMethod => "E3002"
  | .wrongCount => "E3003"
  | .wrongType => "E3004"
  | .missingArgument => "E3005"
  | .unexpectedArgument => "E3006"
  | .blockNotAccepted => "E3007"
  | .invalidValue => "E3008"

/-- The phase in which a cause arises. -/
def phase : ErrorCode → Phase
  | .unterminatedString | .unterminatedComment | .invalidCodePoint => .lexing
  | .unexpectedToken | .missingExpression | .unclosedDelimiter | .missingName | .nestingTooDeep
  | .chainTooLong | .duplicateKey | .positionalAfterNamed | .emptyInput => .parsing
  | .deniedName | .constantName | .dunderName | .suspiciousName | .suspiciousMark
  | .suspiciousLiteral | .unlistedName => .security
  | .unknownOperation | .noSuchMethod | .wrongCount | .wrongType | .missingArgument
  | .unexpectedArgument | .blockNotAccepted | .invalidValue => .execution

/-- The code that is written so. -/
def ofText? (s : String) : Option ErrorCode := all.find? fun code => code.text == s

end ErrorCode

end UiScript
