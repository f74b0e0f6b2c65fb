import Recast.Pattern.Scan

/-!
# Idioms of the source

The stretches of source text that the analysis and the rules recognise, each by
its pattern.
-/

namespace Recast

/-- A recognised idiom. -/
inductive Idiom where
  | assignment
  | functionName
  | basicOperation
  | intLiteral
  | floatLiteral
  | boolLiteral
  | comment
  | functionDef
  | dualEmptyInit
  | rangeLenMinus
  | lenCall
  | countingLoop
  | printCall
  | appendCall
  | slice
  | reshape
  | scalerFitTransform
  | scalerConstructor
  | arrayPairReturn
  | plainPairReturn
deriving DecidableEq, Repr

namespace Idiom

open Pattern

/-- Every idiom. -/
def all : List Idiom :=
  [assignment, functionName, basicOperation, intLiteral, floatLiteral,
   boolLiteral, comment, functionDef, dualEmptyInit, rangeLenMinus, lenCall,
   countingLoop, printCall, appendCall, slice, reshape, scalerFitTransform,
   scalerConstructor, arrayPairReturn, plainPairReturn]

/-- `name = value`, where the sign is not doubled. -/
def assignmentPattern : Pattern :=
  anchor .wordEdge ++ group word ++ blanks ++ "=" ++
    anchor (.notNext (· == '=')) ++ blanks ++ group (many1 isInline)

/-- `def name(`. -/
def functionNamePattern : Pattern := "def" ++ blanks1 ++ group word ++ "("

/-- An arithmetic sign between two operands. -/
def basicOperationPattern : Pattern :=
  one (fun c => isWord c || c == ')' || c == ']') ++ blanks ++
    one (fun c => c == '-' || c == '+' || c == '*' || c == '/' || c == '%') ++
    blanks ++ one (fun c => isWord c || c == '(' || c == '[')

/-- Digits only. -/
def intLiteralPattern : Pattern :=
  anchor .textStart ++ many1 isDigit ++ anchor .textEnd

/-- Digits on both sides of one point. -/
def floatLiteralPattern : Pattern :=
  anchor .textStart ++ many1 isDigit ++ "." ++ many1 isDigit ++ anchor .textEnd

/-- A truth value, with a capital or without. -/
def boolLiteralPattern : Pattern :=
  anchor .wordEdge ++ ("True" <|> "False" <|> "true" <|> ("false" : Pattern)) ++
  anchor .wordEdge

/-- `# text` on a line of its own. -/
def commentPattern : Pattern :=
  anchor .lineStart ++ group indent ++ "#" ++ optional (one isIndent) ++
  group (stretch .longest) ++ anchor .lineEnd

/-- `def name(parameters):`. -/
def functionDefPattern : Pattern :=
  anchor .lineStart ++ group indent ++ "def" ++ blanks1 ++ group word ++ "(" ++
  group (stretch .shortest) ++ "):"

/-- `x, y = [], []`. -/
def dualEmptyInitPattern : Pattern :=
  anchor .lineStart ++ group indent ++ group word ++ blanks ++ "," ++ blanks ++
  group word ++ blanks ++ "=" ++ blanks ++ "[]" ++ blanks ++ "," ++
  blanks ++ "[]"

/-- `range(len(x) - n)`. -/
def rangeLenMinusPattern : Pattern :=
  "range(len(" ++ group word ++ ")" ++ blanks ++ "-" ++ blanks ++
  group word ++ ")"

/-- `len(x)`. -/
def lenCallPattern : Pattern := anchor .wordEdge ++ "len(" ++ group word ++ ")"

/-- `for i in range(bound):`. -/
def countingLoopPattern : Pattern :=
  "for" ++ blanks1 ++ group word ++ blanks1 ++ "in" ++ blanks1 ++ "range(" ++
  group (stretch .longest) ++ "):"

/-- `print(content)`. -/
def printCallPattern : Pattern :=
  anchor .wordEdge ++ "print(" ++ group (stretch .longest) ++ ")"

/-- `x.append(value)`. -/
def appendCallPattern : Pattern :=
  anchor .wordEdge ++ group word ++ ".append(" ++
  group (stretch .longest) ++ ")"

/-- `x[start:end]`. -/
def slicePattern : Pattern :=
  anchor .wordEdge ++ group word ++ "[" ++
    group (many .shortest fun c => c != '[' && c != ']' && c != ':') ++ ":" ++
    group (many .shortest fun c => c != '[' && c != ']') ++ blanks ++ "]"

/-- `np.array(values).reshape(shape)`. -/
def reshapePattern : Pattern :=
  "np.array(" ++ group (stretch .shortest) ++ ").reshape(" ++
  group (stretch .shortest) ++ ")"

/-- `y = scaler.fit_transform(values)` on a line of its own. -/
def scalerFitTransformPattern : Pattern :=
  anchor .lineStart ++ group indent ++ group word ++ blanks ++ "=" ++ blanks ++
  group word ++ ".fit_transform(" ++ group (stretch .longest) ++ ")" ++
  indent ++ anchor .lineEnd

/-- `scaler = MinMaxScaler(feature_range=(low, high))` on a line of its own, the
range being optional. -/
def scalerConstructorPattern : Pattern :=
  anchor .lineStart ++ group indent ++ group word ++ blanks ++ "=" ++ blanks ++
  "MinMaxScaler(" ++ optional ("feature_range" ++ blanks ++ "=" ++ blanks ++
    "(" ++ group (stretch .shortest) ++ ")") ++
    stretch .longest ++ ")" ++ indent ++ anchor .lineEnd

/-- `return np.array(x), np.array(y)`. -/
def arrayPairReturnPattern : Pattern :=
  "return" ++ blanks1 ++ "np.array(" ++ group (stretch .shortest) ++ ")" ++
  blanks ++ optional "," ++ blanks ++ "np.array(" ++
  group (stretch .shortest) ++ ")"

/-- `return x, y` on a line of its own. -/
def plainPairReturnPattern : Pattern :=
  anchor .lineStart ++ group indent ++ "return" ++ blanks1 ++ group word ++
  blanks ++ "," ++ blanks ++ group word ++ indent ++ anchor .lineEnd

/-- The pattern of an idiom. -/
def pattern : Idiom → Pattern
  | assignment => assignmentPattern
  | functionName => functionNamePattern
  | basicOperation => basicOperationPattern
  | intLiteral => intLiteralPattern
  | floatLiteral => floatLiteralPattern
  | boolLiteral => boolLiteralPattern
  | comment => commentPattern
  | functionDef => functionDefPattern
  | dualEmptyInit => dualEmptyInitPattern
  | rangeLenMinus => rangeLenMinusPattern
  | lenCall => lenCallPattern
  | countingLoop => countingLoopPattern
  | printCall => printCallPattern
  | appendCall => appendCallPattern
  | slice => slicePattern
  | reshape => reshapePattern
  | scalerFitTransform => scalerFitTransformPattern
  | scalerConstructor => scalerConstructorPattern
  | arrayPairReturn => arrayPairReturnPattern
  | plainPairReturn => plainPairReturnPattern

end Idiom

end Recast
