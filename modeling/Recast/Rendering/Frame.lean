import Recast.Target.Lexicon
import Recast.Target.Usage

/-!
# Frames

What stands around the body of a text so that it is a whole file of the target:
the imports that the body shows to need, and, for a snippet without functions, a
main program.
-/

namespace Recast

namespace Target

/-! ## Imports -/

/-- The packages that a Go body needs. -/
def goPackages (body : Text) : List Text :=
  "fmt" ::
    (Text.onlyIf ((Usage.qualifier "math").foundIn body) "math" ++
      Text.onlyIf ((Usage.qualifier "mat").foundIn body)
        "gonum.org/v1/gonum/mat" ++
      Text.onlyIf ((Usage.qualifier "stat").foundIn body)
        "gonum.org/v1/gonum/stat")

/-- The import declaration of a Go body. -/
def goImports (body : Text) : Text :=
  match goPackages body with
  | [package] => "import \"" ++ package ++ "\""
  | packages =>
    "import (\n" ++ Text.unlines (packages.map fun p =>
      Text.indentation ++ "\"" ++ p ++ "\"") ++ "\n)"

/-- The opening of a PHP file. -/
def phpOpening (body : Text) : Text :=
  if body.mentions "\\MathPHP\\" || body.mentions "\\Phpml\\" then
    "<?php\n\nrequire __DIR__ . '/vendor/autoload.php';"
  else "<?php"

/-- The import lines of a JavaScript body. -/
def jsImports (body : Text) : List Text :=
  Text.onlyIf (body.mentions "matrix.Matrix")
      ("const matrix = require(\"" ++ javascript.numpyCounterpart ++ "\");") ++
    Text.onlyIf (body.mentions "MinMaxScaler")
      ("const \x7b MinMaxScaler \x7d = require(\"" ++
        javascript.sklearnCounterpart ++ "\");")

/-- Code below import lines, if there are any. -/
def belowImports (imports : List Text) (code : Text) : Text :=
  if imports.isEmpty then code else Text.unlines imports ++ "\n\n" ++ code

/-- The namespaces that a C# body needs. -/
def csNamespaces (body : Text) : List Text :=
  "System" ::
    (Text.onlyIf (body.mentions "List<") "System.Collections.Generic" ++
      Text.onlyIf (Usage.sequenceMethod.foundIn body) "System.Linq" ++
      Text.onlyIf (body.mentions "Matrix<double>")
        "MathNet.Numerics.LinearAlgebra" ++
      Text.onlyIf (body.mentions "MLContext") "Microsoft.ML")

/-- The using lines of a C# body. -/
def usings (body : Text) : Text :=
  Text.unlines ((csNamespaces body).map fun n => "using " ++ n ++ ";")

/-! ## Files -/

/-- A body that defines functions, as a file. -/
def moduleFile : Target → (body : Text) → Text
  | go, body => "package main\n\n" ++ goImports body ++ "\n\n" ++ body
  | php, body => phpOpening body ++ "\n\n" ++ body.trimBody ++ "\n\n?>"
  | javascript, body => belowImports (jsImports body) body
  | csharp, body =>
    usings body ++ "\n\npublic class MLTranslator\n\x7b\n" ++
      Text.indentBlock Text.indentation body.trimBody ++ "\n\x7d"

/-- A body without functions, as a program. -/
def programFile : Target → (body : Text) → Text
  | go, body =>
    "package main\n\n" ++ goImports body ++ "\n\nfunc main() \x7b\n" ++
      Text.indentBlock Text.indentation body.trimBody ++ "\n\x7d"
  | php, body => moduleFile php body
  | javascript, body =>
    belowImports (jsImports body) <|
      "function main() \x7b\n" ++
      Text.indentBlock Text.indentation body.trimBody ++ "\n\x7d\n\nmain();"
  | csharp, body =>
    usings body ++
      "\n\npublic class Program\n\x7b\n    public static void Main(string[] args)\n    \x7b\n" ++
      Text.indentBlock (Text.indentation ++ Text.indentation) body.trimBody ++
      "\n    \x7d\n\x7d"

end Target

end Recast
