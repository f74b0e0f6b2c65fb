import Recast.Target.Basic
import Recast.Pattern.Basic

/-!
# Statements in the targets

How each construct of a snippet is written in each target, given its parts.
-/

namespace Recast

open Pattern in
/-- A name of letters, digits and underscores that does not start with a
digit. -/
def Pattern.identifier : Pattern :=
  anchor .textStart ++ one (fun c => c.isAlpha || c == '_') ++
  many .longest isWord ++ anchor .textEnd

namespace Target

/-- PHP marks a variable; any other expression stands for itself. -/
def phpVariable (expression : Text) : Text :=
  if Pattern.identifier.opens expression then '$' :: expression else expression

/-- The lines of documentation that carry the types of parameters. -/
def paramDoc (params : List (Text × Text)) (indent : Text) : Text :=
  "/**\n" ++
    Text.unlines (params.map fun p => indent ++ " * @param \x7b" ++ p.2 ++
      "\x7d " ++ p.1) ++ "\n" ++ indent ++ " */\n" ++ indent

/-- The header of a function, up to the brace that opens its body. -/
def functionHeader :
    Target → (name : Text) → (params : List (Text × Text)) →
    (indent : Text) → Text
  | go, name, params, _ =>
    "func " ++ name ++ "(" ++
    Text.join ", " (params.map fun p => p.1 ++ " " ++ p.2) ++
      ") (x, y [][]float64, err error) \x7b"
  | php, name, params, _ =>
    "function " ++ name ++ "(" ++
    Text.join ", " (params.map fun p => p.2 ++ " $" ++ p.1) ++ ") \x7b"
  | javascript, name, params, indent =>
    let header : Text := "function " ++ name ++ "(" ++
      Text.join ", " (params.map Prod.fst) ++ ") \x7b"
    if params.isEmpty then header else paramDoc params indent ++ header
  | csharp, name, params, _ =>
    "public static (double[][] x, double[] y) " ++ name ++ "(" ++
      Text.join ", " (params.map fun p => p.2 ++ " " ++ p.1) ++ ") \x7b"

/-- Two empty lists under two names. -/
def dualInit : Target → (first second : Text) → Text × Text
  | go, first, second =>
    (first ++ " := make([][]float64, 0)", second ++ " := make([]float64, 0)")
  | php, first, second => ("$" ++ first ++ " = [];", "$" ++ second ++ " = [];")
  | javascript, first, second =>
    ("let " ++ first ++ " = [];", "let " ++ second ++ " = [];")
  | csharp, first, second =>
    ("var " ++ first ++ " = new List<double[]>();",
      "var " ++ second ++ " = new List<double>();")

/-- The header of a loop that counts from zero up to a bound. -/
def loop : Target → (index bound : Text) → Text
  | go, i, n =>
    "for " ++ i ++ " := 0; " ++ i ++ " < " ++ n ++ "; " ++ i ++ "++ \x7b"
  | php, i, n =>
    "for ($" ++ i ++ " = 0; $" ++ i ++ " < " ++ n ++ "; $" ++ i ++ "++) \x7b"
  | javascript, i, n =>
    "for (let " ++ i ++ " = 0; " ++ i ++ " < " ++ n ++ "; " ++ i ++ "++) \x7b"
  | csharp, i, n =>
    "for (var " ++ i ++ " = 0; " ++ i ++ " < " ++ n ++ "; " ++ i ++ "++) \x7b"

/-- A statement that prints. -/
def print : Target → (content : Text) → Text
  | go, content => "fmt.Println(" ++ content ++ ")"
  | php, content => "echo " ++ content ++ ";"
  | javascript, content => "console.log(" ++ content ++ ");"
  | csharp, content => "Console.WriteLine(" ++ content ++ ");"

/-- A statement that appends a value to a list. -/
def append : Target → (name value : Text) → Text
  | go, name, value => name ++ " = append(" ++ name ++ ", " ++ value ++ ")"
  | php, name, value => "array_push($" ++ name ++ ", " ++ value ++ ");"
  | javascript, name, value => name ++ ".push(" ++ value ++ ");"
  | csharp, name, value => name ++ ".Add(" ++ value ++ ");"

/-- The part of a list from one index up to another; either may be left out. -/
def slice : Target → (name start stop : Text) → Text
  | go, name, start, stop => name ++ "[" ++ start ++ ":" ++ stop ++ "]"
  | php, name, start, stop =>
    let start := Text.orElse start "0"
    if stop.isEmpty then "array_slice($" ++ name ++ ", " ++ start ++ ")"
    else if start = "0" then "array_slice($" ++ name ++ ", 0, " ++ stop ++ ")"
    else "array_slice($" ++ name ++ ", " ++ start ++ ", (" ++ stop ++ " - " ++
      start ++ "))"
  | javascript, name, start, stop =>
    let start := Text.orElse start "0"
    if stop.isEmpty then name ++ ".slice(" ++ start ++ ")"
    else name ++ ".slice(" ++ start ++ ", " ++ stop ++ ")"
  | csharp, name, start, stop =>
    let start := Text.orElse start "0"
    if stop.isEmpty then name ++ ".Skip(" ++ start ++ ").ToArray()"
    else if start = "0" then name ++ ".Take(" ++ stop ++ ").ToArray()"
    else name ++ ".Skip(" ++ start ++ ").Take(" ++ stop ++ " - " ++ start ++
      ").ToArray()"

/-- The length of a list. -/
def length : Target → (name : Text) → Text
  | go, name => "len(" ++ name ++ ")"
  | php, name => "count($" ++ name ++ ")"
  | javascript, name => name ++ ".length"
  | csharp, name => name ++ ".Count()"

/-- Values laid out as a matrix. -/
def reshape : Target → (values rows cols : Text) → Text
  | go, values, rows, cols =>
    "mat.NewDense(" ++ rows ++ ", " ++ cols ++ ", " ++ values ++ ")"
  | php, values, rows, cols =>
    "(new \\MathPHP\\LinearAlgebra\\Matrix(" ++ phpVariable values ++
    "))->reshape(" ++ rows ++ ", " ++ cols ++ ")"
  | javascript, values, rows, cols =>
    "matrix.Matrix.from1DArray(" ++ rows ++ ", " ++ cols ++ ", " ++
    values ++ ")"
  | csharp, values, rows, cols =>
    "Matrix<double>.Build.DenseOfColumnMajor(" ++ rows ++ ", " ++ cols ++
    ", " ++ values ++ ".ToArray())"

/-- The lines that fit a scaler to values and apply it. -/
def fitTransform : Target → (name scaler values : Text) → List Text
  | go, name, scaler, values =>
    ["var " ++ name ++ " mat.Dense",
     "// TODO: port " ++ scaler ++ ".fit_transform with gonum/stat",
     "// stat.UnitNorm(" ++ name ++ ", " ++ values ++ ", 0, false)"]
  | php, name, _, values =>
    ["$" ++ name ++ " = (new \\Phpml\\Preprocessing\\Normalizer())",
     Text.indentation ++ "->fit(" ++ phpVariable values ++ ")",
     Text.indentation ++ "->transform(" ++ phpVariable values ++ ");"]
  | javascript, name, scaler, values =>
    ["const " ++ name ++ " = " ++ scaler ++ ".fit(" ++ values ++
      ").transform(" ++ values ++ ");"]
  | csharp, name, scaler, values =>
    ["var mlContext = new MLContext();",
     "// TODO: port " ++ scaler ++ ".fit_transform(" ++ values ++
      ") to mlContext.Transforms.NormalizeMinMax",
     "var " ++ name ++ " = new List<double[]>(); // Placeholder"]

/-- A scaler to the range from `low` to `high`. -/
def scaler : Target → (name low high : Text) → Text
  | go, name, low, high =>
    "// " ++ name ++ ": MinMaxScaler over [" ++ low ++ ", " ++ high ++
    "] has no direct gonum equivalent"
  | php, name, low, high =>
    "// $" ++ name ++ ": MinMaxScaler over [" ++ low ++ ", " ++ high ++
      "] is approximated by \\Phpml\\Preprocessing\\Normalizer"
  | javascript, name, low, high =>
    "const " ++ name ++ " = new MinMaxScaler(\x7b featureRange: [" ++ low ++
    ", " ++ high ++ "] \x7d);"
  | csharp, name, low, high =>
    "// " ++ name ++ ": MinMaxScaler over [" ++ low ++ ", " ++ high ++
      "] maps to mlContext.Transforms.NormalizeMinMax"

/-- A statement that returns two values. -/
def pairReturn : Target → (first second : Text) → Text
  | go, first, second =>
    "return " ++ first ++ ", " ++ second ++ ", nil // Success"
  | php, first, second =>
    "return array(" ++ phpVariable first ++ ", " ++ phpVariable second ++ ");"
  | javascript, first, second => "return [" ++ first ++ ", " ++ second ++ "];"
  | csharp, first, second =>
    "return (" ++ first ++ ".ToArray(), " ++ second ++ ".ToArray());"

/-- A named constant. -/
def constant : Target → (name : Text) → (value : Int) → Text
  | go, name, value =>
    "const " ++ name ++ " = " ++ Text.ofInt value ++
    " // Sequence length for time series"
  | php, name, value => "const " ++ name ++ " = " ++ Text.ofInt value ++ ";"
  | javascript, name, value =>
    "const " ++ name ++ " = " ++ Text.ofInt value ++ ";"
  | csharp, name, value =>
    "const int " ++ name ++ " = " ++ Text.ofInt value ++ ";"

end Target

end Recast
