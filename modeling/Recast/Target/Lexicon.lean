import Recast.Kind
import Recast.Library
import Recast.Target.Basic

/-!
# Types and libraries of the targets

What a kind of value is called in each target, and what stands in for a library
there.
-/

namespace Recast

namespace Target

/-- The type of a kind of value. A value of unknown kind passes for an array of
numbers. -/
def typeName : Target → Kind → Text
  | go, .int => "int"
  | go, .float => "float64"
  | go, .string => "string"
  | go, .list => "[]interface\x7b\x7d"
  | go, .array | go, .unknown => "[]float64"
  | go, .bool => "bool"
  | php, .int => "int"
  | php, .float => "float"
  | php, .string => "string"
  | php, .list | php, .array | php, .unknown => "array"
  | php, .bool => "bool"
  | javascript, .int | javascript, .float => "number"
  | javascript, .string => "string"
  | javascript, .list => "Array"
  | javascript, .array | javascript, .unknown => "number[]"
  | javascript, .bool => "boolean"
  | csharp, .int => "int"
  | csharp, .float => "double"
  | csharp, .string => "string"
  | csharp, .list => "List<object>"
  | csharp, .array | csharp, .unknown => "double[]"
  | csharp, .bool => "bool"

/-- What stands in for the array library. -/
def numpyCounterpart : Target → Text
  | go => "gonum.org/v1/gonum/mat"
  | php => "MathPHP\\LinearAlgebra"
  | javascript => "ml-matrix"
  | csharp => "MathNet.Numerics"

/-- What stands in for the learning library. -/
def sklearnCounterpart : Target → Text
  | go => "github.com/sajari/regression"
  | php => "Phpml\\Preprocessing"
  | javascript => "ml-js/ml"
  | csharp => "ML.NET"

end Target

namespace Lexicon

/-- What is said where nothing stands in for a library. -/
def notAvailable : Text := "not available"

/-- The type of a kind in a target, both given by their words. A word for no
kind is read as an array, and a target that is not known has no types. -/
def typeName (kind target : Text) : Text :=
  match Target.ofName? target with
  | none => []
  | some t => t.typeName ((Kind.ofName? kind).getD .array)

/-- What stands in for a library in a target, both given by their words. -/
def counterpart (library target : Text) : Text :=
  match Target.ofName? target with
  | none => notAvailable
  | some t =>
    if library = Library.numpy then t.numpyCounterpart
    else if library = Library.sklearn then t.sklearnCounterpart
    else notAvailable

end Lexicon

end Recast
