import Recast.Pipeline
import Recast.Proofs.Text.Layout

/-!
# The parts of a framed file

A file of a target is a top, the body as it is laid out, and a bottom
(`frame_eq`). The body enters the top only through a few signs of use, so that a
fact about all tops is a fact about finitely many texts. The words of a file are
those of its parts (`words_frame`), and only in PHP is the file of a program that
of a module (`programFile_eq_moduleFile_iff`).
-/

namespace Recast

namespace Text

/-- A text that ends in a blank shares no word with what follows. -/
theorem words_append_of_getLast? {u : Text} (hu : u.getLast?.all isBlank = true)
    (v : Text) :
    words (u ++ v) = words u ++ words v := by
  rcases List.eq_nil_or_concat u with rfl | ⟨w, c, rfl⟩
  · rfl
  · have hc : isBlank c = true := by simpa using hu
    have hend : words (w ++ [c]) = words w :=
      words_append_blanks (by simpa using hc) w
    rw [List.concat_eq_append, hend, List.append_assoc]
    exact words_append_blank hc w v

/-- A text that starts with a blank shares no word with what stands before. -/
theorem words_append_of_head? {v : Text} (hv : v.head?.all isBlank = true)
    (u : Text) :
    words (u ++ v) = words u ++ words v := by
  cases v with
  | nil => simp
  | cons c v => rw [words_append_blank hv, words_cons_blank hv]

end Text

namespace Target

/-! ## Tops by signs of use -/

/-- The import declaration of Go, by the packages in use. -/
def goImportsOf (math mat stat : Bool) : Text :=
  match (("fmt" : Text) ::
      (Text.onlyIf math "math" ++ Text.onlyIf mat "gonum.org/v1/gonum/mat" ++
        Text.onlyIf stat "gonum.org/v1/gonum/stat")) with
  | [package] => "import \"" ++ package ++ "\""
  | packages =>
    "import (\n" ++ Text.unlines (packages.map fun p =>
      Text.indentation ++ "\"" ++ p ++ "\"") ++ "\n)"

/-- The top in Go, by the packages in use. -/
def goTop (program math mat stat : Bool) : Text :=
  "package main\n\n" ++ goImportsOf math mat stat ++
    if program then "\n\nfunc main() \x7b\n" else "\n\n"

/-- The top in PHP, with a loader of libraries or without. -/
def phpTop (libraries : Bool) : Text :=
  let tag : Text :=
    if libraries then "<?php\n\nrequire __DIR__ . '/vendor/autoload.php';"
    else "<?php"
  tag ++ "\n\n"

/-- The top in JavaScript, by the libraries in use. -/
def jsTop (program matrix scaler : Bool) : Text :=
  belowImports
    (Text.onlyIf matrix
      ("const matrix = require(\"" ++ javascript.numpyCounterpart ++ "\");") ++
      Text.onlyIf scaler
        ("const \x7b MinMaxScaler \x7d = require(\"" ++
          javascript.sklearnCounterpart ++ "\");"))
    (if program then "function main() \x7b\n" else [])

/-- The using lines of C#, by the namespaces in use. -/
def csUsings (lists linq matrix learning : Bool) : Text :=
  Text.unlines ((("System" : Text) ::
    (Text.onlyIf lists "System.Collections.Generic" ++
      Text.onlyIf linq "System.Linq" ++
      Text.onlyIf matrix "MathNet.Numerics.LinearAlgebra" ++
      Text.onlyIf learning "Microsoft.ML")).map fun n => "using " ++ n ++ ";")

/-- The top in C#, by the namespaces in use. -/
def csTop (program lists linq matrix learning : Bool) : Text :=
  csUsings lists linq matrix learning ++
    if program then
      "\n\npublic class Program\n\x7b\n    public static void Main(string[] args)\n    \x7b\n"
    else "\n\npublic class MLTranslator\n\x7b\n"

/-! ## The parts -/

/-- What stands before the body, in a program or in a file of functions. -/
def fileTop : Target → (program : Bool) → (body : Text) → Text
  | go, program, body =>
    goTop program ((Usage.qualifier "math").foundIn body)
      ((Usage.qualifier "mat").foundIn body)
        ((Usage.qualifier "stat").foundIn body)
  | php, _, body =>
    phpTop (body.mentions "\\MathPHP\\" || body.mentions "\\Phpml\\")
  | javascript, program, body =>
    jsTop program (body.mentions "matrix.Matrix") (body.mentions "MinMaxScaler")
  | csharp, program, body =>
    csTop program (body.mentions "List<") (Usage.sequenceMethod.foundIn body)
      (body.mentions "Matrix<double>") (body.mentions "MLContext")

/-- What holds of the tops for every choice of signs holds of every top. -/
theorem fileTop_cases {P : Target → Bool → Text → Prop}
    (hgo : ∀ program math mat stat, P go program (goTop program math mat stat))
    (hphp : ∀ program libraries, P php program (phpTop libraries))
    (hjs : ∀ program matrix scaler, P javascript program
      (jsTop program matrix scaler))
    (hcs : ∀ program lists linq matrix learning, P csharp program
      (csTop program lists linq matrix learning))
    (t : Target) (program : Bool) (body : Text) :
    P t program (t.fileTop program body) := by
  cases t with
  | go => exact hgo _ _ _ _
  | php => exact hphp _ _
  | javascript => exact hjs _ _ _
  | csharp => exact hcs _ _ _ _ _

/-- The body as it stands in the file. -/
def laidOut : Target → (program : Bool) → (body : Text) → Text
  | go, true, body | javascript, true, body | csharp, false, body =>
    Text.indentBlock Text.indentation body.trimBody
  | csharp, true, body =>
    Text.indentBlock (Text.indentation ++ Text.indentation) body.trimBody
  | php, _, body => body.trimBody
  | go, false, body | javascript, false, body => body

/-- What stands after the body. -/
def fileBottom : Target → (program : Bool) → Text
  | go, true => "\n\x7d"
  | go, false => []
  | php, _ => "\n\n?>"
  | javascript, true => "\n\x7d\n\nmain();"
  | javascript, false => []
  | csharp, true => "\n    \x7d\n\x7d"
  | csharp, false => "\n\x7d"

theorem belowImports_append (imports : List Text) (u v : Text) :
    belowImports imports (u ++ v) = belowImports imports u ++ v := by
  rw [belowImports, belowImports]
  split
  · rfl
  · simp only [List.append_assoc]

theorem programFile_eq (t : Target) (body : Text) :
    t.programFile body =
      t.fileTop true body ++ t.laidOut true body ++ t.fileBottom true := by
  cases t with
  | go => rfl
  | php => rfl
  | javascript =>
      show belowImports _ _ = belowImports _ _ ++ _ ++ _
      rw [← belowImports_append, ← belowImports_append]
      rfl
  | csharp => rfl

theorem moduleFile_eq (t : Target) (body : Text) :
    t.moduleFile body =
      t.fileTop false body ++ t.laidOut false body ++ t.fileBottom false := by
  cases t with
  | go => exact (List.append_nil _).symm
  | php => rfl
  | javascript =>
      show belowImports _ body = belowImports (jsImports body) [] ++ body ++ []
      rw [List.append_nil, ← belowImports_append, List.nil_append]
  | csharp => rfl

/-- A framed file is a top, the laid out body and a bottom. -/
theorem frame_eq (t : Target) (ctx : Context) (body : Text) :
    t.frame ctx body = t.fileTop ctx.functions.isEmpty body ++
      t.laidOut ctx.functions.isEmpty body ++
      t.fileBottom ctx.functions.isEmpty := by
  cases h : ctx.functions.isEmpty with
  | true => rw [frame, if_pos h, programFile_eq]
  | false => rw [frame, if_neg (by simp [h]), moduleFile_eq]

/-! ## Words of the parts -/

theorem words_laidOut (t : Target) (program : Bool) (body : Text) :
    (t.laidOut program body).words = body.words := by
  have hone := Text.words_indentBlock Text.isBlank_indentation body.trimBody
  have htwo :
      (Text.indentBlock (Text.indentation ++ Text.indentation)
        body.trimBody).words =
      body.trimBody.words :=
    Text.words_indentBlock (List.all_eq_true.mp (by decide)) body.trimBody
  have htrim := Text.words_trimBody body
  cases t <;> cases program
  · rfl
  · exact hone.trans htrim
  · exact htrim
  · exact htrim
  · rfl
  · exact hone.trans htrim
  · exact hone.trans htrim
  · exact htwo.trans htrim

/-- A top is empty or ends in a blank. -/
theorem isBlank_getLast?_fileTop (t : Target) (program : Bool) (body : Text) :
    (t.fileTop program body).getLast?.all isBlank = true :=
  fileTop_cases (P := fun _ _ u => u.getLast?.all isBlank = true)
    (by decide +kernel) (by decide +kernel) (by decide +kernel)
      (by decide +kernel) t program body

theorem isBlank_head?_fileBottom (t : Target) (program : Bool) :
    (t.fileBottom program).head?.all isBlank = true := by
  cases t <;> cases program <;> decide

/-- The words of a framed file are those of its parts. -/
theorem words_frame (t : Target) (ctx : Context) (body : Text) :
    (t.frame ctx body).words =
      (t.fileTop ctx.functions.isEmpty body).words ++ body.words ++
        (t.fileBottom ctx.functions.isEmpty).words := by
  rw [frame_eq, Text.words_append_of_head? (t.isBlank_head?_fileBottom _),
    Text.words_append_of_getLast? (t.isBlank_getLast?_fileTop _ _),
    words_laidOut]

end Target

/-! ## The two forms of a file -/

namespace Text

theorem length_unlines_map {g : Text → Text}
    (hg : ∀ l : Text, l.length ≤ (g l).length) (ls : List Text) :
    (unlines ls).length ≤ (unlines (ls.map g)).length := by
  induction ls with
  | nil => exact Nat.le_refl _
  | cons l ls ih =>
      cases ls with
      | nil => simpa [unlines_singleton] using hg l
      | cons k ls =>
          have hl := hg l
          rw [List.map_cons, List.map_cons, unlines_cons_cons,
            unlines_cons_cons]
          rw [List.map_cons] at ih
          simp only [List.length_append, List.length_cons]
          omega

/-- Indenting makes no text shorter. -/
theorem length_le_indentBlock (pad t : Text) :
    t.length ≤ (indentBlock pad t).length := by
  have hline : ∀ l : Text, l.length ≤
      (if (trim l).isEmpty then l else pad ++ l).length := by
    intro l
    split
    · exact Nat.le_refl _
    · simp
  calc t.length = (unlines (lines t)).length := by rw [unlines_lines]
    _ ≤ (indentBlock pad t).length := length_unlines_map hline (lines t)

/-- A body is not itself indented between a top that starts with no line feed
and a bottom that ends in no blank: nothing would be trimmed, and it would be
longer than it is. -/
theorem ne_indentBlock_trimBody {pad top bottom body : Text} {c d : Char}
    (hc : c ≠ '\n') (hd : isBlank d = false) :
    body ≠ c :: top ++ indentBlock pad body.trimBody ++ (bottom ++ [d]) := by
  intro h
  have htrim : body.trimBody = body := by
    have hfront : body.dropWhile (· == '\n') = body := by
      rw [h, List.cons_append, List.cons_append,
        List.dropWhile_cons_of_neg (by simpa using hc)]
    rw [trimBody, hfront, h, ← List.append_assoc, trimEnd,
      dropEndWhile_concat hd]
  have hlength := congrArg List.length h
  have hindent := length_le_indentBlock pad body.trimBody
  rw [htrim] at hindent hlength
  simp only [List.length_append, List.length_cons] at hlength
  omega

end Text

namespace Target

theorem belowImports_injective {imports : List Text} {u v : Text}
    (h : belowImports imports u = belowImports imports v) : u = v := by
  rw [belowImports, belowImports] at h
  split at h
  · exact h
  · exact List.append_cancel_left h

/-- Only in PHP is a program laid out like a file of functions. -/
theorem programFile_eq_moduleFile_iff (t : Target) (body : Text) :
    t.programFile body = t.moduleFile body ↔ t = php := by
  constructor
  · intro h
    cases t with
    | php => rfl
    | go =>
        have hprogram : go.programFile body =
            ("package main\n\n" ++ goImports body ++ "\n\n") ++
            ('f' :: "unc main() \x7b\n".toList ++
              Text.indentBlock Text.indentation body.trimBody ++
              (['\n'] ++ [Block.closing])) := by
          show "package main\n\n".toList ++ goImports body ++
            "\n\nfunc main() \x7b\n".toList ++ _ ++ _ = _
          simp only [List.append_assoc]
          rfl
        rw [hprogram] at h
        exact (Text.ne_indentBlock_trimBody (by decide) (by decide)
          (List.append_cancel_left h).symm).elim
    | javascript =>
        have hbody : body = 'f' :: "unction main() \x7b\n".toList ++
            Text.indentBlock Text.indentation body.trimBody ++
            ("\n\x7d\n\nmain()".toList ++ [';']) :=
          (belowImports_injective h).symm
        exact (Text.ne_indentBlock_trimBody (by decide) (by decide) hbody).elim
    | csharp =>
        -- the classes have different names
        change usings body ++
            "\n\npublic class Program\n\x7b\n    public static void Main(string[] args)\n    \x7b\n".toList ++
            _ ++ _ = usings body ++
              "\n\npublic class MLTranslator\n\x7b\n".toList ++ _ ++ _ at h
        simp only [List.append_assoc] at h
        have hname := congrArg (List.take 16) (List.append_cancel_left h)
        rw [List.take_append_of_le_length (by decide),
          List.take_append_of_le_length (by decide)] at hname
        exact absurd hname (by decide)
  · rintro rfl
    rfl

end Target

end Recast
