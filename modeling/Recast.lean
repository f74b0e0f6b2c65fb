import Recast.Main
import Recast.Pattern.Outcomes
import Recast.Session
import Recast.Proofs.Pattern.Division
import Recast.Proofs.Pattern.Separator
import Recast.Proofs.Rendering.Frame
import Recast.Proofs.Rule.Stages
import Recast.Proofs.Block.Deficit
import Recast.Proofs.Block.Paired
import Recast.Proofs.Rendering.Statement
import Recast.Proofs.Block.Balance
import Recast.Proofs.Rendering.Signs
import Recast.Proofs.Check.Coverage
import Recast.Proofs.Pattern.Joint
import Recast.Proofs.Request.Alone
import Recast.Proofs.Idiom.Shape
import Recast.Proofs.Analysis.Joined
import Recast.Proofs.Analysis.Functions
import Recast.Proofs.Pipeline.TrailingBreaks
import Recast.Proofs.Context.Alike
import Recast.Proofs.Rendering.SliceLength
import Recast.Proofs.Pattern.Choice
import Recast.Proofs.Rule.Comment
import Recast.Proofs.Analysis.Commented
import Recast.Proofs.Rule.ScalerRange
import Recast.Proofs.Rule.Signature
import Recast.Proofs.Rendering.GoHeader
import Recast.Proofs.Check.GoFunctions
import Recast.Proofs.Rule.DefaultReturn
import Recast.Proofs.Text.Nesting
import Recast.Proofs.Rule.Argument
import Recast.Proofs.Rule.Reshape
import Recast.Proofs.Rule.ArrayPair
import Recast.Proofs.Rule.CallArguments
import Recast.Proofs.Check.ErrorCount
import Recast.Proofs.Check.PushTarget
import Recast.Proofs.Rendering.Tops
import Recast.Proofs.Rendering.Unframe
import Recast.Proofs.Rule.WindowConstant
import Recast.Proofs.Rule.StatementEnd
import Recast.Proofs.Rule.LineByLine
import Recast.Proofs.Pattern.Exhaustion
import Recast.Proofs.Rule.LineOpeners
import Recast.Proofs.Rule.EarlyRules
import Recast.Proofs.Pattern.Thinning
import Recast.Proofs.Rule.SliceBlanks
import Recast.Proofs.Analysis.NumberKinds
import Recast.Proofs.Report.Legible
import Recast.Proofs.Rule.Replay
import Recast.Proofs.Json.Reader
import Recast.Proofs.Cli.ResultDocument
import Recast.Proofs.Cli.JsonOutput
import Recast.Proofs.Pattern.Partition
