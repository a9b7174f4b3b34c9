import LinearGrammar.Main
import LinearGrammar.Grammar.Edits
import LinearGrammar.Proofs.AlphabetEdits
import LinearGrammar.Proofs.Blank
import LinearGrammar.Proofs.BodyCut
import LinearGrammar.Proofs.BodyFaults
import LinearGrammar.Proofs.CheckVerdicts
import LinearGrammar.Proofs.CommandLines
import LinearGrammar.Proofs.DepthText
import LinearGrammar.Proofs.Desk
import LinearGrammar.Proofs.Expansion
import LinearGrammar.Proofs.Inputs
import LinearGrammar.Proofs.JsonReading
import LinearGrammar.Proofs.LastQuery
import LinearGrammar.Proofs.Ledger
import LinearGrammar.Proofs.LineGrammar
import LinearGrammar.Proofs.Matching
import LinearGrammar.Proofs.MaximalMunch
import LinearGrammar.Proofs.NormalForm
import LinearGrammar.Proofs.OutlineDrawing
import LinearGrammar.Proofs.PayloadText
import LinearGrammar.Proofs.Pruning
import LinearGrammar.Proofs.RaisedDepth
import LinearGrammar.Proofs.RecordFields
import LinearGrammar.Proofs.Reload
import LinearGrammar.Proofs.Replay
import LinearGrammar.Proofs.RuleEntry
import LinearGrammar.Proofs.RuleLines
import LinearGrammar.Proofs.RuleRemoval
import LinearGrammar.Proofs.SampleRuns
import LinearGrammar.Proofs.SamplerCompleteness
import LinearGrammar.Proofs.SecondLoad
import LinearGrammar.Proofs.Separation
import LinearGrammar.Proofs.Settling
import LinearGrammar.Proofs.Spacing
import LinearGrammar.Proofs.StartSymbol
import LinearGrammar.Proofs.Submittable
import LinearGrammar.Proofs.Traffic
import LinearGrammar.Proofs.TypedCommands
import LinearGrammar.Proofs.TypedRemoval
import LinearGrammar.Proofs.TypedRules
import LinearGrammar.Proofs.ValueText
import LinearGrammar.Proofs.WellFormed
import LinearGrammar.Proofs.Words
import LinearGrammar.Proofs.Workbench
import LinearGrammar.Session.Files
import LinearGrammar.Proofs.TextBytes
import LinearGrammar.Proofs.Bodies
