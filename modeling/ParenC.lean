import ParenC.Main
import ParenC.Proofs.CommandLine
import ParenC.Proofs.CommandLine.LogFilter
import ParenC.Proofs.Compilation
import ParenC.Proofs.Findings.Places
import ParenC.Proofs.Lowering.Access
import ParenC.Proofs.Lowering.Booleans
import ParenC.Proofs.Lowering.Checked
import ParenC.Proofs.Lowering.Consumption
import ParenC.Proofs.Lowering.Discipline
import ParenC.Proofs.Lowering.Encoding
import ParenC.Proofs.Lowering.Flow
import ParenC.Proofs.Lowering.Labelling
import ParenC.Proofs.Lowering.Limits
import ParenC.Proofs.Lowering.Literals
import ParenC.Proofs.Lowering.Repetition
import ParenC.Proofs.Lowering.Sections
import ParenC.Proofs.Pattern.Form
import ParenC.Proofs.Reading.Ahead
import ParenC.Proofs.Reading.Integrity
import ParenC.Proofs.Reading.Progress
import ParenC.Proofs.Reading.Resolution
import ParenC.Proofs.Reading.Scopes
import ParenC.Proofs.Renaming
import ParenC.Proofs.Symbols
import ParenC.Proofs.Token.Joined
import ParenC.Proofs.Types.Layout
import ParenC.Proofs.Types.Registration
import ParenC.Proofs.Types.Words
import ParenC.Proofs.Typing.Judgement
