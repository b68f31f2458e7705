import Dockerfile.Build
import Dockerfile.CommandLine.Call
import Dockerfile.CommandLine.Program
import Dockerfile.Decimal
import Dockerfile.Encoding
import Dockerfile.Instruction
import Dockerfile.Json
import Dockerfile.Main
import Dockerfile.Optimize
import Dockerfile.Outcome
import Dockerfile.Report
import Dockerfile.Rule.Basic
import Dockerfile.Rule.Checks
import Dockerfile.Rule.NewerTag
import Dockerfile.Text.Basic
import Dockerfile.Text.Classes
import Dockerfile.Proofs.Build.Measurement
import Dockerfile.Proofs.CommandLine.Status
import Dockerfile.Proofs.Decimal
import Dockerfile.Proofs.Instruction.Comments
import Dockerfile.Proofs.Instruction.FromWords
import Dockerfile.Proofs.Instruction.Groups
import Dockerfile.Proofs.Instruction.Lines
import Dockerfile.Proofs.Instruction.Reading
import Dockerfile.Proofs.Instruction.Reprint
import Dockerfile.Proofs.Instruction.WellFormed
import Dockerfile.Proofs.Json.RoundTrip
import Dockerfile.Proofs.Json.Strings
import Dockerfile.Proofs.Optimize.Blocks
import Dockerfile.Proofs.Optimize.Lossless
import Dockerfile.Proofs.Optimize.NormalForm
import Dockerfile.Proofs.Optimize.Order
import Dockerfile.Proofs.Optimize.Partition
import Dockerfile.Proofs.Optimize.Pinning
import Dockerfile.Proofs.Optimize.Ports
import Dockerfile.Proofs.Optimize.Progress
import Dockerfile.Proofs.Optimize.Remedy
import Dockerfile.Proofs.Optimize.Rendering
import Dockerfile.Proofs.Optimize.Replacement
import Dockerfile.Proofs.Optimize.Secret
import Dockerfile.Proofs.Optimize.Step
import Dockerfile.Proofs.Optimize.Sudo
import Dockerfile.Proofs.Optimize.Verdicts
import Dockerfile.Proofs.Outcome
import Dockerfile.Proofs.Related
import Dockerfile.Proofs.Report.Decoding
import Dockerfile.Proofs.Report.Shown
import Dockerfile.Proofs.Rule.Analysis
import Dockerfile.Proofs.Rule.Answers
import Dockerfile.Proofs.Rule.Faults
import Dockerfile.Proofs.Rule.NewerTag
import Dockerfile.Proofs.Rule.Places
import Dockerfile.Proofs.Rule.Positions
import Dockerfile.Proofs.Rule.Scope
import Dockerfile.Proofs.Rule.StageNames
import Dockerfile.Proofs.Rule.UnpinnedBase
import Dockerfile.Proofs.Text.Layout
import Dockerfile.Proofs.Text.Phrase
import Dockerfile.Proofs.Text.Trim
import Dockerfile.Proofs.Text.Words
import Dockerfile.Proofs.Version
import Dockerfile.Proofs.Version.Order
import Dockerfile.Proofs.Version.Reading
