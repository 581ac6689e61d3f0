import PowConsensus.Main
import PowConsensus.Retarget.Checked
import PowConsensus.Proofs.Retarget.Ceiling
import PowConsensus.Proofs.Work.Acceptance
import PowConsensus.Proofs.Retarget.History
import PowConsensus.Proofs.Machine.Refinement
import PowConsensus.Proofs.Retarget.Scaled
import PowConsensus.Proofs.Chain.Trail
import PowConsensus.Proofs.Retarget.Blocks
import PowConsensus.Proofs.Retarget.Averages
import PowConsensus.Proofs.Retarget.Slower
import PowConsensus.Proofs.Retarget.Missing
import PowConsensus.Proofs.Retarget.Complete
import PowConsensus.Proofs.Retarget.Satisfiable
import PowConsensus.Proofs.Transaction.Delimited
import PowConsensus.Proofs.Transaction.Serialization
import PowConsensus.Proofs.Header.WireForm
import PowConsensus.Proofs.Genesis.Binding
import PowConsensus.Proofs.Rules.Lookup
import PowConsensus.Proofs.Retarget.Exact
import PowConsensus.Proofs.Retarget.Overflow
import PowConsensus.Proofs.Chain.Growth
import PowConsensus.Proofs.Retarget.Schedule
import PowConsensus.Proofs.Hash.DigestText
import PowConsensus.Proofs.Json.Scanning
import PowConsensus.Proofs.Json.Reading
import PowConsensus.Proofs.Json.Entries
import PowConsensus.Proofs.Command.HeadersFile
import PowConsensus.Proofs.Target.Approximation
import PowConsensus.Proofs.Retarget.Rounds
import PowConsensus.Proofs.Retarget.Regimes
import PowConsensus.Proofs.Retarget.WeightedMean
import PowConsensus.Proofs.Chain.Walk
import PowConsensus.Proofs.Retarget.Periodic
import PowConsensus.Proofs.Retarget.PerBlock
import PowConsensus.Proofs.Target.Canonical
import PowConsensus.Proofs.Retarget.Allowance
import PowConsensus.Proofs.Retarget.OnSchedule
import PowConsensus.Proofs.Work.Sign
import PowConsensus.Proofs.Transaction.ScriptNumber
import PowConsensus.Proofs.Transaction.Elements
import PowConsensus.Proofs.Text.HexDigits
import PowConsensus.Proofs.Hash.DigestForm
import PowConsensus.Proofs.Retarget.StallRule
import PowConsensus.Proofs.Chain.Ancestor
import PowConsensus.Proofs.Transaction.CompactSizes
