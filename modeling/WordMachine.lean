import WordMachine.Main
import WordMachine.Record
import WordMachine.Proofs.Stepping
import WordMachine.Proofs.Cells
import WordMachine.Proofs.Running
import WordMachine.Proofs.Requests
import WordMachine.Proofs.Budget
import WordMachine.Proofs.Bare
import WordMachine.Proofs.Safety
import WordMachine.Proofs.Loading
import WordMachine.Proofs.Sweep
import WordMachine.Proofs.Coverage
import WordMachine.Proofs.Mnemonic
import WordMachine.Proofs.Assembly
import WordMachine.Proofs.Rows
import WordMachine.Proofs.Reads
import WordMachine.Proofs.Unread
import WordMachine.Proofs.Recoding
import WordMachine.Proofs.Mapping
import WordMachine.Proofs.Artifacts
import WordMachine.Proofs.Observation
import WordMachine.Proofs.Failure
import WordMachine.Proofs.Validation
import WordMachine.Proofs.Normal
import WordMachine.Proofs.Legible
import WordMachine.Proofs.Invocation
import WordMachine.Proofs.Labels
import WordMachine.Proofs.Exit
import WordMachine.Proofs.Expectations
import WordMachine.Proofs.Places
import WordMachine.Proofs.Precedence
import WordMachine.Proofs.Outputs
import WordMachine.Proofs.Updating
import WordMachine.Proofs.Figures
import WordMachine.Proofs.Remarks
import WordMachine.Proofs.Replay
import WordMachine.Proofs.Lines
import WordMachine.Proofs.Blocks
import WordMachine.Proofs.Encoding
import WordMachine.Proofs.Spelling
import WordMachine.Proofs.Formats
import WordMachine.Proofs.Recurrence
import WordMachine.Proofs.Storage
import WordMachine.Proofs.Greeting
import WordMachine.Proofs.Refusal
import WordMachine.Proofs.Hexadecimal
import WordMachine.Proofs.Tokens
import WordMachine.Proofs.Joining
import WordMachine.Proofs.Columns
import WordMachine.Proofs.Counter
import WordMachine.Proofs.Tiling
import WordMachine.Proofs.Continuation
import WordMachine.Proofs.Recognition
import WordMachine.Proofs.Restoration
import WordMachine.Proofs.Writes
import WordMachine.Proofs.Acceptance
import WordMachine.Proofs.Sources
import WordMachine.Proofs.Filling
import WordMachine.Proofs.Bits
