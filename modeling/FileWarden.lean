import FileWarden.Files.Memory
import FileWarden.Main
import FileWarden.Proofs.Ledger
import FileWarden.Source.Script
import FileWarden.Proofs.History
import FileWarden.Proofs.Blocking
import FileWarden.Proofs.Pattern.Grammar
import FileWarden.Proofs.Pattern.Members
import FileWarden.Proofs.Pattern.Wildcard
import FileWarden.Proofs.Pattern.Class
import FileWarden.Proofs.Pattern.Cover
import FileWarden.Proofs.Pattern.Stars
import FileWarden.Proofs.Loop
import FileWarden.Proofs.Isolation
import FileWarden.Proofs.Text.Utf8
import FileWarden.Proofs.Text.Blank
import FileWarden.Proofs.Json.Written
import FileWarden.Proofs.Event.Recording
import FileWarden.Proofs.Supply
import FileWarden.Proofs.Journal
import FileWarden.Proofs.DryRun
import FileWarden.Proofs.Journal.Entry
import FileWarden.Proofs.Calls
import FileWarden.Proofs.Failures
import FileWarden.Proofs.Command
import FileWarden.Proofs.SideChannel
import FileWarden.Proofs.Strictness
import FileWarden.Proofs.Protocol
import FileWarden.Proofs.Text.Lossy
import FileWarden.Proofs.Event.Capture
import FileWarden.Proofs.Console
import FileWarden.Proofs.Replay
import FileWarden.Proofs.Drain
import FileWarden.Proofs.Event.Lines
import FileWarden.Proofs.Pattern.Malformed
import FileWarden.Proofs.Policy.Texts
import FileWarden.Proofs.Options
import FileWarden.Proofs.Event.Layout
import FileWarden.Proofs.Text.Straddled
import FileWarden.Proofs.Text.Trimmed
import FileWarden.Proofs.Text.Faultless
import FileWarden.Proofs.Event.Bytes
import FileWarden.Proofs.Ledger.Changes
import FileWarden.Proofs.Pattern.Parts
import FileWarden.Proofs.Text.Boundary
import FileWarden.Proofs.Event.Bounded
import FileWarden.Proofs.Loop.Log
