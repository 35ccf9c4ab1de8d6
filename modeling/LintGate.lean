import LintGate.Main
import LintGate.Proofs.Registry.Reload
import LintGate.Proofs.Registry.Runs
import LintGate.Proofs.RunContract
import LintGate.Proofs.Json.Same
import LintGate.Proofs.Registry.Undo
import LintGate.Proofs.Echo
import LintGate.Proofs.Project
import LintGate.Proofs.Registry.Stored
import LintGate.Proofs.HookContract
import LintGate.Proofs.Registry.Kept
import LintGate.Proofs.Reports
import LintGate.Proofs.Launches
import LintGate.Proofs.CommandLine.Default
import LintGate.Proofs.Diagnostics
import LintGate.Proofs.Registry.Contract
import LintGate.Proofs.Registry.Order
import LintGate.Proofs.Registry.Alike
import LintGate.Proofs.AutoBurn
import LintGate.Proofs.PayloadDocument
import LintGate.Proofs.CommandLine.OptionLine
import LintGate.Proofs.EchoLines
import LintGate.Proofs.Damage
