import EditorBridge.Main
import EditorBridge.Proofs.Buffer.Log
import EditorBridge.Proofs.CommandLine.Outward
import EditorBridge.Proofs.Scopes.Pattern
import EditorBridge.Proofs.Server.Stream
import EditorBridge.Proofs.Session.Replacement
import EditorBridge.Proofs.Supervisor.Latch
import EditorBridge.Proofs.Sync.Bounds
import EditorBridge.Proofs.Sync.Sweep
import EditorBridge.Proofs.Sync.Transcript
import EditorBridge.Proofs.TextServer.Remnant
import EditorBridge.Proofs.TextServer.Survival
import EditorBridge.Proofs.TextServer.Vouching
import EditorBridge.Rehearsal.Host
import EditorBridge.Rehearsal.Server
import EditorBridge.Proofs.Config.Expansion
import EditorBridge.Proofs.Session.Listing
import EditorBridge.Proofs.Server.KnownFailure
import EditorBridge.Proofs.Session.Phrase
import EditorBridge.Proofs.Position.Reading
import EditorBridge.Proofs.Files.Nearest
