import TypedMatch.Declaration.Basic
import TypedMatch.Terminal.Layout
import TypedMatch.Proofs.Match.Exhaustive
import TypedMatch.Proofs.Match.Selection
import TypedMatch.Proofs.Match.Witnesses
import TypedMatch.Scheme.Generalize
import TypedMatch.Ty.Fields
import TypedMatch.Proofs.Store.Zonk
import TypedMatch.Proofs.Scheme.Closing
import TypedMatch.Proofs.Scheme.Copy
import TypedMatch.Proofs.Coverage.Calls
import TypedMatch.Proofs.Coverage.Finds
import TypedMatch.Proofs.Coverage.Width
import TypedMatch.Proofs.Declaration.Built
import TypedMatch.Proofs.Match.Safety
import TypedMatch.Proofs.Match.Transparency
import TypedMatch.Proofs.Match.Guards
import TypedMatch.Proofs.Match.History
import TypedMatch.Proofs.Match.Unification
import TypedMatch.Proofs.Match.Spelling
import TypedMatch.Proofs.Scheme.Regeneralization
import TypedMatch.Proofs.Scheme.Agreement
import TypedMatch.Proofs.Session.Shadowing
import TypedMatch.Proofs.Declaration.Registered
import TypedMatch.Proofs.Scheme.Ending
import TypedMatch.Proofs.Scheme.Marks
import TypedMatch.Proofs.Match.Notes
import TypedMatch.Proofs.Match.Repetition
import TypedMatch.Proofs.Diagnostic.Header
import TypedMatch.Proofs.Scheme.InstanceText
import TypedMatch.Proofs.Pattern.Chains
import TypedMatch.Proofs.Coverage.Samples
import TypedMatch.Proofs.Match.Sorting
import TypedMatch.Proofs.Coverage.Access
