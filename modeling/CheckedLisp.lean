import CheckedLisp.Check.Basic
import CheckedLisp.Eval.Run
import CheckedLisp.Scope.Listing
import CheckedLisp.Proofs.Sequencing
import CheckedLisp.Proofs.Scope.View
import CheckedLisp.Proofs.Ty.Inhabits
import CheckedLisp.Proofs.Check.FirstOrder
import CheckedLisp.Proofs.Check.Overloads
import CheckedLisp.Proofs.Check.Widening
import CheckedLisp.Proofs.Check.BuiltinCall
import CheckedLisp.Proofs.Check.Agreement
import CheckedLisp.Proofs.Eval.Budget
import CheckedLisp.Proofs.Eval.StepLimit
import CheckedLisp.Proofs.Token.Classification
import CheckedLisp.Proofs.Token.Grammar
import CheckedLisp.Proofs.Node.Bracketing
import CheckedLisp.Proofs.Node.Grammar
import CheckedLisp.Proofs.Node.Derivation
import CheckedLisp.Proofs.Node.Canonical
import CheckedLisp.Proofs.Node.RoundTrip
import CheckedLisp.Proofs.Token.Recognition
import CheckedLisp.Proofs.Node.Recovery
import CheckedLisp.Proofs.Scope.Confinement
import CheckedLisp.Proofs.Eval.Confinement
import CheckedLisp.Proofs.Node.Extent
import CheckedLisp.Proofs.Node.Parsed
import CheckedLisp.Proofs.Node.ReadBack
import CheckedLisp.Proofs.Node.Complaints
import CheckedLisp.Proofs.Eval.EarlyReturn
import CheckedLisp.Proofs.Ty.Normal
import CheckedLisp.Proofs.Node.Binding
import CheckedLisp.Proofs.Check.Evolution
import CheckedLisp.Proofs.Check.Effect
import CheckedLisp.Proofs.Check.Preservation
import CheckedLisp.Proofs.Check.NormalForm
import CheckedLisp.Proofs.Check.Success
import CheckedLisp.Proofs.Check.Visits
import CheckedLisp.Proofs.Check.Returned
import CheckedLisp.Proofs.Check.Reassignment
import CheckedLisp.Proofs.Check.Resolution
import CheckedLisp.Proofs.Eval.Definition
import CheckedLisp.Proofs.Eval.Resolution
import CheckedLisp.Proofs.Check.UndefinedName
import CheckedLisp.Proofs.Ty.Grammar
import CheckedLisp.Proofs.Ty.Reading
import CheckedLisp.Proofs.Ty.RoundTrip
import CheckedLisp.Proofs.Ty.Spelling
import CheckedLisp.Proofs.Ty.Join
import CheckedLisp.Proofs.Ty.Core
import CheckedLisp.Proofs.Source.Position
import CheckedLisp.Proofs.Token.Layout
import CheckedLisp.Proofs.Token.Placement
import CheckedLisp.Proofs.Node.Salvage
import CheckedLisp.Proofs.Node.Nesting
import CheckedLisp.Proofs.Node.Enclosure
import CheckedLisp.Proofs.Check.ReturnInside
import CheckedLisp.Proofs.Check.ArgumentCount
import CheckedLisp.Proofs.Eval.Course
import CheckedLisp.Proofs.Eval.Finite
import CheckedLisp.Proofs.Scope.Acceptance
import CheckedLisp.Proofs.Check.UnreadAnswers
import CheckedLisp.Proofs.Check.Echo
import CheckedLisp.Proofs.Check.Repetition
import CheckedLisp.Proofs.Ty.Dispatch
import CheckedLisp.Proofs.Ty.JoinedCalls
import CheckedLisp.Proofs.Check.Overloading
import CheckedLisp.Proofs.Check.DeclaredSignature
import CheckedLisp.Proofs.Scope.Sharing
import CheckedLisp.Proofs.Eval.QuotedCode
import CheckedLisp.Proofs.Eval.ExactInteger
import CheckedLisp.Proofs.Node.Descent
import CheckedLisp.Proofs.Node.Reach
import CheckedLisp.Proofs.Node.Attempt
import CheckedLisp.Proofs.Node.Ending
import CheckedLisp.Proofs.Diagnostic.History
import CheckedLisp.Proofs.Value.ListAlgebra
import CheckedLisp.Proofs.Value.PrintedSource
import CheckedLisp.Proofs.Eval.CappedSink
import CheckedLisp.Proofs.Eval.OutputLimit
