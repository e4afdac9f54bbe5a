import ScopeScript.Console.Completion
import ScopeScript.Console.Highlight
import ScopeScript.Main
import ScopeScript.Proofs.Stops
import ScopeScript.Proofs.NoOuterMutation
import ScopeScript.Proofs.ParserComplete
import ScopeScript.Proofs.Scoping
import ScopeScript.Proofs.Reachable
import ScopeScript.Proofs.Repeatable
import ScopeScript.Proofs.CallLimit
import ScopeScript.Proofs.PlainGrammar
import ScopeScript.Proofs.Prediction
import ScopeScript.Proofs.FirstError
import ScopeScript.Proofs.NodeText
import ScopeScript.Proofs.MaximalMunch
import ScopeScript.Proofs.NestingLevels
import ScopeScript.Proofs.ErrorSpans
import ScopeScript.Proofs.Sessions
import ScopeScript.Proofs.BracketMatching
import ScopeScript.Proofs.CompleteInput
import ScopeScript.Proofs.Termination
import ScopeScript.Proofs.ArityCheck
import ScopeScript.Proofs.BlockScope
import ScopeScript.Proofs.BuiltinName
import ScopeScript.Proofs.ReadBack
import ScopeScript.Proofs.JoinedRuns
import ScopeScript.Proofs.PrintedNumbers
import ScopeScript.Proofs.Listings
import ScopeScript.Proofs.Layout
import ScopeScript.Proofs.ScopeDepth
import ScopeScript.Proofs.SameClosure
import ScopeScript.Proofs.Survivors
import ScopeScript.Proofs.PlainMaps
import ScopeScript.Proofs.Recovery
import ScopeScript.Proofs.AfterReturn
import ScopeScript.Proofs.StringLiterals
import ScopeScript.Proofs.Completions
import ScopeScript.Proofs.Colouring
import ScopeScript.Proofs.NumberOrder
import ScopeScript.Proofs.ValueLaws
import ScopeScript.Proofs.EndOfInput
