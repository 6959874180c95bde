import Stepwise.Completion
import Stepwise.Main
import Stepwise.Term.Checked
import Stepwise.Proofs.Language.InfixRoundTrip
import Stepwise.Proofs.Session.Replay
import Stepwise.Proofs.Term.Matching
import Stepwise.Proofs.Rule.Renaming
import Stepwise.Proofs.Language.FunctorRoundTrip
import Stepwise.Proofs.Language.Acceptance
import Stepwise.Proofs.Interpreter.Containment
import Stepwise.Proofs.Rule.Variables
import Stepwise.Proofs.Session.Variables
import Stepwise.Proofs.Session.Undoing
import Stepwise.Proofs.RuleFile.Names
import Stepwise.Proofs.Session.InPlace
import Stepwise.Proofs.Session.Refusal
import Stepwise.Proofs.Number.Equality
import Stepwise.Proofs.Term.Equality
import Stepwise.Proofs.Rule.Equality
import Stepwise.Proofs.Session.Equality
import Stepwise.Proofs.Registry.Rebuilding
import Stepwise.Proofs.RuleFile.DefinitionRoundTrip
import Stepwise.Proofs.Json.Quotation
import Stepwise.Proofs.Json.RoundTrip
import Stepwise.Proofs.RuleFile.ObjectRoundTrip
import Stepwise.Proofs.Session.Loading
import Stepwise.Proofs.Interpreter.InPlace
import Stepwise.Proofs.Interpreter.LineExecution
import Stepwise.Proofs.Interpreter.Deeds
import Stepwise.Proofs.Language.Parentheses
import Stepwise.Proofs.Interpreter.ScriptExecution
import Stepwise.Proofs.Interpreter.FirstFailure
import Stepwise.Proofs.Interpreter.Modes
import Stepwise.Proofs.Interpreter.Comments
import Stepwise.Proofs.Interpreter.Printable
import Stepwise.Proofs.Interpreter.Displays
import Stepwise.Proofs.Interpreter.Quiet
import Stepwise.Proofs.Language.Labels
import Stepwise.Proofs.Interpreter.Retyping
import Stepwise.Proofs.Registry.LastDefinition
import Stepwise.Proofs.Language.Semicolons
import Stepwise.Proofs.RuleFile.Spellings
import Stepwise.Proofs.RuleFile.Applicable
import Stepwise.Proofs.Language.Layout
import Stepwise.Proofs.Language.FirstMistake
import Stepwise.Proofs.Language.MinimalParentheses
import Stepwise.Proofs.Term.InfixForm
import Stepwise.Proofs.Term.Listing
import Stepwise.Proofs.Term.Replacing
import Stepwise.Proofs.Term.Lookup
import Stepwise.Proofs.Term.Substitution
import Stepwise.Proofs.Rule.Instances
import Stepwise.Proofs.Rule.Reversal
