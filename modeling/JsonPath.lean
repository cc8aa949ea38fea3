import JsonPath.Evaluation.Lemmas
import JsonPath.Main
import JsonPath.Proofs.Chain
import JsonPath.Proofs.Trace
import JsonPath.Proofs.Arguments
import JsonPath.Proofs.Composition
import JsonPath.Proofs.Scope
import JsonPath.Proofs.Reader
import JsonPath.Proofs.PathText
import JsonPath.Proofs.Location
import JsonPath.Proofs.Options
import JsonPath.Proofs.Dictionary
import JsonPath.Proofs.JsonText
import JsonPath.Proofs.Yields
import JsonPath.Proofs.Literals
import JsonPath.Proofs.Readable
import JsonPath.Proofs.Display
import JsonPath.Proofs.Failures
import JsonPath.Proofs.Nesting
import JsonPath.Proofs.Grammar
import JsonPath.Proofs.Takes
import JsonPath.Proofs.Derivation
import JsonPath.Proofs.Acceptance
import JsonPath.Proofs.Recognition
import JsonPath.Proofs.JsonLiterals
import JsonPath.Proofs.Ordered
import JsonPath.Proofs.Interchange
import JsonPath.Proofs.Suppression
import JsonPath.Proofs.Causes
import JsonPath.Proofs.Picking
import JsonPath.Proofs.Joining
import JsonPath.Proofs.Aggregating
import JsonPath.Proofs.Coercion
import JsonPath.Proofs.Exactness
import JsonPath.Proofs.Concatenation
import JsonPath.Proofs.Rebinding
import JsonPath.Proofs.FunctionPath
import JsonPath.Proofs.IndexArgument
import JsonPath.Proofs.Dispatch
import JsonPath.Proofs.ByteOrder
import JsonPath.Proofs.Written
import JsonPath.Proofs.JsonGrammar
import JsonPath.Proofs.ObjectMembers
