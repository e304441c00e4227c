import ClauseLisp.Host.Samples
import ClauseLisp.Main
import ClauseLisp.Proofs.Builtins.Arithmetic
import ClauseLisp.Proofs.Builtins.Concat
import ClauseLisp.Proofs.Choice.Static
import ClauseLisp.Proofs.Equality.Deciding
import ClauseLisp.Proofs.Files.Reading
import ClauseLisp.Proofs.Frame.Bindings
import ClauseLisp.Proofs.Grammar.Balance
import ClauseLisp.Proofs.Grammar.Joining
import ClauseLisp.Proofs.Lazy.Emptiness
import ClauseLisp.Proofs.Lazy.Outcomes
import ClauseLisp.Proofs.Loading.Shadowing
import ClauseLisp.Proofs.Loading.Traversal
import ClauseLisp.Proofs.Loading.WellFormed
import ClauseLisp.Proofs.Memo.Origin
import ClauseLisp.Proofs.MemoKey.Choice
import ClauseLisp.Proofs.Purity.Exactness
import ClauseLisp.Proofs.Refinement.Loop
import ClauseLisp.Proofs.Resources.Frozen
import ClauseLisp.Proofs.Resources.History
import ClauseLisp.Proofs.RoundTrip.Data
import ClauseLisp.Proofs.Scoping.Coverage
import ClauseLisp.Proofs.Scoping.Escapes
import ClauseLisp.Proofs.Types.Agreement
import ClauseLisp.Proofs.Types.Conservative
import ClauseLisp.Proofs.Types.Signatures
import ClauseLisp.Proofs.Values.Caching
