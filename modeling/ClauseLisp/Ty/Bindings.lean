import ClauseLisp.Dict
import ClauseLisp.Ty.Basic

/-!
# Bindings of type variables

What the variables of one clause stand for while its parameters are matched. `Bindings.apply` puts
them into a type; a variable that nothing has bound becomes `any`.
-/

namespace ClauseLisp.Ty

/-- What type variables stand for. -/
abbrev Bindings := Dict Ty

mutual

/-- Replace each variable by what it stands for, or by `any`. -/
def Bindings.apply (b : Bindings) : Ty → Ty
  | .var name => (b.get? name).getD any
  | .named name => .named name
  | .func => .func
  | .list elem => .list (Bindings.apply b elem)
  | .arrow params ret => .arrow (Bindings.applyAll b params) (Bindings.apply b ret)

/-- `Bindings.apply` on each of several types. -/
def Bindings.applyAll (b : Bindings) : List Ty → List Ty
  | [] => []
  | t :: ts => Bindings.apply b t :: Bindings.applyAll b ts

end

/-- Every variable of a type replaced by `any`. -/
def erase (t : Ty) : Ty := Bindings.apply Dict.empty t

end ClauseLisp.Ty
