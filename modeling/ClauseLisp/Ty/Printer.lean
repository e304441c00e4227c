import ClauseLisp.Ty.Basic

/-!
# Text of types

`list[T]` for lists, with bare `list` for the list of `any`; `func` or `func[T1,…,Tn,R]` for
functions; names as they are.
-/

namespace ClauseLisp.Ty

mutual

/-- Text of a type, as the reader accepts it. -/
def chars : Ty → List Char
  | .named name => name.toList
  | .var name => name.toList
  | .list elem =>
    if isAny elem then ['l', 'i', 's', 't']
    else ['l', 'i', 's', 't', '['] ++ chars elem ++ [']']
  | .func => ['f', 'u', 'n', 'c']
  | .arrow params ret => ['f', 'u', 'n', 'c', '['] ++ paramChars params ++ chars ret ++ [']']

/-- Parameter types, each followed by a comma. -/
def paramChars : List Ty → List Char
  | [] => []
  | t :: ts => chars t ++ ',' :: paramChars ts

end

/-- Text of a type. -/
def text (t : Ty) : String := String.ofList (chars t)

end ClauseLisp.Ty
