namespace SoftDelete

namespace Path

def isAbsolute (path : String) : Bool :=
  path.toList.head? == some '/'

def trimmedReverse : List Char → List Char
  | '/' :: c :: s => trimmedReverse (c :: s)
  | '.' :: '/' :: s => trimmedReverse ('/' :: s)
  | s => s

def parent? (path : String) : Option String :=
  match trimmedReverse path.toList.reverse with
  | [] | ['/'] => none
  | s => some (String.ofList (trimmedReverse (s.dropWhile (· != '/'))).reverse)

def join (base path : String) : String :=
  if isAbsolute path || base.isEmpty then path
  else if base.toList.getLast? == some '/' then base ++ path
  else base ++ "/" ++ path

end Path

end SoftDelete
