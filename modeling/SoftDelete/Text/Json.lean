import SoftDelete.Text.Quoted

namespace SoftDelete

namespace Json

def escape (c : Char) : String :=
  match c with
  | '"' => "\\\""
  | '\\' => "\\\\"
  | '\n' => "\\n"
  | '\r' => "\\r"
  | '\t' => "\\t"
  | '\x08' => "\\b"
  | '\x0c' => "\\f"
  | c =>
      if c.toNat < 0x20 then
        let digits := Nat.toDigits 16 c.toNat
        "\\u" ++ String.ofList (List.replicate (4 - digits.length) '0' ++ digits)
      else c.toString

def string (s : List Char) : String :=
  "\"" ++ String.join (s.map escape) ++ "\""

def list {α : Type} (write : α → String) (xs : List α) : String :=
  "[" ++ ",".intercalate (xs.map write) ++ "]"

def object (fields : List (String × String)) : String :=
  "\x7b" ++ ",".intercalate (fields.map fun f => string f.1.toList ++ ":" ++ f.2) ++ "\x7d"

end Json

end SoftDelete
