import SoftDelete.Text.Printing

namespace SoftDelete

namespace Quoted

def hex (n : Nat) : String :=
  String.ofList (Nat.toDigits 16 n)

def escape (marks : List Char) (c : Char) : String :=
  match c with
  | '\x00' => "\\0"
  | '\t' => "\\t"
  | '\n' => "\\n"
  | '\r' => "\\r"
  | '\\' => "\\\\"
  | c =>
      if marks.contains c then "\\" ++ c.toString
      else if isPrinting c then c.toString
      else "\\u\x7b" ++ hex c.toNat ++ "\x7d"

def encode (marks : List Char) (s : String) : String :=
  "\"" ++ String.join (s.toList.map (escape marks)) ++ "\""

end Quoted

def quoted (s : String) : String :=
  Quoted.encode ['"'] s

def quotedPath (s : String) : String :=
  Quoted.encode ['"', '\''] s

end SoftDelete
