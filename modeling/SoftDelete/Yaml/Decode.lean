import SoftDelete.Yaml.Node

namespace SoftDelete

namespace Yaml.Node

def text : Node → Except String String
  | .scalar _ text => .ok text
  | _ => .error "no text"

def isNull (text : String) : Bool :=
  ["", "~", "null", "Null", "NULL"].contains text

def optionalText : Node → Except String (Option String)
  | .scalar plain text => .ok (if plain && isNull text then none else some text)
  | _ => .error "no text"

def digits? (radix : Nat) (digits : List Char) : Option Nat :=
  if digits.isEmpty then none
  else digits.foldlM (fun n c => do
    let d ← Quoted.hexDigit? c
    if d < radix then some (n * radix + d) else none) 0

/-- A plus sign may stand in front. Decimal digits do not begin with a needless zero. -/
def natural? (text : List Char) : Option Nat :=
  let unsigned := if text.head? == some '+' then text.tail else text
  match unsigned with
  | '0' :: 'x' :: digits => digits? 16 digits
  | '0' :: 'o' :: digits => digits? 8 digits
  | '0' :: 'b' :: digits => digits? 2 digits
  | '0' :: _ :: _ => none
  | digits => digits? 10 digits

def natural : Node → Except String Nat
  | .scalar true text =>
      match natural? text.toList with
      | some n => if n ≤ 0xFFFFFFFFFFFFFFFF then .ok n else .error "number out of range"
      | none => .error "no number"
  | _ => .error "no number"

def truth : Node → Except String Bool
  | .scalar true text =>
      if ["true", "True", "TRUE"].contains text then .ok true
      else if ["false", "False", "FALSE"].contains text then .ok false
      else .error "no truth value"
  | _ => .error "no truth value"

def texts : Node → Except String (List String)
  | .void | .scalar true "" => .ok []
  | .sequence items => items.mapM text
  | _ => .error "no list"

def fields (known : List String) : Node → Except String (List (String × Node))
  | .void | .scalar true "" => .ok []
  | .mapping entries => do
      let named ← entries.mapM fun entry => do
        let name ← entry.1.text
        pure (name, entry.2)
      let taken := named.filter fun entry => known.contains entry.1
      if (taken.map Prod.fst).eraseDups.length = taken.length then .ok taken
      else .error "name given twice"
  | _ => .error "no mapping"

def field {α : Type} (fields : List (String × Node)) (name : String)
    (decode : Node → Except String α) (absent : α) : Except String α :=
  match fields.lookup name with
  | some node => decode node
  | none => .ok absent

end Yaml.Node

end SoftDelete
