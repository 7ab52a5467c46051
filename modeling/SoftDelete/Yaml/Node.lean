import SoftDelete.Yaml.Token

namespace SoftDelete

namespace Yaml

inductive Node where
  | void
  | scalar (plain : Bool) (text : String)
  | sequence (items : List Node)
  | mapping (entries : List (Node × Node))
  deriving Repr

namespace Node

def missing : Node :=
  .scalar true ""

structure Reader where
  block : List Token → Except String (Node × List Token)
  inMapping : List Token → Except String (Node × List Token)
  flow : List Token → Except String (Node × List Token)

def headIs (ends : List Token) (ts : List Token) : Bool :=
  ts.head?.any ends.contains

def orMissing (ends : List Token) (read : List Token → Except String (Node × List Token))
    (ts : List Token) : Except String (Node × List Token) :=
  if headIs ends ts then .ok (missing, ts) else read ts

def items (read : List Token → Except String (Node × List Token)) :
    Nat → List Token → Except String (List Node × List Token)
  | fuel + 1, .item :: ts => do
      let (first, ts) ← orMissing [.item, .closeBlock] read ts
      let (more, ts) ← items read fuel ts
      .ok (first :: more, ts)
  | _, .closeBlock :: ts => .ok ([], ts)
  | _, _ => .error "no list item"

def looseItems (read : List Token → Except String (Node × List Token)) :
    Nat → List Token → Except String (List Node × List Token)
  | fuel + 1, .item :: ts => do
      let (first, ts) ← orMissing [.item, .key, .value, .closeBlock] read ts
      let (more, ts) ← looseItems read fuel ts
      .ok (first :: more, ts)
  | _, ts => .ok ([], ts)

def valueOf (ends : List Token) (read : List Token → Except String (Node × List Token)) :
    List Token → Except String (Node × List Token)
  | .value :: ts => orMissing ends read ts
  | ts => .ok (missing, ts)

def entries (read : List Token → Except String (Node × List Token)) :
    Nat → List Token → Except String (List (Node × Node) × List Token)
  | _, .closeBlock :: ts => .ok ([], ts)
  | fuel + 1, .key :: ts => do
      let (key, ts) ← orMissing [.key, .value, .closeBlock] read ts
      let (value, ts) ← valueOf [.key, .value, .closeBlock] read ts
      let (more, ts) ← entries read fuel ts
      .ok ((key, value) :: more, ts)
  | _, _ => .error "no key"

def afterItem (close : Token) : List Token → Except String (List Token)
  | .comma :: ts => .ok ts
  | t :: ts => if t = close then .ok (t :: ts) else .error "no comma"
  | [] => .error "no comma"

/-- The key of an item of a bracketed list. Where it is left out, the token that stands in its place
is passed over. -/
def itemKey (read : List Token → Except String (Node × List Token)) (ts : List Token) :
    Except String (Node × List Token) :=
  if headIs [.value, .comma, .closeFlowSequence] ts then .ok (missing, ts.tail) else read ts

def flowItems (read : List Token → Except String (Node × List Token)) :
    Nat → List Token → Except String (List Node × List Token)
  | _, .closeFlowSequence :: ts => .ok ([], ts)
  | fuel + 1, ts => do
      let (first, ts) ← match ts with
        | .key :: ts => do
            let (key, ts) ← itemKey read ts
            let (value, ts) ← valueOf [.comma, .closeFlowSequence] read ts
            .ok (Node.mapping [(key, value)], ts)
        | ts => read ts
      let ts ← afterItem .closeFlowSequence ts
      let (more, ts) ← flowItems read fuel ts
      .ok (first :: more, ts)
  | 0, _ => .error "bracket without end"

def flowEntries (read : List Token → Except String (Node × List Token)) :
    Nat → List Token → Except String (List (Node × Node) × List Token)
  | _, .closeFlowMapping :: ts => .ok ([], ts)
  | fuel + 1, ts => do
      let (first, ts) ← match ts with
        | .key :: ts => do
            let (key, ts) ← orMissing [.value, .comma, .closeFlowMapping] read ts
            let (value, ts) ← valueOf [.comma, .closeFlowMapping] read ts
            .ok ((key, value), ts)
        | ts => do
            let (key, ts) ← read ts
            .ok ((key, missing), ts)
      let ts ← afterItem .closeFlowMapping ts
      let (more, ts) ← flowEntries read fuel ts
      .ok (first :: more, ts)
  | 0, _ => .error "bracket without end"

def reader : Nat → Reader
  | 0 => ⟨tooDeep, tooDeep, tooDeep⟩
  | room + 1 =>
      let inner := reader room
      let flow (ts : List Token) : Except String (Node × List Token) :=
        match ts with
        | .scalar plain text :: ts => .ok (.scalar plain text, ts)
        | .openFlowSequence :: ts => do
            let (nodes, ts) ← flowItems inner.flow (ts.length + 1) ts
            .ok (.sequence nodes, ts)
        | .openFlowMapping :: ts => do
            let (nodes, ts) ← flowEntries inner.flow (ts.length + 1) ts
            .ok (.mapping nodes, ts)
        | _ => .error "no value"
      let block (ts : List Token) : Except String (Node × List Token) :=
        match ts with
        | .openSequence :: ts => do
            let (nodes, ts) ← items inner.block (ts.length + 1) ts
            .ok (.sequence nodes, ts)
        | .openMapping :: ts => do
            let (nodes, ts) ← entries inner.inMapping (ts.length + 1) ts
            .ok (.mapping nodes, ts)
        | ts => flow ts
      let inMapping (ts : List Token) : Except String (Node × List Token) :=
        match ts with
        | .item :: _ => do
            let (nodes, ts) ← looseItems inner.block (ts.length + 1) ts
            .ok (.sequence nodes, ts)
        | ts => block ts
      ⟨block, inMapping, flow⟩
where
  tooDeep (_ : List Token) : Except String (Node × List Token) :=
    .error "values nested too deep"

def ofTokens? (ts : List Token) : Except String Node := do
  let (node, ts) ← match ts with
    | [] => .ok (void, [])
    | .documentStart :: ts =>
        if ts.isEmpty || headIs [.documentStart, .documentEnd] ts then .ok (missing, ts)
        else (reader (ts.length + 1)).block ts
    | ts => (reader (ts.length + 1)).block ts
  if (ts.dropWhile (· == .documentEnd)).isEmpty then .ok node
  else .error "more than one document"

def parse (text : String) : Except String Node := do
  ofTokens? (← tokens text)

end Node

end Yaml

end SoftDelete
