import SoftDelete.Yaml.Scalar

namespace SoftDelete

namespace Yaml

inductive Token where
  | openSequence
  | openMapping
  | closeBlock
  | openFlowSequence
  | closeFlowSequence
  | openFlowMapping
  | closeFlowMapping
  | item
  | comma
  | key
  | value
  | scalar (plain : Bool) (text : String)
  | documentStart
  | documentEnd
  deriving DecidableEq, Repr

structure Place where
  line : Nat
  column : Nat
  offset : Nat
  deriving Repr

def Place.behind (p : Place) : List Char → Place
  | [] => p
  | c :: s =>
      if isBreak c then Place.behind ⟨p.line + 1, 0, p.offset + c.utf8Size⟩ s
      else Place.behind ⟨p.line, p.column + 1, p.offset + c.utf8Size⟩ s

structure KeyPlace where
  place : Place
  position : Nat
  required : Bool
  deriving Repr

/-- A key stands on one line with its colon, at most 1024 bytes in front of it. -/
def KeyPlace.isStale (here : Place) (k : KeyPlace) : Bool :=
  k.place.line < here.line || k.place.offset + 1024 < here.offset

structure Scanner where
  rest : List Char
  place : Place
  indents : List Nat
  keys : List (Option KeyPlace)
  keyAllowed : Bool
  tokens : List Token
  deriving Repr

namespace Scanner

def start (s : List Char) : Scanner :=
  ⟨s, ⟨0, 0, 0⟩, [], [none], true, []⟩

def inFlow (s : Scanner) : Bool :=
  s.keys.length > 1

def advance (s : Scanner) (n : Nat) : Scanner :=
  { s with rest := s.rest.drop n, place := s.place.behind (s.rest.take n) }

def advanceTo (s : Scanner) (rest : List Char) : Scanner :=
  s.advance (s.rest.length - rest.length)

def push (s : Scanner) (t : Token) : Scanner :=
  { s with tokens := t :: s.tokens }

def insert (s : Scanner) (position : Nat) (t : Token) : Scanner :=
  let later := s.tokens.length - position
  { s with tokens := s.tokens.take later ++ t :: s.tokens.drop later }

inductive GapPlace where
  | lineStart
  | inLine
  | comment
  deriving DecidableEq, Repr

/-- The number of characters of spaces, comments and line breaks, and whether a key can begin behind
them. A tab counts as a space where no key can begin, a byte order mark where a line begins. -/
def gapLength (inFlow keyAllowed : Bool) (here : GapPlace) : List Char → Nat × Bool
  | [] => (0, keyAllowed)
  | c :: s =>
      let next (keyAllowed : Bool) (place : GapPlace) :=
        let (n, allowed) := gapLength inFlow keyAllowed place s
        (n + 1, allowed)
      if isBreak c then next (keyAllowed || !inFlow) .lineStart
      else if here == .comment then next keyAllowed .comment
      else if c == ' ' || (c == '\t' && (inFlow || !keyAllowed)) ||
          (c == '\ufeff' && here == .lineStart) then next keyAllowed .inLine
      else if c == '#' then next keyAllowed .comment
      else (0, keyAllowed)

def skipGap (s : Scanner) : Scanner :=
  let here := if s.place.column == 0 then GapPlace.lineStart else .inLine
  let (n, keyAllowed) := gapLength s.inFlow s.keyAllowed here s.rest
  { s.advance n with keyAllowed := keyAllowed }

def dropStaleKeys (s : Scanner) : Except String Scanner :=
  if s.keys.any (·.any fun k => k.isStale s.place && k.required) then
    .error "key without a colon"
  else .ok { s with keys := s.keys.map (·.filter fun k => !k.isStale s.place) }

def closeBlocks (column : Nat) (s : Scanner) : Scanner :=
  if s.inFlow then s
  else
    let closed := s.indents.takeWhile (column < ·)
    { s with
      indents := s.indents.drop closed.length
      tokens := closed.map (fun _ => Token.closeBlock) ++ s.tokens }

def closeAll (s : Scanner) : Scanner :=
  if s.inFlow then s
  else { s with indents := [], tokens := s.indents.map (fun _ => Token.closeBlock) ++ s.tokens }

def openBlock (s : Scanner) (column : Nat) (t : Token) (position : Nat) : Scanner :=
  if s.inFlow || s.indents.head?.any (column ≤ ·) then s
  else { s.insert position t with indents := column :: s.indents }

def forgetKey (s : Scanner) : Except String Scanner :=
  match s.keys with
  | some k :: outer =>
      if k.required then .error "key without a colon" else .ok { s with keys := none :: outer }
  | _ => .ok s

def rememberKey (s : Scanner) : Except String Scanner :=
  if s.keyAllowed then do
    let required := !s.inFlow && s.indents.head? == some s.place.column
    let s ← s.forgetKey
    .ok { s with keys := some ⟨s.place, s.tokens.length, required⟩ :: s.keys.tail }
  else .ok s

def flowOpen (t : Token) (s : Scanner) : Except String Scanner := do
  let s ← s.rememberKey
  .ok ({ s with keys := none :: s.keys, keyAllowed := true }.push t |>.advance 1)

def flowClose (t : Token) (s : Scanner) : Except String Scanner := do
  let s ← s.forgetKey
  let keys := if s.inFlow then s.keys.tail else s.keys
  .ok ({ s with keys := keys, keyAllowed := false }.push t |>.advance 1)

def flowComma (s : Scanner) : Except String Scanner := do
  let s ← s.forgetKey
  .ok ({ s with keyAllowed := true }.push .comma |>.advance 1)

def blockItem (s : Scanner) : Except String Scanner := do
  if !s.inFlow && !s.keyAllowed then .error "list item in a line that cannot hold one"
  else
    let s ← (s.openBlock s.place.column .openSequence s.tokens.length).forgetKey
    .ok ({ s with keyAllowed := true }.push .item |>.advance 1)

def explicitKey (s : Scanner) : Except String Scanner := do
  if !s.inFlow && !s.keyAllowed then .error "key in a line that cannot hold one"
  else
    let s ← (s.openBlock s.place.column .openMapping s.tokens.length).forgetKey
    .ok ({ s with keyAllowed := !s.inFlow }.push .key |>.advance 1)

def colon (s : Scanner) : Except String Scanner :=
  match s.keys with
  | some k :: outer =>
      let s := (s.insert k.position .key).openBlock k.place.column .openMapping k.position
      .ok ({ s with keys := none :: outer, keyAllowed := false }.push .value |>.advance 1)
  | _ =>
      if !s.inFlow && !s.keyAllowed then .error "value in a line that cannot hold one"
      else
        let s := s.openBlock s.place.column .openMapping s.tokens.length
        .ok ({ s with keyAllowed := !s.inFlow }.push .value |>.advance 1)

def documentMark (t : Token) (s : Scanner) : Except String Scanner := do
  let s ← s.closeAll.forgetKey
  .ok ({ s with keyAllowed := false }.push t |>.advance 3)

def quotedScalar (read : List Char → Except String (List Char × List Char)) (s : Scanner) :
    Except String Scanner := do
  let s ← s.rememberKey
  let (text, rest) ← read s.rest.tail
  .ok ({ s with keyAllowed := false }.push (.scalar false (String.ofList text)) |>.advanceTo rest)

def plainScalar (s : Scanner) : Except String Scanner := do
  let s ← s.rememberKey
  let (text, gap, rest) ← Plain.scan s.inFlow s.indents.head? [] s.rest
  .ok ({ s with keyAllowed := gap.any isBreak }.push (.scalar true (String.ofList text))
    |>.advanceTo rest)

def beginsPlain (inFlow : Bool) (c : Char) (s : List Char) : Bool :=
  if c == '-' then !(s.head?.any fun d => d == ' ' || d == '\t')
  else if c == '?' || c == ':' then !inFlow && !endsWord s
  else !isGap c && !"-?:,[]\x7b\x7d#&*!|>'\"%@\x60".toList.contains c

def token (s : Scanner) : Except String Scanner :=
  match s.rest with
  | [] => .ok s
  | c :: rest =>
      let atStart := s.place.column == 0
      if atStart && c == '%' then .error "directive"
      else if atStart && ("---".toList.isPrefixOf s.rest && endsWord (s.rest.drop 3)) then
        s.documentMark .documentStart
      else if atStart && ("...".toList.isPrefixOf s.rest && endsWord (s.rest.drop 3)) then
        s.documentMark .documentEnd
      else match c with
        | '[' => s.flowOpen .openFlowSequence
        | '\x7b' => s.flowOpen .openFlowMapping
        | ']' => s.flowClose .closeFlowSequence
        | '\x7d' => s.flowClose .closeFlowMapping
        | ',' => s.flowComma
        | '\'' => s.quotedScalar (Quoted.single [])
        | '"' => s.quotedScalar (Quoted.double (.text []))
        | c =>
            if c == '-' && endsWord rest then s.blockItem
            else if c == '?' && (s.inFlow || endsWord rest) then s.explicitKey
            else if c == ':' && (s.inFlow || endsWord rest) then s.colon
            else if beginsPlain s.inFlow c rest then s.plainScalar
            else .error "character that begins no token"

def run (s : Scanner) : Except String (List Token) := do
  let s' ← s.skipGap.dropStaleKeys
  let s' := s'.closeBlocks s'.place.column
  if s'.rest.isEmpty then
    let last ← s'.closeAll.forgetKey
    .ok last.tokens.reverse
  else
    let next ← s'.token
    if next.rest.length < s.rest.length then run next else .error "no progress"
termination_by s.rest.length

end Scanner

def isAllowed (c : Char) : Bool :=
  let n := c.toNat
  c == '\t' || c == '\n' || c == '\r' || (0x20 ≤ n && n ≤ 0x7E) || n == 0x85 ||
    (0xA0 ≤ n && n ≤ 0xFFFD) || 0x10000 ≤ n

/-- Every line break that does not survive folding becomes a line feed. -/
def unifyBreaks : List Char → List Char
  | '\r' :: '\n' :: s => '\n' :: unifyBreaks s
  | c :: s => (if c == '\r' || c == '\u0085' then '\n' else c) :: unifyBreaks s
  | [] => []

def tokens (text : String) : Except String (List Token) :=
  if text.toList.all isAllowed then (Scanner.start (unifyBreaks text.toList)).run
  else .error "character that no document may hold"

end Yaml

end SoftDelete
