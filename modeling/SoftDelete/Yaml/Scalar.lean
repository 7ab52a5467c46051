namespace SoftDelete

namespace Yaml

def isBreak (c : Char) : Bool :=
  c == '\n' || c == '\u2028' || c == '\u2029'

def isGap (c : Char) : Bool :=
  c == ' ' || c == '\t' || isBreak c

def endsWord (s : List Char) : Bool :=
  s.head?.all isGap

def folded (gap : List Char) : List Char :=
  match gap.filter isBreak with
  | [] => gap
  | ['\n'] => [' ']
  | '\n' :: more => more
  | breaks => breaks

def columnBehind? (gap : List Char) : Option Nat :=
  if gap.any isBreak then some (gap.reverse.takeWhile fun c => !isBreak c).length else none

def isDocumentMark (gap s : List Char) : Bool :=
  columnBehind? gap == some 0 &&
    (("---".toList.isPrefixOf s || "...".toList.isPrefixOf s) && endsWord (s.drop 3))

namespace Quoted

inductive Mode where
  | text (gap : List Char)
  | joined (gap : List Char)
  | escape
  | code (left value : Nat)

def escaped? : Char → Option Char
  | '0' => some '\x00'
  | 'a' => some '\x07'
  | 'b' => some '\x08'
  | 't' | '\t' => some '\t'
  | 'n' => some '\n'
  | 'v' => some '\x0b'
  | 'f' => some '\x0c'
  | 'r' => some '\r'
  | 'e' => some '\x1b'
  | ' ' => some ' '
  | '"' => some '"'
  | '/' => some '/'
  | '\\' => some '\\'
  | 'N' => some '\u0085'
  | '_' => some '\u00a0'
  | 'L' => some '\u2028'
  | 'P' => some '\u2029'
  | _ => none

def codeLength? : Char → Option Nat
  | 'x' => some 2
  | 'u' => some 4
  | 'U' => some 8
  | _ => none

def hexDigit? (c : Char) : Option Nat :=
  if c.isDigit then some (c.toNat - '0'.toNat)
  else if 'a' ≤ c ∧ c ≤ 'f' then some (c.toNat - 'a'.toNat + 10)
  else if 'A' ≤ c ∧ c ≤ 'F' then some (c.toNat - 'A'.toNat + 10)
  else none

def double : Mode → List Char → Except String (List Char × List Char)
  | _, [] => .error "quoted scalar without end"
  | .text gap, c :: s =>
      if isGap c then double (.text (gap ++ [c])) s
      else if isDocumentMark gap (c :: s) then .error "document mark in a quoted scalar"
      else if c == '"' then .ok (folded gap, s)
      else do
        let (text, rest) ←
          if c == '\\' then double .escape s
          else do
            let (text, rest) ← double (.text []) s
            pure (c :: text, rest)
        .ok (folded gap ++ text, rest)
  | .joined gap, c :: s =>
      if isGap c then double (.joined (gap ++ [c])) s
      else if isDocumentMark ('\n' :: gap) (c :: s) then .error "document mark in a quoted scalar"
      else if c == '"' then .ok (gap.filter isBreak, s)
      else do
        let (text, rest) ←
          if c == '\\' then double .escape s
          else do
            let (text, rest) ← double (.text []) s
            pure (c :: text, rest)
        .ok (gap.filter isBreak ++ text, rest)
  | .escape, c :: s =>
      if isBreak c then double (.joined []) s
      else match escaped? c, codeLength? c with
        | some d, _ => do
            let (text, rest) ← double (.text []) s
            .ok (d :: text, rest)
        | none, some n => double (.code n 0) s
        | none, none => .error "unknown escape"
  | .code left value, c :: s =>
      match hexDigit? c with
      | none => .error "missing digit of a code point"
      | some d =>
          let value := 16 * value + d
          if left ≤ 1 then
            if value.isValidChar then do
              let (text, rest) ← double (.text []) s
              .ok (Char.ofNat value :: text, rest)
            else .error "no such code point"
          else double (.code (left - 1) value) s

def single (gap : List Char) : List Char → Except String (List Char × List Char)
  | [] => .error "quoted scalar without end"
  | '\'' :: '\'' :: s =>
      if isDocumentMark gap ('\'' :: '\'' :: s) then .error "document mark in a quoted scalar"
      else do
        let (text, rest) ← single [] s
        .ok (folded gap ++ '\'' :: text, rest)
  | c :: s =>
      if isGap c then single (gap ++ [c]) s
      else if isDocumentMark gap (c :: s) then .error "document mark in a quoted scalar"
      else if c == '\'' then .ok (folded gap, s)
      else do
        let (text, rest) ← single [] s
        .ok (folded gap ++ c :: text, rest)

end Quoted

namespace Plain

def flowMarks : List Char :=
  [',', '[', ']', '{', '}']

/-- Whether a plain scalar ends in front of `c` behind `gap`. Outside brackets it goes on only in
lines that are indented deeper than `indent`. -/
def endsBefore (inFlow : Bool) (indent : Option Nat) (gap : List Char) (c : Char)
    (s : List Char) : Bool :=
  let shallow := match columnBehind? gap, indent with
    | some column, some i => column ≤ i
    | _, _ => false
  (!inFlow && shallow) || isDocumentMark gap (c :: s) || (!gap.isEmpty && c == '#') ||
    (c == ':' && endsWord s) || (inFlow && flowMarks.contains c)

def scan (inFlow : Bool) (indent : Option Nat) (gap : List Char) :
    List Char → Except String (List Char × List Char × List Char)
  | [] => .ok ([], gap, [])
  | c :: s =>
      if isGap c then
        let shallow := match columnBehind? gap, indent with
          | some column, some i => column ≤ i
          | _, _ => false
        if c == '\t' && shallow then .error "tab in the indentation"
        else scan inFlow indent (gap ++ [c]) s
      else if endsBefore inFlow indent gap c s then .ok ([], gap, c :: s)
      else if inFlow && c == ':' && s.head?.any (fun d => d == '?' || flowMarks.contains d) then
        .error "colon in a plain scalar"
      else do
        let (text, last, rest) ← scan inFlow indent [] s
        .ok (folded gap ++ c :: text, last, rest)

end Plain

end Yaml

end SoftDelete
