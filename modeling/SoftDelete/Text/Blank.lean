import SoftDelete.Text.Basic

namespace SoftDelete

/-- The 25 characters with the Unicode property White_Space. -/
def isBlank (c : Char) : Bool :=
  let n := c.toNat
  (9 ≤ n && n ≤ 13) || n == 0x20 || n == 0x85 || n == 0xA0 || n == 0x1680 ||
    (0x2000 ≤ n && n ≤ 0x200A) || n == 0x2028 || n == 0x2029 || n == 0x202F || n == 0x205F ||
    n == 0x3000

/-- The general category Cc. -/
def isControl (c : Char) : Bool :=
  c.toNat < 0x20 || (0x7F ≤ c.toNat && c.toNat ≤ 0x9F)

namespace Text

def trim (s : Text) : Text :=
  ((s.dropWhile isBlank).reverse.dropWhile isBlank).reverse

def lines : Text → List Text
  | [] => [[]]
  | c :: s =>
      if c = '\n' then [] :: lines s
      else match lines s with
        | [] => [[c]]
        | line :: rest => (c :: line) :: rest

theorem lines_ne_nil (s : Text) : lines s ≠ [] := by
  induction s with
  | nil => simp [lines]
  | cons c s ih =>
      simp only [lines]
      split
      · simp
      · split <;> simp

def withoutReturn (line : Text) : Text :=
  if line.getLast? = some '\r' then line.dropLast else line

def readLines (s : Text) : List Text :=
  (lines s).dropLast.map withoutReturn ++
    (lines s).getLast?.toList.filter fun line => !line.isEmpty

end Text

end SoftDelete
