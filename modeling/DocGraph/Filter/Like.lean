import DocGraph.Text.Casing

/-! # Patterns

In a pattern a per cent sign stands for any text, an underscore for any one character, and a backslash
makes the character after it stand for itself. A pattern is matched one token at a time against all
beginnings of a text at once: a *row* says of each beginning whether the tokens so far match it. -/

namespace DocGraph.Like

/-- One token of a pattern. -/
inductive Token where
  | any
  | one
  | char (c : Char)
deriving DecidableEq, Repr

/-- The tokens of a pattern; a backslash at its end stands for itself. -/
def tokens : List Char → List Token
  | [] => []
  | '%' :: rest => .any :: tokens rest
  | '_' :: rest => .one :: tokens rest
  | '\\' :: c :: rest => .char c :: tokens rest
  | c :: rest => .char c :: tokens rest

/-- A character as it is compared. -/
def fold (ignoreCase : Bool) (c : Char) : Char :=
  if ignoreCase then Text.toLower c else c

/-- A token as it is compared. -/
def Token.fold (ignoreCase : Bool) : Token → Token
  | .char c => .char (Like.fold ignoreCase c)
  | t => t

/-- For each place whether it or one before it holds. -/
def spread (seen : Bool) : List Bool → List Bool
  | [] => []
  | b :: rest => (seen || b) :: spread (seen || b) rest

/-- The row after one more token. -/
def advance (text : List Char) (row : List Bool) : Token → List Bool
  | .any => spread false row
  | .one => false :: row.dropLast
  | .char c => false :: List.zipWith (fun d b => b && d == c) text row

/-- The row before any token: only the empty beginning matches. -/
def start (text : List Char) : List Bool :=
  true :: text.map fun _ => false

/-- Whether a text matches a list of tokens. -/
def matchTokens (ts : List Token) (text : List Char) : Bool :=
  (ts.foldl (advance text) (start text)).getLastD false

/-- Whether a text matches a pattern. -/
def test (value pattern : String) (ignoreCase : Bool) : Bool :=
  matchTokens ((tokens pattern.toList).map (Token.fold ignoreCase))
    (value.toList.map (fold ignoreCase))

end DocGraph.Like
