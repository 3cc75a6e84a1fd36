import LivePage.Number.Reading

namespace LivePage.Toml

open Text

def isSpace (c : Char) : Bool := c = ' ' || c = '\t'

def skipSpace (cs : List Char) : List Char :=
  cs.dropWhile isSpace

def isControl (c : Char) : Bool :=
  (c.toNat < 0x20 && c ≠ '\t') || c.toNat = 0x7F

def isBareKeyChar (c : Char) : Bool := isNameChar c

def newline? : List Char → Option (List Char)
  | '\n' :: rest => some rest
  | '\r' :: '\n' :: rest => some rest
  | _ => none

def skipComment? : List Char → Option (List Char)
  | '#' :: rest =>
    let isText := fun c ↦ !(c = '\n' || c = '\r')
    if (rest.takeWhile isText).any isControl then none else some (rest.dropWhile isText)
  | cs => some cs

def lineEnd? (cs : List Char) : Option (List Char) := do
  match ← skipComment? (skipSpace cs) with
  | [] => some []
  | rest => newline? rest

def skipLines? : Nat → List Char → Option (List Char)
  | 0, cs => some cs
  | fuel + 1, cs =>
    match skipSpace cs with
    | [] => some []
    | c :: rest =>
      if c = '#' then do
        let rest ← skipComment? (c :: rest)
        skipLines? fuel rest
      else match newline? (c :: rest) with
        | some rest => skipLines? fuel rest
        | none => if c = '\r' then none else some (c :: rest)

def readCode? (width : Nat) (cs : List Char) : Option (Char × List Char) :=
  let digits := cs.take width
  let n := digitsValue 16 digits
  if digits.length = width ∧ (digits.all fun c ↦ (digitValue? 16 c).isSome) ∧ n.isValidChar then
    some (Char.ofNat n, cs.drop width)
  else none

def readEscape? : List Char → Option (Char × List Char)
  | [] => none
  | c :: rest =>
    if c = 'u' then readCode? 4 rest
    else if c = 'U' then readCode? 8 rest
    else if c = 'x' then readCode? 2 rest
    else if c = 'b' then some ('\x08', rest) else if c = 't' then some ('\t', rest)
    else if c = 'n' then some ('\n', rest) else if c = 'f' then some ('\x0c', rest)
    else if c = 'r' then some ('\r', rest) else if c = 'e' then some ('\x1b', rest)
    else if c = '"' ∨ c = '\\' then some (c, rest)
    else none

def readLineString? (quote : Char) : Nat → List Char → Option (List Char × List Char)
  | 0, _ => none
  | _ + 1, [] => none
  | fuel + 1, c :: rest =>
    if c = quote then some ([], rest)
    else if c = '\\' ∧ quote = '"' then do
      let (d, rest) ← readEscape? rest
      let (s, rest) ← readLineString? quote fuel rest
      some (d :: s, rest)
    else if isControl c then none
    else do
      let (s, rest) ← readLineString? quote fuel rest
      some (c :: s, rest)

def skipFolded : List Char → List Char :=
  List.dropWhile fun c ↦ isSpace c || c = '\n' || c = '\r'

/-- The rest of a string over several lines. Two quotes may stand before the three that end it. -/
def readBlockString? (quote : Char) : Nat → List Char → Option (List Char × List Char)
  | 0, _ => none
  | _ + 1, [] => none
  | fuel + 1, c :: rest =>
    if c = quote then
      let run := c :: rest.takeWhile (· = quote)
      if 3 ≤ run.length then
        if run.length ≤ 5 then some (run.drop 3, (c :: rest).drop run.length) else none
      else do
        let (s, rest) ← readBlockString? quote fuel rest
        some (c :: s, rest)
    else if c = '\\' ∧ quote = '"' then
      match newline? (skipSpace rest) with
      | some rest => readBlockString? quote fuel (skipFolded rest)
      | none => do
        let (d, rest) ← readEscape? rest
        let (s, rest) ← readBlockString? quote fuel rest
        some (d :: s, rest)
    else match newline? (c :: rest) with
      | some rest => do
        let (s, rest) ← readBlockString? quote fuel rest
        some ('\n' :: s, rest)
      | none =>
        if isControl c then none
        else do
          let (s, rest) ← readBlockString? quote fuel rest
          some (c :: s, rest)

def readString? (quote : Char) (rest : List Char) : Option (List Char × List Char) :=
  match rest with
  | c :: d :: tail =>
    if c = quote ∧ d = quote then
      let tail := (newline? tail).getD tail
      readBlockString? quote (tail.length + 1) tail
    else readLineString? quote (rest.length + 1) rest
  | _ => readLineString? quote (rest.length + 1) rest

def readSimpleKey? : List Char → Option (String × List Char)
  | [] => none
  | c :: rest =>
    if c = '"' ∨ c = '\'' then do
      let (s, rest) ← readLineString? c (rest.length + 1) rest
      some (String.ofList s, rest)
    else
      let name := (c :: rest).takeWhile isBareKeyChar
      if name = [] then none else some (String.ofList name, (c :: rest).dropWhile isBareKeyChar)

def readKey? : Nat → List Char → Option (List String × String × List Char)
  | 0, _ => none
  | fuel + 1, cs => do
    let (name, rest) ← readSimpleKey? (skipSpace cs)
    match skipSpace rest with
    | '.' :: rest =>
      let (path, last, rest) ← readKey? fuel rest
      some (name :: path, last, rest)
    | rest => some ([], name, rest)

end LivePage.Toml
