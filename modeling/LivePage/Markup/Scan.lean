import LivePage.Markup.Doctype
import LivePage.Markup.Reference
import LivePage.Markup.Token

namespace LivePage.Markup

open Text

/-- What a step read: tokens, the text after them, and how that text is read. -/
structure Scanned where
  tokens : List Token
  rest : List Char
  reading : Reading

namespace Scan

def shown (c : Char) : Char :=
  if c = '\x00' then replacement else c

def endsTagName (c : Char) : Bool := isMarkupBlank c || c = '/' || c = '>'

def endsAttributeName (c : Char) : Bool := endsTagName c || c = '='

def endsBareValue (c : Char) : Bool := isMarkupBlank c || c = '>'

def nameOf (cs : List Char) : String :=
  String.ofList (cs.map (lowerChar ∘ shown))

def valueOf (cs : List Char) : String :=
  String.ofList (decodeValue cs)

/-- An attribute name: its first character may be an equals sign. -/
def takeAttributeName : List Char → List Char × List Char
  | [] => ([], [])
  | c :: rest =>
    (c :: rest.takeWhile (!endsAttributeName ·), rest.dropWhile (!endsAttributeName ·))

def takeValue? (cs : List Char) : Option (List Char × List Char) :=
  match cs.dropWhile isMarkupBlank with
  | [] => none
  | c :: rest =>
    if c = '"' ∨ c = '\'' then
      match rest.dropWhile (· ≠ c) with
      | [] => none
      | _ :: tail => some (rest.takeWhile (· ≠ c), tail)
    else if c = '>' then some ([], c :: rest)
    else some ((c :: rest).takeWhile (!endsBareValue ·), (c :: rest).dropWhile (!endsBareValue ·))

def takeAttribute? (cs : List Char) : Option (Attribute × List Char) :=
  let (name, rest) := takeAttributeName cs
  match rest.dropWhile isMarkupBlank with
  | '=' :: rest => (takeValue? rest).map fun (value, rest) ↦ (⟨nameOf name, valueOf value⟩, rest)
  | _ => some (⟨nameOf name, ""⟩, rest)

/-- The rest of a tag after its name: attributes, whether it closes itself, and the text after it;
nothing if the text ends in the tag. -/
def takeAttributes? : Nat → List Char → Option (List Attribute × Bool × List Char)
  | 0, _ => none
  | fuel + 1, cs =>
    match cs.dropWhile isMarkupBlank with
    | [] => none
    | '>' :: rest => some ([], false, rest)
    | '/' :: '>' :: rest => some ([], true, rest)
    | '/' :: rest => takeAttributes? fuel rest
    | cs => do
      let (a, rest) ← takeAttribute? cs
      let (as, selfClosing, rest) ← takeAttributes? fuel rest
      some (a :: as, selfClosing, rest)

def firstOfEach : List Attribute → List Attribute
  | [] => []
  | a :: rest => a :: (firstOfEach rest).filter (·.name ≠ a.name)

/-- A tag from its name on. A tag in which the text ends is dropped with the text. -/
def tag (isEnd : Bool) (cs : List Char) : Scanned :=
  let name := nameOf (cs.takeWhile (!endsTagName ·))
  let rest := cs.dropWhile (!endsTagName ·)
  match takeAttributes? (rest.length + 1) rest with
  | none => ⟨[], [], .markup⟩
  | some (attributes, selfClosing, rest) =>
    ⟨[if isEnd then .endTag name else .startTag name (firstOfEach attributes) selfClosing], rest,
      .markup⟩

/-- What stands of the end of a comment: nothing, one hyphen, two, or two with an exclamation
mark. -/
inductive CommentEnd
  | none
  | hyphen
  | hyphens
  | bang

def takeComment : CommentEnd → List Char → List Char × List Char
  | _, [] => ([], [])
  | .none, c :: rest =>
    if c = '-' then takeComment .hyphen rest
    else let (s, tail) := takeComment .none rest; (shown c :: s, tail)
  | .hyphen, c :: rest =>
    if c = '-' then takeComment .hyphens rest
    else let (s, tail) := takeComment .none rest; ('-' :: shown c :: s, tail)
  | .hyphens, c :: rest =>
    if c = '>' then ([], rest)
    else if c = '!' then takeComment .bang rest
    else if c = '-' then let (s, tail) := takeComment .hyphens rest; ('-' :: s, tail)
    else let (s, tail) := takeComment .none rest; ('-' :: '-' :: shown c :: s, tail)
  | .bang, c :: rest =>
    if c = '>' then ([], rest)
    else if c = '-' then
      let (s, tail) := takeComment .hyphen rest; ('-' :: '-' :: '!' :: s, tail)
    else let (s, tail) := takeComment .none rest; ('-' :: '-' :: '!' :: shown c :: s, tail)

def commentToken (cs : List Char) : Token := .comment (String.ofList cs)

def comment : List Char → Scanned
  | '>' :: rest => ⟨[.comment ""], rest, .markup⟩
  | '-' :: '>' :: rest => ⟨[.comment ""], rest, .markup⟩
  | cs =>
    let (content, rest) := takeComment .none cs
    ⟨[commentToken content], rest, .markup⟩

def brokenComment (cs : List Char) : Scanned :=
  ⟨[commentToken ((cs.takeWhile (· ≠ '>')).map shown)], (cs.dropWhile (· ≠ '>')).drop 1, .markup⟩

def doctype (cs : List Char) : Scanned :=
  let rest := cs.dropWhile (· ≠ '>')
  ⟨[.doctype (Doctype.isLegacy (rest = []) (cs.takeWhile (· ≠ '>')))], rest.drop 1, .markup⟩

def takeSection : List Char → List Char × List Char
  | ']' :: ']' :: '>' :: rest => ([], rest)
  | [] => ([], [])
  | c :: rest => let (s, tail) := takeSection rest; (c :: s, tail)

def characterSection (cs : List Char) : Scanned :=
  let (content, rest) := takeSection cs
  ⟨content.map .character, rest, .markup⟩

/-- Markup that starts with an exclamation mark, after it. Sections of characters exist only inside
foreign elements. -/
def declaration (foreign : Bool) : List Char → Scanned
  | '-' :: '-' :: rest => comment rest
  | cs =>
    match Doctype.dropKeyword? ['d', 'o', 'c', 't', 'y', 'p', 'e'] cs with
    | some rest => doctype rest
    | none =>
      if foreign && ['[', 'C', 'D', 'A', 'T', 'A', '['].isPrefixOf cs then
        characterSection (cs.drop 7)
      else brokenComment cs

def markup (foreign : Bool) (c : Char) (rest : List Char) : Scanned :=
  if c = '&' then
    match readReference? false rest with
    | some (ds, rest) => ⟨ds.map .character, rest, .markup⟩
    | none => ⟨[.character c], rest, .markup⟩
  else if c = '<' then
    match rest with
    | '!' :: rest => declaration foreign rest
    | '?' :: _ => brokenComment rest
    | '/' :: '>' :: rest => ⟨[], rest, .markup⟩
    | '/' :: d :: tail =>
      if isLetter d then tag true (d :: tail) else brokenComment (d :: tail)
    | d :: tail =>
      if isLetter d then tag false (d :: tail) else ⟨[.character c], rest, .markup⟩
    | [] => ⟨[.character c], rest, .markup⟩
  else ⟨[.character c], rest, .markup⟩

/-- Whether the text after an opening bracket is the end tag of the element `last` whose content is
being read. -/
def closes (last : String) : List Char → Bool
  | '/' :: rest =>
    nameOf (rest.takeWhile isLetter) = last && last ≠ "" &&
      match rest.dropWhile isLetter with
      | c :: _ => endsTagName c
      | [] => false
  | _ => false

/-- Text in which only the end tag of `last` counts, and references if `references`. -/
def content (references : Bool) (reading : Reading) (last : String) (c : Char)
    (rest : List Char) : Scanned :=
  if c = '<' ∧ closes last rest then tag true (rest.drop 1)
  else if c = '&' ∧ references then
    match readReference? false rest with
    | some (ds, rest) => ⟨ds.map .character, rest, reading⟩
    | none => ⟨[.character c], rest, reading⟩
  else ⟨[.character (shown c)], rest, reading⟩

def characters (cs : List Char) : List Token := cs.map fun c ↦ .character (shown c)

/-- Letters and the character that ends them, in a script after a bracket: if the letters are
`script`, the reading changes from `outside` to `inside`. -/
def scriptWord (opening : List Char) (outside inside : Reading) (cs : List Char) : Scanned :=
  let word := cs.takeWhile isLetter
  match cs.dropWhile isLetter with
  | [] => ⟨characters (opening ++ word), [], outside⟩
  | c :: rest =>
    if endsTagName c then
      ⟨characters (opening ++ word ++ [c]), rest,
        if nameOf word = "script" then inside else outside⟩
    else ⟨characters (opening ++ word), c :: rest, outside⟩

def script (last : String) (c : Char) (rest : List Char) : Scanned :=
  if c = '<' then
    if closes last rest then tag true (rest.drop 1)
    else match rest with
      | '!' :: '-' :: '-' :: rest => ⟨characters ['<', '!', '-', '-'], rest, .escaped 2⟩
      | _ => ⟨characters ['<'], rest, .script⟩
  else ⟨characters [c], rest, .script⟩

def escapedScript (hyphens : Nat) (last : String) (c : Char) (rest : List Char) : Scanned :=
  if c = '-' then ⟨characters [c], rest, .escaped (min 2 (hyphens + 1))⟩
  else if c = '<' then
    if closes last rest then tag true (rest.drop 1)
    else match rest with
      | d :: _ =>
        if isLetter d then scriptWord ['<'] (.escaped 0) (.nested 0) rest
        else ⟨characters ['<'], rest, .escaped 0⟩
      | [] => ⟨characters ['<'], rest, .escaped 0⟩
  else if c = '>' ∧ hyphens = 2 then ⟨characters [c], rest, .script⟩
  else ⟨characters [c], rest, .escaped 0⟩

def nestedScript (hyphens : Nat) (c : Char) (rest : List Char) : Scanned :=
  if c = '-' then ⟨characters [c], rest, .nested (min 2 (hyphens + 1))⟩
  else if c = '<' then
    match rest with
    | '/' :: rest => scriptWord ['<', '/'] (.nested 0) (.escaped 0) rest
    | _ => ⟨characters ['<'], rest, .nested 0⟩
  else if c = '>' ∧ hyphens = 2 then ⟨characters [c], rest, .script⟩
  else ⟨characters [c], rest, .nested 0⟩

/-- The next step. `foreign` tells whether the text is inside a foreign element, `last` is the tag
of the start tag read last. -/
def step (reading : Reading) (foreign : Bool) (last : String) (c : Char) (rest : List Char) :
    Scanned :=
  match reading with
  | .markup => markup foreign c rest
  | .references => content true .references last c rest
  | .raw => content false .raw last c rest
  | .script => script last c rest
  | .escaped n => escapedScript n last c rest
  | .nested n => nestedScript n c rest
  | .plain => ⟨[.character (shown c)], rest, .plain⟩

end Scan

end LivePage.Markup
