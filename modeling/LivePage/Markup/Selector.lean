import LivePage.Markup.Nodes
import LivePage.Text.Blank
import LivePage.Text.Quoted

namespace LivePage.Markup

open Text

/-- What an element has to have to be selected. -/
structure Selector where
  tag : Option String := none
  id : Option String := none
  classes : List String := []
deriving DecidableEq, Repr

inductive SelectorFault
  | empty
  | missingName
  | secondId
  | combinator
  | unsupported
deriving DecidableEq, Repr

def SelectorFault.reason : SelectorFault → String
  | .empty => "selector is empty"
  | .missingName => "missing name after `#` or `.`"
  | .secondId => "more than one id"
  | .combinator => "combinators are not supported"
  | .unsupported => "unsupported selector syntax"

namespace Selector

def isCombinator (c : Char) : Bool :=
  isBlank c || ['>', '+', '~', ','].contains c

def addPart (s : Selector) (sign : Char) (name : List Char) : Except SelectorFault Selector :=
  if sign = '#' ∨ sign = '.' then
    if name = [] then .error .missingName
    else if sign = '.' then .ok { s with classes := s.classes ++ [String.ofList name] }
    else if s.id.isSome then .error .secondId
    else .ok { s with id := some (String.ofList name) }
  else if isCombinator sign then .error .combinator
  else .error .unsupported

def addParts (s : Selector) (cs : List Char) : Except SelectorFault Selector :=
  match cs with
  | [] => .ok s
  | sign :: rest => do
    let s ← s.addPart sign (rest.takeWhile isNameChar)
    s.addParts (rest.dropWhile isNameChar)
termination_by cs.length
decreasing_by
  have := (List.dropWhile_suffix (l := rest) isNameChar).length_le
  simp only [List.length_cons]
  omega

/-- Reads a selector; blanks around it do not count. -/
def parse (source : String) : Except SelectorFault Selector :=
  match trimChars source.toList with
  | [] => .error .empty
  | cs =>
    let name := cs.takeWhile isNameChar
    let tag := if name = [] then none else some (lower (String.ofList name))
    addParts { tag } (cs.dropWhile isNameChar)

def classesOf (l : Label) : List String :=
  words ((l.attribute? "class").getD "")

def selects (s : Selector) (l : Label) : Bool :=
  s.tag.all (· = l.tag) && s.id.all (l.attribute? "id" = some ·) &&
    s.classes.all ((classesOf l).contains ·)

def debug (s : Selector) : String :=
  "Selector \x7b tag: " ++ quotedOption s.tag ++ ", id: " ++ quotedOption s.id ++ ", classes: [" ++
    ", ".intercalate (s.classes.map quoted) ++ "] \x7d"

end Selector

end LivePage.Markup
