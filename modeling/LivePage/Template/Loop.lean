import LivePage.Text.Blank
import LivePage.Text.Letters

namespace LivePage.Template

structure Loop where
  item : String
  collection : String
deriving DecidableEq, Repr

inductive LoopError
  | missingIn
  | multipleIn (count : Nat)
  | missingItem
  | missingCollection
  | unexpectedToken (token : String)
  | invalidIdentifier (token : String)
deriving DecidableEq, Repr

def LoopError.message : LoopError → String
  | .missingIn => "expected `<item> in <collection>`, found no `in` keyword"
  | .multipleIn n => "the `in` keyword appears " ++ Nat.repr n ++ " times"
  | .missingItem => "missing item identifier before `in`"
  | .missingCollection => "missing collection identifier after `in`"
  | .unexpectedToken token => "unexpected token `" ++ token ++ "`"
  | .invalidIdentifier token => "`" ++ token ++ "` is not a valid identifier"

namespace Loop

def keyword : String := "in"

def single (missing : LoopError) : List String → Except LoopError String
  | [] => .error missing
  | [word] => if Text.isName word then .ok word else .error (.invalidIdentifier word)
  | _ :: extra :: _ => .error (.unexpectedToken extra)

def ofWords (words : List String) : Except LoopError Loop := do
  match words.count keyword with
  | 0 => .error .missingIn
  | 1 =>
    let item ← single .missingItem (words.takeWhile (· ≠ keyword))
    let collection ← single .missingCollection ((words.dropWhile (· ≠ keyword)).drop 1)
    .ok ⟨item, collection⟩
  | n => .error (.multipleIn n)

def parse (statement : String) : Except LoopError Loop :=
  ofWords (Text.words statement)

def display (l : Loop) : String :=
  l.item ++ " " ++ keyword ++ " " ++ l.collection

end Loop

def loopAttribute : String := "d-for"

inductive Directive
  | loop (l : Loop)
deriving DecidableEq, Repr

def Directive.parse? (name value : String) : Option (Except LoopError Directive) :=
  if name = loopAttribute then some ((Loop.parse value).map .loop) else none

end LivePage.Template
