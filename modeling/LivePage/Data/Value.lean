import LivePage.Number.Writing
import LivePage.Text.Quoted

namespace LivePage

inductive Value
  | bool (b : Bool)
  | number (n : Number)
  | string (s : String)
  | list (items : List Value)
deriving Repr

namespace Value

instance : Inhabited Value := ⟨.list []⟩

def list? : Value → Option (List Value)
  | .list items => some items
  | _ => none

inductive Kind
  | boolean
  | number
  | string
  | list
deriving DecidableEq, Repr

def Kind.name : Kind → String
  | .boolean => "boolean"
  | .number => "number"
  | .string => "string"
  | .list => "list"

def kind : Value → Kind
  | .bool _ => .boolean
  | .number _ => .number
  | .string _ => .string
  | .list _ => .list

mutual

/-- The text of a value on the page. The items of a list are joined by commas. -/
def display : Value → String
  | .bool b => if b then "true" else "false"
  | .number n => n.display
  | .string s => s
  | .list items => ",".intercalate (displayItems items)

def displayItems : List Value → List String
  | [] => []
  | v :: rest => v.display :: displayItems rest

end

mutual

/-- Equality of values: numbers as numbers, lists item by item. Values of different kinds differ. -/
def same : Value → Value → Bool
  | .bool a, .bool b => a = b
  | .number m, .number n => m == n
  | .string s, .string t => s = t
  | .list xs, .list ys => sameItems xs ys
  | _, _ => false

def sameItems : List Value → List Value → Bool
  | [], [] => true
  | x :: xs, y :: ys => same x y && sameItems xs ys
  | _, _ => false

end

instance : BEq Value := ⟨same⟩

mutual

def debug : Value → String
  | .bool b => "Bool(" ++ (if b then "true" else "false") ++ ")"
  | .number n => "Number(" ++ n.debug ++ ")"
  | .string s => "String(" ++ Text.quoted s ++ ")"
  | .list items => "List([" ++ ", ".intercalate (debugItems items) ++ "])"

def debugItems : List Value → List String
  | [] => []
  | v :: rest => v.debug :: debugItems rest

end

end Value

end LivePage
