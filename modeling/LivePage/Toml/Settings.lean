import LivePage.Toml.Document
import LivePage.Mount.Options

namespace LivePage

namespace Toml

def integerValue? (n : Int) : Option Value :=
  if -Int.ofNat (Nat.pow 2 63) ≤ n ∧ n < Int.ofNat (Nat.pow 2 64) then some (.number (.ofInt n))
  else none

mutual

def value? : Node → Option Value
  | .scalar (.bool b) => some (.bool b)
  | .scalar (.integer n) => integerValue? n
  | .scalar (.float n) => some (.number n)
  | .scalar .moment => none
  | .string s => some (.string s)
  | .array items => (values? items).map .list
  | .table .. => none
  | .tables _ => none

def values? : List Node → Option (List Value)
  | [] => some []
  | n :: rest => do
    let v ← value? n
    let vs ← values? rest
    some (v :: vs)

end

def insertSorted (e : String × Value) : List (String × Value) → List (String × Value)
  | [] => [e]
  | f :: rest => if e.1 < f.1 then e :: f :: rest else f :: insertSorted e rest

def data? : Node → Option Data
  | .table _ entries => do
    let pairs ← entries.mapM fun (name, node) ↦ (value? node).map (name, ·)
    some (Data.ofPairs (pairs.foldr insertSorted []))
  | _ => none

def selector? : Node → Option String
  | .string s => some s
  | _ => none

def strategy? : Node → Option Strategy
  | .string s => Strategy.ofName? s
  | .table _ [(name, .table _ [])] => Strategy.ofName? name
  | .table _ [(name, .array [])] => Strategy.ofName? name
  | _ => none

def optional? {α : Type} (read? : Node → Option α) (entry : Option Node) : Option (Option α) :=
  match entry with
  | none => some none
  | some node => (read? node).map some

end Toml

def MountSettings.ofToml? (text : String) : Option MountSettings := do
  let entries ← Toml.read? text
  let el ← Toml.optional? Toml.selector? (entries.lookup "el")
  let data ← Toml.optional? Toml.data? (entries.lookup "data")
  let strategy ← Toml.optional? Toml.strategy? (entries.lookup "strategy")
  some ⟨el, data.getD ∅, strategy.getD .destructive⟩

end LivePage
