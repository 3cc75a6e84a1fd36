import LivePage.Data.Basic

namespace LivePage

/-- What is done with a store, step by step: looking at its data and at the surroundings `ε`,
changing the surroundings, writing a property and adding a subscriber. -/
inductive Script (ε : Type)
  | stop
  | look (next : Data → ε → Script ε)
  | act (change : Data → ε → ε) (next : Script ε)
  | write (name : String) (value : Value) (next : Script ε)
  | listen (subscriber : String → Value → Script ε) (next : Script ε)

/-- What runs on every write, with the name and the value written. -/
abbrev Subscriber (ε : Type) := String → Value → Script ε

structure Store (ε : Type) where
  data : Data
  subscribers : List (Subscriber ε)

namespace Store

variable {ε : Type}

def ofData (data : Data) : Store ε := ⟨data, []⟩

instance : Inhabited (Store ε) := ⟨ofData ∅⟩

def put (s : Store ε) (name : String) (value : Value) : Store ε :=
  { s with data := s.data.insert name value }

def debug (s : Store ε) : String :=
  "Store \x7b data: " ++ s.data.debug ++ ", subscribers: " ++ Nat.repr s.subscribers.length ++
    " \x7d"

def subscribe (s : Store ε) (subscriber : Subscriber ε) : Store ε :=
  { s with subscribers := s.subscribers ++ [subscriber] }

end Store

abbrev Scene (ε : Type) := Store ε × ε

namespace Script

variable {ε : Type}

def run (write : String → Value → Scene ε → Option (Scene ε)) : Script ε → Scene ε →
    Option (Scene ε)
  | stop, s => some s
  | look next, (store, e) => (next store.data e).run write (store, e)
  | act change next, (store, e) => next.run write (store, change store.data e)
  | .write name value next, s => (write name value s).bind (next.run write)
  | listen subscriber next, (store, e) => next.run write (store.subscribe subscriber, e)

def andThen : Script ε → Script ε → Script ε
  | stop, t => t
  | look next, t => look fun data e ↦ (next data e).andThen t
  | act change next, t => act change (next.andThen t)
  | .write name value next, t => .write name value (next.andThen t)
  | listen subscriber next, t => listen subscriber (next.andThen t)

def set (name : String) (value : Value) : Script ε := .write name value stop

/-- Changes a property if there is one with the name: `change` goes on from the value it is to have.
-/
def update (name : String) (change : Value → (Value → Script ε) → Script ε) : Script ε :=
  look fun data _ ↦ match data.get? name with
    | none => stop
    | some value => change value (set name)

end Script

namespace Store

variable {ε : Type}

/-- Writes a property: stores the value, then runs the subscribers that are there at this moment,
one after another. `none` if writes nest deeper than `depth`. -/
def write : Nat → String → Value → Scene ε → Option (Scene ε)
  | 0, _, _, _ => none
  | depth + 1, name, value, (store, e) =>
    store.subscribers.foldlM (fun s subscriber ↦ (subscriber name value).run (write depth) s)
      (store.put name value, e)

/-- Runs a script on a store whose writes nest at most `depth` deep. -/
def perform (depth : Nat) (script : Script ε) : Scene ε → Option (Scene ε) :=
  script.run (write depth)

end Store

end LivePage
