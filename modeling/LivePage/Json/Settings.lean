import LivePage.Json.Reading
import LivePage.Json.Writing
import LivePage.Mount.Options

namespace LivePage

namespace Json

def readSelector (cs : List Char) : Except Fault (Option String × List Char) :=
  match skipSpace cs with
  | 'n' :: rest => do
    let rest ← readLiteral ['u', 'l', 'l'] rest
    .ok (none, rest)
  | '"' :: rest => do
    let (s, rest) ← readString (rest.length + 1) rest
    .ok (some (String.ofList s), rest)
  | cs => .error (wrongKind cs)

def readStrategyName (cs : List Char) : Except Fault (Strategy × List Char) :=
  match skipSpace cs with
  | '"' :: rest => do
    let (s, rest) ← readString (rest.length + 1) rest
    match Strategy.ofName? (String.ofList s) with
    | some strategy => .ok (strategy, rest)
    | none => .error .mismatched
  | cs => .error (wrongKind cs)

def readNull (cs : List Char) : Except Fault (List Char) :=
  match skipSpace cs with
  | 'n' :: rest => readLiteral ['u', 'l', 'l'] rest
  | cs => .error (wrongKind cs)

/-- A strategy: its name, or an object that maps its name to null. -/
def readStrategy (depth : Nat) (cs : List Char) : Except Fault (Strategy × List Char) :=
  match skipSpace cs with
  | [] => .error .unfinished
  | '"' :: rest => readStrategyName ('"' :: rest)
  | '\x7b' :: rest =>
    if depth = 0 then .error .malformed
    else do
      let (strategy, rest) ← readStrategyName rest
      let rest ← readColon rest
      let rest ← readNull rest
      match skipSpace rest with
      | [] => .error .unfinished
      | '\x7d' :: rest => .ok (strategy, rest)
      | _ => .error .malformed
  | _ => .error .malformed

structure Found where
  el : Option (Option String) := none
  data : Option Data := none
  strategy : Option Strategy := none

def Found.settings (f : Found) : MountSettings :=
  ⟨f.el.getD none, f.data.getD ∅, f.strategy.getD .destructive⟩

def readSettingsFields : Nat → Nat → Bool → Found → List Char → Except Fault (Found × List Char)
  | 0, _, _, _, _ => .error .unfinished
  | fuel + 1, depth, first, found, cs => do
    match ← readKey first cs with
    | (none, rest) => .ok (found, rest)
    | (some name, rest) =>
      if name = "el" then
        if found.el.isSome then .error .mismatched
        let (el, rest) ← readSelector (← readColon rest)
        readSettingsFields fuel depth false { found with el := some el } rest
      else if name = "data" then
        if found.data.isSome then .error .mismatched
        let (data, rest) ← readData depth (← readColon rest)
        readSettingsFields fuel depth false { found with data := some data } rest
      else if name = "strategy" then
        if found.strategy.isSome then .error .mismatched
        let (strategy, rest) ← readStrategy depth (← readColon rest)
        readSettingsFields fuel depth false { found with strategy := some strategy } rest
      else
        let rest ← readColon rest
        let rest ← skipValue (rest.length + 1) rest
        readSettingsFields fuel depth false found rest

def nextItem (first : Bool) (cs : List Char) : Except Fault (Bool × List Char) :=
  match skipSpace cs with
  | [] => .error .unfinished
  | c :: rest =>
    if c = ']' then .ok (false, c :: rest)
    else if first then .ok (true, c :: rest)
    else if c ≠ ',' then .error .malformed
    else match skipSpace rest with
      | [] => .error .unfinished
      | ']' :: _ => .error .malformed
      | rest => .ok (true, rest)

def readSettingsItems (depth : Nat) (cs : List Char) : Except Fault (Found × List Char) := do
  let (more, rest) ← nextItem true cs
  if !more then .ok ({}, rest)
  else
    let (el, rest) ← readSelector rest
    let found : Found := { el := some el }
    let (more, rest) ← nextItem false rest
    if !more then .ok (found, rest)
    else
      let (data, rest) ← readData depth rest
      let found := { found with data := some data }
      let (more, rest) ← nextItem false rest
      if !more then .ok (found, rest)
      else
        let (strategy, rest) ← readStrategy depth rest
        .ok ({ found with strategy := some strategy }, rest)

def readArrayEnd (cs : List Char) : Except Fault (List Char) :=
  match skipSpace cs with
  | [] => .error .unfinished
  | ']' :: rest => .ok rest
  | _ => .error .malformed

def readSettings (cs : List Char) : Except Fault (MountSettings × List Char) :=
  match skipSpace cs with
  | '[' :: rest => do
    let (found, rest) ← readSettingsItems (maxDepth - 1) rest
    let rest ← readArrayEnd rest
    .ok (found.settings, rest)
  | '\x7b' :: rest => do
    let (found, rest) ← readSettingsFields (rest.length + 1) (maxDepth - 1) true {} rest
    .ok (found.settings, rest)
  | cs => .error (wrongKind cs)

def writeSettings (s : MountSettings) : String :=
  let el := match s.el with
    | none => "null"
    | some el => writeString el
  writeObject [("el", el), ("data", writeData s.data), ("strategy", writeString s.strategy.name)]

end Json

def MountSettings.ofJson (text : String) : Except Json.Fault MountSettings :=
  (Json.readSettings text.toList).bind Json.finish

end LivePage
