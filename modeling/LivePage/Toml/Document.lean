import LivePage.Toml.Scalar

namespace LivePage.Toml

/-- How a table came to be: by its own header, on the way to another header, by dotted keys, or
between braces, which closes it. -/
inductive Origin
  | header
  | passed
  | dotted
  | braces
deriving DecidableEq, Repr

inductive Node
  | scalar (s : Scalar)
  | string (s : String)
  | array (items : List Node)
  | table (origin : Origin) (entries : List (String × Node))
  | tables (rows : List (List (String × Node)))
deriving Repr

abbrev Entries := List (String × Node)

namespace Entries

def put (name : String) (node : Node) : Entries → Entries
  | [] => [(name, node)]
  | (n, old) :: rest =>
    if n = name then (n, node) :: rest else (n, old) :: put name node rest

/-- Adds a value under a dotted key. The table that receives it is this one or one made by dotted
keys; a header's table may be passed on the way only if it has not been opened. -/
def addDotted (last : String) (node : Node) : List String → Entries → Option Entries
  | [], entries => match entries.lookup last with
    | none => some (entries ++ [(last, node)])
    | some _ => none
  | name :: path, entries => match entries.lookup name with
    | none => do
      let below ← addDotted last node path []
      some (entries ++ [(name, .table .dotted below)])
    | some (.table .dotted below) => do
      let below ← addDotted last node path below
      some (put name (.table .dotted below) entries)
    | some (.table .passed below) =>
      if path = [] then none
      else do
        let below ← addDotted last node path below
        some (put name (.table .passed below) entries)
    | some (.tables (row :: rows)) =>
      if path = [] then none
      else do
        let row ← addDotted last node path row
        some (put name (.tables (row :: rows)) entries)
    | _ => none

def atPath (f : Entries → Option Entries) : List String → Entries → Option Entries
  | [], entries => f entries
  | name :: path, entries => match entries.lookup name with
    | none => do
      let below ← atPath f path []
      some (entries ++ [(name, .table .passed below)])
    | some (.table .braces _) => none
    | some (.table origin below) => do
      let below ← atPath f path below
      some (put name (.table origin below) entries)
    | some (.tables (row :: rows)) => do
      let row ← atPath f path row
      some (put name (.tables (row :: rows)) entries)
    | _ => none

def openTable (name : String) (entries : Entries) : Option Entries :=
  match entries.lookup name with
  | none => some (entries ++ [(name, .table .header [])])
  | some (.table .passed below) => some (put name (.table .header below) entries)
  | _ => none

def addTable (name : String) (entries : Entries) : Option Entries :=
  match entries.lookup name with
  | none => some (entries ++ [(name, .tables [[]])])
  | some (.tables rows) => some (put name (.tables ([] :: rows)) entries)
  | _ => none

end Entries

def maxDepth : Nat := 80

mutual

def readValue? : Nat → Nat → List Char → Option (Node × List Char)
  | 0, _, _ => none
  | fuel + 1, depth, cs =>
    match cs with
    | [] => none
    | c :: rest =>
      if c = '"' ∨ c = '\'' then do
        let (s, rest) ← readString? c rest
        some (.string (String.ofList s), rest)
      else if c = '[' then match depth with
        | 0 => none
        | depth + 1 => do
          let (items, rest) ← readItems? fuel depth rest
          some (.array items, rest)
      else if c = '\x7b' then match depth with
        | 0 => none
        | depth + 1 => do
          let (entries, rest) ← readEntries? fuel depth [] rest
          some (.table .braces entries, rest)
      else do
        let (s, rest) ← readScalar? cs
        some (.scalar s, rest)

def readItems? : Nat → Nat → List Char → Option (List Node × List Char)
  | 0, _, _ => none
  | fuel + 1, depth, cs => do
    match ← skipLines? (cs.length + 1) cs with
    | ']' :: rest => some ([], rest)
    | rest =>
      let (item, rest) ← readValue? fuel depth rest
      match ← skipLines? (rest.length + 1) rest with
      | ',' :: rest =>
        let (items, rest) ← readItems? fuel depth rest
        some (item :: items, rest)
      | ']' :: rest => some ([item], rest)
      | _ => none

def readEntries? : Nat → Nat → Entries → List Char → Option (Entries × List Char)
  | 0, _, _, _ => none
  | fuel + 1, depth, entries, cs => do
    match ← skipLines? (cs.length + 1) cs with
    | '\x7d' :: rest => some (entries, rest)
    | rest =>
      let (path, last, rest) ← readKey? (rest.length + 1) rest
      let '=' :: rest := rest | none
      let (node, rest) ← readValue? fuel depth (skipSpace rest)
      let entries ← entries.addDotted last node path
      match ← skipLines? (rest.length + 1) rest with
      | ',' :: rest => readEntries? fuel depth entries rest
      | '\x7d' :: rest => some (entries, rest)
      | _ => none

end

structure Progress where
  root : Entries
  path : List String

def readLine? (p : Progress) (cs : List Char) : Option (Progress × List Char) :=
  match skipSpace cs with
  | '[' :: '[' :: rest => do
    let (path, last, rest) ← readKey? (rest.length + 1) rest
    let ']' :: ']' :: rest := rest | none
    let root ← p.root.atPath (Entries.addTable last) path
    some (⟨root, path ++ [last]⟩, ← lineEnd? rest)
  | '[' :: rest => do
    let (path, last, rest) ← readKey? (rest.length + 1) rest
    let ']' :: rest := rest | none
    let root ← p.root.atPath (Entries.openTable last) path
    some (⟨root, path ++ [last]⟩, ← lineEnd? rest)
  | c :: rest =>
    if c = '#' ∨ c = '\n' ∨ c = '\r' then do some (p, ← lineEnd? (c :: rest))
    else do
      let (path, last, rest) ← readKey? (rest.length + 2) (c :: rest)
      let '=' :: rest := rest | none
      let (node, rest) ← readValue? (rest.length + 1) maxDepth (skipSpace rest)
      let root ← p.root.atPath (Entries.addDotted last node path) p.path
      some (⟨root, p.path⟩, ← lineEnd? rest)
  | [] => some (p, [])

def readLines? : Nat → Progress → List Char → Option Entries
  | 0, _, _ => none
  | _ + 1, p, [] => some p.root
  | fuel + 1, p, cs => do
    let (p, rest) ← readLine? p cs
    readLines? fuel p rest

def read? (text : String) : Option Entries :=
  let cs := match text.toList with
    | '\ufeff' :: rest => rest
    | cs => cs
  readLines? (cs.length + 1) ⟨[], []⟩ cs

end LivePage.Toml
