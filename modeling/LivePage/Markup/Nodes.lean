import LivePage.Text.Letters

namespace LivePage.Markup

/-- An attribute. Its name has no upper case ASCII letter. -/
structure Attribute where
  name : String
  value : String
deriving DecidableEq, Repr

def Attribute.ofPair (name value : String) : Attribute :=
  ⟨Text.lower name, value⟩

/-- What a branching node is: the document, or an element with its tag and attributes. -/
inductive Label
  | document
  | element (tag : String) (attributes : List Attribute)
deriving DecidableEq, Repr

namespace Label

def ofTag (tag : String) : Label := .element (Text.lower tag) []

def isElement : Label → Bool
  | .document => false
  | .element .. => true

def tag : Label → String
  | .document => ""
  | .element tag _ => tag

def attributes : Label → List Attribute
  | .document => []
  | .element _ attributes => attributes

/-- The value of the first attribute with a name, in any case. -/
def attribute? (l : Label) (name : String) : Option String :=
  (l.attributes.find? (·.name = Text.lower name)).map (·.value)

def setValue (name value : String) : List Attribute → List Attribute
  | [] => [⟨name, value⟩]
  | a :: rest => if a.name = name then ⟨name, value⟩ :: rest else a :: setValue name value rest

def setAttribute (l : Label) (name value : String) : Label :=
  match l with
  | .document => .document
  | .element tag attributes => .element tag (setValue (Text.lower name) value attributes)

def removeAttribute (l : Label) (name : String) : Label :=
  match l with
  | .document => .document
  | .element tag attributes => .element tag (attributes.eraseP (·.name = Text.lower name))

end Label

/-- A row of siblings, each with what is below it. `ι` is what tells the branching nodes apart, or
`Unit` where nothing needs to. -/
inductive Nodes (ι : Type)
  | nil
  | text (content : String) (rest : Nodes ι)
  | comment (content : String) (rest : Nodes ι)
  | branch (id : ι) (label : Label) (below rest : Nodes ι)
deriving DecidableEq, Repr

namespace Nodes

variable {ι κ : Type}

instance : Inhabited (Nodes ι) := ⟨.nil⟩

def append : Nodes ι → Nodes ι → Nodes ι
  | nil, ns => ns
  | text s rest, ns => text s (rest.append ns)
  | comment s rest, ns => comment s (rest.append ns)
  | branch i l below rest, ns => branch i l below (rest.append ns)

instance : Append (Nodes ι) := ⟨append⟩

def ofText (s : String) : Nodes ι :=
  if s = "" then nil else text s nil

def textContent : Nodes ι → String
  | nil => ""
  | text s rest => s ++ rest.textContent
  | comment _ rest => rest.textContent
  | branch _ _ below rest => below.textContent ++ rest.textContent

def elementCount : Nodes ι → Nat
  | nil => 0
  | text _ rest | comment _ rest => rest.elementCount
  | branch _ l _ rest => (if l.isElement then 1 else 0) + rest.elementCount

def branches : Nodes ι → List (ι × Label × Nodes ι)
  | nil => []
  | text _ rest | comment _ rest => rest.branches
  | branch i l below rest => (i, l, below) :: rest.branches

def ids : Nodes ι → List ι
  | nil => []
  | text _ rest | comment _ rest => rest.ids
  | branch i _ below rest => i :: (below.ids ++ rest.ids)

def branchCount : Nodes ι → Nat
  | nil => 0
  | text _ rest | comment _ rest => rest.branchCount
  | branch _ _ below rest => 1 + below.branchCount + rest.branchCount

def numbered (n : Nat) : Nodes ι → Nodes Nat
  | nil => nil
  | text s rest => text s (rest.numbered n)
  | comment s rest => comment s (rest.numbered n)
  | branch _ l below rest =>
    branch n l (below.numbered (n + 1)) (rest.numbered (n + 1 + below.branchCount))

def branchesOnly : Nodes ι → Nodes ι
  | nil => nil
  | text _ rest | comment _ rest => rest.branchesOnly
  | branch i l below rest => branch i l below rest.branchesOnly

def size : Nodes ι → Nat
  | nil => 0
  | text _ rest | comment _ rest => 1 + rest.size
  | branch _ _ below rest => 1 + below.size + rest.size

/-- The row as it is copied from a tree that was read: all names in lower case, and without a
document in it. -/
def copied : Nodes ι → Nodes Unit
  | nil => nil
  | text s rest => text s rest.copied
  | comment s rest => comment s rest.copied
  | branch _ .document _ rest => rest.copied
  | branch _ (.element tag attributes) below rest =>
    branch () (.element (Text.lower tag) (attributes.map fun a ↦ .ofPair a.name a.value))
      below.copied rest.copied

def plain : Nodes ι → Nodes Unit
  | nil => nil
  | text s rest => text s rest.plain
  | comment s rest => comment s rest.plain
  | branch _ l below rest => branch () l below.plain rest.plain

end Nodes

end LivePage.Markup
