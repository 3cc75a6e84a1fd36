import LivePage.Data.Basic

namespace LivePage

/-- What happens on a write: the root is made anew from the template, or rendered again as it is. -/
inductive Strategy
  | destructive
  | inPlace
deriving DecidableEq, Repr

namespace Strategy

def name : Strategy → String
  | .destructive => "destructive"
  | .inPlace => "in_place"

def ofName? (s : String) : Option Strategy :=
  if s = "destructive" then some .destructive
  else if s = "in_place" then some .inPlace
  else none

def debug : Strategy → String
  | .destructive => "Destructive"
  | .inPlace => "InPlace"

end Strategy

/-- The options of a mount. The callback `mounted`, of a type `γ`, runs once after the first render.
-/
structure MountOptions (γ : Type) where
  el : Option String := none
  data : Data := ∅
  mounted : Option γ := none
  strategy : Strategy := .destructive

namespace MountOptions

variable {γ : Type} (o : MountOptions γ)

def empty : MountOptions γ := {}

def ofSelector (el : String) : MountOptions γ := { el := some el }

def withEl (el : String) : MountOptions γ := { o with el := some el }

def withData (data : Data) : MountOptions γ := { o with data }

def withValue (name : String) (value : Value) : MountOptions γ :=
  { o with data := o.data.insert name value }

def withMounted (callback : γ) : MountOptions γ := { o with mounted := some callback }

def withStrategy (strategy : Strategy) : MountOptions γ := { o with strategy }

def debug : String :=
  "MountOptions \x7b el: " ++ Text.quotedOption o.el ++ ", data: " ++ o.data.debug ++
    ", mounted: " ++ (if o.mounted.isSome then "true" else "false") ++
    ", strategy: " ++ o.strategy.debug ++ " \x7d"

end MountOptions

structure MountSettings where
  el : Option String := none
  data : Data := ∅
  strategy : Strategy := .destructive

namespace MountSettings

def default : MountSettings := {}

instance : Inhabited MountSettings := ⟨default⟩

def same (a b : MountSettings) : Bool :=
  a.el = b.el && a.data == b.data && a.strategy = b.strategy

instance : BEq MountSettings := ⟨same⟩

def toOptions {γ : Type} (s : MountSettings) : MountOptions γ :=
  { el := s.el, data := s.data, strategy := s.strategy }

end MountSettings

end LivePage
