import LivePage.Forest.Moves

namespace LivePage

open Markup

def Markup.Selector.read (source : String) : Except TreeError Selector :=
  match Selector.parse source with
  | .ok s => .ok s
  | .error fault => .error (.invalidSelector source fault)

namespace Forest

variable (f : Forest)

def selectAll (i : NodeId) (s : Selector) : List NodeId :=
  ((f.below i).descendants.filter (s.selects ·.2)).map (·.1)

def select? (i : NodeId) (s : Selector) : Option NodeId :=
  (f.selectAll i s).head?

def queryAll (i : NodeId) (source : String) : Except TreeError (List NodeId) :=
  (Selector.read source).map (f.selectAll i)

def query (i : NodeId) (source : String) : Except TreeError (Option NodeId) :=
  (Selector.read source).map (f.select? i)

def byId? (i : NodeId) (id : String) : Option NodeId :=
  ((f.below i).descendants.find? (·.2.attribute? "id" = some id)).map (·.1)

/-- The first `body` element in an `html` element of a document. -/
def body? (document : NodeId) : Option NodeId :=
  (((f.children document).filter (f.tag · = "html")).flatMap f.children).find? (f.tag · = "body")

end Forest

end LivePage
