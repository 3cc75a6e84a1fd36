import LivePage.Markup.Nodes

namespace LivePage.Markup.Nodes

variable {ι : Type} [DecidableEq ι]

def find? (i : ι) : Nodes ι → Option (Label × Nodes ι)
  | nil => none
  | text _ rest | comment _ rest => rest.find? i
  | branch j l below rest =>
    if j = i then some (l, below) else (below.find? i).or (rest.find? i)

def parent? (i : ι) : Nodes ι → Option ι
  | nil => none
  | text _ rest | comment _ rest => rest.parent? i
  | branch j _ below rest =>
    if below.branches.any (·.1 = i) then some j else (below.parent? i).or (rest.parent? i)

def relabel (i : ι) (f : Label → Label) : Nodes ι → Nodes ι
  | nil => nil
  | text s rest => text s (rest.relabel i f)
  | comment s rest => comment s (rest.relabel i f)
  | branch j l below rest =>
    if j = i then branch j (f l) below rest
    else branch j l (below.relabel i f) (rest.relabel i f)

def updateBelow (i : ι) (f : Nodes ι → Nodes ι) : Nodes ι → Nodes ι
  | nil => nil
  | text s rest => text s (rest.updateBelow i f)
  | comment s rest => comment s (rest.updateBelow i f)
  | branch j l below rest =>
    if j = i then branch j l (f below) rest
    else branch j l (below.updateBelow i f) (rest.updateBelow i f)

def erase (i : ι) : Nodes ι → Nodes ι
  | nil => nil
  | text s rest => text s (rest.erase i)
  | comment s rest => comment s (rest.erase i)
  | branch j l below rest =>
    if j = i then rest else branch j l (below.erase i) (rest.erase i)

def insertBefore (i : ι) : Nodes ι → Nodes ι → Nodes ι
  | nil, _ => nil
  | text s rest, row => text s (rest.insertBefore i row)
  | comment s rest, row => comment s (rest.insertBefore i row)
  | branch j l below rest, row =>
    if j = i then row ++ branch j l below rest
    else branch j l (below.insertBefore i row) (rest.insertBefore i row)

/-- Puts a text at the end of a row; it joins a text that stands there. -/
def appendText (s : String) : Nodes ι → Nodes ι
  | nil => text s nil
  | text t nil => text (t ++ s) nil
  | text t rest => text t (rest.appendText s)
  | comment t rest => comment t (rest.appendText s)
  | branch j l below rest => branch j l below (rest.appendText s)

def insertTextBefore (i : ι) (s : String) : Nodes ι → Nodes ι
  | nil => nil
  | text t (branch j l below rest) =>
    if j = i then text (t ++ s) (branch j l below rest)
    else text t (branch j l (below.insertTextBefore i s) (rest.insertTextBefore i s))
  | text t rest => text t (rest.insertTextBefore i s)
  | comment t rest => comment t (rest.insertTextBefore i s)
  | branch j l below rest =>
    if j = i then text s (branch j l below rest)
    else branch j l (below.insertTextBefore i s) (rest.insertTextBefore i s)

end LivePage.Markup.Nodes
