import LivePage.Markup.Nodes

namespace LivePage.Markup.Nodes

variable {ι : Type}

/-- What is left of a walk: the rows yet to be visited, the current one first. -/
def pendingSize : List (Nodes ι) → Nat
  | [] => 0
  | row :: rows => 2 * row.size + 1 + pendingSize rows

def walk (rows : List (Nodes ι)) : List (ι × Label) :=
  match rows with
  | [] => []
  | nil :: rows => walk rows
  | text _ rest :: rows => walk (rest :: rows)
  | comment _ rest :: rows => walk (rest :: rows)
  | branch i l below rest :: rows => (i, l) :: walk (below :: rest :: rows)
termination_by pendingSize rows
decreasing_by all_goals simp only [pendingSize, size]; omega

def descendants (below : Nodes ι) : List (ι × Label) :=
  walk [below]

end LivePage.Markup.Nodes
