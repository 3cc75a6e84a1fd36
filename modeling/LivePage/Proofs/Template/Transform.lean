import LivePage.Proofs.Markup.Frame
import LivePage.Template.Rendering

namespace LivePage

namespace Markup.Nodes

variable {ι : Type}

def newCount : Nodes (Option ι) → Nat
  | nil => 0
  | text _ rest | comment _ rest => rest.newCount
  | branch i _ below rest => (if i.isNone then 1 else 0) + below.newCount + rest.newCount

/-- Gives the nodes without identity the identities from `n` on, in document order. -/
def identify (n : Nat) : Nodes (Option Nat) → Nodes Nat
  | nil => nil
  | text s rest => text s (rest.identify n)
  | comment s rest => comment s (rest.identify n)
  | branch (some i) l below rest =>
    branch i l (below.identify n) (rest.identify (n + below.newCount))
  | branch none l below rest =>
    branch n l (below.identify (n + 1)) (rest.identify (n + 1 + below.newCount))

def ofElements : List (Label × Nodes Unit) → Nodes Unit
  | [] => nil
  | (l, below) :: rest => branch () l below (ofElements rest)

end Markup.Nodes

namespace Template

open Markup

variable {ι : Type} (data : Data)

/-- The elements that a loop makes of an element, one for each item; or why it makes none. -/
def Loop.generate (l : Loop) (tag : String) (below : Nodes ι) :
    Except Diagnostic (List (Label × Nodes Unit)) :=
  match data.get? l.collection with
  | none => .error (.unresolvedCollection l.collection)
  | some value =>
    match value.list? with
    | none => .error (.unsupportedCollection l.collection value.kind)
    | some items =>
      if !items.isEmpty && !hasPlaceholder below.textContent then
        .error (.noPlaceholders below.textContent)
      else .ok (items.map fun item ↦ (.ofTag tag, l.content tag below.textContent item))

def attempt (tag : String) (below : Nodes ι) (a : Attribute) :
    Option (Except Diagnostic (List (Label × Nodes Unit))) :=
  (Directive.parse? a.name a.value).map fun
    | .error e => .error (.malformedDirective a.value e)
    | .ok (.loop l) => l.generate data tag below

def attempts (l : Label) (below : Nodes ι) :
    List (Except Diagnostic (List (Label × Nodes Unit))) :=
  l.attributes.filterMap (attempt data l.tag below)

/-- The elements that stand for an element: those of the first loop that succeeds. -/
def standIns? (l : Label) (below : Nodes ι) : Option (List (Label × Nodes Unit)) :=
  (attempts data l below).findSome? (·.toOption)

def faults {α : Type} (ts : List (Except Diagnostic α)) : List Diagnostic :=
  (ts.takeWhile (!·.isOk)).filterMap fun
    | .error d => some d
    | .ok _ => none

/-- What the loops of an element report that fail before one succeeds. -/
def failures (l : Label) (below : Nodes ι) : List Diagnostic :=
  faults (attempts data l below)

/-- The content of an element that has no element in it, with the placeholders replaced that name a
property. -/
def fillLeaf (below : Nodes ι) : Nodes ι :=
  let ps := pieces below.textContent.toList
  if ps.any (Piece.resolves (display? data)) then
    .ofText (String.join (ps.map (Piece.fill (display? data))))
  else below

def transform : Nodes ι → Nodes (Option ι)
  | .nil => .nil
  | .text s rest => .text s (transform rest)
  | .comment s rest => .comment s (transform rest)
  | .branch i l below rest =>
    (match standIns? data l below with
      | some elements => (Nodes.ofElements elements).map fun _ ↦ none
      | none =>
        .branch (some i) l
          (if 0 < below.elementCount then transform below else (fillLeaf data below).map some)
          .nil) ++
      transform rest

def reportsIn : Nodes ι → List Diagnostic
  | .nil => []
  | .text _ rest | .comment _ rest => reportsIn rest
  | .branch _ l below rest =>
    failures data l below ++
      (if (standIns? data l below).isSome then [] else reportsIn below) ++ reportsIn rest

/-- The elements of a row whose loops a pass tries, in document order: not those below one that
others stand for. -/
def visitedIn : Nodes ι → List ι
  | .nil => []
  | .text _ rest | .comment _ rest => visitedIn rest
  | .branch i l below rest =>
    i :: ((if (standIns? data l below).isSome then [] else visitedIn below) ++ visitedIn rest)

/-- The elements that others stand for after a pass, the last one first. Each is loose and is as it
was. -/
def replaced : Nodes ι → Nodes ι
  | .nil => .nil
  | .text _ rest | .comment _ rest => replaced rest
  | .branch i l below rest =>
    replaced rest ++
      if (standIns? data l below).isSome then .branch i l below .nil else replaced below

theorem attempts_congr {κ : Type} (l : Label) {below : Nodes ι} {below' : Nodes κ}
    (h : below.textContent = below'.textContent) :
    attempts data l below = attempts data l below' := by
  have hattempt : attempt data l.tag below = attempt data l.tag below' := by
    funext a
    unfold attempt Loop.generate
    rw [h]
  rw [attempts, hattempt, attempts]

theorem standIns?_congr {κ : Type} (l : Label) {below : Nodes ι} {below' : Nodes κ}
    (h : below.textContent = below'.textContent) :
    standIns? data l below = standIns? data l below' := by
  rw [standIns?, attempts_congr data l h, standIns?]

theorem failures_congr {κ : Type} (l : Label) {below : Nodes ι} {below' : Nodes κ}
    (h : below.textContent = below'.textContent) :
    failures data l below = failures data l below' := by
  rw [failures, attempts_congr data l h, failures]

theorem standIns?_plain (l : Label) (below : Nodes ι) :
    standIns? data l below.plain = standIns? data l below :=
  standIns?_congr data l (Nodes.textContent_plain below)

theorem failures_plain (l : Label) (below : Nodes ι) :
    failures data l below.plain = failures data l below :=
  failures_congr data l (Nodes.textContent_plain below)

theorem fillLeaf_plain (below : Nodes ι) :
    fillLeaf data below.plain = (fillLeaf data below).plain := by
  unfold fillLeaf
  rw [Nodes.textContent_plain]
  dsimp only
  split
  · rw [Nodes.plain_ofText]
  · rfl

theorem transform_plain (row : Nodes ι) :
    (transform data row.plain).plain = (transform data row).plain := by
  induction row with
  | nil => rfl
  | text s rest ih => exact congrArg (Nodes.text s) ih
  | comment s rest ih => exact congrArg (Nodes.comment s) ih
  | branch i l below rest ihb ihr =>
    simp only [Nodes.plain, transform, standIns?_plain, Nodes.plain_append, ihr]
    congr 1
    cases standIns? data l below with
    | some elements => simp only [Nodes.plain_map]
    | none =>
      simp only [Nodes.plain, Nodes.elementCount_plain]
      split
      · rw [ihb]
      · rw [fillLeaf_plain, Nodes.plain_map, Nodes.plain_map, Nodes.plain_plain]

theorem reportsIn_plain (row : Nodes ι) : reportsIn data row.plain = reportsIn data row := by
  induction row with
  | nil => rfl
  | text s rest ih => exact ih
  | comment s rest ih => exact ih
  | branch i l below rest ihb ihr =>
    simp only [Nodes.plain, reportsIn, standIns?_plain, failures_plain, ihb, ihr]

theorem transform_numbered (row : Nodes Unit) (n : Nat) :
    (transform data (row.numbered n)).plain = (transform data row).plain := by
  rw [← transform_plain, Nodes.plain_numbered]

theorem reportsIn_numbered (row : Nodes Unit) (n : Nat) :
    reportsIn data (row.numbered n) = reportsIn data row := by
  rw [← reportsIn_plain, Nodes.plain_numbered]

end Template

end LivePage
