import LivePage.Proofs.Linked.Walks
import LivePage.Proofs.Page.Rerender
import LivePage.Page.Mount

namespace LivePage

open Markup Template

namespace Forest

def run (f : Forest) (ms : List Move) : Forest :=
  ms.foldl (fun f m ↦ f.after (m.onForest f)) f

def LegalRun : Forest → List Move → Prop
  | _, [] => True
  | f, m :: ms => m.Legal f ∧ (f.after (m.onForest f)).LegalRun ms

/-- Calls that are legal one after the other, and what they leave. -/
structure Performs (f : Forest) (ms : List Move) (g : Forest) : Prop where
  legal : f.LegalRun ms
  run_eq : f.run ms = g

namespace Performs

variable {f g k : Forest} {m : Move} {ms ms' : List Move}

theorem nil (f : Forest) : f.Performs [] f :=
  ⟨trivial, rfl⟩

theorem cons (hm : m.Legal f) (hg : m.onForest f = .ok g) (h : g.Performs ms k) :
    f.Performs (m :: ms) k := by
  have hafter : f.after (m.onForest f) = g := by
    rw [hg]
    rfl
  refine ⟨⟨hm, hafter ▸ h.legal⟩, ?_⟩
  rw [run, List.foldl_cons, hafter]
  exact h.run_eq

theorem single (hm : m.Legal f) (hg : m.onForest f = .ok g) : f.Performs [m] g :=
  cons hm hg (nil g)

theorem append (h : f.Performs ms g) (h' : g.Performs ms' k) : f.Performs (ms ++ ms') k := by
  induction ms generalizing f with
  | nil =>
    obtain rfl := h.run_eq
    exact h'
  | cons m ms ih =>
    obtain ⟨⟨hm, hlegal⟩, hrun⟩ := h
    have hrest := ih ⟨hlegal, hrun⟩
    exact ⟨⟨hm, hrest.legal⟩, hrest.run_eq⟩

end Performs

end Forest

namespace Heap

def run (h : Heap) (depth : Nat) (ms : List Move) : Option Heap :=
  ms.foldlM (fun h m ↦ (m.onHeap h depth).map (·.2)) h

theorem Represents.performs {h : Heap} {f g : Forest} {ms : List Move} (hr : h.Represents f)
    (hp : f.Performs ms g) :
    ∃ h', Ends (fun depth ↦ h.run depth ms) h' ∧ h'.Represents g ∧ h.Keeps h' := by
  induction ms generalizing h f with
  | nil =>
    obtain rfl := hp.run_eq
    exact ⟨h, ⟨0, fun _ _ ↦ rfl⟩, hr, .refl h⟩
  | cons m ms ih =>
    obtain ⟨⟨hm, hlegal⟩, hrun⟩ := hp
    obtain ⟨h₁, ⟨b₁, hends₁⟩, hr₁, hk₁⟩ := hr.move hm
    obtain ⟨h₂, ⟨b₂, hends₂⟩, hr₂, hk₂⟩ := ih hr₁ ⟨hlegal, hrun⟩
    refine ⟨h₂, ⟨max b₁ b₂, fun depth hd ↦ ?_⟩, hr₂, hk₁.trans hk₂⟩
    have h₁' := hends₁ depth (le_trans (le_max_left _ _) hd)
    have h₂' := hends₂ depth (le_trans (le_max_right _ _) hd)
    change m.onHeap h depth = _ at h₁'
    change h₁.run depth ms = _ at h₂'
    change h.run depth (m :: ms) = _
    rw [run, List.foldlM_cons, h₁']
    exact h₂'

end Heap

namespace Template

namespace Loop

variable (l : Loop)

def items (data : Data) : List Value :=
  ((data.get? l.collection).bind Value.list?).getD []

/-- An element is made for an item: it gets the template as its text, and if that has the item in it
the markup with the item put in. -/
def stampMoves (tag template : String) (n : NodeId) (item : Value) : List Move :=
  .make (.ofTag tag) :: .fill n (.ofText template) ::
    match replace? (fun name ↦ if name = l.item then some item.display else none)
        (Nodes.inner (.ofTag tag) (Nodes.ofText template : Nodes Unit)) with
    | some markup => [.fill n (readFragment tag markup)]
    | none => []

def stampAllMoves (tag template : String) : NodeId → List Value → List Move
  | _, [] => []
  | n, item :: rest => l.stampMoves tag template n item ++
      stampAllMoves tag template (n + 1 + (l.content tag template item).branchCount) rest

def expandMoves (data : Data) (f : Forest) (i : NodeId) : List Move :=
  match l.expand data f i with
  | .error _ => []
  | .ok (generated, _) =>
    l.stampAllMoves (f.tag i) (f.textContent i) f.next (l.items data) ++
      (generated.map (.before i) ++ [.remove i])

end Loop

def dispatchMoves (data : Data) (f : Forest) (i : NodeId) : List Attribute → List Move
  | [] => []
  | a :: rest => match Directive.parse? a.name a.value with
    | some (.ok (.loop l)) =>
      match l.expand data f i with
      | .error _ => dispatchMoves data f i rest
      | .ok _ => l.expandMoves data f i
    | _ => dispatchMoves data f i rest

def substituteMoves (data : Data) (f : Forest) (i : NodeId) : List Move :=
  match replace? (display? data) (f.textContent i) with
  | some text => [.fill i (.ofText text)]
  | none => []

def renderRowMoves (data : Data) : Nodes NodeId → Forest → List Move
  | .nil, _ => []
  | .text _ rest, f | .comment _ rest, f => renderRowMoves data rest f
  | .branch i _ below rest, f =>
    let tried := dispatch data f i
    let inside : Rendered := match tried.result with
      | .expanded _ => ⟨tried.forest, [], []⟩
      | .kept =>
        if 0 < below.elementCount then renderRow data below tried.forest
        else ⟨substitute data tried.forest i, [], []⟩
    let first := dispatchMoves data f i (f.label i).attributes
    let second := match tried.result with
      | .expanded _ => []
      | .kept =>
        if 0 < below.elementCount then renderRowMoves data below tried.forest
        else substituteMoves data tried.forest i
    first ++ (second ++ renderRowMoves data rest inside.forest)

def renderMoves (data : Data) (f : Forest) (root : NodeId) : List Move :=
  renderRowMoves data (f.below root) f

end Template

namespace Page

variable (p : Page)

def replaceRootMoves (app : App) : List Move :=
  let old := p.forest.label app.root
  match p.replaceRoot app with
  | .error _ => []
  | .ok (fresh, _) =>
    .make (.ofTag old.tag) ::
      ((match old.attribute? "id" with
        | some id => [.relabel fresh (·.setAttribute "id" id)]
        | none => []) ++
        [.fill fresh (readFragment (freshLabel old).tag app.template), .before app.root fresh,
          .remove app.root])

def rerenderMoves (a : AppId) (data : Data) : List Move :=
  match p.app? a with
  | none => []
  | some app =>
    match app.strategy with
    | .inPlace => renderMoves data p.forest app.root
    | .destructive =>
      match p.replaceRoot app with
      | .error _ => []
      | .ok (root, forest) => p.replaceRootMoves app ++ renderMoves data forest root

def mountMoves (document : NodeId) (o : MountOptions Unit) : List Move :=
  match p.findRoot document o.el with
  | .error _ => []
  | .ok (_, root) => renderMoves o.data p.forest root

end Page

namespace Forest

variable {f g : Forest} {h : Heap} {i : NodeId} {l : Label}

theorem has_plant (f : Forest) (l : Label) (row : Nodes Unit) : (f.plant l row).2.Has f.next :=
  List.mem_cons_self

theorem exists_parent_of_before {i j : NodeId} (hok : f.before i j = .ok g) :
    ∃ q, f.parent? i = some q := by
  unfold before at hok
  cases hq : f.parent? i with
  | none => rw [hq] at hok; cases hok
  | some q => exact ⟨q, rfl⟩

theorem performs_fill_plant (f : Forest) (l : Label) {row row' : Nodes Unit} (hrow : row.ids = [])
    (hrow' : row'.OnlyElements) :
    (f.plant l row).2.Performs [.fill f.next row'] (f.plant l row').2 :=
  .single ⟨has_plant f l row, hrow'⟩ (congrArg Except.ok (setContent_plant f l hrow))

theorem performs_fill_make (f : Forest) (l : Label) {row : Nodes Unit} (hrow : row.OnlyElements) :
    (f.plant l .nil).2.Performs [.fill f.next row] (f.plant l row).2 :=
  f.performs_fill_plant l rfl hrow

end Forest

namespace Template

variable {f g : Forest} {h : Heap} {i : NodeId} {data : Data}

namespace Loop

theorem performs_stamp (l : Loop) (f : Forest) (tag template : String) (item : Value) :
    f.Performs (l.stampMoves tag template f.next item)
      (f.plant (.ofTag tag) (l.content tag template item)).2 := by
  have htext := f.performs_fill_make (.ofTag tag) (Nodes.onlyElements_ofText template)
  rw [stampMoves, content]
  refine .cons trivial rfl ?_
  generalize replace? _ _ = filled
  cases filled with
  | none => exact htext
  | some markup =>
    exact htext.append (f.performs_fill_plant _ (Nodes.ids_ofText template)
      (onlyElements_readFragment tag markup))

theorem performs_stampAll (l : Loop) (hr : h.Represents f) (tag template : String)
    (items : List Value) :
    let planted := f.plantAll (items.map fun item ↦ (.ofTag tag, l.content tag template item))
    f.Performs (l.stampAllMoves tag template f.next items) planted.2 ∧
      ∀ j ∈ planted.1, planted.2.HasElement j := by
  induction items generalizing f h with
  | nil => exact ⟨.nil f, fun j hj ↦ by cases hj⟩
  | cons item rest ih =>
    have hfirst := l.performs_stamp f tag template item
    obtain ⟨h₁, -, hr₁, -⟩ := hr.performs hfirst
    obtain ⟨hrest, helements⟩ := ih hr₁
    obtain ⟨h₂, -, hr₂, hk₂⟩ := hr₁.performs hrest
    refine ⟨hfirst.append hrest, List.forall_mem_cons.2 ⟨?_, helements⟩⟩
    refine hr₁.hasElement hr₂ hk₂ ⟨Forest.has_plant _ _ _, ?_⟩
    rw [Forest.label_plant]
    rfl

theorem performs_beforeAll (hr : h.Represents f) (hi : f.HasElement i) {js : List NodeId}
    (hjs : ∀ j ∈ js, f.HasElement j) (hok : f.beforeAll i js = .ok g) :
    f.Performs (js.map (.before i)) g := by
  induction js generalizing f h with
  | nil =>
    obtain rfl := Except.ok.inj hok
    exact .nil f
  | cons j js ih =>
    obtain ⟨hj, hjs⟩ := List.forall_mem_cons.1 hjs
    rw [Forest.beforeAll] at hok
    cases hf : f.before i j with
    | error e => rw [hf] at hok; cases hok
    | ok f₁ =>
      rw [hf] at hok
      have hfirst : f.Performs [.before i j] f₁ := .single ⟨hi, hj⟩ hf
      obtain ⟨h₁, -, hr₁, hk₁⟩ := hr.performs hfirst
      exact .cons ⟨hi, hj⟩ hf (ih hr₁ (hr.hasElement hr₁ hk₁ hi)
        (fun j hj ↦ hr.hasElement hr₁ hk₁ (hjs j hj)) hok)

theorem performs_expand (l : Loop) (hr : h.Represents f) (hi : f.HasElement i) {js : List NodeId}
    (hok : l.expand data f i = .ok (js, g)) : f.Performs (l.expandMoves data f i) g := by
  rw [expandMoves, hok]
  unfold expand at hok
  cases hvalue : data.get? l.collection with
  | none => rw [hvalue] at hok; cases hok
  | some value =>
    cases hlist : value.list? with
    | none => simp only [hvalue, hlist, reduceCtorEq] at hok
    | some items =>
      have hitems : l.items data = items := by
        rw [Loop.items, hvalue, Option.bind_some, hlist]
        rfl
      simp only [hvalue, hlist] at hok
      split at hok
      · cases hok
      · split at hok
        · cases hok
        · obtain ⟨hstamp, helements⟩ := l.performs_stampAll hr (f.tag i) (f.textContent i) items
          generalize f.plantAll _ = planted at hok hstamp helements
          obtain ⟨generated, g₁⟩ := planted
          simp only at hok hstamp helements
          split at hok
          · cases hok
          · next g' hbefore =>
            obtain ⟨rfl, rfl⟩ := Prod.mk.inj (Except.ok.inj hok)
            obtain ⟨h₁, -, hr₁, hk₁⟩ := hr.performs hstamp
            have hi₁ := hr.hasElement hr₁ hk₁ hi
            have hput := performs_beforeAll hr₁ hi₁ helements hbefore
            obtain ⟨h₂, -, hr₂, hk₂⟩ := hr₁.performs hput
            rw [hitems]
            exact hstamp.append (hput.append (.single (hr₁.hasElement hr₂ hk₂ hi₁).1 rfl))

end Loop

theorem performs_dispatch (data : Data) (hr : h.Represents f) (hi : f.HasElement i) (as : List Attribute) :
    f.Performs (dispatchMoves data f i as) (dispatchAttributes data f i as).forest := by
  induction as with
  | nil => exact .nil f
  | cons a rest ih =>
    rw [dispatchMoves, dispatchAttributes]
    cases Directive.parse? a.name a.value with
    | none => exact ih
    | some parsed =>
      cases parsed with
      | error e => exact ih
      | ok directive =>
        obtain ⟨l⟩ := directive
        cases hl : l.expand data f i with
        | error d => simp only [hl]; exact ih
        | ok done =>
          simp only [hl]
          exact l.performs_expand hr hi hl

theorem performs_substitute (hi : f.Has i) :
    f.Performs (substituteMoves data f i) (substitute data f i) := by
  rw [substituteMoves, substitute]
  cases replace? (display? data) (f.textContent i) with
  | none => exact .nil f
  | some text => exact .single ⟨hi, Nodes.onlyElements_ofText text⟩ rfl

theorem performs_renderRow {row : Nodes NodeId} (hr : h.Represents f)
    (hrow : ∀ i ∈ row.ids, f.HasElement i) :
    f.Performs (renderRowMoves data row f) (renderRow data row f).forest := by
  induction row generalizing f h with
  | nil => exact .nil f
  | text s rest ih => exact ih hr hrow
  | comment s rest ih => exact ih hr hrow
  | branch i l below rest ihb ihr =>
    obtain ⟨hi, hrow⟩ := List.forall_mem_cons.1 hrow
    obtain ⟨hbelow, hrest⟩ := List.forall_mem_append.1 hrow
    have hfirst := performs_dispatch data hr hi (f.label i).attributes
    obtain ⟨h₁, -, hr₁, hk₁⟩ := hr.performs hfirst
    have hsecond : (dispatch data f i).forest.Performs
        (match (dispatch data f i).result with
          | .expanded _ => []
          | .kept =>
            if 0 < below.elementCount then renderRowMoves data below (dispatch data f i).forest
            else substituteMoves data (dispatch data f i).forest i)
        (match (dispatch data f i).result with
          | .expanded _ => (⟨(dispatch data f i).forest, [], []⟩ : Rendered)
          | .kept =>
            if 0 < below.elementCount then renderRow data below (dispatch data f i).forest
            else ⟨substitute data (dispatch data f i).forest i, [], []⟩).forest := by
      cases (dispatch data f i).result with
      | expanded generated => exact .nil _
      | kept =>
        by_cases h₀ : 0 < below.elementCount
        · simp only [if_pos h₀]
          exact ihb hr₁ fun j hj ↦ hr.hasElement hr₁ hk₁ (hbelow j hj)
        · simp only [if_neg h₀]
          exact performs_substitute (hr.has hr₁ hk₁ hi.1)
    obtain ⟨h₂, -, hr₂, hk₂⟩ := hr₁.performs hsecond
    have hthird := ihr hr₂ fun j hj ↦ hr₁.hasElement hr₂ hk₂ (hr.hasElement hr₁ hk₁ (hrest j hj))
    exact hfirst.append (hsecond.append hthird)

theorem performs_render (hr : h.Represents f) (root : NodeId) :
    f.Performs (renderMoves data f root) (render data f root).forest :=
  performs_renderRow hr fun _ hi ↦ hr.hasElement_of_below hi

end Template

namespace Page

variable {p : Page} {h : Heap} {g : Forest} {app : App} {root : NodeId}

theorem performs_freshLabel (f : Forest) (old : Label) :
    f.Performs (.make (.ofTag old.tag) ::
      match old.attribute? "id" with
      | some id => [.relabel f.next (·.setAttribute "id" id)]
      | none => []) (f.plant (freshLabel old) .nil).2 := by
  refine .cons trivial rfl ?_
  rw [freshLabel]
  cases old.attribute? "id" with
  | none => exact .nil _
  | some id =>
    refine .single ⟨Forest.has_plant _ _ _, fun l ↦ ?_⟩
      (congrArg Except.ok (Forest.relabel_plant f _ _))
    cases l <;> rfl

theorem performs_replaceRoot (hr : h.Represents p.forest)
    (hok : p.replaceRoot app = .ok (root, g)) :
    p.forest.Performs (p.replaceRootMoves app) g := by
  rw [replaceRootMoves, hok]
  unfold replaceRoot at hok
  set old := p.forest.label app.root
  set row := readFragment (freshLabel old).tag app.template
  have hrow : row.OnlyElements := onlyElements_readFragment _ _
  have hmade := (performs_freshLabel p.forest old).append
    (p.forest.performs_fill_make (freshLabel old) hrow)
  obtain ⟨h₁, -, hr₁, -⟩ := hr.performs hmade
  change ((p.forest.plant (freshLabel old) row).2.before app.root p.forest.next).bind _ = _ at hok
  cases hf : (p.forest.plant (freshLabel old) row).2.before app.root p.forest.next with
  | error e => rw [hf] at hok; cases hok
  | ok f =>
    rw [hf] at hok
    obtain ⟨rfl, rfl⟩ := Prod.mk.inj (Except.ok.inj hok)
    obtain ⟨q, hq⟩ := Forest.exists_parent_of_before hf
    have hroot := hr₁.hasElement_of_parent? hq
    have hput : (p.forest.plant (freshLabel old) row).2.Performs
        [.before app.root p.forest.next] f := by
      refine .single ⟨hroot, Forest.has_plant _ _ _, ?_⟩ hf
      rw [Forest.label_plant]
      exact isElement_freshLabel old
    obtain ⟨h₂, -, hr₂, hk₂⟩ := hr₁.performs hput
    have hremoved : f.Performs [.remove app.root] (f.remove app.root) :=
      .single (hr₁.has hr₂ hk₂ hroot.1) rfl
    have hall := hmade.append (hput.append hremoved)
    rw [List.append_assoc, List.cons_append] at hall
    exact hall

@[simp] theorem forest_clearDiagnostics (p : Page) (a : AppId) :
    (p.clearDiagnostics a).forest = p.forest := by
  unfold clearDiagnostics
  split <;> rfl

@[simp] theorem forest_report (p : Page) (a : AppId) (d : Diagnostic) :
    (p.report a d).forest = p.forest := by
  unfold report
  split <;> rfl

theorem performs_rerender (hr : h.Represents p.forest) (a : AppId) (data : Data) :
    p.forest.Performs (p.rerenderMoves a data) (p.rerender a data).forest := by
  cases happ : p.app? a with
  | none =>
    simp only [rerenderMoves, rerender, happ]
    exact .nil _
  | some app =>
    cases hs : app.strategy with
    | inPlace =>
      simp only [rerenderMoves, rerender, happ, hs, (renderPass_eq happ data).1]
      exact performs_render hr app.root
    | destructive =>
      cases hok : p.replaceRoot app with
      | error e =>
        simp only [rerenderMoves, rerender, happ, hs, hok, forest_report, forest_clearDiagnostics]
        exact .nil _
      | ok done =>
        obtain ⟨root, g⟩ := done
        have hnew := performs_replaceRoot hr hok
        obtain ⟨h₁, -, hr₁, -⟩ := hr.performs hnew
        rw [(rerender_eq happ hs hok data).1]
        simp only [rerenderMoves, happ, hs, hok]
        exact hnew.append (performs_render hr₁ root)

theorem performs_mount (hr : h.Represents p.forest) (document : NodeId) (o : MountOptions Unit) :
    p.forest.Performs (p.mountMoves document o) (p.mount document o).2.forest := by
  rw [mountMoves, mount]
  cases p.findRoot document o.el with
  | error e => exact .nil _
  | ok found =>
    obtain ⟨selector, root⟩ := found
    simp only
    set app : App := ⟨selector, p.forest.inner root, root, o.strategy, [], 0⟩
    have happ : ({ p with apps := p.apps ++ [some app] } : Page).app? p.apps.length = some app := by
      rw [app?, List.getElem?_append_right (Nat.le_refl _), Nat.sub_self]
      rfl
    have hforest := (renderPass_eq happ o.data).1
    change p.forest.Performs _ (renderPass _ p.apps.length o.data).forest
    rw [hforest]
    exact performs_render hr root

end Page

end LivePage
