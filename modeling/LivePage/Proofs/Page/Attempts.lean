import LivePage.Proofs.Page.Enclosure
import LivePage.Proofs.Store.Answered

namespace LivePage

open Markup Template

/-- The operation is none on the application, and the root is still held after it. -/
def Op.Spares (a : AppId) (root : NodeId) : Op → Prop
  | rerender b _ | clearDiagnostics b | report b _ | dropApp b => b ≠ a
  | drop held => root ∈ held
  | _ => True

namespace Page

variable {p q : Page} {a b : AppId} {app : App}

theorem app?_setApp_of_ne (h : b ≠ a) (p : Page) (app : App) :
    (p.setApp b app).app? a = p.app? a := by
  rw [app?, setApp, List.getElem?_set_ne h]
  rfl

theorem app?_renderPass_of_ne (h : b ≠ a) (p : Page) (data : Data) :
    (p.renderPass b data).app? a = p.app? a := by
  unfold renderPass
  split
  · rfl
  · exact app?_setApp_of_ne h _ _

theorem app?_clearDiagnostics_of_ne (h : b ≠ a) (p : Page) :
    (p.clearDiagnostics b).app? a = p.app? a := by
  unfold clearDiagnostics
  split
  · rfl
  · exact app?_setApp_of_ne h _ _

theorem app?_report_of_ne (h : b ≠ a) (p : Page) (d : Diagnostic) :
    (p.report b d).app? a = p.app? a := by
  unfold report
  split
  · rfl
  · exact app?_setApp_of_ne h _ _

theorem app?_rerender_of_ne (h : b ≠ a) (p : Page) (data : Data) :
    (p.rerender b data).app? a = p.app? a := by
  unfold rerender
  split
  · rfl
  · split
    · exact app?_renderPass_of_ne h p data
    · split
      · rw [app?_report_of_ne h, app?_clearDiagnostics_of_ne h]
      · rw [app?_renderPass_of_ne h, app?_setApp_of_ne h]
        rfl

theorem app?_mount (h : p.app? a = some app) (document : NodeId) {γ : Type} (o : MountOptions γ) :
    (p.mount document o).2.app? a = some app := by
  have hlt : a < p.apps.length := by
    by_contra hge
    rw [app?, List.getElem?_eq_none (not_lt.1 hge)] at h
    cases h
  unfold mount
  split
  · exact h
  · refine (app?_renderPass_of_ne hlt.ne' _ _).trans ?_
    rw [app?, List.getElem?_append_left hlt]
    exact h

theorem app?_onPage {root : NodeId} {o : Op} (hs : o.Spares a root) (h : p.app? a = some app) :
    (o.onPage p).app? a = some app := by
  cases o with
  | mount document options => exact app?_mount h document options
  | rerender b data => exact (app?_rerender_of_ne hs p data).trans h
  | clearDiagnostics b => exact (app?_clearDiagnostics_of_ne hs p).trans h
  | report b d => exact (app?_report_of_ne hs p d).trans h
  | dropApp b =>
    change (p.dropApp b).app? a = some app
    rw [app?, dropApp, List.getElem?_set_ne hs]
    exact h
  | _ => exact h

end Page

theorem Reach.has_onPage {p : Page} {h : Heap} (hr : Reach p h) {o : Op} (hl : o.Legal p)
    {root : NodeId} (hdrop : ∀ held, o = .drop held → root ∈ held) (hroot : p.forest.Has root) :
    (o.onPage p).forest.Has root := by
  by_cases hd : ∃ held, o = .drop held
  · obtain ⟨held, rfl⟩ := hd
    obtain ⟨l, below, hnode⟩ := Forest.exists_node? hroot
    have hkept : (p.forest.collect held).node? root = some (l, below) :=
      (Forest.find?_keep (hdrop held rfl) _).trans hnode
    exact Forest.has_of_node? hkept
  · obtain ⟨h', -, hr', hk⟩ :=
      hr.represents.performs (hr.represents.op_performs hl fun held ho ↦ hd ⟨held, ho⟩)
    exact hr.represents.has hr' hk hroot

namespace Page

variable {p q : Page} {a : AppId} {app : App} {data : Data}

def passes (p : Page) (a : AppId) : Nat :=
  ((p.app? a).map App.passes).getD 0

/-- The application is to get a new root, and its root has no parent. -/
def refuses (p : Page) (a : AppId) : Bool :=
  ((p.app? a).map fun app ↦
    app.strategy = .destructive && (p.forest.parent? app.root).isNone).getD false

theorem passes_eq (h : p.app? a = some app) : p.passes a = app.passes := by
  rw [passes, h]
  rfl

theorem refuses_eq (h : p.app? a = some app) : p.refuses a =
    (app.strategy = .destructive && (p.forest.parent? app.root).isNone : Bool) := by
  rw [refuses, h]
  rfl

theorem clearDiagnostics_eq (h : p.app? a = some app) :
    p.clearDiagnostics a = p.setApp a { app with diagnostics := [] } := by
  simp only [clearDiagnostics, h]

theorem report_eq (h : p.app? a = some app) (d : Diagnostic) :
    p.report a d = (p.emit d).setApp a { app with diagnostics := app.diagnostics ++ [d] } := by
  simp only [report, h]

/-- An application on a page that operations have led to, with a root that is alive. -/
structure Live (p : Page) (a : AppId) (app : App) : Prop where
  reach : ∃ h, Reach p h
  app_eq : p.app? a = some app
  has : p.forest.Has app.root

/-- Nothing is changed but the diagnostics of the application, which are this one, and the log. -/
def Refused (a : AppId) (p q : Page) : Prop :=
  ∃ app, p.app? a = some app ∧ q = { p with
    apps := p.apps.set a (some { app with diagnostics := [.tree .detached] })
    log := p.log ++ [(Diagnostic.tree .detached).logLine] }

/-- The application has been rendered over the data, once more: at its root as it was, or at a new
one in the place of the former. -/
def Renewed (data : Data) (a : AppId) (p q : Page) : Prop :=
  ∃ app app', p.app? a = some app ∧ q.app? a = some app' ∧ app'.passes = app.passes + 1 ∧
    app'.template = app.template ∧ app'.strategy = app.strategy ∧ match app.strategy with
      | .inPlace => app'.root = app.root ∧
        q.forest = (Template.render data p.forest app.root).forest ∧
        app'.diagnostics = (Template.render data p.forest app.root).reports
      | .destructive => p.forest.Confined .destructive app.root q.forest app'.root ∧
        q.ShowsProjection app' data

theorem replaceRoot_of_loose (h : p.forest.WellFormed) (hroot : p.forest.Has app.root)
    (hp : p.forest.parent? app.root = none) : p.replaceRoot app = .error .detached := by
  have hlt := h.lt_next app.root hroot
  rw [replaceRoot]
  generalize freshLabel (p.forest.label app.root) = l
  generalize readFragment l.tag app.template = row
  have hnew : app.root ∉ (row.numbered (p.forest.next + 1)).ids := by
    rw [Nodes.ids_numbered, List.mem_range'_1]
    exact fun hmem ↦ Nat.not_le.2 hlt (Nat.le_of_succ_le hmem.1)
  have hparent : (p.forest.plant l row).2.parent? app.root = none := by
    rw [Forest.parent?, Forest.plant, Nodes.parent?, Nodes.any_branches_eq_false hnew,
      Nodes.parent?_eq_none hnew]
    exact hp
  have hbefore : (p.forest.plant l row).2.before app.root (p.forest.plant l row).1 =
      .error .detached := by
    rw [Forest.before, hparent]
  change (do
    let f ← (p.forest.plant l row).2.before app.root (p.forest.plant l row).1
    .ok ((p.forest.plant l row).1, f.remove app.root) : Except TreeError (NodeId × Forest)) = _
  rw [hbefore]
  rfl

theorem Live.onPage (h : p.Live a app) {o : Op} (hl : o.Legal p) (hs : o.Spares a app.root) :
    (o.onPage p).Live a app := by
  obtain ⟨hp, hr⟩ := h.reach
  refine ⟨hr.all [o] ⟨hl, trivial⟩, app?_onPage hs h.app_eq, hr.has_onPage hl ?_ h.has⟩
  rintro held rfl
  exact hs

theorem Live.eq_detached (h : p.Live a app) {error : TreeError}
    (herror : p.replaceRoot app = .error error) : error = .detached := by
  obtain ⟨hp, hr⟩ := h.reach
  have hwell := hr.represents.wellFormed
  cases hparent : p.forest.parent? app.root with
  | none =>
    rw [replaceRoot_of_loose hwell h.has hparent] at herror
    exact (Except.error.inj herror).symm
  | some q =>
    obtain ⟨F, l, below, rest, ht, ho⟩ := hwell.exists_fill_of_parent? hparent
    rw [replaceRoot_fill hwell ht ho] at herror
    cases herror

theorem Live.rerender_refused (h : p.Live a app) (data : Data) (hrefuses : p.refuses a = true) :
    Refused a p (p.rerender a data) ∧ ∃ app', (p.rerender a data).Live a app' ∧
      app'.strategy = app.strategy ∧ app'.passes = app.passes := by
  obtain ⟨hp, hr⟩ := h.reach
  rw [refuses_eq h.app_eq, Bool.and_eq_true, decide_eq_true_eq,
    Option.isNone_iff_eq_none] at hrefuses
  have herror := replaceRoot_of_loose hr.represents.wellFormed h.has hrefuses.2
  have hcleared := app?_setApp h.app_eq { app with diagnostics := [] }
  have hrerender : p.rerender a data = { p with
      apps := p.apps.set a (some { app with diagnostics := [.tree .detached] })
      log := p.log ++ [(Diagnostic.tree .detached).logLine] } := by
    have hreport : p.rerender a data = (p.clearDiagnostics a).report a (.tree .detached) := by
      simp only [rerender, h.app_eq, hrefuses.1, herror]
    rw [hreport, clearDiagnostics_eq h.app_eq, report_eq hcleared]
    simp only [setApp, emit, List.set_set, List.nil_append]
  refine ⟨⟨app, h.app_eq, hrerender⟩, { app with diagnostics := [.tree .detached] },
    ⟨hr.all [.rerender a data] ⟨trivial, trivial⟩, ?_, ?_⟩, rfl, rfl⟩
  · rw [hrerender]
    exact app?_setApp h.app_eq _
  · rw [hrerender]
    exact h.has

theorem Live.rerender_renewed (h : p.Live a app) (data : Data) (hrefuses : p.refuses a = false) :
    Renewed data a p (p.rerender a data) ∧ ∃ app', (p.rerender a data).Live a app' ∧
      app'.strategy = app.strategy ∧ app'.passes = app.passes + 1 := by
  obtain ⟨hp, hr⟩ := h.reach
  have hwell := hr.represents.wellFormed
  have hreach := hr.all [.rerender a data] ⟨trivial, trivial⟩
  cases hs : app.strategy with
  | inPlace =>
    obtain ⟨hforest, happ⟩ := rerender_inPlace h.app_eq hs data
    refine ⟨⟨app, _, h.app_eq, happ, rfl, rfl, rfl, ?_⟩, _, ⟨hreach, happ, ?_⟩, hs, rfl⟩
    · rw [hs]
      exact ⟨rfl, hforest, rfl⟩
    · exact hr.has_onPage (o := .rerender a data) trivial nofun h.has
  | destructive =>
    have hattached : (p.forest.parent? app.root).isSome = true := by
      rw [refuses_eq h.app_eq, Bool.and_eq_false_iff, decide_eq_false_iff_not] at hrefuses
      exact Option.isNone_eq_false_iff.1 (hrefuses.resolve_left fun hne ↦ hne hs)
    have hbound : p.Bound a app := ⟨hwell, h.app_eq, hs, hattached⟩
    obtain ⟨app', hb, htemplate, hpasses, -⟩ := hbound.rerender_row data
    obtain ⟨app₁, hb₁, hshows, -⟩ := hbound.rerender data
    obtain rfl : app' = app₁ := Option.some.inj (hb.app_eq.symm.trans hb₁.app_eq)
    have hmounted : p.Mounted a app := ⟨hwell, h.app_eq, hattached, hr.lower_tag app.root⟩
    obtain ⟨app₂, hm₂, -, hon, -⟩ := hmounted.rerender data
    obtain rfl : app' = app₂ := Option.some.inj (hb.app_eq.symm.trans hm₂.app_eq)
    obtain ⟨q, hq⟩ := Option.isSome_iff_exists.1 hb.attached
    rw [hs] at hon
    refine ⟨⟨app, app', h.app_eq, hb.app_eq, hpasses, htemplate, hb.destructive.trans hs.symm, ?_⟩,
      app', ⟨hreach, hb.app_eq, Forest.has_of_parent? hq⟩, hb.destructive, hpasses⟩
    rw [hs]
    exact ⟨hon.toConfined, hshows⟩

/-- An attempt is refused or is a pass, and the application is there for the next one. -/
theorem Live.rerender (h : p.Live a app) (data : Data) :
    ∃ app', (p.rerender a data).Live a app' ∧ app'.strategy = app.strategy ∧
      app'.passes + (if p.refuses a then 1 else 0) = app.passes + 1 := by
  cases hrefuses : p.refuses a with
  | true =>
    obtain ⟨-, app', hlive, hs, hpasses⟩ := h.rerender_refused data hrefuses
    exact ⟨app', hlive, hs, congrArg (· + 1) hpasses⟩
  | false =>
    obtain ⟨-, app', hlive, hs, hpasses⟩ := h.rerender_renewed data hrefuses
    exact ⟨app', hlive, hs, hpasses⟩

end Page

theorem Store.answers_of_mount {ε γ : Type} {lift : (Page → Page) → ε → ε} {a : AppId}
    (o : MountOptions γ) (allowed : Data → ε → ε → Prop) :
    (o.store lift a).Answers (fun data ↦ lift (·.rerender a data)) allowed :=
  ⟨[], rfl, nofun⟩

end LivePage
