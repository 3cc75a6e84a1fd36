import LivePage.Proofs.Forest.Confined
import LivePage.Proofs.Linked.Lower
import LivePage.Proofs.Markup.RoundTrip
import LivePage.Proofs.Page.Projection
import LivePage.Proofs.Template.Texts

namespace LivePage.Page

open Markup Template

variable {p p₁ : Page} {a : AppId} {app : App}

/-- What an application shows, and what its last pass reported. -/
def shown? (p : Page) (a : AppId) : Option (String × List Diagnostic) :=
  (p.app? a).map fun app ↦ (p.forest.inner app.root, app.diagnostics)

theorem shown?_eq (h : p.app? a = some app) :
    p.shown? a = some (p.forest.inner app.root, app.diagnostics) := by
  rw [shown?, h, Option.map_some]

theorem Bound.rerender_times (h : p.Bound a app) (data : Data) (n : Nat) :
    let tag := Text.lower (p.forest.tag app.root)
    let row := readFragment tag app.template
    let q := (fun q ↦ q.rerender a data)^[n] p
    ∃ app', q.Bound a app' ∧ app'.template = app.template ∧
      Text.lower (q.forest.tag app'.root) = tag ∧
      (0 < n → q.shown? a =
        some (Nodes.inner (.ofTag tag) (transform data row).plain, reportsIn data row)) := by
  induction n with
  | zero => exact ⟨app, h, rfl, rfl, fun hn ↦ absurd hn (Nat.lt_irrefl 0)⟩
  | succ n ih =>
    obtain ⟨app₁, hb₁, htemplate₁, htag₁, -⟩ := ih
    obtain ⟨app₂, hb₂, htemplate₂, -, htag₂, hinner, hreports⟩ := hb₁.rerender_row data
    rw [htag₁, htemplate₁] at hinner hreports
    rw [htag₁] at htag₂
    dsimp only
    rw [Function.iterate_succ_apply']
    refine ⟨app₂, hb₂, htemplate₂.trans htemplate₁, ?_, fun _ ↦ ?_⟩
    · rw [htag₂, Text.lower_lower]
    · rw [shown?_eq hb₂.app_eq, hinner, hreports]

variable {h : Heap} {d : NodeId} {γ : Type} {o : MountOptions γ} {selector : String} {root : NodeId}

/-- What an application shows after any number of re-renders without a write, if the markup of the
root is read as the tree again, however its texts are cut. -/
theorem shown?_rerender_times (hr : Reach p h) (hs : o.strategy = .destructive)
    (hroot : p.findRoot d o.el = .ok (selector, root)) (hm : p.mount d o = (.ok a, p₁))
    (hread : (readFragment (p.forest.tag root) (p.forest.inner root)).normal =
      (p.forest.below root).plain.normal) (n : Nat) :
    ((fun q ↦ q.rerender a o.data)^[n] p₁).shown? a =
      some (Nodes.inner (p.forest.label root) (transform o.data (p.forest.below root)),
        reportsIn o.data (p.forest.below root)) := by
  have hwell := hr.represents.wellFormed
  obtain ⟨selector', root', hroot', hforest, happ⟩ := app?_of_mount hm
  obtain ⟨rfl, rfl⟩ := Prod.ext_iff.1 (Except.ok.inj (hroot'.symm.trans hroot))
  have hattached := attached_of_findRoot hwell hroot
  obtain ⟨parent, hparent⟩ := Option.isSome_iff_exists.1 hattached
  obtain ⟨l, row, hnode⟩ := Forest.exists_node? (Forest.has_of_parent? hparent)
  have hlower : Text.lower l.tag = l.tag := by
    have hlower := hr.lower_tag root'
    rwa [Forest.tag, Forest.label_eq hnode] at hlower
  rw [Forest.tag, Forest.label_eq hnode, Forest.below_eq hnode] at hread
  rw [Forest.label_eq hnode, Forest.below_eq hnode]
  obtain ⟨hinner, hreports⟩ := Forest.inner_render o.data hwell hnode
  rcases Nat.eq_zero_or_pos n with rfl | hn
  · rw [Function.iterate_zero, id_eq, shown?_eq happ, hforest, hinner, hreports]
  · have hbound := bound_of_render hwell hattached hforest happ rfl hs
    obtain ⟨-, -, -, -, hshown⟩ := hbound.rerender_times o.data n
    have htag : p₁.forest.tag root' = l.tag := by
      rw [hforest, Forest.tag, Forest.label_eq (Forest.node?_render o.data hwell hnode)]
    rw [hshown hn, htag, hlower, Nodes.inner_plain, inner_transform_congr o.data hread,
      reportsIn_congr o.data hread, reportsIn_plain, ← Nodes.inner_plain, transform_plain,
      Nodes.inner_plain]
    rw [Nodes.inner, Nodes.inner, show (Label.ofTag l.tag).tag = l.tag from hlower]

/-- Re-renders without a write show what the first render showed, and report the same, if the markup
of the root is read as the tree again, however its texts are cut. -/
theorem rerender_shows_first (hr : Reach p h) (hs : o.strategy = .destructive)
    (hroot : p.findRoot d o.el = .ok (selector, root)) (hm : p.mount d o = (.ok a, p₁))
    (hread : (readFragment (p.forest.tag root) (p.forest.inner root)).normal =
      (p.forest.below root).plain.normal) (n : Nat) :
    ∃ shown, p₁.shown? a = some shown ∧
      ((fun q ↦ q.rerender a o.data)^[n] p₁).shown? a = some shown :=
  ⟨_, shown?_rerender_times hr hs hroot hm hread 0, shown?_rerender_times hr hs hroot hm hread n⟩

theorem normal_readFragment_of_simple (htag : p.forest.tag root ∈ plainTags)
    (hsimple : (p.forest.below root).Simple) :
    (readFragment (p.forest.tag root) (p.forest.inner root)).normal =
      (p.forest.below root).plain.normal := by
  rw [Forest.inner, readFragment_inner htag htag hsimple, Nodes.normal_normal]

/-- A root with simple content shows the same however often it is rendered again. -/
theorem shown?_rerender_times_of_simple (hr : Reach p h) (hs : o.strategy = .destructive)
    (hroot : p.findRoot d o.el = .ok (selector, root)) (hm : p.mount d o = (.ok a, p₁))
    (htag : p.forest.tag root ∈ plainTags) (hsimple : (p.forest.below root).Simple) (n : Nat) :
    ((fun q ↦ q.rerender a o.data)^[n] p₁).shown? a = p₁.shown? a := by
  have hread := normal_readFragment_of_simple htag hsimple
  rw [shown?_rerender_times hr hs hroot hm hread n]
  exact (shown?_rerender_times hr hs hroot hm hread 0).symm

def companyPage : Page :=
  Op.onPage {} (.parse
    "<div id=app><!--who--><ul><li>\x7b\x7bname\x7d\x7d &amp; co<li>us</ul></div>")

theorem rerender_shows_first_company :
    ∃ h p₁ shown, Reach companyPage h ∧ companyPage.mount 0 greetingOptions = (.ok 0, p₁) ∧
      shown = ("<!--who--><ul><li>World &amp; co</li><li>us</li></ul>", []) ∧
      p₁.shown? 0 = some shown ∧
      ((fun q ↦ q.rerender 0 greetingOptions.data)^[3] p₁).shown? 0 = some shown := by
  obtain ⟨h, hreach⟩ : ∃ h, Reach companyPage h := Reach.start.all [.parse _] ⟨trivial, trivial⟩
  obtain ⟨hok, hfour, hread, hshown⟩ :
      (companyPage.mount 0 greetingOptions).1.toOption = some 0 ∧
      ((companyPage.mount 0 greetingOptions).2.app? 0).map (·.root) = some 4 ∧
      (readFragment (companyPage.forest.tag 4) (companyPage.forest.inner 4)).normal =
        (companyPage.forest.below 4).plain.normal ∧
      (companyPage.mount 0 greetingOptions).2.shown? 0 =
        some ("<!--who--><ul><li>World &amp; co</li><li>us</li></ul>", []) := by
    decide +kernel
  have hmount := mount_eq hok
  obtain ⟨selector, root, hroot, -, happ⟩ := app?_of_mount hmount
  obtain rfl : root = 4 := by
    rw [happ] at hfour
    exact Option.some.inj hfour
  obtain ⟨shown, hfirst, hlater⟩ := rerender_shows_first hreach rfl hroot hmount hread 3
  exact ⟨h, _, shown, hreach, hmount, Option.some.inj (hfirst.symm.trans hshown), hfirst, hlater⟩

/-- The reader takes the content of a `noscript` as it stands, but it is written escaped. -/
def noscriptPage : Page :=
  Op.onPage {} (.parse "<div id=app><noscript>a &amp; b</noscript></div>")

theorem rerender_shows_first_noscript :
    ∃ h p₁, Reach noscriptPage h ∧ noscriptPage.mount 0 greetingOptions = (.ok 0, p₁) ∧
      p₁.shown? 0 = some ("<noscript>a &amp;amp; b</noscript>", []) ∧
      (p₁.rerender 0 greetingOptions.data).shown? 0 =
        some ("<noscript>a &amp;amp;amp; b</noscript>", []) ∧
      (p₁.rerender 0 greetingOptions.data).shown? 0 ≠ p₁.shown? 0 := by
  obtain ⟨h, hreach⟩ : ∃ h, Reach noscriptPage h := Reach.start.all [.parse _] ⟨trivial, trivial⟩
  obtain ⟨hok, hfirst, hlater⟩ :
      (noscriptPage.mount 0 greetingOptions).1.toOption = some 0 ∧
      (noscriptPage.mount 0 greetingOptions).2.shown? 0 =
        some ("<noscript>a &amp;amp; b</noscript>", []) ∧
      ((noscriptPage.mount 0 greetingOptions).2.rerender 0 greetingOptions.data).shown? 0 =
        some ("<noscript>a &amp;amp;amp; b</noscript>", []) := by
    decide +kernel
  refine ⟨h, _, hreach, mount_eq hok, hfirst, hlater, ?_⟩
  rw [hfirst, hlater]
  exact fun heq ↦ absurd (congrArg (Option.map Prod.fst) heq) (by decide)

end LivePage.Page
