import LivePage.Proofs.Page.Binding
import LivePage.Proofs.Template.Fate

namespace LivePage

open Markup Template

namespace Template

variable {ι : Type}

/-- No loop of the label is over a property of the data. -/
def Unbound (data : Data) (l : Label) : Prop :=
  ∀ b ∈ l.attributes, ∀ loop, Directive.parse? b.name b.value = some (.ok (.loop loop)) →
    data.get? loop.collection = none

def Unnamed (data : Data) (text : String) : Prop :=
  (pieces text.toList).any (Piece.resolves (display? data)) = false

/-- No loop in the row is over a property, and no placeholder names one in the text of an element
without elements in it. -/
def Inert (data : Data) : Nodes ι → Prop
  | .nil => True
  | .text _ rest | .comment _ rest => Inert data rest
  | .branch _ l below rest => Unbound data l ∧
    (¬ 0 < below.elementCount → Unnamed data below.textContent) ∧ Inert data below ∧
    Inert data rest

def InertIn (data : Data) (below : Nodes ι) : Prop :=
  (¬ 0 < below.elementCount → Unnamed data below.textContent) ∧ Inert data below

def Grows (earlier later : Data) : Prop :=
  ∀ name, later.get? name = none → earlier.get? name = none

theorem Grows.refl (data : Data) : Grows data data := fun _ h ↦ h

theorem Grows.trans {d₁ d₂ d₃ : Data} (h : Grows d₁ d₂) (h' : Grows d₂ d₃) : Grows d₁ d₃ :=
  fun name hnone ↦ h name (h' name hnone)

theorem grows_insert (data : Data) (name : String) (value : Value) :
    Grows data (data.insert name value) := by
  intro n hn
  by_cases h : name = n
  · rw [← h, Data.get?_insert_self] at hn
    cases hn
  · rwa [data.get?_insert_of_ne h] at hn

section

variable {data data' : Data} {row below : Nodes ι}

theorem Unnamed.of_grows (hd : Grows data data') {text : String} (h : Unnamed data' text) :
    Unnamed data text := by
  rw [Unnamed, List.any_eq_false] at h ⊢
  intro p hp
  have hnot := h p hp
  cases p with
  | literal cs => exact hnot
  | token raw name =>
    rw [Piece.resolves, Bool.not_eq_true, Option.isSome_eq_false_iff, Option.isNone_iff_eq_none,
      display?, Option.map_eq_none_iff] at hnot ⊢
    exact hd _ hnot

theorem Inert.of_grows (hd : Grows data data') (h : Inert data' row) : Inert data row := by
  induction row with
  | nil => trivial
  | text s rest ih => exact ih h
  | comment s rest ih => exact ih h
  | branch i l below rest ihb ihr =>
    obtain ⟨hloop, htext, hbelow, hrest⟩ := h
    exact ⟨fun b hb loop hparse ↦ hd _ (hloop b hb loop hparse),
      fun h₀ ↦ (htext h₀).of_grows hd, ihb hbelow, ihr hrest⟩

theorem InertIn.of_grows (hd : Grows data data') (h : InertIn data' below) : InertIn data below :=
  ⟨fun h₀ ↦ (h.1 h₀).of_grows hd, h.2.of_grows hd⟩

theorem Unbound.standIns? {l : Label} (h : Unbound data l) (below : Nodes ι) :
    standIns? data l below = none := by
  refine List.findSome?_eq_none_iff.2 fun t ht ↦ ?_
  obtain ⟨b, hb, hattempt⟩ := List.mem_filterMap.1 ht
  obtain ⟨parsed, hparse, rfl⟩ := Option.map_eq_some_iff.1 hattempt
  cases parsed with
  | error e => rfl
  | ok directive =>
    obtain ⟨loop⟩ := directive
    change (loop.generate data l.tag below).toOption = none
    rw [Loop.generate, h b hb loop hparse]
    rfl

theorem Unnamed.fillLeaf (h : Unnamed data below.textContent) :
    Template.fillLeaf data below = below := by
  rw [Unnamed] at h
  rw [Template.fillLeaf]
  simp only [h, Bool.false_eq_true, if_false]

theorem Inert.idle (h : Inert data row) : Idle data row := by
  induction row with
  | nil => trivial
  | text s rest ih => exact ih h
  | comment s rest ih => exact ih h
  | branch i l below rest ihb ihr =>
    obtain ⟨hloop, htext, hbelow, hrest⟩ := h
    refine ⟨hloop.standIns? below, ?_, ihr hrest⟩
    by_cases hpos : 0 < below.elementCount
    · exact .inl ⟨hpos, ihb hbelow⟩
    · exact .inr ⟨hpos, (htext hpos).fillLeaf⟩

theorem InertIn.idleIn (h : InertIn data below) : IdleIn data below := by
  by_cases hpos : 0 < below.elementCount
  · exact .inl ⟨hpos, h.2.idle⟩
  · exact .inr ⟨hpos, (h.1 hpos).fillLeaf⟩

end

theorem mem_ids_contentAfter {data : Data} {below : Nodes Nat} {n j : Nat}
    (h : j ∈ ((contentAfter data below).identify n).ids) : j ∈ below.ids ∨ n ≤ j := by
  rw [contentAfter] at h
  split at h
  · exact (Nodes.mem_ids_identify h).imp (mem_ids_of_mem_transform data) And.left
  · rw [Nodes.identify_map_some] at h
    exact .inl (ids_fillLeaf_subset data below h)

end Template

namespace Forest

variable {f : Forest} {root i q : NodeId} {l : Label} {below : Nodes NodeId}

theorem WellFormed.encloses_of_mem_below (h : f.WellFormed) (hi : i ∈ (f.below root).ids) :
    f.encloses i root = false := by
  obtain ⟨li, bi, hnode⟩ := exists_node? (has_of_mem_below hi)
  have hfind := h.node?_of_mem_below hi
  rw [hnode] at hfind
  have hroot := h.not_mem_below root
  rw [encloses_eq_false, below_eq hnode]
  refine ⟨?_, fun hmem ↦ hroot ((Nodes.ids_subset_of_find? hfind.symm).2 hmem)⟩
  rintro rfl
  exact hroot hi

/-- A pass keeps the label of a node that the root is not below, and what is below it too, if there
is nothing to do. -/
theorem WellFormed.render_keeps (h : f.WellFormed) (hq : f.parent? root = some q)
    (hnode : f.node? i = some (l, below)) (hout : f.encloses i root = false) (data : Data) :
    ∃ below', (Template.render data f root).forest.node? i = some (l, below') ∧
      (Template.render data f root).forest.encloses i root = false ∧
      (IdleIn data below → below' = below) := by
  have hrootlt := h.lt_next root (has_of_parent? hq)
  have hsame : ∀ {g : Forest} {b : Nodes Nat}, g.node? i = some (l, b) → root ∉ b.ids →
      g.encloses i root = false := by
    intro g b hg hb
    rw [encloses_eq_false, below_eq hg]
    exact ⟨(encloses_eq_false.1 hout).1, hb⟩
  have hroot := (encloses_eq_false.1 hout).2
  rw [below_eq hnode] at hroot
  by_cases hmem : i ∈ (f.below root).ids
  · rcases node?_render_below data h hmem hnode with ⟨-, -, n, hle, hafter⟩ | ⟨-, hafter⟩
    · refine ⟨_, hafter, hsame hafter fun hmem' ↦ ?_, fun hidle ↦ ?_⟩
      · exact (mem_ids_contentAfter hmem').elim hroot fun hn ↦
          Nat.not_le.2 hrootlt (Nat.le_trans hle hn)
      · refine (identify_contentAfter_eq_iff (h.onlyElements_of_node? hnode) fun j hj ↦ ?_).2 hidle
        rw [← below_eq hnode] at hj
        exact (h.lt_next j (has_of_mem_below hj)).trans_le hle
    · exact ⟨below, hafter, hsame hafter hroot, fun _ ↦ rfl⟩
  · obtain ⟨F, lr, br, rest, ht, ho⟩ := h.exists_fill_of_parent? hq
    obtain ⟨-, hon, hhas⟩ := Onward.render h ht ho data
    have hi := has_of_node? hnode
    have hapart := hon.apart i hi (hhas i hi)
      (encloses_eq_false.2 ⟨Ne.symm (encloses_eq_false.1 hout).1, hmem⟩)
      (encloses_eq_false.1 hout).2
    rw [hnode] at hapart
    exact ⟨below, hapart, hsame hapart hroot, fun _ ↦ rfl⟩

end Forest

namespace Page

/-- An application that is rendered in place, at a root that is in a tree. -/
structure InPlace (p : Page) (a : AppId) (root : NodeId) : Prop where
  wellFormed : p.forest.WellFormed
  app : ∃ app, p.app? a = some app ∧ app.root = root ∧ app.strategy = .inPlace
  attached : (p.forest.parent? root).isSome = true

variable {p p₁ : Page} {a : AppId} {root : NodeId}

theorem InPlace.rerender (h : p.InPlace a root) (data : Data) :
    (p.rerender a data).InPlace a root ∧
      (p.rerender a data).forest = (render data p.forest root).forest := by
  obtain ⟨app, happ, rfl, hs⟩ := h.app
  obtain ⟨q, hq⟩ := Option.isSome_iff_exists.1 h.attached
  obtain ⟨F, l, below, rest, ht, ho⟩ := h.wellFormed.exists_fill_of_parent? hq
  obtain ⟨hwell, hon, -⟩ := Forest.Onward.render h.wellFormed ht ho data
  obtain ⟨hforest, happ'⟩ := rerender_inPlace happ hs data
  refine ⟨⟨hforest ▸ hwell, ⟨_, happ', rfl, hs⟩, ?_⟩, hforest⟩
  rw [hforest, hon.parent]
  exact h.attached

theorem InPlace.of_mount {d : NodeId} {γ : Type} {o : MountOptions γ} (h : p.forest.WellFormed)
    (ho : o.strategy = .inPlace) (hm : p.mount d o = (.ok a, p₁))
    (hroot : (p₁.app? a).map App.root = some root) : p₁.InPlace a root := by
  obtain ⟨selector, hfound, hforest, happ⟩ := found_of_mount hm hroot
  have hattached := attached_of_findRoot h hfound
  obtain ⟨q, hq⟩ := Option.isSome_iff_exists.1 hattached
  obtain ⟨F, l, below, rest, ht, hown⟩ := h.exists_fill_of_parent? hq
  obtain ⟨hwell, hon, -⟩ := Forest.Onward.render h ht hown o.data
  refine ⟨hforest ▸ hwell, ⟨_, happ, rfl, ho⟩, ?_⟩
  rw [hforest, hon.parent]
  exact hattached

end Page

variable {ε : Type} {v : Surroundings ε} {a : AppId} {root : NodeId}

/-- From one moment to a later one the nodes that the root is not below keep their labels, and what
is below them if it names no property of the later moment. -/
def KeepsInert (v : Surroundings ε) (root : NodeId) (x y : Scene ε) : Prop :=
  Grows x.1.data y.1.data ∧ ∀ i l below, (v.page x.2).forest.node? i = some (l, below) →
    (v.page x.2).forest.encloses i root = false →
      ∃ below', (v.page y.2).forest.node? i = some (l, below') ∧
        (v.page y.2).forest.encloses i root = false ∧ (InertIn y.1.data below → below' = below)

theorem KeepsInert.of_eq {x y : Scene ε} (hd : Grows x.1.data y.1.data)
    (hp : v.page y.2 = v.page x.2) : KeepsInert v root x y := by
  refine ⟨hd, fun i l below hnode hout ↦ ⟨below, ?_, ?_, fun _ ↦ rfl⟩⟩
  · rwa [hp]
  · rwa [hp]

theorem KeepsInert.trans {x y z : Scene ε} (h : KeepsInert v root x y)
    (h' : KeepsInert v root y z) : KeepsInert v root x z := by
  refine ⟨h.1.trans h'.1, fun i l below hnode hout ↦ ?_⟩
  obtain ⟨below₁, hnode₁, hout₁, hsame₁⟩ := h.2 i l below hnode hout
  obtain ⟨below₂, hnode₂, hout₂, hsame₂⟩ := h'.2 i l below₁ hnode₁ hout₁
  refine ⟨below₂, hnode₂, hout₂, fun hinert ↦ ?_⟩
  -- properties are never taken away, so what names none now named none at the moment between
  obtain rfl := hsame₁ (hinert.of_grows h'.1)
  exact hsame₂ hinert

theorem Follows.keepsInert {d : Due} {s : Scene ε} {x : Entry ε}
    (hs : (v.page s.2).InPlace a root)
    (h : Follows (fun data ↦ v.lift (·.rerender a data)) (v.Renders a) d s x) :
    (v.page x.scene.2).InPlace a root ∧ KeepsInert v root s x.scene := by
  rcases h.renders with ⟨hsame, hpage | hpage⟩ | ⟨name, value, -, hinsert, hpage⟩
  · exact ⟨hpage ▸ hs, .of_eq (hsame ▸ .refl _) hpage⟩
  · obtain ⟨hplace, hforest⟩ := hs.rerender x.scene.1.data
    obtain ⟨q, hq⟩ := Option.isSome_iff_exists.1 hs.attached
    refine ⟨hpage ▸ hplace, hsame ▸ .refl _, fun i l below hnode hout ↦ ?_⟩
    obtain ⟨below', hafter, hout', hidle⟩ :=
      hs.wellFormed.render_keeps hq hnode hout x.scene.1.data
    rw [hpage, hforest]
    exact ⟨below', hafter, hout', fun hinert ↦ hidle hinert.idleIn⟩
  · exact ⟨hpage ▸ hs, .of_eq (hinsert ▸ grows_insert _ name value) hpage⟩

/-- An element below the root of an application that is rendered in place, generated by a loop or
not, keeps its label from any moment of a run to any later one. It keeps what is below it as long as
nothing in it names a property: no loop, and no placeholder in the text of an element without
elements in it. -/
theorem Page.inert_final {p p₁ : Page} {d : NodeId} {γ : Type} {o : MountOptions γ}
    (h : p.forest.WellFormed) (ho : o.strategy = .inPlace) (hm : p.mount d o = (.ok a, p₁))
    (hroot : (p₁.app? a).map App.root = some root) {e : ε} (he : v.page e = p₁) {depth : Nat}
    {script : Script ε} (hserves : script.Serves v a) {s : Scene ε}
    (hrun : Store.perform depth script (o.store v.lift a, e) = some s) :
    ∃ J, Store.recorded depth script (o.store v.lift a, e) = some (s, J) ∧
      ((o.store v.lift a, e) :: (J.map (·.scene) ++ [s])).Pairwise fun x y ↦
        ∀ i ∈ ((v.page x.2).forest.below root).ids,
          (v.page y.2).forest.Has i ∧
          (v.page y.2).forest.label i = (v.page x.2).forest.label i ∧
          (InertIn y.1.data ((v.page x.2).forest.below i) →
            (v.page y.2).forest.node? i = (v.page x.2).forest.node? i) := by
  subst he
  obtain ⟨J, hrecorded⟩ := Store.exists_recorded hrun
  obtain ⟨htells, -⟩ := Store.tells_recorded hserves.acts (Store.answers_of_mount o _) hrecorded
  have hstart := Page.InPlace.of_mount h ho hm hroot
  have htrans : IsTrans (Scene ε) fun x y ↦
      (v.page x.2).forest.WellFormed ∧ KeepsInert v root x y :=
    ⟨fun _ _ _ hxy hyz ↦ ⟨hxy.1, hxy.2.trans hyz.2⟩⟩
  have hchain := htells.isChain (I := fun x ↦ (v.page x.2).InPlace a root)
    (R := fun x y ↦ (v.page x.2).forest.WellFormed ∧ KeepsInert v root x y)
    (fun hs ↦ ⟨hs.wellFormed, .of_eq (.refl _) rfl⟩)
    (fun hs hx ↦ ⟨(hx.keepsInert hs).1, hs.wellFormed, (hx.keepsInert hs).2⟩) hstart
  refine ⟨J, hrecorded, (List.isChain_iff_pairwise.1 hchain).imp fun {x y} hxy i hi ↦ ?_⟩
  obtain ⟨hwell, -, hkeeps⟩ := hxy
  obtain ⟨l, below, hnode⟩ := Forest.exists_node? (Forest.has_of_mem_below hi)
  obtain ⟨below', hnode', -, hsame⟩ :=
    hkeeps i l below hnode (hwell.encloses_of_mem_below hi)
  refine ⟨Forest.has_of_node? hnode', ?_, fun hinert ↦ ?_⟩
  · rw [Forest.label_eq hnode, Forest.label_eq hnode']
  · rw [Forest.below_eq hnode] at hinert
    rw [hnode, hnode', hsame hinert]

def listingPage : Page :=
  { forest := ⟨.branch 0 .document (.branch 1 (.element "div" [⟨"id", "app"⟩])
      (.branch 2 (.element "p" [⟨"d-for", "x in xs"⟩])
        (.text "\x7b\x7bx\x7d\x7d \x7b\x7bname\x7d\x7d" .nil) .nil) .nil) .nil, 3⟩ }

def listingOptions : MountOptions Unit :=
  { el := some "#app", data := .ofPairs [("xs", .list [.string "a"])], strategy := .inPlace }

theorem Page.inert_final_listing :
    ∃ p₁ s, listingPage.mount 0 listingOptions = (.ok 0, p₁) ∧
      Store.perform 1 (.set "other" (.string "b")) (listingOptions.store Page.alone.lift 0, p₁) =
        some s ∧ ¬ listingPage.forest.Has 3 ∧
      p₁.forest.outer 3 = "<p>a \x7b\x7bname\x7d\x7d</p>" ∧ s.2.passes 0 = 2 ∧
      s.2.forest.node? 3 = p₁.forest.node? 3 := by
  have hwell : listingPage.forest.WellFormed := by decide +kernel
  have hok : (listingPage.mount 0 listingOptions).1.toOption = some 0 := by decide +kernel
  have hmount := mount_eq hok
  obtain ⟨hroot, hnew, hmem, hbelow, houter⟩ :
      ((listingPage.mount 0 listingOptions).2.app? 0).map App.root = some 1 ∧
      ¬ listingPage.forest.Has 3 ∧ 3 ∈ ((listingPage.mount 0 listingOptions).2.forest.below 1).ids ∧
      (listingPage.mount 0 listingOptions).2.forest.below 3 =
        .text "a \x7b\x7bname\x7d\x7d" .nil ∧
      (listingPage.mount 0 listingOptions).2.forest.outer 3 =
        "<p>a \x7b\x7bname\x7d\x7d</p>" := by
    decide +kernel
  have hrun : (Store.perform 1 (.set "other" (.string "b"))
      (listingOptions.store Page.alone.lift 0, (listingPage.mount 0 listingOptions).2)).map
        (fun s ↦ (s.2.passes 0, (pieces "a \x7b\x7bname\x7d\x7d".toList).any
          (Piece.resolves (display? s.1.data)))) = some (2, false) := by
    decide +kernel
  obtain ⟨s, hperform, hshown⟩ := Option.map_eq_some_iff.1 hrun
  obtain ⟨hpasses, hnone⟩ := Prod.mk.inj hshown
  have hserves : (Script.set "other" (.string "b")).Serves Page.alone 0 := trivial
  obtain ⟨J, -, hfinal⟩ := Page.inert_final hwell rfl hmount hroot rfl hserves hperform
  obtain ⟨-, -, hkept⟩ := (List.pairwise_cons.1 hfinal).1 s
    (List.mem_append_right _ List.mem_cons_self) 3 hmem
  refine ⟨_, s, hmount, hperform, hnew, houter, hpasses, hkept ?_⟩
  change InertIn s.1.data ((listingPage.mount 0 listingOptions).2.forest.below 3)
  rw [hbelow]
  exact ⟨fun _ ↦ hnone, trivial⟩

/-- An element that a loop has generated in the first pass is rendered again by the next one. -/
theorem Page.generated_not_final :
    ∃ p₁ s, listingPage.mount 0 (listingOptions.withValue "name" (.string "b")) = (.ok 0, p₁) ∧
      Store.perform 0 (.act (fun data p ↦ p.rerender 0 data) .stop)
        ((listingOptions.withValue "name" (.string "b")).store Page.alone.lift 0, p₁) =
          some s ∧ ¬ listingPage.forest.Has 3 ∧
      p₁.forest.outer 3 = "<p>a \x7b\x7bname\x7d\x7d</p>" ∧
      s.2.forest.outer 3 = "<p>a b</p>" := by
  set o := listingOptions.withValue "name" (.string "b")
  have hok : (listingPage.mount 0 o).1.toOption = some 0 := by decide +kernel
  refine ⟨_, _, mount_eq hok, rfl, ?_, ?_, ?_⟩
  · decide +kernel
  · decide +kernel
  · decide +kernel

end LivePage
