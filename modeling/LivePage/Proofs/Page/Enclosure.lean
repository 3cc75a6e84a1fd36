import LivePage.Proofs.Forest.Confined
import LivePage.Proofs.Linked.Lower
import LivePage.Proofs.Page.Projection
import LivePage.Proofs.Store.Course

namespace LivePage

open Markup Template
open scoped List

namespace Template

variable {ι : Type} [DecidableEq ι] (data : Data) {row : Nodes ι}

theorem present_transform_subset (h : row.OnlyElements) :
    (transform data row).present ⊆ row.ids := fun _ hi ↦
  (replaced_transform_perm data h).subset (List.mem_append_right _ hi)

end Template

namespace Forest

open Template

variable {f : Forest} {F : Frame Nat} {root q : NodeId} {l : Label} {b rest : Nodes Nat}

/-- A pass stays below the node that it is made at. -/
theorem Onward.render (h : f.WellFormed) (ht : f.trees = F.fill (.branch root l b rest))
    (ho : F.owner = some q) (data : Data) :
    (Template.render data f root).forest.WellFormed ∧
      Onward .inPlace f root (Template.render data f root).forest root ∧
      ∀ i, f.Has i → (Template.render data f root).forest.Has i := by
  obtain ⟨t, n⟩ := f
  obtain rfl := ht
  have hb := h.onlyElements_below
  have hwell := wellFormed_render_fill data h
  rw [render_fill data h] at hwell ⊢
  have hids := Nodes.ids_identify_perm (transform data b) n
  refine ⟨hwell, ?_, fun i hi ↦ ?_⟩
  · refine .of_fill h hwell rfl rfl ho (Nat.le_add_right _ _) rfl rfl (.inl ⟨rfl, rfl, ?_, ?_⟩)
    · exact fun i hi ↦ ids_replaced_subset data b hi
    · intro i hi
      rcases List.mem_append.1 (hids.mem_iff.1 hi) with hi | hi
      · exact .inl (present_transform_subset data hb hi)
      · exact .inr (List.mem_range'_1.1 hi).1
  · rcases Frame.mem_ids_fill.1 hi with hi | hi
    · simp only [Has, Nodes.ids_append, List.mem_append, Frame.mem_ids_fill]
      exact .inr (.inl hi)
    · have hkept : i ∈ b.ids → i ∈ (replaced data b).ids ∨
          i ∈ ((transform data b).identify n).ids := fun hi ↦ by
        rcases List.mem_append.1 ((replaced_transform_perm data hb).mem_iff.2 hi) with hi | hi
        · exact .inl hi
        · exact .inr (hids.mem_iff.2 (List.mem_append_left _ hi))
      simp only [Has, Nodes.ids_append, List.mem_append, Frame.mem_ids_fill, Nodes.ids,
        List.mem_cons] at hi ⊢
      tauto

end Forest

namespace Page

open Forest

variable {p q : Page} {a : AppId} {app : App}

/-- An application whose root is in a tree. The names of elements are in lower case. -/
structure Mounted (p : Page) (a : AppId) (app : App) : Prop where
  wellFormed : p.forest.WellFormed
  app_eq : p.app? a = some app
  attached : (p.forest.parent? app.root).isSome = true
  lower : Text.lower (p.forest.tag app.root) = p.forest.tag app.root

theorem Mounted.of_onward {app' : App} {s : Strategy} (h : p.Mounted a app)
    (hq : q.forest.WellFormed) (happ : q.app? a = some app')
    (hon : Onward s p.forest app.root q.forest app'.root) : q.Mounted a app' := by
  refine ⟨hq, happ, ?_, ?_⟩
  · rw [hon.parent]
    exact h.attached
  · rw [hon.tag]
    exact h.lower

theorem attribute_freshLabel (l : Label) :
    (freshLabel l).attribute? "id" = l.attribute? "id" := by
  unfold freshLabel
  cases l.attribute? "id" with
  | none => rfl
  | some id => rfl

theorem rerender_fill {F : Frame Nat} {l : Label} {b rest : Nodes Nat} {o : NodeId}
    (h : p.forest.WellFormed) (ht : p.forest.trees = F.fill (.branch app.root l b rest))
    (ho : F.owner = some o) (happ : p.app? a = some app) (hs : app.strategy = .destructive)
    (data : Data) :
    ∃ (row : Nodes Nat) (n' k : Nat),
      (p.rerender a data).forest = ⟨(replaced data row ++ .branch app.root l b .nil) ++
        F.fill (.branch p.forest.next (freshLabel l) ((transform data row).identify n') rest), k⟩ ∧
      (∀ i ∈ row.ids, p.forest.next < i ∧ i < n') ∧ p.forest.next < n' ∧ n' ≤ k ∧
      row.OnlyElements ∧ (p.rerender a data).forest.WellFormed ∧
      row.plain = readFragment (freshLabel l).tag app.template ∧
      (p.rerender a data).app? a = some { app with
        root := p.forest.next, diagnostics := reportsIn data row, passes := app.passes + 1 } := by
  have hrow := onlyElements_readFragment (freshLabel l).tag app.template
  have hreplaced := wellFormed_replaced h ht ho hrow
  obtain ⟨hforest, happ'⟩ := rerender_eq happ hs (replaceRoot_fill h ht ho) data
  have hfill : ∀ r, (Frame.after app.root l b F).fill r = .branch app.root l b (F.fill r) :=
    fun r ↦ rfl
  rw [← hfill] at hforest hreplaced happ'
  have hwell := wellFormed_render_fill data hreplaced
  rw [← hforest] at hwell
  rw [render_fill data hreplaced] at hforest happ'
  have hids : ∀ i ∈ ((readFragment (freshLabel l).tag app.template).numbered
      (p.forest.next + 1)).ids, p.forest.next < i ∧
        i < p.forest.next + 1 + (readFragment (freshLabel l).tag app.template).branchCount := by
    intro i hi
    rwa [Nodes.ids_numbered, List.mem_range'_1] at hi
  have helements := hreplaced.onlyElements_below
  have hplain := Nodes.plain_numbered (readFragment (freshLabel l).tag app.template)
    (p.forest.next + 1)
  generalize (readFragment (freshLabel l).tag app.template).numbered (p.forest.next + 1) = row at *
  have hfront : ∀ r, replaced data row ++ (Frame.after app.root l b F).fill r =
      (replaced data row ++ .branch app.root l b .nil) ++ F.fill r := fun r ↦ by
    rw [Nodes.append_assoc]
    rfl
  rw [hfront] at hforest
  exact ⟨row, _, _, hforest, hids, Nat.lt_add_right _ (Nat.lt_succ_self _), Nat.le_add_right _ _,
    helements, hwell, hplain, happ'⟩

/-- What a re-render changes is confined to the root, and no node is lost. -/
theorem Mounted.rerender (h : p.Mounted a app) (data : Data) :
    ∃ app', (p.rerender a data).Mounted a app' ∧ app'.strategy = app.strategy ∧
      Onward app.strategy p.forest app.root (p.rerender a data).forest app'.root ∧
      ∀ i, p.forest.Has i → (p.rerender a data).forest.Has i := by
  obtain ⟨q, hq⟩ := Option.isSome_iff_exists.1 h.attached
  obtain ⟨F, l, b, rest, ht, ho⟩ := h.wellFormed.exists_fill_of_parent? hq
  cases hs : app.strategy with
  | inPlace =>
    obtain ⟨hforest, happ⟩ := rerender_inPlace h.app_eq hs data
    obtain ⟨hwell, hon, hhas⟩ := Onward.render h.wellFormed ht ho data
    rw [← hforest] at hon hhas hwell
    exact ⟨_, h.of_onward hwell happ hon, hs, hon, hhas⟩
  | destructive =>
    obtain ⟨row, n', k, hforest, hnew, hn', hk, helements, hwell, -, happ⟩ :=
      rerender_fill h.wellFormed ht ho h.app_eq hs data
    have hids := Nodes.ids_identify_perm (transform data row) n'
    have htag : p.forest.tag app.root = l.tag := by
      obtain ⟨⟨t, n⟩, apps, log, last⟩ := p
      obtain rfl := ht
      rw [tag, label_fill h.wellFormed.not_mem.1]
    have hon : Onward .destructive p.forest app.root (p.rerender a data).forest p.forest.next := by
      refine .of_fill h.wellFormed hwell ht (congrArg Forest.trees hforest) ho ?_ ?_
        (attribute_freshLabel l) (.inr ⟨rfl, Nat.le_refl _, ?_, _, rfl, fun i hi ↦ ?_⟩)
      · rw [hforest]
        exact hn'.le.trans hk
      · rw [tag_freshLabel, ← htag, h.lower]
      · intro i hi
        rcases List.mem_append.1 (hids.mem_iff.1 hi) with hi | hi
        · exact (hnew i (present_transform_subset data helements hi)).1.le
        · exact hn'.le.trans (List.mem_range'_1.1 hi).1
      · exact (hnew i (ids_replaced_subset data row hi)).1.le
    refine ⟨_, h.of_onward hwell happ hon, hs, hon, fun i hi ↦ ?_⟩
    rw [Has, ht] at hi
    rw [Has, hforest]
    simp only [Nodes.ids_append, List.mem_append, Frame.mem_ids_fill, Nodes.ids, List.mem_cons,
      List.append_nil] at hi ⊢
    tauto

theorem Mounted.of_mount {p₁ : Page} {h : Heap} {d : NodeId} {γ : Type} {o : MountOptions γ}
    (hr : Reach p h) (hm : p.mount d o = (.ok a, p₁)) :
    ∃ app, p₁.Mounted a app ∧ app.strategy = o.strategy ∧
      Onward .inPlace p.forest app.root p₁.forest app.root := by
  have hwell := hr.represents.wellFormed
  obtain ⟨selector, root, hfound, hforest, happ⟩ := app?_of_mount hm
  have hattached := attached_of_findRoot hwell hfound
  obtain ⟨q, hq⟩ := Option.isSome_iff_exists.1 hattached
  obtain ⟨F, l, b, rest, ht, ho⟩ := hwell.exists_fill_of_parent? hq
  obtain ⟨hwell', hon, -⟩ := Onward.render hwell ht ho o.data
  rw [← hforest] at hwell' hon
  refine ⟨_, ⟨hwell', happ, ?_, ?_⟩, rfl, hon⟩
  · rw [hon.parent]
    exact hattached
  · rw [hon.tag]
    exact hr.lower_tag root

def Rerendered (a : AppId) (p q : Page) : Prop :=
  ∃ data, q = p.rerender a data

def Released (a : AppId) (p q : Page) : Prop :=
  ∃ app held, p.app? a = some app ∧ q = { p with forest := p.forest.collect held } ∧
    (q.forest.parent? app.root).isSome = true

def Goes (a : AppId) : Page → Page → Prop :=
  Relation.ReflTransGen fun p q ↦ Rerendered a p q ∨ Released a p q

theorem goes_of_rerenders (h : Relation.ReflTransGen (Rerendered a) p q) : Goes a p q :=
  h.lift id fun _ _ ↦ .inl

theorem Mounted.released (h : p.Mounted a app) (hq : Released a p q) :
    q.Mounted a app ∧ Onward app.strategy p.forest app.root q.forest app.root := by
  obtain ⟨app', held, happ, rfl, hlive⟩ := hq
  obtain rfl : app = app' := Option.some.inj (h.app_eq.symm.trans happ)
  have hon : Onward app.strategy p.forest app.root (p.forest.collect held) app.root :=
    .collect h.wellFormed hlive
  exact ⟨h.of_onward (h.wellFormed.collect held) h.app_eq hon, hon⟩

theorem Mounted.goes (h : p.Mounted a app) (hq : Goes a p q) :
    ∃ app', q.Mounted a app' ∧ app'.strategy = app.strategy ∧
      Onward app.strategy p.forest app.root q.forest app'.root := by
  induction hq with
  | refl => exact ⟨app, h, rfl, .refl _ _ _⟩
  | tail _ hstep ih =>
    obtain ⟨o, ho⟩ := Option.isSome_iff_exists.1 h.attached
    obtain ⟨app₁, h₁, hs₁, hon₁⟩ := ih
    obtain ⟨o₁, ho₁⟩ := Option.isSome_iff_exists.1 h₁.attached
    rcases hstep with ⟨data, rfl⟩ | hreleased
    · obtain ⟨app₂, h₂, hs₂, hon₂, -⟩ := h₁.rerender data
      rw [hs₁] at hon₂
      exact ⟨app₂, h₂, hs₂.trans hs₁, hon₁.trans h.wellFormed (has_of_parent? ho)
        (has_of_parent? ho₁) hon₂⟩
    · obtain ⟨h₂, hon₂⟩ := h₁.released hreleased
      rw [hs₁] at hon₂
      exact ⟨app₁, h₂, hs₁, hon₁.trans h.wellFormed (has_of_parent? ho)
        (has_of_parent? ho₁) hon₂⟩

theorem Mounted.has_of_rerenders (h : p.Mounted a app)
    (hq : Relation.ReflTransGen (Rerendered a) p q) {i : NodeId} (hi : p.forest.Has i) :
    (∃ app', q.Mounted a app') ∧ q.forest.Has i := by
  induction hq with
  | refl => exact ⟨⟨app, h⟩, hi⟩
  | tail _ hstep ih =>
    obtain ⟨⟨app₁, h₁⟩, hi₁⟩ := ih
    obtain ⟨data, rfl⟩ := hstep
    obtain ⟨app₂, h₂, -, -, hhas⟩ := h₁.rerender data
    exact ⟨⟨app₂, h₂⟩, hhas i hi₁⟩

end Page

variable {ε : Type} (v : Surroundings ε) (a : AppId)

def Surroundings.Renders (data : Data) (e e' : ε) : Prop :=
  v.page e' = v.page e ∨ v.page e' = (v.page e).rerender a data

variable {v a}

theorem Script.Serves.acts {script : Script ε} (h : script.Serves v a) :
    script.Acts (v.Renders a) := by
  induction script with
  | stop => trivial
  | look next ih => exact fun data e ↦ ih data e (h data e)
  | act change next ih => exact ⟨h.1, ih h.2⟩
  | write name value next ih => exact ih h
  | listen subscriber next ihs ih =>
    exact ⟨fun name value ↦ ihs name value (h.1 name value), ih h.2⟩

theorem Store.acts_of_mount {γ : Type} (o : MountOptions γ) :
    (o.store v.lift a).Acts (v.Renders a) := by
  intro subscriber hmem name value
  obtain rfl := List.mem_singleton.1 hmem
  exact (App.serves_rerenders v a name value).acts

theorem Script.Serves.pairwise {script : Script ε} (h : script.Serves v a) {s s' : Scene ε}
    (hs : s.1.Acts (v.Renders a)) {depth : Nat} {J : Journal ε}
    (hrun : Store.recorded depth script s = some (s', J)) :
    s'.1.Acts (v.Renders a) ∧ (s :: (J.map (·.scene) ++ [s'])).Pairwise fun x y ↦
      Relation.ReflTransGen (Page.Rerendered a) (v.page x.2) (v.page y.2) := by
  obtain ⟨hcourse, hs'⟩ := Store.course_recorded h.acts hs hrun
  let R : ε → ε → Prop := fun e e' ↦
    Relation.ReflTransGen (Page.Rerendered a) (v.page e) (v.page e')
  have hR : ∀ data e e', v.Renders a data e e' → R e e' := by
    rintro data e e' (he | he)
    · exact .trans (he ▸ .refl) .refl
    · exact .single ⟨data, he⟩
  have hchain := hcourse.isChain (fun e ↦ (.refl : R e e)) hR
  have htrans : IsTrans (Scene ε) fun x y ↦ R x.2 y.2 := ⟨fun _ _ _ hxy hyz ↦ hxy.trans hyz⟩
  exact ⟨hs', List.isChain_iff_pairwise.1 hchain⟩

theorem pairwise_glue {α : Type} {R : α → α → Prop} [IsTrans α R] {l m : List α} {x : α}
    (hl : (l ++ [x]).Pairwise R) (hm : (x :: m).Pairwise R) : (l ++ m).Pairwise R := by
  have hall := List.isChain_iff_pairwise.1
    (List.isChain_split.2 ⟨List.isChain_iff_pairwise.2 hl, List.isChain_iff_pairwise.2 hm⟩)
  exact hall.sublist ((List.sublist_cons_self x m).append_left l)

theorem AppRun.pairwise {s₀ s : Scene ε} {os : List (AppOp ε)} (h₀ : s₀.1.Acts (v.Renders a))
    (h : AppRun v a s₀ os s) :
    ∃ J, AppOp.recordAll v os s₀ = some (s, J) ∧ s.1.Acts (v.Renders a) ∧
      ((s₀ :: J.map (·.scene)) ++ [s]).Pairwise fun x y ↦
        Page.Goes a (v.page x.2) (v.page y.2) := by
  have htrans : IsTrans (Scene ε) fun x y ↦ Page.Goes a (v.page x.2) (v.page y.2) :=
    ⟨fun _ _ _ hxy hyz ↦ hxy.trans hyz⟩
  induction h with
  | start => exact ⟨[], rfl, h₀, List.pairwise_pair.2 .refl⟩
  | perform _ hserves hperform ih =>
    obtain ⟨J, hJ, hacts, hpairs⟩ := ih
    obtain ⟨K, hK⟩ := Store.exists_recorded hperform
    obtain ⟨hs', hscript⟩ := hserves.pairwise hacts hK
    refine ⟨J ++ K, AppOp.recordAll_concat hJ hK, hs', ?_⟩
    rw [List.map_append, ← List.cons_append, List.append_assoc]
    exact pairwise_glue hpairs (hscript.imp Page.goes_of_rerenders)
  | @release _ store e app held _ happ _ hlive ih =>
    obtain ⟨J, hJ, hacts, hpairs⟩ := ih
    have hrecord := AppOp.recordAll_concat (o := .release held) hJ rfl
    rw [List.append_nil] at hrecord
    refine ⟨J, hrecord, hacts, pairwise_glue hpairs (List.pairwise_pair.2 ?_)⟩
    refine .single (.inr ⟨app, held, happ, v.page_lift _ e, ?_⟩)
    rwa [v.page_lift]

/-- Every node outside of the root of an application keeps its label and its row from any moment of a
run to any later one, but for the place of a root that is made anew: it is taken by a root with the
same name and identifier. A former root has no parent, and nothing in it is changed any more. -/
theorem Page.changes_confined {p p₁ : Page} {h : Heap} {d : NodeId} {γ : Type}
    {o : MountOptions γ} (hr : Reach p h) (hm : p.mount d o = (.ok a, p₁)) {e : ε}
    (he : v.page e = p₁) {os : List (AppOp ε)} {s : Scene ε}
    (hrun : AppRun v a (o.store v.lift a, e) os s) :
    (∃ app, p₁.app? a = some app ∧ p.forest.Confined .inPlace app.root p₁.forest app.root) ∧
      (∃ J, AppOp.recordAll v os (o.store v.lift a, e) = some (s, J) ∧
        (((o.store v.lift a, e) :: J.map (·.scene)) ++ [s]).Pairwise (fun x y ↦
          ∃ app app', (v.page x.2).app? a = some app ∧ (v.page y.2).app? a = some app' ∧
            (v.page x.2).forest.Confined o.strategy app.root (v.page y.2).forest app'.root)) ∧
      ∀ depth script s', script.Serves v a → Store.perform depth script s = some s' →
        ∀ i, (v.page s.2).forest.Has i → (v.page s'.2).forest.Has i := by
  obtain ⟨app, hmounted, hs, hon⟩ := Mounted.of_mount hr hm
  obtain ⟨J, hrecord, hacts, hpairs⟩ := hrun.pairwise (Store.acts_of_mount o)
  subst he
  have hall : ∀ x ∈ ((o.store v.lift a, e) :: J.map (·.scene)) ++ [s],
      ∃ app', (v.page x.2).Mounted a app' ∧ app'.strategy = o.strategy := by
    intro x hx
    rw [List.cons_append] at hx hpairs
    rcases List.mem_cons.1 hx with rfl | hx
    · exact ⟨app, hmounted, hs⟩
    · obtain ⟨app', hmounted', hs', -⟩ := hmounted.goes ((List.pairwise_cons.1 hpairs).1 x hx)
      exact ⟨app', hmounted', hs'.trans hs⟩
  refine ⟨⟨app, hmounted.app_eq, hon.toConfined⟩,
    ⟨J, hrecord, hpairs.imp_of_mem fun hx _ hgoes ↦ ?_⟩, ?_⟩
  · obtain ⟨app₁, h₁, hs₁⟩ := hall _ hx
    obtain ⟨app₂, h₂, -, hon⟩ := h₁.goes hgoes
    exact ⟨app₁, app₂, h₁.app_eq, h₂.app_eq, hs₁ ▸ hon.toConfined⟩
  · intro depth script s' hserves hperform i hi
    obtain ⟨app₁, h₁, -⟩ := hall s (List.mem_append_right _ List.mem_cons_self)
    obtain ⟨K, hK⟩ := Store.exists_recorded hperform
    obtain ⟨-, hscript⟩ := hserves.pairwise hacts hK
    have hgoes := (List.pairwise_cons.1 hscript).1 s' (List.mem_append_right _ List.mem_cons_self)
    exact (h₁.has_of_rerenders hgoes hi).2

def noticePage : Page :=
  Op.onPage {} (.parse "<p>one</p><div id=app class=x><b>\x7b\x7bname\x7d\x7d</b></div>two")

theorem Page.changes_confined_notice :
    ∃ h p₁ s app, Reach noticePage h ∧ noticePage.mount 0 greetingOptions = (.ok 0, p₁) ∧
      Store.perform 2 greetingScript (greetingOptions.store Page.alone.lift 0, p₁) = some s ∧
      AppRun Page.alone 0 (greetingOptions.store Page.alone.lift 0, p₁)
        [.perform 2 greetingScript] s ∧
      s.2.app? 0 = some app ∧ app.root ≠ 5 ∧ s.2.forest.parent? 5 = none ∧
      s.2.forest.parent? app.root = some 3 ∧
      (s.2.forest.below 3).items = [.branch 4, .branch app.root, .text "two"] := by
  obtain ⟨h, hreach⟩ : ∃ h, Reach noticePage h := Reach.start.all [.parse _] ⟨trivial, trivial⟩
  obtain ⟨hok, hfirst, hparent, hhas, houtside, hbefore⟩ :
      (noticePage.mount 0 greetingOptions).1.toOption = some 0 ∧
      ((noticePage.mount 0 greetingOptions).2.app? 0).map (·.root) = some 5 ∧
      (noticePage.mount 0 greetingOptions).2.forest.parent? 5 = some 3 ∧
      (noticePage.mount 0 greetingOptions).2.forest.Has 3 ∧
      (noticePage.mount 0 greetingOptions).2.forest.encloses 5 3 = false ∧
      ((noticePage.mount 0 greetingOptions).2.forest.below 3).items =
        [.branch 4, .branch 5, .text "two"] := by
    decide +kernel
  have hmount := mount_eq hok
  set p₁ := (noticePage.mount 0 greetingOptions).2 with hp₁
  have hrun : ((Store.perform 2 greetingScript (greetingOptions.store Page.alone.lift 0,
      p₁)).bind fun s ↦ (s.2.app? 0).map fun app ↦
        (app.root ≠ 5 : Bool) && s.2.forest.Has 3) = some true := by
    decide +kernel
  obtain ⟨s, hperform, happ⟩ := Option.bind_eq_some_iff.1 hrun
  obtain ⟨app, happ, hroot⟩ := Option.map_eq_some_iff.1 happ
  simp only [Bool.and_eq_true, decide_eq_true_eq] at hroot
  have hstart : AppRun Page.alone 0 (greetingOptions.store Page.alone.lift 0, p₁) []
    (greetingOptions.store Page.alone.lift 0, p₁) := .start
  have happrun := hstart.perform serves_greetingScript hperform
  obtain ⟨-, ⟨J, -, hmoments⟩, -⟩ := Page.changes_confined hreach hmount (v := Page.alone) rfl happrun
  rw [List.cons_append, List.pairwise_cons] at hmoments
  obtain ⟨app₁, app₂, happ₁, happ₂, hconfined⟩ :=
    hmoments.1 s (List.mem_append_right _ List.mem_cons_self)
  obtain rfl : app = app₂ := Option.some.inj (happ.symm.trans happ₂)
  have hroot₁ : app₁.root = 5 := by
    rw [show p₁.app? 0 = some app₁ from happ₁] at hfirst
    exact Option.some.inj hfirst
  rw [hroot₁] at hconfined
  obtain ⟨-, hitems⟩ := hconfined.outside 3 hhas hroot.2 houtside
  exact ⟨h, p₁, s, app, hreach, hmount, hperform, happrun, happ, hroot.1, hconfined.retired hroot.1,
    hconfined.parent.trans hparent,
    hitems.trans (congrArg (List.map (Item.swap 5 app.root)) hbefore)⟩

end LivePage
