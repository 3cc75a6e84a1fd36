import LivePage.Proofs.Page.Attempts

namespace LivePage

open Markup Template

/-- Surroundings that count how often a script has asked for an application to be rendered again. -/
structure Counted (ε : Type) extends Surroundings ε where
  calls : ε → Nat
  calls_lift : ∀ change e, calls (lift change e) = calls e

variable {ε : Type}

/-- What a script may do to the surroundings: ask for the application to be rendered, perform an
operation on the page that leaves the application alone, and what does not concern the page. -/
inductive Counted.Handles (v : Counted ε) (a : AppId) (data : Data) (e e' : ε) : Prop
  | call (hcalls : v.calls e' = v.calls e + 1) (hpage : v.page e' = (v.page e).rerender a data)
  | operate (hcalls : v.calls e' = v.calls e) (o : Op) (hlegal : o.Legal (v.page e))
    (hspares : ∀ app, (v.page e).app? a = some app → o.Spares a app.root)
    (hpage : v.page e' = o.onPage (v.page e))
  | rest (hcalls : v.calls e' = v.calls e) (hpage : v.page e' = v.page e)

/-- How many attempts to render are still to come for a write. -/
def Due.owed : Due → Nat
  | .nothing => 0
  | .call | .answer => 1

namespace Journal

/-- The attempts to render the application again, as answers to writes or on demand, each as the
scenes before and after it. -/
def attempts (v : Counted ε) (d : Due) (s : Scene ε) : Journal ε → List (Scene ε × Scene ε)
  | [] => []
  | x :: J =>
    if d = .answer ∨ v.calls s.2 < v.calls x.scene.2 then
      (s, x.scene) :: attempts v x.event.due x.scene J
    else attempts v x.event.due x.scene J

end Journal

variable {v : Counted ε} {a : AppId}

theorem not_attempt {d : Due} {e e' : ε} (hd : d ≠ .answer) (hcalls : v.calls e' = v.calls e) :
    ¬ (d = .answer ∨ v.calls e < v.calls e') :=
  not_or.2 ⟨hd, hcalls.not_gt⟩

/-- An entry tells of an attempt, over the data of the moment, or the application is left alone.
Each attempt is owed for a write or is a call. -/
theorem Follows.attempt {d : Due} {s : Scene ε} {x : Entry ε}
    (h : Follows (fun data ↦ v.lift (·.rerender a data)) (v.Handles a) d s x) {app : App}
    (hs : (v.page s.2).Live a app) :
    ((d = .answer ∨ v.calls s.2 < v.calls x.scene.2) ∧
        v.page x.scene.2 = (v.page s.2).rerender a s.1.data ∧
        1 + v.calls s.2 + x.event.due.owed =
          (Journal.stores [x]).length + v.calls x.scene.2 + d.owed) ∨
      ¬ (d = .answer ∨ v.calls s.2 < v.calls x.scene.2) ∧ (v.page x.scene.2).Live a app ∧
        v.calls s.2 + x.event.due.owed =
          (Journal.stores [x]).length + v.calls x.scene.2 + d.owed := by
  cases h with
  | stored name value => exact .inr ⟨not_attempt nofun rfl, hs, Nat.add_comm _ _⟩
  | first w name value =>
    exact .inr ⟨not_attempt nofun rfl, hs, congrArg (· + 1) (Nat.zero_add _).symm⟩
  | @answered store e =>
    refine .inl ⟨.inl rfl, v.page_lift _ e, ?_⟩
    change 1 + v.calls e = 0 + v.calls (v.lift (·.rerender a store.data) e) + 1
    rw [v.calls_lift]
    omega
  | called w k name value =>
    exact .inr ⟨not_attempt nofun rfl, hs, (Nat.zero_add _).symm⟩
  | returned w => exact .inr ⟨not_attempt nofun rfl, hs, (Nat.zero_add _).symm⟩
  | joined k subscriber => exact .inr ⟨not_attempt nofun rfl, hs, (Nat.zero_add _).symm⟩
  | @acted store e e' he =>
    cases he with
    | call hcalls hpage =>
      refine .inl ⟨.inr (hcalls ▸ Nat.lt_succ_self _), hpage, ?_⟩
      change 1 + v.calls e = 0 + v.calls e'
      omega
    | operate hcalls o hlegal hspares hpage =>
      refine .inr ⟨not_attempt nofun hcalls, ?_, ?_⟩
      · change (v.page e').Live a app
        rw [hpage]
        exact hs.onPage hlegal (hspares app hs.app_eq)
      · change v.calls e = 0 + v.calls e'
        omega
    | rest hcalls hpage =>
      refine .inr ⟨not_attempt nofun hcalls, ?_, ?_⟩
      · change (v.page e').Live a app
        rwa [hpage]
      · change v.calls e = 0 + v.calls e'
        omega

/-- What the attempts of a stretch of a run come to. -/
structure Accounts (v : Counted ε) (a : AppId) (d : Due) (s : Scene ε) (J : Journal ε) (d' : Due)
    (t : Scene ε) : Prop where
  live : ∃ app, (v.page t.2).Live a app
  passes : (v.page t.2).passes a + (J.attempts v d s).countP (fun x ↦ (v.page x.1.2).refuses a) =
    (v.page s.2).passes a + (J.attempts v d s).length
  made : (J.attempts v d s).length + v.calls s.2 + d'.owed =
    J.stores.length + v.calls t.2 + d.owed
  each : ∀ x ∈ J.attempts v d s, (∃ app, (v.page x.1.2).Live a app) ∧
    v.page x.2.2 = (v.page x.1.2).rerender a x.1.1.data

theorem Tells.accounts {d d' : Due} {s t : Scene ε} {J : Journal ε}
    (h : Tells (fun data ↦ v.lift (·.rerender a data)) (v.Handles a) d s J d' t) {app : App}
    (hs : (v.page s.2).Live a app) : Accounts v a d s J d' t := by
  induction h generalizing app with
  | nil => exact ⟨⟨app, hs⟩, rfl, by rw [Journal.attempts, Journal.stores]; rfl, nofun⟩
  | @cons d d' s t x J hx hJ ih =>
    have hstores : (Journal.stores (x :: J)).length =
        (Journal.stores [x]).length + J.stores.length := by
      rw [Journal.stores_cons, Journal.stores_cons, List.length_append, List.length_append]
      rfl
    rcases hx.attempt hs with ⟨hattempt, hpage, hmade⟩ | ⟨hnone, hlive, hmade⟩
    · obtain ⟨app', hlive, -, hpasses⟩ := hs.rerender s.1.data
      rw [← hpage] at hlive
      have hrest := ih hlive
      have hrestpasses := hrest.passes
      have hrestmade := hrest.made
      rw [Page.passes_eq hlive.app_eq] at hrestpasses
      refine ⟨hrest.live, ?_, ?_, ?_⟩
      · rw [Journal.attempts, if_pos hattempt, List.countP_cons, List.length_cons,
          Page.passes_eq hs.app_eq]
        dsimp only
        omega
      · rw [Journal.attempts, if_pos hattempt, List.length_cons, hstores]
        omega
      · rw [Journal.attempts, if_pos hattempt]
        exact List.forall_mem_cons.2 ⟨⟨⟨app, hs⟩, hpage⟩, hrest.each⟩
    · have hrest := ih hlive
      have hrestpasses := hrest.passes
      have hrestmade := hrest.made
      rw [Page.passes_eq hlive.app_eq, ← Page.passes_eq hs.app_eq] at hrestpasses
      refine ⟨hrest.live, ?_, ?_, ?_⟩
      · rwa [Journal.attempts, if_neg hnone]
      · rw [Journal.attempts, if_neg hnone, hstores]
        omega
      · rw [Journal.attempts, if_neg hnone]
        exact hrest.each

theorem Page.Live.of_mount {p p₁ : Page} {h : Heap} {d : NodeId} {γ : Type} {o : MountOptions γ}
    (hr : Reach p h) (hm : p.mount d o = (.ok a, p₁)) :
    ∃ app, p₁.Live a app ∧ app.passes = 1 := by
  obtain ⟨selector, root, hfound, -, happ⟩ := Page.app?_of_mount hm
  have hbelow := Forest.mem_below_of_query (Page.query_of_findRoot hfound)
  have hd := Forest.has_of_below hbelow
  let o' : MountOptions Unit := ⟨o.el, o.data, none, o.strategy⟩
  have hm' : (p.mount d o').2 = p₁ := congrArg Prod.snd hm
  have hop : (Op.mount d o').onPage p = p₁ := hm'
  have hhas := hr.has_onPage (o := .mount d o') hd nofun (Forest.has_of_mem_below hbelow)
  rw [hop] at hhas
  exact ⟨_, ⟨hop ▸ hr.all [.mount d o'] ⟨hd, trivial⟩, happ, hhas⟩, rfl⟩

/-- After any operation of a run, however deep the writes in it nest, an application has been
rendered once for its mount, once for each write and once for each call, less the attempts that its
root had no parent for. Such an attempt leaves nothing behind but its diagnostic. Any other renders
the data of the moment, and if it is to make a new root, it puts it in the place of the former
one. -/
theorem Page.passes_accounted {p p₁ : Page} {h : Heap} {d : NodeId} {γ : Type}
    {o : MountOptions γ} (hr : Reach p h) (hm : p.mount d o = (.ok a, p₁)) {e : ε}
    (he : v.page e = p₁) {depth : Nat} {script : Script ε} (hscript : script.Acts (v.Handles a))
    {s : Scene ε} (hrun : Store.perform depth script (o.store v.lift a, e) = some s) :
    ∃ J, Store.recorded depth script (o.store v.lift a, e) = some (s, J) ∧
      J.last (o.store v.lift a, e) = s ∧ J.due .nothing = .nothing ∧
      (∀ K : Journal ε, K <+: J → K.due .nothing = .nothing →
        let t := K.last (o.store v.lift a, e)
        let attempts := K.attempts v .nothing (o.store v.lift a, e)
        attempts.length + v.calls e = K.stores.length + v.calls t.2 ∧
          (v.page t.2).passes a + attempts.countP (fun x ↦ (v.page x.1.2).refuses a) +
            v.calls e = 1 + K.stores.length + v.calls t.2) ∧
      ∀ x ∈ J.attempts v .nothing (o.store v.lift a, e),
        ((v.page x.1.2).refuses a = true → Page.Refused a (v.page x.1.2) (v.page x.2.2)) ∧
        ((v.page x.1.2).refuses a = false →
          Page.Renewed x.1.1.data a (v.page x.1.2) (v.page x.2.2)) ∧
        ∀ app error, (v.page x.1.2).app? a = some app →
          (v.page x.1.2).replaceRoot app = .error error → error = .detached := by
  obtain ⟨J, hrecorded⟩ := Store.exists_recorded hrun
  obtain ⟨htells, -⟩ := Store.tells_recorded hscript (Store.answers_of_mount o _) hrecorded
  obtain ⟨app, hlive, hpasses⟩ := Page.Live.of_mount hr hm
  subst he
  refine ⟨J, hrecorded, htells.last_eq, htells.due_eq, ?_, fun x hx ↦ ?_⟩
  · rintro K ⟨L, rfl⟩ hdue
    obtain ⟨d', t, hK, -⟩ := htells.split
    obtain rfl : .nothing = d' := hdue.symm.trans hK.due_eq
    have haccounts := hK.accounts hlive
    have hcount := haccounts.passes
    have hmade := haccounts.made
    rw [Page.passes_eq (show (v.page e).app? a = some app from hlive.app_eq), hpasses] at hcount
    simp only [Due.owed, Nat.add_zero] at hmade
    dsimp only
    rw [hK.last_eq]
    exact ⟨hmade, by omega⟩
  · obtain ⟨⟨app', hlive'⟩, hpage⟩ := (htells.accounts hlive).each x hx
    rw [hpage]
    refine ⟨fun hrefuses ↦ (hlive'.rerender_refused _ hrefuses).1,
      fun hrefuses ↦ (hlive'.rerender_renewed _ hrefuses).1, fun app₁ error happ herror ↦ ?_⟩
    obtain rfl : app' = app₁ := Option.some.inj (hlive'.app_eq.symm.trans happ)
    exact hlive'.eq_detached herror

def tally : Counted (Page × Nat) :=
  ⟨⟨Prod.fst, fun change e ↦ (change e.1, e.2), fun _ _ ↦ rfl⟩, Prod.snd, fun _ _ ↦ rfl⟩

def onRoot (o : NodeId → Op) : Data → Page × Nat → Page × Nat := fun _ e ↦
  match e.1.app? 0 with
  | none => e
  | some app => if (o app.root).Legal e.1 then ((o app.root).onPage e.1, e.2) else e

/-- Writes, takes the root out, writes again, puts the root back and asks for it to be rendered. A
subscriber answers two of the writes with one more. -/
def absentScript : Script (Page × Nat) :=
  .listen (fun name _ ↦ if name = "name" then .set "again" (.bool true) else .stop)
    (.write "name" (.string "Lean") (.act (onRoot .remove) (.write "name" (.string "Kim")
      (.act (onRoot (.append 3)) (.act (fun data e ↦ (e.1.rerender 0 data, e.2 + 1)) .stop)))))

theorem handles_onRoot {o : NodeId → Op} (ho : ∀ root, (o root).Spares 0 root) (data : Data)
    (e : Page × Nat) : tally.Handles 0 data e (onRoot o data e) := by
  unfold onRoot
  split
  · exact .rest rfl rfl
  · next app happ =>
    split
    · next hlegal =>
      refine .operate rfl (o app.root) hlegal (fun app' happ' ↦ ?_) rfl
      obtain rfl : app = app' := Option.some.inj (happ.symm.trans happ')
      exact ho app.root
    · exact .rest rfl rfl

theorem Page.passes_accounted_absent :
    ∃ h p₁ s J, Reach noticePage h ∧ noticePage.mount 0 greetingOptions = (.ok 0, p₁) ∧
      Store.perform 2 absentScript (greetingOptions.store tally.lift 0, (p₁, 0)) = some s ∧
      Store.recorded 2 absentScript (greetingOptions.store tally.lift 0, (p₁, 0)) = some (s, J) ∧
      J.stores.length = 4 ∧ s.2.2 = 1 ∧ s.2.1.passes 0 = 4 ∧
      (J.attempts tally .nothing (greetingOptions.store tally.lift 0, (p₁, 0))).countP
        (fun x ↦ x.1.2.1.refuses 0) = 2 ∧
      (s.2.1.app? 0).map (fun app ↦ s.2.1.forest.outer app.root) =
        some "<div id=\"app\"><b>Kim</b></div>" := by
  obtain ⟨h, hreach⟩ : ∃ h, Reach noticePage h := Reach.start.all [.parse _] ⟨trivial, trivial⟩
  have hok : (noticePage.mount 0 greetingOptions).1.toOption = some 0 := by decide +kernel
  have hmount := mount_eq hok
  have hscript : absentScript.Acts (tally.Handles 0) := by
    refine ⟨fun name _ ↦ ?_, handles_onRoot fun _ ↦ trivial, handles_onRoot fun _ ↦ trivial,
      fun _ _ ↦ .call rfl rfl, trivial⟩
    dsimp only
    split <;> trivial
  have hrun : (Store.perform 2 absentScript (greetingOptions.store tally.lift 0,
      ((noticePage.mount 0 greetingOptions).2, 0))).map (fun s ↦ (s.2.2, s.2.1.passes 0,
        (s.2.1.app? 0).map fun app ↦ s.2.1.forest.outer app.root)) =
      some (1, 4, some "<div id=\"app\"><b>Kim</b></div>") := by
    decide +kernel
  have hwrites : (Store.recorded 2 absentScript (greetingOptions.store tally.lift 0,
      ((noticePage.mount 0 greetingOptions).2, 0))).map (fun r ↦ r.2.stores.length) = some 4 := by
    decide +kernel
  obtain ⟨s, hperform, hshown⟩ := Option.map_eq_some_iff.1 hrun
  simp only [Prod.mk.injEq] at hshown
  obtain ⟨hcalls, hpasses, houter⟩ := hshown
  obtain ⟨J, hrecorded, hlast, hdue, hcounts, -⟩ :=
    Page.passes_accounted (v := tally) hreach hmount rfl hscript hperform
  rw [hrecorded] at hwrites
  have hstores : J.stores.length = 4 := Option.some.inj hwrites
  obtain ⟨-, hcount⟩ := hcounts J List.prefix_rfl hdue
  rw [hlast] at hcount
  have hcount : s.2.1.passes 0 + (J.attempts tally .nothing (greetingOptions.store tally.lift 0,
      ((noticePage.mount 0 greetingOptions).2, 0))).countP (fun x ↦ x.1.2.1.refuses 0) + 0 =
        1 + J.stores.length + s.2.2 := hcount
  exact ⟨h, _, s, J, hreach, hmount, hperform, hrecorded, hstores, hcalls, hpasses, by omega,
    houter⟩

end LivePage
