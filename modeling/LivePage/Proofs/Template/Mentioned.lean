import LivePage.Proofs.Template.Census
import LivePage.Proofs.Template.Tokens

namespace LivePage

open Markup

theorem Number.display_eq_of_beq {m n : Number} (h : (m == n) = true) : m.display = n.display := by
  have hzero : whole? 0 = some 0 := by decide +kernel
  cases m with
  | nan => cases h
  | infinite a =>
    cases n with
    | infinite b => rw [of_decide_eq_true h]
    | nan | finite b n => cases h
  | finite a m =>
    cases n with
    | nan | infinite b => cases h
    | finite b n =>
      obtain ⟨hrank, hsign⟩ := Bool.and_eq_true_iff.1 h
      obtain rfl := of_decide_eq_true hrank
      rcases Bool.or_eq_true_iff.1 hsign with hsign | hsign
      · rw [of_decide_eq_true hsign]
      · have hsmall : 0 < Nat.pow 10 15 := by decide
        simp only [display, of_decide_eq_true hsign, hzero, if_pos hsmall, ne_eq,
          not_true_eq_false, decide_false, Bool.and_false]

namespace Value

mutual

theorem display_eq_of_same {v w : Value} (h : same v w = true) : v.display = w.display := by
  cases v with
  | bool a => cases w <;> first | cases h | rw [of_decide_eq_true h]
  | number m => cases w <;> first | cases h | exact Number.display_eq_of_beq h
  | string s => cases w <;> first | cases h | rw [of_decide_eq_true h]
  | list xs =>
    cases w with
    | list ys => rw [display, display, displayItems_eq_of_same h]
    | _ => cases h

theorem displayItems_eq_of_same {xs ys : List Value} (h : sameItems xs ys = true) :
    displayItems xs = displayItems ys := by
  cases xs with
  | nil => cases ys <;> first | rfl | cases h
  | cons x xs =>
    cases ys with
    | nil => cases h
    | cons y ys =>
      obtain ⟨hx, hxs⟩ := Bool.and_eq_true_iff.1 h
      rw [displayItems, displayItems, display_eq_of_same hx, displayItems_eq_of_same hxs]

end

theorem displayItems_eq_map (xs : List Value) : displayItems xs = xs.map display := by
  induction xs with
  | nil => rfl
  | cons x xs ih => rw [displayItems, ih, List.map_cons]

theorem kind_eq_of_same {v w : Value} (h : same v w = true) : v.kind = w.kind := by
  cases v <;> cases w <;> first | rfl | cases h

theorem list?_eq_of_same {v w : Value} (h : same v w = true) :
    v.list?.map (List.map display) = w.list?.map (List.map display) := by
  cases v with
  | list xs =>
    cases w with
    | list ys =>
      rw [list?, list?, Option.map_some, Option.map_some, ← displayItems_eq_map,
        ← displayItems_eq_map, displayItems_eq_of_same h]
    | _ => cases h
  | _ => cases w <;> first | rfl | cases h

end Value

namespace Data

/-- Each of the names is absent from both, or has equal values. -/
def AgreeOn (d e : Data) (names : List String) : Prop :=
  ∀ name ∈ names, (d.get? name == e.get? name) = true

instance (d e : Data) (names : List String) : Decidable (d.AgreeOn e names) :=
  inferInstanceAs (Decidable (∀ name ∈ names, (d.get? name == e.get? name) = true))

theorem AgreeOn.subset {d e : Data} {names names' : List String} (h : d.AgreeOn e names)
    (hs : names' ⊆ names) : d.AgreeOn e names' :=
  fun name hname ↦ h name (hs hname)

theorem AgreeOn.get? {d e : Data} {names : List String} (h : d.AgreeOn e names) {name : String}
    (hname : name ∈ names) : d.get? name = none ∧ e.get? name = none ∨
      ∃ v w, d.get? name = some v ∧ e.get? name = some w ∧ Value.same v w = true := by
  have heq := h name hname
  cases hd : d.get? name with
  | none =>
    cases he : e.get? name with
    | none => exact .inl ⟨rfl, rfl⟩
    | some w => rw [hd, he] at heq; cases heq
  | some v =>
    cases he : e.get? name with
    | none => rw [hd, he] at heq; cases heq
    | some w => rw [hd, he] at heq; exact .inr ⟨v, w, rfl, rfl, heq⟩

end Data

namespace Template

def collection? (a : Attribute) : Option String :=
  match Directive.parse? a.name a.value with
  | some (.ok (.loop l)) => some l.collection
  | _ => none

/-- The names in the placeholders of an element's text and in its loops. -/
def mentions (l : Label) (text : String) : List String :=
  namesIn text ++ l.attributes.filterMap collection?

variable {ι : Type} {data data' : Data}

section

variable {text : String}

theorem display?_eq {names : List String} (h : data.AgreeOn data' names) {name : String}
    (hname : name ∈ names) : display? data name = display? data' name := by
  rw [display?, display?]
  obtain ⟨hd, he⟩ | ⟨v, w, hd, he, hsame⟩ := h.get? hname
  · rw [hd, he]
  · rw [hd, he, Option.map_some, Option.map_some, Value.display_eq_of_same hsame]

theorem display?_token (h : data.AgreeOn data' (namesIn text)) {raw name : List Char}
    (hp : .token raw name ∈ pieces text.toList) :
    display? data (String.ofList name) = display? data' (String.ofList name) := by
  refine display?_eq h ?_
  rw [namesIn_eq]
  exact List.mem_filterMap.2 ⟨_, hp, rfl⟩

theorem fillLeaf_of_agreeOn {below : Nodes ι}
    (h : data.AgreeOn data' (namesIn below.textContent)) :
    fillLeaf data below = fillLeaf data' below := by
  have hresolves : (pieces below.textContent.toList).any (Piece.resolves (display? data)) =
      (pieces below.textContent.toList).any (Piece.resolves (display? data')) := by
    rw [Bool.eq_iff_iff, List.any_eq_true, List.any_eq_true]
    refine exists_congr fun p ↦ and_congr_right fun hp ↦ ?_
    cases p with
    | literal cs => exact Iff.rfl
    | token raw name => rw [Piece.resolves, Piece.resolves, display?_token h hp]
  have hfill : (pieces below.textContent.toList).map (Piece.fill (display? data)) =
      (pieces below.textContent.toList).map (Piece.fill (display? data')) := by
    refine List.map_congr_left fun p hp ↦ ?_
    cases p with
    | literal cs => rfl
    | token raw name => rw [Piece.fill, Piece.fill, display?_token h hp]
  simp only [fillLeaf, hresolves, hfill]

end

section

variable {l : Label} {below : Nodes ι}

theorem map_content (loop : Loop) (tag template : String) {xs ys : List Value}
    (h : xs.map Value.display = ys.map Value.display) :
    xs.map (fun item ↦ (Label.ofTag tag, loop.content tag template item)) =
      ys.map fun item ↦ (Label.ofTag tag, loop.content tag template item) := by
  have key : ∀ zs : List Value,
      zs.map (fun item ↦ (Label.ofTag tag, loop.content tag template item)) =
        (zs.map Value.display).map fun s ↦
          (Label.ofTag tag, loop.content tag template (.string s)) := by
    intro zs
    rw [List.map_map]
    rfl
  rw [key, key, h]

theorem generate_of_same (loop : Loop) (tag : String) (below : Nodes ι)
    (h : data.AgreeOn data' [loop.collection]) :
    loop.generate data tag below = loop.generate data' tag below := by
  unfold Loop.generate
  obtain ⟨hd, he⟩ | ⟨v, w, hd, he, hsame⟩ := h.get? List.mem_cons_self
  · rw [hd, he]
  · have hitems := Value.list?_eq_of_same hsame
    simp only [hd, he, Value.kind_eq_of_same hsame]
    cases hv : v.list? with
    | none =>
      rw [hv, Option.map_none, eq_comm, Option.map_eq_none_iff] at hitems
      rw [hitems]
    | some xs =>
      rw [hv, Option.map_some, eq_comm, Option.map_eq_some_iff] at hitems
      obtain ⟨ys, hw, hxs⟩ := hitems
      have hempty : ys.isEmpty = xs.isEmpty := by
        rw [← List.isEmpty_map, hxs, List.isEmpty_map]
      simp only [hw, hempty, map_content loop tag below.textContent hxs]

theorem attempts_of_agreeOn (h : data.AgreeOn data' (l.attributes.filterMap collection?)) :
    attempts data l below = attempts data' l below := by
  refine List.filterMap_congr fun a ha ↦ ?_
  rw [attempt, attempt]
  cases hparse : Directive.parse? a.name a.value with
  | none => rfl
  | some d =>
    cases d with
    | error e => rfl
    | ok directive =>
      obtain ⟨loop⟩ := directive
      have hcollection : collection? a = some loop.collection := by rw [collection?, hparse]
      have hmem := List.mem_filterMap.2 ⟨a, ha, hcollection⟩
      exact congrArg some (generate_of_same loop l.tag below (h.subset fun name hname ↦
        List.mem_singleton.1 hname ▸ hmem))

end

/-- The whole of what a pass makes of a row, where the data agree on what each of its elements
mentions. -/
theorem transform_of_agreeOn {row : Nodes ι}
    (h : ∀ e ∈ row.subtrees, data.AgreeOn data' (mentions e.2.1 e.2.2.textContent)) :
    transform data row = transform data' row ∧ replaced data row = replaced data' row ∧
      reportsIn data row = reportsIn data' row ∧ visitedIn data row = visitedIn data' row := by
  induction row with
  | nil => exact ⟨rfl, rfl, rfl, rfl⟩
  | text s rest ih =>
    obtain ⟨ht, hrest⟩ := ih h
    exact ⟨congrArg _ ht, hrest⟩
  | comment s rest ih =>
    obtain ⟨ht, hrest⟩ := ih h
    exact ⟨congrArg _ ht, hrest⟩
  | branch i l below rest ihb ihr =>
    rw [Nodes.subtrees, List.forall_mem_cons, List.forall_mem_append] at h
    obtain ⟨hi, hbelow, hrest⟩ := h
    obtain ⟨htb, hpb, hrb, hvb⟩ := ihb hbelow
    obtain ⟨htr, hpr, hrr, hvr⟩ := ihr hrest
    have hattempts : attempts data l below = attempts data' l below :=
      attempts_of_agreeOn (hi.subset (List.subset_append_right _ _))
    have hleaf : fillLeaf data below = fillLeaf data' below :=
      fillLeaf_of_agreeOn (hi.subset (List.subset_append_left _ _))
    have hstand : standIns? data l below = standIns? data' l below := by
      rw [standIns?, hattempts, standIns?]
    have hfailures : failures data l below = failures data' l below := by
      rw [failures, hattempts, failures]
    simp only [transform, replaced, reportsIn, visitedIn, hstand, hfailures, hleaf, htb, hpb, hrb,
      hvb, htr, hpr, hrr, hvr, and_self]

end Template

namespace Forest

open Template

variable {f : Forest}

def mentioned (f : Forest) (root : NodeId) : List String :=
  (f.below root).ids.flatMap fun i ↦ mentions (f.label i) (f.textContent i)

/-- A pass tells no data apart that agree on what is mentioned below the root: in any order, with
any other names, and with equal values for the same ones. -/
theorem render_of_agreeOn (h : f.WellFormed) {data data' : Data} {root : NodeId}
    (hagree : data.AgreeOn data' (f.mentioned root)) :
    render data f root = render data' f root := by
  cases hroot : f.node? root with
  | none => rw [render_of_node? data hroot, render_of_node? data' hroot]
  | some node =>
    obtain ⟨l, row⟩ := node
    have hrow : ∀ e ∈ row.subtrees, data.AgreeOn data' (mentions e.2.1 e.2.2.textContent) := by
      rintro ⟨i, li, below⟩ he
      have hnode := h.node?_of_mem_subtrees hroot he
      have hi : i ∈ (f.below root).ids := below_eq hroot ▸ Nodes.mem_ids_of_mem_subtrees he
      refine hagree.subset fun name hname ↦ List.mem_flatMap.2 ⟨i, hi, ?_⟩
      rwa [textContent, label_eq hnode, below_eq hnode]
    obtain ⟨htransform, hreplaced, hreports, hvisited⟩ := transform_of_agreeOn hrow
    rw [render_eq_transform data h hroot, render_eq_transform data' h hroot, htransform,
      hreplaced, hreports, hvisited]

def zeroData : Data :=
  .ofPairs [("xs", .list [.number (.zero false), .string "\x7b\x7bn\x7d\x7d"]), ("n", .string "c")]

def signedZeroData : Data :=
  .ofPairs [("m", .bool true), ("n", .string "c"),
    ("xs", .list [.number (.zero true), .string "\x7b\x7bn\x7d\x7d"])]

theorem render_of_agreeOn_listPage :
    listPage.WellFormed ∧ zeroData.AgreeOn signedZeroData (listPage.mentioned 1) ∧
      render zeroData listPage 1 = render signedZeroData listPage 1 ∧
      (render signedZeroData listPage 1).forest.inner 1 =
        "<li>0</li><li>\x7b\x7bn\x7d\x7d</li>and<li>c</li>" := by
  have hpage : listPage.WellFormed := by decide +kernel
  have hagree : zeroData.AgreeOn signedZeroData (listPage.mentioned 1) := by decide +kernel
  exact ⟨hpage, hagree, render_of_agreeOn hpage hagree, by decide +kernel⟩

end Forest

end LivePage
