import LivePage.Proofs.Store.Journal
import Mathlib.Data.List.Infix

namespace LivePage

variable {ε : Type}

/-- The call that an entry is of the write `w`: the subscriber, the name and the value. -/
def Entry.callOf? (w : Nat) (x : Entry ε) : Option (Nat × String × Value) :=
  match x.event with
  | .called u k name value => if u = w then some (k, name, value) else none
  | _ => none

def Event.Leads : Event → Store ε → Store ε → Prop
  | stored name value, s, t => t = s.put name value
  | joined k, s, t => k = s.subscribers.length ∧ ∃ subscriber, t = s.subscribe subscriber
  | _, s, t => t = s

namespace Journal

variable {J K : Journal ε}

def calls (w : Nat) (J : Journal ε) : List (Nat × String × Value) :=
  J.filterMap (·.callOf? w)

def stores (J : Journal ε) : List (String × Value) :=
  J.filterMap fun x ↦ match x.event with
    | .stored name value => some (name, value)
    | _ => none

/-- The entries lead from one store to another, and tell all that happens to it. -/
def Leads : Store ε → Journal ε → Store ε → Prop
  | s, [], t => t = s
  | s, x :: J, t => x.event.Leads s x.scene.1 ∧ Leads x.scene.1 J t

def Silent (w : Nat) (J : Journal ε) : Prop :=
  ∀ x ∈ J, x.event.write? ≠ some w

/-- The entry of each call for the write `w` is followed by the journal of what the script of this
subscriber does with the name and the value, up to the entry of the next call. The first subscriber
is number `k`, and its entry has the position `p`. -/
inductive Answered (depth w : Nat) (name : String) (value : Value) :
    Nat → Nat → List (Subscriber ε) → Scene ε → Journal ε → Scene ε → Prop
  | nil (p k : Nat) (s : Scene ε) : Answered depth w name value p k [] s [] s
  | cons {p k : Nat} {subscriber : Subscriber ε} {rest : List (Subscriber ε)} {s t u : Scene ε}
    {K L : Journal ε} (hperform : Store.perform depth (subscriber name value) s = some t)
    (hrecord : (subscriber name value).record (Store.recordWrite depth) (p + 1) s = some (t, K))
    (hrest : Answered depth w name value (p + 1 + K.length) (k + 1) rest t L u) :
    Answered depth w name value p k (subscriber :: rest) s
      (⟨.called w k name value, s⟩ :: (K ++ L)) u

/-- What comes after the entry of the write `w` that stores its value, in a scene `t`: the calls of
the subscribers that are there then, in order, with nothing in front of the first, each followed by
what the subscriber does; the return; and nothing more of this write. -/
def Notifies (w : Nat) (name : String) (value : Value) (t : Scene ε) (J : Journal ε) : Prop :=
  ∃ during last later, J = during ++ ⟨.returned w, last⟩ :: later ∧
    (∃ depth, Answered depth w name value (w + 1) 0 t.1.subscribers t during last) ∧
    calls w during = (List.range t.1.subscribers.length).map (·, name, value) ∧
    (∀ x, during.head? = some x → x = ⟨.called w 0 name value, t⟩) ∧
    (∀ x ∈ during, x.event ≠ .returned w) ∧ Silent w later

theorem leads_append {s t u : Store ε} (hJ : Leads s J t) (hK : Leads t K u) :
    Leads s (J ++ K) u := by
  induction J generalizing s with
  | nil =>
    obtain rfl : t = s := hJ
    exact hK
  | cons x J ih => exact ⟨hJ.1, ih hJ.2⟩

theorem leads_split {s u : Store ε} (h : Leads s (J ++ K) u) : ∃ t, Leads s J t ∧ Leads t K u := by
  induction J generalizing s with
  | nil => exact ⟨s, rfl, h⟩
  | cons x J ih =>
    obtain ⟨t, hJ, hK⟩ := ih h.2
    exact ⟨t, ⟨h.1, hJ⟩, hK⟩

theorem split_append {x : Entry ε} {a c : Journal ε} (h : J ++ K = a ++ x :: c) :
    (∃ c', J = a ++ x :: c' ∧ c = c' ++ K) ∨ ∃ a', a = J ++ a' ∧ K = a' ++ x :: c := by
  rcases List.append_eq_append_iff.1 h with ⟨a', ha, hK⟩ | ⟨c', hJ, hc⟩
  · exact .inr ⟨a', ha, hK⟩
  · cases c' with
    | nil => exact .inr ⟨[], by rw [hJ, List.append_nil, List.append_nil], hc.symm⟩
    | cons y c' =>
      obtain ⟨rfl, rfl⟩ := List.cons.inj hc
      exact .inl ⟨c', hJ, rfl⟩

/-- A stretch of a journal from the position `p` on. Its entries are parts of writes that begin in
it, or of the write `outer` that it is itself a part of. -/
structure Stretch (outer : Option Nat) (p : Nat) (s : Store ε) (J : Journal ε) (s' : Store ε) :
    Prop where
  numbers : ∀ x ∈ J, ∀ u, x.event.write? = some u → outer = some u ∨ p ≤ u ∧ u < p + J.length
  leads : Leads s J s'
  writes : ∀ a name value t c, J = a ++ ⟨.stored name value, t⟩ :: c →
    Silent (p + a.length) a ∧ Notifies (p + a.length) name value t c

namespace Stretch

variable {outer : Option Nat} {p : Nat} {s t u : Store ε}

theorem nil (s : Store ε) : Stretch outer p s [] s where
  numbers x hx := absurd hx List.not_mem_nil
  leads := rfl
  writes a name value t c h := by cases a <;> cases h

theorem widen (h : Stretch none p s J t) : Stretch outer p s J t where
  numbers x hx u hu := by
    rcases h.numbers x hx u hu with h₀ | h₀
    · cases h₀
    · exact .inr h₀
  leads := h.leads
  writes := h.writes

theorem single {x : Entry ε} (hx : x.event.Leads s x.scene.1)
    (hs : ∀ name value, x.event ≠ .stored name value)
    (ho : ∀ u, x.event.write? = some u → outer = some u) : Stretch outer p s [x] x.scene.1 where
  numbers y hy u hu := by
    obtain rfl := List.mem_singleton.1 hy
    exact .inl (ho u hu)
  leads := ⟨hx, rfl⟩
  writes a name value t c h := by
    have hmem : (⟨.stored name value, t⟩ : Entry ε) ∈ [x] := by rw [h]; simp
    obtain rfl := List.mem_singleton.1 hmem
    exact absurd rfl (hs name value)

theorem append (hJ : Stretch outer p s J t) (hK : Stretch outer (p + J.length) t K u)
    (ho : ∀ w, outer = some w → w < p) : Stretch outer p s (J ++ K) u where
  numbers x hx w hw := by
    rw [List.length_append]
    rcases List.mem_append.1 hx with hx | hx
    · rcases hJ.numbers x hx w hw with h | h
      · exact .inl h
      · exact .inr ⟨h.1, by omega⟩
    · rcases hK.numbers x hx w hw with h | h
      · exact .inl h
      · exact .inr ⟨by omega, by omega⟩
  leads := leads_append hJ.leads hK.leads
  writes a name value v c h := by
    rcases split_append h with ⟨c', rfl, rfl⟩ | ⟨a', rfl, rfl⟩
    · obtain ⟨hbefore, during, last, later, rfl, hanswered, hcalls, hhead, hreturned, hlater⟩ :=
        hJ.writes a name value v c' rfl
      refine ⟨hbefore, during, last, later ++ K, by simp, hanswered, hcalls, hhead, hreturned, ?_⟩
      intro x hx hw
      rcases List.mem_append.1 hx with hx | hx
      · exact hlater x hx hw
      · rcases hK.numbers x hx _ hw with h | h
        · have := ho _ h
          omega
        · simp only [List.length_append, List.length_cons] at h
          omega
    · obtain ⟨hbefore, hafter⟩ := hK.writes a' name value v c rfl
      rw [List.length_append, ← Nat.add_assoc]
      refine ⟨fun x hx hw ↦ ?_, hafter⟩
      rcases List.mem_append.1 hx with hx | hx
      · rcases hJ.numbers x hx _ hw with h | h
        · have := ho _ h
          omega
        · omega
      · exact hbefore x hx hw

theorem cons {x : Entry ε} (hx : x.event.Leads s x.scene.1)
    (hs : ∀ name value, x.event ≠ .stored name value)
    (ho : ∀ u, x.event.write? = some u → outer = some u)
    (hJ : Stretch outer (p + 1) x.scene.1 J t) (hlt : ∀ w, outer = some w → w < p) :
    Stretch outer p s (x :: J) t :=
  (single hx hs ho).append hJ hlt

end Stretch

@[simp] theorem calls_append (w : Nat) (J K : Journal ε) :
    calls w (J ++ K) = calls w J ++ calls w K :=
  List.filterMap_append

theorem calls_eq_nil {w : Nat} (h : Silent w J) : calls w J = [] := by
  refine List.filterMap_eq_nil_iff.2 fun x hx ↦ ?_
  have hw := h x hx
  unfold Entry.callOf?
  split
  · next heq =>
    rw [if_neg]
    rintro rfl
    exact hw (by rw [heq]; rfl)
  · rfl

theorem Stretch.silent {p w : Nat} {s t : Store ε} (h : Stretch none p s J t) (hw : w < p) :
    Silent w J := by
  intro x hx hu
  rcases h.numbers x hx w hu with h₀ | h₀
  · cases h₀
  · omega

end Journal

open Journal

theorem Script.stretch_record
    {write : Nat → String → Value → Scene ε → Option (Recorded ε)}
    (hwrite : ∀ {p name value s s' J}, write p name value s = some (s', J) →
      Stretch none p s.1 J s'.1)
    {script : Script ε} {p : Nat} {s s' : Scene ε} {J : Journal ε}
    (h : script.record write p s = some (s', J)) : Stretch none p s.1 J s'.1 := by
  induction script generalizing p s J with
  | stop =>
    obtain ⟨rfl, rfl⟩ := Prod.ext_iff.1 (Option.some.inj h)
    exact .nil _
  | look next ih => exact ih _ _ h
  | act change next ih =>
    obtain ⟨⟨s₁, K⟩, hK, hr⟩ := Option.map_eq_some_iff.1 h
    obtain ⟨rfl, rfl⟩ := Prod.ext_iff.1 hr
    exact .cons rfl (fun _ _ ↦ nofun) nofun (ih hK) nofun
  | write name value next ih =>
    obtain ⟨⟨s₁, K⟩, hK, hr⟩ := Option.bind_eq_some_iff.1 h
    obtain ⟨⟨s₂, L⟩, hL, hr⟩ := Option.map_eq_some_iff.1 hr
    obtain ⟨rfl, rfl⟩ := Prod.ext_iff.1 hr
    exact (hwrite hK).append (ih hL) nofun
  | listen subscriber next _ ih =>
    obtain ⟨⟨s₁, K⟩, hK, hr⟩ := Option.map_eq_some_iff.1 h
    obtain ⟨rfl, rfl⟩ := Prod.ext_iff.1 hr
    exact .cons ⟨rfl, subscriber, rfl⟩ (fun _ _ ↦ nofun) nofun (ih hK) nofun

namespace Store

/-- The calls for one write, from the subscriber number `k` on. -/
theorem stretch_recordCalls
    {write : Nat → String → Value → Scene ε → Option (Recorded ε)}
    (hwrite : ∀ {p name value s s' J}, write p name value s = some (s', J) →
      Stretch none p s.1 J s'.1)
    {w p k : Nat} {name : String} {value : Value} {subscribers : List (Subscriber ε)}
    {s s' : Scene ε} {J : Journal ε} (hp : w < p)
    (h : recordCalls write w name value p k subscribers s = some (s', J)) :
    Stretch (some w) p s.1 J s'.1 ∧
      calls w J = (List.range' k subscribers.length).map (·, name, value) ∧
      (∀ x, J.head? = some x → x = ⟨.called w k name value, s⟩) ∧
      ∀ x ∈ J, x.event ≠ .returned w := by
  induction subscribers generalizing p k s J with
  | nil =>
    obtain ⟨rfl, rfl⟩ := Prod.ext_iff.1 (Option.some.inj h)
    exact ⟨.nil _, rfl, nofun, nofun⟩
  | cons subscriber rest ih =>
    obtain ⟨⟨s₁, K⟩, hK, hr⟩ := Option.bind_eq_some_iff.1 h
    obtain ⟨⟨s₂, L⟩, hL, hr⟩ := Option.map_eq_some_iff.1 hr
    obtain ⟨rfl, rfl⟩ := Prod.ext_iff.1 hr
    have hscript := Script.stretch_record hwrite hK
    obtain ⟨hrest, hcalls, -, hreturned⟩ := ih (by omega) hL
    have hsilent : Silent w K := hscript.silent (by omega)
    have hlt : ∀ u, some w = some u → u < p + 1 := by
      intro u hu
      obtain rfl := Option.some.inj hu
      omega
    refine ⟨?_, ?_, ?_, ?_⟩
    · refine .cons rfl (fun _ _ ↦ nofun) (fun u hu ↦ hu) (hscript.widen.append hrest hlt) ?_
      intro u hu
      obtain rfl := Option.some.inj hu
      exact hp
    · have hfirst : calls w (⟨.called w k name value, s⟩ :: (K ++ L)) =
          (k, name, value) :: calls w (K ++ L) := by
        rw [calls, List.filterMap_cons_some]
        · rfl
        · exact if_pos rfl
      rw [hfirst, calls_append, calls_eq_nil hsilent, hcalls, List.length_cons, List.range'_succ]
      rfl
    · intro x hx
      exact (Option.some.inj hx).symm
    · intro x hx hr
      rcases List.mem_cons.1 hx with rfl | hx
      · cases hr
      · rcases List.mem_append.1 hx with hx | hx
        · exact hsilent x hx (by rw [hr]; rfl)
        · exact hreturned x hx hr

theorem answered_recordCalls {depth w p k : Nat} {name : String} {value : Value}
    {subscribers : List (Subscriber ε)} {s s' : Scene ε} {J : Journal ε}
    (h : recordCalls (recordWrite depth) w name value p k subscribers s = some (s', J)) :
    Answered depth w name value p k subscribers s J s' := by
  induction subscribers generalizing p k s J with
  | nil =>
    obtain ⟨rfl, rfl⟩ := Prod.ext_iff.1 (Option.some.inj h)
    exact .nil p k s
  | cons subscriber rest ih =>
    obtain ⟨⟨t, K⟩, hK, hr⟩ := Option.bind_eq_some_iff.1 h
    obtain ⟨⟨u, L⟩, hL, hr⟩ := Option.map_eq_some_iff.1 hr
    obtain ⟨rfl, rfl⟩ := Prod.ext_iff.1 hr
    have hperform : perform depth (subscriber name value) s = some t := by
      have hfst := Script.record_fst (recordWrite_fst depth) (subscriber name value) (p + 1) s
      rw [hK] at hfst
      exact hfst.symm
    exact .cons hperform hK (ih hL)

theorem stretch_write {p : Nat} {name : String} {value : Value} {s : Store ε} {e : ε}
    {t : Scene ε} {J : Journal ε} (hJ : Stretch (some p) (p + 1) (s.put name value) J t.1)
    (hanswered : ∃ depth,
      Answered depth p name value (p + 1) 0 s.subscribers (s.put name value, e) J t)
    (hcalls : calls p J = (List.range s.subscribers.length).map (·, name, value))
    (hhead : ∀ x, J.head? = some x → x = ⟨.called p 0 name value, (s.put name value, e)⟩)
    (hreturned : ∀ x ∈ J, x.event ≠ .returned p) :
    Stretch none p s (⟨.stored name value, (s.put name value, e)⟩ :: (J ++ [⟨.returned p, t⟩]))
      t.1 where
  numbers x hx u hu := by
    simp only [List.length_cons, List.length_append, List.length_nil]
    rcases List.mem_cons.1 hx with rfl | hx
    · cases hu
    · rcases List.mem_append.1 hx with hx | hx
      · rcases hJ.numbers x hx u hu with h | h
        · obtain rfl := Option.some.inj h
          exact .inr (by omega)
        · exact .inr (by omega)
      · obtain rfl := List.mem_singleton.1 hx
        obtain rfl := Option.some.inj hu
        exact .inr (by omega)
  leads := ⟨rfl, leads_append hJ.leads ⟨rfl, rfl⟩⟩
  writes a name' value' v c h := by
    cases a with
    | nil =>
      obtain ⟨hx, rfl⟩ := List.cons.inj h
      obtain ⟨⟨rfl, rfl⟩, rfl⟩ := Entry.mk.injEq .. ▸ hx
      exact ⟨nofun, J, t, [], rfl, hanswered, hcalls, hhead, hreturned, nofun⟩
    | cons y a =>
      obtain ⟨rfl, htail⟩ := List.cons.inj h
      rcases split_append htail with ⟨c', rfl, rfl⟩ | ⟨a', rfl, hlast⟩
      · obtain ⟨hbefore, during, last, later, rfl, hanswered', hcalls', hhead', hreturned', hlater⟩ :=
          hJ.writes a name' value' v c' rfl
        have hposition : p + (a.length + 1) = p + 1 + a.length := by omega
        rw [List.length_cons, hposition]
        refine ⟨fun x hx hw ↦ ?_, during, last, later ++ [⟨.returned p, t⟩], by simp, hanswered',
          hcalls', hhead', hreturned', fun x hx hw ↦ ?_⟩
        · rcases List.mem_cons.1 hx with rfl | hx
          · cases hw
          · exact hbefore x hx hw
        · rcases List.mem_append.1 hx with hx | hx
          · exact hlater x hx hw
          · obtain rfl := List.mem_singleton.1 hx
            have := Option.some.inj hw
            omega
      · cases a' with
        | nil => cases hlast
        | cons z a' =>
          obtain ⟨-, hnil⟩ := List.cons.inj hlast
          cases a' <;> cases hnil

theorem stretch_recordWrite {depth p : Nat} {name : String} {value : Value} {s s' : Scene ε}
    {J : Journal ε} (h : recordWrite depth p name value s = some (s', J)) :
    Stretch none p s.1 J s'.1 := by
  induction depth generalizing p name value s s' J with
  | zero => cases h
  | succ depth ih =>
    obtain ⟨⟨s₁, K⟩, hK, hr⟩ := Option.map_eq_some_iff.1 h
    obtain ⟨rfl, rfl⟩ := Prod.ext_iff.1 hr
    obtain ⟨hcalls, hlist, hhead, hreturned⟩ := stretch_recordCalls ih (Nat.lt_succ_self p) hK
    rw [← List.range_eq_range'] at hlist
    exact stretch_write hcalls ⟨depth, answered_recordCalls hK⟩ hlist hhead hreturned

end Store

theorem Data.get?_insert_self (d : Data) (name : String) (value : Value) :
    (d.insert name value).get? name = some value := by
  obtain ⟨entries, hn⟩ := d
  change (Data.put name value entries).lookup name = some value
  clear hn
  induction entries with
  | nil => simp only [Data.put, List.lookup_cons, beq_self_eq_true]
  | cons e rest ih =>
    obtain ⟨n, v⟩ := e
    rw [Data.put]
    split
    · next h => rw [h, List.lookup_cons, beq_self_eq_true]
    · next h => rw [List.lookup_cons, beq_false_of_ne (Ne.symm h), ih]

theorem Data.keys_prefix_insert (d : Data) (name : String) (value : Value) :
    d.keys <+: (d.insert name value).keys := by
  have hkeys := Data.keys_put name value d.entries
  change d.keys <+: (Data.put name value d.entries).map Prod.fst
  rw [hkeys]
  split
  · exact List.prefix_rfl
  · exact List.prefix_append _ _

namespace Journal

variable {J : Journal ε} {s t : Store ε}

theorem Leads.subscribers (h : Leads s J t) : s.subscribers <+: t.subscribers := by
  induction J generalizing s with
  | nil =>
    obtain rfl : t = s := h
    exact List.prefix_rfl
  | cons x J ih =>
    obtain ⟨hx, hJ⟩ := h
    refine List.IsPrefix.trans ?_ (ih hJ)
    obtain ⟨event, store, e⟩ := x
    cases event with
    | stored name value =>
      obtain rfl : store = s.put name value := hx
      exact List.prefix_rfl
    | joined k =>
      obtain ⟨-, subscriber, rfl⟩ := hx
      exact List.prefix_append _ _
    | called | returned | acted =>
      obtain rfl : store = s := hx
      exact List.prefix_rfl

theorem Leads.data (h : Leads s J t) :
    t.data = (stores J).foldl (fun d p ↦ d.insert p.1 p.2) s.data := by
  induction J generalizing s with
  | nil =>
    obtain rfl : t = s := h
    rfl
  | cons x J ih =>
    obtain ⟨hx, hJ⟩ := h
    rw [ih hJ]
    obtain ⟨event, store, e⟩ := x
    cases event with
    | stored name value =>
      obtain rfl : store = s.put name value := hx
      rfl
    | joined k =>
      obtain ⟨-, subscriber, rfl⟩ := hx
      rfl
    | called | returned | acted =>
      obtain rfl : store = s := hx
      rfl

theorem Leads.keys (h : Leads s J t) : s.data.keys <+: t.data.keys := by
  rw [h.data]
  generalize stores J = pairs
  generalize s.data = d
  induction pairs generalizing d with
  | nil => exact List.prefix_rfl
  | cons p pairs ih => exact (d.keys_prefix_insert p.1 p.2).trans (ih _)

end Journal

namespace Script

end Script

namespace Store

end Store

end LivePage
