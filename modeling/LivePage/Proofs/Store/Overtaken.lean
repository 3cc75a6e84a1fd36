import LivePage.Proofs.Store.Course
import LivePage.Proofs.Store.Notification

namespace LivePage

variable {ε : Type}

namespace Data

theorem get?_insert_of_ne (d : Data) {name other : String} (h : other ≠ name) (value : Value) :
    (d.insert other value).get? name = d.get? name := by
  obtain ⟨entries, hn⟩ := d
  change (Data.put other value entries).lookup name = entries.lookup name
  clear hn
  induction entries with
  | nil => rw [Data.put, List.lookup_cons, beq_false_of_ne h.symm]
  | cons e rest ih =>
    obtain ⟨n, v⟩ := e
    rw [Data.put]
    split
    · next hn =>
      rw [List.lookup_cons, List.lookup_cons, hn, beq_false_of_ne h.symm]
    · rw [List.lookup_cons, List.lookup_cons, ih]

theorem get?_foldl_insert (d : Data) (ps : List (String × Value)) (name : String) :
    (ps.foldl (fun d p ↦ d.insert p.1 p.2) d).get? name =
      (ps.reverse.lookup name).or (d.get? name) := by
  induction ps generalizing d with
  | nil => rfl
  | cons p ps ih =>
    rw [List.foldl_cons, ih, List.reverse_cons, List.lookup_append, Option.or_assoc]
    congr 1
    by_cases h : p.1 = name
    · rw [h, get?_insert_self, List.lookup_cons, h, beq_self_eq_true]
      rfl
    · rw [get?_insert_of_ne d h, List.lookup_cons, beq_false_of_ne (Ne.symm h)]
      rfl

end Data

namespace Journal

variable {J : Journal ε} {s t : Store ε}

def lastStored? (name : String) (J : Journal ε) : Option Value :=
  (stores J).reverse.lookup name

theorem Leads.get? (h : Leads s J t) (name : String) :
    t.data.get? name = (lastStored? name J).or (s.data.get? name) := by
  rw [h.data, Data.get?_foldl_insert]
  rfl

theorem lastStored?_eq_none {name : String}
    (h : ∀ x ∈ J, ∀ value, x.event ≠ .stored name value) : lastStored? name J = none := by
  refine List.lookup_eq_none_iff.2 fun p hp ↦ ?_
  obtain ⟨x, hx, he⟩ := List.mem_filterMap.1 (List.mem_reverse.1 hp)
  split at he
  · next other value heq =>
    obtain rfl := Option.some.inj he
    refine bne_iff_ne.2 fun hname ↦ h x hx value ?_
    rw [heq, hname]
  · cases he

end Journal

open Journal

/-- The write `w` of the value begins in a journal from the position `p` on, and it calls the
subscriber number `k`. -/
def Journal.Begins (w k : Nat) (name : String) (value : Value) (p : Nat) (J : Journal ε) : Prop :=
  ∃ b u d, J = b ++ ⟨.stored name value, u⟩ :: d ∧ p + b.length = w ∧ k < u.1.subscribers.length

theorem Journal.Begins.behind {w k p : Nat} {name : String} {value : Value} {J : Journal ε}
    (K : Journal ε) (h : J.Begins w k name value (p + K.length)) :
    (K ++ J).Begins w k name value p := by
  obtain ⟨b, u, d, rfl, hw, hk⟩ := h
  refine ⟨K ++ b, u, d, (List.append_assoc _ _ _).symm, ?_, hk⟩
  rw [List.length_append]
  omega

/-- A call is a part of the write around the stretch, or of one that begins in it, and it is about
the name and the value that the write stores. -/
theorem Course.called_eq {allowed : Data → ε → ε → Prop} {outer : Option Writing} {p : Nat}
    {s s' : Scene ε} {J : Journal ε} (h : Course allowed outer p s J s') {a c : Journal ε}
    {w k : Nat} {name : String} {value : Value} {t : Scene ε}
    (hJ : J = a ++ ⟨.called w k name value, t⟩ :: c) :
    (∃ audience, outer = some ⟨w, name, value, audience⟩ ∧ k < audience) ∨
      a.Begins w k name value p := by
  induction h generalizing a c with
  | nil => simp at hJ
  | acted _ _ ih | joined _ _ ih =>
    cases a with
    | nil => cases hJ
    | cons x a =>
      obtain ⟨rfl, hrest⟩ := List.cons.inj hJ
      exact (ih hrest).imp id (Begins.behind [_])
  | called hk _ ih =>
    cases a with
    | nil =>
      cases hJ
      exact .inl ⟨_, rfl, hk⟩
    | cons x a =>
      obtain ⟨rfl, hrest⟩ := List.cons.inj hJ
      exact (ih hrest).imp id (Begins.behind [_])
  | @wrote _ p store e other stored t' _ J K _ _ ihJ ihK =>
    cases a with
    | nil => cases hJ
    | cons x a =>
      obtain ⟨rfl, hrest⟩ := List.cons.inj hJ
      rcases split_append hrest with ⟨c', hin, -⟩ | ⟨a', rfl, hout⟩
      · rcases ihJ hin with ⟨audience, hw, hk⟩ | hbegins
        · cases hw
          exact .inr ⟨[], _, a, rfl, rfl, hk⟩
        · exact .inr (hbegins.behind [_])
      · cases a' with
        | nil => cases hout
        | cons y a' =>
          obtain ⟨rfl, hlater⟩ := List.cons.inj hout
          rcases ihK hlater with hw | hbegins
          · exact .inl hw
          · have hposition : p + J.length + 2 =
                p + 1 + (J ++ [(⟨.returned p, t'⟩ : Entry ε)]).length := by
              rw [List.length_append, List.length_singleton]
              omega
            rw [hposition] at hbegins
            have hbehind := (hbegins.behind _).behind
              [⟨.stored other stored, (store.put other stored, e)⟩]
            rw [List.append_assoc] at hbehind
            exact .inr hbehind

/-- After the last call of a subscriber about a name, nothing is stored under this name. -/
theorem Journal.Stretch.not_stored {s s' : Store ε} {J : Journal ε} (h : Stretch none 0 s J s')
    {a c : Journal ε} {x : Entry ε} (hJ : J = a ++ x :: c) {k : Nat}
    (hk : k < x.scene.1.subscribers.length) {name : String}
    (hlast : ∀ y ∈ c, ∀ w value, y.event ≠ .called w k name value) :
    ∀ y ∈ c, ∀ value, y.event ≠ .stored name value := by
  rintro ⟨event, u⟩ hy value rfl
  obtain ⟨b, d, rfl⟩ := List.append_of_mem hy
  have hwrite : J = (a ++ x :: b) ++ ⟨.stored name value, u⟩ :: d := by
    rw [hJ, List.append_assoc, List.cons_append]
  obtain ⟨-, during, last, later, rfl, -, hcalls, -⟩ := h.writes _ _ _ _ _ hwrite
  have hsubscribers : x.scene.1.subscribers.length ≤ u.1.subscribers.length := by
    obtain ⟨m, -, -, hrest⟩ := leads_split (hJ ▸ h.leads)
    obtain ⟨m', hb, hput, -⟩ := leads_split hrest
    have hput : u.1 = m'.put name value := hput
    rw [hput]
    exact hb.subscribers.length_le
  have hcall : (k, name, value) ∈ calls (0 + (a ++ x :: b).length) during := by
    rw [hcalls]
    exact List.mem_map_of_mem (List.mem_range.2 (hk.trans_le hsubscribers))
  obtain ⟨y, hy, hcallOf⟩ := List.mem_filterMap.1 hcall
  unfold Entry.callOf? at hcallOf
  split at hcallOf
  · next w k' name' value' hevent =>
    split at hcallOf
    · cases hcallOf
      exact hlast y (by simp [hy]) _ _ hevent
    · cases hcallOf
  · cases hcallOf

/-- A subscriber is called with the value that the write stored. The store holds this value then,
unless writes of the same name have stored others in between: it holds the last of these. After the
last call of the subscriber about the name it holds what it held at this call. -/
theorem Store.called_value {depth : Nat} {script : Script ε} {s s' : Scene ε}
    (h : perform depth script s = some s') :
    ∃ J, recorded depth script s = some (s', J) ∧
      ∀ {a c : Journal ε} {w k : Nat} {name : String} {value : Value} {t : Scene ε},
        J = a ++ ⟨.called w k name value, t⟩ :: c →
        ∃ b u d, a = b ++ ⟨.stored name value, u⟩ :: d ∧ b.length = w ∧
          t.1.data.get? name = some ((lastStored? name d).getD value) ∧
          ((∀ x ∈ c, ∀ w' value', x.event ≠ .called w' k name value') →
            s'.1.data.get? name = t.1.data.get? name) := by
  obtain ⟨J, hrecorded⟩ := exists_recorded h
  refine ⟨J, hrecorded, fun {a c w k name value t} hJ ↦ ?_⟩
  have hstretch := Script.stretch_record stretch_recordWrite hrecorded
  obtain ⟨hcourse, -⟩ := course_recorded script.acts_true s.1.acts_true hrecorded
  rcases hcourse.called_eq hJ with ⟨audience, hout, -⟩ | ⟨b, u, d, rfl, hw, hk⟩
  · cases hout
  · obtain ⟨m, ha, htm, hc⟩ := leads_split (hJ ▸ hstretch.leads)
    obtain ⟨m', -, hput, hd⟩ := leads_split ha
    obtain rfl : t.1 = m := htm
    have hput : u.1 = m'.put name value := hput
    refine ⟨b, u, d, rfl, by omega, ?_, fun hlast ↦ ?_⟩
    · have hu : u.1.data.get? name = some value := by
        rw [hput]
        exact Data.get?_insert_self _ _ _
      rw [hd.get? name, hu, Option.or_some]
    · have hkt : k < t.1.subscribers.length := hk.trans_le hd.subscribers.length_le
      rw [hc.get? name, lastStored?_eq_none (hstretch.not_stored hJ hkt hlast), Option.none_or]

namespace Store

def retract : Subscriber Unit := fun name value ↦
  match value with
  | .bool true => .set name (.bool false)
  | _ => .stop

def retracting : Scene Unit := (((ofData ∅).subscribe retract).subscribe fun _ _ ↦ .stop, ())

theorem called_value_retracting :
    ∃ s' J a t c b u d, perform 2 (.set "n" (.bool true)) retracting = some s' ∧
      recorded 2 (.set "n" (.bool true)) retracting = some (s', J) ∧
      J = a ++ ⟨.called 0 1 "n" (.bool true), t⟩ :: c ∧
      a = b ++ ⟨.stored "n" (.bool true), u⟩ :: d ∧ b.length = 0 ∧
      t.1.data.get? "n" = some ((lastStored? "n" d).getD (.bool true)) ∧
      s'.1.data.get? "n" = t.1.data.get? "n" := by
  obtain ⟨s', hperform⟩ : ∃ s', perform 2 (.set "n" (.bool true)) retracting = some s' := ⟨_, rfl⟩
  obtain ⟨J, hrecorded, hcalls⟩ := called_value hperform
  obtain ⟨K, a, t, c, hK, hsplit, hlast⟩ : ∃ K a t c,
      recorded 2 (.set "n" (.bool true)) retracting = some (s', K) ∧
      K = a ++ ⟨.called 0 1 "n" (.bool true), t⟩ :: c ∧ c.map (·.event) = [.returned 0] := by
    cases hperform
    exact ⟨_, [_, _, _, _, _, _], _, _, rfl, rfl, rfl⟩
  obtain rfl : J = K := by
    rw [hrecorded] at hK
    exact (Prod.mk.inj (Option.some.inj hK)).2
  obtain ⟨b, u, d, ha, hb, hvalue, hfinal⟩ := hcalls hsplit
  refine ⟨s', J, a, t, c, b, u, d, hperform, hrecorded, hsplit, ha, hb, hvalue,
    hfinal fun x hx w' value' he ↦ ?_⟩
  have hmem := List.mem_map_of_mem (f := (·.event)) hx
  rw [hlast, he] at hmem
  cases List.mem_singleton.1 hmem

/-- A subscriber may be called with a value that the store no longer holds, also the last time that
it is called about the name. -/
theorem called_value_stale :
    ∃ s' J a t c, perform 2 (.set "n" (.bool true)) retracting = some s' ∧
      recorded 2 (.set "n" (.bool true)) retracting = some (s', J) ∧
      J = a ++ ⟨.called 0 1 "n" (.bool true), t⟩ :: c ∧
      t.1.data.get? "n" = some (.bool false) ∧ c.map (·.event) = [.returned 0] ∧
      s'.1.data.get? "n" = some (.bool false) :=
  ⟨_, _, [_, _, _, _, _, _], _, _, rfl, rfl, rfl, rfl, rfl, rfl⟩

end Store

end LivePage
