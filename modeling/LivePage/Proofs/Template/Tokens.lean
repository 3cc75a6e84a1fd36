import LivePage.Proofs.Markup.Escaping
import LivePage.Proofs.Text.Words
import LivePage.Template.Placeholder

namespace LivePage.Template

open Markup Text

def AtMostOneBlank (cs : List Char) : Prop :=
  cs = [] ∨ ∃ c, isBlank c = true ∧ cs = [c]

/-- A name between braces, with at most one blank on either side. -/
def IsToken (raw name : List Char) : Prop :=
  name ≠ [] ∧ (∀ c ∈ name, isNameChar c = true) ∧ ∃ front back, AtMostOneBlank front ∧
    AtMostOneBlank back ∧ raw = '\x7b' :: '\x7b' :: (front ++ (name ++ (back ++ ['\x7d', '\x7d'])))

theorem exists_dropBlank (cs : List Char) :
    ∃ front, AtMostOneBlank front ∧ cs = front ++ dropBlank cs := by
  cases cs with
  | nil => exact ⟨[], .inl rfl, rfl⟩
  | cons c rest =>
    rw [dropBlank]
    split
    · next h => exact ⟨[c], .inr ⟨c, h, rfl⟩, rfl⟩
    · exact ⟨[], .inl rfl, rfl⟩

theorem dropBlank_append {front cs : List Char} (hf : AtMostOneBlank front)
    (hcs : ∀ c ∈ cs.head?, isBlank c = false) : dropBlank (front ++ cs) = cs := by
  rcases hf with rfl | ⟨c, hc, rfl⟩
  · cases cs with
    | nil => rfl
    | cons c rest => rw [List.nil_append, dropBlank, hcs c rfl, if_neg Bool.false_ne_true]
  · rw [List.cons_append, List.nil_append, dropBlank, if_pos hc]

/-- A placeholder at the front of a text is found whatever comes after it. -/
theorem takePlaceholder?_append {raw name : List Char} (h : IsToken raw name) (rest : List Char) :
    takePlaceholder? (raw ++ rest) = some (name, rest) := by
  obtain ⟨hne, hname, front, back, hfront, hback, rfl⟩ := h
  obtain ⟨c, cs, rfl⟩ := List.exists_cons_of_ne_nil hne
  obtain ⟨d, ds, hclosing, hd⟩ : ∃ d ds, back ++ ['\x7d', '\x7d'] ++ rest = d :: ds ∧
      isNameChar d = false := by
    rcases hback with rfl | ⟨b, hb, rfl⟩
    · exact ⟨_, _, rfl, by decide⟩
    · refine ⟨b, _, rfl, ?_⟩
      by_contra hn
      rw [isBlank_eq_false_of_isNameChar (Bool.not_eq_false _ ▸ hn)] at hb
      cases hb
  have hopen : ('\x7b' :: '\x7b' :: (front ++ (c :: cs ++ (back ++ ['\x7d', '\x7d'])))) ++ rest =
      '\x7b' :: '\x7b' :: (front ++ (c :: cs ++ d :: ds)) := by
    rw [← hclosing]
    simp only [List.cons_append, List.append_assoc]
  have hstart : dropBlank (front ++ (c :: cs ++ d :: ds)) = c :: cs ++ d :: ds :=
    dropBlank_append hfront fun x hx ↦ by
      obtain rfl := Option.some.inj hx
      exact isBlank_eq_false_of_isNameChar (hname _ List.mem_cons_self)
  have hend : dropBlank (d :: ds) = '\x7d' :: '\x7d' :: rest := by
    rw [← hclosing, List.append_assoc]
    refine dropBlank_append hback fun x hx ↦ ?_
    obtain rfl := Option.some.inj hx
    decide
  rw [hopen, takePlaceholder?]
  simp only [hstart, takeWhile_stop hname hd, dropWhile_stop hname hd, hend, reduceCtorEq, if_false]

theorem isToken_of_takePlaceholder? {cs name rest : List Char}
    (h : takePlaceholder? cs = some (name, rest)) : ∃ raw, IsToken raw name ∧ cs = raw ++ rest := by
  unfold takePlaceholder? at h
  split at h
  · next tail =>
    dsimp only at h
    split at h
    · cases h
    · next hne =>
      split at h
      · next after heq =>
        obtain ⟨hname, rfl⟩ := Prod.mk.inj (Option.some.inj h)
        obtain ⟨front, hfront, htail⟩ := exists_dropBlank tail
        obtain ⟨back, hback, hclosing⟩ := exists_dropBlank ((dropBlank tail).dropWhile isNameChar)
        have hcut := (List.takeWhile_append_dropWhile (p := isNameChar) (l := dropBlank tail)).symm
        rw [hclosing, heq, hname] at hcut
        refine ⟨_, ⟨hname ▸ hne, fun c hc ↦ ?_, front, back, hfront, hback, rfl⟩, ?_⟩
        · exact List.mem_takeWhile_imp (hname ▸ hc)
        · rw [htail, hcut]
          simp
      · cases h
  · cases h

theorem isToken_iff {raw name : List Char} :
    IsToken raw name ↔ takePlaceholder? raw = some (name, []) := by
  constructor
  · intro h
    have htake := takePlaceholder?_append h []
    rwa [List.append_nil] at htake
  · intro h
    obtain ⟨raw', htoken, heq⟩ := isToken_of_takePlaceholder? h
    rw [List.append_nil] at heq
    exact heq ▸ htoken

instance (raw name : List Char) : Decidable (IsToken raw name) :=
  decidable_of_iff _ isToken_iff.symm

def Braceless (cs : List Char) : Prop :=
  '\x7b' ∉ cs ∧ '\x7d' ∉ cs

instance (cs : List Char) : Decidable (Braceless cs) :=
  inferInstanceAs (Decidable ('\x7b' ∉ cs ∧ '\x7d' ∉ cs))

def Piece.Sound : Piece → Prop
  | .literal cs => Braceless cs
  | .token raw name => IsToken raw name

theorem pieces_nil : pieces [] = [] := by
  rw [pieces]
  rfl

theorem pieces_append_of_isToken {raw name : List Char} (h : IsToken raw name) (rest : List Char) :
    pieces (raw ++ rest) = .token raw name :: pieces rest := by
  have htake := takePlaceholder?_append h rest
  have hlength : (raw ++ rest).length - rest.length = raw.length := by
    rw [List.length_append, Nat.add_sub_cancel]
  rw [pieces]
  split
  · next name' rest' heq =>
    obtain ⟨rfl, rfl⟩ := Prod.mk.inj (Option.some.inj (htake.symm.trans heq))
    simp only [hlength, List.take_left]
  · next heq =>
    rw [htake] at heq
    cases heq

theorem pieces_cons {c : Char} (h : c ≠ '\x7b') (rest : List Char) :
    pieces (c :: rest) = consLiteral c (pieces rest) := by
  have htake : takePlaceholder? (c :: rest) = none := by
    unfold takePlaceholder?
    split
    · next heq => exact absurd (List.cons.inj heq).1 h
    · rfl
  rw [pieces]
  split
  · next heq =>
    rw [htake] at heq
    cases heq
  · rfl

theorem isToken_of_mem_pieces {cs raw name : List Char} (h : .token raw name ∈ pieces cs) :
    IsToken raw name := by
  fun_induction pieces cs with
  | case1 cs name' rest htake _ ih =>
    rcases List.mem_cons.1 h with h | h
    · obtain ⟨rfl, rfl⟩ := Piece.token.inj h
      obtain ⟨raw', htoken, rfl⟩ := isToken_of_takePlaceholder? htake
      rwa [List.length_append, Nat.add_sub_cancel, List.take_left]
    · exact ih h
  | case2 => cases h
  | case3 c rest _ ih =>
    refine ih ?_
    unfold consLiteral at h
    split at h
    · next heq =>
      rw [heq]
      exact List.mem_cons_of_mem _ ((List.mem_cons.1 h).resolve_left nofun)
    · exact (List.mem_cons.1 h).resolve_left nofun

theorem flatMap_text_consLiteral (c : Char) (ps : List Piece) :
    (consLiteral c ps).flatMap Piece.text = c :: ps.flatMap Piece.text := by
  unfold consLiteral
  split <;> rfl

theorem flatMap_text_pieces (cs : List Char) : (pieces cs).flatMap Piece.text = cs := by
  fun_induction pieces cs with
  | case1 cs name rest htake _ ih =>
    obtain ⟨raw, -, rfl⟩ := isToken_of_takePlaceholder? htake
    rw [List.flatMap_cons, ih, Piece.text, List.length_append, Nat.add_sub_cancel, List.take_left]
  | case2 => rfl
  | case3 c rest _ ih => rw [flatMap_text_consLiteral, ih]

def fillPieces (resolve : String → Option String) (ps : List Piece) : String :=
  String.join (ps.map (Piece.fill resolve))

section

variable (resolve : String → Option String)

theorem fillPieces_cons (p : Piece) (ps : List Piece) :
    fillPieces resolve (p :: ps) = p.fill resolve ++ fillPieces resolve ps :=
  String.join_cons

theorem fillPieces_consLiteral (c : Char) (ps : List Piece) :
    fillPieces resolve (consLiteral c ps) = String.ofList [c] ++ fillPieces resolve ps := by
  unfold consLiteral
  split
  · next cs ps =>
    rw [fillPieces_cons, fillPieces_cons, ← String.append_assoc, Piece.fill, Piece.fill,
      ← String.ofList_append]
    rfl
  · exact fillPieces_cons resolve _ ps

theorem any_resolves_consLiteral (c : Char) (ps : List Piece) :
    (consLiteral c ps).any (Piece.resolves resolve) = ps.any (Piece.resolves resolve) := by
  unfold consLiteral
  split <;> rfl

theorem fillPieces_of_unresolved {ps : List Piece}
    (h : ps.any (Piece.resolves resolve) = false) :
    fillPieces resolve ps = String.ofList (ps.flatMap Piece.text) := by
  induction ps with
  | nil => rfl
  | cons p ps ih =>
    obtain ⟨hp, hps⟩ := Bool.or_eq_false_iff.1 h
    have hfill : p.fill resolve = String.ofList p.text := by
      cases p with
      | literal cs => rfl
      | token raw name =>
        rw [Piece.fill, Option.isSome_eq_false_iff.1 hp |> Option.isNone_iff_eq_none.1]
        rfl
    rw [fillPieces_cons, ih hps, hfill, List.flatMap_cons, String.ofList_append]

end

theorem sound_consLiteral {c : Char} (hc : Braceless [c]) {ps : List Piece}
    (h : ∀ p ∈ ps, p.Sound) : ∀ p ∈ consLiteral c ps, p.Sound := by
  unfold consLiteral
  split
  · next cs ps =>
    obtain ⟨hcs, hps⟩ := List.forall_mem_cons.1 h
    refine List.forall_mem_cons.2 ⟨⟨fun hmem ↦ ?_, fun hmem ↦ ?_⟩, hps⟩
    · exact (List.mem_cons.1 hmem).elim (fun he ↦ hc.1 (he ▸ List.mem_cons_self)) hcs.1
    · exact (List.mem_cons.1 hmem).elim (fun he ↦ hc.2 (he ▸ List.mem_cons_self)) hcs.2
  · exact List.forall_mem_cons.2 ⟨hc, h⟩

/-- Pieces that read the same to whoever fills them, and are no worse. -/
structure Alike (ps qs : List Piece) : Prop where
  fill : ∀ resolve, fillPieces resolve ps = fillPieces resolve qs
  resolves : ∀ resolve, ps.any (Piece.resolves resolve) = qs.any (Piece.resolves resolve)
  sound : ∀ p ∈ ps, p.Sound

/-- Sound pieces stay what they are when their texts are joined. -/
theorem alike_pieces {qs : List Piece} (h : ∀ q ∈ qs, q.Sound) :
    Alike (pieces (qs.flatMap Piece.text)) qs := by
  induction qs with
  | nil =>
    rw [List.flatMap_nil, pieces_nil]
    exact ⟨fun _ ↦ rfl, fun _ ↦ rfl, nofun⟩
  | cons q qs ih =>
    obtain ⟨hq, hqs⟩ := List.forall_mem_cons.1 h
    have ih := ih hqs
    cases q with
    | token raw name =>
      rw [List.flatMap_cons, Piece.text, pieces_append_of_isToken hq]
      refine ⟨fun resolve ↦ ?_, fun resolve ↦ ?_, List.forall_mem_cons.2 ⟨hq, ih.sound⟩⟩
      · rw [fillPieces_cons, fillPieces_cons, ih.fill]
      · rw [List.any_cons, List.any_cons, ih.resolves]
    | literal cs =>
      rw [List.flatMap_cons, Piece.text]
      induction cs with
      | nil =>
        refine ⟨fun resolve ↦ ?_, fun resolve ↦ ?_, ih.sound⟩
        · rw [fillPieces_cons, List.nil_append, ih.fill]
          exact (String.empty_append).symm
        · rw [List.any_cons, List.nil_append, ih.resolves]
          rfl
      | cons c cs ihcs =>
        obtain ⟨hopen, hclose⟩ : '\x7b' ∉ c :: cs ∧ '\x7d' ∉ c :: cs := hq
        rw [List.mem_cons, not_or] at hopen hclose
        have htail : (Piece.literal cs).Sound := ⟨hopen.2, hclose.2⟩
        have ihcs := ihcs (List.forall_mem_cons.2 ⟨htail, hqs⟩) htail
        have hc : Braceless [c] :=
          ⟨fun hmem ↦ hopen.1 (List.mem_singleton.1 hmem),
            fun hmem ↦ hclose.1 (List.mem_singleton.1 hmem)⟩
        rw [List.cons_append, pieces_cons (Ne.symm hopen.1)]
        refine ⟨fun resolve ↦ ?_, fun resolve ↦ ?_, sound_consLiteral hc ihcs.sound⟩
        · rw [fillPieces_consLiteral, ihcs.fill, fillPieces_cons, fillPieces_cons,
            ← String.append_assoc, Piece.fill, Piece.fill, ← String.ofList_append]
          rfl
        · rw [any_resolves_consLiteral, ihcs.resolves]
          rfl

def Piece.bind (resolve : String → Option String) : Piece → Piece
  | .literal cs => .literal cs
  | .token raw name => match resolve (String.ofList name) with
    | some value => .literal value.toList
    | none => .token raw name

section

variable {first second : String → Option String}

theorem flatMap_text_bind (ps : List Piece) :
    (ps.map (Piece.bind first)).flatMap Piece.text = (fillPieces first ps).toList := by
  induction ps with
  | nil => rfl
  | cons p ps ih =>
    rw [List.map_cons, List.flatMap_cons, ih, fillPieces_cons, String.toList_append]
    congr 1
    cases p with
    | literal cs => exact String.toList_ofList.symm
    | token raw name =>
      rw [Piece.bind, Piece.fill]
      cases first (String.ofList name) with
      | none => exact String.toList_ofList.symm
      | some value => rfl

theorem sound_bind (hfirst : ∀ name value, first name = some value → Braceless value.toList)
    {p : Piece} (h : p.Sound) : (p.bind first).Sound := by
  cases p with
  | literal cs => exact h
  | token raw name =>
    rw [Piece.bind]
    split
    · next value hvalue => exact hfirst _ value hvalue
    · exact h

theorem fill_bind (p : Piece) :
    (p.bind first).fill second = p.fill fun name ↦ (first name).or (second name) := by
  cases p with
  | literal cs => rfl
  | token raw name =>
    rw [Piece.bind, Piece.fill]
    split
    · next value hvalue =>
      rw [hvalue, Piece.fill, String.ofList_toList]
      rfl
    · next hvalue =>
      rw [hvalue]
      rfl

theorem resolves_bind (p : Piece) : (p.bind first).resolves second =
    (!p.resolves first && p.resolves fun name ↦ (first name).or (second name)) := by
  cases p with
  | literal cs => rfl
  | token raw name =>
    rw [Piece.bind, Piece.resolves, Piece.resolves]
    split
    · next value hvalue =>
      rw [hvalue]
      rfl
    · next hvalue =>
      rw [hvalue]
      rfl

end

theorem cleanChars_of_isToken {raw name : List Char} (h : IsToken raw name) :
    cleanChars raw = name := by
  obtain ⟨hne, hname, front, back, hfront, hback, rfl⟩ := h
  have hgap : ∀ {side : List Char}, AtMostOneBlank side → IsGap side := by
    rintro side (rfl | ⟨b, hb, rfl⟩) c hc
    · cases hc
    · exact List.mem_singleton.1 hc ▸ hb
  have hinner : (front ++ (name ++ (back ++ ['\x7d', '\x7d']))).reverse =
      '\x7d' :: '\x7d' :: (front ++ (name ++ back)).reverse := by
    simp only [List.reverse_append, List.reverse_cons, List.reverse_nil, List.nil_append,
      List.cons_append, List.append_assoc]
  rw [cleanChars]
  simp only [hinner]
  rw [List.reverse_reverse, trimChars_append (hgap hfront) (isWord_of_nameChars hne hname)
    (hgap hback)]

def Piece.name? : Piece → Option String
  | .literal _ => none
  | .token _ name => some (String.ofList name)

theorem map_name_locate (offset : Nat) {ps : List Piece}
    (h : ∀ raw name, .token raw name ∈ ps → IsToken raw name) :
    (locate offset ps).map Placeholder.name = ps.filterMap Piece.name? := by
  induction ps generalizing offset with
  | nil => rfl
  | cons p ps ih =>
    have hps := fun offset ↦ ih offset fun raw name hp ↦ h raw name (List.mem_cons_of_mem _ hp)
    cases p with
    | literal cs => exact hps _
    | token raw name =>
      have hclean := cleanChars_of_isToken (h raw name List.mem_cons_self)
      simp only [locate, Piece.isToken, if_true, List.map_cons, hps, List.filterMap_cons,
        Piece.name?, Placeholder.name, clean, Piece.text, String.toList_ofList, hclean]

theorem namesIn_eq (text : String) : namesIn text = (pieces text.toList).filterMap Piece.name? :=
  map_name_locate 0 fun _ _ hp ↦ isToken_of_mem_pieces hp

end LivePage.Template
