import LivePage.Proofs.Template.Scanning

namespace LivePage

namespace Template

open Text

/-- A placeholder as it is written, its name, and the text behind it up to the next one. -/
structure Cut where
  raw : String
  name : String
  behind : String
deriving DecidableEq, Repr

namespace Cut

def text (c : Cut) : String :=
  c.raw ++ c.behind

def answered (c : Cut) (answer : Option String) : String :=
  answer.getD c.raw ++ c.behind

end Cut

def Bare (text : String) : Prop :=
  ∀ (p : Placeholder) (name : String), ¬p.StandsIn name text

structure Decomposes (text front : String) (cuts : List Cut) : Prop where
  text_eq : text = front ++ String.join (cuts.map Cut.text)
  tokens : ∀ c ∈ cuts, IsToken c.raw.toList c.name.toList
  front_bare : Bare front
  behind_bare : ∀ c ∈ cuts, Bare c.behind

theorem bare_iff {text : String} : Bare text ↔ find text = [] := by
  constructor
  · intro h
    rw [List.eq_nil_iff_forall_not_mem]
    intro p hp
    obtain ⟨name, hstands⟩ := mem_find_iff.1 hp
    exact h p name hstands
  · intro h p name hstands
    have hp := mem_find_iff.2 ⟨name, hstands⟩
    rw [h] at hp
    cases hp

instance (text : String) : Decidable (Bare text) :=
  decidable_of_iff _ bare_iff.symm

theorem bare_iff_hasPlaceholder {text : String} : Bare text ↔ hasPlaceholder text = false := by
  rw [bare_iff, ← not_iff_not, ← ne_eq, ← hasPlaceholder_iff, Bool.not_eq_false]

def literals : List Char → List Piece
  | [] => []
  | cs => [.literal cs]

theorem consLiteral_literals (c : Char) (cs : List Char) :
    consLiteral c (literals cs) = literals (c :: cs) := by
  cases cs <;> rfl

theorem any_isToken_consLiteral (c : Char) (ps : List Piece) :
    (consLiteral c ps).any Piece.isToken = ps.any Piece.isToken := by
  unfold consLiteral
  split <;> rfl

theorem pieces_of_bare {text : String} (h : Bare text) :
    pieces text.toList = literals text.toList := by
  have hnone : (pieces text.toList).any Piece.isToken = false := bare_iff_hasPlaceholder.1 h
  generalize text.toList = cs at hnone
  fun_induction pieces cs with
  | case1 => cases hnone
  | case2 => rfl
  | case3 c rest _ ih =>
    rw [any_isToken_consLiteral] at hnone
    rw [ih hnone, consLiteral_literals]

theorem decomposes_iff {text front : String} {cuts : List Cut} :
    Decomposes text front cuts ↔ text = front ++ String.join (cuts.map Cut.text) ∧
      (∀ c ∈ cuts, IsToken c.raw.toList c.name.toList) ∧ Bare front ∧ ∀ c ∈ cuts, Bare c.behind :=
  ⟨fun h ↦ ⟨h.text_eq, h.tokens, h.front_bare, h.behind_bare⟩,
    fun ⟨htext, htokens, hfront, hbehind⟩ ↦ ⟨htext, htokens, hfront, hbehind⟩⟩

instance (text front : String) (cuts : List Cut) : Decidable (Decomposes text front cuts) :=
  decidable_of_iff _ decomposes_iff.symm

namespace Decomposes

variable {text front : String} {c : Cut} {cuts : List Cut}

theorem tail (h : Decomposes text front (c :: cuts)) :
    Decomposes (c.behind ++ String.join (cuts.map Cut.text)) c.behind cuts where
  text_eq := rfl
  tokens d hd := h.tokens d (List.mem_cons_of_mem _ hd)
  front_bare := h.behind_bare c List.mem_cons_self
  behind_bare d hd := h.behind_bare d (List.mem_cons_of_mem _ hd)

theorem pieces_eq (h : Decomposes text front cuts) :
    pieces text.toList = literals front.toList ++
      cuts.flatMap fun c ↦ .token c.raw.toList c.name.toList :: literals c.behind.toList := by
  induction cuts generalizing text front with
  | nil =>
    obtain rfl : text = front := by simpa using h.text_eq
    rw [pieces_of_bare h.front_bare, List.flatMap_nil, List.append_nil]
  | cons c cuts ih =>
    have htext : text.toList = front.toList ++ (c.raw.toList ++
        (c.behind ++ String.join (cuts.map Cut.text)).toList) := by
      rw [h.text_eq]
      simp [Cut.text, String.join_cons]
    rw [htext, pieces_append_token (h.tokens c List.mem_cons_self), pieces_of_bare h.front_bare,
      ih h.tail, List.flatMap_cons, List.cons_append]

end Decomposes

theorem Bare.cons {c : Char} {front tail : List Char}
    (h : takePlaceholder? (c :: (front ++ tail)) = none) (hfront : Bare (String.ofList front)) :
    Bare (String.ofList (c :: front)) := by
  rw [bare_iff_hasPlaceholder, hasPlaceholder, String.toList_ofList]
  have hnone : takePlaceholder? (c :: front) = none := by
    by_contra hsome
    obtain ⟨⟨name, rest⟩, hfound⟩ := Option.ne_none_iff_exists'.1 hsome
    obtain ⟨raw, htoken, heq⟩ := isToken_of_takePlaceholder? hfound
    rw [← List.cons_append, heq, List.append_assoc, takePlaceholder?_append htoken] at h
    cases h
  rw [pieces_cons_of_none hnone, any_isToken_consLiteral]
  simpa only [hasPlaceholder, String.toList_ofList] using bare_iff_hasPlaceholder.1 hfront

theorem exists_decomposes (text : String) : ∃ front cuts, Decomposes text front cuts := by
  have hchars : ∀ cs : List Char, ∃ front cuts, Decomposes (String.ofList cs) front cuts := by
    intro cs
    fun_induction pieces cs with
    | case1 cs name rest htake _ ih =>
      obtain ⟨raw, htoken, rfl⟩ := isToken_of_takePlaceholder? htake
      obtain ⟨front, cuts, h⟩ := ih
      refine ⟨"", ⟨String.ofList raw, String.ofList name, front⟩ :: cuts, ?_, ?_, ?_, ?_⟩
      · rw [String.ofList_append, h.text_eq]
        simp [Cut.text, String.join_cons, String.append_assoc]
      · refine List.forall_mem_cons.2 ⟨?_, h.tokens⟩
        simpa only [String.toList_ofList] using htoken
      · decide +kernel
      · exact List.forall_mem_cons.2 ⟨h.front_bare, h.behind_bare⟩
    | case2 =>
      have hempty : Bare "" := by decide +kernel
      exact ⟨"", [], rfl, List.forall_mem_nil _, hempty, List.forall_mem_nil _⟩
    | case3 c rest htake ih =>
      obtain ⟨front, cuts, h⟩ := ih
      have hrest := congrArg String.toList h.text_eq
      rw [String.toList_ofList, String.toList_append] at hrest
      refine ⟨String.ofList (c :: front.toList), cuts, ?_, h.tokens, ?_, h.behind_bare⟩
      · rw [hrest]
        simp [← String.toList_inj]
      · rw [hrest] at htake
        refine Bare.cons htake ?_
        rw [String.ofList_toList]
        exact h.front_bare
  simpa only [String.ofList_toList] using hchars text.toList

def placed (offset : Nat) : List Cut → List Placeholder
  | [] => []
  | c :: cuts => ⟨c.raw, offset, offset + c.raw.utf8ByteSize⟩ ::
      placed (offset + c.raw.utf8ByteSize + c.behind.utf8ByteSize) cuts

theorem locate_literals (offset : Nat) (cs : List Char) (ps : List Piece) :
    locate offset (literals cs ++ ps) = locate (offset + byteSize cs) ps := by
  cases cs <;> rfl

theorem locate_cuts (offset : Nat) (cuts : List Cut) :
    locate offset (cuts.flatMap fun c ↦
      .token c.raw.toList c.name.toList :: literals c.behind.toList) = placed offset cuts := by
  induction cuts generalizing offset with
  | nil => rfl
  | cons c cuts ih =>
    simp only [List.flatMap_cons, List.cons_append, locate, Piece.isToken, if_true, Piece.text,
      String.ofList_toList, locate_literals, byteSize_toList, ih, placed]

theorem Cut.name_placed {c : Cut} (h : IsToken c.raw.toList c.name.toList) (start stop : Nat) :
    Placeholder.name ⟨c.raw, start, stop⟩ = c.name :=
  Placeholder.name_of_isToken h

theorem map_name_placed {cuts : List Cut} (h : ∀ c ∈ cuts, IsToken c.raw.toList c.name.toList)
    (offset : Nat) : (placed offset cuts).map Placeholder.name = cuts.map Cut.name := by
  induction cuts generalizing offset with
  | nil => rfl
  | cons c cuts ih =>
    obtain ⟨hc, hcuts⟩ := List.forall_mem_cons.1 h
    rw [placed, List.map_cons, ih hcuts, Cut.name_placed hc, List.map_cons]

theorem map_raw_placed (offset : Nat) (cuts : List Cut) :
    (placed offset cuts).map Placeholder.raw = cuts.map Cut.raw := by
  induction cuts generalizing offset with
  | nil => rfl
  | cons c cuts ih => rw [placed, List.map_cons, ih, List.map_cons]

/-- The text with answers in place of its placeholders; `none` without any answer. -/
def replacement (front : String) (cuts : List Cut) (answers : List (Option String)) :
    Option String :=
  if answers.any Option.isSome then
    some (front ++ String.join (List.zipWith Cut.answered cuts answers))
  else none

theorem fillPieces_append (resolve : String → Option String) (ps qs : List Piece) :
    fillPieces resolve (ps ++ qs) = fillPieces resolve ps ++ fillPieces resolve qs := by
  rw [fillPieces, List.map_append, String.join_append, fillPieces, fillPieces]

theorem fillPieces_literals (resolve : String → Option String) (cs : List Char) :
    fillPieces resolve (literals cs) = String.ofList cs := by
  cases cs with
  | nil => rfl
  | cons c cs => exact (fillPieces_cons resolve _ []).trans String.append_empty

theorem any_resolves_literals (resolve : String → Option String) (cs : List Char) :
    (literals cs).any (Piece.resolves resolve) = false := by
  cases cs <;> rfl

namespace Decomposes

variable {text front : String} {cuts : List Cut}

theorem find_eq (h : Decomposes text front cuts) : find text = placed front.utf8ByteSize cuts := by
  rw [find, h.pieces_eq, locate_literals, locate_cuts, byteSize_toList, Nat.zero_add]

theorem namesIn_eq (h : Decomposes text front cuts) : namesIn text = cuts.map Cut.name := by
  rw [namesIn, h.find_eq, map_name_placed h.tokens]

theorem replace?_eq (h : Decomposes text front cuts) (resolve : String → Option String) :
    replace? resolve text = replacement front cuts (cuts.map fun c ↦ resolve c.name) := by
  have hany : (pieces text.toList).any (Piece.resolves resolve) =
      (cuts.map fun c ↦ resolve c.name).any Option.isSome := by
    rw [h.pieces_eq, List.any_append, any_resolves_literals, Bool.false_or, List.any_map]
    clear h
    induction cuts with
    | nil => rfl
    | cons c cuts ih =>
      simp only [List.flatMap_cons, List.any_append, List.any_cons, any_resolves_literals,
        Bool.or_false, ih, Piece.resolves, String.ofList_toList, Function.comp_apply]
  have hfill : fillPieces resolve (pieces text.toList) =
      front ++ String.join (List.zipWith Cut.answered cuts (cuts.map fun c ↦ resolve c.name)) := by
    rw [h.pieces_eq, fillPieces_append, fillPieces_literals, String.ofList_toList]
    congr 1
    clear h hany
    induction cuts with
    | nil => rfl
    | cons c cuts ih =>
      simp only [List.flatMap_cons, fillPieces_append, fillPieces_cons, fillPieces_literals, ih,
        Piece.fill, String.ofList_toList, List.map_cons, List.zipWith_cons_cons, String.join_cons,
        Cut.answered]
  rw [replace?, replacement]
  simp only [hany]
  split
  · exact congrArg some hfill
  · rfl

end Decomposes

section

variable {m : Type → Type} [Monad m]

/-- Copies a text placeholder by placeholder. What is between two of them is cut out by its byte
offsets, and whoever knows the values is asked for each name; `none` if a slice cannot be taken. -/
def replaceFrom (ask : String → m (Option String)) (text : String) :
    List Placeholder → String → Nat → Bool → m (Option (Option String))
  | [], out, last, replaced => pure ((slice? text last text.utf8ByteSize).map fun rest ↦
      if replaced then some (out ++ rest) else none)
  | p :: ps, out, last, replaced =>
    match slice? text last p.start with
    | none => pure none
    | some between => do
      let answer ← ask p.name
      replaceFrom ask text ps (out ++ between ++ answer.getD p.raw) p.stop
        (replaced || answer.isSome)

def replaceWith (ask : String → m (Option String)) (text : String) : m (Option (Option String)) :=
  match find text with
  | [] => pure (some none)
  | ps => replaceFrom ask text ps "" 0 false

/-- The cut has come to the end of `done`, and what is between it and the next placeholder is
copied next. -/
theorem replaceFrom_placed [LawfulMonad m] (ask : String → m (Option String)) {text : String}
    {cuts : List Cut} (hcuts : ∀ c ∈ cuts, IsToken c.raw.toList c.name.toList)
    (out done between : String) (replaced : Bool)
    (htext : text = done ++ between ++ String.join (cuts.map Cut.text)) :
    replaceFrom ask text (placed (done ++ between).utf8ByteSize cuts) out done.utf8ByteSize
        replaced = (do
      let answers ← cuts.mapM fun c ↦ ask c.name
      pure (some (if replaced || answers.any Option.isSome then
          some (out ++ between ++ String.join (List.zipWith Cut.answered cuts answers))
        else none))) := by
  induction cuts generalizing out done between replaced with
  | nil =>
    have hslice := slice?_append done between ""
    rw [String.append_empty] at hslice
    obtain rfl : text = done ++ between := by simpa using htext
    rw [placed, replaceFrom, hslice]
    simp
  | cons c cuts ih =>
    obtain ⟨hc, hcuts⟩ := List.forall_mem_cons.1 hcuts
    have hslice := slice?_append done between (String.join ((c :: cuts).map Cut.text))
    rw [← htext] at hslice
    have hrest : text = done ++ between ++ c.raw ++ c.behind ++
        String.join (cuts.map Cut.text) := by
      rw [htext]
      simp only [List.map_cons, String.join_cons, Cut.text, String.append_assoc]
    have hnext := fun out replaced ↦
      ih hcuts out (done ++ between ++ c.raw) c.behind replaced hrest
    simp only [String.utf8ByteSize_append] at hnext hslice ⊢
    rw [placed, replaceFrom, hslice]
    simp only [Cut.name_placed hc, hnext, List.mapM_cons, bind_assoc, pure_bind, List.any_cons,
      List.zipWith_cons_cons, String.join_cons, Cut.answered, Bool.or_assoc, String.append_assoc]

theorem Decomposes.replaceWith_eq [LawfulMonad m] {text front : String} {cuts : List Cut}
    (h : Decomposes text front cuts) (ask : String → m (Option String)) :
    replaceWith ask text = (do
      let answers ← cuts.mapM fun c ↦ ask c.name
      pure (some (replacement front cuts answers))) := by
  have htext : text = "" ++ front ++ String.join (cuts.map Cut.text) := by
    rw [String.empty_append]
    exact h.text_eq
  have hscan := replaceFrom_placed ask h.tokens "" "" front false htext
  rw [String.empty_append, ← h.find_eq] at hscan
  rw [replaceWith]
  cases hfind : find text with
  | nil =>
    cases cuts with
    | nil => simp [replacement]
    | cons c cuts =>
      rw [h.find_eq] at hfind
      cases hfind
  | cons p ps =>
    rw [hfind] at hscan
    simpa [replacement] using hscan

theorem replaceWith_pure [LawfulMonad m] (resolve : String → Option String) (text : String) :
    replaceWith (fun name ↦ (pure (resolve name) : m (Option String))) text =
      pure (some (replace? resolve text)) := by
  obtain ⟨front, cuts, h⟩ := exists_decomposes text
  rw [h.replaceWith_eq, h.replace?_eq, List.mapM_pure, pure_bind]

/-- Replacing asks once for each placeholder, in the order in which they stand in the text, and puts
the answers in as they are: what is between the placeholders is copied, a placeholder without an
answer stays as it is written, and without any answer there is no result. No slice fails. -/
theorem replaceWith_one_pass (text : String) :
    (∃ front cuts, Decomposes text front cuts) ∧
      ∀ front cuts, Decomposes text front cuts →
        (find text).map Placeholder.raw = cuts.map Cut.raw ∧
        (∀ resolve, replace? resolve text =
          replacement front cuts (cuts.map fun c ↦ resolve c.name)) ∧
        ∀ {m : Type → Type} [Monad m] [LawfulMonad m] (ask : String → m (Option String)),
          replaceWith ask text = (do
            let answers ← cuts.mapM fun c ↦ ask c.name
            pure (some (replacement front cuts answers))) := by
  refine ⟨exists_decomposes text, ?_⟩
  intro front cuts h
  refine ⟨?_, h.replace?_eq, ?_⟩
  · rw [h.find_eq, map_raw_placed]
  · intro m _ _ ask
    exact h.replaceWith_eq ask

def askNoting (name : String) : StateM (List String) (Option String) := do
  modify (· ++ [name])
  return if name = "a" then some "\x7b\x7bb\x7d\x7d" else none

def bracedText : String :=
  "é\x7b\x7b\x7ba\x7d\x7d\x7b\x7b b\x7d\x7d\x7d ü\x7b\x7ba \x7d\x7d"

theorem replaceWith_one_pass_noting :
    (replaceWith askNoting bracedText).run [] =
      (some (some "é\x7b\x7b\x7bb\x7d\x7d\x7b\x7b b\x7d\x7d\x7d ü\x7b\x7bb\x7d\x7d"),
        ["a", "b", "a"]) := by
  have hcuts : Decomposes bracedText "é\x7b"
      [⟨"\x7b\x7ba\x7d\x7d", "a", ""⟩, ⟨"\x7b\x7b b\x7d\x7d", "b", "\x7d ü"⟩,
        ⟨"\x7b\x7ba \x7d\x7d", "a", ""⟩] := by
    decide +kernel
  obtain ⟨-, hpass⟩ := replaceWith_one_pass bracedText
  obtain ⟨-, -, hask⟩ := hpass _ _ hcuts
  rw [hask askNoting]
  rfl

end

end Template

end LivePage
