import LivePage.Proofs.Template.Tokens
import Mathlib.Data.String.Basic

namespace LivePage

namespace Template

open Text

theorem IsToken.opens {raw name : List Char} (h : IsToken raw name) :
    ∃ tail, raw = '\x7b' :: '\x7b' :: tail ∧ tail ≠ [] ∧ '\x7b' ∉ tail := by
  obtain ⟨-, hname, front, back, hfront, hback, rfl⟩ := h
  have hblank : ∀ {side : List Char}, AtMostOneBlank side → '\x7b' ∉ side := by
    rintro side (rfl | ⟨b, hb, rfl⟩) hmem
    · cases hmem
    · rw [← List.mem_singleton.1 hmem] at hb
      exact absurd hb (by decide)
  refine ⟨_, rfl, by simp, ?_⟩
  simp only [List.mem_append, not_or]
  exact ⟨hblank hfront, fun hmem ↦ absurd (hname _ hmem) (by decide), hblank hback, by decide⟩

/-- A placeholder that starts later than another starts behind its end. -/
theorem IsToken.disjoint {raw name raw' name' x rest rest' : List Char} (h : IsToken raw name)
    (h' : IsToken raw' name') (hx : x ≠ []) (heq : x ++ (raw ++ rest) = raw' ++ rest') :
    ∃ y, x = raw' ++ y := by
  obtain ⟨tail, rfl, -, -⟩ := h.opens
  obtain ⟨tail', rfl, hne, hopen⟩ := h'.opens
  obtain ⟨c, x, rfl⟩ := List.exists_cons_of_ne_nil hx
  rcases List.append_eq_append_iff.1 heq with ⟨common, hraw', hraw⟩ | ⟨y, hy, -⟩
  · cases common with
    | nil =>
      rw [List.append_nil] at hraw'
      exact ⟨[], by rw [List.append_nil, hraw']⟩
    | cons d common =>
      exfalso
      obtain ⟨hd, hsecond⟩ := List.cons.inj hraw
      obtain ⟨-, htail'⟩ := List.cons.inj hraw'
      cases x with
      | cons e x =>
        apply hopen
        rw [(List.cons.inj htail').2, hd]
        exact List.mem_append_right _ List.mem_cons_self
      | nil =>
        obtain ⟨-, rfl⟩ := List.cons.inj htail'
        obtain ⟨e, tail', rfl⟩ := List.exists_cons_of_ne_nil hne
        apply hopen
        exact List.mem_cons.2 (.inl (List.cons.inj hsecond).1)
  · exact ⟨y, hy⟩

theorem pieces_cons_of_none {c : Char} {rest : List Char}
    (h : takePlaceholder? (c :: rest) = none) :
    pieces (c :: rest) = consLiteral c (pieces rest) := by
  rw [pieces]
  split
  · next heq =>
    rw [h] at heq
    cases heq
  · rfl

theorem consLiteral_append_token (c : Char) (ps qs : List Piece) (raw name : List Char) :
    consLiteral c (ps ++ .token raw name :: qs) = consLiteral c ps ++ .token raw name :: qs := by
  cases ps with
  | nil => rfl
  | cons p ps => cases p <;> rfl

/-- A text is cut at every placeholder in it. -/
theorem pieces_append_token {raw name : List Char} (h : IsToken raw name)
    (before after : List Char) :
    pieces (before ++ (raw ++ after)) = pieces before ++ .token raw name :: pieces after := by
  fun_induction pieces before with
  | case1 cs name' rest htake _ ih =>
    obtain ⟨raw', htoken, rfl⟩ := isToken_of_takePlaceholder? htake
    rw [List.append_assoc, pieces_append_of_isToken htoken, ih, List.length_append,
      Nat.add_sub_cancel, List.take_left, List.cons_append]
  | case2 => exact pieces_append_of_isToken h after
  | case3 c rest htake ih =>
    have hnone : takePlaceholder? (c :: (rest ++ (raw ++ after))) = none := by
      by_contra hsome
      obtain ⟨⟨name', rest'⟩, hfound⟩ := Option.ne_none_iff_exists'.1 hsome
      obtain ⟨raw', htoken, heq⟩ := isToken_of_takePlaceholder? hfound
      obtain ⟨y, hy⟩ := h.disjoint htoken (List.cons_ne_nil c rest) heq
      rw [hy, takePlaceholder?_append htoken] at htake
      cases htake
    rw [List.cons_append, pieces_cons_of_none hnone, ih, consLiteral_append_token]

theorem byteSize_toList (s : String) : byteSize s.toList = s.utf8ByteSize := by
  have hlen : ∀ cs : List Char, byteSize cs = String.utf8Len cs := by
    intro cs
    induction cs with
    | nil => rfl
    | cons c cs ih => rw [byteSize, ih, String.utf8Len_cons, Nat.add_comm]
  rw [hlen, ← String.utf8ByteSize_ofList, String.ofList_toList]

theorem byteSize_eq (cs : List Char) : byteSize cs = (String.ofList cs).utf8ByteSize := by
  rw [← byteSize_toList, String.toList_ofList]

/-- The text between two byte offsets, if they are in order and neither is inside of a character or
behind the end. -/
def slice? (text : String) (start stop : Nat) : Option String :=
  if start ≤ stop ∧ String.Pos.Raw.IsValid text ⟨start⟩ ∧ String.Pos.Raw.IsValid text ⟨stop⟩ then
    some (String.Pos.Raw.extract text ⟨start⟩ ⟨stop⟩)
  else none

theorem slice?_append (before middle after : String) :
    slice? (before ++ middle ++ after) before.utf8ByteSize (before ++ middle).utf8ByteSize =
      some middle := by
  have hstart : String.Pos.Raw.IsValid (before ++ middle ++ after) ⟨before.utf8ByteSize⟩ :=
    String.Pos.Raw.isValid_iff_exists_append.2 ⟨before, middle ++ after, String.append_assoc, rfl⟩
  have hstop : String.Pos.Raw.IsValid (before ++ middle ++ after)
      ⟨(before ++ middle).utf8ByteSize⟩ :=
    String.Pos.Raw.isValid_iff_exists_append.2 ⟨before ++ middle, after, rfl, rfl⟩
  have hle : before.utf8ByteSize ≤ (before ++ middle).utf8ByteSize := by
    rw [String.utf8ByteSize_append]
    omega
  have hextract := String.extract_of_valid before.toList middle.toList after.toList
  simp only [String.ofList_append, String.ofList_toList, ← String.utf8ByteSize_ofList] at hextract
  rw [slice?, if_pos ⟨hle, hstart, hstop⟩, String.utf8ByteSize_append, hextract]

theorem Placeholder.name_of_isToken {p : Placeholder} {name : String}
    (h : IsToken p.raw.toList name.toList) : p.name = name := by
  rw [Placeholder.name, clean, cleanChars_of_isToken h, String.ofList_toList]

/-- A text has a placeholder with a name between two byte offsets. -/
def Placeholder.StandsIn (p : Placeholder) (name text : String) : Prop :=
  ∃ before after : String, text = before ++ p.raw ++ after ∧ IsToken p.raw.toList name.toList ∧
    p.start = before.utf8ByteSize ∧ p.stop = (before ++ p.raw).utf8ByteSize

namespace Placeholder.StandsIn

variable {p : Placeholder} {name text : String}

theorem name_eq (h : p.StandsIn name text) : p.name = name := by
  obtain ⟨-, -, -, htoken, -, -⟩ := h
  exact name_of_isToken htoken

theorem slice?_eq (h : p.StandsIn name text) : slice? text p.start p.stop = some p.raw := by
  obtain ⟨before, after, rfl, -, hstart, hstop⟩ := h
  rw [hstart, hstop, slice?_append]

theorem start_lt_stop (h : p.StandsIn name text) : p.start < p.stop := by
  obtain ⟨before, -, -, htoken, hstart, hstop⟩ := h
  obtain ⟨tail, hraw, -, -⟩ := htoken.opens
  have hpos : 0 < p.raw.utf8ByteSize := by
    rw [← byteSize_toList, hraw, byteSize]
    exact Nat.add_pos_left (Char.utf8Size_pos _) _
  rw [hstart, hstop, String.utf8ByteSize_append]
  omega

end Placeholder.StandsIn

theorem byteSize_append (cs ds : List Char) : byteSize (cs ++ ds) = byteSize cs + byteSize ds := by
  simp only [byteSize_eq, String.ofList_append, String.utf8ByteSize_append]

theorem locate_append (offset : Nat) (ps qs : List Piece) :
    locate offset (ps ++ qs) =
      locate offset ps ++ locate (offset + byteSize (ps.flatMap Piece.text)) qs := by
  induction ps generalizing offset with
  | nil => rfl
  | cons p ps ih =>
    simp only [List.cons_append, locate, ih, List.flatMap_cons, byteSize_append, Nat.add_assoc]
    split <;> rfl

theorem exists_of_mem_locate {offset : Nat} {ps : List Piece} {p : Placeholder}
    (h : p ∈ locate offset ps) :
    ∃ pre raw name post, ps = pre ++ .token raw name :: post ∧
      p = ⟨String.ofList raw, offset + byteSize (pre.flatMap Piece.text),
        offset + byteSize (pre.flatMap Piece.text) + byteSize raw⟩ := by
  induction ps generalizing offset with
  | nil => cases h
  | cons q ps ih =>
    have hlater : p ∈ locate (offset + byteSize q.text) ps →
        ∃ pre raw name post, q :: ps = pre ++ .token raw name :: post ∧
          p = ⟨String.ofList raw, offset + byteSize (pre.flatMap Piece.text),
            offset + byteSize (pre.flatMap Piece.text) + byteSize raw⟩ := by
      intro hmem
      obtain ⟨pre, raw, name, post, rfl, rfl⟩ := ih hmem
      refine ⟨q :: pre, raw, name, post, rfl, ?_⟩
      rw [List.flatMap_cons, byteSize_append, ← Nat.add_assoc]
    cases q with
    | literal cs => exact hlater h
    | token raw name =>
      rcases List.mem_cons.1 h with rfl | h
      · exact ⟨[], raw, name, ps, rfl, rfl⟩
      · exact hlater h

theorem standsIn_of_pieces {text : String} {pre post : List Piece} {raw name : List Char}
    (h : pieces text.toList = pre ++ .token raw name :: post) :
    Placeholder.StandsIn ⟨String.ofList raw, byteSize (pre.flatMap Piece.text),
      byteSize (pre.flatMap Piece.text) + byteSize raw⟩ (String.ofList name) text := by
  have hmem : .token raw name ∈ pieces text.toList := by
    rw [h]
    exact List.mem_append_right _ List.mem_cons_self
  have htoken : IsToken raw name := isToken_of_mem_pieces hmem
  have htext := flatMap_text_pieces text.toList
  rw [h, List.flatMap_append, List.flatMap_cons] at htext
  refine ⟨String.ofList (pre.flatMap Piece.text), String.ofList (post.flatMap Piece.text), ?_, ?_,
    ?_, ?_⟩
  · rw [String.append_assoc, ← String.ofList_append, ← String.ofList_append,
      ← String.ofList_toList (s := text), ← htext]
    rfl
  · simpa only [String.toList_ofList] using htoken
  · rw [byteSize_eq]
  · rw [String.utf8ByteSize_append, byteSize_eq, byteSize_eq]

theorem mem_find_iff {text : String} {p : Placeholder} :
    p ∈ find text ↔ ∃ name, p.StandsIn name text := by
  constructor
  · intro h
    obtain ⟨pre, raw, name, post, hpieces, rfl⟩ := exists_of_mem_locate h
    rw [Nat.zero_add]
    exact ⟨_, standsIn_of_pieces hpieces⟩
  · rintro ⟨name, before, after, rfl, htoken, hstart, hstop⟩
    rw [find, String.append_assoc, String.toList_append, String.toList_append,
      pieces_append_token htoken, locate_append, flatMap_text_pieces]
    apply List.mem_append_right
    have hp : p = ⟨p.raw, before.utf8ByteSize, before.utf8ByteSize + p.raw.utf8ByteSize⟩ := by
      rw [← String.utf8ByteSize_append, ← hstart, ← hstop]
    simp only [locate, Piece.isToken, if_true, Piece.text, String.ofList_toList, byteSize_toList,
      Nat.zero_add, ← hp]
    exact List.mem_cons_self

theorem le_start_of_mem_locate {offset : Nat} {ps : List Piece} {p : Placeholder}
    (h : p ∈ locate offset ps) : offset ≤ p.start := by
  obtain ⟨pre, raw, name, post, -, rfl⟩ := exists_of_mem_locate h
  exact Nat.le_add_right _ _

theorem pairwise_locate (offset : Nat) (ps : List Piece) :
    (locate offset ps).Pairwise fun p q ↦ p.stop ≤ q.start := by
  induction ps generalizing offset with
  | nil => exact .nil
  | cons p ps ih =>
    rw [locate]
    split
    · exact List.pairwise_cons.2 ⟨fun q hq ↦ le_start_of_mem_locate hq, ih _⟩
    · exact ih _

theorem hasPlaceholder_iff (text : String) : hasPlaceholder text = true ↔ find text ≠ [] := by
  have hlocate : ∀ (offset : Nat) (ps : List Piece),
      ps.any Piece.isToken = true ↔ locate offset ps ≠ [] := by
    intro offset ps
    induction ps generalizing offset with
    | nil => simp [locate]
    | cons p ps ih =>
      cases p with
      | literal cs => exact ih _
      | token raw name => simp [locate, Piece.isToken]
  exact hlocate 0 (pieces text.toList)

/-- Finding finds every placeholder in a text and nothing else, each once and in the order in which
they stand there. They are apart from each other, each is the text between its two ends, and its
name is the name between its braces. -/
theorem find_all_once (text : String) :
    (∀ p, p ∈ find text ↔ ∃ name, p.StandsIn name text) ∧
      (find text).Pairwise (fun p q ↦ p.start < q.start ∧ p.stop ≤ q.start) ∧
      (∀ p ∈ find text, slice? text p.start p.stop = some p.raw ∧ p.start < p.stop) ∧
      (∀ (p : Placeholder) (name : String), p.StandsIn name text → p.name = name) ∧
      (hasPlaceholder text = true ↔ find text ≠ []) := by
  refine ⟨fun p ↦ mem_find_iff, ?_, ?_, fun p name h ↦ h.name_eq, hasPlaceholder_iff text⟩
  · refine (pairwise_locate 0 _).imp_of_mem ?_
    intro p q hp hq hle
    obtain ⟨name, hstands⟩ := mem_find_iff.1 hp
    exact ⟨hstands.start_lt_stop.trans_le hle, hle⟩
  · intro p hp
    obtain ⟨name, hstands⟩ := mem_find_iff.1 hp
    exact ⟨hstands.slice?_eq, hstands.start_lt_stop⟩

theorem find_all_once_adjacent :
    find "é\x7b\x7b\x7ba\x7d\x7d\x7b\x7b\u00a0b \x7d\x7d\x7b\x7bc  \x7d\x7d" =
        [⟨"\x7b\x7ba\x7d\x7d", 3, 8⟩, ⟨"\x7b\x7b\u00a0b \x7d\x7d", 8, 16⟩] ∧
      ∀ (p : Placeholder) (name : String),
        p.StandsIn name "é\x7b\x7b\x7ba\x7d\x7d\x7b\x7b\u00a0b \x7d\x7d\x7b\x7bc  \x7d\x7d" →
          name = "a" ∨ name = "b" := by
  have hfind : find "é\x7b\x7b\x7ba\x7d\x7d\x7b\x7b\u00a0b \x7d\x7d\x7b\x7bc  \x7d\x7d" =
      [⟨"\x7b\x7ba\x7d\x7d", 3, 8⟩, ⟨"\x7b\x7b\u00a0b \x7d\x7d", 8, 16⟩] := by
    decide +kernel
  obtain ⟨hmem, -, -, hname, -⟩ :=
    find_all_once "é\x7b\x7b\x7ba\x7d\x7d\x7b\x7b\u00a0b \x7d\x7d\x7b\x7bc  \x7d\x7d"
  refine ⟨hfind, ?_⟩
  intro p name hstands
  have hp := (hmem p).2 ⟨name, hstands⟩
  rw [hfind, List.mem_cons, List.mem_singleton] at hp
  rw [← hname p name hstands]
  rcases hp with rfl | rfl
  · left
    decide +kernel
  · right
    decide +kernel

end Template

end LivePage
