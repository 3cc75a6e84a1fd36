import LivePage.Markup.Scan

namespace LivePage.Markup.Scan

open Text

theorem suffix_of_cons {c : Char} {cs ds : List Char} (h : c :: cs <:+ ds) : cs <:+ ds :=
  (List.suffix_cons c cs).trans h

theorem suffix_of_dropWhile {p : Char → Bool} {cs ds : List Char} (h : cs.dropWhile p = ds) :
    ds <:+ cs :=
  h ▸ List.dropWhile_suffix p

theorem takeValue?_suffix {cs v rest : List Char} (h : takeValue? cs = some (v, rest)) :
    rest <:+ cs := by
  unfold takeValue? at h
  split at h
  · cases h
  · next c tail hstart =>
    have hcs := suffix_of_dropWhile hstart
    split at h
    · split at h
      · cases h
      · next d after hafter =>
        obtain ⟨-, rfl⟩ := Prod.mk.inj (Option.some.inj h)
        exact (suffix_of_cons (suffix_of_dropWhile hafter)).trans (suffix_of_cons hcs)
    · split at h
      · obtain ⟨-, rfl⟩ := Prod.mk.inj (Option.some.inj h)
        exact hcs
      · obtain ⟨-, rfl⟩ := Prod.mk.inj (Option.some.inj h)
        exact (List.dropWhile_suffix _).trans hcs

theorem takeAttributeName_suffix (cs : List Char) : (takeAttributeName cs).2 <:+ cs := by
  cases cs with
  | nil => exact List.suffix_rfl
  | cons c rest => exact (List.dropWhile_suffix _).trans (List.suffix_cons c rest)

theorem takeAttribute?_suffix {cs rest : List Char} {a : Attribute}
    (h : takeAttribute? cs = some (a, rest)) : rest <:+ cs := by
  have hname := takeAttributeName_suffix cs
  unfold takeAttribute? at h
  dsimp only at h
  split at h
  · next tail hequals =>
    obtain ⟨⟨value, after⟩, hvalue, heq⟩ := Option.map_eq_some_iff.1 h
    obtain ⟨-, rfl⟩ := Prod.mk.inj heq
    exact (takeValue?_suffix hvalue).trans
      ((suffix_of_cons (suffix_of_dropWhile hequals)).trans hname)
  · obtain ⟨-, rfl⟩ := Prod.mk.inj (Option.some.inj h)
    exact hname

theorem takeAttributes?_suffix {fuel : Nat} {cs rest : List Char} {as : List Attribute} {b : Bool}
    (h : takeAttributes? fuel cs = some (as, b, rest)) : rest <:+ cs := by
  induction fuel generalizing cs as b rest with
  | zero => cases h
  | succ fuel ih =>
    unfold takeAttributes? at h
    split at h
    · cases h
    · next heq =>
      obtain ⟨-, -, rfl⟩ := Option.some.inj h
      exact suffix_of_cons (suffix_of_dropWhile heq)
    · next heq =>
      obtain ⟨-, -, rfl⟩ := Option.some.inj h
      exact suffix_of_cons (suffix_of_cons (suffix_of_dropWhile heq))
    · next heq => exact (ih h).trans (suffix_of_cons (suffix_of_dropWhile heq))
    · obtain ⟨⟨a, tail⟩, ha, h⟩ := Option.bind_eq_some_iff.1 h
      obtain ⟨⟨bs, closing, after⟩, hbs, h⟩ := Option.bind_eq_some_iff.1 h
      obtain ⟨-, -, rfl⟩ := Option.some.inj h
      exact (ih hbs).trans ((takeAttribute?_suffix ha).trans (List.dropWhile_suffix _))

theorem tag_suffix (isEnd : Bool) (cs : List Char) : (tag isEnd cs).rest <:+ cs := by
  unfold tag
  dsimp only
  split
  · exact List.nil_suffix
  · next h => exact (takeAttributes?_suffix h).trans (List.dropWhile_suffix _)

theorem takeComment_suffix (e : CommentEnd) (cs : List Char) : (takeComment e cs).2 <:+ cs := by
  fun_induction takeComment e cs <;> grind [List.IsSuffix.trans, List.suffix_cons]

theorem comment_suffix (cs : List Char) : (comment cs).rest <:+ cs := by
  unfold comment
  split
  · exact List.suffix_cons _ _
  · exact List.suffix_append ['-', '>'] _
  · exact takeComment_suffix .none _

theorem brokenComment_suffix (cs : List Char) : (brokenComment cs).rest <:+ cs :=
  (List.drop_suffix 1 _).trans (List.dropWhile_suffix _)

theorem doctype_suffix (cs : List Char) : (doctype cs).rest <:+ cs :=
  (List.drop_suffix 1 _).trans (List.dropWhile_suffix _)

theorem takeSection_suffix (cs : List Char) : (takeSection cs).2 <:+ cs := by
  fun_induction takeSection cs with
  | case1 rest => exact List.suffix_append [']', ']', '>'] rest
  | case2 => exact List.suffix_rfl
  | case3 c rest _ s tail heq ih =>
    rw [heq] at ih
    exact ih.trans (List.suffix_cons c rest)

theorem declaration_suffix (foreign : Bool) (cs : List Char) :
    (declaration foreign cs).rest <:+ cs := by
  unfold declaration
  split
  · exact (comment_suffix _).trans (List.suffix_append ['-', '-'] _)
  · split
    · next h =>
      unfold Doctype.dropKeyword? at h
      split at h
      · obtain rfl := Option.some.inj h
        exact (doctype_suffix _).trans (List.drop_suffix _ _)
      · cases h
    · split
      · exact (takeSection_suffix _).trans (List.drop_suffix 7 _)
      · exact brokenComment_suffix _

theorem markup_suffix (foreign : Bool) (c : Char) (rest : List Char) :
    (markup foreign c rest).rest <:+ rest := by
  unfold markup
  split
  · split
    · next h => exact readReference?_suffix h
    · exact List.suffix_rfl
  · split
    · split
      · exact (declaration_suffix _ _).trans (List.suffix_cons _ _)
      · exact brokenComment_suffix _
      · exact List.suffix_append ['/', '>'] _
      · split
        · exact (tag_suffix _ _).trans (List.suffix_cons _ _)
        · exact (brokenComment_suffix _).trans (List.suffix_cons _ _)
      · split
        · exact tag_suffix _ _
        · exact List.suffix_rfl
      · exact List.suffix_rfl
    · exact List.suffix_rfl

theorem tag_drop_suffix (cs : List Char) : (tag true (cs.drop 1)).rest <:+ cs :=
  (tag_suffix true _).trans (List.drop_suffix 1 cs)

theorem content_suffix (references : Bool) (reading : Reading) (last : String) (c : Char)
    (rest : List Char) : (content references reading last c rest).rest <:+ rest := by
  unfold content
  split
  · exact tag_drop_suffix rest
  · split
    · split
      · next h => exact readReference?_suffix h
      · exact List.suffix_rfl
    · exact List.suffix_rfl

theorem scriptWord_suffix (opening : List Char) (outside inside : Reading) (cs : List Char) :
    (scriptWord opening outside inside cs).rest <:+ cs := by
  unfold scriptWord
  dsimp only
  split
  · exact List.nil_suffix
  · next h =>
    split
    · exact suffix_of_cons (suffix_of_dropWhile h)
    · exact suffix_of_dropWhile h

theorem script_suffix (last : String) (c : Char) (rest : List Char) :
    (script last c rest).rest <:+ rest := by
  unfold script
  split
  · split
    · exact tag_drop_suffix rest
    · split
      · exact List.suffix_append ['!', '-', '-'] _
      · exact List.suffix_rfl
  · exact List.suffix_rfl

theorem escapedScript_suffix (hyphens : Nat) (last : String) (c : Char) (rest : List Char) :
    (escapedScript hyphens last c rest).rest <:+ rest := by
  unfold escapedScript
  split
  · exact List.suffix_rfl
  · split
    · split
      · exact tag_drop_suffix rest
      · split
        · split
          · exact scriptWord_suffix _ _ _ _
          · exact List.suffix_rfl
        · exact List.suffix_rfl
    · split <;> exact List.suffix_rfl

theorem nestedScript_suffix (hyphens : Nat) (c : Char) (rest : List Char) :
    (nestedScript hyphens c rest).rest <:+ rest := by
  unfold nestedScript
  split
  · exact List.suffix_rfl
  · split
    · split
      · exact (scriptWord_suffix _ _ _ _).trans (List.suffix_cons _ _)
      · exact List.suffix_rfl
    · split <;> exact List.suffix_rfl

theorem step_suffix (reading : Reading) (foreign : Bool) (last : String) (c : Char)
    (rest : List Char) : (step reading foreign last c rest).rest <:+ rest := by
  cases reading with
  | markup => exact markup_suffix foreign c rest
  | references | raw => exact content_suffix ..
  | script => exact script_suffix last c rest
  | escaped n => exact escapedScript_suffix n last c rest
  | nested n => exact nestedScript_suffix n c rest
  | plain => exact List.suffix_rfl

theorem length_step_le (reading : Reading) (foreign : Bool) (last : String) (c : Char)
    (rest : List Char) : (step reading foreign last c rest).rest.length ≤ rest.length :=
  (step_suffix reading foreign last c rest).length_le

end LivePage.Markup.Scan
