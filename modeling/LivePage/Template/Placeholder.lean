import LivePage.Text.Blank
import LivePage.Text.Letters

namespace LivePage.Template

open Text

def dropBlank : List Char → List Char
  | [] => []
  | c :: rest => if isBlank c then rest else c :: rest

/-- What is after the placeholder at the front of the text, if there is one, and its name. -/
def takePlaceholder? : List Char → Option (List Char × List Char)
  | '\x7b' :: '\x7b' :: rest =>
    let rest := dropBlank rest
    let name := rest.takeWhile isNameChar
    if name = [] then none
    else match dropBlank (rest.dropWhile isNameChar) with
      | '\x7d' :: '\x7d' :: rest => some (name, rest)
      | _ => none
  | _ => none

/-- A part of a text: characters outside of placeholders, or a placeholder as written. -/
inductive Piece
  | literal (cs : List Char)
  | token (raw name : List Char)
deriving DecidableEq, Repr

namespace Piece

def text : Piece → List Char
  | .literal cs => cs
  | .token raw _ => raw

def isToken : Piece → Bool
  | .literal _ => false
  | .token .. => true

end Piece

def consLiteral (c : Char) : List Piece → List Piece
  | .literal cs :: pieces => .literal (c :: cs) :: pieces
  | pieces => .literal [c] :: pieces

theorem length_dropBlank_le (cs : List Char) : (dropBlank cs).length ≤ cs.length := by
  cases cs with
  | nil => simp [dropBlank]
  | cons c rest => simp only [dropBlank]; split <;> simp

theorem takePlaceholder?_length {cs name rest : List Char}
    (h : takePlaceholder? cs = some (name, rest)) : rest.length < cs.length := by
  unfold takePlaceholder? at h
  split at h
  · next tail =>
    dsimp only at h
    split at h
    · cases h
    · split at h
      · next after heq =>
        simp only [Option.some.injEq, Prod.mk.injEq] at h
        obtain ⟨-, rfl⟩ := h
        have h₁ := length_dropBlank_le tail
        have h₂ := (List.dropWhile_suffix isNameChar (l := dropBlank tail)).length_le
        have h₃ := length_dropBlank_le ((dropBlank tail).dropWhile isNameChar)
        rw [heq] at h₃
        simp only [List.length_cons] at h₃ ⊢
        omega
      · cases h
  · cases h

def pieces (cs : List Char) : List Piece :=
  match h : takePlaceholder? cs with
  | some (name, rest) =>
    have := takePlaceholder?_length h
    .token (cs.take (cs.length - rest.length)) name :: pieces rest
  | none =>
    match cs with
    | [] => []
    | c :: rest => consLiteral c (pieces rest)
termination_by cs.length

/-- A placeholder found in a text, with the byte offsets of its two ends. -/
structure Placeholder where
  raw : String
  start : Nat
  stop : Nat
deriving DecidableEq, Repr

def cleanChars (cs : List Char) : List Char :=
  let inner := match cs with
    | '\x7b' :: '\x7b' :: rest => rest
    | cs => cs
  let inner := match inner.reverse with
    | '\x7d' :: '\x7d' :: rest => rest.reverse
    | _ => inner
  trimChars inner

def clean (raw : String) : String :=
  String.ofList (cleanChars raw.toList)

def Placeholder.name (p : Placeholder) : String :=
  clean p.raw

def locate (offset : Nat) : List Piece → List Placeholder
  | [] => []
  | p :: rest =>
    let stop := offset + byteSize p.text
    if p.isToken then ⟨String.ofList p.text, offset, stop⟩ :: locate stop rest
    else locate stop rest

def find (text : String) : List Placeholder :=
  locate 0 (pieces text.toList)

def namesIn (text : String) : List String :=
  (find text).map Placeholder.name

def hasPlaceholder (text : String) : Bool :=
  (pieces text.toList).any Piece.isToken

def Piece.fill (resolve : String → Option String) : Piece → String
  | .literal cs => String.ofList cs
  | .token raw name => (resolve (String.ofList name)).getD (String.ofList raw)

def Piece.resolves (resolve : String → Option String) : Piece → Bool
  | .literal _ => false
  | .token _ name => (resolve (String.ofList name)).isSome

/-- Replaces the placeholders that have a value and keeps the others; `none` if none has one. What
is put in is not looked at again. -/
def replace? (resolve : String → Option String) (text : String) : Option String :=
  let ps := pieces text.toList
  if ps.any (Piece.resolves resolve) then some (String.join (ps.map (Piece.fill resolve))) else none

end LivePage.Template
