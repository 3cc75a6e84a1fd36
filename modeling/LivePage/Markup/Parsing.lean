import LivePage.Markup.Rules.Foreign
import LivePage.Markup.Scan.Progress

namespace LivePage.Markup

def joinLines : List Char → List Char
  | '\r' :: '\n' :: rest => '\n' :: joinLines rest
  | '\r' :: rest => '\n' :: joinLines rest
  | c :: rest => c :: joinLines rest
  | [] => []

/-- The text to be scanned: without a byte order mark in front, with single newlines. -/
def prepare (source : String) : List Char :=
  match joinLines source.toList with
  | '\ufeff' :: rest => rest
  | cs => cs

def lastStart (last : String) : List Token → String
  | [] => last
  | .startTag tag _ _ :: rest => lastStart tag rest
  | _ :: rest => lastStart last rest

def Builder.takeAll (b : Builder) (last : String) (cs : List Char) : Builder :=
  match cs with
  | [] => b.take .finish
  | c :: rest =>
    have := Scan.length_step_le b.reading b.inForeign last c rest
    let s := Scan.step b.reading b.inForeign last c rest
    (s.tokens.foldl Builder.take { b with reading := s.reading }).takeAll (lastStart last s.tokens)
      s.rest
termination_by cs.length
decreasing_by simp only [List.length_cons]; omega

def readPage (source : String) : Nodes Unit :=
  let b := (Builder.initial none).takeAll "" (prepare source)
  match b.tree.find? Builder.documentId with
  | some (_, below) => below.copied
  | none => .nil

def readingIn (tag : String) : Reading :=
  if ["title", "textarea"].contains tag then .references
  else if ["style", "xmp", "iframe", "noembed", "noframes", "noscript"].contains tag then .raw
  else if tag = "script" then .script
  else if tag = "plaintext" then .plain
  else .markup

def fragmentStart (context : String) : Builder :=
  let b := Builder.initial (some context)
  let b := { b with
    reading := readingIn context
    templates := if context = "template" then [.inTemplate] else [] }
  (b.createRoot []).resetPhase

/-- Reads a fragment as the content of an element with the tag `context`. -/
def readFragment (context source : String) : Nodes Unit :=
  let start := fragmentStart context
  let b := start.takeAll "" (prepare source)
  match b.tree.find? start.rootId with
  | some (_, below) => below.copied
  | none => .nil

end LivePage.Markup
