import LivePage.Text.Blank
import LivePage.Text.Letters

namespace LivePage.Markup.Doctype

open Text

/-- What follows the keyword `DOCTYPE`, in parts. `forced` if it is broken. -/
structure Parts where
  name : List Char := []
  publicId : Option (List Char) := none
  systemId : Option (List Char) := none
  forced : Bool := false

def skipBlanks (cs : List Char) : List Char :=
  cs.dropWhile isMarkupBlank

def dropKeyword? (keyword : List Char) (cs : List Char) : Option (List Char) :=
  if (cs.take keyword.length).map lowerChar = keyword then some (cs.drop keyword.length) else none

def readQuoted? : List Char → Option (List Char × List Char × Bool)
  | c :: rest =>
    if c = '"' ∨ c = '\'' then
      let tail := rest.dropWhile (· ≠ c)
      some (rest.takeWhile (· ≠ c), tail.drop 1, tail = [])
    else none
  | [] => none

/-- The parts of a document type; `cut` if the text ended before its closing bracket. -/
def parts (cut : Bool) (cs : List Char) : Parts :=
  let cs := skipBlanks cs
  let name := (cs.takeWhile (!isMarkupBlank ·)).map lowerChar
  let rest := skipBlanks (cs.dropWhile (!isMarkupBlank ·))
  if name = [] then { forced := true }
  else if rest = [] then { name, forced := cut }
  else match dropKeyword? ['p', 'u', 'b', 'l', 'i', 'c'] rest with
    | some rest => match readQuoted? (skipBlanks rest) with
      | none => { name, forced := true }
      | some (publicId, rest, broken) =>
        let rest := skipBlanks rest
        match readQuoted? rest with
        | none => { name, publicId := some publicId, forced := broken || rest ≠ [] || cut }
        | some (systemId, rest, broken) =>
          { name, publicId := some publicId, systemId := some systemId
            forced := broken || (cut && skipBlanks rest = []) }
    | none => match dropKeyword? ['s', 'y', 's', 't', 'e', 'm'] rest with
      | some rest => match readQuoted? (skipBlanks rest) with
        | none => { name, forced := true }
        | some (systemId, rest, broken) =>
          { name, systemId := some systemId, forced := broken || (cut && skipBlanks rest = []) }
      | none => { name, forced := true }

/-- The owners of old versions of the language, and the titles of those versions. -/
def oldTitles : List (String × List String) :=
  [("+//silmaril", ["html pro v0r11 19970101"]),
    ("-//advasoft ltd", ["html 3.0 aswedit + extensions"]),
    ("-//as", ["html 3.0 aswedit + extensions"]),
    ("-//ietf", ["html 2.0 level 1", "html 2.0 level 2", "html 2.0 strict level 1",
      "html 2.0 strict level 2", "html 2.0 strict", "html 2.0", "html 2.1e", "html 3.0",
      "html 3.2 final", "html 3.2", "html 3", "html level 0", "html level 1", "html level 2",
      "html level 3", "html strict level 0", "html strict level 1", "html strict level 2",
      "html strict level 3", "html strict", "html"]),
    ("-//metrius", ["metrius presentational"]),
    ("-//microsoft", ["internet explorer 2.0 html strict", "internet explorer 2.0 html",
      "internet explorer 2.0 tables", "internet explorer 3.0 html strict",
      "internet explorer 3.0 html", "internet explorer 3.0 tables"]),
    ("-//netscape comm. corp.", ["html", "strict html"]),
    ("-//o\x27reilly and associates", ["html 2.0", "html extended 1.0",
      "html extended relaxed 1.0"]),
    ("-//softquad software", ["hotmetal pro 6.0::19990601::extensions to html 4.0"]),
    ("-//softquad", ["hotmetal pro 4.0::19971010::extensions to html 4.0"]),
    ("-//spyglass", ["html 2.0 extended"]),
    ("-//sq", ["html 2.0 hotmetal + extensions"]),
    ("-//sun microsystems corp.", ["hotjava html", "hotjava strict html"]),
    ("-//w3c", ["html 3 1995-03-24", "html 3.2 draft", "html 3.2 final", "html 3.2",
      "html 3.2s draft", "html 4.0 frameset", "html 4.0 transitional",
      "html experimental 19960712", "html experimental 970421", "w3 html"]),
    ("-//w3o", ["w3 html 3.0"]),
    ("-//webtechs", ["mozilla html 2.0", "mozilla html"])]

/-- Titles that are old only without a system identifier. -/
def mixedTitles : List (String × List String) :=
  [("-//w3c", ["html 4.01 frameset", "html 4.01 transitional"])]

def oldPublicIds : List String :=
  ["-//w3o//dtd w3 html strict 3.0//en//", "-/w3c/dtd html 4.0 transitional/en", "html"]

def oldSystemId : String :=
  String.intercalate "/" ["http:", "", "www.ibm.com", "data", "dtd", "v11",
    "ibmxhtml1-transitional.dtd"]

def isTitled (titles : List (String × List String)) (publicId : List Char) : Bool :=
  titles.any fun (owner, names) ↦ names.any fun name ↦
    (owner ++ "//dtd " ++ name ++ "//").toList.isPrefixOf publicId

def isOldVersion (publicId systemId : Option (List Char)) : Bool :=
  systemId = some oldSystemId.toList || publicId.any fun id ↦
    oldPublicIds.contains (String.ofList id) || isTitled oldTitles id ||
      (systemId.isNone && isTitled mixedTitles id)

/-- Whether the document type asks for the layout rules of old pages. -/
def isLegacy (cut : Bool) (cs : List Char) : Bool :=
  let p := parts cut cs
  p.forced || p.name ≠ ['h', 't', 'm', 'l'] ||
    isOldVersion (p.publicId.map (·.map lowerChar)) (p.systemId.map (·.map lowerChar))

end LivePage.Markup.Doctype
