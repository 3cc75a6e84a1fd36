import LivePage.Data.Basic

namespace LivePage.Json

def numberStyle : Number.Style := ⟨some (-5, 16), ".0", "+", "null", "null", .even⟩

def writeNumber : Number → String
  | .infinite _ => "null"
  | n => numberStyle.write n

def writeChar (c : Char) : List Char :=
  if c = '"' then ['\\', '"'] else if c = '\\' then ['\\', '\\'] else if c = '\n' then ['\\', 'n']
  else if c = '\r' then ['\\', 'r'] else if c = '\t' then ['\\', 't']
  else if c = '\x08' then ['\\', 'b'] else if c = '\x0c' then ['\\', 'f']
  else if c.toNat < 0x20 then '\\' :: 'u' :: (Text.hex 4 c.toNat).toList
  else [c]

def writeString (s : String) : String :=
  String.ofList ('"' :: s.toList.flatMap writeChar ++ ['"'])

mutual

def writeValue : Value → String
  | .bool b => if b then "true" else "false"
  | .number n => writeNumber n
  | .string s => writeString s
  | .list items => "[" ++ ",".intercalate (writeItems items) ++ "]"

def writeItems : List Value → List String
  | [] => []
  | v :: rest => writeValue v :: writeItems rest

end

def writeObject (fields : List (String × String)) : String :=
  "\x7b" ++ ",".intercalate (fields.map fun f ↦ writeString f.1 ++ ":" ++ f.2) ++ "\x7d"

def writeData (d : Data) : String :=
  writeObject (d.entries.map fun e ↦ (e.1, writeValue e.2))

end LivePage.Json
