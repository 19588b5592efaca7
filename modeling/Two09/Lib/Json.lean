import Two09.Lib.Bytes

/-!
# JSON values

The tree a parser of JSON builds, and the accessors the program reads it with.
-/

namespace Two09.Lib

/-- A JSON value; a number is the text it is written as. -/
inductive Json
  | null
  | bool (b : Bool)
  | number (text : Bytes)
  | string (s : Bytes)
  | array (items : List Json)
  | object (members : List (Bytes × Json))

namespace Json

/-- `tolower` in the C locale. -/
def toLower (c : UInt8) : UInt8 := if 65 ≤ c ∧ c ≤ 90 then c + 32 else c

/-- `cJSON_GetObjectItem`: the first member of the name, whatever the case of its letters. -/
def getObjectItem (j : Json) (name : Bytes) : Option Json :=
  match j with
  | object members => (members.find? (·.1.map toLower = name.map toLower)).map Prod.snd
  | _ => none

/-- The elements, if it is an array. -/
def items? : Json → Option (List Json)
  | array items => some items
  | _ => none

/-- The members, if it is an object. -/
def members? : Json → Option (List (Bytes × Json))
  | object members => some members
  | _ => none

/-- `valuestring`, if it is a string. -/
def string? : Json → Option Bytes
  | string s => some s
  | _ => none

/-- The truth value, if it is one. -/
def bool? : Json → Option Bool
  | bool b => some b
  | _ => none

end Json

end Two09.Lib
