import Lookahead.Json.Quoted

/-!
# JSON values

The values that reports are made of, and their compact text: no blank between the tokens, and the
fields of an object in the order in which they are given.
-/

namespace Lookahead

/-- A JSON value without numbers. -/
inductive Json
  | bool (b : Bool)
  | string (s : String)
  | array (items : List Json)
  | object (fields : List (String × Json))

namespace Json

/-- The array of some strings. -/
def strings (items : List String) : Json :=
  .array (items.map .string)

mutual

/-- The compact text of a value. -/
def renderChars : Json → List Char
  | bool true => "true".toList
  | bool false => "false".toList
  | string s => quote s
  | array items => '[' :: renderItems items ++ [']']
  | object fields => '\x7b' :: renderFields fields ++ ['\x7d']

/-- The items of an array with commas between them. -/
def renderItems : List Json → List Char
  | [] => []
  | item :: rest =>
    renderChars item ++ match rest with
      | [] => []
      | _ :: _ => ',' :: renderItems rest

/-- The fields of an object with commas between them. -/
def renderFields : List (String × Json) → List Char
  | [] => []
  | (key, value) :: rest =>
    quote key ++ ':' :: renderChars value ++ match rest with
      | [] => []
      | _ :: _ => ',' :: renderFields rest

end

/-- The compact text of a value. -/
def render (v : Json) : String :=
  String.ofList v.renderChars

end Json

end Lookahead
