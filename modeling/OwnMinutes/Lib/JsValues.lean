import OwnMinutes.Lib.JsText

/-! # Values of JSON in JavaScript

The values that `JSON.parse` gives, over any numbers (`Numbers`): texts of values, conversion to numbers, and the
chains of `??`. The fields of an object stand in the order of `Object.values`, each key once. -/

namespace OwnMinutes.Lib.JsValues

open OwnMinutes.Lib.JsText

abbrev Text := List Char

/-- The operations on numbers. -/
structure Numbers (Num : Type*) where
  ofNat : ℕ → Num
  add : Num → Num → Num
  mul : Num → Num → Num
  div : Num → Num → Num
  rem : Num → Num → Num
  max : Num → Num → Num
  floor : Num → Num
  isFinite : Num → Bool
  /-- `Number(text)` -/
  parse : Text → Num
  /-- `String(number)` -/
  text : Num → Text

inductive Json (Num : Type*)
  | null
  | bool (value : Bool)
  | number (value : Num)
  | string (value : Text)
  | array (items : List (Json Num))
  | object (fields : List (Text × Json Num))

/-- What a property holds; `none` is `undefined`. -/
abbrev Value (Num : Type*) := Option (Json Num)

namespace Json

variable {Num : Type*} (numbers : Numbers Num)

/-- The own property, where the value is an object. -/
def fieldOf : List (Text × Json Num) → Text → Value Num
  | [], _ => none
  | (key, value) :: rest, name => if key = name then some value else fieldOf rest name

/-- The fields of a value that is an object and no array. -/
def record? : Value Num → Option (List (Text × Json Num))
  | some (object fields) => some fields
  | _ => none

mutual

/-- `String(value)` -/
def toText : Json Num → Text
  | null => "null".toList
  | bool value => (if value then "true" else "false").toList
  | number value => numbers.text value
  | string value => value
  | array items => joined items
  | object _ => "[object Object]".toList

/-- `items.join(",")` -/
def joined : List (Json Num) → Text
  | [] => []
  | [item] => element item
  | item :: rest => element item ++ ',' :: joined rest

/-- An element in `join`: nothing for `null`. -/
def element : Json Num → Text
  | null => []
  | bool value => (if value then "true" else "false").toList
  | number value => numbers.text value
  | string value => value
  | array items => joined items
  | object _ => "[object Object]".toList

end

/-- `Number(value)` -/
def toNumber : Json Num → Num
  | null => numbers.ofNat 0
  | bool value => numbers.ofNat (if value then 1 else 0)
  | number value => value
  | string value => numbers.parse value
  | array items => numbers.parse (toText numbers (array items))
  | object fields => numbers.parse (toText numbers (object fields))

end Json

/-- `a ?? b ?? …`: the first value that is neither `null` nor `undefined`, or else the last one. -/
def coalesce {Num : Type*} : List (Value Num) → Value Num
  | [] => none
  | [value] => value
  | value :: rest =>
    match value with
    | none | some .null => coalesce rest
    | some value => some value

end OwnMinutes.Lib.JsValues
