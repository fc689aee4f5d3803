/-
# Items of loosely typed values

Lists, texts, objects and bytes can be gone through item by item, become sets, and be
sorted where their items can be compared: texts with texts, numbers with numbers.
-/

import TweakEngine.Datum.Number

namespace TweakEngine

namespace Datum

/-- The items of a value that has some: of a list, the characters of a text, the keys of
an object, the numbers of bytes. -/
def iterate : Datum → Except Failure (List Datum)
  | list items | tuple items => .ok items
  | text s => .ok (s.toList.map fun c => text (String.singleton c))
  | object fields => .ok (fields.map fun e => text e.1)
  | bytes bs => .ok (bs.map fun b => int b.toNat)
  | d => .error (.mistyped ("'" ++ d.form ++ "' object is not iterable"))

/-- The first value of the list that cannot be an element of a set. -/
def unhashable? (items : List Datum) : Option Datum :=
  items.find? fun d => !d.isHashable

/-- Drops every value that equals an earlier one. -/
def dedup : List Datum → List Datum
  | [] => []
  | d :: ds => d :: (dedup ds).filter fun e => !same d e

/-- The elements of a set made of a value's items. -/
def elements (d : Datum) : Except Failure (List Datum) := do
  let items ← d.iterate
  match unhashable? items with
  | some bad => throw (.mistyped ("unhashable type: '" ++ bad.form ++ "'"))
  | none => return dedup items

/-- Whether a value is a number. -/
def isNumber : Datum → Bool
  | bool _ | int _ | float _ => true
  | _ => false

/-- The order of numbers by their value. -/
def numberLe (a b : Datum) : Bool :=
  match a.integral?, b.integral? with
  | some m, some n => m ≤ n
  | _, _ => match a.toFloat, b.toFloat with
    | .ok x, .ok y => x ≤ y
    | _, _ => true

/-- Values in increasing order; only texts or only numbers can be compared. -/
def sorted (items : List Datum) : Except Failure (List Datum) :=
  match items.mapM text? with
  | some texts => .ok ((Text.sort texts).map text)
  | none =>
    if items.length ≤ 1 then .ok items
    else if items.all isNumber then .ok (items.mergeSort numberLe)
    else
      let forms := (items.map form).eraseDups
      let a := forms.headD ""
      let b := (forms.drop 1).headD a
      .error (.mistyped ("'<' not supported between instances of '" ++ b ++ "' and '" ++ a ++ "'"))

end Datum

end TweakEngine
