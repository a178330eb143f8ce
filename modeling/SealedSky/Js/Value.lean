import SealedSky.Js.Number

/-!
# JavaScript values out of JSON

What `JSON.parse` builds, with `undefined` for a property that is not there. Such objects have no
methods of their own, so an own property `toString` can only stand in the way: converting that object
to a string or a number throws.
-/
namespace SealedSky.Js

inductive JsValue where
  | undefined
  | null
  | bool (b : Bool)
  | num (x : JsNum)
  | str (s : JsString)
  | arr (vs : List JsValue)
  | obj (props : List (JsString × JsValue))

namespace JsValue

mutual

/-- `String(v)` and what a template literal prints, `none` where it throws. As an element of an array
`undefined` and `null` print nothing. -/
def text (element : Bool) : JsValue → Option JsString
  | .undefined => some (if element then [] else js "undefined")
  | .null => some (if element then [] else js "null")
  | .bool b => some (if b then js "true" else js "false")
  | .num x => some (toString x)
  | .str s => some s
  | .arr vs => joined vs
  | .obj props => if props.any fun p => p.1 = js "toString" then none else some (js "[object Object]")

/-- `vs.join(",")`. -/
def joined : List JsValue → Option JsString
  | [] => some []
  | v :: vs => (text true v).bind fun s =>
    if vs.isEmpty then some s else (joined vs).map fun t => s ++ 44 :: t

end

/-- `String(v)`. -/
def toText (v : JsValue) : Option JsString := v.text false

/-- `Number(v)`, `none` where it throws. -/
def toNumber : JsValue → Option JsNum
  | .undefined => some .nan
  | .null => some (ofRat 0)
  | .bool b => some (ofRat (if b then 1 else 0))
  | .num x => some x
  | .str s => some (stringToNumber s)
  | v => v.toText.map stringToNumber

/-- `typeof v === "string"`, and the string. -/
def str? : JsValue → Option JsString
  | .str s => some s
  | _ => none

@[simp] theorem toText_str (s : JsString) : (str s).toText = some s := by
  rw [toText, text]

@[simp] theorem toText_num (x : JsNum) : (num x).toText = some (toString x) := by
  rw [toText, text]

/-- What converts to a number converts to a text. -/
theorem toText_isSome_of_toNumber {v : JsValue} {x : JsNum} (h : v.toNumber = some x) :
    v.toText.isSome := by
  have hmap : v.toText.map stringToNumber = some x → v.toText.isSome := fun h => by
    rw [← Option.isSome_map (f := stringToNumber), h]
    rfl
  cases v with
  | arr vs => exact hmap h
  | obj props => exact hmap h
  | _ =>
    rw [toText, text]
    rfl

end JsValue

end SealedSky.Js
