import ObjyDb.Js.Exact

/-!
# Conversions — `String(value)` and `Number(value)`

The conversions the query code applies to JSON values.  A number is exact: `Number` of a text is the
decimal it spells.
-/

namespace ObjyDb
namespace Js

/-! ## `String(value)` -/

/-- `String(value)`; inside an array `null` is printed as the empty text. -/
def toJsString : Json → JsString
  | .null => js "null"
  | .bool true => js "true"
  | .bool false => js "false"
  | .num n => n.toText
  | .str s => s
  | .arr items => join (unit ',') (itemTexts items)
  | .obj _ => js "[object Object]"
where
  itemTexts : List Json → List JsString
    | [] => []
    | .null :: items => [] :: itemTexts items
    | item :: items => toJsString item :: itemTexts items

/-! ## `Number(text)` -/

/-- The digits at the front of a text, and the rest. -/
def takeDigits : JsString → List (Fin 10) × JsString
  | [] => ([], [])
  | c :: rest =>
      match digit? c with
      | none => ([], c :: rest)
      | some d => (d :: (takeDigits rest).1, (takeDigits rest).2)

def takeSign (text : JsString) : Bool × JsString :=
  match text with
  | [] => (false, [])
  | c :: rest =>
      if c = unit '-' then (true, rest) else if c = unit '+' then (false, rest) else (false, text)

/-- The digits after a decimal point, if there is one. -/
def takeFraction (text : JsString) : List (Fin 10) × JsString :=
  match text with
  | [] => ([], [])
  | c :: rest => if c = unit '.' then takeDigits rest else ([], text)

/-- The exponent part that ends a decimal literal. -/
def exponentPart? (text : JsString) : Option Int :=
  match text with
  | [] => some 0
  | c :: rest =>
      if c = unit 'e' ∨ c = unit 'E' then
        match takeDigits (takeSign rest).2 with
        | ([], _) => none
        | (ds, []) => some (if (takeSign rest).1 then -digitsValue ds else digitsValue ds)
        | _ => none
      else none

def decimalLiteral? (text : JsString) : Option JsNumber :=
  let unsigned := (takeSign text).2
  let int := takeDigits unsigned
  let frac := takeFraction int.2
  if int.1 = [] ∧ frac.1 = [] then none
  else (exponentPart? frac.2).map fun exp =>
    JsNumber.ofDigits (takeSign text).1 (int.1 ++ frac.1) (int.1.length + exp)

/-- The digits of `0x…`, `0o…` and `0b…`. -/
def radixLiteral? (radix : Nat) (text : JsString) : Option JsNumber :=
  if text = [] then none
  else (text.foldl (fun acc c => acc.bind fun n =>
    match hexDigit? c with
    | some d => if d < radix then some (n * radix + d) else none
    | none => none) (some 0)).map JsNumber.ofNat

/-- `Number(text)`; `none` is `NaN` or an infinity. -/
def numberOfText (text : JsString) : Option JsNumber :=
  match trim text with
  | [] => some JsNumber.zero
  | c :: rest =>
      if c = unit '0' then
        match rest with
        | r :: literal =>
            if r = unit 'x' ∨ r = unit 'X' then radixLiteral? 16 literal
            else if r = unit 'o' ∨ r = unit 'O' then radixLiteral? 8 literal
            else if r = unit 'b' ∨ r = unit 'B' then radixLiteral? 2 literal
            else decimalLiteral? (c :: rest)
        | [] => some JsNumber.zero
      else decimalLiteral? (c :: rest)

/-- `Number(value)`; `none` is `NaN` or an infinity. -/
def toNumber : Json → Option JsNumber
  | .null => some JsNumber.zero
  | .bool true => some (JsNumber.ofNat 1)
  | .bool false => some JsNumber.zero
  | .num n => some n
  | .str s => numberOfText s
  | .arr items => numberOfText (toJsString (.arr items))
  | .obj _ => none

example : toNumber (.str (js " 2e1 ")) = some (JsNumber.ofNat 20) := by decide
example : toNumber (.arr [.str (js "0x1f")]) = some (JsNumber.ofNat 31) := by decide

/-- `Number.isInteger(value)`, and the integer. -/
def integer? (n : JsNumber) : Option Int :=
  if n.toRat.den = 1 then some n.toRat.num else none

end Js
end ObjyDb
