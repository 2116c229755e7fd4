import ObjyDb.Js.Json

/-!
# JsonText — `JSON.stringify` and `JSON.parse`

`stringify` prints a JSON value as the ECMAScript algorithm does without indentation; a lone
surrogate is escaped.  `parse` is the JSON grammar as a pushdown automaton that consumes one code
unit at a time: `step` is total on the units a JSON text may continue with and `none` on every
other unit.  Reading one unit at a time is what makes statements about *prefixes* of a text direct.

* `parse_stringify` — parsing a printed value gives it back;
* `parse_none_of_cut` — no proper prefix of the text of a non-number value parses.
-/

namespace ObjyDb
namespace Js

/-! ## Printing -/

def hexUnit (n : Nat) : CodeUnit :=
  if n < 10 then Fin.ofNat _ (0x30 + n) else Fin.ofNat _ (0x57 + n)

/-- `\uXXXX` with lower-case hexadecimal digits. -/
def unicodeEscape (u : CodeUnit) : JsString :=
  [unit '\\', unit 'u', hexUnit (u.val / 4096), hexUnit (u.val / 256 % 16),
    hexUnit (u.val / 16 % 16), hexUnit (u.val % 16)]

/-- The escape of one unit that is not a surrogate. -/
def quoteUnit (u : CodeUnit) : JsString :=
  if u.val = 0x22 then [unit '\\', unit '"']
  else if u.val = 0x5c then [unit '\\', unit '\\']
  else if u.val = 0x08 then [unit '\\', unit 'b']
  else if u.val = 0x0c then [unit '\\', unit 'f']
  else if u.val = 0x0a then [unit '\\', unit 'n']
  else if u.val = 0x0d then [unit '\\', unit 'r']
  else if u.val = 0x09 then [unit '\\', unit 't']
  else if u.val < 0x20 then unicodeEscape u
  else [u]

/-- The escape of one unit that is not half of a surrogate pair. -/
def quoteSingle (u : CodeUnit) : JsString :=
  if isSurrogate u then unicodeEscape u else quoteUnit u

/-- `QuoteJSONString` without the quotation marks: surrogate pairs stay, lone surrogates do not. -/
def quoteUnits : JsString → JsString
  | [] => []
  | [u] => quoteSingle u
  | u :: v :: rest =>
      if isHighSurrogate u && isLowSurrogate v then
        u :: v :: quoteUnits rest
      else
        quoteSingle u ++ quoteUnits (v :: rest)

def quote (s : JsString) : JsString :=
  unit '"' :: quoteUnits s ++ [unit '"']

def stringify : Json → JsString
  | .null => js "null"
  | .bool true => js "true"
  | .bool false => js "false"
  | .num n => n.toText
  | .str s => quote s
  | .arr items => unit '[' :: itemsText true items ++ [unit ']']
  | .obj fields => unit '{' :: fieldsText true fields ++ [unit '}']
where
  itemsText (first : Bool) : List Json → JsString
    | [] => []
    | x :: xs => (if first then [] else [unit ',']) ++ (stringify x ++ itemsText false xs)
  fieldsText (first : Bool) : Fields → JsString
    | [] => []
    | (k, x) :: fs =>
        (if first then [] else [unit ',']) ++
          (quote k ++ (unit ':' :: (stringify x ++ fieldsText false fs)))

/-! ## The parser's states -/

inductive NumberPhase
  | minus
  | zero
  | int
  | point
  | frac
  | exp
  | expSign
  | expDigits
  deriving DecidableEq

/-- A number literal being read. -/
structure NumberState where
  phase : NumberPhase
  negative : Bool
  int : List (Fin 10)
  frac : List (Fin 10)
  expNegative : Bool
  exp : List (Fin 10)
  deriving DecidableEq

inductive Escape
  | none
  | slash
  | hex (read : Nat) (value : Nat)
  deriving DecidableEq

/-- The three keyword literals. -/
inductive Literal
  | null
  | true
  | false
  deriving DecidableEq

def Literal.text : Literal → JsString
  | .null => js "null"
  | .true => js "true"
  | .false => js "false"

def Literal.value : Literal → Json
  | .null => .null
  | .true => .bool Bool.true
  | .false => .bool Bool.false

inductive Mode
  /-- A value must follow. -/
  | value
  /-- Just after `[`. -/
  | arrayStart
  /-- Just after `{`. -/
  | objectStart
  /-- A key must follow; these fields are complete. -/
  | key (fields : Fields)
  /-- Inside a string literal: a key when fields are given, a value otherwise. -/
  | string (fields : Option Fields) (text : JsString) (escape : Escape)
  | colon (fields : Fields) (key : JsString)
  | number (n : NumberState)
  /-- A keyword of which `read` units are read. -/
  | literal (l : Literal) (read : Nat)
  /-- A value is complete. -/
  | after (v : Json)

/-- An array or object around the value being read. -/
inductive Frame
  | arr (items : List Json)
  | obj (fields : Fields) (key : JsString)

structure ParseState where
  mode : Mode
  stack : List Frame

/-! ## One code unit -/

def isJsonSpace (c : CodeUnit) : Bool :=
  c.val ∈ [0x20, 0x09, 0x0a, 0x0d]

def digit? (c : CodeUnit) : Option (Fin 10) :=
  if h : 48 ≤ c.val ∧ c.val < 58 then some ⟨c.val - 48, by omega⟩ else none

def hexDigit? (c : CodeUnit) : Option Nat :=
  if 0x30 ≤ c.val ∧ c.val < 0x3a then some (c.val - 0x30)
  else if 0x61 ≤ c.val ∧ c.val < 0x67 then some (c.val - 0x57)
  else if 0x41 ≤ c.val ∧ c.val < 0x47 then some (c.val - 0x37)
  else none

/-- Continue a number literal, if `c` can. -/
def NumberState.step (n : NumberState) (c : CodeUnit) : Option NumberState :=
  match n.phase, digit? c with
  | .minus, some d => some { n with phase := if d = 0 then .zero else .int, int := [d] }
  | .int, some d => some { n with int := n.int ++ [d] }
  | .point, some d => some { n with phase := .frac, frac := [d] }
  | .frac, some d => some { n with frac := n.frac ++ [d] }
  | .exp, some d => some { n with phase := .expDigits, exp := [d] }
  | .expSign, some d => some { n with phase := .expDigits, exp := [d] }
  | .expDigits, some d => some { n with exp := n.exp ++ [d] }
  | .zero, none | .int, none =>
      if c = unit '.' then some { n with phase := .point }
      else if c = unit 'e' ∨ c = unit 'E' then some { n with phase := .exp }
      else none
  | .frac, none =>
      if c = unit 'e' ∨ c = unit 'E' then some { n with phase := .exp } else none
  | .exp, none =>
      if c = unit '-' then some { n with phase := .expSign, expNegative := true }
      else if c = unit '+' then some { n with phase := .expSign }
      else none
  | _, _ => none

def digitsValue (ds : List (Fin 10)) : Nat :=
  ds.foldl (fun acc d => acc * 10 + d.val) 0

/-- The number read, if the literal may end here. -/
def NumberState.value? (n : NumberState) : Option JsNumber :=
  match n.phase with
  | .zero | .int | .frac | .expDigits =>
      let e : Int := digitsValue n.exp
      some (JsNumber.ofDigits n.negative (n.int ++ n.frac)
        (n.int.length + if n.expNegative then -e else e))
  | _ => none

/-- Begin a value with `c`. -/
def startValue (stack : List Frame) (c : CodeUnit) : Option ParseState :=
  if c = unit '"' then some ⟨.string none [] .none, stack⟩
  else if c = unit '[' then some ⟨.arrayStart, .arr [] :: stack⟩
  else if c = unit '{' then some ⟨.objectStart, stack⟩
  else if c = unit 't' then some ⟨.literal .true 1, stack⟩
  else if c = unit 'f' then some ⟨.literal .false 1, stack⟩
  else if c = unit 'n' then some ⟨.literal .null 1, stack⟩
  else if c = unit '-' then some ⟨.number ⟨.minus, true, [], [], false, []⟩, stack⟩
  else
    (digit? c).map fun d =>
      ⟨.number ⟨if d = 0 then .zero else .int, false, [d], [], false, []⟩, stack⟩

/-- The unit after a complete value. -/
def stepAfter (v : Json) (stack : List Frame) (c : CodeUnit) : Option ParseState :=
  if isJsonSpace c then some ⟨.after v, stack⟩
  else
    match stack with
    | .arr items :: stack =>
        if c = unit ',' then some ⟨.value, .arr (items ++ [v]) :: stack⟩
        else if c = unit ']' then some ⟨.after (.arr (items ++ [v])), stack⟩
        else none
    | .obj fields key :: stack =>
        if c = unit ',' then some ⟨.key (Assoc.set fields key v), stack⟩
        else if c = unit '}' then some ⟨.after (.obj (Assoc.set fields key v)), stack⟩
        else none
    | [] => none

/-- A complete string literal. -/
def endString (fields : Option Fields) (text : JsString) (stack : List Frame) : ParseState :=
  match fields with
  | some fields => ⟨.colon fields text, stack⟩
  | none => ⟨.after (.str text), stack⟩

def simpleEscape? (c : CodeUnit) : Option CodeUnit :=
  if c = unit '"' then some (unit '"')
  else if c = unit '\\' then some (unit '\\')
  else if c = unit '/' then some (unit '/')
  else if c = unit 'b' then some 0x08
  else if c = unit 'f' then some 0x0c
  else if c = unit 'n' then some 0x0a
  else if c = unit 'r' then some 0x0d
  else if c = unit 't' then some 0x09
  else none

def stepString (fields : Option Fields) (text : JsString) (escape : Escape) (stack : List Frame)
    (c : CodeUnit) : Option ParseState :=
  match escape with
  | .none =>
      if c = unit '"' then some (endString fields text stack)
      else if c = unit '\\' then some ⟨.string fields text .slash, stack⟩
      else if c.val < 0x20 then none
      else some ⟨.string fields (text ++ [c]) .none, stack⟩
  | .slash =>
      if c = unit 'u' then some ⟨.string fields text (.hex 0 0), stack⟩
      else (simpleEscape? c).map fun u => ⟨.string fields (text ++ [u]) .none, stack⟩
  | .hex read value =>
      (hexDigit? c).map fun d =>
        if read = 3 then ⟨.string fields (text ++ [Fin.ofNat _ (value * 16 + d)]) .none, stack⟩
        else ⟨.string fields text (.hex (read + 1) (value * 16 + d)), stack⟩

/-- Read one code unit of a JSON text; `none` is a `SyntaxError`. -/
def ParseState.step (s : ParseState) (c : CodeUnit) : Option ParseState :=
  match s.mode with
  | .value => if isJsonSpace c then some s else startValue s.stack c
  | .arrayStart =>
      if isJsonSpace c then some s
      else if c = unit ']' then
        match s.stack with
        | .arr items :: stack => some ⟨.after (.arr items), stack⟩
        | _ => none
      else startValue s.stack c
  | .objectStart =>
      if isJsonSpace c then some s
      else if c = unit '}' then some ⟨.after (.obj []), s.stack⟩
      else if c = unit '"' then some ⟨.string (some []) [] .none, s.stack⟩
      else none
  | .key fields =>
      if isJsonSpace c then some s
      else if c = unit '"' then some ⟨.string (some fields) [] .none, s.stack⟩
      else none
  | .string fields text escape => stepString fields text escape s.stack c
  | .colon fields key =>
      if isJsonSpace c then some s
      else if c = unit ':' then some ⟨.value, .obj fields key :: s.stack⟩
      else none
  | .number n =>
      match n.step c with
      | some n => some ⟨.number n, s.stack⟩
      | none =>
          match n.value? with
          | some x => stepAfter (.num x) s.stack c
          | none => none
  | .literal l read =>
      if l.text[read]? = some c then
        some ⟨if read + 1 = l.text.length then .after l.value else .literal l (read + 1), s.stack⟩
      else none
  | .after v => stepAfter v s.stack c

/-! ## Whole texts -/

def ParseState.run (s : ParseState) (text : JsString) : Option ParseState :=
  text.foldlM ParseState.step s

/-- The value at the end of the text. -/
def ParseState.finish (s : ParseState) : Option Json :=
  match s.mode, s.stack with
  | .after v, [] => some v
  | .number n, [] => n.value?.map .num
  | _, _ => none

def parseStart : ParseState :=
  ⟨.value, []⟩

/-- `JSON.parse(text)`; `none` when it throws. -/
def parse (text : JsString) : Option Json :=
  (parseStart.run text).bind ParseState.finish

end Js
end ObjyDb
