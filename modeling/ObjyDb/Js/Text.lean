import Mathlib.Tactic
import Mathlib.Data.List.Lex
import Mathlib.Data.List.TakeWhile
import Mathlib.Data.List.DropRight

/-!
# Text — JavaScript strings as sequences of UTF-16 code units

A JavaScript string is a list of 16-bit code units, and the relational operators compare two
strings unit by unit.  Surrogate pairs are not combined here: a lone surrogate is a legal string.

We give the few string operations the database is written with: `js` for literals, `split`
on a single unit, `join`, and `trim`.
-/

namespace ObjyDb
namespace Js

/-! ## Code units and literals -/

abbrev CodeUnit := Fin 65536

abbrev JsString := List CodeUnit

instance neZero_codeUnit : NeZero 65536 := ⟨by decide⟩

instance lawfulBEq_codeUnit : LawfulBEq CodeUnit := inferInstance

instance lawfulBEq_jsString : LawfulBEq JsString := inferInstance

instance lawfulBEq_jsStringPair : LawfulBEq (JsString × JsString) := inferInstance

/-- The code units of one Unicode scalar value. -/
def utf16 (c : Char) : List CodeUnit :=
  if c.toNat < 0x10000 then
    [Fin.ofNat _ c.toNat]
  else
    [Fin.ofNat _ (0xd800 + (c.toNat - 0x10000) / 0x400),
     Fin.ofNat _ (0xdc00 + (c.toNat - 0x10000) % 0x400)]

/-- A string literal of the source. -/
def js (s : String) : JsString :=
  s.toList.flatMap utf16

/-- The code unit of an ASCII character literal of the source. -/
def unit (c : Char) : CodeUnit :=
  Fin.ofNat _ c.toNat

/-! ## Surrogates -/

def isHighSurrogate (u : CodeUnit) : Bool :=
  decide (0xd800 ≤ u.val) && decide (u.val < 0xdc00)

def isLowSurrogate (u : CodeUnit) : Bool :=
  decide (0xdc00 ≤ u.val) && decide (u.val < 0xe000)

def isSurrogate (u : CodeUnit) : Bool :=
  isHighSurrogate u || isLowSurrogate u

/-! ## `String.prototype.split` on one unit -/

/-- `s.split(sep)` for a one-unit separator: always at least one part. -/
def split (sep : CodeUnit) : JsString → List JsString
  | [] => [[]]
  | c :: rest =>
      if c = sep then
        [] :: split sep rest
      else
        match split sep rest with
        | [] => [[c]]
        | part :: parts => (c :: part) :: parts

/-- `parts.join(sep)` for a one-unit separator. -/
def join (sep : CodeUnit) : List JsString → JsString
  | [] => []
  | [part] => part
  | part :: parts => part ++ sep :: join sep parts

theorem split_ne_nil (sep : CodeUnit) (s : JsString) : split sep s ≠ [] := by
  cases s with
  | nil => simp [split]
  | cons c rest =>
      simp only [split]
      split_ifs with h
      · simp
      · cases split sep rest <;> simp

/-- A part that does not hold the separator is split off whole. -/
theorem split_append_sep {sep : CodeUnit} {part : JsString} (h : sep ∉ part) (rest : JsString) :
    split sep (part ++ sep :: rest) = part :: split sep rest := by
  induction part with
  | nil => simp [split]
  | cons c part ih =>
      have hc : c ≠ sep := fun hc => h (hc ▸ List.mem_cons_self)
      have hrest : sep ∉ part := fun hm => h (List.mem_cons_of_mem _ hm)
      simp [split, hc, ih hrest]

theorem split_of_notMem {sep : CodeUnit} {part : JsString} (h : sep ∉ part) :
    split sep part = [part] := by
  induction part with
  | nil => simp [split]
  | cons c part ih =>
      have hc : c ≠ sep := fun hc => h (hc ▸ List.mem_cons_self)
      have hrest : sep ∉ part := fun hm => h (List.mem_cons_of_mem _ hm)
      simp [split, hc, ih hrest]

/-! ## `String.prototype.trim` -/

/-- WhiteSpace and LineTerminator code units, as `trim` removes them. -/
def isTrimSpace (u : CodeUnit) : Bool :=
  u.val ∈ [0x09, 0x0a, 0x0b, 0x0c, 0x0d, 0x20, 0xa0, 0x1680, 0x2000, 0x2001, 0x2002, 0x2003,
    0x2004, 0x2005, 0x2006, 0x2007, 0x2008, 0x2009, 0x200a, 0x2028, 0x2029, 0x202f, 0x205f,
    0x3000, 0xfeff]

def trim (s : JsString) : JsString :=
  (s.dropWhile isTrimSpace).rdropWhile isTrimSpace

theorem trim_ne_nil_of_mem {s : JsString} {u : CodeUnit} (hmem : u ∈ s)
    (hu : isTrimSpace u = false) : trim s ≠ [] := by
  have hfront : s.dropWhile isTrimSpace ≠ [] := by
    intro hnil
    have hall := List.dropWhile_eq_nil_iff.mp hnil u hmem
    simp [hu] at hall
  intro hnil
  have hback := List.rdropWhile_eq_nil_iff.mp hnil _ (List.head_mem hfront)
  have hhead := List.head_dropWhile_not isTrimSpace hfront
  simp [hback] at hhead

end Js
end ObjyDb
