import ObjyDb.Js.Utf8

/-!
# Lines — a text that arrives in pieces, cut at its newlines

`completeLines` are the lines of a text that end in a newline and `openLine` is what follows the
last newline.  Both may be computed piece by piece (`completeLines_append`, `openLine_append`).

The newline unit comes from the newline byte only (`newline_cut`): the byte stream may be cut just
before any newline of its text.
-/

namespace ObjyDb
namespace Js

def newline : CodeUnit := unit '\n'

/-- The lines that are ended by a newline. -/
def completeLines (text : JsString) : List JsString :=
  (split newline text).dropLast

/-- What follows the last newline. -/
def openLine (text : JsString) : JsString :=
  (split newline text).getLast (split_ne_nil newline text)

/-! ## Piece by piece -/

theorem split_append (sep : CodeUnit) (left right : JsString) :
    split sep (left ++ right) = (split sep left).dropLast ++
      split sep ((split sep left).getLast (split_ne_nil sep left) ++ right) := by
  induction left with
  | nil => simp [split]
  | cons c left ih =>
      by_cases hc : c = sep
      · have hleft : split sep (c :: left) = [] :: split sep left := by
          simp [split, hc]
        have happ : split sep (c :: left ++ right) = [] :: split sep (left ++ right) := by
          simp [split, hc]
        rw [happ, ih]
        simp only [hleft, List.dropLast_cons_of_ne_nil (split_ne_nil sep left),
          List.getLast_cons (split_ne_nil sep left), List.cons_append]
      · cases hparts : split sep left with
        | nil => exact absurd hparts (split_ne_nil sep left)
        | cons part parts =>
            have hleft : split sep (c :: left) = (c :: part) :: parts := by
              simp [split, hc, hparts]
            simp only [hparts] at ih
            cases parts with
            | nil =>
                simp only [List.dropLast_singleton, List.getLast_singleton, List.nil_append] at ih
                simp only [hleft, List.cons_append, List.dropLast_singleton, List.getLast_singleton,
                  List.nil_append]
                simp [split, hc, ih]
            | cons part' parts =>
                simp only [List.dropLast_cons_cons, List.getLast_cons_cons, List.cons_append] at ih
                simp only [hleft, List.dropLast_cons_cons, List.getLast_cons_cons, List.cons_append]
                simp [split, hc, ih]

theorem completeLines_append (left right : JsString) :
    completeLines (left ++ right) =
      completeLines left ++ completeLines (openLine left ++ right) := by
  rw [completeLines, split_append, List.dropLast_append_of_ne_nil (split_ne_nil _ _)]
  rfl

theorem openLine_append (left right : JsString) :
    openLine (left ++ right) = openLine (openLine left ++ right) := by
  simp only [openLine, split_append newline left right,
    List.getLast_append_of_ne_nil _ (split_ne_nil _ _)]

theorem newline_notMem_split (sep : CodeUnit) (text : JsString) :
    ∀ part ∈ split sep text, sep ∉ part := by
  induction text with
  | nil => simp [split]
  | cons c text ih =>
      simp only [split]
      split_ifs with hc
      · intro part hpart
        rcases List.mem_cons.mp hpart with rfl | hpart
        · simp
        · exact ih part hpart
      · cases hparts : split sep text with
        | nil => exact absurd hparts (split_ne_nil sep text)
        | cons first parts =>
            rw [hparts] at ih
            intro part hpart
            rcases List.mem_cons.mp hpart with rfl | hpart
            · have hfirst := ih first List.mem_cons_self
              rw [List.mem_cons, not_or]
              exact ⟨fun h => hc h.symm, hfirst⟩
            · exact ih part (List.mem_cons_of_mem _ hpart)

theorem newline_notMem_openLine (text : JsString) : newline ∉ openLine text :=
  newline_notMem_split newline text _ (List.getLast_mem _)

theorem completeLines_of_notMem {text : JsString} (h : newline ∉ text) :
    completeLines text = [] := by
  rw [completeLines, split_of_notMem h]
  rfl

theorem openLine_of_notMem {text : JsString} (h : newline ∉ text) : openLine text = text := by
  simp only [openLine, split_of_notMem h, List.getLast_singleton]

@[simp] theorem completeLines_openLine (text : JsString) : completeLines (openLine text) = [] :=
  completeLines_of_notMem (newline_notMem_openLine text)

@[simp] theorem openLine_openLine (text : JsString) : openLine (openLine text) = openLine text :=
  openLine_of_notMem (newline_notMem_openLine text)

@[simp] theorem completeLines_nil : completeLines [] = [] := rfl

@[simp] theorem openLine_nil : openLine [] = [] := rfl

/-- Extending a text by one newline ends its open line. -/
theorem completeLines_concat_newline (text : JsString) :
    completeLines (text ++ [newline]) = completeLines text ++ [openLine text] := by
  rw [completeLines_append, completeLines]
  rw [completeLines, split_append_sep (newline_notMem_openLine text)]
  rfl

/-- The open line is the beginning of the next line the text is extended by, if it is ended. -/
theorem openLine_begins (left right : JsString) :
    openLine left <+: ((completeLines (openLine left ++ right)).head?).getD
      (openLine (left ++ right)) := by
  have hsep := newline_notMem_openLine left
  rw [openLine_append]
  generalize openLine left = opened at hsep ⊢
  induction right generalizing opened with
  | nil => simp [completeLines_of_notMem hsep, openLine_of_notMem hsep]
  | cons c right ih =>
      by_cases hc : c = newline
      · rw [hc, completeLines, split_append_sep hsep]
        rw [List.dropLast_cons_of_ne_nil (split_ne_nil _ _), List.head?_cons, Option.getD_some]
      · have hnext := ih (opened ++ [c]) (by simp [hsep, Ne.symm hc])
        rw [List.append_assoc, List.singleton_append] at hnext
        exact (List.prefix_append opened [c]).trans hnext

/-! ## Byte lengths -/

/-- `Buffer.byteLength(text)` -/
def byteLength (text : JsString) : Nat :=
  (encode text).length

theorem encodeScalar_length_pos (cp : Nat) : 0 < (encodeScalar cp).length :=
  List.length_pos_of_ne_nil (encodeScalar_ne_nil cp)

theorem byteLength_le_append (left right : JsString) :
    byteLength left ≤ byteLength (left ++ right) := by
  unfold byteLength
  induction left using encode.induct with
  | case1 => exact Nat.zero_le _
  | case2 u =>
      cases right with
      | nil => exact le_rfl
      | cons v rest =>
          rw [List.singleton_append, encode, encode]
          split_ifs with hpair
          · -- a lone surrogate takes three bytes and the pair takes four
            rw [Bool.and_eq_true] at hpair
            have hu : isSurrogate u = true := by simp [isSurrogate, hpair.1]
            have hscalar : 0x10000 ≤ pairScalar u v := by
              unfold pairScalar
              omega
            have hlone : (encodeSingle u).length = 3 := by
              rw [encodeSingle, if_pos hu]
              rfl
            have hboth : (encodeScalar (pairScalar u v)).length = 4 := by
              rw [encodeScalar, if_neg (by omega), if_neg (by omega), if_neg (by omega)]
              rfl
            rw [List.length_append, hlone, hboth]
            omega
          · rw [List.length_append]
            omega
  | case3 u v rest hpair ih =>
      simp only [List.cons_append] at ih ⊢
      rw [encode, encode, if_pos hpair, if_pos hpair, List.length_append, List.length_append]
      omega
  | case4 u v rest hpair ih =>
      simp only [List.cons_append] at ih ⊢
      rw [encode, encode, if_neg hpair, if_neg hpair, List.length_append, List.length_append]
      omega

theorem byteLength_le_of_prefix {left text : JsString} (h : left <+: text) :
    byteLength left ≤ byteLength text := by
  rcases h with ⟨right, rfl⟩
  exact byteLength_le_append left right

/-! ## Newlines and bytes -/

/-- A pending character will be a code point that is not an ASCII one. -/
structure Pending.Long (p : Pending) : Prop where
  lower_le : 0x80 ≤ p.lower
  upper_le : p.upper ≤ 0xbf
  need_one : p.need = 1 → 2 ≤ p.cp ∧ p.cp < 0x4400
  need_two : p.need = 2 → (1 ≤ p.cp ∨ 0xa0 ≤ p.lower) ∧ p.cp < 0x110
  need_three : p.need = 3 → (1 ≤ p.cp ∨ 0x90 ≤ p.lower) ∧
    (p.cp < 4 ∨ p.cp = 4 ∧ p.upper ≤ 0x8f)
  need_le : 1 ≤ p.need ∧ p.need ≤ 3

def Utf8Decoder.Reached (d : Utf8Decoder) : Prop :=
  ∀ p, d.pending = some p → p.Long

namespace Utf8

theorem reached_stepLead (out : JsString) (b : Nat) : (stepLead out b).Reached := by
  intro p hp
  unfold stepLead at hp
  split_ifs at hp <;> cases hp <;> constructor <;> simp only <;> omega

theorem reached_step {d : Utf8Decoder} (h : d.Reached) (b : Byte) :
    (step d b).Reached := by
  cases hp : d.pending with
  | none =>
      rw [step, hp]
      exact reached_stepLead _ _
  | some p =>
      rw [step, hp]
      simp only
      split_ifs with hb hneed
      · intro p' hp'
        cases hp'
      · intro p' hp'
        cases hp'
        have hlong := h p hp
        have hone := hlong.need_one
        have htwo := hlong.need_two
        have hthree := hlong.need_three
        have hneed' := hlong.need_le
        have hbounds := And.intro hlong.lower_le hlong.upper_le
        constructor <;> simp only <;> omega
      · exact reached_stepLead _ _

/-- What one byte adds to the text: newlines come from the newline byte only. -/
theorem step_newline {d : Utf8Decoder} (h : d.Reached) (b : Byte) :
    (∃ added, (step d b).out = d.out ++ added ∧ newline ∉ added) ∨
      (b.val = 10 ∧ (step d b).out = finish d ++ [newline]) := by
  have hreplaced : newline ∉ [replacementUnit] := by decide
  have hlead : ∀ out, (∃ added, (stepLead out b.val).out = out ++ added ∧ newline ∉ added) ∨
      (b.val = 10 ∧ (stepLead out b.val).out = out ++ [newline]) := by
    intro out
    by_cases hten : b.val = 10
    · right
      rw [hten]
      exact ⟨rfl, rfl⟩
    · left
      have hval : newline.val = 10 := rfl
      have hascii : newline ∉ [(Fin.ofNat 65536 b.val : CodeUnit)] := by
        have hb := b.isLt
        simp only [List.mem_singleton, Fin.ext_iff, hval, Fin.val_ofNat]
        omega
      unfold stepLead
      split
      · exact ⟨_, rfl, hascii⟩
      split
      · exact ⟨[], by simp⟩
      split
      · exact ⟨[], by simp⟩
      split
      · exact ⟨[], by simp⟩
      · exact ⟨_, rfl, hreplaced⟩
  cases hp : d.pending with
  | none =>
      rw [step, finish, hp]
      exact hlead d.out
  | some p =>
      rw [step, finish, hp]
      simp only
      split_ifs with hb hneed
      · left
        refine ⟨_, rfl, ?_⟩
        have hlong := (h p hp).need_one hneed
        have hbounds := And.intro (h p hp).lower_le (h p hp).upper_le
        have hval : newline.val = 10 := rfl
        unfold units
        split_ifs <;>
          simp only [List.mem_cons, List.not_mem_nil, or_false, Fin.ext_iff, hval, Fin.val_ofNat] <;>
          omega
      · exact Or.inl ⟨[], by simp⟩
      · rcases hlead (d.out ++ [replacementUnit]) with ⟨added, hout, hnot⟩ | ⟨hten, hout⟩
        · refine Or.inl ⟨[replacementUnit] ++ added, ?_, ?_⟩
          · rw [hout, List.append_assoc]
          · rw [List.mem_append, not_or]
            exact ⟨hreplaced, hnot⟩
        · exact Or.inr ⟨hten, hout⟩

theorem reached_run {d : Utf8Decoder} (h : d.Reached) (bytes : List Byte) :
    (run d bytes).Reached := by
  induction bytes generalizing d with
  | nil => exact h
  | cons b bytes ih => exact ih (reached_step h b)

/-- The bytes may be cut just before the newline that ends any line of their text. -/
theorem newline_cut {bytes : List Byte} {before after : List JsString} {line : JsString}
    (h : completeLines (run ⟨[], none⟩ bytes).out = before ++ line :: after) :
    ∃ left right, bytes = left ++ right ∧
      completeLines (run ⟨[], none⟩ left).out = before ∧
        line = openLine (finish (run ⟨[], none⟩ left)) := by
  induction bytes using List.reverseRecOn generalizing after with
  | nil => simp at h
  | append_singleton bytes b ih =>
      have hreached : (run ⟨[], none⟩ bytes).Reached :=
        reached_run (fun p hp => by cases hp) bytes
      have hrun : run ⟨[], none⟩ (bytes ++ [b]) = step (run ⟨[], none⟩ bytes) b := by
        rw [run_append]
        rfl
      rw [hrun] at h
      rcases step_newline hreached b with ⟨added, hout, hnot⟩ | ⟨-, hout⟩
      · -- the byte ends no line
        have hopen : newline ∉ openLine (run ⟨[], none⟩ bytes).out ++ added := by
          rw [List.mem_append, not_or]
          exact ⟨newline_notMem_openLine _, hnot⟩
        rw [hout, completeLines_append, completeLines_of_notMem hopen, List.append_nil] at h
        rcases ih h with ⟨left, right, hbytes, hbefore, hline⟩
        exact ⟨left, right ++ [b], by rw [hbytes, List.append_assoc], hbefore, hline⟩
      · have hfinish : completeLines (finish (run ⟨[], none⟩ bytes)) =
            completeLines (run ⟨[], none⟩ bytes).out := by
          unfold finish
          split
          · rfl
          · have hopen : newline ∉ openLine (run ⟨[], none⟩ bytes).out ++ [replacementUnit] := by
              rw [List.mem_append, not_or]
              exact ⟨newline_notMem_openLine _, by decide⟩
            rw [completeLines_append, completeLines_of_notMem hopen, List.append_nil]
        rw [hout, completeLines_concat_newline, hfinish] at h
        rcases List.eq_nil_or_concat after with rfl | ⟨after', last, rfl⟩
        · have hparts := List.append_inj' h rfl
          exact ⟨bytes, [b], rfl, hparts.1, (List.cons.inj hparts.2).1.symm⟩
        · have hlast : before ++ line :: after'.concat last =
              (before ++ line :: after') ++ [last] := by
            simp
          rw [hlast] at h
          rcases ih (List.append_inj' h rfl).1 with ⟨left, right, hbytes, hbefore, hline⟩
          exact ⟨left, right ++ [b], by rw [hbytes, List.append_assoc], hbefore, hline⟩

end Utf8

end Js
end ObjyDb
