import ObjyDb.Files.Params
import ObjyDb.Js.WellFormed

/-!
# Forms — multipart bodies and what is read of them

A form is what a client sends: for each part the lines of its head and its body, between the
delimiters of one boundary, with a preamble and an epilogue around.

* `parsePartHeaders_headText` — the header lines are read as the fields they spell;
* `parseMultipart_formBytes` — every part is read with its own head and its exact body.
-/

namespace ObjyDb
namespace Multipart

open Js Search

/-! ## Header lines -/

/-- A header line: a name, and what stands after the colon. -/
structure Field where
  name : JsString
  raw : JsString
  deriving DecidableEq

def Field.line (f : Field) : JsString :=
  f.name ++ unit ':' :: f.raw

/-- The field as it is looked up. -/
def Field.entry (f : Field) : JsString × JsString :=
  (toLowerCase (trim f.name), trim f.raw)

structure Field.WellFormed (f : Field) : Prop where
  name_ne : f.name ≠ []
  colon : unit ':' ∉ f.name
  return_notMem : unit '\r' ∉ f.line
  newline_notMem : unit '\n' ∉ f.line
  text : isWellFormedText f.line = true

def headText : List Field → JsString
  | [] => []
  | [f] => f.line
  | f :: g :: rest => f.line ++ unit '\r' :: unit '\n' :: headText (g :: rest)

theorem Field.line_ne_nil (f : Field) : f.line ≠ [] := by
  simp [Field.line]

theorem splitLines_line {line : JsString} (h : unit '\r' ∉ line) : splitLines line = [line] := by
  induction line using splitLines.induct with
  | case1 => rfl
  | case2 c => rfl
  | case3 c d rest hbreak ih => exact absurd (hbreak.1 ▸ List.mem_cons_self) h
  | case4 c d rest hbreak hnil ih =>
      have hrest := ih (fun hm => h (List.mem_cons_of_mem _ hm))
      rw [hnil] at hrest
      cases hrest
  | case5 c d rest hbreak line lines hcons ih =>
      have hrest := ih (fun hm => h (List.mem_cons_of_mem _ hm))
      rw [splitLines, if_neg hbreak, hrest]

theorem splitLines_append {line : JsString} (h : unit '\r' ∉ line) (rest : JsString) :
    splitLines (line ++ unit '\r' :: unit '\n' :: rest) = line :: splitLines rest := by
  induction line with
  | nil => rw [List.nil_append, splitLines, if_pos ⟨rfl, rfl⟩]
  | cons c line ih =>
      have hc : c ≠ unit '\r' := fun hc => h (hc ▸ List.mem_cons_self)
      have hrest := ih (fun hm => h (List.mem_cons_of_mem _ hm))
      cases hcons : line ++ unit '\r' :: unit '\n' :: rest with
      | nil => simp at hcons
      | cons d text =>
          rw [hcons] at hrest
          rw [List.cons_append, hcons, splitLines, if_neg (fun hb => hc hb.1), hrest]

theorem splitLines_headText {fields : List Field} (hfields : ∀ f ∈ fields, f.WellFormed)
    (hne : fields ≠ []) : splitLines (headText fields) = fields.map Field.line := by
  induction fields using headText.induct with
  | case1 => exact absurd rfl hne
  | case2 f => exact splitLines_line (hfields f List.mem_cons_self).return_notMem
  | case3 f g rest ih =>
      rw [headText, splitLines_append (hfields f List.mem_cons_self).return_notMem,
        ih (fun f' hf' => hfields f' (List.mem_cons_of_mem _ hf')) (List.cons_ne_nil g rest)]
      rfl

theorem addHeader_line {f : Field} (hf : f.WellFormed) (headers : List (JsString × JsString)) :
    addHeader headers f.line = Assoc.set headers f.entry.1 f.entry.2 := by
  have hindex : f.line.idxOf (unit ':') = f.name.length := by
    rw [Field.line, List.idxOf_append_of_notMem hf.colon]
    simp
  have htake : f.line.take f.name.length = f.name := List.take_left
  have hdrop : f.line.drop (f.name.length + 1) = f.raw := by
    have hlen : f.name.length + 1 = (f.name ++ [unit ':']).length := by simp
    rw [Field.line, List.append_cons, hlen, List.drop_left]
  have hpos := List.length_pos_of_ne_nil hf.name_ne
  rw [addHeader, hindex, if_neg, htake, hdrop]
  · rfl
  · simp only [Field.line, List.length_append, List.length_cons]
    omega

theorem foldl_addHeader {fields : List Field} (hfields : ∀ f ∈ fields, f.WellFormed)
    (headers : List (JsString × JsString))
    (hnodup : (Assoc.keys (headers ++ fields.map Field.entry)).Nodup) :
    (fields.map Field.line).foldl addHeader headers = headers ++ fields.map Field.entry := by
  induction fields generalizing headers with
  | nil => simp
  | cons f fields ih =>
      have hkey : f.entry.1 ∉ Assoc.keys headers := by
        intro hmem
        simp only [Assoc.keys, List.map_append, List.map_cons] at hnodup
        exact (List.nodup_append.mp hnodup).2.2 _ hmem _ List.mem_cons_self rfl
      rw [List.map_cons, List.foldl_cons, addHeader_line (hfields f List.mem_cons_self),
        Assoc.set_of_notMem _ hkey, ih (fun g hg => hfields g (List.mem_cons_of_mem _ hg))]
      · simp
      · simpa using hnodup

/-- The header lines are read as the fields they spell. -/
theorem parsePartHeaders_headText {fields : List Field} (hfields : ∀ f ∈ fields, f.WellFormed)
    (hne : fields ≠ []) (hnodup : (Assoc.keys (fields.map Field.entry)).Nodup) :
    parsePartHeaders (headText fields) = fields.map Field.entry := by
  rw [parsePartHeaders, splitLines_headText hfields hne, foldl_addHeader hfields [] (by simpa)]
  rfl

/-! ## Heads as bytes -/

theorem isWellFormedText_headText {fields : List Field} (hfields : ∀ f ∈ fields, f.WellFormed) :
    isWellFormedText (headText fields) = true := by
  induction fields using headText.induct with
  | case1 => rfl
  | case2 f => exact (hfields f List.mem_cons_self).text
  | case3 f g rest ih =>
      have hrest := ih (fun f' hf' => hfields f' (List.mem_cons_of_mem _ hf'))
      have hbreak : isWellFormedText [unit '\r', unit '\n'] = true := by decide
      exact isWellFormedText_append (hfields f List.mem_cons_self).text
        (isWellFormedText_append hbreak hrest)

theorem return_notMem_encode {text : JsString} (h : unit '\r' ∉ text) : (13 : Byte) ∉ encode text := by
  intro hmem
  rcases mem_of_mem_encode hmem (by decide) with ⟨u, hu, hval⟩
  have hr : u = unit '\r' := Fin.ext hval
  exact h (hr ▸ hu)

theorem encode_headText_cons {f g : Field} {rest : List Field} (hf : f.WellFormed) :
    encode (headText (f :: g :: rest)) =
      encode f.line ++ (13 :: 10 :: encode (headText (g :: rest))) := by
  have hbreak : isWellFormedText [unit '\r', unit '\n'] = true := by decide
  have hbytes : encode [unit '\r', unit '\n'] = [13, 10] := by decide
  have happend := encode_append hbreak (headText (g :: rest))
  rw [headText, encode_append hf.text]
  rw [hbytes] at happend
  exact congrArg _ happend

/-- A head does not begin with a line break. -/
theorem head_encode_headText {f : Field} (rest : List Field) (hf : f.WellFormed) :
    ∃ b bytes, encode (headText (f :: rest)) = b :: bytes ∧ b ≠ 13 := by
  have hline : ∃ b bytes, encode f.line = b :: bytes ∧ b ≠ 13 := by
    cases hbytes : encode f.line with
    | nil => exact absurd hbytes (encode_ne_nil f.line_ne_nil)
    | cons b bytes =>
        refine ⟨b, bytes, rfl, ?_⟩
        rintro rfl
        exact return_notMem_encode hf.return_notMem (by rw [hbytes]; exact List.mem_cons_self)
  rcases hline with ⟨b, bytes, hbytes, hb⟩
  cases rest with
  | nil => exact ⟨b, bytes, hbytes, hb⟩
  | cons g rest =>
      rw [encode_headText_cons hf, hbytes]
      exact ⟨b, _, rfl, hb⟩

/-- The first empty line is the one behind the head. -/
theorem indexOf_headEnd {fields : List Field} (hfields : ∀ f ∈ fields, f.WellFormed)
    (hne : fields ≠ []) (rest : List Byte) :
    indexOf (crlf ++ crlf) (encode (headText fields) ++ (crlf ++ crlf ++ rest)) =
      some (encode (headText fields)).length := by
  have hcrlf : crlf ++ crlf = 13 :: [10, 13, 10] := rfl
  induction fields using headText.induct with
  | case1 => exact absurd rfl hne
  | case2 f =>
      have hf := hfields f List.mem_cons_self
      have hhead : headText [f] = f.line := rfl
      rw [hhead, hcrlf, indexOf_skip_head (return_notMem_encode hf.return_notMem),
        indexOf_of_prefix (List.prefix_append _ rest)]
      simp
  | case3 f g tail ih =>
      have hf := hfields f List.mem_cons_self
      have hg := hfields g (List.mem_cons_of_mem _ List.mem_cons_self)
      have hrest := ih (fun f' hf' => hfields f' (List.mem_cons_of_mem _ hf'))
        (List.cons_ne_nil g tail)
      rcases head_encode_headText tail hg with ⟨b, bytes, hbytes, hb⟩
      rw [hcrlf] at hrest ⊢
      rw [encode_headText_cons hf, List.append_assoc,
        indexOf_skip_head (return_notMem_encode hf.return_notMem), List.cons_append,
        List.cons_append, indexOf_cons, indexOf_cons, hrest]
      · simp only [Option.map_some, List.length_append, List.length_cons]
        congr 1
        omega
      · intro hbegins
        exact absurd (List.cons_prefix_cons.mp hbegins).1 (by decide)
      · -- the break is followed by the first byte of the next line
        intro hbegins
        rw [hbytes, List.cons_prefix_cons, List.cons_prefix_cons, List.cons_append,
          List.cons_prefix_cons] at hbegins
        exact hb hbegins.2.2.1.symm

/-! ## Forms -/

/-- The head of a part: its header lines, of which one is the disposition with these parameters. -/
structure Head where
  fields : List Field
  params : List Param
  deriving DecidableEq

structure Head.WellFormed (head : Head) : Prop where
  fields : ∀ f ∈ head.fields, f.WellFormed
  distinct : (Assoc.keys (head.fields.map Field.entry)).Nodup
  params : ∀ p ∈ head.params, p.WellFormed
  disposition : (js "content-disposition", dispositionText head.params) ∈
    head.fields.map Field.entry

theorem Head.WellFormed.fields_ne_nil {head : Head} (h : head.WellFormed) : head.fields ≠ [] := by
  intro hnil
  have hmem := h.disposition
  rw [hnil] at hmem
  cases hmem

/-- What ends a body. -/
def delimiter (boundary : JsString) : List Byte :=
  crlf ++ marker boundary

/-- The parts behind a marker, each with its head and its body, and the closing marker. -/
def partsBytes (boundary : JsString) (epilogue : List Byte) : List (Head × List Byte) → List Byte
  | [] => encode (js "--") ++ epilogue
  | (head, body) :: rest =>
      crlf ++ (encode (headText head.fields) ++ (crlf ++ crlf ++
        (body ++ (delimiter boundary ++ partsBytes boundary epilogue rest))))

def formBytes (boundary : JsString) (preamble epilogue : List Byte)
    (form : List (Head × List Byte)) : List Byte :=
  preamble ++ (marker boundary ++ partsBytes boundary epilogue form)

/-- The part that is read. -/
def readPart (part : Head × List Byte) : Part :=
  partOf (encode (headText part.1.fields)) part.2

/-- A boundary lies on one line. -/
structure BoundaryOk (boundary : JsString) : Prop where
  return_notMem : unit '\r' ∉ boundary
  newline_notMem : unit '\n' ∉ boundary

theorem marker_notMem {boundary : JsString} {b : Byte} {u : CodeUnit} (hu : u.val = b.val)
    (hb : b.val < 0x80) (hdash : u ≠ unit '-') (h : u ∉ boundary) : b ∉ marker boundary := by
  intro hmem
  rcases mem_of_mem_encode hmem hb with ⟨v, hv, hval⟩
  have hvu : v = u := Fin.ext (hval.trans hu.symm)
  rcases List.mem_append.mp hv with hv | hv
  · have hdashes : js "--" = [unit '-', unit '-'] := by decide
    rw [hdashes] at hv
    exact hdash (hvu ▸ by simpa using hv)
  · exact h (hvu ▸ hv)

/-- The delimiter is found behind the body it ends. -/
theorem indexOf_delimiter {boundary : JsString} (hboundary : BoundaryOk boundary)
    {body : List Byte} (hbody : ¬ delimiter boundary <:+: body) (rest : List Byte) :
    indexOf (delimiter boundary) (body ++ (delimiter boundary ++ rest)) = some body.length := by
  have hmarker : (13 : Byte) ∉ 10 :: marker boundary := by
    rw [List.mem_cons, not_or]
    exact ⟨by decide, marker_notMem rfl (by decide) (by decide) hboundary.return_notMem⟩
  exact indexOf_unbordered hmarker hbody rest

theorem length_crlf : crlf.length = 2 := rfl

/-- Every part is read with its own head and its exact body. -/
theorem parseParts_partsBytes {boundary : JsString} (hboundary : BoundaryOk boundary)
    (epilogue : List Byte) {form : List (Head × List Byte)}
    (hheads : ∀ part ∈ form, part.1.WellFormed)
    (hbodies : ∀ part ∈ form, ¬ delimiter boundary <:+: part.2) :
    parseParts boundary (partsBytes boundary epilogue form) = .ok (form.map readPart) := by
  induction form with
  | nil =>
      have hclose : encode (js "--") = [45, 45] := by decide
      have htext : asciiText (([45, 45] ++ epilogue : List Byte).take 2) = js "--" := by
        change asciiText [45, 45] = js "--"
        decide
      rw [partsBytes, hclose, parseParts, if_pos htext]
      rfl
  | cons part form ih =>
      rcases part with ⟨head, body⟩
      have hhead := hheads _ List.mem_cons_self
      have hbody := hbodies _ List.mem_cons_self
      have hrest := ih (fun p hp => hheads p (List.mem_cons_of_mem _ hp))
        (fun p hp => hbodies p (List.mem_cons_of_mem _ hp))
      have hline : ∀ rest : List Byte, (crlf ++ rest).take 2 = crlf := fun rest =>
        List.take_left' length_crlf
      have hdropLine : ∀ rest : List Byte, (crlf ++ rest).drop 2 = rest := fun rest =>
        List.drop_left' length_crlf
      have hends : ∀ rest : List Byte, (encode (headText head.fields) ++ (crlf ++ crlf ++ rest)).drop
          ((encode (headText head.fields)).length + 4) = rest := by
        intro rest
        rw [← List.append_assoc, List.drop_left']
        simp [length_crlf]
      have hnext : ∀ rest : List Byte, (body ++ (delimiter boundary ++ rest)).drop
          (body.length + 2 + (marker boundary).length) = rest := by
        intro rest
        rw [← List.append_assoc, List.drop_left']
        simp [delimiter, length_crlf]
        omega
      have hdelimiter := indexOf_delimiter hboundary hbody (partsBytes boundary epilogue form)
      rw [partsBytes, parseParts]
      simp only [hline, hdropLine]
      rw [if_neg (by decide), if_neg (by decide),
        indexOf_headEnd hhead.fields hhead.fields_ne_nil]
      simp only [hends]
      rw [← delimiter, hdelimiter]
      simp only [hnext, hrest, List.take_left]
      rfl

/-- A preamble ends its last line and does not hold the marker. -/
structure PreambleOk (boundary : JsString) (preamble : List Byte) : Prop where
  line : ∀ b ∈ preamble.getLast?, b = 10
  marker : ¬ marker boundary <:+: preamble

theorem indexOf_marker {boundary : JsString} (hboundary : BoundaryOk boundary)
    {preamble : List Byte} (hpreamble : PreambleOk boundary preamble) (rest : List Byte) :
    indexOf (marker boundary) (preamble ++ (marker boundary ++ rest)) = some preamble.length := by
  have hnewline : (10 : Byte) ∉ marker boundary :=
    marker_notMem rfl (by decide) (by decide) hboundary.newline_notMem
  exact indexOf_after hnewline hpreamble.line hpreamble.marker rest

theorem parseMultipart_formBytes {boundary : JsString} (hboundary : BoundaryOk boundary)
    {preamble : List Byte} (hpreamble : PreambleOk boundary preamble) (epilogue : List Byte)
    {form : List (Head × List Byte)} (hheads : ∀ part ∈ form, part.1.WellFormed)
    (hbodies : ∀ part ∈ form, ¬ delimiter boundary <:+: part.2) :
    parseMultipart (formBytes boundary preamble epilogue form) boundary =
      .ok ((form.map readPart).filter (fun part => part.name ≠ none ∧ part.name ≠ some [])) := by
  have hdrop : (preamble ++ (marker boundary ++ partsBytes boundary epilogue form)).drop
      (preamble.length + (marker boundary).length) = partsBytes boundary epilogue form := by
    rw [← List.append_assoc, List.drop_left']
    simp
  rw [parseMultipart, formBytes, indexOf_marker hboundary hpreamble]
  simp only [hdrop, parseParts_partsBytes hboundary epilogue hheads hbodies]

/-! ## The parts that are found -/

theorem readPart_name {part : Head × List Byte} (h : part.1.WellFormed) :
    (readPart part).name = dispositionParam (some (dispositionText part.1.params)) (js "name") := by
  have hheaders : parsePartHeaders (Utf8.decode (encode (headText part.1.fields))) =
      part.1.fields.map Field.entry := by
    rw [Utf8.decode_encode (isWellFormedText_headText h.fields),
      parsePartHeaders_headText h.fields h.fields_ne_nil h.distinct]
  have hget : Assoc.get? (part.1.fields.map Field.entry) (js "content-disposition") =
      some (dispositionText part.1.params) :=
    Assoc.get?_eq_some_of_mem h.distinct h.disposition
  rw [readPart, partOf]
  simp only [hheaders, hget]

theorem readPart_body (part : Head × List Byte) : (readPart part).body = part.2 := rfl

/-- The first part found under a name is the first whose searched parameter carries the name. -/
theorem find?_readPart {form : List (Head × List Byte)}
    (hheads : ∀ part ∈ form, part.1.WellFormed) {n : JsString}
    (hn : n.head? ≠ some (unit ';')) (hne : n ≠ []) :
    ((form.map readPart).filter (fun part => part.name ≠ none ∧ part.name ≠ some [])).find?
        (fun part => part.name = some n) =
      (form.find? (fun part => carriedName part.1.params = some n)).map readPart := by
  rw [List.find?_filter, List.find?_map]
  congr 1
  refine List.find?_congr (fun part hpart => ?_)
  have hname : (readPart part).name = some n ↔ carriedName part.1.params = some n := by
    rw [readPart_name (hheads part hpart), dispositionParam_name (hheads part hpart).params hn hne]
  by_cases hcarried : carriedName part.1.params = some n
  · simp [hcarried, hname.mpr hcarried, hne]
  · have hnot : (readPart part).name ≠ some n := fun h => hcarried (hname.mp h)
    simp [hcarried, hnot]

end Multipart
end ObjyDb
