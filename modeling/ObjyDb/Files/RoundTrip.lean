import ObjyDb.Files.Uploads
import ObjyDb.Js.JsonCharset

/-!
# RoundTrip — uploads that the database builds itself

`buildMultipartObjectFile` forwards an upload to another node.  What it writes is a form of two
parts, whose names stand first in their dispositions.

* `build_body` — the bytes written are those of the form `[objectHead, fileHead]`;
* `read_build` — reading them gives the object, the bytes and the type back;
* `uploads_spec` — the round trip, and which bodies of other clients are read back.
-/

namespace ObjyDb
namespace Multipart

open Js Search

/-! ## The heads that are written -/

def objectHead : Head where
  fields := [⟨js "content-disposition", js " form-data; name=\"object\""⟩,
    ⟨js "content-type", js " application/json"⟩]
  params := [⟨js " ", js "name", js "object", true⟩]

def fileHead (filename mimeType : JsString) : Head where
  fields := [⟨js "content-disposition",
      js " form-data; name=\"file\"; filename=\"" ++ (filename ++ js "\"")⟩,
    ⟨js "content-type", unit ' ' :: mimeType⟩]
  params := [⟨js " ", js "name", js "file", true⟩, ⟨js " ", js "filename", filename, true⟩]

theorem trim_space (text : JsString) : trim (unit ' ' :: text) = trim text := by
  rw [trim, List.dropWhile_cons_of_pos (by decide), trim]

theorem quotedParam_wellFormed {key value : JsString}
    (hkey : key.all (fun u => !isTokenEnd u) = true) (hvalue : unit '"' ∉ value) :
    Param.WellFormed ⟨js " ", key, value, true⟩ where
  space := by
    intro u hu
    have hspace : js " " = [unit ' '] := by decide
    rw [hspace] at hu
    exact Or.inl (List.mem_singleton.mp hu)
  key := by
    intro u hu
    simpa using List.all_eq_true.mp hkey u hu
  value := hvalue
  token := by
    intro h
    cases h

theorem objectHead_wellFormed : objectHead.WellFormed where
  fields := by
    intro f hf
    simp only [objectHead, List.mem_cons, List.not_mem_nil, or_false] at hf
    rcases hf with rfl | rfl
    · exact ⟨by decide, by decide, by decide +kernel, by decide +kernel, by decide +kernel⟩
    · exact ⟨by decide, by decide, by decide +kernel, by decide +kernel, by decide +kernel⟩
  distinct := by decide +kernel
  params := by
    intro p hp
    rcases List.mem_singleton.mp hp with rfl
    exact quotedParam_wellFormed (by decide) (by decide)
  disposition := by decide +kernel

/-- A text that may stand in a header line. -/
structure HeaderText (text : JsString) : Prop where
  return_notMem : unit '\r' ∉ text
  newline_notMem : unit '\n' ∉ text
  wellFormed : isWellFormedText text = true

theorem HeaderText.append {left right : JsString} (hl : HeaderText left) (hr : HeaderText right) :
    HeaderText (left ++ right) where
  return_notMem := by
    rw [List.mem_append, not_or]
    exact ⟨hl.return_notMem, hr.return_notMem⟩
  newline_notMem := by
    rw [List.mem_append, not_or]
    exact ⟨hl.newline_notMem, hr.newline_notMem⟩
  wellFormed := isWellFormedText_append hl.wellFormed hr.wellFormed

theorem Field.wellFormed_of_text {name raw : JsString} (hne : name ≠ []) (hcolon : unit ':' ∉ name)
    (hname : HeaderText name) (hraw : HeaderText raw) : Field.WellFormed ⟨name, raw⟩ := by
  have hline : HeaderText (name ++ ([unit ':'] ++ raw)) :=
    hname.append (HeaderText.append ⟨by decide, by decide, by decide⟩ hraw)
  exact ⟨hne, hcolon, hline.return_notMem, hline.newline_notMem, hline.wellFormed⟩

/-- The disposition of the file part, behind the space after its colon. -/
theorem fileHead_disposition (filename mimeType : JsString) :
    js " form-data; name=\"file\"; filename=\"" ++ (filename ++ js "\"") =
      unit ' ' :: dispositionText (fileHead filename mimeType).params := by
  have hfront : js " form-data; name=\"file\"; filename=\"" =
      unit ' ' :: (js "form-data" ++ Param.text ⟨js " ", js "name", js "file", true⟩ ++
        Param.lead ⟨js " ", js "filename", [], true⟩ ++ [unit '"']) := by decide +kernel
  have hquote : js "\"" = [unit '"'] := by decide
  rw [hfront, hquote]
  simp [dispositionText, paramsText, fileHead, Param.text, Param.lead]

theorem trim_dispositionText (filename mimeType : JsString) :
    trim (dispositionText (fileHead filename mimeType).params) =
      dispositionText (fileHead filename mimeType).params := by
  have hends : ∃ inner, dispositionText (fileHead filename mimeType).params =
      unit 'f' :: (inner ++ [unit '"']) := by
    have hform : js "form-data" = unit 'f' :: js "orm-data" := by decide
    refine ⟨js "orm-data" ++ Param.text ⟨js " ", js "name", js "file", true⟩ ++
      Param.lead ⟨js " ", js "filename", [], true⟩ ++ unit '"' :: filename, ?_⟩
    simp [dispositionText, paramsText, fileHead, Param.text, Param.lead, hform]
  rcases hends with ⟨inner, hinner⟩
  rw [hinner, trim_eq_self_iff]
  constructor
  · intro b hb
    cases hb
    decide
  · intro b hb
    rw [← List.cons_append, List.map_append, List.map_singleton, List.getLast?_concat] at hb
    cases hb
    decide

theorem fileHead_wellFormed {filename mimeType : JsString} (hfilename : HeaderText filename)
    (hquote : unit '"' ∉ filename) (hmime : HeaderText mimeType) :
    (fileHead filename mimeType).WellFormed where
  fields := by
    intro f hf
    simp only [fileHead, List.mem_cons, List.not_mem_nil, or_false] at hf
    rcases hf with rfl | rfl
    · refine Field.wellFormed_of_text (by decide) (by decide)
        ⟨by decide, by decide, by decide +kernel⟩ (HeaderText.append ?_ (hfilename.append ?_))
      · exact ⟨by decide +kernel, by decide +kernel, by decide +kernel⟩
      · exact ⟨by decide, by decide, by decide⟩
    · have hspace : HeaderText [unit ' '] := ⟨by decide, by decide, by decide⟩
      exact Field.wellFormed_of_text (by decide) (by decide)
        ⟨by decide, by decide, by decide +kernel⟩ (hspace.append hmime)
  distinct := by
    have hkeys : Assoc.keys ((fileHead filename mimeType).fields.map Field.entry) =
        [toLowerCase (trim (js "content-disposition")), toLowerCase (trim (js "content-type"))] := rfl
    rw [hkeys]
    decide +kernel
  params := by
    intro p hp
    simp only [fileHead, List.mem_cons, List.not_mem_nil, or_false] at hp
    rcases hp with rfl | rfl
    · exact quotedParam_wellFormed (by decide) (by decide)
    · exact quotedParam_wellFormed (by decide) hquote
  disposition := by
    have hname : toLowerCase (trim (js "content-disposition")) = js "content-disposition" := by
      decide +kernel
    have hraw : trim (js " form-data; name=\"file\"; filename=\"" ++ (filename ++ js "\"")) =
        dispositionText (fileHead filename mimeType).params := by
      rw [fileHead_disposition filename mimeType, trim_space, trim_dispositionText]
    refine List.mem_cons.mpr (Or.inl ?_)
    rw [Field.entry, hname, hraw]

/-! ## The bytes that are written -/

theorem build_object_bytes (boundary : JsString) :
    encode (js "--" ++ boundary ++ js "\r\ncontent-disposition: form-data; name=\"object\"" ++
        js "\r\ncontent-type: application/json\r\n\r\n") =
      marker boundary ++ (crlf ++ (encode (headText objectHead.fields) ++ (crlf ++ crlf))) := by
  have hhead : encode (js "\r\ncontent-disposition: form-data; name=\"object\"" ++
      js "\r\ncontent-type: application/json\r\n\r\n") =
      crlf ++ (encode (headText objectHead.fields) ++ (crlf ++ crlf)) := by decide +kernel
  rw [List.append_assoc, encode_append_of_head, hhead, marker]
  intro v hv
  cases hv
  decide

theorem delimiter_eq (boundary : JsString) :
    encode (js "\r\n--" ++ boundary) = delimiter boundary := by
  have hsplit : js "\r\n--" = js "\r\n" ++ js "--" := by decide
  have hbytes : encode (js "\r\n") = crlf := by decide
  have hwf : isWellFormedText (js "\r\n") = true := by decide
  rw [hsplit, List.append_assoc, encode_append hwf, hbytes, delimiter, marker]

/-- A piece that a literal follows. -/
theorem encode_append_js (left : JsString) {s : String} (right : JsString)
    (hne : js s ≠ []) (h : (js s).all (fun u => !isLowSurrogate u) = true) :
    encode (left ++ (js s ++ right)) = encode left ++ encode (js s ++ right) := by
  refine encode_append_of_head (fun v hv => ?_)
  rw [List.head?_append_of_ne_nil _ hne] at hv
  simpa using List.all_eq_true.mp h v (List.mem_of_mem_head? hv)

theorem headText_fileHead (filename mimeType : JsString) :
    headText (fileHead filename mimeType).fields =
      js "content-disposition: form-data; name=\"file\"; filename=\"" ++ (filename ++
        (js "\"\r\ncontent-type: " ++ mimeType)) := by
  have hname : js "content-disposition" ++ unit ':' ::
      js " form-data; name=\"file\"; filename=\"" =
      js "content-disposition: form-data; name=\"file\"; filename=\"" := by decide +kernel
  have htype : js "\"" ++ unit '\r' :: unit '\n' :: (js "content-type" ++ [unit ':', unit ' ']) =
      js "\"\r\ncontent-type: " := by decide +kernel
  rw [← hname, ← htype]
  simp [headText, fileHead, Field.line]

theorem build_file_bytes (boundary filename mimeType : JsString) :
    encode (js "\r\n--" ++ boundary ++ js "\r\ncontent-disposition: form-data; name=\"file\"" ++
        js "; filename=\"" ++ filename ++ js "\"\r\ncontent-type: " ++ mimeType ++
        js "\r\n\r\n") =
      delimiter boundary ++ (crlf ++
        (encode (headText (fileHead (toWellFormed filename) (toWellFormed mimeType)).fields) ++
          (crlf ++ crlf))) := by
  have hfront : js "\r\ncontent-disposition: form-data; name=\"file\"" ++ js "; filename=\"" =
      js "\r\n" ++ js "content-disposition: form-data; name=\"file\"; filename=\"" := by
    decide +kernel
  have hline : encode (js "\r\n") = crlf := by decide
  have hends : encode (js "\r\n\r\n" ++ []) = crlf ++ crlf := by decide
  have hwfLine : isWellFormedText (js "\r\n") = true := by decide
  have hwfFront : isWellFormedText
      (js "content-disposition: form-data; name=\"file\"; filename=\"") = true := by decide +kernel
  have hwfType : isWellFormedText (js "\"\r\ncontent-type: ") = true := by decide +kernel
  calc encode (js "\r\n--" ++ boundary ++
        js "\r\ncontent-disposition: form-data; name=\"file\"" ++ js "; filename=\"" ++ filename ++
        js "\"\r\ncontent-type: " ++ mimeType ++ js "\r\n\r\n")
      = encode ((js "\r\n--" ++ boundary) ++ (js "\r\n" ++
          (js "content-disposition: form-data; name=\"file\"; filename=\"" ++ (filename ++
            (js "\"\r\ncontent-type: " ++ (mimeType ++ (js "\r\n\r\n" ++ []))))))) := by
        rw [← List.append_assoc (js "\r\n"), ← hfront, List.append_nil]
        simp only [List.append_assoc]
    _ = delimiter boundary ++ (crlf ++
          (encode (js "content-disposition: form-data; name=\"file\"; filename=\"") ++
            (encode filename ++ (encode (js "\"\r\ncontent-type: ") ++
              (encode mimeType ++ (crlf ++ crlf)))))) := by
        rw [encode_append_js _ _ (by decide) (by decide), delimiter_eq, encode_append hwfLine, hline,
          encode_append hwfFront, encode_append_js _ _ (by decide) (by decide +kernel),
          encode_append hwfType, encode_append_js _ _ (by decide) (by decide), hends]
    _ = delimiter boundary ++ (crlf ++
          (encode (headText (fileHead (toWellFormed filename) (toWellFormed mimeType)).fields) ++
            (crlf ++ crlf))) := by
        rw [headText_fileHead, encode_append hwfFront,
          encode_append (isWellFormedText_toWellFormed filename), encode_append hwfType,
          encode_toWellFormed, encode_toWellFormed]
        simp only [List.append_assoc]

/-- The name and the type as the bytes keep them. -/
def OutgoingFile.head (file : OutgoingFile) : Head :=
  fileHead (toWellFormed (escapeHeader file.sentName)) (toWellFormed (cleanMimeType file.mimeType))

theorem build_body (uuid : JsString) (object : Fields) (file : OutgoingFile) :
    (buildMultipartObjectFile uuid object file).body =
      formBytes (js "objydb-" ++ uuid) [] crlf
        [(objectHead, encode (stringify (.obj object))), (file.head, file.body)] := by
  have hclose : ∀ boundary : JsString, encode (js "\r\n--" ++ boundary ++ js "--\r\n") =
      delimiter boundary ++ (encode (js "--") ++ crlf) := by
    intro boundary
    have hbytes : encode (js "--\r\n" ++ []) = encode (js "--") ++ crlf := by decide
    have happend := encode_append_js (js "\r\n--" ++ boundary) (s := "--\r\n") [] (by decide)
      (by decide)
    rw [hbytes, List.append_nil, delimiter_eq] at happend
    exact happend
  simp only [buildMultipartObjectFile]
  rw [build_object_bytes, build_file_bytes, hclose]
  simp only [formBytes, partsBytes, OutgoingFile.head, List.append_assoc, List.nil_append]

/-! ## Reading what was built -/

/-- A unit of `randomUUID()`: a lower-case hexadecimal digit or a hyphen. -/
def isUuidUnit (u : CodeUnit) : Bool :=
  (0x30 ≤ u.val && u.val ≤ 0x39) || (0x61 ≤ u.val && u.val ≤ 0x66) || u.val = 0x2d

theorem boundaryText_uuid {uuid : JsString} (h : uuid.all isUuidUnit = true) :
    BoundaryText (js "objydb-" ++ uuid) false := by
  have hletters : (js "objydb-").all (fun u => 0x2d ≤ u.val && u.val ≤ 0x7a && u.val ≠ 0x3b) = true := by
    decide
  have hrange : ∀ u ∈ js "objydb-" ++ uuid, 0x2d ≤ u.val ∧ u.val ≤ 0x7a ∧ u.val ≠ 0x3b := by
    intro u hu
    rcases List.mem_append.mp hu with hu | hu
    · simpa [and_assoc] using List.all_eq_true.mp hletters u hu
    · have hunit := List.all_eq_true.mp h u hu
      simp only [isUuidUnit, Bool.or_eq_true, Bool.and_eq_true, decide_eq_true_eq] at hunit
      omega
  have hnot : ∀ c : CodeUnit, ¬ (0x2d ≤ c.val ∧ c.val ≤ 0x7a ∧ c.val ≠ 0x3b) →
      c ∉ js "objydb-" ++ uuid := fun c hc hmem => hc (hrange c hmem)
  have hspace : ∀ u ∈ js "objydb-" ++ uuid, isTrimSpace u = false := by
    intro u hu
    have hu' := hrange u hu
    rw [isTrimSpace, decide_eq_false_iff_not]
    intro hmem
    simp only [List.mem_cons, List.not_mem_nil, or_false] at hmem
    omega
  refine { return_notMem := hnot _ (by decide), newline_notMem := hnot _ (by decide),
           ne_nil := ?_, trimmed := ?_, quote := hnot _ (by decide),
           semicolon := fun _ => hnot _ (by decide) }
  · intro hnil
    have hfront := (List.append_eq_nil_iff.mp hnil).1
    exact absurd hfront (by decide)
  · rw [trim_eq_self_iff]
    constructor
    · intro b hb
      rw [List.head?_map] at hb
      rcases Option.map_eq_some_iff.mp hb with ⟨u, hu, rfl⟩
      exact hspace u (List.mem_of_mem_head? hu)
    · intro b hb
      rw [List.getLast?_map] at hb
      rcases Option.map_eq_some_iff.mp hb with ⟨u, hu, rfl⟩
      exact hspace u (List.mem_of_getLast? hu)

/-- A type that stands on one line, without white space around it. -/
structure OneLine (text : JsString) : Prop where
  trimmed : trim text = text
  return_notMem : unit '\r' ∉ text
  newline_notMem : unit '\n' ∉ text

theorem oneLine_cleanMimeType {value : Option JsString} (h : ∀ text ∈ value, OneLine text) :
    OneLine (cleanMimeType value) := by
  have hdefault : OneLine (js "application/octet-stream") :=
    ⟨by decide +kernel, by decide, by decide⟩
  cases value with
  | none => exact hdefault
  | some text =>
      cases text with
      | nil => exact hdefault
      | cons u rest => exact h _ rfl

theorem headerText_toWellFormed {text : JsString} (hreturn : unit '\r' ∉ text)
    (hnewline : unit '\n' ∉ text) : HeaderText (toWellFormed text) where
  return_notMem := fun h => hreturn ((mem_toWellFormed (by decide) text).mp h)
  newline_notMem := fun h => hnewline ((mem_toWellFormed (by decide) text).mp h)
  wellFormed := isWellFormedText_toWellFormed text

theorem escapeHeader_notMem {c : CodeUnit} (hc : c = unit '"' ∨ c = unit '\r' ∨ c = unit '\n')
    (value : JsString) : c ∉ escapeHeader value := by
  intro hmem
  rcases List.mem_map.mp hmem with ⟨u, -, hu⟩
  split at hu
  · rw [← hu] at hc
    exact absurd hc (by decide)
  · rename_i hplain
    exact hplain (hu ▸ hc)

theorem OutgoingFile.head_wellFormed {file : OutgoingFile}
    (h : ∀ text ∈ file.mimeType, OneLine text) : file.head.WellFormed := by
  have hmime := oneLine_cleanMimeType h
  have hquote : unit '"' ∉ toWellFormed (escapeHeader file.sentName) := fun hmem =>
    escapeHeader_notMem (Or.inl rfl) _ ((mem_toWellFormed (by decide) _).mp hmem)
  exact fileHead_wellFormed
    (headerText_toWellFormed (escapeHeader_notMem (Or.inr (Or.inl rfl)) _)
      (escapeHeader_notMem (Or.inr (Or.inr rfl)) _))
    hquote (headerText_toWellFormed hmime.return_notMem hmime.newline_notMem)

theorem readPart_contentType {part : Head × List Byte} (h : part.1.WellFormed) :
    (readPart part).contentType = Assoc.get? (part.1.fields.map Field.entry) (js "content-type") := by
  rw [readPart, partOf, Utf8.decode_encode (isWellFormedText_headText h.fields),
    parsePartHeaders_headText h.fields h.fields_ne_nil h.distinct]

/-- The type that is read of the part that was written. -/
theorem contentType_fileHead {filename mimeType : JsString} (h : trim mimeType = mimeType) :
    Assoc.get? ((fileHead filename mimeType).fields.map Field.entry) (js "content-type") =
      some mimeType := by
  have hname : toLowerCase (trim (js "content-disposition")) ≠ js "content-type" := by
    decide +kernel
  have htype : toLowerCase (trim (js "content-type")) = js "content-type" := by decide +kernel
  have hfields : (fileHead filename mimeType).fields.map Field.entry =
      [(toLowerCase (trim (js "content-disposition")),
          trim (js " form-data; name=\"file\"; filename=\"" ++ (filename ++ js "\""))),
        (toLowerCase (trim (js "content-type")), trim (unit ' ' :: mimeType))] := rfl
  rw [hfields, Assoc.get?_cons, if_neg hname, Assoc.get?_cons, if_pos htype, trim_space, h]

theorem cleanMimeType_ne_nil (value : Option JsString) : cleanMimeType value ≠ [] := by
  have hdefault : js "application/octet-stream" ≠ [] := by decide
  cases value with
  | none => exact hdefault
  | some text =>
      cases text with
      | nil => exact hdefault
      | cons u rest => exact List.cons_ne_nil u rest

theorem cleanMimeType_of_ne_nil {text : JsString} (h : text ≠ []) :
    cleanMimeType (some text) = text := by
  cases text with
  | nil => exact absurd rfl h
  | cons u rest => rfl

theorem toWellFormed_ne_nil {text : JsString} (h : text ≠ []) : toWellFormed text ≠ [] := by
  intro hnil
  have hmap := map_toWellFormed (fun _ => ()) (fun _ _ => rfl) text
  rw [hnil] at hmap
  exact h (List.map_eq_nil_iff.mp hmap.symm)

/-- Reading gives back the object, the bytes, and the type as the bytes keep it. -/
theorem read_build {uuid : JsString} (huuid : uuid.all isUuidUnit = true) {object : Fields}
    (hobject : (Json.obj object).WellFormed) {file : OutgoingFile}
    (hmime : ∀ text ∈ file.mimeType, OneLine text)
    (hbody : ¬ delimiter (js "objydb-" ++ uuid) <:+: file.body) {maxBytes : Nat}
    (hfits : (buildMultipartObjectFile uuid object file).body.length ≤ maxBytes) :
    ∃ r, readMultipartObjectFile (buildMultipartObjectFile uuid object file) maxBytes = .ok r ∧
      r.object = object ∧ r.file.body = file.body ∧
      r.file.mimeType = toWellFormed (cleanMimeType file.mimeType) := by
  have hrequest : buildMultipartObjectFile uuid object file =
      ⟨some (contentTypeText (js "objydb-" ++ uuid) false),
        formBytes (js "objydb-" ++ uuid) [] crlf
          [(objectHead, encode (stringify (.obj object))), (file.head, file.body)]⟩ := by
    rw [← build_body]
    rfl
  have hboundary := boundaryText_uuid huuid
  have hprintable := printable_stringify (.obj object)
  have hfile := OutgoingFile.head_wellFormed hmime
  have hparse : parse (Utf8.decode (encode (stringify (.obj object)))) = some (.obj object) := by
    rw [Utf8.decode_encode hprintable.wellFormed, parse_stringify hobject]
  have hobjectBody : ¬ delimiter (js "objydb-" ++ uuid) <:+: encode (stringify (.obj object)) := by
    intro hin
    -- a printed object has no line break
    have hmem : (13 : Byte) ∈ encode (stringify (.obj object)) := hin.subset List.mem_cons_self
    refine return_notMem_encode (fun hreturn => ?_) hmem
    exact absurd (hprintable.visible _ hreturn) (by decide)
  have hcarriedObject : carriedName objectHead.params = some (js "object") := by decide
  have hotherObject : carriedName objectHead.params ≠ some (js "file") := by decide
  have hcarried : carriedName file.head.params = some (js "file") := by
    rw [OutgoingFile.head, fileHead, carriedName, List.find?_cons_of_pos (by decide)]
    rfl
  have hcontentType : (readPart (file.head, file.body)).contentType =
      some (toWellFormed (cleanMimeType file.mimeType)) := by
    rw [readPart_contentType hfile]
    exact contentType_fileHead (trim_toWellFormed (oneLine_cleanMimeType hmime).trimmed)
  rw [hrequest] at hfits ⊢
  refine ⟨_, (readMultipart_ok_iff hboundary ⟨by simp, ?_⟩ crlf ?_ ?_ hfits _).mpr
    ⟨(objectHead, encode (stringify (.obj object))), (file.head, file.body), object, ?_, ?_,
      hparse, rfl⟩, rfl, rfl, ?_⟩
  · intro hin
    have hlength := hin.length_le
    have hmarker := four_le_length_delimiter (js "objydb-" ++ uuid)
    simp only [delimiter, List.length_append, length_crlf, List.length_nil] at hmarker hlength
    omega
  · intro part hpart
    rcases List.mem_cons.mp hpart with rfl | hpart
    · exact objectHead_wellFormed
    · rcases List.mem_singleton.mp hpart with rfl
      exact hfile
  · intro part hpart
    rcases List.mem_cons.mp hpart with rfl | hpart
    · exact hobjectBody
    · rcases List.mem_singleton.mp hpart with rfl
      exact hbody
  · exact List.find?_cons_of_pos (by simpa using hcarriedObject)
  · rw [List.find?_cons_of_neg (by simpa using hotherObject),
      List.find?_cons_of_pos (by simpa using hcarried)]
  · simp only [hcontentType]
    exact cleanMimeType_of_ne_nil (toWellFormed_ne_nil (cleanMimeType_ne_nil _))

/-! ## The guarantees -/

/-- A client that writes the file name before the name of the part. -/
def filenameFirst : Arrangement where
  boundary := js "b"
  quoted := false
  preamble := []
  epilogue := crlf
  heads := [objectHead,
    { fields := [⟨js "Content-Disposition", js " form-data; filename=\"a.txt\"; name=\"file\""⟩]
      params := [⟨js " ", js "filename", js "a.txt", true⟩, ⟨js " ", js "name", js "file", true⟩] }]

theorem filenameFirst_wellFormed : filenameFirst.WellFormed where
  boundary := ⟨⟨by decide, by decide⟩, by decide, by decide +kernel, by decide, fun _ => by decide⟩
  preamble := ⟨by simp [filenameFirst], by decide⟩
  heads := by
    intro head hhead
    rcases List.mem_cons.mp hhead with rfl | hhead
    · exact objectHead_wellFormed
    · rcases List.mem_singleton.mp hhead with rfl
      refine ⟨?_, by decide +kernel, ?_, by decide +kernel⟩
      · intro f hf
        rcases List.mem_singleton.mp hf with rfl
        exact ⟨by decide, by decide, by decide +kernel, by decide +kernel, by decide +kernel⟩
      · intro p hp
        rcases List.mem_cons.mp hp with rfl | hp
        · exact quotedParam_wellFormed (by decide) (by decide)
        · rcases List.mem_singleton.mp hp with rfl
          exact quotedParam_wellFormed (by decide) (by decide)

/-- The body `--b … filename="a.txt"; name="file" …` has both parts, an object `{}` and a file of one
byte, and is refused. -/
theorem filenameFirst_refused : filenameFirst.WellFormed ∧
    filenameFirst.declares (js "object") = some 0 ∧ filenameFirst.declares (js "file") = some 1 ∧
    ¬ delimiter filenameFirst.boundary <:+: [0] ∧
    ∀ r, readMultipartObjectFile (filenameFirst.request (probe 0 1)) 1000 ≠ .ok r := by
  refine ⟨filenameFirst_wellFormed, by decide +kernel, by decide +kernel, by decide, ?_⟩
  intro r hread
  have hcarries : filenameFirst.carries (js "file") = none := by decide +kernel
  have hfits : (filenameFirst.request (probe 0 1)).body.length ≤ 1000 := by decide +kernel
  rcases (readMultipart_ok_iff filenameFirst_wellFormed.boundary filenameFirst_wellFormed.preamble
    filenameFirst.epilogue
    (fun part hpart => filenameFirst_wellFormed.heads _ (mem_formOf hpart).1)
    (fun part hpart => by
      rcases (mem_formOf hpart).2 with ⟨j, hj, hpart⟩
      rw [hpart]
      exact not_delimiter_probe filenameFirst.boundary 0 1 j) hfits r).mp hread
    with ⟨-, filePart, -, -, hfile, -⟩
  rcases find?_formOf_iff
    (q := fun head => carriedName head.params = some (js "file")).mp hfile with ⟨k, hk, -⟩
  rw [Arrangement.carries] at hcarries
  rw [hcarries] at hk
  cases hk

/-- What is read back: of an upload that the database builds, the object, the bytes and the type,
when the type is not empty and has no lone surrogate; of another client's body, the object and the
bytes whatever they are, exactly when the parameters that the reader stops at carry the names of the
two parts. -/
theorem uploads_spec (uuid : JsString) (object : Fields) (file : OutgoingFile)
    (mimeType : JsString) (maxBytes : Nat) (a : Arrangement) (i k : Nat) :
    (uuid.all isUuidUnit = true → (Json.obj object).WellFormed →
      file.mimeType = some mimeType → OneLine mimeType →
      ¬ delimiter (js "objydb-" ++ uuid) <:+: file.body →
      (buildMultipartObjectFile uuid object file).body.length ≤ maxBytes →
      ((∃ r, readMultipartObjectFile (buildMultipartObjectFile uuid object file) maxBytes = .ok r ∧
          r.object = object ∧ r.file.body = file.body ∧ r.file.mimeType = mimeType) ↔
        mimeType ≠ [] ∧ isWellFormedText mimeType = true)) ∧
    (a.WellFormed → a.declares (js "object") = some i → a.declares (js "file") = some k →
      (a.ReadsBack i k ↔
        a.carries (js "object") = some i ∧ a.carries (js "file") = some k)) := by
  refine ⟨?_, fun ha hi hk => readsBack_iff_carries ha hi hk⟩
  intro huuid hobject htype hmime hbody hfits
  have hline : ∀ text ∈ file.mimeType, OneLine text := by
    intro text htext
    rw [htype] at htext
    exact Option.some.inj htext ▸ hmime
  rcases read_build huuid hobject hline hbody hfits with ⟨r, hread, hrObject, hrBody, hrType⟩
  rw [htype] at hrType
  constructor
  · rintro ⟨r', hread', -, -, hrType'⟩
    have hsame : r' = r := Except.ok.inj (hread'.symm.trans hread)
    rw [hsame, hrType] at hrType'
    -- an empty type is read as the default one
    have hne : mimeType ≠ [] := by
      rintro rfl
      exact toWellFormed_ne_nil (cleanMimeType_ne_nil (some [])) hrType'
    rw [cleanMimeType_of_ne_nil hne] at hrType'
    exact ⟨hne, toWellFormed_eq_iff.mp hrType'⟩
  · rintro ⟨hne, hwf⟩
    rw [cleanMimeType_of_ne_nil hne, toWellFormed_of_wellFormed hwf] at hrType
    exact ⟨r, hread, hrObject, hrBody, hrType⟩

/-- A client that sends the file first, with the names in front. -/
def fileFirst : Arrangement where
  boundary := js "b"
  quoted := true
  preamble := []
  epilogue := []
  heads := [fileHead (js "a.txt") (js "text/plain"), objectHead]

theorem fileFirst_wellFormed : fileFirst.WellFormed where
  boundary := ⟨⟨by decide, by decide⟩, by decide, by decide +kernel, by decide, fun _ => by decide⟩
  preamble := ⟨by simp [fileFirst], by decide⟩
  heads := by
    intro head hhead
    rcases List.mem_cons.mp hhead with rfl | hhead
    · exact fileHead_wellFormed ⟨by decide, by decide, by decide⟩ (by decide)
        ⟨by decide, by decide, by decide⟩
    · rcases List.mem_singleton.mp hhead with rfl
      exact objectHead_wellFormed

theorem uploads_spec_fileFirst :
    (∃ r, readMultipartObjectFile
        (buildMultipartObjectFile (js "0a-1b") [] ⟨none, some (js "text/plain"), [13, 10, 0]⟩) 1000 =
        .ok r ∧ r.object = [] ∧ r.file.body = [13, 10, 0] ∧ r.file.mimeType = js "text/plain") ∧
      fileFirst.ReadsBack 1 0 := by
  have hspec := uploads_spec (js "0a-1b") [] ⟨none, some (js "text/plain"), [13, 10, 0]⟩
    (js "text/plain") 1000 fileFirst 1 0
  constructor
  · exact (hspec.1 (by decide) (by decide) rfl ⟨by decide +kernel, by decide, by decide⟩
      (by decide +kernel) (by decide +kernel)).mpr ⟨by decide, by decide +kernel⟩
  · exact (hspec.2 fileFirst_wellFormed (by decide +kernel) (by decide +kernel)).mpr
      ⟨by decide +kernel, by decide +kernel⟩

end Multipart
end ObjyDb
