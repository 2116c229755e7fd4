import ObjyDb.Js.JsonText
import ObjyDb.Js.Utf8
import ObjyDb.Lib.Search

/-!
# Multipart — uploads of an object with a file

`readMultipartObjectFile` and `buildMultipartObjectFile`.  The reader walks over the bytes of the
request; where the source keeps a position in the buffer, the model keeps the buffer from that
position on.
-/

namespace ObjyDb
namespace Multipart

open Js Search

/-! ## Data -/

structure HttpError where
  status : Nat
  message : JsString
  deriving DecidableEq

def badRequest (message : JsString) : HttpError := ⟨400, message⟩

structure Part where
  name : Option JsString
  filename : Option JsString
  contentType : Option JsString
  body : List Byte
  deriving DecidableEq

/-- A request: its `content-type` header and the bytes its stream delivers. -/
structure Request where
  contentType : Option JsString
  body : List Byte

structure FileUpload where
  filename : Option JsString
  mimeType : JsString
  body : List Byte
  deriving DecidableEq

structure ObjectFile where
  object : Fields
  file : FileUpload
  deriving DecidableEq

/-! ## Texts -/

/-- `toLowerCase` on ASCII letters.  The results are compared with two names: of the other letters
only the Kelvin sign lowers to ASCII, to a `k`, and neither name holds one. -/
def lowerUnit (u : CodeUnit) : CodeUnit :=
  if 0x41 ≤ u.val ∧ u.val ≤ 0x5a then Fin.ofNat _ (u.val + 0x20) else u

def toLowerCase (text : JsString) : JsString :=
  text.map lowerUnit

/-- `raw.split("\r\n")` -/
def splitLines : JsString → List JsString
  | [] => [[]]
  | [c] => [[c]]
  | c :: d :: rest =>
      if c = unit '\r' ∧ d = unit '\n' then
        [] :: splitLines rest
      else
        match splitLines (d :: rest) with
        | [] => [[c]]
        | line :: lines => (c :: line) :: lines

/-- `headers[line.slice(0, index).trim().toLowerCase()] = line.slice(index + 1).trim()` -/
def addHeader (headers : List (JsString × JsString)) (line : JsString) :
    List (JsString × JsString) :=
  let index := line.idxOf (unit ':')
  if index = 0 ∨ index = line.length then
    headers
  else
    Assoc.set headers (toLowerCase (trim (line.take index))) (trim (line.drop (index + 1)))

def parsePartHeaders (raw : JsString) : List (JsString × JsString) :=
  (splitLines raw).foldl addHeader []

/-- The first match of a pattern that ends in a quote, and what stands before the next quote. -/
def quotedAfter (pattern : JsString) : JsString → Option JsString
  | [] => none
  | c :: rest =>
      if pattern <+: c :: rest ∧ unit '"' ∈ (c :: rest).drop pattern.length then
        some (((c :: rest).drop pattern.length).takeWhile (· ≠ unit '"'))
      else
        quotedAfter pattern rest

/-- The first match of `name="([^"]*)"` in the header. -/
def dispositionParam (header : Option JsString) (name : JsString) : Option JsString :=
  header.bind (quotedAfter (name ++ js "=\""))

def cleanMimeType (value : Option JsString) : JsString :=
  match value with
  | none => js "application/octet-stream"
  | some [] => js "application/octet-stream"
  | some text => text

/-- `value.replace(/["\r\n]/g, "_")` -/
def escapeHeader (value : JsString) : JsString :=
  value.map (fun u => if u = unit '"' ∨ u = unit '\r' ∨ u = unit '\n' then unit '_' else u)

/-! ## The boundary of a request -/

/-- `(?:"([^"]+)"|([^;]+))` -/
def boundaryValue (rest : JsString) : Option JsString :=
  let quoted := (rest.drop 1).takeWhile (· ≠ unit '"')
  let plain := rest.takeWhile (· ≠ unit ';')
  if rest.head? = some (unit '"') ∧ quoted ≠ [] ∧ unit '"' ∈ rest.drop 1 then
    some quoted
  else if plain ≠ [] then
    some plain
  else
    none

/-- The first match of `/boundary=(?:"([^"]+)"|([^;]+))/i`. -/
def matchBoundary : JsString → Option JsString
  | [] => none
  | c :: rest =>
      if js "boundary=" <+: toLowerCase (c :: rest) then
        match boundaryValue ((c :: rest).drop 9) with
        | some boundary => some boundary
        | none => matchBoundary rest
      else
        matchBoundary rest

def multipartBoundary (req : Request) : Except HttpError JsString :=
  match req.contentType.bind matchBoundary with
  | some boundary => .ok (trim boundary)
  | none => .error (badRequest (js "multipart boundary is required"))

/-! ## Parsing -/

/-- `Buffer.toString("ascii")` of a byte. -/
def asciiUnit (b : Byte) : CodeUnit := Fin.ofNat _ (b.val % 128)

def asciiText (bytes : List Byte) : JsString :=
  bytes.map asciiUnit

def crlf : List Byte := [13, 10]

/-- `--${boundary}` -/
def marker (boundary : JsString) : List Byte :=
  encode (js "--" ++ boundary)

/-- The part that the header bytes and the body describe. -/
def partOf (head body : List Byte) : Part :=
  let headers := parsePartHeaders (Utf8.decode head)
  { name := dispositionParam (Assoc.get? headers (js "content-disposition")) (js "name")
    filename := dispositionParam (Assoc.get? headers (js "content-disposition")) (js "filename")
    contentType := Assoc.get? headers (js "content-type")
    body := body }

/-- The loop of `parseMultipart`; `buffer` is what follows a marker. -/
def parseParts (boundary : JsString) (buffer : List Byte) : Except HttpError (List Part) :=
  if asciiText (buffer.take 2) = js "--" then
    .ok []
  else if asciiText (buffer.take 2) ≠ js "\r\n" then
    .error (badRequest (js "invalid multipart boundary"))
  else
    match indexOf (crlf ++ crlf) (buffer.drop 2) with
    | none => .error (badRequest (js "invalid multipart headers"))
    | some headerEnd =>
        let rest := (buffer.drop 2).drop (headerEnd + 4)
        match indexOf (crlf ++ marker boundary) rest with
        | none => .error (badRequest (js "invalid multipart body"))
        | some next =>
            match parseParts boundary (rest.drop (next + 2 + (marker boundary).length)) with
            | .error e => .error e
            | .ok parts =>
                .ok (partOf ((buffer.drop 2).take headerEnd) (rest.take next) :: parts)
termination_by buffer.length
decreasing_by
  rename_i hline
  have hne : buffer ≠ [] := by
    rintro rfl
    exact hline (by decide)
  have hpos := List.length_pos_of_ne_nil hne
  simp only [List.length_drop]
  omega

def parseMultipart (buffer : List Byte) (boundary : JsString) : Except HttpError (List Part) :=
  match indexOf (marker boundary) buffer with
  | none => .error (badRequest (js "invalid multipart body"))
  | some pos =>
      match parseParts boundary (buffer.drop (pos + (marker boundary).length)) with
      | .error e => .error e
      | .ok parts => .ok (parts.filter (fun part => part.name ≠ none ∧ part.name ≠ some []))

/-! ## Reading and building -/

def readRawBody (req : Request) (maxBytes : Nat) : Except HttpError (List Byte) :=
  if maxBytes < req.body.length then .error ⟨413, js "payload too large"⟩ else .ok req.body

def readMultipartObjectFile (req : Request) (maxBytes : Nat) : Except HttpError ObjectFile := do
  let buffer ← readRawBody req maxBytes
  let boundary ← multipartBoundary req
  let parts ← parseMultipart buffer boundary
  match parts.find? (fun part => part.name = some (js "object")) with
  | none => .error (badRequest (js "multipart field \"object\" is required"))
  | some objectPart =>
      match parts.find? (fun part => part.name = some (js "file")) with
      | none => .error (badRequest (js "multipart field \"file\" is required"))
      | some filePart =>
          match parse (Utf8.decode objectPart.body) with
          | none => .error (badRequest (js "multipart field \"object\" must be valid JSON"))
          | some (.obj object) =>
              .ok ⟨object, filePart.filename.filter (· ≠ []), cleanMimeType filePart.contentType,
                filePart.body⟩
          | some _ => .error (badRequest (js "multipart field \"object\" must be a plain object"))

/-- A file to send: `Buffer` body, and a name and a type where it has them. -/
structure OutgoingFile where
  filename : Option JsString
  mimeType : Option JsString
  body : List Byte

/-- `file.filename || "blob"` -/
def OutgoingFile.sentName (file : OutgoingFile) : JsString :=
  match file.filename with
  | none => js "blob"
  | some [] => js "blob"
  | some filename => filename

/-- `randomUUID` gives `uuid`. -/
def buildMultipartObjectFile (uuid : JsString) (object : Fields) (file : OutgoingFile) : Request :=
  let boundary := js "objydb-" ++ uuid
  { contentType := some (js "multipart/form-data; boundary=" ++ boundary)
    body :=
      encode (js "--" ++ boundary ++ js "\r\ncontent-disposition: form-data; name=\"object\"" ++
        js "\r\ncontent-type: application/json\r\n\r\n") ++
      encode (stringify (.obj object)) ++
      encode (js "\r\n--" ++ boundary ++ js "\r\ncontent-disposition: form-data; name=\"file\"" ++
        js "; filename=\"" ++ escapeHeader file.sentName ++ js "\"\r\ncontent-type: " ++
        cleanMimeType file.mimeType ++ js "\r\n\r\n") ++
      file.body ++
      encode (js "\r\n--" ++ boundary ++ js "--\r\n") }

end Multipart
end ObjyDb
