import ObjyDb.Lines.Ndjson
import ObjyDb.Lines.Garbled

/-!
# Jsonl — rows written to segments and read back

`chunkJsonlIterable` cuts the rows into segments of about `maxBytes` bytes, one JSON text a line.
A segment is read back as one string (`get`) or as a stream of chunks (`getStream`), and each chunk
of bytes is decoded on its own.

* `readText_body` — the text of a segment reads as its rows;
* `parseJsonlStream_eq` — reading pieces of a text is reading the text, wherever it is cut;
* `readSegments_rows` — cut between characters only, the segments read as the rows.
-/

namespace ObjyDb
namespace Jsonl

open Js

/-! ## Writing -/

/-- A JSON value as the language has them: no object repeats a key. -/
abbrev Row := {v : Json // v.WellFormed}

/-- `stringifyJson(value, label)` -/
def rowText (row : Row) : JsString :=
  stringify row.val

/-- `current.join("\n")` and a newline, or nothing for no rows. -/
def linesBody (rows : List Row) : JsString :=
  if rows = [] then [] else join newline (rows.map rowText) ++ [newline]

/-- What `chunkJsonlIterable` yields. -/
structure Segment where
  body : JsString
  count : Nat
  bytes : Nat

def makeChunk (current : List Row) (bytes : Nat) : Segment :=
  ⟨linesBody current, current.length, bytes⟩

/-- The loop of `chunkJsonlIterable`: `current` is the segment being filled. -/
def chunkLoop (maxBytes : Nat) (current : List Row) (bytes : Nat) : List Row → List Segment
  | [] => if current ≠ [] then [makeChunk current bytes] else [⟨[], 0, 0⟩]
  | row :: rows =>
      let rowBytes := byteLength (rowText row)
      if current ≠ [] ∧ maxBytes < bytes + rowBytes + 1 then
        makeChunk current bytes :: chunkLoop maxBytes [row] (rowBytes + 1) rows
      else chunkLoop maxBytes (current ++ [row]) (bytes + rowBytes + 1) rows

def chunkJsonlIterable (maxBytes : Nat) (rows : List Row) : List Segment :=
  chunkLoop maxBytes [] 0 rows

/-- `jsonlBody(values, label)` -/
def jsonlBody (rows : List Row) : JsString :=
  linesBody rows

/-! ## Reading -/

/-- The error of `parseJsonLine`. -/
inductive JsonlError
  /-- `invalid JSONL in ${label} at line ${number}: …` -/
  | invalid (label : JsString) (number : Nat)
  deriving DecidableEq

/-- The rows yielded and the error thrown then, if any. -/
structure Reading where
  rows : List Json
  error : Option JsonlError
  deriving DecidableEq

/-- `line` counts the lines of the loop. -/
structure Reader where
  line : Nat
  rows : List Json
  deriving DecidableEq

def Reader.start : Reader := ⟨0, []⟩

/-- The body of both loops: `raw` is a part of `split(/\r?\n/)`. -/
def readLine (label : JsString) (r : Reader) (raw : JsString) : Except Reading Reader :=
  let line := r.line + 1
  let trimmed := trim raw
  if trimmed = [] then .ok ⟨line, r.rows⟩
  else
    match parse trimmed with
    | some value => .ok ⟨line, r.rows ++ [value]⟩
    | none => .error ⟨r.rows, some (.invalid label line)⟩

def readLines (label : JsString) (r : Reader) (raws : List JsString) : Except Reading Reader :=
  raws.foldlM (readLine label) r

/-- `text.split(/\r?\n/)` without its last part. -/
def endedParts (text : JsString) : List JsString :=
  (completeLines text).map Ndjson.stripTrailingCarriageReturn

/-- The lines yielded so far and `buffer`, the last part. -/
structure PieceReader where
  reader : Reader
  buffer : JsString

def readPiece (label : JsString) (s : PieceReader) (piece : JsString) :
    Except Reading PieceReader := do
  let text := s.buffer ++ piece
  let reader ← readLines label s.reader (endedParts text)
  return ⟨reader, openLine text⟩

def Reading.of : Except Reading Reader → Reading
  | .ok r => ⟨r.rows, none⟩
  | .error e => e

/-- `parseJsonlStream` of a stream whose chunks are these strings. -/
def parseJsonlPieces (label : JsString) (pieces : List JsString) : Reading :=
  Reading.of do
    let s ← pieces.foldlM (readPiece label) ⟨Reader.start, []⟩
    readLine label s.reader s.buffer

/-- `parseJsonlStream`: each chunk of bytes is decoded by `chunk.toString("utf8")`. -/
def parseJsonlStream (label : JsString) (chunks : List (List Byte)) : Reading :=
  parseJsonlPieces label (chunks.map Utf8.decode)

def parseJsonlText (label : JsString) (body : JsString) : Reading :=
  Reading.of (readLines label Reader.start (endedParts body ++ [openLine body]))

/-! ## Pieces of a text -/

section Pieces

variable (label : JsString)

theorem endedParts_append (left right : JsString) :
    endedParts (left ++ right) = endedParts left ++ endedParts (openLine left ++ right) := by
  rw [endedParts, completeLines_append, List.map_append]
  rfl

theorem readLines_append (r : Reader) (left right : List JsString) :
    readLines label r (left ++ right) =
      readLines label r left >>= fun r => readLines label r right :=
  List.foldlM_append

theorem readPieces_eq (pieces : List JsString) (s : PieceReader) (hbuffer : newline ∉ s.buffer) :
    (pieces.foldlM (readPiece label) s >>= fun s => readLine label s.reader s.buffer) =
      readLines label s.reader
        (endedParts (s.buffer ++ pieces.flatten) ++ [openLine (s.buffer ++ pieces.flatten)]) := by
  induction pieces generalizing s with
  | nil =>
      have hended : endedParts s.buffer = [] := by
        rw [endedParts, completeLines_of_notMem hbuffer]
        rfl
      rw [List.flatten_nil, List.append_nil, hended, openLine_of_notMem hbuffer, List.nil_append]
      simp [readLines]
  | cons piece pieces ih =>
      have hended := endedParts_append (s.buffer ++ piece) pieces.flatten
      have hopen := openLine_append (s.buffer ++ piece) pieces.flatten
      rw [List.flatten_cons, ← List.append_assoc, hended, hopen, List.append_assoc,
        readLines_append, List.foldlM_cons, readPiece]
      cases readLines label s.reader (endedParts (s.buffer ++ piece)) with
      | error e => rfl
      | ok r => exact ih ⟨r, openLine (s.buffer ++ piece)⟩ (newline_notMem_openLine _)

/-- Reading the pieces of a text is reading the text. -/
theorem parseJsonlPieces_eq (pieces : List JsString) :
    parseJsonlPieces label pieces = parseJsonlText label pieces.flatten := by
  rw [parseJsonlPieces, readPieces_eq label pieces ⟨Reader.start, []⟩ (by simp)]
  rfl

end Pieces

/-! ## Rows on lines -/

theorem trim_of_ends {text : JsString} (hfirst : ∀ u, text.head? = some u → isTrimSpace u = false)
    (hlast : ∀ u, text.getLast? = some u → isTrimSpace u = false) : trim text = text := by
  have hfront : text.dropWhile isTrimSpace = text := by
    cases text with
    | nil => rfl
    | cons u rest => rw [List.dropWhile_cons_of_neg (by simp [hfirst u rfl])]
  rw [trim, hfront]
  apply List.rdropWhile_eq_self_iff.mpr
  intro hne
  simp [hlast _ (List.getLast?_eq_some_getLast hne)]

theorem toText_visible (x : JsNumber) : ∀ u ∈ x.toText, isTrimSpace u = false := by
  intro u hu
  have hbounds := toText_units x u hu
  simp only [isTrimSpace, decide_eq_false_iff_not, List.mem_cons, List.not_mem_nil, or_false]
  omega

/-- A JSON text begins and ends with no white space. -/
theorem trim_stringify (v : Json) : trim (stringify v) = stringify v := by
  have hdelimited : ∀ (c : CodeUnit) (inner : JsString) (d : CodeUnit), isTrimSpace c = false →
      isTrimSpace d = false → trim (c :: inner ++ [d]) = c :: inner ++ [d] := by
    intro c inner d hc hd
    apply trim_of_ends
    · intro u hu
      cases hu
      exact hc
    · intro u hu
      rw [List.getLast?_concat] at hu
      cases hu
      exact hd
  cases v with
  | null => decide
  | bool b => cases b <;> decide
  | num x =>
      apply trim_of_ends
      · exact fun u hu => toText_visible x u (List.mem_of_mem_head? hu)
      · exact fun u hu => toText_visible x u (List.mem_of_getLast? hu)
  | str s => exact hdelimited _ _ _ rfl rfl
  | arr items => exact hdelimited _ _ _ rfl rfl
  | obj fields => exact hdelimited _ _ _ rfl rfl

theorem stringify_ne_nil (v : Json) : stringify v ≠ [] := by
  intro hnil
  have hparse := parse_stringify_settle v
  rw [hnil] at hparse
  cases hparse

theorem newline_notMem_stringify (v : Json) : newline ∉ stringify v := by
  intro hmem
  have hvisible := (printable_stringify v).visible newline hmem
  have hval : newline.val = 10 := rfl
  omega

theorem linesBody_cons (row : Row) (rows : List Row) :
    linesBody (row :: rows) = rowText row ++ newline :: linesBody rows := by
  cases rows with
  | nil => simp [linesBody, join]
  | cons row' rows => simp [linesBody, join]

/-- JSON texts, each on a line. -/
def textLines (values : List Json) : JsString :=
  values.flatMap fun v => stringify v ++ [newline]

theorem textLines_cons (v : Json) (values : List Json) :
    textLines (v :: values) = stringify v ++ newline :: textLines values := by
  simp [textLines]

theorem linesBody_eq (rows : List Row) : linesBody rows = textLines (rows.map Subtype.val) := by
  induction rows with
  | nil => rfl
  | cons row rows ih => rw [linesBody_cons, List.map_cons, textLines_cons, ih, rowText]

theorem endedParts_textLines (values : List Json) :
    endedParts (textLines values) = values.map stringify ∧ openLine (textLines values) = [] := by
  have hstrip : ∀ v : Json, Ndjson.stripTrailingCarriageReturn (stringify v) = stringify v := by
    intro v
    rw [Ndjson.stripTrailingCarriageReturn, if_neg]
    intro hlast
    have hvisible := (printable_stringify v).visible _ (List.mem_of_getLast? hlast)
    have hval : (unit '\r').val = 13 := rfl
    omega
  induction values with
  | nil => exact ⟨rfl, rfl⟩
  | cons v values ih =>
      have hsplit := split_append_sep (newline_notMem_stringify v) (textLines values)
      rw [textLines_cons]
      constructor
      · rw [endedParts, completeLines, hsplit, List.dropLast_cons_of_ne_nil (split_ne_nil _ _),
          List.map_cons, List.map_cons, hstrip, ← ih.1]
        rfl
      · simp only [openLine, hsplit, List.getLast_cons (split_ne_nil _ _)]
        exact ih.2

theorem readLines_texts (label : JsString) (values : List Json) (r : Reader) :
    readLines label r (values.map stringify) =
      .ok ⟨r.line + values.length, r.rows ++ values.map Json.settle⟩ := by
  induction values generalizing r with
  | nil => simp [readLines, pure, Except.pure]
  | cons v values ih =>
      have hline : readLine label r (stringify v) = .ok ⟨r.line + 1, r.rows ++ [v.settle]⟩ := by
        simp [readLine, trim_stringify, stringify_ne_nil v, parse_stringify_settle v]
      have hcons : readLines label r (stringify v :: values.map stringify) =
          readLine label r (stringify v) >>= fun r => readLines label r (values.map stringify) :=
        List.foldlM_cons
      rw [List.map_cons, hcons, hline]
      calc readLines label ⟨r.line + 1, r.rows ++ [v.settle]⟩ (values.map stringify)
          = .ok ⟨r.line + 1 + values.length, r.rows ++ [v.settle] ++ values.map Json.settle⟩ := ih _
        _ = .ok ⟨r.line + (v :: values).length, r.rows ++ (v :: values).map Json.settle⟩ := by
            simp [Nat.add_assoc, Nat.add_comm 1]

theorem parseJsonlText_textLines (label : JsString) (values : List Json) :
    parseJsonlText label (textLines values) = ⟨values.map Json.settle, none⟩ := by
  have hlines := endedParts_textLines values
  rw [parseJsonlText, hlines.1, hlines.2, readLines_append, readLines_texts]
  rfl

theorem settle_rows (rows : List Row) :
    (rows.map Subtype.val).map Json.settle = rows.map Subtype.val := by
  rw [List.map_map]
  exact List.map_congr_left fun row _ => Json.settle_of_wellFormed row.property

/-- The text of a segment reads as its rows. -/
theorem parseJsonlText_linesBody (label : JsString) (rows : List Row) :
    parseJsonlText label (linesBody rows) = ⟨rows.map Subtype.val, none⟩ := by
  rw [linesBody_eq, parseJsonlText_textLines, settle_rows]

/-! ## Segments -/

/-- The segments hold the rows in order. -/
theorem chunkLoop_rows (maxBytes : Nat) (rows current : List Row) (bytes : Nat) :
    ∃ groups : List (List Row), groups.flatten = current ++ rows ∧
      (chunkLoop maxBytes current bytes rows).map Segment.body = groups.map linesBody := by
  induction rows generalizing current bytes with
  | nil =>
      unfold chunkLoop
      split_ifs with h
      · exact ⟨[current], by simp, rfl⟩
      · exact ⟨[[]], by simp [not_not.mp h], rfl⟩
  | cons row rows ih =>
      unfold chunkLoop
      dsimp only
      split_ifs with h
      · rcases ih [row] (byteLength (rowText row) + 1) with ⟨groups, hflat, hbodies⟩
        refine ⟨current :: groups, by simp [hflat], ?_⟩
        rw [List.map_cons, hbodies]
        rfl
      · rcases ih (current ++ [row]) (bytes + byteLength (rowText row) + 1) with
          ⟨groups, hflat, hbodies⟩
        exact ⟨groups, by simp [hflat], hbodies⟩

/-- The outcome of reading one segment and then others. -/
def Reading.append (r r' : Reading) : Reading :=
  match r.error with
  | some _ => r
  | none => ⟨r.rows ++ r'.rows, r'.error⟩

/-- `jsonlObjectsFromStorage` of a storage without `getStream`, for each stored segment in order. -/
def readBodies (label : JsString) (bodies : List (List Byte)) : Reading :=
  bodies.foldr (fun body r => (parseJsonlText label (Utf8.decode body)).append r) ⟨[], none⟩

/-- `jsonlObjectsFromStorage` by `getStream`, for the stream of each stored segment in order. -/
def readStreams (label : JsString) (streams : List (List (List Byte))) : Reading :=
  streams.foldr (fun chunks r => (parseJsonlStream label chunks).append r) ⟨[], none⟩

theorem wellFormedText_linesBody (rows : List Row) : isWellFormedText (linesBody rows) = true := by
  induction rows with
  | nil => rfl
  | cons row rows ih =>
      rw [linesBody_cons]
      apply isWellFormedText_append (printable_stringify row.val).wellFormed
      exact isWellFormedText_append (isWellFormedText_singleton (u := newline) (by decide)) ih

/-- The segments of the rows read back in order. -/
structure ReadsBack (label : JsString) (rows : List Row) (bodies : List JsString)
    (streams : List (List (List Byte))) : Prop where
  byStream : readStreams label streams = ⟨rows.map Subtype.val, none⟩
  byGet : readBodies label (bodies.map encode) = ⟨rows.map Subtype.val, none⟩

theorem readBodies_groups (label : JsString) (groups : List (List Row)) :
    readBodies label ((groups.map linesBody).map encode) =
      ⟨groups.flatten.map Subtype.val, none⟩ := by
  induction groups with
  | nil => rfl
  | cons rows groups ih =>
      have hdecode : Utf8.decode (encode (linesBody rows)) = linesBody rows :=
        Utf8.decode_encode (wellFormedText_linesBody rows)
      have hcons : readBodies label (((rows :: groups).map linesBody).map encode) =
          (parseJsonlText label (Utf8.decode (encode (linesBody rows)))).append
            (readBodies label ((groups.map linesBody).map encode)) := rfl
      rw [hcons, hdecode, parseJsonlText_linesBody, ih]
      simp [Reading.append]

/-! ## The stream of a segment -/

/-- Garbled lines of JSON texts are lines of JSON texts. -/
theorem garbled_linesBody (rows : List Row) {n : Nat} {text' : JsString}
    (h : Garbled n (linesBody rows) text') :
    ∃ values : List Json, text' = textLines values ∧
      List.Forall₂ (fun (row : Row) v => ∃ m, Garbled m (rowText row) (stringify v)) rows values := by
  induction rows generalizing n text' with
  | nil => exact ⟨[], (h.of_ascii (by simp [linesBody])).2, .nil⟩
  | cons row rows ih =>
      rw [linesBody_cons] at h
      rcases Garbled.append_inv (printable_stringify row.val).wellFormed h with
        ⟨m, l, line, tail, rfl, -, hline, htail⟩
      rcases Garbled.singleton_inv (by decide) htail with ⟨rest, rfl, hrest⟩
      rcases garbled_stringify row.val hline with ⟨v, rfl, -⟩
      rcases ih hrest with ⟨values, rfl, hall⟩
      exact ⟨v :: values, (textLines_cons v values).symm, .cons ⟨m, hline⟩ hall⟩

/-- Garbled lines that read as the rows are the lines of the rows. -/
theorem textLines_of_settle {rows : List Row} {values : List Json}
    (hall : List.Forall₂
      (fun (row : Row) v => ∃ m, Garbled m (rowText row) (stringify v)) rows values)
    (heq : values.map Json.settle = rows.map Subtype.val) : textLines values = linesBody rows := by
  induction hall with
  | nil => rfl
  | @cons row v rows values hline _ ih =>
      rcases hline with ⟨m, hline⟩
      rw [List.map_cons, List.map_cons] at heq
      rcases List.cons.inj heq with ⟨hv, hrest⟩
      have hparse : parse (stringify v) = some row.val := by
        rw [parse_stringify_settle, hv]
      have htext : stringify v = rowText row := parse_garbled hline hparse
      rw [textLines_cons, linesBody_cons, htext, ih hrest]

/-- Every division of the bytes of a segment reads as that many values; they are the rows exactly
when no character is cut. -/
theorem parseJsonlStream_linesBody (label : JsString) {rows : List Row} {chunks : List (List Byte)}
    (hchunks : chunks.flatten = encode (linesBody rows)) :
    ∃ values : List Json, parseJsonlStream label chunks = ⟨values, none⟩ ∧
      values.length = rows.length ∧
        (values = rows.map Subtype.val ↔ cutsBetweenCharacters chunks = true) := by
  have hwf := wellFormedText_linesBody rows
  have hread : parseJsonlStream label chunks = parseJsonlText label (decodeEach chunks) := by
    rw [parseJsonlStream, parseJsonlPieces_eq]
    rfl
  rcases garbled_decodeEach hwf hchunks with ⟨n, hgarbled, hcuts⟩
  rcases garbled_linesBody rows hgarbled with ⟨values, htext, hall⟩
  refine ⟨values.map Json.settle, ?_, ?_, ?_⟩
  · rw [hread, htext, parseJsonlText_textLines]
  · rw [List.length_map, hall.length_eq]
  · constructor
    · intro heq
      have hsame := textLines_of_settle hall heq
      apply hcuts
      have hcount := hgarbled.count_le
      rw [htext, hsame] at hcount
      omega
    · intro hcut
      have hdecode := (decodeEach_of_cuts hcut).1
      have hbytes := Utf8.run_encode hwf []
      rw [hchunks, hbytes, htext] at hdecode
      have hboth : parseJsonlText label (textLines values) =
          parseJsonlText label (linesBody rows) := congrArg _ hdecode
      rw [parseJsonlText_textLines, parseJsonlText_linesBody] at hboth
      exact (Reading.mk.inj hboth).1

/-! ## All segments -/

theorem readStreams_groups (label : JsString) (groups : List (List Row))
    {streams : List (List (List Byte))}
    (h : streams.map List.flatten = (groups.map linesBody).map encode) :
    ∃ values : List Json, readStreams label streams = ⟨values, none⟩ ∧
      values.length = groups.flatten.length ∧
        (values = groups.flatten.map Subtype.val ↔
          ∀ chunks ∈ streams, cutsBetweenCharacters chunks = true) := by
  induction groups generalizing streams with
  | nil =>
      obtain rfl : streams = [] := List.map_eq_nil_iff.mp h
      exact ⟨[], rfl, rfl, by simp⟩
  | cons rows groups ih =>
      cases streams with
      | nil => cases h
      | cons chunks streams =>
          rcases List.cons.inj h with ⟨hchunks, hstreams⟩
          rcases parseJsonlStream_linesBody label hchunks with ⟨values, hread, hlength, hiff⟩
          rcases ih hstreams with ⟨values', hread', hlength', hiff'⟩
          have hcons : readStreams label (chunks :: streams) =
              (parseJsonlStream label chunks).append (readStreams label streams) := rfl
          refine ⟨values ++ values', ?_, ?_, ?_⟩
          · rw [hcons, hread, hread']
            rfl
          · rw [List.flatten_cons, List.length_append, List.length_append, hlength, hlength']
          · rw [List.flatten_cons, List.map_append, List.forall_mem_cons, ← hiff, ← hiff']
            constructor
            · intro heq
              exact List.append_inj heq (by rw [List.length_map, hlength])
            · rintro ⟨rfl, rfl⟩
              rfl

theorem bodies_groups {rows : List Row} {maxBytes : Nat} {bodies : List JsString}
    (h : bodies = (chunkJsonlIterable maxBytes rows).map Segment.body ∨ bodies = [jsonlBody rows]) :
    ∃ groups : List (List Row), groups.flatten = rows ∧ bodies = groups.map linesBody := by
  rcases h with rfl | rfl
  · rcases chunkLoop_rows maxBytes rows [] 0 with ⟨groups, hflat, hbodies⟩
    exact ⟨groups, hflat, hbodies⟩
  · exact ⟨[rows], by simp, rfl⟩

/-- The rows written to segments by `chunkJsonlIterable`, or to one by `jsonlBody`, are read back by
`get`, and by `getStream` exactly when no chunk of a stream ends inside a character. -/
theorem readsBack_iff (label : JsString) (rows : List Row) (maxBytes : Nat)
    (bodies : List JsString) (streams : List (List (List Byte)))
    (hbodies : bodies = (chunkJsonlIterable maxBytes rows).map Segment.body ∨
      bodies = [jsonlBody rows])
    (hstreams : streams.map List.flatten = bodies.map encode) :
    ReadsBack label rows bodies streams ↔
      ∀ chunks ∈ streams, cutsBetweenCharacters chunks = true := by
  rcases bodies_groups hbodies with ⟨groups, rfl, rfl⟩
  rcases readStreams_groups label groups hstreams with ⟨values, hread, -, hiff⟩
  rw [← hiff]
  constructor
  · intro hback
    have hvalues := hback.byStream
    rw [hread] at hvalues
    exact (Reading.mk.inj hvalues).1
  · intro hvalues
    exact ⟨by rw [hread, hvalues], readBodies_groups label groups⟩

/-- The row `"é"`, as the bytes of a segment. -/
def accentedRow : Row := ⟨.str [0xe9], by decide⟩

theorem readsBack_accented : ReadsBack (js "snapshot") [accentedRow] [jsonlBody [accentedRow]]
    [[[0x22, 0xc3, 0xa9, 0x22], [0x0a]]] :=
  (readsBack_iff (js "snapshot") [accentedRow] 1000 _ _ (Or.inr rfl) (by decide)).mpr (by decide)

/-- Cut inside its `é`, the row is read as another string. -/
theorem accentedRow_garbled :
    ¬ ∀ (rows : List Row) (streams : List (List (List Byte))),
      streams.map List.flatten = [encode (jsonlBody rows)] →
        ReadsBack (js "snapshot") rows [jsonlBody rows] streams := by
  intro h
  have hback := (h [accentedRow] [[[0x22, 0xc3], [0xa9, 0x22, 0x0a]]] (by decide)).byStream
  have hread : readStreams (js "snapshot") [[[0x22, 0xc3], [0xa9, 0x22, 0x0a]]] =
      ⟨[.str [0xfffd, 0xfffd]], none⟩ := by
    decide
  rw [hread] at hback
  have hrows := (Reading.mk.inj hback).1
  revert hrows
  decide

end Jsonl
end ObjyDb
