import ObjyDb.Js.JsonCharset

/-!
# LocalWal — the local write-ahead log file

The file is a sequence of bytes.  `append` writes one JSON text per record, each followed by a
newline; a crash leaves a byte prefix of the append in progress.  `readRecords` decodes the file,
splits it into lines as `readline` does, and tolerates a damaged last line only.
-/

namespace ObjyDb
namespace LocalWal

open Js

/-- A JSON value as the language has them: no object repeats a key. -/
abbrev JsonValue := {v : Json // v.WellFormed}

/-- The file; `none` before it is created. -/
abbrev WalFile := Option (List Byte)

/-! ## `append` -/

/-- `${JSON.stringify(record)}\n` -/
def recordLine (record : JsonValue) : JsString :=
  stringify record.val ++ [unit '\n']

def recordBytes (record : JsonValue) : List Byte :=
  encode (recordLine record)

/-- The bytes `append(records)` hands to the file, in order. -/
def appendBytes (records : List JsonValue) : List Byte :=
  records.flatMap recordBytes

def append (file : WalFile) (records : List JsonValue) : WalFile :=
  if records = [] then file else some (file.getD [] ++ appendBytes records)

/-! ## `readline` -/

def isLineFeed (c : CodeUnit) : Bool :=
  decide (c = unit '\n')

/-- U+2028 and U+2029. -/
def isUnicodeBreak (c : CodeUnit) : Bool :=
  decide (c.val = 0x2028) || decide (c.val = 0x2029)

/-- The lines of a text (`crlfDelay: Infinity`): `current` is the line being read and `afterCr`
says that the last break was a carriage return.  An empty last line is not emitted. -/
def readLines (current : JsString) (afterCr : Bool) : JsString → List JsString
  | [] => if current = [] then [] else [current]
  | c :: rest =>
      if afterCr && isLineFeed c then readLines current false rest
      else if c = unit '\r' then current :: readLines [] true rest
      else if isLineFeed c || isUnicodeBreak c then current :: readLines [] false rest
      else readLines (current ++ [c]) false rest

/-! ## `readRecords` -/

inductive ReadError
  /-- The error of `JSON.parse`. -/
  | syntaxError
  /-- `failed to parse local WAL record at line ${lineNo}: …` -/
  | failedToParse (lineNo : Nat)
  deriving DecidableEq

structure ReadResult where
  records : List Json
  skippedPartialRecords : Nat
  deriving DecidableEq

/-- `parseLine`: a blank line reads as `null`. -/
def parseLine (line : JsString) (lineNo : Nat) (allowPartial : Bool) : Except ReadError Json :=
  if trim line = [] then .ok .null
  else
    match parse line with
    | some v => .ok v
    | none => .error (if allowPartial then .syntaxError else .failedToParse lineNo)

/-- `pushRecord`: only a truthy record is pushed. -/
def pushRecord (records : List Json) (record : Json) : List Json :=
  if record.truthy then records ++ [record] else records

/-- The variables of the loop over the lines. -/
structure ReadState where
  records : List Json
  previousLine : Option JsString
  previousLineNo : Nat
  lineNo : Nat

/-- One round of the loop: the line before this one is parsed strictly. -/
def readLine (s : ReadState) (line : JsString) : Except ReadError ReadState := do
  let records ← match s.previousLine with
    | none => pure s.records
    | some previous => do
        let record ← parseLine previous s.previousLineNo false
        pure (pushRecord s.records record)
  pure ⟨records, some line, s.lineNo + 1, s.lineNo + 1⟩

def readLoop (s : ReadState) (lines : List JsString) : Except ReadError ReadState :=
  lines.foldlM readLine s

/-- `endsWithNewline`, true of the empty file. -/
def endsWithNewline (bytes : List Byte) : Bool :=
  match bytes.getLast? with
  | none => true
  | some b => decide (b.val = 10)

/-- The last line, which may be damaged when the file does not end in a newline. -/
def readLast (s : ReadState) (complete : Bool) : Except ReadError ReadResult :=
  match s.previousLine with
  | none => .ok ⟨s.records, 0⟩
  | some previous =>
      match parseLine previous s.previousLineNo (!complete) with
      | .ok record => .ok ⟨pushRecord s.records record, 0⟩
      | .error err => if complete then .error err else .ok ⟨s.records, 1⟩

def readRecords (file : WalFile) : Except ReadError ReadResult := do
  match file with
  | none => pure ⟨[], 0⟩
  | some bytes =>
      let s ← readLoop ⟨[], none, 0, 0⟩ (readLines [] false (Utf8.decode bytes))
      readLast s (endsWithNewline bytes)

/-! ## Runs -/

/-- What happens to the file between two restarts. -/
inductive Event
  /-- An append that completes. -/
  | append (records : List JsonValue)
  /-- A crash after `written` bytes of an append. -/
  | crash (records : List JsonValue) (written : Nat)

def Event.records : Event → List JsonValue
  | .append records => records
  | .crash records _ => records

/-- The bytes the event leaves in the file. -/
def Event.bytes : Event → List Byte
  | .append records => appendBytes records
  | .crash records written => (appendBytes records).take written

def step (file : WalFile) : Event → WalFile
  | .append records => append file records
  | .crash records written =>
      if records = [] then file else some (file.getD [] ++ (appendBytes records).take written)

def run (events : List Event) : WalFile :=
  events.foldl step none

/-- The records of a crashed append whose whole text is among its first `written` bytes. -/
def completeRecords : List JsonValue → Nat → List JsonValue
  | [], _ => []
  | record :: records, written =>
      if (encode (stringify record.val)).length ≤ written then
        record :: completeRecords records (written - (recordBytes record).length)
      else []

/-- Every record of every completed append, unchanged and in order, and between them at most
complete records of the crashed ones. -/
inductive Recovers : List Event → List Json → Prop
  | start : Recovers [] []
  | append {events : List Event} {result : List Json} (h : Recovers events result)
      (records : List JsonValue) :
      Recovers (events ++ [.append records]) (result ++ records.map Subtype.val)
  | crash {events : List Event} {result : List Json} (h : Recovers events result)
      (records : List JsonValue) (written : Nat) {extra : List Json}
      (hextra : extra.Sublist ((completeRecords records written).map Subtype.val)) :
      Recovers (events ++ [.crash records written]) (result ++ extra)

/-- `readRecords` returns, with every record it owes. -/
def ReadsBack (events : List Event) : Prop :=
  ∃ result, readRecords (run events) = .ok result ∧ Recovers events result.records

end LocalWal
end ObjyDb
