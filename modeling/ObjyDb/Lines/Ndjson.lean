import ObjyDb.Js.Lines
import ObjyDb.Js.JsonText
import ObjyDb.Js.JsonCharset
import ObjyDb.Lib.Fallible

/-!
# Ndjson — objects read from a stream of newline-delimited JSON

`parseNdjsonStream` reads a byte stream chunk by chunk: the decoder holds back an unfinished
character, the buffer holds the line that is not ended yet.  A generator is modelled by what it
yields and by the error it then throws, if any.

* `parseNdjsonBatches_groups` — the batches group the entries that are yielded, in order, within
  the two limits of a batch.
-/

namespace ObjyDb
namespace Ndjson

open Js

/-! ## Entries and errors -/

/-- What the generator yields for one line. -/
structure Entry where
  line : Nat
  bytes : Nat
  value : Json
  deriving DecidableEq

/-- The two calls of `ndjsonError`. -/
inductive NdjsonError
  | tooLarge (line bytes maxObjectBytes : Nat)
  | invalid (label : JsString) (line : Nat)
  deriving DecidableEq

namespace NdjsonError

def status : NdjsonError → Nat
  | tooLarge .. => 413
  | invalid .. => 400

def line : NdjsonError → Nat
  | tooLarge line _ _ => line
  | invalid _ line => line

def message : NdjsonError → JsString
  | tooLarge .. => js "object is too large"
  | invalid label line => js "invalid " ++ label ++ js " at line " ++ (JsNumber.ofNat line).toText

end NdjsonError

/-- A run of the generator: what it yields before it ends, and the error it ends with. -/
structure Run where
  entries : List Entry
  error : Option NdjsonError
  deriving DecidableEq

/-- The generator threw. -/
structure Failure where
  entries : List Entry
  error : NdjsonError
  deriving DecidableEq

/-! ## One line -/

/-- `bytes > maxBytes`, where `0` is no limit. -/
def exceeds (maxBytes bytes : Nat) : Bool :=
  decide (maxBytes ≠ 0) && decide (maxBytes < bytes)

def stripTrailingCarriageReturn (value : JsString) : JsString :=
  if value.getLast? = some (unit '\r') then value.dropLast else value

def parseNdjsonLine (maxObjectBytes : Nat) (label rawLine : JsString) (line : Nat) :
    Except NdjsonError Entry :=
  let bytes := byteLength rawLine
  if exceeds maxObjectBytes bytes then
    .error (.tooLarge line bytes maxObjectBytes)
  else
    match parse rawLine with
    | some value => .ok ⟨line, bytes, value⟩
    | none => .error (.invalid label line)

/-- The lines taken so far and what they yielded. -/
structure Progress where
  line : Nat
  entries : List Entry
  deriving DecidableEq

def Progress.start : Progress := ⟨0, []⟩

/-- The body of the loop over the lines: a blank line is counted and skipped. -/
def takeLine (maxBytes : Nat) (label : JsString) (p : Progress) (ended : JsString) :
    Except Failure Progress :=
  let rawLine := stripTrailingCarriageReturn ended
  let line := p.line + 1
  if trim rawLine = [] then .ok ⟨line, p.entries⟩
  else
    match parseNdjsonLine maxBytes label rawLine line with
    | .ok entry => .ok ⟨line, p.entries ++ [entry]⟩
    | .error err => .error ⟨p.entries, err⟩

def takeLines (maxBytes : Nat) (label : JsString) (p : Progress) (ended : List JsString) :
    Except Failure Progress :=
  ended.foldlM (takeLine maxBytes label) p

/-! ## The stream -/

/-- The variables of `parseNdjsonStream`. -/
structure StreamState where
  /-- What the decoder holds back. -/
  pending : Option Pending
  buffer : JsString
  progress : Progress
  deriving DecidableEq

def StreamState.start : StreamState := ⟨none, [], Progress.start⟩

/-- One chunk: its lines are taken, then the size of the unfinished line is checked. -/
def readChunk (maxBytes : Nat) (label : JsString) (s : StreamState) (chunk : List Byte) :
    Except Failure StreamState := do
  let written := Utf8.run ⟨[], s.pending⟩ chunk
  let text := s.buffer ++ written.out
  let progress ← takeLines maxBytes label s.progress (completeLines text)
  let buffer := openLine text
  if exceeds maxBytes (byteLength buffer) then
    throw ⟨progress.entries, .tooLarge (progress.line + 1) (byteLength buffer) maxBytes⟩
  else
    return ⟨written.pending, buffer, progress⟩

/-- After the last chunk: a line without newline. -/
def endStream (maxBytes : Nat) (label : JsString) (s : StreamState) : Except Failure Progress :=
  let buffer := s.buffer ++ Utf8.finish ⟨[], s.pending⟩
  if buffer = [] then .ok s.progress else takeLine maxBytes label s.progress buffer

def readChunks (maxBytes : Nat) (label : JsString) (s : StreamState) (chunks : List (List Byte)) :
    Except Failure Progress :=
  chunks.foldlM (readChunk maxBytes label) s >>= endStream maxBytes label

def Run.of : Except Failure Progress → Run
  | .ok p => ⟨p.entries, none⟩
  | .error f => ⟨f.entries, some f.error⟩

/-- `maxObjectBytes` and `label` are the options; each chunk is a sequence of bytes. -/
def parseNdjsonStream (maxObjectBytes : Nat) (label : JsString) (chunks : List (List Byte)) : Run :=
  Run.of (readChunks maxObjectBytes label StreamState.start chunks)

/-! ## Batches -/

structure BatchOptions where
  maxBatchObjects : Nat
  maxBatchBytes : Nat

/-- `Math.max(1, Number(maxBatchObjects) || 1000)` -/
def BatchOptions.maxObjects (o : BatchOptions) : Nat :=
  max 1 (if o.maxBatchObjects = 0 then 1000 else o.maxBatchObjects)

/-- `batch` and `bytes`, with the batches yielded before. -/
structure BatchState where
  yielded : List (List Entry)
  batch : List Entry
  bytes : Nat

def BatchState.flush (s : BatchState) : BatchState :=
  ⟨s.yielded ++ [s.batch], [], 0⟩

def pushEntry (o : BatchOptions) (s : BatchState) (entry : Entry) : BatchState :=
  let s := if s.batch ≠ [] ∧ o.maxBatchBytes ≠ 0 ∧ o.maxBatchBytes < s.bytes + entry.bytes then
    s.flush else s
  let s : BatchState := ⟨s.yielded, s.batch ++ [entry], s.bytes + entry.bytes⟩
  if o.maxObjects ≤ s.batch.length ∨ o.maxBatchBytes ≠ 0 ∧ o.maxBatchBytes ≤ s.bytes then
    s.flush
  else s

/-- The entries of the batches that are yielded; the batch begun last is lost with an error. -/
def groupEntries (o : BatchOptions) (r : Run) : List (List Entry) :=
  let s := r.entries.foldl (pushEntry o) ⟨[], [], 0⟩
  match r.error with
  | some _ => s.yielded
  | none => if s.batch ≠ [] then s.yielded ++ [s.batch] else s.yielded

/-- The values yielded, batch by batch, and the error. -/
def parseNdjsonBatches (o : BatchOptions) (maxObjectBytes : Nat) (label : JsString)
    (chunks : List (List Byte)) : List (List Json) × Option NdjsonError :=
  let r := parseNdjsonStream maxObjectBytes label chunks
  ((groupEntries o r).map (fun batch => batch.map Entry.value), r.error)

/-- A batch is not empty and within the limits, unless it is a single object. -/
structure WithinLimits (o : BatchOptions) (batch : List Entry) : Prop where
  ne_nil : batch ≠ []
  length_le : batch.length ≤ o.maxObjects
  bytes_le : o.maxBatchBytes = 0 ∨ (batch.map Entry.bytes).sum ≤ o.maxBatchBytes ∨
    batch.length = 1

theorem maxObjects_pos (o : BatchOptions) : 1 ≤ o.maxObjects :=
  le_max_left _ _

/-- What holds between two entries. -/
structure Grouping (o : BatchOptions) (done : List Entry) (s : BatchState) : Prop where
  covers : s.yielded.flatten ++ s.batch = done
  batches : ∀ batch ∈ s.yielded, WithinLimits o batch
  bytes_eq : s.bytes = (s.batch.map Entry.bytes).sum
  open_length : s.batch.length < o.maxObjects
  open_bytes : o.maxBatchBytes = 0 ∨ s.bytes < o.maxBatchBytes ∨ s.batch = []

theorem Grouping.withinLimits {o : BatchOptions} {done : List Entry} {s : BatchState}
    (h : Grouping o done s) (hne : s.batch ≠ []) : WithinLimits o s.batch where
  ne_nil := hne
  length_le := h.open_length.le
  bytes_le := by
    rcases h.open_bytes with hzero | hlt | hnil
    · exact Or.inl hzero
    · exact Or.inr (Or.inl (h.bytes_eq ▸ hlt.le))
    · exact absurd hnil hne

theorem Grouping.flush {o : BatchOptions} {done : List Entry} {s : BatchState}
    (hcovers : s.yielded.flatten ++ s.batch = done)
    (hbatches : ∀ batch ∈ s.yielded, WithinLimits o batch) (hlast : WithinLimits o s.batch) :
    Grouping o done s.flush where
  covers := by simpa [BatchState.flush] using hcovers
  batches := by
    intro batch hbatch
    rcases List.mem_append.mp hbatch with hbatch | hbatch
    · exact hbatches batch hbatch
    · rw [List.mem_singleton.mp hbatch]
      exact hlast
  bytes_eq := rfl
  open_length := maxObjects_pos o
  open_bytes := Or.inr (Or.inr rfl)

theorem Grouping.push {o : BatchOptions} {done : List Entry} {s : BatchState}
    (h : Grouping o done s) (entry : Entry) : Grouping o (done ++ [entry]) (pushEntry o s entry) := by
  -- the batch that the entry is pushed onto leaves room for it, or is empty
  obtain ⟨s', hs', hroom, hdef⟩ : ∃ s', Grouping o done s' ∧
      (s'.batch = [] ∨ o.maxBatchBytes = 0 ∨ s'.bytes + entry.bytes ≤ o.maxBatchBytes) ∧
      pushEntry o s entry =
        let s : BatchState := ⟨s'.yielded, s'.batch ++ [entry], s'.bytes + entry.bytes⟩
        if o.maxObjects ≤ s.batch.length ∨ o.maxBatchBytes ≠ 0 ∧ o.maxBatchBytes ≤ s.bytes then
          s.flush
        else s := by
    unfold pushEntry
    split
    · rename_i hfull
      exact ⟨s.flush, .flush h.covers h.batches (h.withinLimits hfull.1), Or.inl rfl, rfl⟩
    · rename_i hroom
      refine ⟨s, h, ?_, rfl⟩
      by_cases hnil : s.batch = []
      · exact Or.inl hnil
      · by_cases hzero : o.maxBatchBytes = 0
        · exact Or.inr (Or.inl hzero)
        · exact Or.inr (Or.inr (not_lt.mp fun hlt => hroom ⟨hnil, hzero, hlt⟩))
  rw [hdef]
  have hcovers : s'.yielded.flatten ++ (s'.batch ++ [entry]) = done ++ [entry] := by
    rw [← List.append_assoc, hs'.covers]
  have hbytes : s'.bytes + entry.bytes = ((s'.batch ++ [entry]).map Entry.bytes).sum := by
    simp [hs'.bytes_eq]
  have hlength : (s'.batch ++ [entry]).length ≤ o.maxObjects := by
    rw [List.length_append]
    exact hs'.open_length
  simp only
  split_ifs with hfull
  · refine .flush hcovers hs'.batches ⟨by simp, hlength, ?_⟩
    simp only [← hbytes]
    rcases hroom with hnil | hzero | hle
    · exact Or.inr (Or.inr (by simp [hnil]))
    · exact Or.inl hzero
    · exact Or.inr (Or.inl hle)
  · rw [not_or, not_and] at hfull
    refine ⟨hcovers, hs'.batches, hbytes, not_le.mp hfull.1, ?_⟩
    by_cases hzero : o.maxBatchBytes = 0
    · exact Or.inl hzero
    · exact Or.inr (Or.inl (not_le.mp (hfull.2 hzero)))

theorem Grouping.run {o : BatchOptions} {done : List Entry} {s : BatchState}
    (h : Grouping o done s) (entries : List Entry) :
    Grouping o (done ++ entries) (entries.foldl (pushEntry o) s) := by
  induction entries generalizing done s with
  | nil => simpa using h
  | cons entry entries ih =>
      have hnext := ih (h.push entry)
      rwa [List.append_assoc, List.singleton_append] at hnext

/-- The batches are groups of the entries in order, all of them when the stream ends normally. -/
theorem parseNdjsonBatches_groups (o : BatchOptions) (r : Run) :
    (∀ batch ∈ groupEntries o r, WithinLimits o batch) ∧
      (groupEntries o r).flatten <+: r.entries ∧
        (r.error = none → (groupEntries o r).flatten = r.entries) := by
  have hstart : Grouping o [] ⟨[], [], 0⟩ :=
    ⟨rfl, by simp, rfl, maxObjects_pos o, Or.inr (Or.inr rfl)⟩
  have hrun := hstart.run r.entries
  rw [List.nil_append] at hrun
  unfold groupEntries
  generalize r.entries.foldl (pushEntry o) ⟨[], [], 0⟩ = s at hrun
  cases herr : r.error with
  | some err => exact ⟨hrun.batches, ⟨s.batch, hrun.covers⟩, by simp⟩
  | none =>
      simp only
      split_ifs with hbatch
      · have hflat : (s.yielded ++ [s.batch]).flatten = r.entries := by
          simpa using hrun.covers
        refine ⟨?_, ⟨[], by rw [hflat, List.append_nil]⟩, fun _ => hflat⟩
        exact (Grouping.flush hrun.covers hrun.batches (hrun.withinLimits hbatch)).batches
      · have hflat : s.yielded.flatten = r.entries := by
          have hcovers := hrun.covers
          rwa [not_not.mp hbatch, List.append_nil] at hcovers
        exact ⟨hrun.batches, ⟨[], by rw [hflat, List.append_nil]⟩, fun _ => hflat⟩

end Ndjson
end ObjyDb
