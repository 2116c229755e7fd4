import ObjyDb.Wal.Recovery

/-!
# CrashRuns — appends, crashes and restarts

An append writes after whatever the last crash left behind, the reader breaks lines at U+2028 and
U+2029 although `JSON.stringify` leaves these in strings, drops falsy records, and reads what is
left of a number as a number.  `SafeStep` excludes exactly these four situations.

* `readsBack_of_safeRun` — in a run of safe steps every `readRecords` returns what it owes;
* `not_readsBack_crash_append` — in general it does not: a crash inside a record, then an append.
-/

namespace ObjyDb
namespace LocalWal

open Js

/-! ## Safe steps -/

/-- The record that an append of `written` bytes is cut in, and how many of its bytes are left. -/
def cutRecord : List JsonValue → Nat → Option (JsonValue × Nat)
  | [], _ => none
  | record :: records, written =>
      if written < (recordBytes record).length then some (record, written)
      else cutRecord records (written - (recordBytes record).length)

/-- What is left of a cut number is not itself the text of a number other than zero. -/
def NumberCutHarmless (e : Event) : Prop :=
  match e with
  | .append _ => True
  | .crash records written =>
      ∀ record left, cutRecord records written = some (record, left) →
        record.val.isNumber = true → left < (encode (stringify record.val)).length →
          ∀ v, parse (Utf8.decode ((recordBytes record).take left)) = some v → v.truthy = false

structure SafeStep (file : WalFile) (e : Event) : Prop where
  /-- The event writes nothing, or starts on a line of its own. -/
  startsLine : e.bytes = [] ∨ endsWithNewline (file.getD []) = true
  /-- No U+2028 or U+2029 is written. -/
  noUnicodeBreak : ∀ c ∈ Utf8.decode e.bytes, isUnicodeBreak c = false
  /-- A completed append has no falsy record. -/
  truthy : ∀ records, e = .append records → ∀ record ∈ records, record.val.truthy = true
  numberCut : NumberCutHarmless e

/-- Every step of the run is safe in the file it finds. -/
def SafeRun (events : List Event) : Prop :=
  ∀ before e after, events = before ++ e :: after → SafeStep (run before) e

theorem SafeRun.of_append {before after : List Event} (h : SafeRun (before ++ after)) :
    SafeRun before := by
  intro pre e post hsplit
  exact h pre e (post ++ after) (by simp [hsplit])

theorem SafeRun.nil : SafeRun [] := by
  intro before e after h
  simp at h

theorem run_concat (events : List Event) (e : Event) :
    run (events ++ [e]) = step (run events) e := by
  simp [run, List.foldl_append]

theorem SafeRun.concat {events : List Event} (h : SafeRun events) {e : Event}
    (he : SafeStep (run events) e) : SafeRun (events ++ [e]) := by
  intro before e' after hsplit
  cases after using List.reverseRecOn with
  | nil =>
      obtain ⟨rfl, hsingle⟩ := List.append_inj' hsplit rfl
      obtain rfl := List.singleton_inj.mp hsingle
      exact he
  | append_singleton after last =>
      rw [← List.cons_append, ← List.append_assoc] at hsplit
      exact h before e' after (List.append_inj' hsplit rfl).1

/-! ## The bytes of one event -/

theorem recordBytes_ne_nil (record : JsonValue) : recordBytes record ≠ [] := by
  simp [recordBytes_eq]

theorem appendBytes_eq_nil {records : List JsonValue} (h : appendBytes records = []) :
    records = [] := by
  cases records with
  | nil => rfl
  | cons r records =>
      have hcons : appendBytes (r :: records) = recordBytes r ++ appendBytes records := rfl
      rw [hcons, List.append_eq_nil_iff] at h
      exact absurd h.1 (recordBytes_ne_nil r)

theorem getD_step (file : WalFile) (e : Event) : (step file e).getD [] = file.getD [] ++ e.bytes := by
  cases e with
  | append records =>
      simp only [step, append, Event.bytes]
      split_ifs with h
      · simp [h, appendBytes]
      · rfl
  | crash records written =>
      simp only [step, Event.bytes]
      split_ifs with h
      · simp [h, appendBytes]
      · rfl

/-- An interrupted append leaves some complete lines and, possibly, part of one more record. -/
theorem take_appendBytes (records : List JsonValue) (written : Nat) :
    ∃ full cut, (appendBytes records).take written = appendBytes full ++ cut ∧
      (completeRecords records written = full ∧ cut = [] ∨
        ∃ record left, cutRecord records written = some (record, left) ∧
          cut = (encode (stringify record.val)).take left ∧
          left ≤ (encode (stringify record.val)).length ∧
          completeRecords records written = full ++
            if left = (encode (stringify record.val)).length then [record] else []) := by
  induction records generalizing written with
  | nil => exact ⟨[], [], by simp [appendBytes], Or.inl ⟨rfl, rfl⟩⟩
  | cons r records ih =>
      have hcons : appendBytes (r :: records) = recordBytes r ++ appendBytes records := rfl
      have hlen : (recordBytes r).length = (encode (stringify r.val)).length + 1 := by
        rw [recordBytes_eq, List.length_append, List.length_singleton]
      by_cases hcut : written < (recordBytes r).length
      · -- the cut falls into this record
        refine ⟨[], (encode (stringify r.val)).take written, ?_, Or.inr
          ⟨r, written, by rw [cutRecord, if_pos hcut], rfl, by omega, ?_⟩⟩
        · rw [hcons, List.take_append_of_le_length hcut.le, recordBytes_eq,
            List.take_append_of_le_length (by omega)]
          rfl
        · by_cases hfull : written = (encode (stringify r.val)).length
          · have hrest : completeRecords records (written - (recordBytes r).length) = [] := by
              cases records with
              | nil => rfl
              | cons s records =>
                  obtain ⟨c, rest, htext, -⟩ := stringify_head s.val
                  have hpos : 0 < (encode (stringify s.val)).length :=
                    List.length_pos_iff.mpr (encode_ne_nil (by simp [htext]))
                  rw [completeRecords, if_neg (by omega)]
            rw [completeRecords, if_pos (by omega), if_pos hfull, hrest]
            rfl
          · rw [completeRecords, if_neg (by omega), if_neg hfull]
            rfl
      · obtain ⟨full, cut, htake, hrest⟩ := ih (written - (recordBytes r).length)
        refine ⟨r :: full, cut, ?_, ?_⟩
        · rw [hcons, List.take_append, List.take_of_length_le (not_lt.mp hcut), htake,
            ← List.append_assoc]
          rfl
        · rw [completeRecords, if_pos (by omega), cutRecord, if_neg hcut]
          rcases hrest with ⟨hfull, hnil⟩ | ⟨record, left, hrecord, hbytes, hle, hfull⟩
          · exact Or.inl ⟨by rw [hfull], hnil⟩
          · exact Or.inr ⟨record, left, hrecord, hbytes, hle, by rw [hfull]; rfl⟩

/-! ## What a cut record reads as -/

theorem decode_take_stringify (record : JsonValue) (left : Nat) :
    ∀ c ∈ Utf8.decode ((encode (stringify record.val)).take left),
      c ∈ stringify record.val ∨ c = replacementUnit := by
  have hwf := (printable_stringify record.val).wellFormed
  by_cases hleft : left < (encode (stringify record.val)).length
  · obtain ⟨before, c, rest, htext, hdecode | ⟨-, hdecode⟩⟩ := Utf8.decode_take_encode hwf hleft
    · intro d hd
      rw [hdecode] at hd
      exact Or.inl (by rw [htext]; exact List.mem_append_left _ hd)
    · intro d hd
      rw [hdecode] at hd
      rcases List.mem_append.mp hd with hd | hd
      · exact Or.inl (by rw [htext]; exact List.mem_append_left _ hd)
      · exact Or.inr (List.mem_singleton.mp hd)
  · intro d hd
    rw [List.take_of_length_le (not_lt.mp hleft), Utf8.decode_encode hwf] at hd
    exact Or.inl hd

theorem cutText_take (record : JsonValue) (left : Nat)
    (hbreak : ∀ c ∈ Utf8.decode ((encode (stringify record.val)).take left),
      isUnicodeBreak c = false) :
    CutText ((encode (stringify record.val)).take left) where
  noNewline := by
    intro b hb hval
    obtain ⟨u, hu, huval⟩ := mem_of_mem_encode (List.mem_of_mem_take hb) (by omega)
    have hvisible := (printable_stringify record.val).visible u hu
    omega
  noBreak := by
    intro c hc
    have hunicode := hbreak c hc
    rcases decode_take_stringify record left c hc with hmem | rfl
    · have hvisible := (printable_stringify record.val).visible c hmem
      have hcr : c ≠ unit '\r' := by
        rintro rfl
        exact absurd hvisible (by decide)
      have hlf : c ≠ unit '\n' := by
        rintro rfl
        exact absurd hvisible (by decide)
      simp [isBreak, isLineFeed, hcr, hlf, hunicode]
    · rfl

theorem pushed_of_parse_none {line : JsString} (h : parse line = none) : pushed line = [] := by
  unfold pushed parseLine
  by_cases hblank : trim line = []
  · simp [hblank, Json.truthy]
  · simp [hblank, h]

theorem pushed_of_falsy {line : JsString} (h : ∀ v, parse line = some v → v.truthy = false) :
    pushed line = [] := by
  cases hparse : parse line with
  | none => exact pushed_of_parse_none hparse
  | some v =>
      unfold pushed parseLine
      by_cases hblank : trim line = []
      · simp [hblank, Json.truthy]
      · simp [hblank, hparse, h v hparse]

/-- A record cut inside its text reads as nothing, unless it is a number. -/
theorem pushed_take {record : JsonValue} (hnum : record.val.isNumber = false) {left : Nat}
    (hleft : left < (encode (stringify record.val)).length) :
    pushed (Utf8.decode ((encode (stringify record.val)).take left)) = [] := by
  obtain ⟨before, c, rest, htext, hdecode | ⟨hc, hdecode⟩⟩ :=
    Utf8.decode_take_encode (printable_stringify record.val).wellFormed hleft
  · rw [hdecode]
    exact pushed_of_parse_none (parse_none_of_cut hnum htext)
  · rw [hdecode]
    exact pushed_of_parse_none (parse_concat_replacement htext hc (by decide))

/-! ## The invariant of safe runs -/

/-- Complete lines and a cut text, which read as a result that recovers the events. -/
def Intact (file : WalFile) (events : List Event) : Prop :=
  ∃ records cut, file.getD [] = appendBytes records ++ cut ∧ (∀ r ∈ records, OneLine r) ∧
    CutText cut ∧ Recovers events (truthyValues records ++ pushed (Utf8.decode cut))

theorem cutText_nil : CutText [] := ⟨by simp, by simp [Utf8.decode, Utf8.finish]⟩

theorem pushed_nil : pushed (Utf8.decode []) = [] := rfl

theorem intact_start : Intact (run []) [] :=
  ⟨[], [], rfl, by simp, cutText_nil, Recovers.start⟩

theorem Intact.readsBack {events : List Event} (h : Intact (run events) events) :
    ReadsBack events := by
  obtain ⟨records, cut, hfile, hlines, hcut, hrecovers⟩ := h
  obtain ⟨skipped, hread⟩ := readRecords_shape hlines hcut
  cases hrun : run events with
  | none =>
      rw [hrun] at hfile
      obtain ⟨hnil, rfl⟩ := List.append_eq_nil_iff.mp hfile.symm
      obtain rfl := appendBytes_eq_nil hnil
      exact ⟨⟨[], 0⟩, by rw [hrun]; rfl, hrecovers⟩
  | some bytes =>
      rw [hrun] at hfile
      obtain rfl : bytes = appendBytes records ++ cut := hfile
      exact ⟨_, by rw [hrun]; exact hread, hrecovers⟩

theorem truthyValues_append (left right : List JsonValue) :
    truthyValues (left ++ right) = truthyValues left ++ truthyValues right := by
  simp [truthyValues]

theorem truthyValues_of_all {records : List JsonValue}
    (h : ∀ r ∈ records, r.val.truthy = true) : truthyValues records = records.map Subtype.val := by
  refine List.filter_eq_self.mpr ?_
  intro v hv
  obtain ⟨r, hr, rfl⟩ := List.mem_map.mp hv
  exact h r hr

theorem truthyValues_sublist (records : List JsonValue) :
    (truthyValues records).Sublist (records.map Subtype.val) :=
  List.filter_sublist

theorem oneLine_of_decode {records : List JsonValue} {cut : List Byte}
    (h : ∀ c ∈ Utf8.decode (appendBytes records ++ cut), isUnicodeBreak c = false) :
    (∀ r ∈ records, OneLine r) ∧ ∀ c ∈ Utf8.decode cut, isUnicodeBreak c = false := by
  rw [decode_appendBytes] at h
  refine ⟨fun r hr c hc => h c (List.mem_append_left _ ?_), fun c hc =>
    h c (List.mem_append_right _ hc)⟩
  exact List.mem_flatMap.mpr ⟨r, hr, List.mem_append_left _ hc⟩

/-- A file that the next event may write to ends after complete lines. -/
theorem Intact.atLine {file : WalFile} {events : List Event} (h : Intact file events)
    (hend : endsWithNewline (file.getD []) = true) :
    ∃ records, file.getD [] = appendBytes records ∧ (∀ r ∈ records, OneLine r) ∧
      Recovers events (truthyValues records) := by
  obtain ⟨records, cut, hfile, hlines, hcut, hrecovers⟩ := h
  by_cases hne : cut = []
  · subst hne
    exact ⟨records, by simpa using hfile, hlines, by simpa [pushed_nil] using hrecovers⟩
  · rw [hfile, endsWithNewline_cut hcut hne] at hend
    cases hend

/-- An event that writes nothing leaves the file as it is. -/
theorem Intact.silent {file : WalFile} {events : List Event} (h : Intact file events) {e : Event}
    (he : e.bytes = []) : Intact (step file e) (events ++ [e]) := by
  obtain ⟨records, cut, hfile, hlines, hcut, hrecovers⟩ := h
  refine ⟨records, cut, by rw [getD_step, he, List.append_nil, hfile], hlines, hcut, ?_⟩
  cases e with
  | append added =>
      obtain rfl := appendBytes_eq_nil he
      simpa using hrecovers.append []
  | crash added written => simpa using hrecovers.crash added written (List.nil_sublist _)

theorem Intact.append {file : WalFile} {events : List Event} (h : Intact file events)
    {added : List JsonValue} (hsafe : SafeStep file (.append added)) :
    Intact (step file (.append added)) (events ++ [.append added]) := by
  rcases hsafe.startsLine with hsilent | hend
  · exact h.silent hsilent
  · obtain ⟨records, hfile, hlines, hrecovers⟩ := h.atLine hend
    have hbreak : ∀ c ∈ Utf8.decode (appendBytes added ++ []), isUnicodeBreak c = false := by
      simpa [Event.bytes] using hsafe.noUnicodeBreak
    have hadded := oneLine_of_decode hbreak
    refine ⟨records ++ added, [], ?_, ?_, cutText_nil, ?_⟩
    · rw [getD_step, hfile]
      simp [Event.bytes, appendBytes]
    · intro r hr
      rcases List.mem_append.mp hr with hr | hr
      · exact hlines r hr
      · exact hadded.1 r hr
    · rw [pushed_nil, List.append_nil, truthyValues_append,
        truthyValues_of_all (hsafe.truthy added rfl)]
      exact hrecovers.append added

/-- What the cut record reads as is that record, if its whole text is left, and nothing otherwise. -/
theorem pushed_cut {records : List JsonValue} {written : Nat}
    (hharmless : NumberCutHarmless (.crash records written)) {record : JsonValue} {left : Nat}
    (hrecord : cutRecord records written = some (record, left))
    (hle : left ≤ (encode (stringify record.val)).length) :
    (pushed (Utf8.decode ((encode (stringify record.val)).take left))).Sublist
      ((if left = (encode (stringify record.val)).length then [record] else []).map
        Subtype.val) := by
  by_cases hfull : left = (encode (stringify record.val)).length
  · rw [if_pos hfull, hfull, List.take_length,
      Utf8.decode_encode (printable_stringify record.val).wellFormed, pushed_stringify]
    exact truthyValues_sublist [record]
  · have hlt : left < (encode (stringify record.val)).length := by omega
    have hpushed : pushed (Utf8.decode ((encode (stringify record.val)).take left)) = [] := by
      cases hnum : record.val.isNumber with
      | false => exact pushed_take hnum hlt
      | true =>
          have hcut := hharmless record left hrecord hnum hlt
          rw [recordBytes_eq, List.take_append_of_le_length hle] at hcut
          exact pushed_of_falsy hcut
    rw [hpushed]
    exact List.nil_sublist _

theorem Intact.crash {file : WalFile} {events : List Event} (h : Intact file events)
    {added : List JsonValue} {written : Nat} (hsafe : SafeStep file (.crash added written)) :
    Intact (step file (.crash added written)) (events ++ [.crash added written]) := by
  rcases hsafe.startsLine with hsilent | hend
  · exact h.silent hsilent
  · obtain ⟨records, hfile, hlines, hrecovers⟩ := h.atLine hend
    obtain ⟨full, cut, htake, hcases⟩ := take_appendBytes added written
    have hbreak := hsafe.noUnicodeBreak
    simp only [Event.bytes, htake] at hbreak
    obtain ⟨hfull, hcutBreak⟩ := oneLine_of_decode hbreak
    have hall : ∀ r ∈ records ++ full, OneLine r := by
      intro r hr
      rcases List.mem_append.mp hr with hr | hr
      · exact hlines r hr
      · exact hfull r hr
    have hbytes : (step file (.crash added written)).getD [] =
        appendBytes (records ++ full) ++ cut := by
      rw [getD_step, hfile, Event.bytes, htake]
      simp [appendBytes]
    rcases hcases with ⟨hcomplete, rfl⟩ | ⟨record, left, hrecord, rfl, hle, hcomplete⟩
    · refine ⟨records ++ full, [], hbytes, hall, cutText_nil, ?_⟩
      rw [pushed_nil, List.append_nil, truthyValues_append]
      exact hrecovers.crash added written (by rw [hcomplete]; exact truthyValues_sublist full)
    · refine ⟨records ++ full, _, hbytes, hall, cutText_take record left hcutBreak, ?_⟩
      rw [truthyValues_append, List.append_assoc]
      refine hrecovers.crash added written ?_
      rw [hcomplete, List.map_append]
      exact (truthyValues_sublist full).append (pushed_cut hsafe.numberCut hrecord hle)

theorem Intact.step {file : WalFile} {events : List Event} (h : Intact file events) {e : Event}
    (hsafe : SafeStep file e) : Intact (step file e) (events ++ [e]) := by
  cases e with
  | append added => exact h.append hsafe
  | crash added written => exact h.crash hsafe

theorem intact_of_safeRun {events : List Event} (h : SafeRun events) :
    Intact (run events) events := by
  induction events using List.reverseRecOn with
  | nil => exact intact_start
  | append_singleton events e ih =>
      rw [run_concat]
      exact (ih h.of_append).step (h events e [] rfl)

/-! ## `readRecords` after any run -/

/-- In a run whose steps are all safe, `readRecords` returns after every one of them, with every
record of every completed append. -/
theorem readsBack_of_safeRun (events : List Event) (h : SafeRun events) :
    ∀ before after, events = before ++ after → ReadsBack before := by
  rintro before after rfl
  exact (intact_of_safeRun h.of_append).readsBack

/-- The record `{[key]: 1}`. -/
def flagRecord (key : JsString) : JsonValue :=
  ⟨.obj [(key, .num (JsNumber.ofNat 1))],
    Json.wellFormed_obj_iff.mpr ⟨by simp [Assoc.keys], by simp [Json.WellFormed, Json.wellFormed]⟩⟩

theorem readsBack_of_safeRun_torn :
    ReadsBack [.append [flagRecord (js "a")], .crash [flagRecord (js "b")] 3] := by
  have happend : SafeStep (run []) (.append [flagRecord (js "a")]) :=
    { startsLine := Or.inr (by decide)
      noUnicodeBreak := by
        have hall : (Utf8.decode (Event.append [flagRecord (js "a")]).bytes).all
            (fun c => !isUnicodeBreak c) = true := by decide +kernel
        simpa using hall
      truthy := by
        rintro records ⟨⟩ record hrecord
        obtain rfl := List.mem_singleton.mp hrecord
        rfl
      numberCut := trivial }
  have hcrash : SafeStep (run [.append [flagRecord (js "a")]])
      (.crash [flagRecord (js "b")] 3) :=
    { startsLine := Or.inr (by decide +kernel)
      noUnicodeBreak := by
        have hall : (Utf8.decode (Event.crash [flagRecord (js "b")] 3).bytes).all
            (fun c => !isUnicodeBreak c) = true := by decide +kernel
        simpa using hall
      truthy := by rintro records ⟨⟩
      numberCut := by
        intro record left hcut hnum
        have hrecord : record = flagRecord (js "b") := by
          simp only [cutRecord] at hcut
          split_ifs at hcut
          exact (Prod.mk.inj (Option.some.inj hcut)).1.symm
        rw [hrecord] at hnum
        cases hnum }
  exact readsBack_of_safeRun _ ((SafeRun.nil.concat happend).concat hcrash) _ [] rfl

/-- A crash inside a record, then an append: the restart after it cannot read the log. -/
theorem not_readsBack_crash_append :
    ¬ ReadsBack [.crash [flagRecord (js "a")] 3, .append [flagRecord (js "b")]] := by
  rintro ⟨result, hread, -⟩
  have herror : readRecords (run [.crash [flagRecord (js "a")] 3,
      .append [flagRecord (js "b")]]) = .error (.failedToParse 1) := by
    decide +kernel
  rw [herror] at hread
  cases hread

end LocalWal
end ObjyDb
