import ObjyDb.Lines.Ndjson

/-!
# Divisions — the same stream cut into other chunks

The size limit is checked twice: on a line that is ended, without its carriage return and not at
all when it is blank, and on the unfinished line as it stands in the buffer.  A line is
`Hidden` when only the second check would refuse it.  Whether such a line is refused depends
on whether a chunk ends inside it.

* `readChunks_whole` — without a hidden line the chunks do not matter;
* `divisions_agree_iff` — the outcome is the same for all divisions of a stream exactly when no
  line is hidden, up to the first line that is refused.
-/

namespace ObjyDb
namespace Ndjson

open Js

/-! ## Outcomes -/

/-- Both end normally, or with the same status for the same line. -/
def SameEnding (e₁ e₂ : Option NdjsonError) : Prop :=
  e₁.map (fun e => (e.status, e.line)) = e₂.map (fun e => (e.status, e.line))

structure SameRun (r₁ r₂ : Run) : Prop where
  entries : r₁.entries = r₂.entries
  ending : SameEnding r₁.error r₂.error

theorem SameRun.rfl {r : Run} : SameRun r r := ⟨Eq.refl _, Eq.refl _⟩

theorem SameRun.symm {r₁ r₂ : Run} (h : SameRun r₁ r₂) : SameRun r₂ r₁ :=
  ⟨h.entries.symm, Eq.symm h.ending⟩

theorem SameRun.trans {r₁ r₂ r₃ : Run} (h : SameRun r₁ r₂) (h' : SameRun r₂ r₃) : SameRun r₁ r₃ :=
  ⟨h.entries.trans h'.entries, Eq.trans h.ending h'.ending⟩

/-- The batches depend on the entries and on whether the stream ends normally. -/
theorem SameRun.groupEntries_eq {r₁ r₂ : Run} (h : SameRun r₁ r₂) (o : BatchOptions) :
    groupEntries o r₁ = groupEntries o r₂ := by
  have hending := h.ending
  unfold SameEnding at hending
  unfold groupEntries
  rw [h.entries]
  cases h₁ : r₁.error <;> cases h₂ : r₂.error <;> simp_all

/-! ## Hidden lines -/

/-- An ended line that is over the limit as it stands, but is skipped or within the limit without
its carriage return. -/
def hidden (maxBytes : Nat) (ended : JsString) : Bool :=
  let rawLine := stripTrailingCarriageReturn ended
  exceeds maxBytes (byteLength ended) &&
    (decide (trim rawLine = []) || !exceeds maxBytes (byteLength rawLine))

/-- A line that is no JSON text, or over the limit without its carriage return. -/
def refused (maxBytes : Nat) (ended : JsString) : Bool :=
  let rawLine := stripTrailingCarriageReturn ended
  decide (trim rawLine ≠ []) &&
    (exceeds maxBytes (byteLength rawLine) || (parse rawLine).isNone)

/-- No line is hidden, up to the first one that is refused. -/
def noneHidden (maxBytes : Nat) : List JsString → Bool
  | [] => true
  | ended :: rest =>
      !hidden maxBytes ended && (refused maxBytes ended || noneHidden maxBytes rest)

/-- The ended lines of a byte stream. -/
def streamLines (bytes : List Byte) : List JsString :=
  completeLines (Utf8.run ⟨[], none⟩ bytes).out

section Options

variable {maxBytes : Nat} {label : JsString}

theorem takeLines_append (p : Progress) (left right : List JsString) :
    takeLines maxBytes label p (left ++ right) =
      takeLines maxBytes label p left >>= fun p => takeLines maxBytes label p right :=
  List.foldlM_append

/-- The code throws at a refused line. -/
theorem takeLine_ok_iff (label : JsString) (p : Progress) (ended : JsString) :
    (∃ p', takeLine maxBytes label p ended = .ok p') ↔ refused maxBytes ended = false := by
  unfold takeLine parseNdjsonLine refused
  simp only
  split_ifs with hblank hsize
  · simp [hblank]
  · simp [hblank, hsize]
  · cases hparse : parse (stripTrailingCarriageReturn ended) <;> simp [hblank, hsize]

theorem noneHidden_append {p p' : Progress} {left right : List JsString}
    (h : noneHidden maxBytes (left ++ right) = true)
    (hleft : takeLines maxBytes label p left = .ok p') : noneHidden maxBytes right = true := by
  induction left generalizing p with
  | nil => exact h
  | cons ended left ih =>
      rcases Fallible.bind_eq_ok.mp hleft with ⟨p₁, htake, hrest⟩
      have hrefused := (takeLine_ok_iff label p ended).mp ⟨p₁, htake⟩
      rw [List.cons_append, noneHidden, hrefused, Bool.false_or, Bool.and_eq_true] at h
      exact ih h.2 hrest

/-! ## Sizes -/

theorem exceeds_of_le {m n : Nat} (h : exceeds maxBytes m = true) (hle : m ≤ n) :
    exceeds maxBytes n = true := by
  simp only [exceeds, Bool.and_eq_true, decide_eq_true_eq] at h ⊢
  omega

theorem exceeds_zero : exceeds maxBytes (byteLength []) = false := by
  simp [exceeds, byteLength, encode]

/-- A line that is over the limit and not hidden is refused for its size. -/
theorem takeLine_of_exceeds (label : JsString) (p : Progress) {ended : JsString}
    (hexceeds : exceeds maxBytes (byteLength ended) = true)
    (hhidden : hidden maxBytes ended = false) :
    ∃ bytes, takeLine maxBytes label p ended =
      .error ⟨p.entries, .tooLarge (p.line + 1) bytes maxBytes⟩ := by
  simp only [hidden, hexceeds, Bool.true_and, Bool.or_eq_false_iff, decide_eq_false_iff_not,
    Bool.not_eq_false'] at hhidden
  exact ⟨byteLength (stripTrailingCarriageReturn ended), by
    simp [takeLine, parseNdjsonLine, hhidden.1, hhidden.2]⟩

/-- A hidden line is not refused for its size. -/
theorem takeLine_of_hidden (label : JsString) (p : Progress) {ended : JsString}
    (h : hidden maxBytes ended = true) :
    (∃ p', takeLine maxBytes label p ended = .ok p') ∨
      takeLine maxBytes label p ended = .error ⟨p.entries, .invalid label (p.line + 1)⟩ := by
  simp only [hidden, Bool.and_eq_true, Bool.or_eq_true, decide_eq_true_eq, Bool.not_eq_true'] at h
  unfold takeLine parseNdjsonLine
  simp only
  split_ifs with hblank hsize
  · exact Or.inl ⟨_, rfl⟩
  · rcases h.2 with hblank' | hsize'
    · exact absurd hblank' hblank
    · rw [hsize'] at hsize
      cases hsize
  · cases parse (stripTrailingCarriageReturn ended) with
    | some v => exact Or.inl ⟨_, rfl⟩
    | none => exact Or.inr rfl

/-! ## Line numbers -/

theorem takeLine_line {p p' : Progress} {ended : JsString}
    (h : takeLine maxBytes label p ended = .ok p') : p'.line = p.line + 1 := by
  unfold takeLine at h
  simp only at h
  split_ifs at h with hblank
  · cases h
    rfl
  · cases hparse : parseNdjsonLine maxBytes label (stripTrailingCarriageReturn ended)
        (p.line + 1) with
    | ok entry =>
        rw [hparse] at h
        cases h
        rfl
    | error err =>
        rw [hparse] at h
        cases h

theorem takeLine_error_line {p : Progress} {ended : JsString} {f : Failure}
    (h : takeLine maxBytes label p ended = .error f) : f.error.line = p.line + 1 := by
  unfold takeLine parseNdjsonLine at h
  simp only at h
  split_ifs at h with hblank hsize
  · cases h
    rfl
  · cases hparse : parse (stripTrailingCarriageReturn ended) with
    | some v =>
        rw [hparse] at h
        cases h
    | none =>
        rw [hparse] at h
        cases h
        rfl

theorem takeLines_line (maxBytes : Nat) (label : JsString) (p : Progress) (ended : List JsString) :
    (∀ p', takeLines maxBytes label p ended = .ok p' → p.line ≤ p'.line) ∧
      (∀ f, takeLines maxBytes label p ended = .error f → p.line < f.error.line) := by
  induction ended generalizing p with
  | nil =>
      constructor
      · intro p' h
        cases h
        exact le_rfl
      · intro f h
        cases h
  | cons line ended ih =>
      rw [takeLines, List.foldlM_cons]
      cases htake : takeLine maxBytes label p line with
      | ok p₁ =>
          have hline := takeLine_line htake
          constructor
          · intro p' h
            have hle := (ih p₁).1 p' h
            omega
          · intro f h
            have hlt := (ih p₁).2 f h
            omega
      | error f₁ =>
          have hline := takeLine_error_line htake
          constructor
          · intro p' h
            cases h
          · intro f h
            cases h
            omega

/-! ## One chunk more -/

/-- The text in the buffer once a chunk is decoded. -/
def StreamState.fed (s : StreamState) (chunk : List Byte) : JsString :=
  s.buffer ++ (Utf8.run ⟨[], s.pending⟩ chunk).out

/-- The state after a chunk that passes the size check. -/
def StreamState.next (s : StreamState) (chunk : List Byte) (p : Progress) : StreamState :=
  ⟨(Utf8.run ⟨[], s.pending⟩ chunk).pending, openLine (s.fed chunk), p⟩

theorem readChunk_eq (s : StreamState) (chunk : List Byte) :
    readChunk maxBytes label s chunk =
      takeLines maxBytes label s.progress (completeLines (s.fed chunk)) >>= fun p =>
        if exceeds maxBytes (byteLength (openLine (s.fed chunk))) then
          .error ⟨p.entries,
            .tooLarge (p.line + 1) (byteLength (openLine (s.fed chunk))) maxBytes⟩
        else .ok (s.next chunk p) := rfl

theorem readChunks_cons (s : StreamState) (chunk : List Byte) (chunks : List (List Byte)) :
    readChunks maxBytes label s (chunk :: chunks) =
      takeLines maxBytes label s.progress (completeLines (s.fed chunk)) >>= fun p =>
        if exceeds maxBytes (byteLength (openLine (s.fed chunk))) then
          .error ⟨p.entries,
            .tooLarge (p.line + 1) (byteLength (openLine (s.fed chunk))) maxBytes⟩
        else readChunks maxBytes label (s.next chunk p) chunks := by
  rw [readChunks, List.foldlM_cons, readChunk_eq]
  cases takeLines maxBytes label s.progress (completeLines (s.fed chunk)) with
  | error f => rfl
  | ok p =>
      simp only [bind, Except.bind]
      split_ifs <;> rfl

theorem fed_append (s : StreamState) (left right : List Byte) (p : Progress) :
    completeLines (s.fed (left ++ right)) =
        completeLines (s.fed left) ++ completeLines ((s.next left p).fed right) ∧
      openLine (s.fed (left ++ right)) = openLine ((s.next left p).fed right) ∧
        ∀ p', s.next (left ++ right) p' = (s.next left p).next right p' := by
  have hrun := Utf8.run_out (Utf8.run ⟨[], s.pending⟩ left) right
  have hfed : s.fed (left ++ right) = s.fed left ++
      (Utf8.run ⟨[], (s.next left p).pending⟩ right).out := by
    rw [StreamState.fed, Utf8.run_append, hrun, StreamState.fed, List.append_assoc]
    rfl
  have hopen : openLine (s.fed (left ++ right)) = openLine ((s.next left p).fed right) := by
    rw [hfed, openLine_append]
    rfl
  refine ⟨?_, hopen, fun p' => ?_⟩
  · rw [hfed, completeLines_append]
    rfl
  · rw [StreamState.next, hopen, Utf8.run_append, hrun]
    rfl

theorem readChunks_line {s : StreamState} {chunks : List (List Byte)} {f : Failure}
    (h : readChunks maxBytes label s chunks = .error f) : s.progress.line < f.error.line := by
  induction chunks generalizing s with
  | nil =>
      have hend : endStream maxBytes label s = .error f := h
      unfold endStream at hend
      simp only at hend
      split_ifs at hend
      have hline := takeLine_error_line hend
      omega
  | cons chunk chunks ih =>
      rw [readChunks_cons] at h
      have hlines := takeLines_line maxBytes label s.progress
        (completeLines (s.fed chunk))
      cases htake : takeLines maxBytes label s.progress (completeLines (s.fed chunk)) with
      | error f' =>
          rw [htake] at h
          cases h
          exact hlines.2 f htake
      | ok p =>
          have hle := hlines.1 p htake
          rw [htake] at h
          simp only [bind, Except.bind] at h
          split_ifs at h
          · cases h
            exact Nat.lt_succ_of_le hle
          · exact lt_of_le_of_lt hle (ih h)

/-! ## Without hidden lines -/

/-- Reading the chunks is reading their bytes in one chunk. -/
theorem readChunks_whole {s : StreamState} (hbuffer : newline ∉ s.buffer)
    (hsize : exceeds maxBytes (byteLength s.buffer) = false) (chunks : List (List Byte))
    (hnone : noneHidden maxBytes (completeLines (s.fed chunks.flatten)) = true) :
    SameRun (Run.of (readChunks maxBytes label s chunks))
      (Run.of (readChunks maxBytes label s [chunks.flatten])) := by
  induction chunks generalizing s with
  | nil =>
      -- no line is ended by no bytes
      have hfed : s.fed [] = s.buffer := by
        simp [StreamState.fed]
      have hnext : ∀ p, s.next [] p = ⟨s.pending, s.buffer, p⟩ := by
        intro p
        rw [StreamState.next, hfed, openLine_of_notMem hbuffer, Utf8.run_nil]
      rw [List.flatten_nil, readChunks_cons, hfed, completeLines_of_notMem hbuffer,
        openLine_of_notMem hbuffer, hsize]
      simp only [hnext]
      exact .rfl
  | cons chunk chunks ih =>
      rw [List.flatten_cons, (fed_append s chunk chunks.flatten s.progress).1] at hnone
      rw [List.flatten_cons, readChunks_cons, readChunks_cons,
        (fed_append s chunk chunks.flatten s.progress).1, takeLines_append]
      -- both sides take the lines that the first chunk ends
      cases htake : takeLines maxBytes label s.progress (completeLines (s.fed chunk)) with
      | error f => exact .rfl
      | ok p =>
          have hafter := fed_append s chunk chunks.flatten p
          have hfed : (s.next chunk s.progress).fed chunks.flatten =
              (s.next chunk p).fed chunks.flatten := rfl
          rw [hfed] at hnone ⊢
          have hrest := noneHidden_append hnone htake
          simp only [bind, Except.bind]
          cases hexceeds : exceeds maxBytes (byteLength (openLine (s.fed chunk))) with
          | true =>
              -- the line is refused now, or as a whole for its size
              rw [if_pos rfl]
              have hprefix := byteLength_le_of_prefix (openLine_begins (s.next chunk p).buffer
                (Utf8.run ⟨[], (s.next chunk p).pending⟩ chunks.flatten).out)
              have hopen : openLine (s.next chunk p).buffer = (s.next chunk p).buffer :=
                openLine_openLine _
              rw [hopen] at hprefix
              change byteLength (openLine (s.fed chunk)) ≤ byteLength
                ((completeLines ((s.next chunk p).fed chunks.flatten)).head?.getD
                  (openLine ((s.next chunk p).fed chunks.flatten))) at hprefix
              cases hlines : completeLines ((s.next chunk p).fed chunks.flatten) with
              | nil =>
                  rw [hlines, List.head?_nil, Option.getD_none] at hprefix
                  have hlong := exceeds_of_le hexceeds hprefix
                  rw [← hafter.2.1] at hlong
                  simp only [takeLines, List.foldlM_nil, pure, Except.pure, hlong, if_true]
                  exact ⟨rfl, rfl⟩
              | cons ended lines =>
                  rw [hlines, List.head?_cons, Option.getD_some] at hprefix
                  rw [hlines, noneHidden, Bool.and_eq_true, Bool.not_eq_true'] at hrest
                  rcases takeLine_of_exceeds label p
                    (exceeds_of_le hexceeds hprefix) hrest.1 with ⟨bytes, hrefused⟩
                  simp only [takeLines, List.foldlM_cons, hrefused, bind, Except.bind]
                  exact ⟨rfl, rfl⟩
          | false =>
              have hwhole := ih (s := s.next chunk p) (newline_notMem_openLine _) hexceeds hrest
              rw [readChunks_cons] at hwhole
              simp only [Bool.false_eq_true, if_false, hafter.2.1, hafter.2.2] at hwhole ⊢
              exact hwhole

/-- Without a hidden line, every division gives the outcome of one chunk. -/
theorem parseNdjsonStream_whole (label : JsString) {bytes : List Byte}
    (h : noneHidden maxBytes (streamLines bytes) = true)
    {chunks : List (List Byte)} (hchunks : chunks.flatten = bytes) :
    SameRun (parseNdjsonStream maxBytes label chunks) (parseNdjsonStream maxBytes label [bytes]) := by
  subst hchunks
  exact readChunks_whole (s := StreamState.start) (by simp [StreamState.start]) exceeds_zero chunks h

/-! ## With a hidden line -/

/-- The lines before the first hidden one are taken. -/
theorem exists_hidden {lines : List JsString} (h : noneHidden maxBytes lines = false)
    (label : JsString) (p : Progress) :
    ∃ before ended after p', lines = before ++ ended :: after ∧
      takeLines maxBytes label p before = .ok p' ∧ hidden maxBytes ended = true := by
  induction lines generalizing p with
  | nil => cases h
  | cons line lines ih =>
      rw [noneHidden, Bool.and_eq_false_iff, Bool.not_eq_false', Bool.or_eq_false_iff] at h
      rcases h with h | ⟨hrefused, h⟩
      · exact ⟨[], line, lines, p, rfl, rfl, h⟩
      · rcases (takeLine_ok_iff label p line).mpr hrefused with ⟨p₁, htake⟩
        rcases ih h p₁ with ⟨before, ended, after, p', hlines, hbefore, hhidden⟩
        refine ⟨line :: before, ended, after, p', by rw [hlines, List.cons_append], ?_, hhidden⟩
        rw [takeLines, List.foldlM_cons, htake]
        exact hbefore

/-- The character before the newline of a hidden line is complete. -/
theorem openLine_of_hidden {d : Utf8Decoder}
    (h : hidden maxBytes (openLine (Utf8.finish d)) = true) : Utf8.finish d = d.out := by
  unfold Utf8.finish at h ⊢
  split
  · rfl
  · rename_i p hp
    exfalso
    rw [hp] at h
    have hopen : openLine (d.out ++ [replacementUnit]) = openLine d.out ++ [replacementUnit] := by
      rw [openLine_append, openLine_of_notMem]
      rw [List.mem_append, not_or]
      exact ⟨newline_notMem_openLine _, by decide⟩
    have hstrip : stripTrailingCarriageReturn (openLine d.out ++ [replacementUnit]) =
        openLine d.out ++ [replacementUnit] := by
      rw [stripTrailingCarriageReturn, if_neg]
      rw [List.getLast?_concat]
      decide
    have hblank : trim (openLine d.out ++ [replacementUnit]) ≠ [] :=
      trim_ne_nil_of_mem (u := replacementUnit) (by simp) (by decide)
    simp only [hopen, hidden, hstrip, hblank, decide_false, Bool.false_or] at h
    cases hexceeds : exceeds maxBytes (byteLength (openLine d.out ++ [replacementUnit])) <;>
      simp [hexceeds] at h

/-- Cut just before its newline, the stream is refused at the hidden line. -/
theorem refused_at_hidden {bytes : List Byte}
    (h : noneHidden maxBytes (streamLines bytes) = false) :
    ∃ left right, bytes = left ++ right ∧
      ¬ SameRun (parseNdjsonStream maxBytes label [left, right])
        (parseNdjsonStream maxBytes label [bytes]) := by
  rcases exists_hidden h label Progress.start with
    ⟨before, ended, after, p, hlines, hbefore, hhidden⟩
  rcases Utf8.newline_cut hlines with ⟨left, right, hbytes, hleft, hended⟩
  refine ⟨left, right, hbytes, fun hsame => ?_⟩
  have hout : Utf8.finish (Utf8.run ⟨[], none⟩ left) = (Utf8.run ⟨[], none⟩ left).out :=
    openLine_of_hidden (by rw [← hended]; exact hhidden)
  have hexceeds : exceeds maxBytes (byteLength ended) = true := by
    simp only [hidden, Bool.and_eq_true] at hhidden
    exact hhidden.1
  -- the first chunk holds the line without its newline
  have hcut : parseNdjsonStream maxBytes label [left, right] =
      ⟨p.entries, some (.tooLarge (p.line + 1) (byteLength ended) maxBytes)⟩ := by
    have hfed : StreamState.start.fed left = (Utf8.run ⟨[], none⟩ left).out := rfl
    rw [parseNdjsonStream, readChunks_cons, hfed, hleft, ← hout, ← hended]
    simp only [StreamState.start, hbefore, bind, Except.bind, hexceeds, if_true]
    rfl
  -- read as a whole, the line is not refused for its size
  have hwhole : (parseNdjsonStream maxBytes label [bytes]).error.map
      (fun e => (e.status, e.line)) ≠ some (413, p.line + 1) := by
    have hfed : completeLines (StreamState.start.fed bytes) = before ++ ended :: after := hlines
    have hstart : StreamState.start.progress = Progress.start := rfl
    have htaken : takeLines maxBytes label p (ended :: after) =
        takeLine maxBytes label p ended >>= fun p' => takeLines maxBytes label p' after :=
      List.foldlM_cons
    rw [parseNdjsonStream, readChunks_cons, hfed, hstart, takeLines_append, hbefore]
    simp only [bind, Except.bind] at htaken ⊢
    rw [htaken]
    rcases takeLine_of_hidden label p hhidden with ⟨p', htake⟩ | htake
    · -- it is taken, and whatever is refused later is a later line
      have hline := takeLine_line htake
      have hafter := takeLines_line maxBytes label p' after
      rw [htake]
      simp only
      cases hrest : takeLines maxBytes label p' after with
      | error f =>
          have hlt := hafter.2 f hrest
          intro heq
          have hf := (Prod.mk.inj (Option.some.inj heq)).2
          omega
      | ok p₂ =>
          have hle := hafter.1 p₂ hrest
          simp only
          split_ifs
          · intro heq
            have hf : p₂.line + 1 = p.line + 1 := (Prod.mk.inj (Option.some.inj heq)).2
            omega
          · cases hend : readChunks maxBytes label (StreamState.start.next bytes p₂) [] with
            | ok p₃ => simp [Run.of]
            | error f =>
                have hlt := readChunks_line hend
                have hprogress : (StreamState.start.next bytes p₂).progress = p₂ := rfl
                rw [hprogress] at hlt
                intro heq
                have hf := (Prod.mk.inj (Option.some.inj heq)).2
                omega
    · rw [htake]
      intro heq
      have hf : 400 = 413 := (Prod.mk.inj (Option.some.inj heq)).1
      omega
  have hending := hsame.ending
  rw [hcut] at hending
  exact hwhole hending.symm

end Options

/-! ## The division of the stream -/

/-- What is said of two divisions of the same bytes: the same entries and ending from the stream,
and from the batches the same values in batches within the limits. -/
structure Agree (o : BatchOptions) (maxBytes : Nat) (label : JsString)
    (chunks chunks' : List (List Byte)) : Prop where
  run : SameRun (parseNdjsonStream maxBytes label chunks) (parseNdjsonStream maxBytes label chunks')
  batches : (parseNdjsonBatches o maxBytes label chunks).1 =
    (parseNdjsonBatches o maxBytes label chunks').1
  ending : SameEnding (parseNdjsonBatches o maxBytes label chunks).2
    (parseNdjsonBatches o maxBytes label chunks').2
  grouped : ∃ groups : List (List Entry),
    (parseNdjsonBatches o maxBytes label chunks).1 = groups.map (fun g => g.map Entry.value) ∧
      (∀ g ∈ groups, WithinLimits o g) ∧
      groups.flatten <+: (parseNdjsonStream maxBytes label chunks).entries
  values : (parseNdjsonStream maxBytes label chunks).error = none →
    (parseNdjsonBatches o maxBytes label chunks).1.flatten =
      (parseNdjsonStream maxBytes label chunks).entries.map Entry.value

theorem Agree.of_sameRun {o : BatchOptions} {maxBytes : Nat} {label : JsString}
    {chunks chunks' : List (List Byte)}
    (h : SameRun (parseNdjsonStream maxBytes label chunks)
      (parseNdjsonStream maxBytes label chunks')) : Agree o maxBytes label chunks chunks' := by
  have hgroups := parseNdjsonBatches_groups o (parseNdjsonStream maxBytes label chunks)
  refine ⟨h, ?_, h.ending, ⟨_, rfl, hgroups.1, hgroups.2.1⟩, fun herror => ?_⟩
  · simp only [parseNdjsonBatches, h.groupEntries_eq o]
  · simp only [parseNdjsonBatches]
    rw [← List.map_flatten, hgroups.2.2 herror]

/-- Any two divisions of a byte stream have the same outcome exactly when no ended line of it is
over the limit only by its carriage return or as a blank line, up to the first refused line. -/
theorem divisions_agree_iff (o : BatchOptions) (maxBytes : Nat) (label : JsString)
    (bytes : List Byte) :
    (∀ chunks chunks' : List (List Byte), chunks.flatten = bytes → chunks'.flatten = bytes →
      Agree o maxBytes label chunks chunks') ↔
      noneHidden maxBytes (streamLines bytes) = true := by
  constructor
  · intro hagree
    by_contra hnone
    rcases refused_at_hidden (Bool.eq_false_of_not_eq_true hnone) with ⟨left, right, hbytes, hdiffer⟩
    apply hdiffer
    exact (hagree [left, right] [bytes] (by simp [hbytes]) (by simp)).run
  · intro hnone chunks chunks' hchunks hchunks'
    apply Agree.of_sameRun
    have hleft := parseNdjsonStream_whole label hnone hchunks
    have hright := parseNdjsonStream_whole label hnone hchunks'
    exact hleft.trans hright.symm

/-- The line `1` and CRLF, with a limit of one byte: read in one chunk it is taken, and refused when
the chunk ends before the newline. -/
theorem divisions_disagree :
    ¬ ∀ chunks chunks' : List (List Byte), chunks.flatten = [0x31, 0x0d, 0x0a] →
      chunks'.flatten = [0x31, 0x0d, 0x0a] → Agree ⟨1000, 0⟩ 1 (js "NDJSON") chunks chunks' := by
  intro h
  have hrun := (h [[0x31, 0x0d, 0x0a]] [[0x31, 0x0d], [0x0a]] rfl rfl).run
  have hwhole : (parseNdjsonStream 1 (js "NDJSON") [[0x31, 0x0d, 0x0a]]).error = none := by
    decide
  have hcut : (parseNdjsonStream 1 (js "NDJSON") [[0x31, 0x0d], [0x0a]]).error =
      some (.tooLarge 1 2 1) := by
    decide
  have hending := hrun.ending
  rw [hwhole, hcut] at hending
  cases hending

end Ndjson
end ObjyDb
