import ObjyDb.Js.JsonCharset
import ObjyDb.Js.Lines
import ObjyDb.Persist.Chunks

/-!
# Records — the sizes of journal records and snapshot segments

Operations are cut into records and snapshot rows into segments while their bytes are counted.  The
counts are those of the texts that are written.

* `arrayBytes_concat` — what one more operation adds to the text of an array
* `chunks_spec` — records and segments
-/

namespace ObjyDb
namespace Persist

open Js

/-! ## Bytes -/

theorem byteLength_append {left : JsString} (h : isWellFormedText left = true)
    (right : JsString) : byteLength (left ++ right) = byteLength left + byteLength right := by
  unfold byteLength
  rw [encode_append h, List.length_append]

/-- The bytes of the JSON text of a value. -/
def jsonBytes (value : Json) : Nat :=
  byteLength (stringify value)

theorem itemsText_concat (first : Bool) (items : List Json) (item : Json) :
    stringify.itemsText first (items ++ [item]) = stringify.itemsText first items ++
      ((if first ∧ items = [] then [] else [unit ',']) ++ stringify item) := by
  induction items generalizing first with
  | nil => simp [stringify.itemsText]
  | cons head items ih => simp [stringify.itemsText, ih]

theorem printable_itemsText (items : List Json) : Printable (stringify.itemsText true items) :=
  printable_items items (fun v _ => printable_stringify v) true

/-- The text of an array is its items between two brackets. -/
theorem arrayBytes_eq (items : List Json) :
    jsonBytes (.arr items) = byteLength (stringify.itemsText true items) + 2 := by
  have hopen : byteLength [unit '['] = 1 := rfl
  have hclose : byteLength [unit ']'] = 1 := rfl
  calc
    jsonBytes (.arr items)
        = byteLength ([unit '['] ++ (stringify.itemsText true items ++ [unit ']'])) := by
          rw [jsonBytes, stringify]
          rfl
    _ = 1 + (byteLength (stringify.itemsText true items) + 1) := by
          rw [byteLength_append (by decide), byteLength_append (printable_itemsText items).wellFormed,
            hopen, hclose]
    _ = byteLength (stringify.itemsText true items) + 2 := by omega

theorem arrayBytes_nil : jsonBytes (.arr []) = 2 := rfl

/-- One more item adds its text, and a comma unless it is the first. -/
theorem arrayBytes_concat (items : List Json) (item : Json) :
    jsonBytes (.arr (items ++ [item])) =
      jsonBytes (.arr items) + (if items = [] then 0 else 1) + jsonBytes item := by
  have hcomma : byteLength [unit ','] = 1 := rfl
  rw [arrayBytes_eq, arrayBytes_eq, itemsText_concat,
    byteLength_append (printable_itemsText items).wellFormed]
  split_ifs with hfirst hnil hnil
  · rw [List.nil_append, jsonBytes]
    omega
  · exact absurd hfirst.2 hnil
  · exact absurd ⟨rfl, hnil⟩ hfirst
  · rw [byteLength_append (by decide), hcomma, jsonBytes]
    omega

/-! ## Records of operations -/

/-- What a record of operations may be. -/
structure Fits (maxBytes maxOps : Nat) (chunk : List Json) : Prop where
  nonempty : chunk ≠ []
  ops : chunk.length ≤ maxOps
  bytes : jsonBytes (.arr chunk) ≤ maxBytes ∨ chunk.length = 1

theorem fits_singleton {maxBytes maxOps : Nat} (hops : 1 ≤ maxOps) (op : Json) :
    Fits maxBytes maxOps [op] :=
  ⟨List.cons_ne_nil _ _, hops, .inr rfl⟩

/-- The record being filled fits, and its bytes are those of its text. -/
theorem fits_chunkLoop {maxBytes maxOps : Nat} (hops : 1 ≤ maxOps) {ops current : List Json}
    {bytes : Nat} (hbytes : bytes = jsonBytes (.arr current))
    (hcurrent : current ≠ [] → Fits maxBytes maxOps current) :
    ∀ chunk ∈ chunkLoop jsonBytes maxBytes maxOps current bytes ops,
      Fits maxBytes maxOps chunk := by
  induction ops generalizing current bytes with
  | nil =>
      intro chunk hchunk
      unfold chunkLoop at hchunk
      split_ifs at hchunk with hempty
      · cases hchunk
      · rw [List.mem_singleton.mp hchunk]
        exact hcurrent hempty
  | cons op ops ih =>
      intro chunk hchunk
      have hnext : bytes + (if current = [] then 0 else 1) + jsonBytes op =
          jsonBytes (.arr (current ++ [op])) := by
        rw [arrayBytes_concat, hbytes]
      unfold chunkLoop at hchunk
      dsimp only at hchunk
      rw [hnext] at hchunk
      by_cases hfull : current ≠ [] ∧ (maxOps ≤ current.length ∨
          maxBytes < jsonBytes (.arr (current ++ [op])))
      · -- the record is full, and the operation begins the next one
        rw [if_pos hfull] at hchunk
        rcases List.mem_cons.mp hchunk with rfl | hchunk
        · exact hcurrent hfull.1
        · refine ih ?_ (fun _ => fits_singleton hops op) chunk hchunk
          have hone := arrayBytes_concat [] op
          rw [arrayBytes_nil] at hone
          exact hone.symm
      · rw [if_neg hfull] at hchunk
        refine ih rfl (fun _ => ?_) chunk hchunk
        by_cases hempty : current = []
        · rw [hempty]
          exact fits_singleton hops op
        · have hroom : ¬ (maxOps ≤ current.length ∨
              maxBytes < jsonBytes (.arr (current ++ [op]))) := fun h => hfull ⟨hempty, h⟩
          rw [not_or, not_le, not_lt] at hroom
          refine ⟨by simp, ?_, .inl hroom.2⟩
          rw [List.length_append, List.length_singleton]
          exact hroom.1

/-! ## Segments of rows -/

structure JsonlChunk where
  body : JsString
  count : Nat
  bytes : Nat

/-- `rows.join("\n")` -/
def joinLines : List JsString → JsString
  | [] => []
  | [row] => row
  | row :: rows => row ++ newline :: joinLines rows

/-- `makeChunk()` -/
def makeChunk (current : List JsString) (bytes : Nat) : JsonlChunk where
  body := if current = [] then [] else joinLines current ++ [newline]
  count := current.length
  bytes

/-- The loop of `chunkJsonlIterable`: `current` are the rows of the segment being filled. -/
def chunkJsonlLoop (maxBytes : Nat) (current : List JsString) (bytes : Nat) :
    List Json → List JsonlChunk
  | [] => if current = [] then [⟨[], 0, 0⟩] else [makeChunk current bytes]
  | value :: rows =>
      let row := stringify value
      let rowBytes := byteLength row
      let nextBytes := bytes + rowBytes + 1
      if current ≠ [] ∧ maxBytes < nextBytes then
        makeChunk current bytes :: chunkJsonlLoop maxBytes [row] (0 + rowBytes + 1) rows
      else chunkJsonlLoop maxBytes (current ++ [row]) nextBytes rows

/-- `chunkJsonlIterable(rows, maxBytes, label)` -/
def chunkJsonlIterable (maxBytes : Nat) (rows : List Json) : List JsonlChunk :=
  chunkJsonlLoop maxBytes [] 0 rows

/-- The rows, each ended by a newline. -/
def linesText (rows : List JsString) : JsString :=
  rows.flatMap fun row => row ++ [newline]

theorem joinLines_concat_newline {rows : List JsString} (h : rows ≠ []) :
    joinLines rows ++ [newline] = linesText rows := by
  induction rows using joinLines.induct with
  | case1 => exact absurd rfl h
  | case2 row => simp [joinLines, linesText]
  | case3 row rows hne ih =>
      have hrows : rows ≠ [] := fun hnil => hne hnil
      have htail := ih hrows
      rw [joinLines, List.append_assoc, List.cons_append, htail]
      · simp [linesText]
      · exact hne

theorem body_makeChunk (rows : List JsString) (bytes : Nat) :
    (makeChunk rows bytes).body = linesText rows := by
  unfold makeChunk
  dsimp only
  split_ifs with hempty
  · rw [hempty]
    rfl
  · exact joinLines_concat_newline hempty

theorem newline_notMem_stringify (value : Json) : newline ∉ stringify value := by
  intro hmem
  have hvisible := (printable_stringify value).visible _ hmem
  revert hvisible
  decide

/-- The lines of the text are the rows. -/
theorem linesText_lines {rows : List JsString} (h : ∀ row ∈ rows, newline ∉ row) :
    completeLines (linesText rows) = rows ∧ openLine (linesText rows) = [] := by
  induction rows with
  | nil => exact ⟨rfl, rfl⟩
  | cons row rows ih =>
      rcases ih fun r hr => h r (List.mem_cons_of_mem _ hr) with ⟨hlines, hopen⟩
      have hrow := h row List.mem_cons_self
      have hfirst : completeLines (row ++ [newline]) = [row] := by
        rw [completeLines_concat_newline, completeLines_of_notMem hrow, openLine_of_notMem hrow]
        rfl
      have hrest : openLine (row ++ [newline]) = [] := by
        rw [openLine]
        simp only [split_append_sep hrow]
        rfl
      have htext : linesText (row :: rows) = (row ++ [newline]) ++ linesText rows := rfl
      constructor
      · rw [htext, completeLines_append, hfirst, hrest, List.nil_append, hlines]
        rfl
      · rw [htext, openLine_append, hrest, List.nil_append, hopen]

theorem isWellFormedText_linesText {rows : List JsString} (h : ∀ row ∈ rows, Printable row) :
    isWellFormedText (linesText rows) = true := by
  induction rows with
  | nil => rfl
  | cons row rows ih =>
      have hline : isWellFormedText (row ++ [newline]) = true :=
        isWellFormedText_append (h row List.mem_cons_self).wellFormed (by decide)
      exact isWellFormedText_append hline (ih fun r hr => h r (List.mem_cons_of_mem _ hr))

/-- One more row adds its text and a newline. -/
theorem byteLength_linesText_concat {rows : List JsString} (h : ∀ row ∈ rows, Printable row)
    {row : JsString} (hrow : Printable row) :
    byteLength (linesText (rows ++ [row])) = byteLength (linesText rows) + byteLength row + 1 := by
  have htext : linesText (rows ++ [row]) = linesText rows ++ (row ++ [newline]) := by
    simp [linesText]
  have hend : byteLength [newline] = 1 := rfl
  rw [htext, byteLength_append (isWellFormedText_linesText h), byteLength_append hrow.wellFormed,
    hend, Nat.add_assoc]

/-- What a segment says of itself is true. -/
structure Counts (maxBytes : Nat) (chunk : JsonlChunk) : Prop where
  ended : openLine chunk.body = []
  count : chunk.count = (completeLines chunk.body).length
  bytes : chunk.bytes = byteLength chunk.body
  limit : chunk.bytes ≤ maxBytes ∨ chunk.count = 1

theorem counts_makeChunk {maxBytes bytes : Nat} {rows : List JsString}
    (hrows : ∀ row ∈ rows, newline ∉ row) (hbytes : bytes = byteLength (linesText rows))
    (hlimit : bytes ≤ maxBytes ∨ rows.length = 1) : Counts maxBytes (makeChunk rows bytes) := by
  rcases linesText_lines hrows with ⟨hlines, hopen⟩
  refine ⟨?_, ?_, ?_, hlimit⟩
  · rw [body_makeChunk, hopen]
  · rw [body_makeChunk, hlines]
    rfl
  · rw [body_makeChunk, ← hbytes]
    rfl

/-- The segments from some point on, when rows of the one being filled were printed. -/
theorem chunkJsonlLoop_spec {maxBytes : Nat} {rows : List Json} {current : List JsString}
    {bytes : Nat} (hprintable : ∀ row ∈ current, Printable row ∧ newline ∉ row)
    (hbytes : bytes = byteLength (linesText current))
    (hlimit : bytes ≤ maxBytes ∨ current.length = 1) :
    (chunkJsonlLoop maxBytes current bytes rows).flatMap (fun chunk => completeLines chunk.body) =
        current ++ rows.map stringify ∧
      ∀ chunk ∈ chunkJsonlLoop maxBytes current bytes rows, Counts maxBytes chunk := by
  have hmake := counts_makeChunk (fun row hrow => (hprintable row hrow).2) hbytes hlimit
  have hlines : completeLines (makeChunk current bytes).body = current := by
    rw [body_makeChunk, (linesText_lines fun row hrow => (hprintable row hrow).2).1]
  induction rows generalizing current bytes with
  | nil =>
      rw [chunkJsonlLoop]
      split_ifs with hempty
      · rw [hempty]
        refine ⟨rfl, fun chunk hchunk => ?_⟩
        rw [List.mem_singleton.mp hchunk]
        exact ⟨rfl, rfl, rfl, .inl (Nat.zero_le _)⟩
      · refine ⟨?_, fun chunk hchunk => ?_⟩
        · rw [List.flatMap_singleton, hlines, List.map_nil, List.append_nil]
        · rw [List.mem_singleton.mp hchunk]
          exact hmake
  | cons value rows ih =>
      have hrow : Printable (stringify value) ∧ newline ∉ stringify value :=
        ⟨printable_stringify value, newline_notMem_stringify value⟩
      have hnext := byteLength_linesText_concat (fun r hr => (hprintable r hr).1) hrow.1
      rw [← hbytes] at hnext
      rw [chunkJsonlLoop]
      by_cases hfull : current ≠ [] ∧ maxBytes < bytes + byteLength (stringify value) + 1
      · -- the segment is full, and the row begins the next one
        rw [if_pos hfull]
        have hone : ∀ row ∈ [stringify value], Printable row ∧ newline ∉ row :=
          fun row hmem => List.mem_singleton.mp hmem ▸ hrow
        have hsize : 0 + byteLength (stringify value) + 1 =
            byteLength (linesText [stringify value]) := by
          exact (@byteLength_linesText_concat [] (fun _ hr => nomatch hr) _ hrow.1).symm
        rcases ih hone hsize (.inr rfl)
          (counts_makeChunk (fun row hmem => (hone row hmem).2) hsize (.inr rfl))
          (by rw [body_makeChunk, (linesText_lines fun row hmem => (hone row hmem).2).1])
          with ⟨htext, hcounts⟩
        refine ⟨?_, fun chunk hchunk => ?_⟩
        · rw [List.flatMap_cons, hlines, htext]
          rfl
        · rcases List.mem_cons.mp hchunk with rfl | hchunk
          · exact hmake
          · exact hcounts chunk hchunk
      · -- the row still fits, or it is the first and goes in whatever its length
        rw [if_neg hfull]
        have hall : ∀ row ∈ current ++ [stringify value], Printable row ∧ newline ∉ row := by
          intro row hmem
          rcases List.mem_append.mp hmem with hmem | hmem
          · exact hprintable row hmem
          · exact List.mem_singleton.mp hmem ▸ hrow
        have hlimit' : bytes + byteLength (stringify value) + 1 ≤ maxBytes ∨
            (current ++ [stringify value]).length = 1 := by
          by_cases hempty : current = []
          · rw [hempty]
            exact .inr rfl
          · exact .inl (not_lt.mp fun hlt => hfull ⟨hempty, hlt⟩)
        rcases ih hall hnext.symm hlimit'
          (counts_makeChunk (fun row hmem => (hall row hmem).2) hnext.symm hlimit')
          (by rw [body_makeChunk, (linesText_lines fun row hmem => (hall row hmem).2).1])
          with ⟨htext, hcounts⟩
        refine ⟨?_, hcounts⟩
        rw [htext, List.append_assoc]
        rfl

/-- The records hold all operations in their order, each within its limits unless one operation
alone exceeds the bytes; the segments hold all rows in their order, each with its true number of
rows and bytes, and within its limit unless one row alone exceeds it. -/
theorem chunks_spec (maxBytes : Nat) :
    (∀ maxOps ops, 1 ≤ maxOps →
      (chunkOpsForRecord jsonBytes maxBytes maxOps ops).flatten = ops ∧
        ∀ chunk ∈ chunkOpsForRecord jsonBytes maxBytes maxOps ops, Fits maxBytes maxOps chunk) ∧
    ∀ rows, (chunkJsonlIterable maxBytes rows).flatMap (fun chunk => completeLines chunk.body) =
        rows.map stringify ∧
      ∀ chunk ∈ chunkJsonlIterable maxBytes rows, Counts maxBytes chunk := by
  refine ⟨fun maxOps ops hops => ⟨flatten_chunkOpsForRecord jsonBytes maxBytes maxOps ops, ?_⟩,
    fun rows => ?_⟩
  · exact fits_chunkLoop hops arrayBytes_nil.symm fun hne => absurd rfl hne
  · exact chunkJsonlLoop_spec (fun _ hrow => nomatch hrow) rfl (.inl (Nat.zero_le _))

/-- Three values, each too large for the limit. -/
theorem chunks_spec_singles :
    (chunkOpsForRecord jsonBytes 5 2 [.bool true, .null, .null]).flatten =
        [.bool true, .null, .null] ∧
      ∀ chunk ∈ chunkOpsForRecord jsonBytes 5 2 [.bool true, .null, .null], Fits 5 2 chunk :=
  (chunks_spec 5).1 2 _ (by decide)

end Persist
end ObjyDb
