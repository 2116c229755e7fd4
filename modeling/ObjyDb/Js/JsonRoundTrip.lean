import ObjyDb.Js.JsonText

/-!
# JsonRoundTrip — printing and parsing

The parser reads one unit at a time, so the text of a value can be run from any state in which a
value may start, under any stack; afterwards the state `HasRead` the value.

* `parse_stringify` — parsing a printed value gives it back, and `parse_stringify_settle` what a tree
  with repeated keys is read as;
* `parse_none_of_cut` — no proper prefix of the text of a non-number value parses;
* `parse_concat_replacement` — nor does such a prefix followed by a non-ASCII unit that stands
  where the text has one.
-/

namespace ObjyDb
namespace Js

namespace Json

/-! ## Repeated keys -/

/-- The value as its text is read: a repeated key keeps its first place and its last value. -/
def settle : Json → Json
  | .arr items => .arr (settleItems items)
  | .obj fields => .obj (settleFields [] fields)
  | .null => .null
  | .bool b => .bool b
  | .num n => .num n
  | .str s => .str s
where
  settleItems : List Json → List Json
    | [] => []
    | x :: xs => settle x :: settleItems xs
  settleFields (done : Fields) : Fields → Fields
    | [] => done
    | (k, x) :: fs => settleFields (Assoc.set done k (settle x)) fs

theorem settleFields_of_nodup (fields : Fields) (h : ∀ f ∈ fields, f.2.settle = f.2)
    (done : Fields) (hnodup : (Assoc.keys (done ++ fields)).Nodup) :
    settle.settleFields done fields = done ++ fields := by
  induction fields generalizing done with
  | nil => simp [settle.settleFields]
  | cons f fields ih =>
      obtain ⟨k, v⟩ := f
      have hnew : k ∉ Assoc.keys done := by
        simp only [Assoc.keys, List.map_append, List.map_cons] at hnodup ⊢
        exact fun hmem => (List.disjoint_of_nodup_append hnodup) hmem (by simp)
      have hv : v.settle = v := h (k, v) List.mem_cons_self
      rw [settle.settleFields, hv, Assoc.set_of_notMem v hnew,
        ih (fun g hg => h g (List.mem_cons_of_mem _ hg)) _ (by simpa using hnodup)]
      simp

/-- Without repeated keys nothing is lost. -/
theorem settle_of_wellFormed {v : Json} (hv : v.WellFormed) : v.settle = v := by
  induction v using Json.induct with
  | null => rfl
  | bool b => rfl
  | num n => rfl
  | str s => rfl
  | arr items ih =>
      have hitems := wellFormed_arr_iff.mp hv
      rw [settle]
      congr 1
      clear hv
      induction items with
      | nil => rfl
      | cons x xs ihxs =>
          rw [settle.settleItems, ih x List.mem_cons_self (hitems x List.mem_cons_self),
            ihxs (fun y hy => ih y (List.mem_cons_of_mem _ hy))
              (fun y hy => hitems y (List.mem_cons_of_mem _ hy))]
  | obj fields ih =>
      obtain ⟨hnodup, hfields⟩ := wellFormed_obj_iff.mp hv
      rw [settle, settleFields_of_nodup fields (fun f hf => ih f hf (hfields f hf)) [] hnodup]
      rfl

end Json

namespace ParseState

/-! ## Runs -/

@[simp] theorem run_nil (s : ParseState) : s.run [] = some s := rfl

theorem run_cons (s : ParseState) (c : CodeUnit) (text : JsString) :
    s.run (c :: text) = (s.step c).bind (fun s => s.run text) := by
  simp [run, List.foldlM_cons]

theorem run_append (s : ParseState) (left right : JsString) :
    s.run (left ++ right) = (s.run left).bind (fun s => s.run right) := by
  simp [run, List.foldlM_append]

theorem run_cons_of {s s' : ParseState} {c : CodeUnit} (h : s.step c = some s')
    (text : JsString) : s.run (c :: text) = s'.run text := by
  rw [run_cons, h, Option.bind_some]

theorem run_append_of {s s' : ParseState} {left : JsString} (h : s.run left = some s')
    (right : JsString) : s.run (left ++ right) = s'.run right := by
  rw [run_append, h, Option.bind_some]

/-! ## Strings -/

theorem hexDigit?_hexUnit {n : Nat} (h : n < 16) : hexDigit? (hexUnit n) = some n := by
  interval_cases n <;> decide

theorem step_string (fields : Option Fields) (text : JsString) (e : Escape) (stack : List Frame)
    (c : CodeUnit) :
    step ⟨.string fields text e, stack⟩ c = stepString fields text e stack c := rfl

theorem step_hex {fields : Option Fields} {text : JsString} {read value n : Nat}
    {stack : List Frame} (hn : n < 16) :
    step ⟨.string fields text (.hex read value), stack⟩ (hexUnit n) =
      if read = 3 then
        some ⟨.string fields (text ++ [Fin.ofNat _ (value * 16 + n)]) .none, stack⟩
      else some ⟨.string fields text (.hex (read + 1) (value * 16 + n)), stack⟩ := by
  rw [step_string, stepString, hexDigit?_hexUnit hn]
  split_ifs <;> rfl

theorem run_unicodeEscape (fields : Option Fields) (text : JsString) (stack : List Frame)
    (u : CodeUnit) :
    run ⟨.string fields text .none, stack⟩ (unicodeEscape u) =
      some ⟨.string fields (text ++ [u]) .none, stack⟩ := by
  have hu := u.isLt
  have h1 : u.val / 4096 < 16 := by omega
  have hslash : step ⟨.string fields text .none, stack⟩ (unit '\\') =
      some ⟨.string fields text .slash, stack⟩ := rfl
  have hhex : step ⟨.string fields text .slash, stack⟩ (unit 'u') =
      some ⟨.string fields text (.hex 0 0), stack⟩ := rfl
  have hvalue : (Fin.ofNat 65536 ((((0 * 16 + u.val / 4096) * 16 + u.val / 256 % 16) * 16 +
      u.val / 16 % 16) * 16 + u.val % 16) : CodeUnit) = u := by
    refine Fin.ext ?_
    simp only [Fin.val_ofNat]
    omega
  rw [unicodeEscape, run_cons_of hslash, run_cons_of hhex,
    run_cons_of ((step_hex h1).trans (if_neg (by decide))),
    run_cons_of ((step_hex (Nat.mod_lt _ (by decide))).trans (if_neg (by decide))),
    run_cons_of ((step_hex (Nat.mod_lt _ (by decide))).trans (if_neg (by decide))),
    run_cons_of ((step_hex (Nat.mod_lt _ (by decide))).trans (if_pos rfl)), run_nil, hvalue]

theorem step_plain {fields : Option Fields} {text : JsString} {stack : List Frame}
    {c : CodeUnit} (hquote : c.val ≠ 0x22) (hslash : c.val ≠ 0x5c) (hctl : ¬ c.val < 0x20) :
    step ⟨.string fields text .none, stack⟩ c =
      some ⟨.string fields (text ++ [c]) .none, stack⟩ := by
  have h1 : c ≠ unit '"' := fun h => hquote (congrArg Fin.val h)
  have h2 : c ≠ unit '\\' := fun h => hslash (congrArg Fin.val h)
  rw [step_string, stepString, if_neg h1, if_neg h2, if_neg hctl]

theorem step_surrogate {fields : Option Fields} {text : JsString} {stack : List Frame}
    {c : CodeUnit} (h : isSurrogate c = true) :
    step ⟨.string fields text .none, stack⟩ c =
      some ⟨.string fields (text ++ [c]) .none, stack⟩ := by
  have hge : 0xd800 ≤ c.val := by
    simp only [isSurrogate, isHighSurrogate, isLowSurrogate, Bool.or_eq_true, Bool.and_eq_true,
      decide_eq_true_eq] at h
    omega
  exact step_plain (by omega) (by omega) (by omega)

/-- The escape of a unit that has a short one. -/
theorem run_simpleEscape {fields : Option Fields} {text : JsString} {stack : List Frame}
    {c u : CodeUnit} (hc : c ≠ unit 'u') (h : simpleEscape? c = some u) :
    run ⟨.string fields text .none, stack⟩ [unit '\\', c] =
      some ⟨.string fields (text ++ [u]) .none, stack⟩ := by
  have hslash : step ⟨.string fields text .none, stack⟩ (unit '\\') =
      some ⟨.string fields text .slash, stack⟩ := rfl
  rw [run_cons_of hslash, run_cons, step_string, stepString, if_neg hc, h]
  rfl

theorem run_quoteUnit (fields : Option Fields) (text : JsString) (stack : List Frame)
    (u : CodeUnit) :
    run ⟨.string fields text .none, stack⟩ (quoteUnit u) =
      some ⟨.string fields (text ++ [u]) .none, stack⟩ := by
  unfold quoteUnit
  split_ifs with h1 h2 h3 h4 h5 h6 h7 h8
  · exact run_simpleEscape (by decide) (congrArg some (Fin.ext h1.symm))
  · exact run_simpleEscape (by decide) (congrArg some (Fin.ext h2.symm))
  · exact run_simpleEscape (by decide) (congrArg some (Fin.ext h3.symm))
  · exact run_simpleEscape (by decide) (congrArg some (Fin.ext h4.symm))
  · exact run_simpleEscape (by decide) (congrArg some (Fin.ext h5.symm))
  · exact run_simpleEscape (by decide) (congrArg some (Fin.ext h6.symm))
  · exact run_simpleEscape (by decide) (congrArg some (Fin.ext h7.symm))
  · exact run_unicodeEscape fields text stack u
  · rw [run_cons_of (step_plain h1 h2 h8), run_nil]

theorem run_quoteSingle (fields : Option Fields) (text : JsString) (stack : List Frame)
    (u : CodeUnit) :
    run ⟨.string fields text .none, stack⟩ (quoteSingle u) =
      some ⟨.string fields (text ++ [u]) .none, stack⟩ := by
  unfold quoteSingle
  split_ifs with h
  · exact run_unicodeEscape fields text stack u
  · exact run_quoteUnit fields text stack u

theorem run_quoteUnits (fields : Option Fields) (s : JsString) (text : JsString)
    (stack : List Frame) :
    run ⟨.string fields text .none, stack⟩ (quoteUnits s) =
      some ⟨.string fields (text ++ s) .none, stack⟩ := by
  induction s using quoteUnits.induct generalizing text with
  | case1 => simp [quoteUnits]
  | case2 u =>
      rw [quoteUnits]
      exact run_quoteSingle fields text stack u
  | case3 u v rest hpair ih =>
      have hpair' := Bool.and_eq_true_iff.mp hpair
      have hu : isSurrogate u = true := by simp [isSurrogate, hpair'.1]
      have hv : isSurrogate v = true := by simp [isSurrogate, hpair'.2]
      rw [quoteUnits, if_pos hpair, run_cons_of (step_surrogate hu),
        run_cons_of (step_surrogate hv), ih]
      simp
  | case4 u v rest hpair ih =>
      rw [quoteUnits, if_neg hpair, run_append_of (run_quoteSingle fields text stack u), ih]
      simp

/-- A printed string read from just after its opening quotation mark. -/
theorem run_quote_tail (fields : Option Fields) (s : JsString) (stack : List Frame) :
    run ⟨.string fields [] .none, stack⟩ (quoteUnits s ++ [unit '"']) =
      some (endString fields s stack) := by
  rw [run_append_of (run_quoteUnits fields s [] stack)]
  rfl

end ParseState

/-! ## Numbers -/

namespace NumberState

def run (n : NumberState) (text : JsString) : Option NumberState :=
  text.foldlM NumberState.step n

@[simp] theorem run_nil (n : NumberState) : n.run [] = some n := rfl

theorem run_cons_of {n n' : NumberState} {c : CodeUnit} (h : n.step c = some n')
    (text : JsString) : n.run (c :: text) = n'.run text := by
  simp [run, List.foldlM_cons, h]

theorem run_append_of {n n' : NumberState} {left : JsString} (h : n.run left = some n')
    (right : JsString) : n.run (left ++ right) = n'.run right := by
  simp only [run] at h
  simp [run, List.foldlM_append, h]

theorem digit?_digitUnit (d : Fin 10) : digit? (JsNumber.digitUnit d) = some d := by
  have h : 48 ≤ (JsNumber.digitUnit d).val ∧ (JsNumber.digitUnit d).val < 58 := by
    simp only [JsNumber.digitUnit]
    omega
  rw [digit?, dif_pos h]
  exact congrArg some (Fin.ext (by simp [JsNumber.digitUnit]))

theorem run_intDigits (neg : Bool) (ds int : List (Fin 10)) :
    run ⟨.int, neg, int, [], false, []⟩ (ds.map JsNumber.digitUnit) =
      some ⟨.int, neg, int ++ ds, [], false, []⟩ := by
  induction ds generalizing int with
  | nil => simp
  | cons d ds ih =>
      rw [List.map_cons, run_cons_of (by rw [NumberState.step, digit?_digitUnit]), ih]
      simp

theorem run_fracDigits (neg : Bool) (ds int frac : List (Fin 10)) :
    run ⟨.frac, neg, int, frac, false, []⟩ (ds.map JsNumber.digitUnit) =
      some ⟨.frac, neg, int, frac ++ ds, false, []⟩ := by
  induction ds generalizing frac with
  | nil => simp
  | cons d ds ih =>
      rw [List.map_cons, run_cons_of (by rw [NumberState.step, digit?_digitUnit]), ih]
      simp

theorem run_expDigits (neg expNeg : Bool) (ds int frac exp : List (Fin 10)) :
    run ⟨.expDigits, neg, int, frac, expNeg, exp⟩ (ds.map JsNumber.digitUnit) =
      some ⟨.expDigits, neg, int, frac, expNeg, exp ++ ds⟩ := by
  induction ds generalizing exp with
  | nil => simp
  | cons d ds ih =>
      rw [List.map_cons, run_cons_of (by rw [NumberState.step, digit?_digitUnit]), ih]
      simp

/-- The phase after the integer digits. -/
def intPhase (int : List (Fin 10)) : NumberPhase :=
  if int = [0] then .zero else .int

/-- After the first digit, the rest of an integer part without a leading zero. -/
theorem run_intTail {neg : Bool} {d : Fin 10} {ds : List (Fin 10)}
    (h : d :: ds = [0] ∨ (d :: ds).head? ≠ some 0) :
    run ⟨if d = 0 then .zero else .int, neg, [d], [], false, []⟩ (ds.map JsNumber.digitUnit) =
      some ⟨intPhase (d :: ds), neg, d :: ds, [], false, []⟩ := by
  rcases h with hzero | hhead
  · obtain ⟨rfl, rfl⟩ := List.cons.inj hzero
    rfl
  · have hd : d ≠ 0 := by simpa using hhead
    have hphase : intPhase (d :: ds) = .int := if_neg (by simp [hd])
    rw [if_neg hd, run_intDigits, hphase]
    rfl

/-- The phase after the fraction. -/
def fracPhase (int frac : List (Fin 10)) : NumberPhase :=
  if frac = [] then intPhase int else .frac

theorem run_fracText (neg : Bool) (int frac : List (Fin 10)) :
    run ⟨intPhase int, neg, int, [], false, []⟩ (JsNumber.fracText frac) =
      some ⟨fracPhase int frac, neg, int, frac, false, []⟩ := by
  cases frac with
  | nil => rfl
  | cons d ds =>
      have hpoint : NumberState.step ⟨intPhase int, neg, int, [], false, []⟩ (unit '.') =
          some ⟨.point, neg, int, [], false, []⟩ := by
        unfold intPhase
        split_ifs <;> rfl
      rw [JsNumber.fracText, if_neg (by simp), List.map_cons, run_cons_of hpoint,
        run_cons_of (by rw [NumberState.step, digit?_digitUnit]), run_fracDigits]
      simp [fracPhase]

theorem expDigits_ne_nil (n : Nat) : JsNumber.expDigits n ≠ [] := by
  unfold JsNumber.expDigits
  split_ifs with h
  · simp
  · simpa [JsNumber.decimalDigits, Nat.digits_eq_nil_iff_eq_zero] using h

theorem digitsValue_append (ds : List (Fin 10)) (d : Fin 10) :
    digitsValue (ds ++ [d]) = digitsValue ds * 10 + d.val := by
  simp [digitsValue, List.foldl_append]

theorem digitsValue_reverse (ds : List Nat) (h : ∀ d ∈ ds, d < 10) :
    digitsValue (ds.reverse.map (Fin.ofNat 10)) = Nat.ofDigits 10 ds := by
  induction ds with
  | nil => rfl
  | cons d ds ih =>
      have hd : d < 10 := h d List.mem_cons_self
      rw [List.reverse_cons, List.map_append, List.map_singleton, digitsValue_append,
        ih (fun e he => h e (List.mem_cons_of_mem _ he)), Nat.ofDigits_cons, Fin.val_ofNat,
        Nat.mod_eq_of_lt hd]
      ring

theorem digitsValue_expDigits (n : Nat) : digitsValue (JsNumber.expDigits n) = n := by
  unfold JsNumber.expDigits
  split_ifs with h
  · exact h.symm
  · rw [JsNumber.decimalDigits, digitsValue_reverse _ (fun d hd => Nat.digits_lt_base (by omega) hd),
      Nat.ofDigits_digits]

/-- The value read when the literal ends after its exponent. -/
theorem run_expText (neg : Bool) (int frac : List (Fin 10)) (exp : Option Int) :
    ∃ n, run ⟨fracPhase int frac, neg, int, frac, false, []⟩ (JsNumber.expText exp) = some n ∧
      n.value? = some (JsNumber.ofDigits neg (int ++ frac) (int.length + exp.getD 0)) := by
  have hphase : fracPhase int frac = .zero ∨ fracPhase int frac = .int ∨
      fracPhase int frac = .frac := by
    unfold fracPhase intPhase
    split_ifs <;> simp
  cases exp with
  | none =>
      refine ⟨_, rfl, ?_⟩
      rcases hphase with h | h | h <;> simp [NumberState.value?, h, digitsValue]
  | some e =>
      have hexp : NumberState.step ⟨fracPhase int frac, neg, int, frac, false, []⟩ (unit 'e') =
          some ⟨.exp, neg, int, frac, false, []⟩ := by
        rcases hphase with h | h | h <;> rw [h] <;> rfl
      have hsign : NumberState.step ⟨.exp, neg, int, frac, false, []⟩
          (if e < 0 then unit '-' else unit '+') =
          some ⟨.expSign, neg, int, frac, decide (e < 0), []⟩ := by
        by_cases h : e < 0
        · simp only [h, if_true, decide_true]
          rfl
        · simp only [h, if_false, decide_false]
          rfl
      obtain ⟨d, ds, hds⟩ := List.exists_cons_of_ne_nil (expDigits_ne_nil e.natAbs)
      refine ⟨⟨.expDigits, neg, int, frac, decide (e < 0), d :: ds⟩, ?_, ?_⟩
      · rw [JsNumber.expText, run_cons_of hexp, run_cons_of hsign, hds, List.map_cons,
          run_cons_of (by rw [NumberState.step, digit?_digitUnit]), run_expDigits]
        rfl
      · have hvalue := digitsValue_expDigits e.natAbs
        rw [hds] at hvalue
        by_cases h : e < 0
        · have he : -(e.natAbs : Int) = e := by omega
          simp [NumberState.value?, hvalue, h, abs_of_neg h]
        · have he : (e.natAbs : Int) = e := by omega
          simp [NumberState.value?, hvalue, h, abs_of_nonneg (not_lt.mp h)]

end NumberState

/-! ## Values -/

namespace ParseState

theorem run_number {n n' : NumberState} {text : JsString} (h : n.run text = some n')
    (stack : List Frame) : run ⟨.number n, stack⟩ text = some ⟨.number n', stack⟩ := by
  induction text generalizing n with
  | nil => simp_all
  | cons c text ih =>
      rw [NumberState.run, List.foldlM_cons, Option.bind_eq_bind, Option.bind_eq_some_iff] at h
      obtain ⟨m, hm, hrest⟩ := h
      have hstep : step ⟨.number n, stack⟩ c = some ⟨.number m, stack⟩ := by
        simp [step, hm]
      rw [run_cons_of hstep]
      exact ih hrest

/-- The state has read the value: it is complete, or a number literal that may end here. -/
def HasRead (s : ParseState) (v : Json) : Prop :=
  s.mode = .after v ∨ ∃ n x, s.mode = .number n ∧ n.value? = some x ∧ v = .num x

/-- The modes in which a value may start. -/
def StartsValue (mode : Mode) : Prop :=
  mode = .value ∨ mode = .arrayStart

theorem step_startsValue {mode : Mode} (hmode : StartsValue mode) (stack : List Frame)
    {c : CodeUnit} (hspace : isJsonSpace c = false) (hclose : c ≠ unit ']') :
    step ⟨mode, stack⟩ c = startValue stack c := by
  rcases hmode with rfl | rfl <;> simp [step, hspace, hclose]

theorem digitUnit_ne {d : Fin 10} {c : CodeUnit} (hc : c.val < 48 ∨ 58 ≤ c.val) :
    JsNumber.digitUnit d ≠ c := by
  intro h
  have hval := congrArg Fin.val h
  simp only [JsNumber.digitUnit] at hval
  omega

theorem startValue_digit (stack : List Frame) (d : Fin 10) :
    startValue stack (JsNumber.digitUnit d) =
      some ⟨.number ⟨if d = 0 then .zero else .int, false, [d], [], false, []⟩, stack⟩ := by
  rw [startValue, if_neg (digitUnit_ne (by decide)), if_neg (digitUnit_ne (by decide)),
    if_neg (digitUnit_ne (by decide)), if_neg (digitUnit_ne (by decide)),
    if_neg (digitUnit_ne (by decide)), if_neg (digitUnit_ne (by decide)),
    if_neg (digitUnit_ne (by decide)), NumberState.digit?_digitUnit]
  rfl

theorem isJsonSpace_digitUnit (d : Fin 10) : isJsonSpace (JsNumber.digitUnit d) = false := by
  fin_cases d <;> rfl

theorem run_toText {mode : Mode} (hmode : StartsValue mode) (stack : List Frame) (x : JsNumber) :
    ∃ s, run ⟨mode, stack⟩ x.toText = some s ∧ s.stack = stack ∧ HasRead s (.num x) := by
  obtain ⟨d, ds, hint⟩ := List.exists_cons_of_ne_nil x.layout_int_ne_nil
  have hlead := x.layout_int_leading
  rw [hint] at hlead
  -- the sign and the first digit leave the literal in its integer part
  have hstart : ∀ rest, run ⟨mode, stack⟩ ((if x.negative then [unit '-'] else []) ++
      (JsNumber.digitUnit d :: rest)) =
      run ⟨.number ⟨if d = 0 then .zero else .int, x.negative, [d], [], false, []⟩, stack⟩ rest := by
    intro rest
    cases hneg : x.negative with
    | false =>
        have hstep := (step_startsValue hmode stack (isJsonSpace_digitUnit d)
          (digitUnit_ne (by decide))).trans (startValue_digit stack d)
        simp [run_cons_of hstep]
    | true =>
        have hminus : step ⟨mode, stack⟩ (unit '-') =
            some ⟨.number ⟨.minus, true, [], [], false, []⟩, stack⟩ :=
          (step_startsValue hmode stack (by decide) (by decide)).trans rfl
        have hdigit : step ⟨.number ⟨.minus, true, [], [], false, []⟩, stack⟩
            (JsNumber.digitUnit d) =
            some ⟨.number ⟨if d = 0 then .zero else .int, true, [d], [], false, []⟩, stack⟩ := by
          simp [step, NumberState.step, NumberState.digit?_digitUnit]
        simp [run_cons_of hminus, run_cons_of hdigit]
  obtain ⟨n, hrun, hvalue⟩ :=
    NumberState.run_expText x.negative (d :: ds) x.layout.frac x.layout.exp
  have htext : NumberState.run ⟨if d = 0 then .zero else .int, x.negative, [d], [], false, []⟩
      (ds.map JsNumber.digitUnit ++ (JsNumber.fracText x.layout.frac ++
        JsNumber.expText x.layout.exp)) = some n := by
    rw [NumberState.run_append_of (NumberState.run_intTail hlead),
      NumberState.run_append_of (NumberState.run_fracText _ _ _), hrun]
  refine ⟨⟨.number n, stack⟩, ?_, rfl, Or.inr ⟨n, x, rfl, ?_, rfl⟩⟩
  · rw [JsNumber.toText, hint, List.map_cons, List.append_assoc, List.append_assoc,
      List.cons_append, hstart]
    exact run_number htext stack
  · rw [hvalue, ← hint, x.ofDigits_layout]

/-- After a value, a unit that cannot continue a number is read as if the value were complete. -/
theorem HasRead.step_eq {s : ParseState} {v : Json} (h : HasRead s v) {c : CodeUnit}
    (hc : c = unit ',' ∨ c = unit ']' ∨ c = unit '}') : s.step c = stepAfter v s.stack c := by
  obtain ⟨mode, stack⟩ := s
  rcases h with hmode | ⟨n, x, hmode, hx, rfl⟩
  · obtain rfl : mode = .after v := hmode
    rfl
  · obtain rfl : mode = .number n := hmode
    have hnone : n.step c = none := by
      obtain ⟨phase, negative, int, frac, expNegative, exp⟩ := n
      rcases hc with rfl | rfl | rfl <;> cases phase <;> rfl
    simp [step, hnone, hx]

theorem HasRead.finish_eq {s : ParseState} {v : Json} (h : HasRead s v) (hstack : s.stack = []) :
    s.finish = some v := by
  obtain ⟨mode, stack⟩ := s
  obtain rfl : stack = [] := hstack
  rcases h with hmode | ⟨n, x, hmode, hx, rfl⟩
  · obtain rfl : mode = .after v := hmode
    rfl
  · obtain rfl : mode = .number n := hmode
    simp [finish, hx]

/-- Running the text of a value from wherever a value may start reads that value. -/
def Reads (v : Json) : Prop :=
  ∀ mode stack, StartsValue mode →
    ∃ s, run ⟨mode, stack⟩ (stringify v) = some s ∧ s.stack = stack ∧ HasRead s v.settle

theorem reads_str (t : JsString) : Reads (.str t) := by
  intro mode stack hmode
  have hquote : step ⟨mode, stack⟩ (unit '"') = some ⟨.string none [] .none, stack⟩ :=
    (step_startsValue hmode stack (by decide) (by decide)).trans rfl
  refine ⟨⟨.after (.str t), stack⟩, ?_, rfl, Or.inl rfl⟩
  rw [stringify, quote, List.cons_append, run_cons_of hquote, run_quote_tail]
  rfl

/-- The items of an array after its first one, up to the closing bracket. -/
theorem run_itemsTail (items : List Json) (h : ∀ v ∈ items, Reads v) (done : List Json)
    (stack : List Frame) (s : ParseState) (last : Json) (hs : HasRead s last)
    (hstack : s.stack = .arr done :: stack) :
    s.run (stringify.itemsText false items ++ [unit ']']) =
      some ⟨.after (.arr (done ++ [last] ++ Json.settle.settleItems items)), stack⟩ := by
  induction items generalizing done s last with
  | nil =>
      have hstep : s.step (unit ']') = some ⟨.after (.arr (done ++ [last])), stack⟩ := by
        rw [hs.step_eq (Or.inr (Or.inl rfl)), hstack]
        rfl
      simp [stringify.itemsText, run_cons_of hstep, Json.settle.settleItems]
  | cons v items ih =>
      have hstep : s.step (unit ',') = some ⟨.value, .arr (done ++ [last]) :: stack⟩ := by
        rw [hs.step_eq (Or.inl rfl), hstack]
        rfl
      obtain ⟨s', hrun, hstack', hread⟩ := h v List.mem_cons_self .value
        (.arr (done ++ [last]) :: stack) (Or.inl rfl)
      have hrest := ih (fun w hw => h w (List.mem_cons_of_mem _ hw)) _ s' v.settle hread hstack'
      have htext : stringify.itemsText false (v :: items) ++ [unit ']'] =
          unit ',' :: (stringify v ++ (stringify.itemsText false items ++ [unit ']'])) := by
        simp [stringify.itemsText]
      rw [htext, run_cons_of hstep, run_append_of hrun, hrest]
      simp [Json.settle.settleItems]

theorem reads_arr (items : List Json) (h : ∀ v ∈ items, Reads v) : Reads (.arr items) := by
  intro mode stack hmode
  have hopen : step ⟨mode, stack⟩ (unit '[') = some ⟨.arrayStart, .arr [] :: stack⟩ :=
    (step_startsValue hmode stack (by decide) (by decide)).trans rfl
  refine ⟨⟨.after (Json.settle (.arr items)), stack⟩, ?_, rfl, Or.inl rfl⟩
  rw [stringify, List.cons_append, run_cons_of hopen]
  cases items with
  | nil => rfl
  | cons v items =>
      obtain ⟨s, hrun, hstack, hread⟩ := h v List.mem_cons_self .arrayStart (.arr [] :: stack)
        (Or.inr rfl)
      have hrest := run_itemsTail items (fun w hw => h w (List.mem_cons_of_mem _ hw)) [] stack s
        v.settle hread hstack
      simp only [stringify.itemsText, if_true, List.nil_append, List.append_assoc]
      rw [run_append_of hrun, hrest]
      simp [Json.settle, Json.settle.settleItems]

/-- One field, from just after the quotation mark that opens its key. -/
theorem run_field (fields : Fields) (key : JsString) (v : Json) (h : Reads v)
    (stack : List Frame) :
    ∃ s, run ⟨.string (some fields) [] .none, stack⟩
        (quoteUnits key ++ unit '"' :: unit ':' :: stringify v) = some s ∧
      s.stack = .obj fields key :: stack ∧ HasRead s v.settle := by
  obtain ⟨s, hrun, hstack, hread⟩ := h .value (.obj fields key :: stack) (Or.inl rfl)
  refine ⟨s, ?_, hstack, hread⟩
  have hkey := run_quote_tail (some fields) key stack
  have hcolon : step (endString (some fields) key stack) (unit ':') =
      some ⟨.value, .obj fields key :: stack⟩ := rfl
  rw [List.append_cons, run_append_of hkey, run_cons_of hcolon, hrun]

/-- The fields of an object after its first one, up to the closing brace. -/
theorem run_fieldsTail (fields : Fields) (h : ∀ f ∈ fields, Reads f.2) (done : Fields)
    (stack : List Frame) (s : ParseState) (key : JsString) (last : Json) (hs : HasRead s last)
    (hstack : s.stack = .obj done key :: stack) :
    s.run (stringify.fieldsText false fields ++ [unit '}']) =
      some ⟨.after (.obj (Json.settle.settleFields (Assoc.set done key last) fields)), stack⟩ := by
  induction fields generalizing done s key last with
  | nil =>
      have hstep : s.step (unit '}') = some ⟨.after (.obj (Assoc.set done key last)), stack⟩ := by
        rw [hs.step_eq (Or.inr (Or.inr rfl)), hstack]
        rfl
      simp [stringify.fieldsText, run_cons_of hstep, Json.settle.settleFields]
  | cons f fields ih =>
      obtain ⟨k, v⟩ := f
      have hstep : s.step (unit ',') = some ⟨.key (Assoc.set done key last), stack⟩ := by
        rw [hs.step_eq (Or.inl rfl), hstack]
        rfl
      have hopen : step ⟨.key (Assoc.set done key last), stack⟩ (unit '"') =
          some ⟨.string (some (Assoc.set done key last)) [] .none, stack⟩ := rfl
      obtain ⟨s', hrun, hstack', hread⟩ := run_field (Assoc.set done key last) k v
        (h (k, v) List.mem_cons_self) stack
      have hrest := ih (fun w hw => h w (List.mem_cons_of_mem _ hw)) _ s' k v.settle hread hstack'
      have htext : stringify.fieldsText false ((k, v) :: fields) ++ [unit '}'] =
          unit ',' :: unit '"' :: ((quoteUnits k ++ unit '"' :: unit ':' :: stringify v) ++
            (stringify.fieldsText false fields ++ [unit '}'])) := by
        simp [stringify.fieldsText, quote]
      rw [htext, run_cons_of hstep, run_cons_of hopen, run_append_of hrun, hrest]
      rfl

theorem reads_obj (fields : Fields) (h : ∀ f ∈ fields, Reads f.2) : Reads (.obj fields) := by
  intro mode stack hmode
  have hopen : step ⟨mode, stack⟩ (unit '{') = some ⟨.objectStart, stack⟩ :=
    (step_startsValue hmode stack (by decide) (by decide)).trans rfl
  refine ⟨⟨.after (Json.settle (.obj fields)), stack⟩, ?_, rfl, Or.inl rfl⟩
  rw [stringify, List.cons_append, run_cons_of hopen]
  cases fields with
  | nil => rfl
  | cons f fields =>
      obtain ⟨k, v⟩ := f
      have hquote : step ⟨.objectStart, stack⟩ (unit '"') =
          some ⟨.string (some []) [] .none, stack⟩ := rfl
      obtain ⟨s, hrun, hstack, hread⟩ := run_field [] k v (h (k, v) List.mem_cons_self) stack
      have hrest := run_fieldsTail fields (fun w hw => h w (List.mem_cons_of_mem _ hw)) [] stack s
        k v.settle hread hstack
      have htext : stringify.fieldsText true ((k, v) :: fields) ++ [unit '}'] =
          unit '"' :: ((quoteUnits k ++ unit '"' :: unit ':' :: stringify v) ++
            (stringify.fieldsText false fields ++ [unit '}'])) := by
        simp [stringify.fieldsText, quote]
      rw [htext, run_cons_of hquote, run_append_of hrun, hrest]
      rfl

theorem reads (v : Json) : Reads v := by
  induction v using Json.induct with
  | null =>
      intro mode stack hmode
      refine ⟨⟨.after .null, stack⟩, ?_, rfl, Or.inl rfl⟩
      rcases hmode with rfl | rfl <;> rfl
  | bool b =>
      intro mode stack hmode
      refine ⟨⟨.after (.bool b), stack⟩, ?_, rfl, Or.inl rfl⟩
      rcases hmode with rfl | rfl <;> cases b <;> rfl
  | num x => exact fun mode stack hmode => run_toText hmode stack x
  | str t => exact reads_str t
  | arr items ih => exact reads_arr items ih
  | obj fields ih => exact reads_obj fields ih

end ParseState

/-- What the printed text of a tree reads as. -/
theorem parse_stringify_settle (v : Json) : parse (stringify v) = some v.settle := by
  obtain ⟨s, hrun, hstack, hread⟩ := ParseState.reads v .value [] (Or.inl rfl)
  rw [parse, parseStart, hrun, Option.bind_some, hread.finish_eq hstack]

/-- Parsing the printed text of a value gives the value back. -/
theorem parse_stringify {v : Json} (hv : v.WellFormed) : parse (stringify v) = some v := by
  rw [parse_stringify_settle, Json.settle_of_wellFormed hv]

/-! ## Prefixes -/

namespace ParseState

/-- Outside every array and object only white space follows a complete value. -/
theorem isJsonSpace_of_run_after {v : Json} {text : JsString} {s : ParseState}
    (h : run ⟨.after v, []⟩ text = some s) : ∀ c ∈ text, isJsonSpace c = true := by
  induction text with
  | nil => simp
  | cons c text ih =>
      rw [run_cons, Option.bind_eq_some_iff] at h
      obtain ⟨s', hstep, hrest⟩ := h
      have hc : isJsonSpace c = true := by
        by_contra hc
        simp [step, stepAfter, hc] at hstep
      have hs' : s' = ⟨.after v, []⟩ := by
        simpa [step, stepAfter, hc] using hstep.symm
      rw [hs'] at hrest
      intro d hd
      rcases List.mem_cons.mp hd with rfl | hd
      · exact hc
      · exact ih hrest d hd

/-- A value other than a number has begun, or an array or object is open. -/
def committed (s : ParseState) : Bool :=
  match s.mode, s.stack with
  | .value, [] => false
  | .arrayStart, [] => false
  | .number _, [] => false
  | _, _ => true

theorem committed_of_stack {s : ParseState} (h : s.stack ≠ []) : s.committed = true := by
  obtain ⟨mode, stack⟩ := s
  cases stack with
  | nil => exact absurd rfl h
  | cons frame stack => cases mode <;> rfl

theorem committed_stepAfter {v : Json} {stack : List Frame} {c : CodeUnit} {s : ParseState}
    (h : stepAfter v stack c = some s) : s.committed = true := by
  unfold stepAfter at h
  by_cases hspace : isJsonSpace c
  · rw [if_pos hspace] at h
    obtain rfl := Option.some.inj h
    rfl
  · rw [if_neg hspace] at h
    cases stack with
    | nil => cases h
    | cons frame stack =>
        cases frame with
        | arr items =>
            simp only at h
            split_ifs at h <;> obtain rfl := Option.some.inj h <;> rfl
        | obj fields key =>
            simp only at h
            split_ifs at h <;> obtain rfl := Option.some.inj h <;> rfl

theorem committed_stepString {fields : Option Fields} {text : JsString} {e : Escape}
    {stack : List Frame} {c : CodeUnit} {s : ParseState}
    (h : stepString fields text e stack c = some s) : s.committed = true := by
  unfold stepString endString at h
  split at h
  · split_ifs at h
    · split at h <;> obtain rfl := Option.some.inj h <;> rfl
    · obtain rfl := Option.some.inj h
      rfl
    · obtain rfl := Option.some.inj h
      rfl
  · split_ifs at h
    · obtain rfl := Option.some.inj h
      rfl
    · obtain ⟨u, -, rfl⟩ := Option.map_eq_some_iff.mp h
      rfl
  · obtain ⟨d, -, rfl⟩ := Option.map_eq_some_iff.mp h
    split_ifs <;> rfl

theorem startValue_stack {stack : List Frame} {c : CodeUnit} {s : ParseState}
    (h : startValue stack c = some s) (hstack : stack ≠ []) : s.stack ≠ [] := by
  unfold startValue at h
  split_ifs at h
  all_goals first
    | (obtain rfl := Option.some.inj h; simp [hstack])
    | (obtain ⟨d, -, rfl⟩ := Option.map_eq_some_iff.mp h; simp [hstack])

theorem committed_step {s s' : ParseState} {c : CodeUnit} (hs : s.committed = true)
    (h : s.step c = some s') : s'.committed = true := by
  obtain ⟨mode, stack⟩ := s
  cases mode with
  | value =>
      have hstack : stack ≠ [] := by
        rintro rfl
        cases hs
      simp only [step] at h
      split_ifs at h
      · obtain rfl := Option.some.inj h
        exact hs
      · exact committed_of_stack (startValue_stack h hstack)
  | arrayStart =>
      have hstack : stack ≠ [] := by
        rintro rfl
        cases hs
      simp only [step] at h
      split_ifs at h
      · obtain rfl := Option.some.inj h
        exact hs
      · split at h
        · obtain rfl := Option.some.inj h
          rfl
        · cases h
      · exact committed_of_stack (startValue_stack h hstack)
  | objectStart =>
      simp only [step] at h
      split_ifs at h <;> obtain rfl := Option.some.inj h <;> rfl
  | key fields =>
      simp only [step] at h
      split_ifs at h <;> obtain rfl := Option.some.inj h <;> rfl
  | string fields text e => exact committed_stepString h
  | colon fields key =>
      simp only [step] at h
      split_ifs at h <;> obtain rfl := Option.some.inj h <;> rfl
  | number n =>
      have hstack : stack ≠ [] := by
        rintro rfl
        cases hs
      simp only [step] at h
      split at h
      · obtain rfl := Option.some.inj h
        exact committed_of_stack hstack
      · split at h
        · exact committed_stepAfter h
        · cases h
  | literal l read =>
      simp only [step] at h
      split_ifs at h <;> obtain rfl := Option.some.inj h <;> rfl
  | after v => exact committed_stepAfter h

theorem committed_run {s s' : ParseState} {text : JsString} (hs : s.committed = true)
    (h : s.run text = some s') : s'.committed = true := by
  induction text generalizing s with
  | nil =>
      obtain rfl := Option.some.inj h
      exact hs
  | cons c text ih =>
      rw [run_cons, Option.bind_eq_some_iff] at h
      obtain ⟨m, hstep, hrest⟩ := h
      exact ih (committed_step hs hstep) hrest

theorem mode_of_finish {s : ParseState} {v : Json} (hs : s.committed = true)
    (h : s.finish = some v) : s = ⟨.after v, []⟩ := by
  obtain ⟨mode, stack⟩ := s
  unfold finish at h
  split at h
  · simp_all
  · simp_all [committed]
  · cases h

end ParseState

/-- The text of a value that is no number: its first unit commits the parser to that value, and
its last one is not white space. -/
theorem stringify_ends {v : Json} (hv : v.isNumber = false) :
    (∃ c rest s, stringify v = c :: rest ∧ parseStart.step c = some s ∧ s.committed = true) ∧
      ∃ init c, stringify v = init ++ [c] ∧ isJsonSpace c = false := by
  cases v with
  | null => exact ⟨⟨_, _, _, rfl, rfl, rfl⟩, js "nul", unit 'l', rfl, rfl⟩
  | bool b =>
      cases b with
      | true => exact ⟨⟨_, _, _, rfl, rfl, rfl⟩, js "tru", unit 'e', rfl, rfl⟩
      | false => exact ⟨⟨_, _, _, rfl, rfl, rfl⟩, js "fals", unit 'e', rfl, rfl⟩
  | num n => cases hv
  | str s => exact ⟨⟨_, _, _, rfl, rfl, rfl⟩, unit '"' :: quoteUnits s, unit '"', rfl, rfl⟩
  | arr items =>
      exact ⟨⟨_, _, _, rfl, rfl, rfl⟩, unit '[' :: stringify.itemsText true items, unit ']', rfl, rfl⟩
  | obj fields =>
      exact ⟨⟨_, _, _, rfl, rfl, rfl⟩, unit '{' :: stringify.fieldsText true fields, unit '}', rfl,
        rfl⟩

/-- No proper prefix of the text of a non-number value parses. -/
theorem parse_none_of_cut {v : Json} (hnum : v.isNumber = false)
    {before rest : JsString} {c : CodeUnit} (h : stringify v = before ++ c :: rest) :
    parse before = none := by
  obtain ⟨s, hrun, -, -⟩ := ParseState.reads v .value [] (Or.inl rfl)
  obtain ⟨⟨first, text, s₁, htext, hstep, hcommitted⟩, init, last, hlast, hspace⟩ :=
    stringify_ends hnum
  by_contra hsome
  obtain ⟨w, hw⟩ := Option.ne_none_iff_exists'.mp hsome
  rw [parse, Option.bind_eq_some_iff] at hw
  obtain ⟨s₂, hbefore, hfinish⟩ := hw
  -- the first unit already commits the parser, so the prefix ends after a complete value
  have hs₂ : s₂.committed = true := by
    cases before with
    | nil =>
        obtain rfl := Option.some.inj hbefore
        cases hfinish
    | cons d before =>
        obtain ⟨rfl, -⟩ := List.cons.inj (htext.symm.trans h)
        rw [ParseState.run_cons_of hstep] at hbefore
        exact ParseState.committed_run hcommitted hbefore
  have hs₂' := ParseState.mode_of_finish hs₂ hfinish
  -- and then only white space may follow, which the text does not end in
  rw [h, show (⟨.value, []⟩ : ParseState) = parseStart from rfl,
    ParseState.run_append_of hbefore, hs₂'] at hrun
  have hmem : last ∈ c :: rest := by
    have heq : before ++ c :: rest = init ++ [last] := h.symm.trans hlast
    have hget := congrArg List.getLast? heq
    rw [List.getLast?_append_cons, List.getLast?_concat] at hget
    exact List.mem_of_getLast? hget
  exact absurd (ParseState.isJsonSpace_of_run_after hrun last hmem) (by simp [hspace])

namespace ParseState

/-- A unit outside ASCII occurs in a JSON text only inside a string literal. -/
theorem step_nonAscii {s s' : ParseState} {c : CodeUnit} (hc : 0x80 ≤ c.val)
    (h : s.step c = some s') :
    ∃ fields text, s.mode = .string fields text .none := by
  have hne : ∀ d : CodeUnit, d.val < 0x80 → c ≠ d := by
    rintro d hd rfl
    omega
  have hspace : isJsonSpace c = false := by
    simp only [isJsonSpace, List.mem_cons, List.not_mem_nil, or_false, decide_eq_false_iff_not]
    omega
  have hdigit : digit? c = none := dif_neg (by omega)
  have hhex : hexDigit? c = none := by
    rw [hexDigit?, if_neg (by omega), if_neg (by omega), if_neg (by omega)]
  have hstart : ∀ stack, startValue stack c = none := by
    intro stack
    simp [startValue, hne _ (show (unit '"').val < 0x80 by decide),
      hne _ (show (unit '[').val < 0x80 by decide), hne _ (show (unit '{').val < 0x80 by decide),
      hne _ (show (unit 't').val < 0x80 by decide), hne _ (show (unit 'f').val < 0x80 by decide),
      hne _ (show (unit 'n').val < 0x80 by decide), hne _ (show (unit '-').val < 0x80 by decide),
      hdigit]
  have hafter : ∀ v stack, stepAfter v stack c = none := by
    intro v stack
    simp only [stepAfter, hspace, Bool.false_eq_true, if_false]
    split
    · rw [if_neg (hne _ (by decide)), if_neg (hne _ (by decide))]
    · rw [if_neg (hne _ (by decide)), if_neg (hne _ (by decide))]
    · rfl
  obtain ⟨mode, stack⟩ := s
  -- every mode but the plain inside of a string refuses the unit
  cases mode with
  | string fields text e =>
      cases e with
      | none => exact ⟨fields, text, rfl⟩
      | slash =>
          rw [step_string, stepString, if_neg (hne _ (by decide)), simpleEscape?,
            if_neg (hne _ (by decide)), if_neg (hne _ (by decide)), if_neg (hne _ (by decide)),
            if_neg (hne _ (by decide)), if_neg (hne _ (by decide)), if_neg (hne _ (by decide)),
            if_neg (hne _ (by decide)), if_neg (hne _ (by decide))] at h
          cases h
      | hex read value =>
          rw [step_string, stepString, hhex] at h
          cases h
  | number n =>
      have hnone : n.step c = none := by
        obtain ⟨phase, negative, int, frac, expNegative, exp⟩ := n
        cases phase <;> simp [NumberState.step, hdigit, hne _ (show (unit '.').val < 0x80 by decide),
          hne _ (show (unit 'e').val < 0x80 by decide), hne _ (show (unit 'E').val < 0x80 by decide),
          hne _ (show (unit '-').val < 0x80 by decide), hne _ (show (unit '+').val < 0x80 by decide)]
      simp only [step, hnone] at h
      split at h
      · simp [hafter] at h
      · cases h
  | value => simp [step, hspace, hstart] at h
  | arrayStart => simp [step, hspace, hstart, hne _ (show (unit ']').val < 0x80 by decide)] at h
  | objectStart =>
      simp [step, hspace, hne _ (show (unit '}').val < 0x80 by decide),
        hne _ (show (unit '"').val < 0x80 by decide)] at h
  | key fields => simp [step, hspace, hne _ (show (unit '"').val < 0x80 by decide)] at h
  | colon fields key => simp [step, hspace, hne _ (show (unit ':').val < 0x80 by decide)] at h
  | literal l read =>
      simp only [step] at h
      split_ifs at h with hread
      all_goals
        have hmem := List.mem_of_getElem? hread
        have hascii : l.text.all (fun d => decide (d.val < 0x80)) = true := by
          cases l <;> decide
        have hlt := of_decide_eq_true (List.all_eq_true.mp hascii c hmem)
        omega
  | after v => simp [step, hafter] at h

end ParseState

/-- A prefix of a text that stops before a non-ASCII unit does not parse when another non-ASCII
unit takes that place at the end. -/
theorem parse_concat_replacement {v : Json} {before rest : JsString}
    {c d : CodeUnit} (h : stringify v = before ++ c :: rest) (hc : 0x80 ≤ c.val)
    (hd : 0x80 ≤ d.val) : parse (before ++ [d]) = none := by
  obtain ⟨s, hrun, -, -⟩ := ParseState.reads v .value [] (Or.inl rfl)
  rw [h, ParseState.run_append, Option.bind_eq_some_iff] at hrun
  obtain ⟨s₁, hbefore, hrest⟩ := hrun
  rw [ParseState.run_cons, Option.bind_eq_some_iff] at hrest
  obtain ⟨s₂, hstep, -⟩ := hrest
  obtain ⟨fields, text, hmode⟩ := ParseState.step_nonAscii hc hstep
  obtain ⟨mode, stack⟩ := s₁
  obtain rfl : mode = .string fields text .none := hmode
  have hplain : ParseState.step ⟨.string fields text .none, stack⟩ d =
      some ⟨.string fields (text ++ [d]) .none, stack⟩ :=
    ParseState.step_plain (by omega) (by omega) (by omega)
  rw [parse, parseStart, ParseState.run_append_of hbefore, ParseState.run_cons_of hplain]
  rfl

end Js
end ObjyDb
