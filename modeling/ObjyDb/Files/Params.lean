import ObjyDb.Files.Multipart

/-!
# Params — the parameters of a part's disposition

A `Content-Disposition` value is `form-data` and parameters in any order, quoted or as tokens.  The
reader searches for the characters `name="`, so the first quoted parameter whose key ends in `name`
answers for the part's name, whatever its whole key is.

* `declaredName` — the value of the parameter `name`;
* `carriedName` — the value of the parameter that the search stops at;
* `dispositionParam_name` — the reader takes a name exactly when that parameter carries it.
-/

namespace ObjyDb
namespace Multipart

open Js Search

/-! ## Searching for a quote -/

theorem quotedAfter_skip {pat before text : JsString}
    (h : ∀ i < before.length, ¬ pat <+: before.drop i ++ text) :
    quotedAfter pat (before ++ text) = quotedAfter pat text := by
  induction before with
  | nil => rfl
  | cons c before ih =>
      have hhead : ¬ pat <+: c :: (before ++ text) := by
        simpa using h 0 (by simp)
      have htail : ∀ i < before.length, ¬ pat <+: before.drop i ++ text := by
        intro i hi
        simpa using h (i + 1) (by simpa using hi)
      rw [List.cons_append, quotedAfter, if_neg (fun hc => hhead hc.1), ih htail]

theorem takeWhile_quote {value : JsString} (h : unit '"' ∉ value) (rest : JsString) :
    (value ++ unit '"' :: rest).takeWhile (· ≠ unit '"') = value := by
  induction value with
  | nil => simp
  | cons c value ih =>
      have hc : c ≠ unit '"' := fun hc => h (hc ▸ List.mem_cons_self)
      have hrest : unit '"' ∉ value := fun hm => h (List.mem_cons_of_mem _ hm)
      rw [List.cons_append, List.takeWhile_cons_of_pos (by simpa using hc), ih hrest]

theorem quotedAfter_noQuote {pat text : JsString} (h : unit '"' ∉ text) :
    quotedAfter pat text = none := by
  induction text with
  | nil => rfl
  | cons c rest ih =>
      have hmem : unit '"' ∉ (c :: rest).drop pat.length :=
        fun hm => h (List.mem_of_mem_drop hm)
      rw [quotedAfter, if_neg (fun hc => hmem hc.2)]
      exact ih (fun hm => h (List.mem_cons_of_mem _ hm))

theorem drop_pattern (core rest : JsString) :
    (core ++ unit '"' :: rest).drop (core ++ [unit '"']).length = rest := by
  have happend : core ++ unit '"' :: rest = core ++ [unit '"'] ++ rest := by simp
  rw [happend, List.drop_left]

section

variable {core : JsString} (hquote : unit '"' ∉ core)

include hquote

/-- The pattern begins in a text without quotes only where its characters before the quote are the
end of that text. -/
theorem prefix_before_quote {before rest : JsString} (hbefore : unit '"' ∉ before) :
    core ++ [unit '"'] <+: before ++ unit '"' :: rest ↔ core = before := by
  constructor
  · rintro ⟨tail, htail⟩
    have htake := congrArg (List.takeWhile (· ≠ unit '"')) htail
    rwa [List.append_assoc, List.singleton_append, takeWhile_quote hquote,
      takeWhile_quote hbefore] at htake
  · rintro rfl
    exact ⟨rest, by simp⟩

theorem quotedAfter_skip_quote {before : JsString} (hbefore : unit '"' ∉ before)
    (hne : core ≠ []) (hsuffix : ¬ core <:+ before) (rest : JsString) :
    quotedAfter (core ++ [unit '"']) (before ++ unit '"' :: rest) =
      quotedAfter (core ++ [unit '"']) rest := by
  have hhead : ¬ core ++ [unit '"'] <+: unit '"' :: rest := by
    intro hbegins
    exact hne ((prefix_before_quote hquote List.not_mem_nil).mp hbegins)
  rw [quotedAfter_skip, quotedAfter, if_neg (fun hc => hhead hc.1)]
  intro i hi hbegins
  have hdrop : unit '"' ∉ before.drop i := fun hm => hbefore (List.mem_of_mem_drop hm)
  rw [prefix_before_quote hquote hdrop] at hbegins
  exact hsuffix (hbegins ▸ List.drop_suffix i before)

/-- A single quote ends no value. -/
theorem quotedAfter_lastQuote {before rest : JsString} (hbefore : unit '"' ∉ before)
    (hrest : unit '"' ∉ rest) :
    quotedAfter (core ++ [unit '"']) (before ++ unit '"' :: rest) = none := by
  induction before with
  | nil =>
      rw [List.nil_append, quotedAfter, quotedAfter_noQuote hrest, if_neg]
      rintro ⟨hbegins, hmem⟩
      have hcore := (prefix_before_quote hquote List.not_mem_nil).mp hbegins
      rw [hcore] at hmem
      exact hrest (by simpa using hmem)
  | cons c before ih =>
      rw [List.cons_append, quotedAfter, ih (fun hm => hbefore (List.mem_cons_of_mem _ hm)), if_neg]
      rintro ⟨hbegins, hmem⟩
      have hcore := (prefix_before_quote hquote hbefore).mp hbegins
      rw [← List.cons_append, ← hcore, drop_pattern] at hmem
      exact hrest hmem

/-- The first place where the pattern stands, with or without a closing quote behind it. -/
theorem quotedAfter_found {before : JsString} (hbefore : unit '"' ∉ before)
    (hsuffix : core <:+ before) (rest : JsString) :
    quotedAfter (core ++ [unit '"']) (before ++ unit '"' :: rest) =
      if unit '"' ∈ rest then some (rest.takeWhile (· ≠ unit '"')) else none := by
  by_cases hrest : unit '"' ∈ rest
  · rcases hsuffix with ⟨front, rfl⟩
    have hskip : quotedAfter (core ++ [unit '"']) (front ++ (core ++ unit '"' :: rest)) =
        quotedAfter (core ++ [unit '"']) (core ++ unit '"' :: rest) := by
      refine quotedAfter_skip (fun i hi hbegins => ?_)
      have hdrop : unit '"' ∉ front.drop i ++ core := fun hm => hbefore (by
        rcases List.mem_append.mp hm with hm | hm
        · exact List.mem_append_left _ (List.mem_of_mem_drop hm)
        · exact List.mem_append_right _ hm)
      rw [← List.append_assoc, prefix_before_quote hquote hdrop] at hbegins
      have hlen := congrArg List.length hbegins
      simp only [List.length_append, List.length_drop] at hlen
      omega
    have hbegins : core ++ [unit '"'] <+: core ++ unit '"' :: rest := ⟨rest, by simp⟩
    have hdrop := drop_pattern core rest
    rw [List.append_assoc, hskip, if_pos hrest]
    cases hcore : core ++ unit '"' :: rest with
    | nil => simp at hcore
    | cons c text =>
        rw [hcore] at hbegins hdrop
        rw [quotedAfter, hdrop, if_pos ⟨hbegins, hrest⟩]
  · rw [if_neg hrest]
    exact quotedAfter_lastQuote hquote hbefore hrest

end

/-- A stretch without quotes that ends before a semicolon. -/
theorem quotedAfter_skip_semicolon {core before rest : JsString} (hbefore : unit '"' ∉ before)
    (hsemicolon : unit ';' ∉ core) (hrest : ∀ c ∈ rest.head?, c = unit ';') :
    quotedAfter (core ++ [unit '"']) (before ++ rest) =
      quotedAfter (core ++ [unit '"']) rest := by
  refine quotedAfter_skip (fun i hi hbegins => ?_)
  have hmem : unit '"' ∉ before.drop i := fun hm => hbefore (List.mem_of_mem_drop hm)
  have hquoteMem : unit '"' ∈ core ++ [unit '"'] := by simp
  rcases List.prefix_or_prefix_of_prefix hbegins (List.prefix_append _ rest) with hin | hover
  · exact hmem (hin.subset hquoteMem)
  · -- the pattern reaches over the stretch, so it holds the semicolon
    rcases hover with ⟨extra, hover⟩
    rw [← hover, List.prefix_append_right_inj] at hbegins
    cases extra with
    | nil =>
        rw [List.append_nil] at hover
        exact hmem (hover ▸ hquoteMem)
    | cons c extra =>
        cases rest with
        | nil => simp at hbegins
        | cons d rest =>
            have hd : d = unit ';' := hrest d rfl
            have hc : c = unit ';' := (List.cons_prefix_cons.mp hbegins).1.trans hd
            have hin : unit ';' ∈ core ++ [unit '"'] := by
              rw [← hover, hc]
              simp
            rcases List.mem_append.mp hin with hin | hin
            · exact hsemicolon hin
            · exact absurd (List.mem_singleton.mp hin) (by decide)

/-! ## Parameters -/

/-- A parameter as it is written: white space, the key, and the value in quotes or as a token. -/
structure Param where
  space : JsString
  key : JsString
  value : JsString
  quoted : Bool
  deriving DecidableEq

def Param.lead (p : Param) : JsString :=
  unit ';' :: p.space ++ p.key ++ [unit '=']

def Param.text (p : Param) : JsString :=
  p.lead ++ if p.quoted then unit '"' :: p.value ++ [unit '"'] else p.value

def paramsText (params : List Param) : JsString :=
  params.flatMap Param.text

def dispositionText (params : List Param) : JsString :=
  js "form-data" ++ paramsText params

/-- Units that end a token. -/
def isTokenEnd (u : CodeUnit) : Bool :=
  u ∈ [unit ' ', unit '\t', unit ';', unit '"', unit '=']

structure Param.WellFormed (p : Param) : Prop where
  space : ∀ u ∈ p.space, u = unit ' ' ∨ u = unit '\t'
  key : ∀ u ∈ p.key, isTokenEnd u = false
  value : unit '"' ∉ p.value
  token : p.quoted = false → ∀ u ∈ p.value, isTokenEnd u = false

/-- The name that the parameters give, by the parameter whose key is `name` in any letters. -/
def declaredName (params : List Param) : Option JsString :=
  (params.find? (fun p => toLowerCase p.key = js "name")).map Param.value

/-- The search for `name="` stops at this parameter. -/
def Param.stops (p : Param) : Bool :=
  p.quoted && (decide (js "name" <:+ p.key) || decide (js "name=" <:+ p.value))

/-- The value of the parameter that the search stops at, when it stops at its key. -/
def carriedName (params : List Param) : Option JsString :=
  match params.find? Param.stops with
  | some p => if js "name" <:+ p.key then some p.value else none
  | none => none

theorem carriedName_cons {p : Param} (h : p.stops = false) (params : List Param) :
    carriedName (p :: params) = carriedName params := by
  rw [carriedName, carriedName, List.find?_cons_of_neg (by simp [h])]

/-! ## What the search finds -/

theorem quote_notMem_lead {p : Param} (hp : p.WellFormed) : unit '"' ∉ p.lead := by
  have hend : isTokenEnd (unit '"') = true := by decide
  intro hmem
  simp only [Param.lead, List.mem_append, List.mem_cons, List.not_mem_nil, or_false] at hmem
  rcases hmem with (hmem | hmem) | hmem
  · rcases hmem with hmem | hmem
    · exact absurd hmem (by decide)
    · rcases hp.space _ hmem with h | h
      all_goals exact absurd h (by decide)
  · rw [hp.key _ hmem] at hend
    cases hend
  · exact absurd hmem (by decide)

/-- The key is all of the lead that can end in `name`. -/
theorem suffix_lead_iff {p : Param} (hp : p.WellFormed) :
    js "name=" <:+ p.lead ↔ js "name" <:+ p.key := by
  have hname : js "name=" = js "name" ++ [unit '='] := by decide
  have hlead : p.lead = (unit ';' :: p.space) ++ p.key ++ [unit '='] := rfl
  rw [hname, hlead, List.suffix_append_self_iff]
  constructor
  · intro h
    rcases List.suffix_or_suffix_of_suffix h (List.suffix_append _ p.key) with hin | ⟨front, hfront⟩
    · exact hin
    · -- what `name` has in front of the key would be white space or the semicolon
      rcases h with ⟨rest, hrest⟩
      rw [← hfront, ← List.append_assoc, List.append_left_inj] at hrest
      cases front with
      | nil => exact ⟨[], by simpa using hfront.symm⟩
      | cons c front =>
          have hname : c ∈ js "name" := by
            rw [← hfront]
            simp
          have hlead : c ∈ unit ';' :: p.space := by
            rw [← hrest]
            simp
          have hspace : c = unit ';' ∨ c = unit ' ' ∨ c = unit '\t' := by
            rcases List.mem_cons.mp hlead with hc | hc
            · exact Or.inl hc
            · exact Or.inr (hp.space c hc)
          rcases hspace with rfl | rfl | rfl
          all_goals exact absurd hname (by decide)
  · exact fun h => h.trans (List.suffix_append _ _)

theorem paramsText_cons (p : Param) (params : List Param) :
    paramsText (p :: params) = p.text ++ paramsText params := rfl

theorem head_paramsText (params : List Param) : ∀ c ∈ (paramsText params).head?, c = unit ';' := by
  intro c hc
  cases params with
  | nil => cases hc
  | cons p params =>
      cases hc
      rfl

/-- What the search finds after a closing quote is no name: it begins with a semicolon. -/
theorem quotedAfter_between {params : List Param} {n : JsString} (hn : n.head? ≠ some (unit ';'))
    (hne : n ≠ []) :
    (if unit '"' ∈ paramsText params then
      some ((paramsText params).takeWhile (· ≠ unit '"')) else none) ≠ some n := by
  intro h
  split at h
  · have htake := Option.some.inj h
    cases htext : paramsText params with
    | nil =>
        rw [htext] at htake
        exact hne htake.symm
    | cons c rest =>
        have hc : c = unit ';' := head_paramsText params c (by rw [htext]; rfl)
        rw [htext, hc, List.takeWhile_cons_of_pos (by decide)] at htake
        exact hn (by rw [← htake]; rfl)
  · cases h

/-- The reader takes `n` for the part's name exactly when the parameter that the search stops at
carries it. -/
theorem quotedAfter_paramsText {params : List Param} (hparams : ∀ p ∈ params, p.WellFormed)
    {n : JsString} (hn : n.head? ≠ some (unit ';')) (hne : n ≠ []) :
    quotedAfter (js "name=" ++ [unit '"']) (paramsText params) = some n ↔
      carriedName params = some n := by
  have hcore : unit '"' ∉ js "name=" := by decide
  have hcoreNe : js "name=" ≠ [] := by decide
  have hsemicolon : unit ';' ∉ js "name=" := by decide
  induction params with
  | nil => simp [paramsText, quotedAfter, carriedName]
  | cons p params ih =>
      have hp := hparams p List.mem_cons_self
      have hrest := ih (fun q hq => hparams q (List.mem_cons_of_mem _ hq))
      have hlead := quote_notMem_lead hp
      rw [paramsText_cons]
      cases hquoted : p.quoted with
      | false =>
          have htext : p.text = p.lead ++ p.value := by simp [Param.text, hquoted]
          have hvalue : unit '"' ∉ p.text := by
            rw [htext, List.mem_append, not_or]
            exact ⟨hlead, hp.value⟩
          have hstops : p.stops = false := by simp [Param.stops, hquoted]
          rw [quotedAfter_skip_semicolon hvalue hsemicolon (head_paramsText params),
            carriedName_cons hstops]
          exact hrest
      | true =>
          have htext : p.text ++ paramsText params =
              p.lead ++ unit '"' :: (p.value ++ unit '"' :: paramsText params) := by
            simp [Param.text, hquoted]
          rw [htext]
          by_cases hkey : js "name" <:+ p.key
          · have hstops : p.stops = true := by simp [Param.stops, hquoted, hkey]
            rw [quotedAfter_found hcore hlead ((suffix_lead_iff hp).mpr hkey), if_pos (by simp),
              takeWhile_quote hp.value, carriedName, List.find?_cons_of_pos hstops]
            simp [hkey]
          · rw [quotedAfter_skip_quote hcore hlead hcoreNe (fun h => hkey ((suffix_lead_iff hp).mp h))]
            by_cases hvalue : js "name=" <:+ p.value
            · have hstops : p.stops = true := by simp [Param.stops, hquoted, hvalue]
              rw [quotedAfter_found hcore hp.value hvalue, carriedName,
                List.find?_cons_of_pos hstops]
              simp only [hkey, if_false]
              constructor
              · exact fun h => absurd h (quotedAfter_between hn hne)
              · intro h
                cases h
            · have hstops : p.stops = false := by simp [Param.stops, hkey, hvalue]
              rw [quotedAfter_skip_quote hcore hp.value hcoreNe hvalue, carriedName_cons hstops]
              exact hrest

/-- The same for the whole header value. -/
theorem dispositionParam_name {params : List Param} (hparams : ∀ p ∈ params, p.WellFormed)
    {n : JsString} (hn : n.head? ≠ some (unit ';')) (hne : n ≠ []) :
    dispositionParam (some (dispositionText params)) (js "name") = some n ↔
      carriedName params = some n := by
  have hpattern : js "name" ++ js "=\"" = js "name=" ++ [unit '"'] := by decide
  have hform : unit '"' ∉ js "form-data" := by decide
  rw [← quotedAfter_paramsText hparams hn hne, dispositionParam, Option.bind_some, hpattern,
    dispositionText, quotedAfter_skip_semicolon hform (by decide) (head_paramsText params)]

end Multipart
end ObjyDb
