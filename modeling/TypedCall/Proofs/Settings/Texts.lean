import TypedCall.Proofs.Config.Variables
import TypedCall.Proofs.Json.Numbers
import TypedCall.Proofs.Text.Lowercase
import TypedCall.Settings.Basic

/-!
# Texts from the environment

A text setting that is taken from the environment is first read as a boolean or a number and then
written out again, so it may differ from the text of the variable. What is written for a boolean or
a number (`IsLiteral`) is neither blank nor the name of a level. So a level is always the text of
the variable, and a variable is blank when the setting is.
-/

namespace TypedCall.Settings

open Config (variableDatum ofVariable)

/-- The text that a variable gives to a setting. -/
def variableText (text : String) : String :=
  match variableDatum text with
  | .text s => s
  | .bool b => if b then "true" else "false"
  | .integer i => toString i
  | .double x => NumberLayout.plain.dataText x
  | .nil => ""

/-- No text of a variable is read as a missing value. -/
theorem variableDatum_ne_nil (text : String) : variableDatum text ≠ .nil := by
  rw [variableDatum]
  intro h
  repeat' split at h
  all_goals cases h

/-- A text can always be read from a variable. -/
theorem readText_ofVariable (key text : String) :
    readText key (ofVariable text) = .ok (variableText text) := by
  rw [ofVariable, variableText]
  cases h : variableDatum text with
  | nil => exact absurd h (variableDatum_ne_nil text)
  | _ => rfl

/-! ## Literals -/

/-- The codes of the characters that a written number begins with: the sign and the digits. -/
def numberCodes : List Nat := [45, 48, 49, 50, 51, 52, 53, 54, 55, 56, 57]

/-- The text of a boolean or a number. -/
def IsLiteral (s : String) : Prop :=
  s ∈ ["true", "false", "inf", "NaN"] ∨ ∃ c cs, s.toList = c :: cs ∧ c.toNat ∈ numberCodes

theorem mem_numberCodes_of_isDigit {c : Char} (hc : c.isDigit = true) : c.toNat ∈ numberCodes := by
  simp only [Char.isDigit, Bool.and_eq_true, decide_eq_true_eq] at hc
  have hlow : 48 ≤ c.toNat := hc.1
  have hhigh : c.toNat ≤ 57 := hc.2
  simp only [numberCodes, List.mem_cons, List.not_mem_nil, or_false]
  omega

/-- What begins a number is no blank, no capital letter, and begins no level. -/
theorem number_facts {c : Char} (h : c.toNat ∈ numberCodes) :
    Text.isBlankChar c = false ∧ c ≠ 'Σ' ∧ Text.lowercaseChar c = [c] ∧
      ∀ level ∈ logLevels, level.toList.head? ≠ some c := by
  have hall : ∀ n ∈ numberCodes, Text.isBlankChar (Char.ofNat n) = false ∧ Char.ofNat n ≠ 'Σ' ∧
      Text.lowercaseChar (Char.ofNat n) = [Char.ofNat n] ∧
      ∀ level ∈ logLevels, level.toList.head? ≠ some (Char.ofNat n) := by decide +kernel
  have hc := hall c.toNat h
  rwa [Char.ofNat_toNat] at hc

/-- The digits of a number, and what follows them. -/
theorem isLiteral_digits {ds : List Char} (rest : List Char) (hds : ∀ c ∈ ds, c.isDigit = true)
    (hne : ds ≠ []) : IsLiteral (String.ofList (ds ++ rest)) := by
  obtain ⟨c, cs, rfl⟩ := List.exists_cons_of_ne_nil hne
  exact .inr ⟨c, cs ++ rest, by simp, mem_numberCodes_of_isDigit (hds c List.mem_cons_self)⟩

/-- An integer is written as a literal, with or without a sign. -/
theorem isLiteral_toString (i : Int) : IsLiteral (toString i) := by
  cases i with
  | ofNat n =>
    have hdigits : ∀ c ∈ Nat.toDigits 10 n, c.isDigit = true :=
      fun _ => Json.isDigit_of_mem_toDigits
    have hliteral := isLiteral_digits [] hdigits Nat.toDigits_ne_nil
    rwa [List.append_nil] at hliteral
  | negSucc n =>
    exact .inr ⟨'-', Nat.toDigits 10 (n + 1), by simp [toString, Int.repr, Nat.repr], by decide⟩

/-- A decimal that is written out in full begins with a digit. -/
theorem isLiteral_positionalText (d : Decimal) (layout : NumberLayout) :
    IsLiteral (String.ofList (layout.positionalText d)) := by
  have hdigits : ∀ c ∈ Nat.toDigits 10 d.digits, c.isDigit = true :=
    fun _ => Json.isDigit_of_mem_toDigits
  rw [NumberLayout.positionalText]
  cases d.exponent with
  | ofNat e =>
    dsimp only
    rw [List.append_assoc]
    exact isLiteral_digits _ hdigits Nat.toDigits_ne_nil
  | negSucc e =>
    dsimp only
    -- the point stands behind a digit of the number, or behind a zero put before it
    split
    · next he =>
      refine isLiteral_digits _ (fun c hc => hdigits c (List.mem_of_mem_take hc)) ?_
      intro htake
      have hlength := congrArg List.length htake
      rw [List.length_take, List.length_nil] at hlength
      omega
    · exact .inr ⟨'0', _, String.toList_ofList, by decide⟩

/-- A double is written as a literal, also an infinity or what is no number. -/
theorem isLiteral_dataText (x : Float64) : IsLiteral (NumberLayout.plain.dataText x) := by
  cases x with
  | nan => exact .inl (by decide)
  | infinity negative =>
    cases negative with
    | true => exact .inr ⟨'-', "inf".toList, rfl, by decide⟩
    | false => exact .inl (by decide)
  | finite x =>
    rw [NumberLayout.dataText, NumberLayout.text]
    cases x.negative with
    | true => exact .inr ⟨'-', _, String.toList_ofList, by decide⟩
    | false => exact isLiteral_positionalText x.shortest .plain

/-- Literals are not blank. -/
theorem IsLiteral.isBlank_eq {s : String} (h : IsLiteral s) : Text.isBlank s = false := by
  obtain h | ⟨c, cs, hs, hc⟩ := h
  · have hall : ∀ s ∈ ["true", "false", "inf", "NaN"], Text.isBlank s = false := by decide
    exact hall s h
  · rw [Text.isBlank, hs, List.all_cons, (number_facts hc).1, Bool.false_and]

/-- Literals name no level, in whatever case. -/
theorem IsLiteral.isLogLevel_eq {s : String} (h : IsLiteral s) : isLogLevel s = false := by
  obtain h | ⟨c, cs, hs, hc⟩ := h
  · have hall : ∀ s ∈ ["true", "false", "inf", "NaN"], isLogLevel s = false := by decide +kernel
    exact hall s h
  · obtain ⟨-, hsigma, hlower, hlevels⟩ := number_facts hc
    rw [isLogLevel, ← Bool.not_eq_true, List.contains_iff_mem]
    intro hlevel
    -- lowercase leaves the first character as it is
    refine hlevels _ hlevel ?_
    rw [Text.lowercase, hs, Text.lowercaseAfter, if_neg (by simpa using hsigma), hlower,
      String.toList_ofList]
    rfl

/-! ## Texts of variables -/

/-- A variable that is read as a text is read as its own. -/
theorem eq_of_variableDatum_eq_text {text s : String} (h : variableDatum text = .text s) :
    s = text := by
  rw [variableDatum] at h
  repeat' split at h
  all_goals cases h
  rfl

/-- A variable gives its own text, unless it gives a literal. -/
theorem variableText_eq_or_isLiteral (text : String) :
    variableText text = text ∨ IsLiteral (variableText text) := by
  rw [variableText]
  cases h : variableDatum text with
  | nil => exact absurd h (variableDatum_ne_nil text)
  | bool b => cases b <;> exact .inr (.inl (by decide))
  | integer i => exact .inr (isLiteral_toString i)
  | double x => exact .inr (isLiteral_dataText x)
  | text s => exact .inl (eq_of_variableDatum_eq_text h)

/-- A level is taken from the environment as it stands there. -/
theorem variableText_of_isLogLevel {text : String} (h : isLogLevel (variableText text) = true) :
    variableText text = text := by
  obtain heq | hliteral := variableText_eq_or_isLiteral text
  · exact heq
  · rw [hliteral.isLogLevel_eq] at h
    cases h

/-- A blank is no part of a number. -/
theorem blank_starts_nothing {c : Char} (h : Text.isBlankChar c = true) :
    c ≠ '-' ∧ c ≠ '+' ∧ c ≠ '.' ∧ c.isDigit = false ∧
      ∀ word ∈ ["inf", "infinity", "nan"], word.toList.head? ≠ some c.toLower := by
  have hall : ∀ n ∈ Text.blankCodes, Char.ofNat n ≠ '-' ∧ Char.ofNat n ≠ '+' ∧
      Char.ofNat n ≠ '.' ∧ (Char.ofNat n).isDigit = false ∧
      ∀ word ∈ ["inf", "infinity", "nan"], word.toList.head? ≠ some (Char.ofNat n).toLower := by
    decide +kernel
  have hc := hall c.toNat (Text.mem_blankCodes h)
  rwa [Char.ofNat_toNat] at hc

theorem splitSign_cons {c : Char} (hminus : c ≠ '-') (hplus : c ≠ '+') (cs : List Char) :
    splitSign (c :: cs) = (false, c :: cs) := by
  rw [splitSign]
  · rintro rest ⟨rfl, -⟩
    exact hminus rfl
  · rintro rest ⟨rfl, -⟩
    exact hplus rfl

/-- Blanks are no integer. -/
theorem integer64?_of_blank {cs : List Char} (h : ∀ c ∈ cs, Text.isBlankChar c = true) :
    integer64? cs = none := by
  cases cs with
  | nil => rfl
  | cons c cs =>
    obtain ⟨hminus, hplus, -, hdigit, -⟩ := blank_starts_nothing (h c List.mem_cons_self)
    rw [integer64?, splitSign_cons hminus hplus]
    simp [hdigit]

/-- Blanks are no double. -/
theorem ofChars?_of_blank {cs : List Char} (h : ∀ c ∈ cs, Text.isBlankChar c = true) :
    Float64.ofChars? cs = none := by
  cases cs with
  | nil => rfl
  | cons c cs =>
    obtain ⟨hminus, hplus, hpoint, hdigit, hwords⟩ := blank_starts_nothing (h c List.mem_cons_self)
    -- without a sign the words and the digits are looked for from the first character on
    have hword : ∀ word ∈ ["inf", "infinity", "nan"],
        (c :: cs).map Char.toLower ≠ word.toList := by
      intro word hword heq
      exact hwords word hword (congrArg List.head? heq).symm
    rw [Float64.ofChars?, splitSign_cons hminus hplus]
    dsimp only
    rw [if_neg (not_or.mpr ⟨hword "inf" (by decide), hword "infinity" (by decide)⟩),
      if_neg (hword "nan" (by decide))]
    simp [Float64.ofDigits?, hdigit, hpoint]

/-- A blank variable stands for its text. -/
theorem variableDatum_of_isBlank {text : String} (h : Text.isBlank text = true) :
    variableDatum text = .text text := by
  have hblank : ∀ c ∈ text.toList, Text.isBlankChar c = true := List.all_eq_true.mp h
  have hlower : Text.lowercase text = text := by
    rw [Text.lowercase, Text.lowercaseAfter_eq, Text.lowercaseBetween_blanks hblank,
      String.ofList_toList]
  have hword : ∀ word ∈ ["true", "false"], text ≠ word := by
    rintro word hword rfl
    have hall : ∀ word ∈ ["true", "false"], Text.isBlank word = false := by decide
    rw [hall _ hword] at h
    cases h
  rw [variableDatum, hlower, if_neg (hword "true" (by decide)),
    if_neg (hword "false" (by decide)), integer64?_of_blank hblank, ofChars?_of_blank hblank]

/-- A variable is blank when the setting is that it gives. -/
theorem isBlank_variableText (text : String) :
    Text.isBlank (variableText text) = Text.isBlank text := by
  obtain heq | hliteral := variableText_eq_or_isLiteral text
  · rw [heq]
  · rw [hliteral.isBlank_eq, eq_comm, ← Bool.not_eq_true]
    -- a blank text is not written out anew, so it would be the literal
    intro hblank
    have heq : variableText text = text := by rw [variableText, variableDatum_of_isBlank hblank]
    rw [← heq, hliteral.isBlank_eq] at hblank
    cases hblank

end TypedCall.Settings
