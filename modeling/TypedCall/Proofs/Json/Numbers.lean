import TypedCall.Json.Printer
import TypedCall.Proofs.Decimal.Shortest
import TypedCall.Proofs.Json.Documents

/-!
# Written numbers read back

A number is read as far as it goes, so what follows a written number must not continue it
(`EndsNumber`). Under this condition the reader stops behind the last written character and gives
the number that was written: an integer of 64 bits as it is, a double because its shortest decimal
rounds to it.
-/

namespace TypedCall.Json

/-! ## Runs of digits -/

/-- A text that does not go on with a digit. -/
def EndsDigits (rest : List Char) : Prop := ∀ c ∈ rest.head?, c.isDigit = false

/-- A text that does not go on with a part of a number. -/
def EndsNumber (rest : List Char) : Prop :=
  ∀ c ∈ rest.head?, c.isDigit = false ∧ c ≠ '.' ∧ c ≠ 'e' ∧ c ≠ 'E'

theorem EndsNumber.endsDigits {rest : List Char} (h : EndsNumber rest) : EndsDigits rest :=
  fun c hc => (h c hc).1

theorem endsDigits_cons {c : Char} {rest : List Char} (h : c.isDigit = false) :
    EndsDigits (c :: rest) := by
  intro d hd
  obtain rfl := Option.some.inj hd
  exact h

section Runs

variable {ds rest : List Char}

theorem takeWhile_digits (hds : ∀ c ∈ ds, c.isDigit = true) (hrest : EndsDigits rest) :
    (ds ++ rest).takeWhile Char.isDigit = ds := by
  rw [List.takeWhile_append_of_pos hds]
  cases rest with
  | nil => simp
  | cons c rest => simp [hrest c rfl]

theorem dropWhile_digits (hds : ∀ c ∈ ds, c.isDigit = true) (hrest : EndsDigits rest) :
    (ds ++ rest).dropWhile Char.isDigit = rest := by
  rw [List.dropWhile_append_of_pos hds]
  cases rest with
  | nil => simp
  | cons c rest => simp [hrest c rfl]

end Runs

theorem digitsValue_eq (before : Nat) (digits : List Char) :
    digitsValue before digits = Nat.ofDigitChars 10 digits before := by
  rw [digitsValue, Nat.ofDigitChars_eq_foldl]
  congr 1
  funext n c
  rw [Nat.mul_comm]

theorem digitsValue_append (before : Nat) (ds es : List Char) :
    digitsValue before (ds ++ es) = digitsValue (digitsValue before ds) es := by
  rw [digitsValue, List.foldl_append]
  rfl

/-- The digits of a number have the number as their value. -/
theorem digitsValue_toDigits (n : Nat) : digitsValue 0 (Nat.toDigits 10 n) = n := by
  rw [digitsValue_eq, Nat.ofDigitChars_ten_toDigits]

/-- Zeros that follow multiply by a power of ten. -/
theorem digitsValue_replicate_zero (before k : Nat) :
    digitsValue before (List.replicate k '0') = before * 10 ^ k := by
  rw [digitsValue_eq, Nat.ofDigitChars_replicate_zero, Nat.mul_comm]

/-- Further digits never make the value smaller. -/
theorem le_digitsValue (before : Nat) (digits : List Char) :
    before ≤ digitsValue before digits := by
  induction digits generalizing before with
  | nil => exact Nat.le_refl _
  | cons c cs ih =>
    have h := ih (before * 10 + (c.toNat - '0'.toNat))
    rw [digitsValue, List.foldl_cons, ← digitsValue]
    omega

theorem isDigit_of_mem_toDigits {n : Nat} {c : Char} (h : c ∈ Nat.toDigits 10 n) :
    c.isDigit = true :=
  Nat.isDigit_of_mem_toDigits (by decide) (by decide) h

/-- Digits that may begin a number: a zero stands alone. -/
def LeadsNumber (ds : List Char) : Prop :=
  (∀ c ∈ ds, c.isDigit = true) ∧ (ds = ['0'] ∨ ∃ c cs, ds = c :: cs ∧ c ≠ '0')

/-- The digits of a positive number do not begin with a zero. -/
theorem exists_toDigits_eq_cons (n : Nat) (h : 0 < n) :
    ∃ c cs, Nat.toDigits 10 n = c :: cs ∧ c ≠ '0' := by
  induction n using Nat.strong_induction_on with
  | _ n ih =>
    rw [Nat.toDigits_eq_if (by decide)]
    split
    · next hlt =>
      have hdigit : ∀ k < 10, 0 < k → Nat.digitChar k ≠ '0' := by decide
      exact ⟨n.digitChar, [], rfl, hdigit n hlt h⟩
    · next hge =>
      obtain ⟨c, cs, hcs, hc⟩ := ih (n / 10) (by omega) (by omega)
      exact ⟨c, cs ++ [(n % 10).digitChar], by rw [hcs, List.cons_append], hc⟩

/-- The digits of any natural number may begin a number. -/
theorem leadsNumber_toDigits (n : Nat) : LeadsNumber (Nat.toDigits 10 n) := by
  refine ⟨fun c => isDigit_of_mem_toDigits, ?_⟩
  by_cases hzero : n = 0
  · left
    rw [hzero, Nat.toDigits_zero]
  · right
    exact exists_toDigits_eq_cons n (Nat.pos_of_ne_zero hzero)

theorem leadsNumber_digit {c : Char} (hc : c.isDigit = true) : LeadsNumber [c] := by
  refine ⟨by simpa using hc, ?_⟩
  by_cases hzero : c = '0'
  · exact .inl (by rw [hzero])
  · exact .inr ⟨c, [], rfl, hzero⟩

/-! ## The parts of a number -/

section Parts

variable {negative : Bool} {ds rest : List Char} {digits : Nat}

/-- The digits before the point. -/
theorem readNumber_append (hds : LeadsNumber ds) (hrest : EndsDigits rest) :
    readNumber negative (ds ++ rest) = readTail negative (digitsValue 0 ds) rest := by
  obtain ⟨hdigits, rfl | ⟨c, cs, rfl, hc⟩⟩ := hds
  · cases rest with
    | nil => rfl
    | cons d rest =>
      have hd : ¬ d.isDigit = true := by simp [hrest d rfl]
      have hread : readNumber negative ('0' :: d :: rest) =
          if d.isDigit then faultAfter .invalidNumber (d :: rest)
          else readTail negative 0 (d :: rest) := rfl
      rw [List.singleton_append, hread, if_neg hd]
      rfl
  · have htake := takeWhile_digits hdigits hrest
    have hdrop := dropWhile_digits hdigits hrest
    rw [List.cons_append] at htake hdrop ⊢
    unfold readNumber
    split
    · next h => cases h
    · next h => exact absurd (List.cons.inj h).1 hc
    · next d ds _ h =>
      obtain ⟨rfl, rfl⟩ := List.cons.inj h
      rw [if_pos (hdigits c List.mem_cons_self), htake, hdrop]

theorem readNumber_cons {c : Char} (hc : c.isDigit = true) (hrest : EndsDigits rest) :
    readNumber negative (c :: rest) = readTail negative (digitsValue 0 [c]) rest :=
  readNumber_append (leadsNumber_digit hc) hrest

/-- An integer ends where its digits do. -/
theorem readTail_integer (hrest : EndsNumber rest) :
    readTail negative digits rest =
      let i : Int := if negative then -(digits : Int) else digits
      if fits64 i && !(negative && digits == 0) then .ok (.integer i, rest)
      else makeDouble negative digits 0 rest := by
  unfold readTail
  split
  · exact absurd rfl (hrest '.' rfl).2.1
  · exact absurd rfl (hrest 'e' rfl).2.2.1
  · exact absurd rfl (hrest 'E' rfl).2.2.2
  · rfl

/-- Behind a point the digits are counted on, and each of them divides by ten. -/
theorem readTail_fraction (hds : ∀ c ∈ ds, c.isDigit = true) (hne : ds ≠ [])
    (hrest : EndsNumber rest) :
    readTail negative digits ('.' :: (ds ++ rest)) =
      makeDouble negative (digitsValue digits ds) (-(ds.length : Int)) rest := by
  rw [readTail]
  simp only [takeWhile_digits hds hrest.endsDigits, dropWhile_digits hds hrest.endsDigits]
  rw [if_neg (by simpa using hne)]
  split
  · exact absurd rfl (hrest 'e' rfl).2.2.1
  · exact absurd rfl (hrest 'E' rfl).2.2.2
  · rfl

/-- A fraction may be followed by an exponent, which starts from the number of its digits. -/
theorem readTail_fraction_exponent (hds : ∀ c ∈ ds, c.isDigit = true) (hne : ds ≠ []) :
    readTail negative digits ('.' :: (ds ++ 'e' :: rest)) =
      readExponent negative (digitsValue digits ds) (-(ds.length : Int)) rest := by
  have hend : EndsDigits ('e' :: rest) := endsDigits_cons (by decide)
  rw [readTail]
  simp only [takeWhile_digits hds hend, dropWhile_digits hds hend]
  rw [if_neg (by simpa using hne)]

/-- The digits of an exponent are read up to their end as long as their value has 32 bits. -/
theorem exponentDigits_append (hds : ∀ c ∈ ds, c.isDigit = true) (hrest : EndsDigits rest)
    {before : Nat} (hle : digitsValue before ds ≤ 2147483647) :
    exponentDigits before (ds ++ rest) = (digitsValue before ds, true, rest) := by
  induction ds generalizing before with
  | nil =>
    cases rest with
    | nil => rfl
    | cons c rest =>
      have hc : ¬ c.isDigit = true := by simp [hrest c rfl]
      rw [List.nil_append, exponentDigits, if_neg hc]
      rfl
  | cons c cs ih =>
    have hnext : digitsValue before (c :: cs) =
        digitsValue (before * 10 + (c.toNat - '0'.toNat)) cs := rfl
    have hbound : ¬ 2147483647 < before * 10 + (c.toNat - '0'.toNat) := by
      have hmono := le_digitsValue (before * 10 + (c.toNat - '0'.toNat)) cs
      omega
    rw [List.cons_append, exponentDigits, if_pos (hds c List.mem_cons_self)]
    simp only
    rw [if_neg hbound, ih (fun d hd => hds d (List.mem_cons_of_mem _ hd)) (hnext ▸ hle), hnext]

/-- An exponent with its sign, as it is written. -/
theorem readExponent_written {start e : Int} (hrest : EndsNumber rest)
    (he : e.natAbs ≤ 2147483647) :
    readExponent negative digits start
        ((if e < 0 then '-' else '+') :: (Nat.toDigits 10 e.natAbs ++ rest)) =
      makeDouble negative digits (start + e) rest := by
  have hvalue : exponentDigits 0 (Nat.toDigits 10 e.natAbs ++ rest) = (e.natAbs, true, rest) := by
    have hle : digitsValue 0 (Nat.toDigits 10 e.natAbs) ≤ 2147483647 := by
      rw [digitsValue_toDigits]
      exact he
    rw [exponentDigits_append (fun c => isDigit_of_mem_toDigits) hrest.endsDigits hle,
      digitsValue_toDigits]
  obtain ⟨c, cs, hcs⟩ : ∃ c cs, Nat.toDigits 10 e.natAbs = c :: cs :=
    List.exists_cons_of_ne_nil Nat.toDigits_ne_nil
  have hc : c.isDigit = true := isDigit_of_mem_toDigits (by rw [hcs]; exact List.mem_cons_self)
  rw [hcs, List.cons_append] at hvalue ⊢
  unfold readExponent
  -- the sign decides whether the digits are added to the start or taken from it
  by_cases hneg : e < 0
  · have hstart : start - (e.natAbs : Int) = start + e := by omega
    rw [if_pos hneg]
    simp only [hc, hvalue, if_true, hstart]
  · have hstart : start + (e.natAbs : Int) = start + e := by omega
    rw [if_neg hneg]
    simp only [hc, hvalue, if_true, hstart, Bool.false_eq_true, if_false]

/-- Digits around a point, and an exponent. -/
theorem readNumber_point_exponent (negative : Bool) {first : Char} {e : Int}
    (hds : ∀ c ∈ first :: ds, c.isDigit = true) (hne : ds ≠ []) (hrest : EndsNumber rest)
    (he : e.natAbs ≤ 2147483647) :
    readNumber negative (first :: '.' :: (ds ++ 'e' ::
        ((if e < 0 then '-' else '+') :: (Nat.toDigits 10 e.natAbs ++ rest)))) =
      makeDouble negative (digitsValue 0 (first :: ds)) (-(ds.length : Int) + e) rest := by
  rw [readNumber_cons (hds first List.mem_cons_self) (endsDigits_cons (by decide)),
    readTail_fraction_exponent (fun c hc => hds c (List.mem_cons_of_mem _ hc)) hne,
    readExponent_written hrest he, ← digitsValue_append, List.singleton_append]

/-- One digit and an exponent. -/
theorem readNumber_exponent (negative : Bool) {c : Char} {e : Int} (hc : c.isDigit = true)
    (hrest : EndsNumber rest) (he : e.natAbs ≤ 2147483647) :
    readNumber negative (c :: 'e' ::
        ((if e < 0 then '-' else '+') :: (Nat.toDigits 10 e.natAbs ++ rest))) =
      makeDouble negative (digitsValue 0 [c]) e rest := by
  rw [readNumber_cons hc (endsDigits_cons (by decide)), readTail, readExponent_written hrest he,
    Int.zero_add]

end Parts

/-! ## Decimals -/

open Binary64 (decimalPattern infinityPattern)

/-- Zeros behind the digits do not change what a decimal is rounded to when the exponent makes up
for them. -/
theorem decimalPattern_mul_pow {p : Nat} (hp : p < infinityPattern) (digits k : Nat)
    (exponent : Int) :
    decimalPattern (digits * 10 ^ k) (exponent - k) = p ↔ decimalPattern digits exponent = p := by
  induction k with
  | zero => simp
  | succ k ih =>
    have hdigits : digits * 10 ^ (k + 1) = digits * 10 ^ k * 10 := by
      rw [Nat.pow_succ, Nat.mul_assoc]
    have hexponent : exponent - (k + 1 : Nat) = exponent - k - 1 := by omega
    rw [hdigits, hexponent, Binary64.decimalPattern_mul_ten hp, ih]

/-- A text that is read as a double: the reader stops behind it and rounds a decimal that rounds
to the same patterns as `d`. -/
def ReadsDouble (text : List Char) (d : Decimal) : Prop :=
  ∀ negative rest, EndsNumber rest → ∃ digits exponent,
    readNumber negative (text ++ rest) = makeDouble negative digits exponent rest ∧
      ∀ p < infinityPattern,
        decimalPattern digits exponent = p ↔ decimalPattern d.digits d.exponent = p

/-- A number without fraction is written with a point and a zero. -/
theorem readsDouble_whole {d : Decimal} {e : Nat} (he : d.exponent = e)
    (hzero : d.digits = 0 → d.exponent = 0) :
    ReadsDouble (Nat.toDigits 10 d.digits ++ List.replicate e '0' ++ ['.', '0']) d := by
  intro negative rest hrest
  have hlead : LeadsNumber (Nat.toDigits 10 d.digits ++ List.replicate e '0') := by
    obtain ⟨hdigits, hhead⟩ := leadsNumber_toDigits d.digits
    constructor
    · intro c hc
      rcases List.mem_append.mp hc with hc | hc
      · exact hdigits c hc
      · rw [(List.mem_replicate.mp hc).2]
        rfl
    -- a zero stands alone, for there are no zeros behind it
    · by_cases hd : d.digits = 0
      · obtain rfl : e = 0 := by
          have := hzero hd
          omega
        rw [List.replicate_zero, List.append_nil]
        exact hhead
      · obtain ⟨c, cs, hcs, hc⟩ := exists_toDigits_eq_cons d.digits (Nat.pos_of_ne_zero hd)
        exact .inr ⟨c, cs ++ List.replicate e '0', by rw [hcs, List.cons_append], hc⟩
  have hvalue : digitsValue 0 (Nat.toDigits 10 d.digits ++ List.replicate e '0') =
      d.digits * 10 ^ e := by
    rw [digitsValue_append, digitsValue_toDigits, digitsValue_replicate_zero]
  -- the zero behind the point counts as a digit too
  refine ⟨d.digits * 10 ^ (e + 1), -1, ?_, fun p hp => ?_⟩
  · have hfraction : digitsValue (d.digits * 10 ^ e) ['0'] = d.digits * 10 ^ (e + 1) := by
      rw [Nat.pow_succ, ← Nat.mul_assoc]
      rfl
    have hpoint : ['.', '0'] ++ rest = '.' :: (['0'] ++ rest) := rfl
    rw [List.append_assoc, hpoint, readNumber_append hlead (endsDigits_cons (by decide)), hvalue,
      readTail_fraction (by simp) (by simp) hrest, hfraction]
    rfl
  · have hexponent : (-1 : Int) = d.exponent - (e + 1 : Nat) := by omega
    rw [hexponent, decimalPattern_mul_pow hp]

/-- Digits around a point. -/
theorem readsDouble_point {d : Decimal} {ds es : List Char} (hds : LeadsNumber ds)
    (hes : ∀ c ∈ es, c.isDigit = true) (hne : es ≠ [])
    (hvalue : digitsValue 0 (ds ++ es) = d.digits) (hlength : d.exponent = -(es.length : Int)) :
    ReadsDouble (ds ++ '.' :: es) d := by
  intro negative rest hrest
  refine ⟨d.digits, d.exponent, ?_, fun p hp => Iff.rfl⟩
  rw [List.append_assoc, List.cons_append, readNumber_append hds (endsDigits_cons (by decide)),
    readTail_fraction hes hne hrest, ← digitsValue_append, hvalue, hlength]

theorem isDigit_of_mem_digits (d : Decimal) : ∀ c ∈ Nat.toDigits 10 d.digits, c.isDigit = true :=
  fun _ => isDigit_of_mem_toDigits

/-- A point among the digits. -/
theorem readsDouble_inside {d : Decimal} {k : Nat} (hd : d.digits ≠ 0) (hk : 0 < k)
    (hlt : k < (Nat.toDigits 10 d.digits).length)
    (he : d.exponent = -(((Nat.toDigits 10 d.digits).length - k : Nat) : Int)) :
    ReadsDouble ((Nat.toDigits 10 d.digits).take k ++ '.' :: (Nat.toDigits 10 d.digits).drop k)
      d := by
  have hdigits := isDigit_of_mem_digits d
  obtain ⟨c, cs, hcs, hc⟩ := exists_toDigits_eq_cons d.digits (Nat.pos_of_ne_zero hd)
  obtain ⟨k, rfl⟩ : ∃ j, k = j + 1 := ⟨k - 1, by omega⟩
  have hlead : LeadsNumber ((Nat.toDigits 10 d.digits).take (k + 1)) :=
    ⟨fun c hc => hdigits c (List.mem_of_mem_take hc),
      .inr ⟨c, cs.take k, by rw [hcs, List.take_succ_cons], hc⟩⟩
  refine readsDouble_point hlead (fun c hc => hdigits c (List.mem_of_mem_drop hc)) ?_ ?_ ?_
  · rw [Ne, List.drop_eq_nil_iff]
    omega
  · rw [List.take_append_drop, digitsValue_toDigits]
  · rw [List.length_drop, he]

/-- A point before the digits and some zeros. -/
theorem readsDouble_before {d : Decimal} {k : Nat}
    (he : d.exponent = -((k + (Nat.toDigits 10 d.digits).length : Nat) : Int)) :
    ReadsDouble ('0' :: '.' :: (List.replicate k '0' ++ Nat.toDigits 10 d.digits)) d := by
  have hlead : LeadsNumber ['0'] := ⟨by simp, .inl rfl⟩
  refine readsDouble_point hlead ?_ ?_ ?_ ?_
  · intro c hc
    rcases List.mem_append.mp hc with hc | hc
    · rw [(List.mem_replicate.mp hc).2]
      rfl
    · exact isDigit_of_mem_digits d c hc
  · simp
  · rw [List.singleton_append, digitsValue_eq, Nat.ofDigitChars_cons, ← digitsValue_eq,
      digitsValue_append, digitsValue_replicate_zero]
    simp [digitsValue_toDigits]
  · rw [List.length_append, List.length_replicate, he]

/-- A decimal that is written out in full is read as a double. -/
theorem readsDouble_positional {d : Decimal} (hzero : d.digits = 0 → d.exponent = 0) :
    ReadsDouble (NumberLayout.json.positionalText d) d := by
  rw [NumberLayout.positionalText]
  cases he : d.exponent with
  | ofNat e => exact readsDouble_whole he hzero
  | negSucc e =>
    simp only
    split
    · next hlt =>
      have hd : d.digits ≠ 0 := by
        intro hd
        have := hzero hd
        omega
      exact readsDouble_inside hd (by omega) (by omega) (by omega)
    · next hge => exact readsDouble_before (by omega)

/-- A decimal that is written with an exponent is read as a double. -/
theorem readsDouble_exponent {d : Decimal}
    (hsci : -401 ≤ d.scientific ∧ d.scientific ≤ 400) :
    ReadsDouble (NumberLayout.exponentText d) d := by
  intro negative rest hrest
  refine ⟨d.digits, d.exponent, ?_, fun p hp => Iff.rfl⟩
  have hdigits := isDigit_of_mem_digits d
  have hvalue := digitsValue_toDigits d.digits
  have hcount : d.scientific = d.exponent + (Nat.toDigits 10 d.digits).length - 1 := rfl
  have hexponent : d.scientific.natAbs ≤ 2147483647 := by omega
  rw [NumberLayout.exponentText]
  split
  · next first second more hcs =>
    rw [hcs] at hvalue hcount hdigits
    have hstart : -((second :: more).length : Int) + d.scientific = d.exponent := by
      simp only [List.length_cons] at hcount ⊢
      omega
    have hread := readNumber_point_exponent negative hdigits (by simp) hrest hexponent
    rw [hvalue, hstart] at hread
    simpa using hread
  · next short hshort =>
    obtain ⟨c, cs, hcs⟩ : ∃ c cs, Nat.toDigits 10 d.digits = c :: cs :=
      List.exists_cons_of_ne_nil Nat.toDigits_ne_nil
    cases cs with
    | cons c' cs => exact absurd hcs (hshort c c' cs)
    | nil =>
      rw [hcs] at hvalue hcount hdigits
      have hstart : d.scientific = d.exponent := by
        rw [List.length_singleton] at hcount
        omega
      have hread := readNumber_exponent negative (hdigits c List.mem_cons_self) hrest hexponent
      rw [hvalue, hstart] at hread
      rw [hcs, hstart]
      simpa using hread

/-- In whichever form a decimal is written, it is read as a double. -/
theorem readsDouble_decimalText {d : Decimal} (hzero : d.digits = 0 → d.exponent = 0)
    (hsci : -401 ≤ d.scientific ∧ d.scientific ≤ 400) :
    ReadsDouble (NumberLayout.json.decimalText d) d := by
  rw [NumberLayout.decimalText]
  split
  · exact readsDouble_positional hzero
  · exact readsDouble_exponent hsci

/-! ## Numbers -/

/-- Every number begins with a digit once its sign is gone. -/
theorem exists_digit_of_readNumber {negative : Bool} {cs rest : List Char} {n : Number}
    (h : readNumber negative cs = .ok (n, rest)) : ∃ c ds, cs = c :: ds ∧ c.isDigit = true := by
  unfold readNumber at h
  split at h
  · cases h
  · exact ⟨'0', _, rfl, rfl⟩
  · next c ds _ =>
    split at h
    · next hc => exact ⟨c, ds, rfl, hc⟩
    · cases h

theorem readValue_minus {depth : Nat} {cs rest : List Char} {n : Number}
    (h : readNumber true cs = .ok (n, rest)) :
    readValue depth ('-' :: cs) = .ok (.number n, rest) := by
  rw [readValue_ok, skipBlanks_cons (by decide)]
  exact .negative h

theorem readValue_digit {depth : Nat} {cs rest : List Char} {n : Number}
    (h : readNumber false cs = .ok (n, rest)) : readValue depth cs = .ok (.number n, rest) := by
  obtain ⟨c, ds, rfl, hc⟩ := exists_digit_of_readNumber h
  rw [readValue_ok, skipBlanks_cons (isJsonBlank_of_isDigit hc)]
  exact .positive hc h

/-- A double is read back from its shortest decimal, in front of what does not continue it. -/
theorem readNumber_double {x : Binary64} {rest : List Char} (hrest : EndsNumber rest) :
    readNumber x.negative (NumberLayout.json.decimalText x.shortest ++ rest) =
      .ok (.double x, rest) := by
  have hpattern := x.decimalPattern_shortest
  have hzero : x.shortest.digits = 0 → x.shortest.exponent = 0 := by
    intro hd
    rw [hd] at hpattern
    rw [Binary64.shortest_of_isZero (show x.pattern = 0 from hpattern.symm)]
  obtain ⟨digits, exponent, hread, hsame⟩ :=
    readsDouble_decimalText hzero x.scientific_shortest x.negative rest hrest
  have hp : decimalPattern digits exponent = x.pattern :=
    (hsame x.pattern x.pattern_lt).mpr hpattern
  rw [hread, makeDouble, Binary64.ofDecimal?]
  simp only [hp, dif_pos x.pattern_lt]

/-- A written number is read back, and the reader stops behind it. -/
theorem readValue_number {depth : Nat} {n : Number} (hn : n.Fits) {rest : List Char}
    (hrest : EndsNumber rest) :
    readValue depth (n.written ++ rest) = .ok (.number n, rest) := by
  cases n with
  | integer i =>
    have hi : fits64 i = true := hn
    cases i with
    | ofNat n =>
      have hi' : fits64 (n : Int) = true := hi
      refine readValue_digit ?_
      rw [Number.written, writtenNat,
        readNumber_append (leadsNumber_toDigits n) hrest.endsDigits, digitsValue_toDigits,
        readTail_integer hrest]
      simp [hi']
    | negSucc n =>
      have hneg : -((n + 1 : Nat) : Int) = Int.negSucc n := rfl
      refine readValue_minus ?_
      rw [writtenNat, List.append_eq, readNumber_append (leadsNumber_toDigits (n + 1))
        hrest.endsDigits, digitsValue_toDigits, readTail_integer hrest]
      simp only [if_true, hneg, hi]
      simp
  | double x =>
    have hread := readNumber_double (x := x) hrest
    rw [Number.written, NumberLayout.text, List.append_assoc]
    cases hx : x.negative with
    | false =>
      rw [hx] at hread
      exact readValue_digit hread
    | true =>
      rw [hx] at hread
      exact readValue_minus hread

end TypedCall.Json
