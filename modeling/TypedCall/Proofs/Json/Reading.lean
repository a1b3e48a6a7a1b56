import TypedCall.Json.Reader

/-!
# What the JSON readers read

Each reader is settled by one statement: when it gives a result, and which one. `ValueRead` lists
the ways to read a value, one for each token that begins one. The files about written documents and
about documents that are read open the readers through these statements only.
-/

namespace TypedCall.Json

/-! ## Blanks -/

/-- A text of blanks only. -/
def IsBlanks (cs : List Char) : Prop := ∀ c ∈ cs, isJsonBlank c = true

section Blanks

variable {bs cs : List Char} {c : Char}

theorem skipBlanks_append (hb : IsBlanks bs) : skipBlanks (bs ++ cs) = skipBlanks cs :=
  List.dropWhile_append_of_pos hb

theorem skipBlanks_cons (hc : isJsonBlank c = false) : skipBlanks (c :: cs) = c :: cs := by
  rw [skipBlanks, List.dropWhile_cons, hc, if_neg Bool.false_ne_true]

theorem skipBlanks_append_cons (hb : IsBlanks bs) (hc : isJsonBlank c = false) :
    skipBlanks (bs ++ c :: cs) = c :: cs := by
  rw [skipBlanks_append hb, skipBlanks_cons hc]

theorem skipBlanks_blank (hc : isJsonBlank c = true) : skipBlanks (c :: cs) = skipBlanks cs := by
  rw [skipBlanks, List.dropWhile_cons, if_pos hc]
  rfl

@[simp] theorem skipBlanks_skipBlanks (cs : List Char) :
    skipBlanks (skipBlanks cs) = skipBlanks cs := by
  induction cs with
  | nil => rfl
  | cons c cs ih =>
    cases hc : isJsonBlank c with
    | true => rw [skipBlanks_blank hc, ih]
    | false => rw [skipBlanks_cons hc, skipBlanks_cons hc]

theorem isJsonBlank_of_isDigit (hc : c.isDigit = true) : isJsonBlank c = false := by
  cases hb : isJsonBlank c with
  | false => rfl
  | true =>
    simp only [isJsonBlank, Bool.or_eq_true, beq_iff_eq] at hb
    rcases hb with ((rfl | rfl) | rfl) | rfl <;> exact absurd hc (by decide)

end Blanks

/-! ## Computations that may fail -/

/-- A computation in two steps succeeds when both do. -/
theorem bind_eq_ok {ε α β : Type} {x : Except ε α} {f : α → Except ε β} {b : β} :
    x >>= f = .ok b ↔ ∃ a, x = .ok a ∧ f a = .ok b := by
  cases x with
  | error e => simp [bind, Except.bind]
  | ok a => simp [bind, Except.bind]

/-- What is returned of what a computation gives. -/
theorem bind_pure_eq_ok {ε α β : Type} {x : Except ε α} {f : α → β} {b : β} :
    (do return f (← x)) = Except.ok b ↔ ∃ a, x = .ok a ∧ b = f a := by
  rw [bind_eq_ok]
  exact exists_congr fun a => and_congr_right fun _ =>
    ⟨fun h => (Except.ok.inj h).symm, fun h => by rw [h]; rfl⟩

/-- The second computation gives what the first one gives, if that gives anything. -/
def Below {ε α : Type} (x y : Except ε α) : Prop := ∀ ⦃a⦄, x = .ok a → y = .ok a

theorem Below.refl {ε α : Type} (x : Except ε α) : Below x x := fun _ => id

/-- Computations that go on alike stay in this relation. -/
theorem Below.bind {ε α β : Type} {x y : Except ε α} {f g : α → Except ε β} (h : Below x y)
    (hf : ∀ a, x = .ok a → Below (f a) (g a)) : Below (x >>= f) (y >>= g) := by
  intro b hb
  obtain ⟨a, ha, hb⟩ := bind_eq_ok.mp hb
  exact bind_eq_ok.mpr ⟨a, h ha, hf a ha hb⟩

/-! ## Strings -/

/-- A string is what its characters make, up to the closing quote. -/
theorem readString_ok {cs rest : List Char} {s : String} :
    readString cs = .ok (s, rest) ↔
      ∃ ds, readChars (cs.length + 1) cs = .ok (ds, rest) ∧ s = String.ofList ds := by
  rw [readString, bind_eq_ok]
  constructor
  · rintro ⟨⟨ds, r⟩, hds, heq⟩
    obtain ⟨rfl, rfl⟩ := Prod.mk.inj (Except.ok.inj heq)
    exact ⟨ds, hds, rfl⟩
  · rintro ⟨ds, hds, rfl⟩
    exact ⟨(ds, rest), hds, rfl⟩

/-- Inside a string stand a closing quote, an escape, or a character that stands for itself. -/
theorem readChars_succ_ok {fuel : Nat} {cs ds rest : List Char}
    (h : readChars (fuel + 1) cs = .ok (ds, rest)) :
      (cs = '"' :: rest ∧ ds = []) ∨
      (∃ es d r ds', cs = '\\' :: es ∧ readEscape es = .ok (d, r) ∧
        readChars fuel r = .ok (ds', rest) ∧ ds = d :: ds') ∨
      ∃ c r ds', cs = c :: r ∧ c ≠ '"' ∧ c ≠ '\\' ∧
        readChars fuel r = .ok (ds', rest) ∧ ds = c :: ds' := by
  cases cs with
  | nil => cases h
  | cons c cs =>
    rw [readChars] at h
    by_cases hquote : c = '"'
    · rw [if_pos hquote] at h
      obtain ⟨rfl, rfl⟩ := Prod.mk.inj (Except.ok.inj h)
      exact .inl ⟨by rw [hquote], rfl⟩
    rw [if_neg hquote] at h
    by_cases hslash : c = '\\'
    · rw [if_pos hslash, bind_eq_ok] at h
      obtain ⟨⟨d, r⟩, hes, h⟩ := h
      obtain ⟨⟨ds', rest'⟩, hr, h⟩ := bind_eq_ok.mp h
      obtain ⟨rfl, rfl⟩ := Prod.mk.inj (Except.ok.inj h)
      exact .inr (.inl ⟨cs, d, r, ds', by rw [hslash], hes, hr, rfl⟩)
    rw [if_neg hslash] at h
    by_cases hcontrol : c.toNat < 0x20
    · rw [if_pos hcontrol] at h
      cases h
    · rw [if_neg hcontrol] at h
      obtain ⟨⟨ds', rest'⟩, hr, h⟩ := bind_eq_ok.mp h
      obtain ⟨rfl, rfl⟩ := Prod.mk.inj (Except.ok.inj h)
      exact .inr (.inr ⟨c, cs, ds', rfl, hquote, hslash, hr, rfl⟩)

/-! ## Arrays and objects -/

section Containers

variable {item : List Char → Except Fault (Read Value)} {fuel : Nat} {cs rest : List Char}

/-- The items of an array are one value and then the bracket, or a comma and more items. -/
theorem readItems_succ_ok {vs : List Value} :
    readItems item (fuel + 1) cs = .ok (vs, rest) ↔
      ∃ v r, item cs = .ok (v, r) ∧
        ((skipBlanks r = ']' :: rest ∧ vs = [v]) ∨
          ∃ r' c ds vs', skipBlanks r = ',' :: r' ∧ skipBlanks r' = c :: ds ∧ c ≠ ']' ∧
            readItems item fuel (c :: ds) = .ok (vs', rest) ∧ vs = v :: vs') := by
  rw [readItems, bind_eq_ok]
  constructor
  · rintro ⟨⟨v, r⟩, hv, h⟩
    refine ⟨v, r, hv, ?_⟩
    simp only at h
    split at h
    · cases h
    · next r' hr =>
      obtain ⟨rfl, rfl⟩ := Prod.mk.inj (Except.ok.inj h)
      exact .inl ⟨hr, rfl⟩
    · next r' hr =>
      split at h
      · cases h
      · cases h
      · next ds hempty hclose =>
        obtain ⟨⟨vs', rest'⟩, hvs, h⟩ := bind_eq_ok.mp h
        obtain ⟨rfl, rfl⟩ := Prod.mk.inj (Except.ok.inj h)
        cases hds : skipBlanks r' with
        | nil => exact absurd hds hempty
        | cons c ds =>
          refine .inr ⟨r', c, ds, vs', hr, hds, fun hc => hclose ds (by rw [hds, hc]), ?_, rfl⟩
          rw [← hds]
          exact hvs
    · cases h
  · rintro ⟨v, r, hv, ⟨hr, rfl⟩ | ⟨r', c, ds, vs', hr, hds, hc, hvs, rfl⟩⟩
    · refine ⟨(v, r), hv, ?_⟩
      simp only [hr]
    · refine ⟨(v, r), hv, ?_⟩
      simp only [hr, hds]
      split
      · next heq => cases heq
      · next heq => exact absurd (List.cons.inj heq).1 hc
      · rw [hvs]
        rfl

/-- Behind its bracket an array is empty or has items. -/
theorem readArray_ok {v : Value} :
    readArray item cs = .ok (v, rest) ↔
      (skipBlanks cs = ']' :: rest ∧ v = .array []) ∨
        ∃ c ds vs, skipBlanks cs = c :: ds ∧ c ≠ ']' ∧
          readItems item (ds.length + 2) (c :: ds) = .ok (vs, rest) ∧ v = .array vs := by
  rw [readArray]
  constructor
  · intro h
    split at h
    · cases h
    · next r hr =>
      obtain ⟨rfl, rfl⟩ := Prod.mk.inj (Except.ok.inj h)
      exact .inl ⟨hr, rfl⟩
    · next hempty hclose =>
      obtain ⟨⟨vs, rest'⟩, hvs, h⟩ := bind_eq_ok.mp h
      obtain ⟨rfl, rfl⟩ := Prod.mk.inj (Except.ok.inj h)
      cases hds : skipBlanks cs with
      | nil => exact absurd hds hempty
      | cons c ds =>
        rw [hds] at hvs
        exact .inr ⟨c, ds, vs, rfl, fun hc => hclose ds (by rw [hds, hc]), hvs, rfl⟩
  · rintro (⟨hcs, rfl⟩ | ⟨c, ds, vs, hcs, hc, hvs, rfl⟩)
    · simp only [hcs]
    · simp only [hcs]
      split
      · next heq => cases heq
      · next heq => exact absurd (List.cons.inj heq).1 hc
      · show readItems item (ds.length + 2) (c :: ds) >>= _ = _
        rw [hvs]
        rfl

/-- A member is a key, a colon and a value. -/
theorem readMember_ok {k : String} {v : Value} :
    readMember item cs = .ok ((k, v), rest) ↔
      ∃ r r', readString cs = .ok (k, r) ∧ skipBlanks r = ':' :: r' ∧ item r' = .ok (v, rest) := by
  rw [readMember, bind_eq_ok]
  constructor
  · rintro ⟨⟨key, r⟩, hkey, h⟩
    simp only at h
    split at h
    · cases h
    · next r' hr =>
      obtain ⟨⟨w, rest'⟩, hw, h⟩ := bind_eq_ok.mp h
      obtain ⟨hkv, rfl⟩ := Prod.mk.inj (Except.ok.inj h)
      obtain ⟨rfl, rfl⟩ := Prod.mk.inj hkv
      exact ⟨r, r', hkey, hr, hw⟩
    · cases h
  · rintro ⟨r, r', hkey, hr, hv⟩
    refine ⟨(k, r), hkey, ?_⟩
    simp only [hr]
    rw [hv]
    rfl

/-- The members of an object are one member and then the brace, or a comma and more members. -/
theorem readMembers_succ_ok {before ms : Members} :
    readMembers item before (fuel + 1) cs = .ok (ms, rest) ↔
      ∃ k v r, readMember item cs = .ok ((k, v), r) ∧
        ((skipBlanks r = '\x7d' :: rest ∧ ms = before.insert k v) ∨
          ∃ r' r'', skipBlanks r = ',' :: r' ∧ skipBlanks r' = '"' :: r'' ∧
            readMembers item (before.insert k v) fuel r'' = .ok (ms, rest)) := by
  rw [readMembers, bind_eq_ok]
  constructor
  · rintro ⟨⟨⟨k, v⟩, r⟩, hkv, h⟩
    refine ⟨k, v, r, hkv, ?_⟩
    simp only at h
    split at h
    · cases h
    · next r' hr =>
      obtain ⟨rfl, rfl⟩ := Prod.mk.inj (Except.ok.inj h)
      exact .inl ⟨hr, rfl⟩
    · next r' hr =>
      split at h
      · cases h
      · next r'' hr' => exact .inr ⟨r', r'', hr, hr', h⟩
      · cases h
      · cases h
    · cases h
  · rintro ⟨k, v, r, hkv, ⟨hr, rfl⟩ | ⟨r', r'', hr, hr', h⟩⟩
    · refine ⟨((k, v), r), hkv, ?_⟩
      simp only [hr]
    · refine ⟨((k, v), r), hkv, ?_⟩
      simp only [hr, hr']
      exact h

/-- Behind its brace an object is empty or has members. -/
theorem readObject_ok {v : Value} :
    readObject item cs = .ok (v, rest) ↔
      (skipBlanks cs = '\x7d' :: rest ∧ v = .object []) ∨
        ∃ r ms, skipBlanks cs = '"' :: r ∧
          readMembers item [] (r.length + 1) r = .ok (ms, rest) ∧ v = .object ms := by
  rw [readObject]
  constructor
  · intro h
    split at h
    · cases h
    · next r hr =>
      obtain ⟨rfl, rfl⟩ := Prod.mk.inj (Except.ok.inj h)
      exact .inl ⟨hr, rfl⟩
    · next r hr =>
      obtain ⟨⟨ms, rest'⟩, hms, h⟩ := bind_eq_ok.mp h
      obtain ⟨rfl, rfl⟩ := Prod.mk.inj (Except.ok.inj h)
      exact .inr ⟨r, ms, hr, hms, rfl⟩
    · cases h
  · rintro (⟨hcs, rfl⟩ | ⟨r, ms, hcs, hms, rfl⟩)
    · simp only [hcs]
    · simp only [hcs]
      rw [hms]
      rfl

end Containers

/-! ## Values -/

/-- The ways to read a value whose leading blanks are skipped. -/
inductive ValueRead : Nat → List Char → Value → List Char → Prop
  | null {depth cs rest} (h : readWord ['u', 'l', 'l'] cs = .ok rest) :
    ValueRead depth ('n' :: cs) .null rest
  | true {depth cs rest} (h : readWord ['r', 'u', 'e'] cs = .ok rest) :
    ValueRead depth ('t' :: cs) (.bool true) rest
  | false {depth cs rest} (h : readWord ['a', 'l', 's', 'e'] cs = .ok rest) :
    ValueRead depth ('f' :: cs) (.bool false) rest
  | string {depth cs s rest} (h : readString cs = .ok (s, rest)) :
    ValueRead depth ('"' :: cs) (.string s) rest
  | negative {depth cs n rest} (h : readNumber true cs = .ok (n, rest)) :
    ValueRead depth ('-' :: cs) (.number n) rest
  | positive {depth c cs n rest} (hc : c.isDigit = true)
    (h : readNumber false (c :: cs) = .ok (n, rest)) : ValueRead depth (c :: cs) (.number n) rest
  | array {depth cs v rest} (h : readArray (readValue depth) cs = .ok (v, rest)) :
    ValueRead (depth + 1) ('[' :: cs) v rest
  | object {depth cs v rest} (h : readObject (readValue depth) cs = .ok (v, rest)) :
    ValueRead (depth + 1) ('\x7b' :: cs) v rest

section Values

variable {depth : Nat} {cs rest : List Char} {v : Value}

/-- What the reader takes is read in one of the ways. -/
theorem valueRead_of_readValue (h : readValue depth cs = .ok (v, rest)) :
    ValueRead depth (skipBlanks cs) v rest := by
  unfold readValue at h
  split at h
  · cases h
  · next r hr =>
    obtain ⟨r', hword, h⟩ := bind_eq_ok.mp h
    obtain ⟨rfl, rfl⟩ := Prod.mk.inj (Except.ok.inj h)
    exact hr ▸ .null hword
  · next r hr =>
    obtain ⟨r', hword, h⟩ := bind_eq_ok.mp h
    obtain ⟨rfl, rfl⟩ := Prod.mk.inj (Except.ok.inj h)
    exact hr ▸ .true hword
  · next r hr =>
    obtain ⟨r', hword, h⟩ := bind_eq_ok.mp h
    obtain ⟨rfl, rfl⟩ := Prod.mk.inj (Except.ok.inj h)
    exact hr ▸ .false hword
  · next r hr =>
    obtain ⟨⟨s, r'⟩, hs, h⟩ := bind_eq_ok.mp h
    obtain ⟨rfl, rfl⟩ := Prod.mk.inj (Except.ok.inj h)
    exact hr ▸ .string hs
  · next r hr =>
    obtain ⟨⟨n, r'⟩, hn, h⟩ := bind_eq_ok.mp h
    obtain ⟨rfl, rfl⟩ := Prod.mk.inj (Except.ok.inj h)
    exact hr ▸ .negative hn
  · next r hr =>
    split at h
    · cases h
    · exact hr ▸ .array h
  · next r hr =>
    split at h
    · cases h
    · exact hr ▸ .object h
  · next c r _ _ _ _ _ _ _ hr =>
    split at h
    · next hc =>
      obtain ⟨⟨n, r'⟩, hn, h⟩ := bind_eq_ok.mp h
      obtain ⟨rfl, rfl⟩ := Prod.mk.inj (Except.ok.inj h)
      exact hr ▸ .positive hc hn
    · cases h

/-- What can be read in one of the ways is taken by the reader. -/
theorem readValue_of_valueRead (h : ValueRead depth (skipBlanks cs) v rest) :
    readValue depth cs = .ok (v, rest) := by
  generalize hcs : skipBlanks cs = skipped at h
  unfold readValue
  rw [hcs]
  cases h with
  | null h => simp only [h]; rfl
  | true h => simp only [h]; rfl
  | false h => simp only [h]; rfl
  | string h => simp only [h]; rfl
  | negative h => simp only [h]; rfl
  | array h => exact h
  | object h => exact h
  | positive hc h =>
    -- no other token begins with a digit
    have hne : ∀ c ∈ ['n', 't', 'f', '"', '-', '[', '\x7b'], c.isDigit = Bool.false := by simp
    split
    · next heq => cases heq
    · next heq => simp [(List.cons.inj heq).1, hne] at hc
    · next heq => simp [(List.cons.inj heq).1, hne] at hc
    · next heq => simp [(List.cons.inj heq).1, hne] at hc
    · next heq => simp [(List.cons.inj heq).1, hne] at hc
    · next heq => simp [(List.cons.inj heq).1, hne] at hc
    · next heq => simp [(List.cons.inj heq).1, hne] at hc
    · next heq => simp [(List.cons.inj heq).1, hne] at hc
    · next heq =>
      obtain ⟨rfl, rfl⟩ := List.cons.inj heq
      rw [if_pos hc, h]
      rfl

/-- The reader takes just the values that can be read in one of the ways. -/
theorem readValue_ok :
    readValue depth cs = .ok (v, rest) ↔ ValueRead depth (skipBlanks cs) v rest :=
  ⟨valueRead_of_readValue, readValue_of_valueRead⟩

/-- Blanks in front of a value do not matter. -/
theorem readValue_skipBlanks (depth : Nat) (cs : List Char) :
    readValue depth (skipBlanks cs) = readValue depth cs := by
  unfold readValue
  rw [skipBlanks_skipBlanks]

/-- A value is not taken for the end of a list. -/
theorem exists_of_readValue (h : readValue depth cs = .ok (v, rest)) :
    ∃ c ds, skipBlanks cs = c :: ds ∧ c ≠ ']' := by
  rw [readValue_ok] at h
  generalize skipBlanks cs = skipped at h
  cases h with
  | positive hc h =>
    refine ⟨_, _, rfl, ?_⟩
    rintro rfl
    exact absurd hc (by decide)
  | _ => exact ⟨_, _, rfl, by decide⟩

end Values

end TypedCall.Json
