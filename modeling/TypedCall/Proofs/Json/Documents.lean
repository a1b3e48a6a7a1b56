import TypedCall.Proofs.Json.Order
import TypedCall.Proofs.Json.Reading
import Mathlib.Data.List.TakeWhile

/-!
# What documents can hold

A value that is read of a text repeats no key, its integers have 64 bits, and its arrays and
objects do not stand too deep in each other (`IsDocument`). The proof walks over the readers once,
for any property of texts that is kept when tokens are consumed (`TextInvariant`), so that other
facts about what is read need no walk of their own.
-/

namespace TypedCall.Json

/-! ## Properties of contents -/

namespace Value

mutual

/-- Every number and every text inside the value has its property; keys are texts. -/
def All (N : Number → Prop) (S : String → Prop) : Value → Prop
  | number n => N n
  | string s => S s
  | array items => AllItems N S items
  | object members => AllMembers N S members
  | null | bool _ => True

/-- Every number and every text inside the items has its property. -/
def AllItems (N : Number → Prop) (S : String → Prop) : List Value → Prop
  | [] => True
  | v :: vs => v.All N S ∧ AllItems N S vs

/-- Every number, every text and every key of the members has its property. -/
def AllMembers (N : Number → Prop) (S : String → Prop) : List (String × Value) → Prop
  | [] => True
  | (k, v) :: rest => S k ∧ v.All N S ∧ AllMembers N S rest

end

variable {N : Number → Prop} {S : String → Prop}

/-- What holds of the contents of an array holds of the contents of its items. -/
theorem all_array {items : List Value} :
    (array items).All N S ↔ ∀ v ∈ items, v.All N S := by
  rw [All]
  induction items with
  | nil => simp [AllItems]
  | cons v vs ih => simp [AllItems, ih]

/-- What holds of the contents of an object holds of its keys and of the contents of its values. -/
theorem all_object {members : Members} :
    (object members).All N S ↔ ∀ m ∈ members, S m.1 ∧ m.2.All N S := by
  rw [All]
  induction members with
  | nil => simp [AllMembers]
  | cons m ms ih =>
    obtain ⟨k, v⟩ := m
    simp [AllMembers, ih, and_assoc]

/-- Properties of contents that follow from two others. -/
theorem All.imp₂ {N₁ N₂ : Number → Prop} {S₁ S₂ : String → Prop}
    (hN : ∀ n, N₁ n → N₂ n → N n) (hS : ∀ s, S₁ s → S₂ s → S s) {v : Value}
    (h₁ : v.All N₁ S₁) (h₂ : v.All N₂ S₂) : v.All N S := by
  induction v using Value.induction with
  | null | bool b => trivial
  | number n => exact hN n h₁ h₂
  | string s => exact hS s h₁ h₂
  | array items ih =>
    rw [all_array] at *
    exact fun v hv => ih v hv (h₁ v hv) (h₂ v hv)
  | object members ih =>
    rw [all_object] at *
    exact fun m hm => ⟨hS m.1 (h₁ m hm).1 (h₂ m hm).1, ih m.1 m.2 hm (h₁ m hm).2 (h₂ m hm).2⟩

theorem depth_array_le {items : List Value} {d : Nat} :
    (array items).depth ≤ d + 1 ↔ ∀ v ∈ items, v.depth ≤ d := by
  rw [depth, Nat.succ_le_succ_iff]
  induction items with
  | nil => simp [depthItems]
  | cons v vs ih => rw [depthItems, Nat.max_le, ih, List.forall_mem_cons]

theorem depth_object_le {members : Members} {d : Nat} :
    (object members).depth ≤ d + 1 ↔ ∀ m ∈ members, m.2.depth ≤ d := by
  rw [depth, Nat.succ_le_succ_iff]
  induction members with
  | nil => simp [depthMembers]
  | cons m ms ih =>
    obtain ⟨k, v⟩ := m
    rw [depthMembers, Nat.max_le, ih, List.forall_mem_cons]

end Value

/-! ## Numbers -/

/-- A number that a document can hold: an integer has 64 bits. -/
def Number.Fits : Number → Prop
  | .integer i => fits64 i = true
  | .double _ => True

/-- A character of a written number. -/
def IsNumberChar (c : Char) : Prop := c.isDigit = true ∨ c ∈ ['.', 'e', 'E', '+', '-']

/-- What is left of a text when characters of a number are consumed. -/
def AfterNumber (cs rest : List Char) : Prop := ∃ ds, cs = ds ++ rest ∧ ∀ c ∈ ds, IsNumberChar c

theorem AfterNumber.refl (cs : List Char) : AfterNumber cs cs := ⟨[], rfl, by simp⟩

theorem AfterNumber.cons {c : Char} {cs rest : List Char} (hc : IsNumberChar c)
    (h : AfterNumber cs rest) : AfterNumber (c :: cs) rest := by
  obtain ⟨ds, rfl, hds⟩ := h
  refine ⟨c :: ds, rfl, fun d hd => ?_⟩
  rcases List.mem_cons.mp hd with rfl | hd
  · exact hc
  · exact hds d hd

theorem AfterNumber.trans {as bs cs : List Char} (h : AfterNumber as bs) (h' : AfterNumber bs cs) :
    AfterNumber as cs := by
  obtain ⟨ds, rfl, hds⟩ := h
  obtain ⟨es, rfl, hes⟩ := h'
  refine ⟨ds ++ es, (List.append_assoc ds es cs).symm, fun c hc => ?_⟩
  rcases List.mem_append.mp hc with hc | hc
  · exact hds c hc
  · exact hes c hc

/-- Digits are characters of a number. -/
theorem afterNumber_dropWhile (cs : List Char) : AfterNumber cs (cs.dropWhile Char.isDigit) := by
  refine ⟨cs.takeWhile Char.isDigit, List.takeWhile_append_dropWhile.symm, fun c hc => ?_⟩
  exact .inl (List.mem_takeWhile_imp hc)

/-- A double that is made consumes nothing more, and always fits. -/
theorem makeDouble_ok {negative : Bool} {digits : Nat} {exponent : Int} {rest rest' : List Char}
    {n : Number} (h : makeDouble negative digits exponent rest = .ok (n, rest')) :
    n.Fits ∧ rest' = rest := by
  rw [makeDouble] at h
  split at h
  · obtain ⟨rfl, rfl⟩ := Prod.mk.inj (Except.ok.inj h)
    exact ⟨trivial, rfl⟩
  · cases h

/-- The digits of an exponent are consumed, whether or not it becomes too large. -/
theorem afterNumber_exponentDigits (value : Nat) (cs : List Char) :
    AfterNumber cs (exponentDigits value cs).2.2 := by
  induction cs generalizing value with
  | nil => exact .refl []
  | cons c cs ih =>
    rw [exponentDigits]
    by_cases hc : c.isDigit = true
    · rw [if_pos hc]
      simp only
      split
      · exact .cons (.inl hc) (.refl cs)
      · exact .cons (.inl hc) (ih _)
    · rw [if_neg hc]
      exact .refl _

/-- An exponent consumes its sign and its digits, and what comes out fits. -/
theorem readExponent_ok {negative : Bool} {digits : Nat} {start : Int} {cs rest : List Char}
    {n : Number} (h : readExponent negative digits start cs = .ok (n, rest)) :
    n.Fits ∧ AfterNumber cs rest := by
  revert h
  fun_cases readExponent negative digits start cs with
  | case1 | case5 =>
    intro h
    cases h
  | case2 down c ds hc value rest' hsign hread =>
    intro h
    have hafter := afterNumber_exponentDigits 0 (c :: ds)
    rw [hread] at h hafter
    obtain ⟨hn, rfl⟩ := makeDouble_ok h
    refine ⟨hn, ?_⟩
    -- the digits begin behind the sign when there is one
    split at hsign <;> obtain ⟨-, rfl⟩ := Prod.mk.inj hsign
    · exact .cons (.inr (by simp)) hafter
    · exact .cons (.inr (by simp)) hafter
    · exact hafter
  | case3 down c ds hc value rest' hzero hsign hread =>
    intro h
    simp only [hread, if_pos hzero] at h
    cases h
  | case4 down c ds hc value rest' hzero hsign hread =>
    intro h
    have hafter := afterNumber_exponentDigits 0 (c :: ds)
    simp only [hread, if_neg hzero] at h hafter
    obtain ⟨rfl, rfl⟩ := Prod.mk.inj (Except.ok.inj h)
    have hafter' := hafter.trans (afterNumber_dropWhile rest')
    refine ⟨trivial, ?_⟩
    split at hsign <;> obtain ⟨-, rfl⟩ := Prod.mk.inj hsign
    · exact .cons (.inr (by simp)) hafter'
    · exact .cons (.inr (by simp)) hafter'
    · exact hafter'

/-- Behind the digits of an integer, a fraction and an exponent are consumed if they are there. -/
theorem readTail_ok {negative : Bool} {digits : Nat} {cs rest : List Char} {n : Number}
    (h : readTail negative digits cs = .ok (n, rest)) : n.Fits ∧ AfterNumber cs rest := by
  unfold readTail at h
  split at h
  · next r =>
    have hpoint : IsNumberChar '.' := .inr (by simp)
    have he : IsNumberChar 'e' := .inr (by simp)
    have hE : IsNumberChar 'E' := .inr (by simp)
    have hfraction := afterNumber_dropWhile r
    simp only at h
    split at h
    · split at h <;> cases h
    · split at h
      · next r' hr =>
        obtain ⟨hn, hafter⟩ := readExponent_ok h
        exact ⟨hn, .cons hpoint (hfraction.trans (hr ▸ .cons he hafter))⟩
      · next r' hr =>
        obtain ⟨hn, hafter⟩ := readExponent_ok h
        exact ⟨hn, .cons hpoint (hfraction.trans (hr ▸ .cons hE hafter))⟩
      · obtain ⟨hn, rfl⟩ := makeDouble_ok h
        exact ⟨hn, .cons hpoint hfraction⟩
  · obtain ⟨hn, hafter⟩ := readExponent_ok h
    exact ⟨hn, .cons (.inr (by simp)) hafter⟩
  · obtain ⟨hn, hafter⟩ := readExponent_ok h
    exact ⟨hn, .cons (.inr (by simp)) hafter⟩
  · simp only at h
    generalize (if negative = true then -(digits : Int) else digits) = i at h
    split at h
    · next hfits =>
      obtain ⟨rfl, rfl⟩ := Prod.mk.inj (Except.ok.inj h)
      exact ⟨(Bool.and_eq_true_iff.mp hfits).1, .refl _⟩
    · obtain ⟨hn, rfl⟩ := makeDouble_ok h
      exact ⟨hn, .refl _⟩

/-- Only characters of a number are consumed, and an integer has 64 bits. -/
theorem readNumber_ok {negative : Bool} {cs rest : List Char} {n : Number}
    (h : readNumber negative cs = .ok (n, rest)) : n.Fits ∧ AfterNumber cs rest := by
  have hzero : IsNumberChar '0' := .inl rfl
  unfold readNumber at h
  split at h
  · cases h
  · split at h
    · split at h
      · cases h
      · obtain ⟨hn, hafter⟩ := readTail_ok h
        exact ⟨hn, .cons hzero hafter⟩
    · obtain ⟨hn, hafter⟩ := readTail_ok h
      exact ⟨hn, .cons hzero hafter⟩
  · next c ds _ =>
    split at h
    · obtain ⟨hn, hafter⟩ := readTail_ok h
      exact ⟨hn, (afterNumber_dropWhile _).trans hafter⟩
    · cases h

/-! ## What is kept while a text is read -/

/-- A property of texts that is kept when tokens are consumed, with what it gives of the numbers
and the strings that are read. -/
structure TextInvariant (Q : List Char → Prop) (N : Number → Prop) (S : String → Prop) : Prop where
  tail : ∀ {c cs}, c ≠ '\\' → Q (c :: cs) → Q cs
  number : ∀ {negative cs n rest}, readNumber negative cs = .ok (n, rest) → N n
  string : ∀ {cs s rest}, Q cs → readString cs = .ok (s, rest) → S s ∧ Q rest

namespace TextInvariant

variable {Q : List Char → Prop} {N : Number → Prop} {S : String → Prop}
  {item : List Char → Except Fault (Read Value)} {P : Value → Prop} {cs rest : List Char}

/-- An invariant holds behind any text without backslashes. -/
theorem append (hQ : TextInvariant Q N S) {ds : List Char} (hds : ∀ c ∈ ds, c ≠ '\\')
    (h : Q (ds ++ cs)) : Q cs := by
  induction ds with
  | nil => exact h
  | cons d ds ih =>
    exact ih (fun c hc => hds c (List.mem_cons_of_mem _ hc)) (hQ.tail (hds d List.mem_cons_self) h)

/-- An invariant holds behind blanks. -/
theorem skipBlanks (hQ : TextInvariant Q N S) (h : Q cs) : Q (skipBlanks cs) := by
  have hblanks : ∀ c ∈ cs.takeWhile isJsonBlank, c ≠ '\\' := by
    rintro c hc rfl
    exact absurd (List.mem_takeWhile_imp hc) (by decide)
  refine hQ.append hblanks ?_
  rw [Json.skipBlanks, List.takeWhile_append_dropWhile]
  exact h

/-- The text behind a token that stands after blanks. -/
theorem token (hQ : TextInvariant Q N S) (h : Q cs) {c : Char} (hc : c ≠ '\\')
    (heq : Json.skipBlanks cs = c :: rest) : Q rest :=
  hQ.tail hc (heq ▸ hQ.skipBlanks h)

/-- An invariant holds behind a number. -/
theorem afterNumber (hQ : TextInvariant Q N S) (h : Q cs) (hrest : AfterNumber cs rest) :
    Q rest := by
  obtain ⟨ds, rfl, hds⟩ := hrest
  refine hQ.append (fun c hc => ?_) h
  rintro rfl
  rcases hds _ hc with hd | hd
  · exact absurd hd (by decide)
  · simp at hd

/-- An invariant holds behind a word that was expected. -/
theorem readWord (hQ : TextInvariant Q N S) {word : List Char} (hword : ∀ c ∈ word, c ≠ '\\')
    (hcs : Q cs) (h : readWord word cs = .ok rest) : Q rest := by
  induction word generalizing cs with
  | nil =>
    obtain rfl := Except.ok.inj h
    exact hcs
  | cons w word ih =>
    cases cs with
    | nil => cases h
    | cons c cs =>
      rw [Json.readWord] at h
      split at h
      · next hc =>
        subst hc
        exact ih (fun d hd => hword d (List.mem_cons_of_mem _ hd))
          (hQ.tail (hword c List.mem_cons_self) hcs) h
      · cases h

/-- When one item is read with its property and keeps the invariant, so are all items up to the
bracket. -/
theorem readItems (hQ : TextInvariant Q N S)
    (hitem : ∀ {cs v rest}, Q cs → item cs = .ok (v, rest) → P v ∧ Q rest) {fuel : Nat}
    {vs : List Value} (hcs : Q cs) (h : readItems item fuel cs = .ok (vs, rest)) :
    (∀ v ∈ vs, P v) ∧ Q rest := by
  induction fuel generalizing cs vs with
  | zero => cases h
  | succ fuel ih =>
    obtain ⟨v, r, hv, ⟨hr, rfl⟩ | ⟨r', c, ds, vs', hr, hds, -, hvs, rfl⟩⟩ := readItems_succ_ok.mp h
    · obtain ⟨hP, hQr⟩ := hitem hcs hv
      exact ⟨by simpa using hP, hQ.token hQr (by decide) hr⟩
    · obtain ⟨hP, hQr⟩ := hitem hcs hv
      have hQr' : Q r' := hQ.token hQr (by decide) hr
      obtain ⟨hPs, hQrest⟩ := ih (hds ▸ hQ.skipBlanks hQr') hvs
      exact ⟨List.forall_mem_cons.mpr ⟨hP, hPs⟩, hQrest⟩

/-- When one value is read with its property and keeps the invariant, so are all members up to the
brace, and no key is repeated among them. -/
theorem readMembers (hQ : TextInvariant Q N S)
    (hitem : ∀ {cs v rest}, Q cs → item cs = .ok (v, rest) → P v ∧ Q rest) {fuel : Nat}
    {before ms : Members} (hcs : Q cs) (hbefore : ∀ m ∈ before, S m.1 ∧ P m.2)
    (hn : before.keys.Nodup) (h : readMembers item before fuel cs = .ok (ms, rest)) :
    (∀ m ∈ ms, S m.1 ∧ P m.2) ∧ ms.keys.Nodup ∧ Q rest := by
  induction fuel generalizing cs before with
  | zero => cases h
  | succ fuel ih =>
    obtain ⟨k, v, r, hkv, hr⟩ := readMembers_succ_ok.mp h
    obtain ⟨r₁, r₂, hk, hr₁, hv⟩ := readMember_ok.mp hkv
    obtain ⟨hS, hQr₁⟩ := hQ.string hcs hk
    obtain ⟨hP, hQr⟩ := hitem (hQ.token hQr₁ (by decide) hr₁) hv
    -- a key that is repeated replaces the value that was read before
    have hinsert : ∀ m ∈ before.insert k v, S m.1 ∧ P m.2 := by
      intro m hm
      rcases Members.mem_insert hm with hm | rfl
      · exact hbefore m hm
      · exact ⟨hS, hP⟩
    obtain ⟨hr, rfl⟩ | ⟨r', r'', hr, hr', hms⟩ := hr
    · exact ⟨hinsert, Members.nodup_keys_insert hn, hQ.token hQr (by decide) hr⟩
    · exact ih (hQ.token (hQ.token hQr (by decide) hr) (by decide) hr') hinsert
        (Members.nodup_keys_insert hn) hms

end TextInvariant

/-- What a value that is read is made of. -/
structure Value.Holds (N : Number → Prop) (S : String → Prop) (depth : Nat) (v : Value) : Prop where
  all : v.All N S
  wellFormed : v.WellFormed
  depth : v.depth ≤ depth

namespace Value

variable {N : Number → Prop} {S : String → Prop} {depth : Nat}

/-- An array is made of items that are made likewise, with one level less to go. -/
theorem holds_array {items : List Value} :
    (array items).Holds N S (depth + 1) ↔ ∀ v ∈ items, v.Holds N S depth := by
  constructor
  · intro h v hv
    exact ⟨all_array.mp h.all v hv, wellFormed_array.mp h.wellFormed v hv,
      depth_array_le.mp h.depth v hv⟩
  · intro h
    exact ⟨all_array.mpr fun v hv => (h v hv).all,
      wellFormed_array.mpr fun v hv => (h v hv).wellFormed,
      depth_array_le.mpr fun v hv => (h v hv).depth⟩

/-- An object is made of keys without repetition, and of values with one level less to go. -/
theorem holds_object {members : Members} :
    (object members).Holds N S (depth + 1) ↔
      (∀ m ∈ members, S m.1 ∧ m.2.Holds N S depth) ∧ members.keys.Nodup := by
  constructor
  · intro h
    obtain ⟨hn, hw⟩ := wellFormed_object.mp h.wellFormed
    refine ⟨fun m hm => ?_, hn⟩
    obtain ⟨hS, hall⟩ := all_object.mp h.all m hm
    exact ⟨hS, hall, hw m.1 m.2 hm, depth_object_le.mp h.depth m hm⟩
  · rintro ⟨h, hn⟩
    exact ⟨all_object.mpr fun m hm => ⟨(h m hm).1, (h m hm).2.all⟩,
      wellFormed_object.mpr ⟨hn, fun _ _ hmem => (h _ hmem).2.wellFormed⟩,
      depth_object_le.mpr fun m hm => (h m hm).2.depth⟩

end Value

/-- What is read of a text with an invariant, and what is left of the text. -/
theorem TextInvariant.readValue {Q : List Char → Prop} {N : Number → Prop} {S : String → Prop}
    (hQ : TextInvariant Q N S) {depth : Nat} {cs rest : List Char} {v : Value} (hcs : Q cs)
    (h : readValue depth cs = .ok (v, rest)) : v.Holds N S depth ∧ Q rest := by
  -- on the depth that is left: the reader of items and members is that of one level less
  induction depth using Nat.strong_induction_on generalizing cs rest v with
  | _ depth ih =>
    have hskip := hQ.skipBlanks hcs
    have hleaf : ∀ {v : Value}, v.All N S → v.WellFormed → v.depth = 0 → v.Holds N S depth :=
      fun hall hw hd => ⟨hall, hw, by omega⟩
    rw [readValue_ok] at h
    generalize Json.skipBlanks cs = skipped at h hskip
    cases h with
    | null h =>
      exact ⟨hleaf trivial trivial rfl, hQ.readWord (by simp) (hQ.tail (by decide) hskip) h⟩
    | true h =>
      exact ⟨hleaf trivial trivial rfl, hQ.readWord (by simp) (hQ.tail (by decide) hskip) h⟩
    | false h =>
      exact ⟨hleaf trivial trivial rfl, hQ.readWord (by simp) (hQ.tail (by decide) hskip) h⟩
    | string h =>
      obtain ⟨hS, hrest⟩ := hQ.string (hQ.tail (by decide) hskip) h
      exact ⟨hleaf hS trivial rfl, hrest⟩
    | negative h =>
      have hrest := hQ.afterNumber (hQ.tail (by decide) hskip) (readNumber_ok h).2
      exact ⟨hleaf (hQ.number h) trivial rfl, hrest⟩
    | positive hc h =>
      exact ⟨hleaf (hQ.number h) trivial rfl, hQ.afterNumber hskip (readNumber_ok h).2⟩
    | @array depth cs v rest h =>
      have htail := hQ.tail (by decide) hskip
      obtain ⟨hcs, rfl⟩ | ⟨c, ds, vs, hcs, -, hvs, rfl⟩ := readArray_ok.mp h
      · exact ⟨Value.holds_array.mpr (by simp), hQ.token htail (by decide) hcs⟩
      · obtain ⟨hitems, hrest⟩ := hQ.readItems (ih depth (Nat.lt_succ_self depth))
          (hcs ▸ hQ.skipBlanks htail) hvs
        exact ⟨Value.holds_array.mpr hitems, hrest⟩
    | @object depth cs v rest h =>
      have htail := hQ.tail (by decide) hskip
      obtain ⟨hcs, rfl⟩ | ⟨r, ms, hcs, hms, rfl⟩ := readObject_ok.mp h
      · exact ⟨Value.holds_object.mpr (by simp), hQ.token htail (by decide) hcs⟩
      · obtain ⟨hmembers, hn, hrest⟩ := hQ.readMembers (ih depth (Nat.lt_succ_self depth))
          (hQ.token htail (by decide) hcs) (by simp) (by simp) hms
        exact ⟨Value.holds_object.mpr ⟨hmembers, hn⟩, hrest⟩

/-! ## Documents -/

/-- A text is a document when a value can be read of it and nothing but blanks is left. -/
theorem parse_eq_ok {text : String} {v : Value} :
    Value.parse text = .ok v ↔
      ∃ rest, readValue nestingLimit text.toList = .ok (v, rest) ∧ skipBlanks rest = [] := by
  rw [Value.parse]
  have hdoc : readDocument text.toList = .ok v ↔
      ∃ rest, readValue nestingLimit text.toList = .ok (v, rest) ∧ skipBlanks rest = [] := by
    rw [readDocument, bind_eq_ok]
    constructor
    · rintro ⟨⟨w, rest⟩, hw, h⟩
      simp only at h
      split at h
      · next hrest =>
        obtain rfl := Except.ok.inj h
        exact ⟨rest, hw, hrest⟩
      · cases h
    · rintro ⟨rest, hv, hrest⟩
      refine ⟨(v, rest), hv, ?_⟩
      simp only [hrest]
  rw [← hdoc]
  cases readDocument text.toList <;> simp

/-- What is read of a text with an invariant. -/
theorem TextInvariant.parse {Q : List Char → Prop} {N : Number → Prop} {S : String → Prop}
    (hQ : TextInvariant Q N S) {text : String} {v : Value} (htext : Q text.toList)
    (h : Value.parse text = .ok v) : v.Holds N S nestingLimit := by
  obtain ⟨rest, hv, -⟩ := parse_eq_ok.mp h
  exact (hQ.readValue htext hv).1

/-- A value that a text can hold: it repeats no key, its integers have 64 bits, and it is not too
deep. -/
abbrev Value.IsDocument (v : Value) : Prop := v.Holds Number.Fits (fun _ => True) nestingLimit

/-- Whatever can be read of a text is a document. -/
theorem isDocument_of_parse {text : String} {v : Value} (h : Value.parse text = .ok v) :
    v.IsDocument := by
  have hQ : TextInvariant (fun _ => True) Number.Fits (fun _ => True) :=
    ⟨fun _ _ => trivial, fun h => (readNumber_ok h).1, fun _ _ => ⟨trivial, trivial⟩⟩
  exact hQ.parse trivial h

end TypedCall.Json
