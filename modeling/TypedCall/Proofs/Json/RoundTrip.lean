import TypedCall.Proofs.Json.Numbers
import TypedCall.Proofs.Json.Strings

/-!
# Written documents read back

`ReadsBack` says of a text that the reader takes it for a value and stops behind it. It holds of a
text for an array or an object as soon as it holds of the texts between the commas, whatever
blanks stand around them (`readsBack_array`, `readsBack_object`), so it holds of both ways to write
a value. A document that the reader can hold is one whose members repeat no key, whose integers
have 64 bits, and whose arrays and objects do not stand too deep in each other.
-/

namespace TypedCall.Json

/-! ## Texts that read back -/

section Blanks

variable {bs cs : List Char} {c : Char}

/-- A new line with its indentation is blank. -/
theorem isBlanks_newLine (level : Nat) : IsBlanks (Value.newLine level) := by
  intro c hc
  rcases List.mem_cons.mp hc with rfl | hc
  · rfl
  · rw [(List.mem_replicate.mp hc).2]
    rfl

/-- Skipping blanks does not reach beyond a character that is none. -/
theorem length_lt_skipBlanks (hc : isJsonBlank c = false) :
    cs.length < (skipBlanks (bs ++ c :: cs)).length := by
  induction bs with
  | nil =>
    rw [List.nil_append, skipBlanks_cons hc, List.length_cons]
    omega
  | cons b bs ih =>
    rw [List.cons_append]
    cases hb : isJsonBlank b with
    | true =>
      rw [skipBlanks_blank hb]
      exact ih
    | false =>
      rw [skipBlanks_cons hb]
      simp only [List.length_cons, List.length_append]
      omega

theorem endsNumber_cons (hc : c.isDigit = false ∧ c ≠ '.' ∧ c ≠ 'e' ∧ c ≠ 'E') :
    EndsNumber (c :: cs) := by
  intro d hd
  obtain rfl := Option.some.inj hd
  exact hc

theorem endsNumber_nil : EndsNumber [] := by
  intro d hd
  cases hd

/-- Blanks do not continue a number. -/
theorem endsNumber_append (hb : IsBlanks bs) (hcs : EndsNumber cs) : EndsNumber (bs ++ cs) := by
  cases bs with
  | nil => exact hcs
  | cons b bs =>
    have hblank : isJsonBlank b = true := hb b List.mem_cons_self
    simp only [isJsonBlank, Bool.or_eq_true, beq_iff_eq] at hblank
    rw [List.cons_append]
    rcases hblank with ((rfl | rfl) | rfl) | rfl <;> exact endsNumber_cons (by decide)

end Blanks

/-- The text is taken for the value, and the reader stops behind it. -/
def ReadsBack (depth : Nat) (v : Value) (text : List Char) : Prop :=
  ∀ rest, EndsNumber rest → readValue depth (text ++ rest) = .ok (v, rest)

/-- Blanks in front of a text are read over. -/
theorem ReadsBack.append_left {depth : Nat} {v : Value} {text bs : List Char}
    (h : ReadsBack depth v text) (hb : IsBlanks bs) : ReadsBack depth v (bs ++ text) := by
  intro rest hrest
  rw [List.append_assoc, ← readValue_skipBlanks, skipBlanks_append hb, readValue_skipBlanks]
  exact h rest hrest

/-- Texts after the first one, each behind a comma. -/
def afterCommas (texts : List (List Char)) : List Char := texts.flatMap (',' :: ·)

/-- Texts with commas between them. -/
def commaSeparated : List (List Char) → List Char
  | [] => []
  | text :: texts => text ++ afterCommas texts

theorem afterCommas_cons (text : List Char) (texts : List (List Char)) :
    afterCommas (text :: texts) = ',' :: (text ++ afterCommas texts) := by
  rw [afterCommas, List.flatMap_cons, List.cons_append]
  rfl

theorem commaSeparated_append {texts : List (List Char)} (h : texts ≠ []) (text : List Char)
    (more : List (List Char)) :
    commaSeparated (texts ++ text :: more) =
      commaSeparated texts ++ ',' :: commaSeparated (text :: more) := by
  cases texts with
  | nil => exact absurd rfl h
  | cons first texts => simp [commaSeparated, afterCommas]

theorem length_le_afterCommas (texts : List (List Char)) :
    texts.length ≤ (afterCommas texts).length := by
  induction texts with
  | nil => exact Nat.le_refl _
  | cons text texts ih =>
    rw [afterCommas_cons, List.length_cons, List.length_cons, List.length_append]
    omega

/-! ## Arrays -/

section Items

variable {depth fuel : Nat} {v : Value} {items : List Value} {text bs rest : List Char}
  {texts : List (List Char)}

/-- Behind an item stands a comma or the end of the array, neither of which continues a number. -/
theorem endsNumber_afterCommas (hrest : EndsNumber rest) :
    EndsNumber (afterCommas texts ++ rest) := by
  cases texts with
  | nil => exact hrest
  | cons text texts =>
    rw [afterCommas_cons]
    exact endsNumber_cons (by decide)

theorem endsNumber_close (hb : IsBlanks bs) {c : Char}
    (hc : c.isDigit = false ∧ c ≠ '.' ∧ c ≠ 'e' ∧ c ≠ 'E') : EndsNumber (bs ++ c :: rest) :=
  endsNumber_append hb (endsNumber_cons hc)

theorem readItems_skipBlanks (fuel : Nat) (cs : List Char) :
    readItems (readValue depth) fuel (skipBlanks cs) = readItems (readValue depth) fuel cs := by
  cases fuel with
  | zero => rfl
  | succ fuel => rw [readItems, readItems, readValue_skipBlanks]

/-- Items that read back are read one after the other, each at the cost of one turn. -/
theorem readItems_written (hv : ReadsBack depth v text)
    (hvs : List.Forall₂ (ReadsBack depth) items texts) (hb : IsBlanks bs)
    (hfuel : items.length < fuel) :
    readItems (readValue depth) fuel (text ++ (afterCommas texts ++ (bs ++ ']' :: rest))) =
      .ok (v :: items, rest) := by
  induction hvs generalizing v text fuel with
  | nil =>
    obtain ⟨fuel, rfl⟩ : ∃ f, fuel = f + 1 := ⟨fuel - 1, by omega⟩
    rw [readItems_succ_ok]
    refine ⟨v, _, hv _ (endsNumber_close hb (by decide)), .inl ⟨?_, rfl⟩⟩
    exact skipBlanks_append_cons hb (by decide)
  | @cons w next items texts hw hws ih =>
    obtain ⟨fuel, rfl⟩ : ∃ f, fuel = f + 1 := ⟨fuel - 1, by omega⟩
    have hend : EndsNumber (afterCommas (next :: texts) ++ (bs ++ ']' :: rest)) :=
      endsNumber_afterCommas (endsNumber_close hb (by decide))
    have hlt : items.length < fuel := by simpa using hfuel
    have hnext := ih hw hlt
    have hend' : EndsNumber (afterCommas texts ++ (bs ++ ']' :: rest)) :=
      endsNumber_afterCommas (endsNumber_close hb (by decide))
    -- the reader looks for the end of the array before it takes the next item
    have hread := hw _ hend'
    obtain ⟨c, ds, hskip, hc⟩ := exists_of_readValue hread
    rw [readItems_succ_ok]
    refine ⟨v, _, hv _ hend, .inr ⟨_, c, ds, w :: items, ?_, hskip, hc, ?_, rfl⟩⟩
    · rw [afterCommas_cons, List.cons_append, skipBlanks_cons (by decide), List.append_assoc]
    · rw [← hskip, readItems_skipBlanks, hnext]

/-- An array is read back when its items are, whatever blanks stand before its end. -/
theorem readsBack_array (h : List.Forall₂ (ReadsBack depth) items texts) (hb : IsBlanks bs) :
    ReadsBack (depth + 1) (.array items) ('[' :: (commaSeparated texts ++ (bs ++ [']']))) := by
  intro rest _
  rw [readValue_ok, List.cons_append, skipBlanks_cons (by decide)]
  refine .array (readArray_ok.mpr ?_)
  cases h with
  | nil => exact .inl ⟨by simpa [commaSeparated] using skipBlanks_append_cons hb (by decide), rfl⟩
  | @cons v text items texts hv hvs =>
    have hread := hv (afterCommas texts ++ (bs ++ ']' :: rest))
      (endsNumber_afterCommas (endsNumber_close hb (by decide)))
    obtain ⟨c, ds, hskip, hc⟩ := exists_of_readValue hread
    -- the fuel is taken from what is left, and every item but the first has its own comma there
    have hfuel : items.length < ds.length + 2 := by
      rw [hvs.length_eq]
      cases texts with
      | nil => simp
      | cons next texts =>
        have hlt : (next ++ afterCommas texts ++ (bs ++ ']' :: rest)).length <
            (skipBlanks (text ++
              ',' :: (next ++ afterCommas texts ++ (bs ++ ']' :: rest)))).length :=
          length_lt_skipBlanks (by decide)
        have hle := length_le_afterCommas texts
        rw [afterCommas_cons, List.cons_append] at hskip
        rw [hskip] at hlt
        simp only [List.length_append, List.length_cons] at hlt ⊢
        omega
    have hitems :
        readItems (readValue depth) (ds.length + 2) (c :: ds) = .ok (v :: items, rest) := by
      rw [← hskip, readItems_skipBlanks]
      exact readItems_written hv hvs hb hfuel
    refine .inr ⟨c, ds, v :: items, ?_, hc, hitems, rfl⟩
    rw [← hskip]
    simp [commaSeparated]

/-- Items that read back are read first, whatever stands behind the comma that follows them. -/
theorem exists_of_readItems {cs : List Char} {ws : List Value} (hv : ReadsBack depth v text)
    (hvs : List.Forall₂ (ReadsBack depth) items texts)
    (h : readItems (readValue depth) fuel (text ++ (afterCommas texts ++ ',' :: cs)) =
      .ok (ws, rest)) :
    ∃ others, ws = v :: items ++ others := by
  have hcomma : ∀ cs, EndsNumber (',' :: cs) := fun _ => endsNumber_cons (by decide)
  have hskip : ∀ cs, skipBlanks (',' :: cs) = ',' :: cs := fun _ => skipBlanks_cons (by decide)
  induction hvs generalizing v text fuel ws with
  | nil =>
    cases fuel with
    | zero => cases h
    | succ fuel =>
      obtain ⟨w, r, hw, hr⟩ := readItems_succ_ok.mp h
      obtain ⟨rfl, rfl⟩ := Prod.mk.inj (Except.ok.inj ((hv _ (hcomma cs)).symm.trans hw))
      obtain ⟨hclose, -⟩ | ⟨_, _, _, vs', -, -, -, -, rfl⟩ := hr
      · cases (hskip cs).symm.trans hclose
      · exact ⟨vs', rfl⟩
  | @cons next text' items texts hnext hvs ih =>
    cases fuel with
    | zero => cases h
    | succ fuel =>
      rw [afterCommas_cons, List.cons_append, List.append_assoc] at h
      obtain ⟨w, r, hw, hr⟩ := readItems_succ_ok.mp h
      obtain ⟨rfl, rfl⟩ := Prod.mk.inj (Except.ok.inj ((hv _ (hcomma _)).symm.trans hw))
      obtain ⟨hclose, -⟩ | ⟨r', c, ds, vs', hr, hds, -, hvs', rfl⟩ := hr
      · cases (hskip _).symm.trans hclose
      · obtain ⟨-, rfl⟩ := List.cons.inj ((hskip _).symm.trans hr)
        rw [← hds, readItems_skipBlanks] at hvs'
        obtain ⟨others, rfl⟩ := ih hnext hvs'
        exact ⟨others, rfl⟩

/-- What is read behind an opening bracket is an array. -/
theorem exists_of_readValue_bracket {cs : List Char}
    (h : readValue depth ('[' :: cs) = .ok (v, rest)) : ∃ items, v = .array items := by
  rw [readValue_ok, skipBlanks_cons (by decide)] at h
  cases h with
  | positive hc => exact absurd hc (by decide)
  | array h =>
    obtain ⟨-, rfl⟩ | ⟨_, _, vs, -, -, -, rfl⟩ := readArray_ok.mp h
    · exact ⟨[], rfl⟩
    · exact ⟨vs, rfl⟩

/-- An array begins with the items that read back, whatever stands behind the comma that follows
them. -/
theorem exists_of_readValue_array {cs : List Char}
    (hvs : List.Forall₂ (ReadsBack depth) (v :: items) (text :: texts)) {w : Value}
    (h : readValue (depth + 1) ('[' :: (commaSeparated (text :: texts) ++ ',' :: cs)) =
      .ok (w, rest)) :
    ∃ others, w = .array (v :: items ++ others) := by
  obtain ⟨hv, hvs⟩ := List.forall₂_cons.mp hvs
  rw [readValue_ok, skipBlanks_cons (by decide), commaSeparated, List.append_assoc] at h
  cases h with
  | positive hc => exact absurd hc (by decide)
  | array h =>
    have hread := hv (afterCommas texts ++ ',' :: cs)
      (endsNumber_afterCommas (endsNumber_cons (by decide)))
    obtain ⟨c, ds, hskip, hc⟩ := exists_of_readValue hread
    obtain ⟨hclose, -⟩ | ⟨c', ds', vs, hskip', -, hitems, rfl⟩ := readArray_ok.mp h
    · exact absurd (List.cons.inj (hskip.symm.trans hclose)).1 hc
    · rw [← hskip', readItems_skipBlanks] at hitems
      obtain ⟨others, rfl⟩ := exists_of_readItems hv hvs hitems
      exact ⟨others, rfl⟩

end Items

/-! ## Objects -/

section Members

variable {depth fuel : Nat} {m : String × Value} {before ms : Members} {text bs rest : List Char}
  {texts : List (List Char)}

/-- The text is the key, a colon and a text that is taken for the value. -/
def MemberReadsBack (depth : Nat) (m : String × Value) (text : List Char) : Prop :=
  ∃ blanks value, IsBlanks blanks ∧ text = blanks ++ writtenString m.1 ++ ':' :: value ∧
    ReadsBack depth m.2 value

theorem not_mem_keys_of_nodup {k : String} {v : Value} (hn : (before ++ (k, v) :: ms).keys.Nodup) :
    k ∉ before.keys := by
  rw [Members.keys, List.map_append, List.map_cons] at hn
  exact fun hk => (List.nodup_append.mp hn).2.2 k hk k List.mem_cons_self rfl

/-- A written member is read back, given that its value is. -/
theorem readMember_written {value : List Char} (hv : ReadsBack depth m.2 value)
    (hrest : EndsNumber rest) :
    readMember (readValue depth)
      (m.1.toList.flatMap writtenChar ++ '"' :: ':' :: (value ++ rest)) = .ok (m, rest) :=
  readMember_ok.mpr ⟨_, _, readString_written m.1 _, skipBlanks_cons (by decide), hv rest hrest⟩

/-- Members that read back are read one after the other, each at the cost of one turn. -/
theorem readMembers_written {value : List Char} (hv : ReadsBack depth m.2 value)
    (hms : List.Forall₂ (MemberReadsBack depth) ms texts) (hb : IsBlanks bs)
    (hn : (before ++ m :: ms).keys.Nodup) (hfuel : ms.length < fuel) :
    readMembers (readValue depth) before fuel (m.1.toList.flatMap writtenChar ++
        '"' :: ':' :: (value ++ (afterCommas texts ++ (bs ++ '\x7d' :: rest)))) =
      .ok (before ++ m :: ms, rest) := by
  induction hms generalizing m before value fuel with
  | nil =>
    obtain ⟨fuel, rfl⟩ : ∃ f, fuel = f + 1 := ⟨fuel - 1, by omega⟩
    obtain ⟨k, v⟩ := m
    rw [readMembers_succ_ok]
    refine ⟨k, v, _, readMember_written hv (endsNumber_close hb (by decide)), .inl ⟨?_, ?_⟩⟩
    · exact skipBlanks_append_cons hb (by decide)
    · exact (Members.insert_of_not_mem (not_mem_keys_of_nodup hn)).symm
  | @cons next text ms texts hnext hms ih =>
    obtain ⟨fuel, rfl⟩ : ∃ f, fuel = f + 1 := ⟨fuel - 1, by omega⟩
    obtain ⟨k, v⟩ := m
    obtain ⟨blanks, value', hblanks, rfl, hv'⟩ := hnext
    have hend : EndsNumber (afterCommas ((blanks ++ writtenString next.1 ++ ':' :: value') :: texts)
        ++ (bs ++ '\x7d' :: rest)) :=
      endsNumber_afterCommas (endsNumber_close hb (by decide))
    have hlt : ms.length < fuel := by simpa using hfuel
    have hbefore : before.insert k v = before ++ [(k, v)] :=
      Members.insert_of_not_mem (not_mem_keys_of_nodup hn)
    have hread := ih hv' (by simpa using hn : (before ++ [(k, v)] ++ next :: ms).keys.Nodup) hlt
    -- what is left of the next member when its opening quote is consumed
    obtain ⟨body, hbody⟩ : ∃ body, body = next.1.toList.flatMap writtenChar ++
        '"' :: ':' :: (value' ++ (afterCommas texts ++ (bs ++ '\x7d' :: rest))) := ⟨_, rfl⟩
    rw [← hbody] at hread
    rw [readMembers_succ_ok]
    refine ⟨k, v, _, readMember_written hv hend, .inr ⟨blanks ++ '"' :: body, body, ?_, ?_, ?_⟩⟩
    · rw [afterCommas_cons, List.cons_append, skipBlanks_cons (by decide), hbody]
      simp [writtenString]
    · exact skipBlanks_append_cons hblanks (by decide)
    · rw [hbefore, hread]
      simp

/-- An object is read back when its members are and repeat no key. -/
theorem readsBack_object (h : List.Forall₂ (MemberReadsBack depth) ms texts)
    (hn : ms.keys.Nodup) (hb : IsBlanks bs) :
    ReadsBack (depth + 1) (.object ms) ('\x7b' :: (commaSeparated texts ++ (bs ++ ['\x7d']))) := by
  intro rest _
  rw [readValue_ok, List.cons_append, skipBlanks_cons (by decide)]
  refine .object (readObject_ok.mpr ?_)
  cases h with
  | nil => exact .inl ⟨by simpa [commaSeparated] using skipBlanks_append_cons hb (by decide), rfl⟩
  | @cons m text ms texts hm hms =>
    obtain ⟨blanks, value, hblanks, rfl, hv⟩ := hm
    have hfuel : ms.length < (m.1.toList.flatMap writtenChar ++ '"' :: ':' ::
        (value ++ (afterCommas texts ++ (bs ++ '\x7d' :: rest)))).length + 1 := by
      have hle := length_le_afterCommas texts
      rw [hms.length_eq]
      simp only [List.length_append, List.length_cons]
      omega
    refine .inr ⟨_, m :: ms, ?_, readMembers_written hv hms hb hn hfuel, rfl⟩
    simpa [commaSeparated, writtenString] using skipBlanks_append_cons hblanks (by decide)

end Members

/-! ## Documents over several lines -/

namespace Value

theorem readsBack_null (depth : Nat) : ReadsBack depth null ['n', 'u', 'l', 'l'] := by
  intro rest _
  rw [readValue_ok, List.cons_append, skipBlanks_cons (by decide)]
  exact .null rfl

theorem readsBack_bool (depth : Nat) (b : Bool) :
    ReadsBack depth (bool b) (bool b).compactChars := by
  intro rest _
  cases b with
  | true =>
    rw [readValue_ok, compactChars, List.cons_append, skipBlanks_cons (by decide)]
    exact .true rfl
  | false =>
    rw [readValue_ok, compactChars, List.cons_append, skipBlanks_cons (by decide)]
    exact .false rfl

/-- The text of an item with the line that it begins. -/
def prettyItem (level : Nat) (v : Value) : List Char := newLine level ++ v.prettyChars level

/-- The text of a member with the line that it begins. -/
def prettyMember (level : Nat) (m : String × Value) : List Char :=
  newLine level ++ writtenString m.1 ++ ':' :: ' ' :: m.2.prettyChars level

/-- The items of an array over several lines stand between commas. -/
theorem prettyItems_eq (level : Nat) (items : List Value) :
    prettyItems level items = commaSeparated (items.map (prettyItem level)) := by
  induction items with
  | nil => rfl
  | cons v vs ih =>
    cases vs with
    | nil => simp [prettyItems, prettyItem, commaSeparated, afterCommas]
    | cons w ws =>
      rw [prettyItems, ih]
      · simp [prettyItem, commaSeparated, afterCommas_cons]
      · simp

/-- The members of an object over several lines stand between commas. -/
theorem prettyMembers_eq (level : Nat) (members : Members) :
    prettyMembers level members = commaSeparated (members.map (prettyMember level)) := by
  induction members with
  | nil => rfl
  | cons m ms ih =>
    obtain ⟨k, v⟩ := m
    cases ms with
    | nil => simp [prettyMembers, prettyMember, commaSeparated, afterCommas]
    | cons m ms =>
      rw [prettyMembers, ih]
      · simp [prettyMember, commaSeparated, afterCommas_cons]
      · simp

/-- An array with items stands on several lines, each item on lines of its own. -/
theorem prettyChars_array {items : List Value} (h : items ≠ []) (level : Nat) :
    (array items).prettyChars level =
      '[' :: (commaSeparated (items.map (prettyItem (level + 1))) ++ (newLine level ++ [']'])) := by
  cases items with
  | nil => exact absurd rfl h
  | cons v vs => rw [prettyChars, prettyItems_eq, List.append_assoc]

/-- An object with members stands on several lines, each member on lines of its own. -/
theorem prettyChars_object {members : Members} (h : members ≠ []) (level : Nat) :
    (object members).prettyChars level =
      '\x7b' :: (commaSeparated (members.map (prettyMember (level + 1))) ++
        (newLine level ++ ['\x7d'])) := by
  cases members with
  | nil => exact absurd rfl h
  | cons m ms => rw [prettyChars, prettyMembers_eq, List.append_assoc]

/-- A value written over several lines is read back, and the reader stops behind it. -/
theorem readsBack_pretty {v : Value} {depth : Nat} {S : String → Prop}
    (h : v.Holds Number.Fits S depth) (level : Nat) : ReadsBack depth v (v.prettyChars level) := by
  induction v using Value.induction generalizing depth level with
  | null => exact readsBack_null depth
  | bool b => exact readsBack_bool depth b
  | number n => exact fun rest hrest => readValue_number h.all hrest
  | string s => exact fun rest _ => readValue_string depth s rest
  | array items ih =>
    obtain ⟨depth, rfl⟩ : ∃ d, depth = d + 1 := by
      have hd := h.depth
      rw [Value.depth] at hd
      exact ⟨depth - 1, by omega⟩
    have hitems : List.Forall₂ (ReadsBack depth) items (items.map (prettyItem (level + 1))) := by
      rw [List.forall₂_map_right_iff, List.forall₂_same]
      intro v hv
      exact (ih v hv (holds_array.mp h v hv) (level + 1)).append_left (isBlanks_newLine (level + 1))
    cases items with
    | nil => exact readsBack_array hitems (by simp [IsBlanks] : IsBlanks [])
    | cons v vs =>
      rw [prettyChars_array (by simp)]
      exact readsBack_array hitems (isBlanks_newLine level)
  | object members ih =>
    obtain ⟨depth, rfl⟩ : ∃ d, depth = d + 1 := by
      have hd := h.depth
      rw [Value.depth] at hd
      exact ⟨depth - 1, by omega⟩
    obtain ⟨hholds, hn⟩ := holds_object.mp h
    have hmembers : List.Forall₂ (MemberReadsBack depth) members
        (members.map (prettyMember (level + 1))) := by
      rw [List.forall₂_map_right_iff, List.forall₂_same]
      intro m hm
      have hblank : IsBlanks [' '] := by simp [IsBlanks, isJsonBlank]
      exact ⟨newLine (level + 1), ' ' :: m.2.prettyChars (level + 1), isBlanks_newLine _, rfl,
        (ih m.1 m.2 hm (hholds m hm).2 (level + 1)).append_left hblank⟩
    cases members with
    | nil => exact readsBack_object hmembers hn (by simp [IsBlanks] : IsBlanks [])
    | cons m ms =>
      rw [prettyChars_object (by simp)]
      exact readsBack_object hmembers hn (isBlanks_newLine level)

/-- An item is read back with the line that it begins. -/
theorem readsBack_prettyItem {v : Value} {depth : Nat} {S : String → Prop}
    (h : v.Holds Number.Fits S depth) (level : Nat) : ReadsBack depth v (prettyItem level v) :=
  (readsBack_pretty h level).append_left (isBlanks_newLine level)

/-- Blanks behind a document that is tidied are passed over. -/
theorem parse_pretty_append {v : Value} (h : v.IsDocument) {blanks : String}
    (hb : IsBlanks blanks.toList) : Value.parse (v.pretty ++ blanks) = .ok v := by
  have hend : EndsNumber blanks.toList := by
    simpa using endsNumber_append hb endsNumber_nil
  rw [parse_eq_ok, String.toList_append, pretty, String.toList_ofList]
  refine ⟨blanks.toList, readsBack_pretty h 0 _ hend, ?_⟩
  have hskip : skipBlanks (blanks.toList ++ []) = skipBlanks [] := skipBlanks_append hb
  simpa [skipBlanks] using hskip

/-- A document that is tidied is the same document. -/
theorem parse_pretty {v : Value} (h : v.IsDocument) : Value.parse v.pretty = .ok v := by
  have hb : IsBlanks "".toList := by simp [IsBlanks]
  simpa using parse_pretty_append h hb

end Value

end TypedCall.Json
