import TypedCall.Text.Blank
import TypedCall.Text.Lowercase
import Mathlib.Data.List.DropRight
import Mathlib.Data.List.Infix
import Mathlib.Data.List.TakeWhile

/-!
# Lowercase inside a text

Of all characters only a capital sigma is lowercased by what stands around it, and of what stands
around it only matters whether a cased letter is next (`lowercaseBetween_congr`). So a part of a
text is lowercased as it is on its own, unless it holds a sigma whose form the part itself leaves
open. `Settled` says that there is none: then the part is lowercased alike wherever it stands
(`Settled.lowercaseBetween_eq`), and otherwise there is a text around it in which its own lowercase
is not found (`exists_around_of_not_settled`). Blanks at the ends of the part change nothing.
-/

namespace TypedCall.Text

/-! ## Segments -/

theorem hasSegment_iff {needle cs : List Char} : hasSegment needle cs = true ↔ needle <:+: cs := by
  induction cs with
  | nil => rw [hasSegment, List.isEmpty_iff, List.infix_nil]
  | cons c cs ih =>
    rw [hasSegment, Bool.or_eq_true, List.isPrefixOf_iff_prefix, ih, List.infix_cons_iff]

/-- A text contains another one that stands somewhere in it as a whole. -/
theorem contains_iff {s needle : String} :
    contains s needle = true ↔ needle.toList <:+: s.toList := hasSegment_iff

/-! ## The next cased letter -/

/-- Some character settles whether a cased letter is next. -/
def Decides (cs : List Char) : Prop := ∃ c ∈ cs, isCaseIgnorable c = false

section Next

variable {cs rest a b : List Char}

theorem nextIsCased_cons (c : Char) (cs : List Char) :
    nextIsCased (c :: cs) = if isCaseIgnorable c then nextIsCased cs else isCased c := by
  rw [nextIsCased, List.dropWhile_cons]
  by_cases hc : isCaseIgnorable c = true
  · rw [if_pos hc, if_pos hc, nextIsCased]
  · rw [if_neg hc, if_neg hc]

/-- What stands behind a text that decides does not matter. -/
theorem nextIsCased_append_of_decides (h : Decides cs) :
    nextIsCased (cs ++ rest) = nextIsCased cs := by
  induction cs with
  | nil => simp [Decides] at h
  | cons c cs ih =>
    rw [List.cons_append, nextIsCased_cons, nextIsCased_cons]
    split
    · next hc =>
      obtain ⟨d, hd, hdecides⟩ := h
      rcases List.mem_cons.mp hd with rfl | hd
      · rw [hc] at hdecides
        cases hdecides
      · exact ih ⟨d, hd, hdecides⟩
    · rfl

/-- A text that decides nothing is passed over. -/
theorem nextIsCased_append_of_not_decides (h : ¬ Decides cs) :
    nextIsCased (cs ++ rest) = nextIsCased rest := by
  induction cs with
  | nil => rfl
  | cons c cs ih =>
    have hc : isCaseIgnorable c = true := by
      by_contra hc
      exact h ⟨c, List.mem_cons_self, by simpa using hc⟩
    rw [List.cons_append, nextIsCased_cons, if_pos hc]
    exact ih fun ⟨d, hd, hdecides⟩ => h ⟨d, List.mem_cons_of_mem c hd, hdecides⟩

/-- Of what stands behind a text only its next cased letter matters. -/
theorem nextIsCased_append_congr (cs : List Char) (h : nextIsCased a = nextIsCased b) :
    nextIsCased (cs ++ a) = nextIsCased (cs ++ b) := by
  by_cases hcs : Decides cs
  · rw [nextIsCased_append_of_decides hcs, nextIsCased_append_of_decides hcs]
  · rw [nextIsCased_append_of_not_decides hcs, nextIsCased_append_of_not_decides hcs, h]

theorem decides_of_nextIsCased (h : nextIsCased cs = true) : Decides cs := by
  by_contra hcs
  have hnil : nextIsCased (cs ++ []) = false := nextIsCased_append_of_not_decides hcs
  rw [List.append_nil, h] at hnil
  cases hnil

theorem decides_reverse : Decides cs.reverse ↔ Decides cs := by simp [Decides]

theorem decides_sigma : Decides ('Σ' :: cs) := ⟨'Σ', List.mem_cons_self, by decide +kernel⟩

end Next

/-! ## Lowercase between two texts -/

/-- The form of a capital sigma that stands after the reverse of `before` and before `after`. -/
def sigmaForm (before after : List Char) : Char :=
  if nextIsCased before && !nextIsCased after then 'ς' else 'σ'

/-- The lowercase of a text that stands after the reverse of `before` and before `after`. -/
def lowercaseBetween (before after : List Char) : List Char → List Char
  | [] => []
  | c :: rest =>
    (if c = 'Σ' then [sigmaForm before (rest ++ after)] else lowercaseChar c) ++
      lowercaseBetween (c :: before) after rest

section Between

variable {before after before' after' s t : List Char}

/-- The lowercase of a text in two parts is that of the first before the second, and that of the
second behind the first. -/
theorem lowercaseAfter_append (before t after : List Char) :
    lowercaseAfter before (t ++ after) =
      lowercaseBetween before after t ++ lowercaseAfter (t.reverse ++ before) after := by
  induction t generalizing before with
  | nil => rfl
  | cons c t ih =>
    rw [List.cons_append, lowercaseAfter, ih, lowercaseBetween, List.reverse_cons,
      List.append_assoc, List.append_assoc, List.singleton_append]
    congr 1
    by_cases hc : c = 'Σ'
    · simp only [hc, beq_self_eq_true, if_true, sigmaForm]
      split <;> rfl
    · rw [if_neg (by simpa using hc), if_neg hc]

theorem lowercaseAfter_eq (before t : List Char) :
    lowercaseAfter before t = lowercaseBetween before [] t := by
  have h := lowercaseAfter_append before t []
  rwa [List.append_nil, lowercaseAfter, List.append_nil] at h

/-- Each part of a text is lowercased between the other part and what stands around. -/
theorem lowercaseBetween_append (before s t after : List Char) :
    lowercaseBetween before after (s ++ t) = lowercaseBetween before (t ++ after) s ++
      lowercaseBetween (s.reverse ++ before) after t := by
  induction s generalizing before with
  | nil => rfl
  | cons c s ih =>
    rw [List.cons_append, lowercaseBetween, lowercaseBetween, ih]
    simp only [List.append_assoc, List.reverse_cons, List.singleton_append]

/-- Of what stands around a text only the next cased letters matter. -/
theorem lowercaseBetween_congr (hbefore : nextIsCased before = nextIsCased before')
    (hafter : nextIsCased after = nextIsCased after') (t : List Char) :
    lowercaseBetween before after t = lowercaseBetween before' after' t := by
  induction t generalizing before before' with
  | nil => rfl
  | cons c t ih =>
    have hnext : nextIsCased (c :: before) = nextIsCased (c :: before') :=
      nextIsCased_append_congr [c] hbefore
    rw [lowercaseBetween, lowercaseBetween, sigmaForm, sigmaForm, hbefore,
      nextIsCased_append_congr t hafter, ih hnext]

/-- Without a capital sigma what stands around does not matter at all. -/
theorem lowercaseBetween_of_not_mem (h : 'Σ' ∉ t) :
    lowercaseBetween before after t = t.flatMap lowercaseChar := by
  induction t generalizing before with
  | nil => rfl
  | cons c t ih =>
    obtain ⟨hc, ht⟩ := not_or.mp (List.mem_cons.not.mp h)
    rw [lowercaseBetween, if_neg (Ne.symm hc), ih ht, List.flatMap_cons]

/-- A text that decides nothing has no capital sigma. -/
theorem sigma_not_mem (h : ¬ Decides t) : 'Σ' ∉ t := by
  intro hmem
  exact h ⟨'Σ', hmem, by decide +kernel⟩

/-- A part of a text is lowercased, inside the whole, as between the rest of it. -/
theorem lowercaseBetween_infix (before t after : List Char) :
    lowercaseBetween before.reverse after t <:+: lowercaseAfter [] (before ++ t ++ after) := by
  rw [lowercaseAfter_append, lowercaseBetween_append, List.append_nil]
  exact ⟨_, _, rfl⟩

end Between

/-! ## Blanks -/

/-- The codes of blank characters. -/
def blankCodes : List Nat :=
  [9, 10, 11, 12, 13, 0x20, 0x85, 0xA0, 0x1680, 0x2000, 0x2001, 0x2002, 0x2003, 0x2004, 0x2005,
    0x2006, 0x2007, 0x2008, 0x2009, 0x200A, 0x2028, 0x2029, 0x202F, 0x205F, 0x3000]

section Blanks

variable {cs before after : List Char}

theorem mem_blankCodes {c : Char} (h : isBlankChar c = true) : c.toNat ∈ blankCodes := by
  simp only [isBlankChar, Bool.or_eq_true, Bool.and_eq_true, decide_eq_true_eq, beq_iff_eq] at h
  simp only [blankCodes, List.mem_cons, List.not_mem_nil, or_false]
  omega

/-- A blank is no letter of either case, is not passed over, and has no other lowercase. -/
theorem blank_facts {c : Char} (h : isBlankChar c = true) :
    isCaseIgnorable c = false ∧ isCased c = false ∧ lowercaseChar c = [c] := by
  have hall : ∀ n ∈ blankCodes, isCaseIgnorable (Char.ofNat n) = false ∧
      isCased (Char.ofNat n) = false ∧ lowercaseChar (Char.ofNat n) = [Char.ofNat n] := by
    decide +kernel
  have hc := hall c.toNat (mem_blankCodes h)
  rwa [Char.ofNat_toNat] at hc

/-- Among blanks no cased letter is next. -/
theorem nextIsCased_blanks (h : ∀ c ∈ cs, isBlankChar c = true) : nextIsCased cs = false := by
  cases cs with
  | nil => rfl
  | cons c cs =>
    obtain ⟨hignorable, hcased, -⟩ := blank_facts (h c List.mem_cons_self)
    rw [nextIsCased_cons, if_neg (by rw [hignorable]; decide), hcased]

/-- Blanks behind a text do not change what is next. -/
theorem nextIsCased_append_blanks (h : ∀ c ∈ cs, isBlankChar c = true) (before : List Char) :
    nextIsCased (before ++ cs) = nextIsCased before := by
  have hnil : nextIsCased cs = nextIsCased [] := nextIsCased_blanks h
  rw [nextIsCased_append_congr before hnil, List.append_nil]

/-- Blanks stay as they are. -/
theorem lowercaseBetween_blanks (h : ∀ c ∈ cs, isBlankChar c = true) :
    lowercaseBetween before after cs = cs := by
  have hsigma : 'Σ' ∉ cs := fun hmem => absurd (h _ hmem) (by decide +kernel)
  rw [lowercaseBetween_of_not_mem hsigma]
  induction cs with
  | nil => rfl
  | cons c cs ih =>
    rw [List.flatMap_cons, (blank_facts (h c List.mem_cons_self)).2.2,
      ih (fun d hd => h d (List.mem_cons_of_mem c hd)) fun hmem =>
        hsigma (List.mem_cons_of_mem c hmem)]
    rfl

/-! ## Trimming -/

/-- What is dropped at the beginning of a text is blank. -/
theorem exists_dropWhile_blanks (cs : List Char) :
    ∃ front, cs = front ++ cs.dropWhile isBlankChar ∧ ∀ c ∈ front, isBlankChar c = true :=
  ⟨cs.takeWhile isBlankChar, List.takeWhile_append_dropWhile.symm, fun _ hc =>
    List.mem_takeWhile_imp hc⟩

theorem exists_rdropWhile_blanks (cs : List Char) :
    ∃ back, cs = cs.rdropWhile isBlankChar ++ back ∧ ∀ c ∈ back, isBlankChar c = true := by
  obtain ⟨back, hback, hblank⟩ := exists_dropWhile_blanks cs.reverse
  refine ⟨back.reverse, ?_, fun c hc => hblank c (List.mem_reverse.mp hc)⟩
  rw [List.rdropWhile, ← List.reverse_append, ← hback, List.reverse_reverse]

/-- A text is the trimmed one between blanks. -/
theorem exists_trimChars (cs : List Char) :
    ∃ front back, cs = front ++ trimChars cs ++ back ∧ (∀ c ∈ front, isBlankChar c = true) ∧
      ∀ c ∈ back, isBlankChar c = true := by
  obtain ⟨front, hfront, hblank⟩ := exists_dropWhile_blanks cs
  obtain ⟨back, hback, hblank'⟩ := exists_rdropWhile_blanks (cs.dropWhile isBlankChar)
  have hmiddle : cs.dropWhile isBlankChar = trimChars cs ++ back := hback
  exact ⟨front, back, by rw [List.append_assoc, ← hmiddle, ← hfront], hblank, hblank'⟩

/-- Without the blanks at its beginning, a text read backwards has the same letter next. -/
theorem nextIsCased_dropWhile (cs : List Char) :
    nextIsCased (cs.dropWhile isBlankChar).reverse = nextIsCased cs.reverse := by
  obtain ⟨front, hfront, hblank⟩ := exists_dropWhile_blanks cs
  conv_rhs => rw [hfront, List.reverse_append]
  exact (nextIsCased_append_blanks (fun c hc => hblank c (List.mem_reverse.mp hc)) _).symm

/-- Without the blanks at its end a text has the same letter next. -/
theorem nextIsCased_rdropWhile (cs : List Char) :
    nextIsCased (cs.rdropWhile isBlankChar) = nextIsCased cs := by
  obtain ⟨back, hback, hblank⟩ := exists_rdropWhile_blanks cs
  conv_rhs => rw [hback]
  exact (nextIsCased_append_blanks hblank _).symm

theorem dropWhile_append_cons {c : Char} (hc : isBlankChar c = false) (p r : List Char) :
    (p ++ c :: r).dropWhile isBlankChar = p.dropWhile isBlankChar ++ c :: r := by
  rw [List.dropWhile_append, List.dropWhile_cons_of_neg (by rw [hc]; decide)]
  split
  · next hempty => rw [List.isEmpty_iff.mp hempty, List.nil_append]
  · rfl

theorem rdropWhile_append_singleton {c : Char} (hc : isBlankChar c = false) (p r : List Char) :
    (p ++ [c] ++ r).rdropWhile isBlankChar = p ++ [c] ++ r.rdropWhile isBlankChar := by
  have hdrop := dropWhile_append_cons hc r.reverse p.reverse
  simp [List.rdropWhile, hdrop]

/-- A trimmed text has no blanks at its ends. -/
theorem trimChars_ends {cs : List Char} (h : trimChars cs ≠ []) :
    (∃ c rest, trimChars cs = c :: rest ∧ isBlankChar c = false) ∧
      ∃ front d, trimChars cs = front ++ [d] ∧ isBlankChar d = false := by
  have htrim : trimChars cs = (cs.dropWhile isBlankChar).rdropWhile isBlankChar := rfl
  constructor
  · obtain ⟨back, hback, -⟩ := exists_rdropWhile_blanks (cs.dropWhile isBlankChar)
    rw [← htrim] at hback
    cases hcs : trimChars cs with
    | nil => exact absurd hcs h
    | cons c rest =>
      refine ⟨c, rest, rfl, ?_⟩
      have hhead := List.head?_dropWhile_not isBlankChar cs
      rw [hback, hcs] at hhead
      simpa using hhead
  · refine ⟨(trimChars cs).dropLast, (trimChars cs).getLast h, ?_, ?_⟩
    · exact (List.dropLast_append_getLast h).symm
    · have hlast := List.rdropWhile_last_not isBlankChar (cs.dropWhile isBlankChar) h
      exact Bool.eq_false_iff.mpr hlast

/-- What surrounds a trimmed text is trimmed on its own. -/
theorem trimChars_append {cs : List Char} (h : trimChars cs ≠ []) (p r : List Char) :
    trimChars (p ++ trimChars cs ++ r) =
      p.dropWhile isBlankChar ++ trimChars cs ++ r.rdropWhile isBlankChar := by
  obtain ⟨⟨c, rest, hfirst, hc⟩, ⟨front, d, hlast, hd⟩⟩ := trimChars_ends h
  have hdrop : (p ++ trimChars cs ++ r).dropWhile isBlankChar =
      p.dropWhile isBlankChar ++ trimChars cs ++ r := by
    rw [hfirst, List.append_assoc, List.cons_append, dropWhile_append_cons hc]
    simp
  have htrim : ∀ l, trimChars l = (l.dropWhile isBlankChar).rdropWhile isBlankChar := fun _ => rfl
  rw [htrim (p ++ _ ++ r), hdrop, hlast, ← List.append_assoc,
    rdropWhile_append_singleton hd]

/-- Inside another text, trimmed or not, a trimmed text is lowercased alike. -/
theorem lowercaseBetween_infix_trimmed (p q r : List Char) :
    lowercaseBetween p.reverse r (trimChars q) <:+:
      lowercaseAfter [] (trimChars (p ++ trimChars q ++ r)) := by
  by_cases h : trimChars q = []
  · rw [h]
    exact List.nil_infix
  · rw [trimChars_append h, ← lowercaseBetween_congr (nextIsCased_dropWhile p)
      (nextIsCased_rdropWhile r)]
    exact lowercaseBetween_infix _ _ _

/-- Between blanks a text is lowercased as on its own. -/
theorem lowercaseBetween_trimmed {front back : List Char}
    (hfront : ∀ c ∈ front, isBlankChar c = true) (hback : ∀ c ∈ back, isBlankChar c = true)
    (t : List Char) : lowercaseBetween front.reverse back t = lowercaseAfter [] t := by
  rw [lowercaseAfter_eq]
  refine lowercaseBetween_congr ?_ (nextIsCased_blanks hback) t
  exact nextIsCased_blanks fun c hc => hfront c (List.mem_reverse.mp hc)

/-- The lowercase of a text is that of the trimmed one between the same blanks. -/
theorem exists_lowercase_trimChars (q : List Char) :
    ∃ front back, lowercaseAfter [] q = front ++ lowercaseAfter [] (trimChars q) ++ back ∧
      (∀ c ∈ front, isBlankChar c = true) ∧ ∀ c ∈ back, isBlankChar c = true := by
  obtain ⟨front, back, hq, hfront, hback⟩ := exists_trimChars q
  refine ⟨front, back, ?_, hfront, hback⟩
  conv_lhs => rw [hq]
  rw [lowercaseAfter_append, lowercaseBetween_append, lowercaseAfter_eq _ back,
    lowercaseBetween_blanks hfront, lowercaseBetween_blanks hback, List.append_nil,
    lowercaseBetween_trimmed hfront hback]

end Blanks

/-! ## Settled texts -/

/-- What stands around the text changes the form of no capital sigma in it. A cased letter of the
text is next behind the sigma; or the text has what is next before it, and this is no cased letter
or the text has what is next behind as well. -/
def Settled (q : List Char) : Prop :=
  ∀ u w, q = u ++ 'Σ' :: w →
    nextIsCased w = true ∨ Decides u ∧ (nextIsCased u.reverse = false ∨ Decides w)

section Settled

variable {p q s t u w : List Char}

theorem settled_of_not_mem (h : 'Σ' ∉ q) : Settled q := by
  rintro u w rfl
  exact absurd (by simp) h

/-- The form of a sigma in a settled text does not depend on what stands around. -/
theorem Settled.sigmaForm_eq (h : Settled (u ++ 'Σ' :: w)) (before after : List Char) :
    sigmaForm (u.reverse ++ before) (w ++ after) = sigmaForm u.reverse w := by
  rw [sigmaForm, sigmaForm]
  rcases h u w rfl with hw | ⟨hu, hform⟩
  · rw [nextIsCased_append_of_decides (decides_of_nextIsCased hw), hw]
    simp
  · rw [nextIsCased_append_of_decides (decides_reverse.mpr hu)]
    rcases hform with hu | hw
    · simp [hu]
    · rw [nextIsCased_append_of_decides hw]

/-- A part of a settled text is lowercased alike wherever the text stands. -/
theorem Settled.lowercaseBetween_eq (h : Settled (p ++ t ++ s)) (before after : List Char) :
    lowercaseBetween (p.reverse ++ before) (s ++ after) t = lowercaseBetween p.reverse s t := by
  induction t generalizing p with
  | nil => rfl
  | cons c t ih =>
    have hnext : Settled ((p ++ [c]) ++ t ++ s) := by simpa using h
    have htail := ih hnext
    rw [List.reverse_append, List.reverse_singleton, List.singleton_append] at htail
    rw [lowercaseBetween, lowercaseBetween, ← List.cons_append, htail]
    by_cases hc : c = 'Σ'
    · subst hc
      have hform : Settled (p ++ 'Σ' :: (t ++ s)) := by simpa using h
      rw [if_pos rfl, if_pos rfl, ← List.append_assoc, hform.sigmaForm_eq]
    · rw [if_neg hc, if_neg hc]

/-- Where a settled text stands, its trimmed part has its own lowercase. -/
theorem Settled.lowercase_trimChars (h : Settled q) (a b : List Char) :
    ∃ front back, a ++ q ++ b = (a ++ front) ++ trimChars q ++ (back ++ b) ∧
      lowercaseBetween (a ++ front).reverse (back ++ b) (trimChars q) =
        lowercaseAfter [] (trimChars q) := by
  obtain ⟨front, back, hq, hfront, hback⟩ := exists_trimChars q
  refine ⟨front, back, ?_, ?_⟩
  · conv_lhs => rw [hq]
    simp
  · have hsettled : Settled (front ++ trimChars q ++ back) := by rwa [← hq]
    rw [List.reverse_append, hsettled.lowercaseBetween_eq, lowercaseBetween_trimmed hfront hback]

/-- The lowercase of a settled text is found wherever the text stands, -/
theorem Settled.infix_lowercase (h : Settled q) {s : List Char} (hs : q <:+: s) :
    lowercaseAfter [] (trimChars q) <:+: lowercaseAfter [] s := by
  obtain ⟨a, b, rfl⟩ := hs
  obtain ⟨front, back, hsplit, hlowercase⟩ := h.lowercase_trimChars a b
  rw [hsplit, ← hlowercase]
  exact lowercaseBetween_infix _ _ _

/-- and also when the text around it is trimmed. -/
theorem Settled.infix_trimmed (h : Settled q) {s : List Char} (hs : q <:+: s) :
    lowercaseAfter [] (trimChars q) <:+: lowercaseAfter [] (trimChars s) := by
  obtain ⟨a, b, rfl⟩ := hs
  obtain ⟨front, back, hsplit, hlowercase⟩ := h.lowercase_trimChars a b
  rw [hsplit, ← hlowercase]
  exact lowercaseBetween_infix_trimmed _ _ _

end Settled

/-! ## Texts that are not settled -/

section Unsettled

variable {q u w before after : List Char}

/-- A sigma divides a text: what stands before the text does not reach behind the sigma, and what
stands behind does not reach before it. -/
theorem lowercaseBetween_sigma (hu : before = [] ∨ ¬ Decides u) (hw : after = [] ∨ ¬ Decides w) :
    lowercaseBetween before after (u ++ 'Σ' :: w) =
      lowercaseBetween [] ('Σ' :: w) u ++
        sigmaForm (u.reverse ++ before) (w ++ after) ::
          lowercaseBetween ('Σ' :: u.reverse) [] w := by
  have hleft : lowercaseBetween before ('Σ' :: w ++ after) u =
      lowercaseBetween [] ('Σ' :: w) u := by
    rcases hu with rfl | hu
    · exact lowercaseBetween_congr rfl (nextIsCased_append_of_decides decides_sigma) u
    · rw [lowercaseBetween_of_not_mem (sigma_not_mem hu),
        lowercaseBetween_of_not_mem (sigma_not_mem hu)]
  have hright : lowercaseBetween ('Σ' :: (u.reverse ++ before)) after w =
      lowercaseBetween ('Σ' :: u.reverse) [] w := by
    rcases hw with rfl | hw
    · exact lowercaseBetween_congr (nextIsCased_append_of_decides decides_sigma) rfl w
    · rw [lowercaseBetween_of_not_mem (sigma_not_mem hw),
        lowercaseBetween_of_not_mem (sigma_not_mem hw)]
  rw [lowercaseBetween_append, hleft, lowercaseBetween, hright, if_pos rfl, List.singleton_append]

/-- A sigma of another form is a character less of the form that it had. -/
theorem count_lowercaseBetween_lt (hu : before = [] ∨ ¬ Decides u) (hw : after = [] ∨ ¬ Decides w)
    (hne : sigmaForm (u.reverse ++ before) (w ++ after) ≠ sigmaForm u.reverse w) :
    (lowercaseBetween before after (u ++ 'Σ' :: w)).count (sigmaForm u.reverse w) <
      (lowercaseAfter [] (u ++ 'Σ' :: w)).count (sigmaForm u.reverse w) := by
  rw [lowercaseAfter_eq, lowercaseBetween_sigma hu hw, lowercaseBetween_sigma (.inl rfl) (.inl rfl),
    List.append_nil, List.append_nil]
  simp [List.count_append, hne]

/-- Neither form of a sigma is a blank, or the letter `a`. -/
theorem sigmaForm_not_blank (before after : List Char) :
    isBlankChar (sigmaForm before after) = false ∧ sigmaForm before after ≠ 'a' := by
  rw [sigmaForm]
  split <;> decide +kernel

/-- Trimming removes no sigma. -/
theorem count_trimChars (before after q : List Char) :
    (lowercaseAfter [] (trimChars q)).count (sigmaForm before after) =
      (lowercaseAfter [] q).count (sigmaForm before after) := by
  obtain ⟨front, back, hq, hfront, hback⟩ := exists_lowercase_trimChars q
  have hblank : ∀ cs : List Char, (∀ c ∈ cs, isBlankChar c = true) →
      cs.count (sigmaForm before after) = 0 := by
    intro cs hcs
    refine List.count_eq_zero.mpr fun hmem => ?_
    have hform := hcs _ hmem
    rw [(sigmaForm_not_blank before after).1] at hform
    cases hform
  rw [hq, List.count_append, List.count_append, hblank front hfront, hblank back hback,
    Nat.zero_add, Nat.add_zero]

/-- Around a text that is not settled there can stand a letter with which its own lowercase is not
found any more. -/
theorem exists_around_of_not_settled (h : ¬ Settled q) :
    ∃ s, q <:+: s ∧ ¬ lowercaseAfter [] (trimChars q) <:+: lowercaseAfter [] s := by
  rw [Settled] at h
  push Not at h
  obtain ⟨u, w, rfl, hw, hopen⟩ := h
  have hnext : nextIsCased w = false := by simpa using hw
  have hletter : nextIsCased ['a'] = true := by decide +kernel
  have hlowercase : ∀ before, lowercaseAfter before ['a'] = ['a'] := fun _ => rfl
  -- an infix has no more of any character than the whole
  have hcount : ∀ s, (lowercaseAfter [] s).count (sigmaForm u.reverse w) <
      (lowercaseAfter [] (u ++ 'Σ' :: w)).count (sigmaForm u.reverse w) →
      ¬ lowercaseAfter [] (trimChars (u ++ 'Σ' :: w)) <:+: lowercaseAfter [] s := by
    intro s hlt hinfix
    have hle := hinfix.sublist.count_le (sigmaForm u.reverse w)
    rw [count_trimChars] at hle
    omega
  by_cases hu : Decides u
  · -- the letter behind makes a final sigma an inner one
    obtain ⟨hcased, hw⟩ := hopen hu
    have hne : sigmaForm (u.reverse ++ []) (w ++ ['a']) ≠ sigmaForm u.reverse w := by
      rw [List.append_nil, sigmaForm, sigmaForm, nextIsCased_append_of_not_decides hw, hletter,
        hnext]
      simp [hcased]
    refine ⟨u ++ 'Σ' :: w ++ ['a'], ⟨[], ['a'], rfl⟩, hcount _ ?_⟩
    rw [lowercaseAfter_append, hlowercase, List.count_append,
      List.count_singleton, if_neg (by simpa using (sigmaForm_not_blank _ _).2.symm)]
    exact count_lowercaseBetween_lt (.inl rfl) (.inr hw) hne
  · -- the letter in front makes an inner sigma a final one
    have hundecided : ¬ Decides u.reverse := fun hdecides => hu (decides_reverse.mp hdecides)
    have hopen : nextIsCased u.reverse = false := by
      have hnil : nextIsCased (u.reverse ++ []) = false :=
        nextIsCased_append_of_not_decides hundecided
      rwa [List.append_nil] at hnil
    have hne : sigmaForm (u.reverse ++ ['a']) (w ++ []) ≠ sigmaForm u.reverse w := by
      rw [List.append_nil, sigmaForm, sigmaForm, nextIsCased_append_of_not_decides hundecided,
        hletter, hnext, hopen]
      simp
    have hfirst : lowercaseAfter [] ('a' :: (u ++ 'Σ' :: w)) =
        'a' :: lowercaseBetween ['a'] [] (u ++ 'Σ' :: w) := by
      rw [← lowercaseAfter_eq]
      rfl
    refine ⟨'a' :: (u ++ 'Σ' :: w), ⟨['a'], [], by simp⟩, hcount _ ?_⟩
    rw [hfirst, List.count_cons_of_ne (sigmaForm_not_blank _ _).2.symm]
    exact count_lowercaseBetween_lt (.inr hu) (.inl rfl) hne

end Unsettled

end TypedCall.Text
