import TypedCall.Proofs.Descriptor.Shape

/-!
# What a listing tells

Where names and tags are words, and no case of a variant is a variant itself, the shape of a type
can be read off its listing (`listing_tells_shapes`).

The proof compares two listings from the left. A word ends where the first delimiter stands
(`append_inj_of_words`), and what stands behind a type cannot be taken for more of it: a comma or a
brace, and behind the type of a case also the blank before a bar. So equal texts begin with types
of equal shapes and go on with equal rests (`Readable.append_inj`).
-/

namespace TypedCall

namespace Descriptor

/-- Characters that a listing puts between names and types. -/
def delimiters : List Char := [' ', ',', ':', '|', '\x7b', '\x7d']

/-- A name that can be told from what stands around it. -/
structure IsWord (s : String) : Prop where
  ne_empty : s ≠ ""
  not_mem : ∀ c ∈ s.toList, c ∉ delimiters

/-- Whether a name is a word can be computed. -/
theorem isWord_iff {s : String} :
    IsWord s ↔ s ≠ "" ∧ s.toList.all (fun c => !delimiters.contains c) = true := by
  have hchars : s.toList.all (fun c => !delimiters.contains c) = true ↔
      ∀ c ∈ s.toList, c ∉ delimiters := by
    simp only [List.all_eq_true, Bool.not_eq_true', List.contains_eq_mem, decide_eq_false_iff_not]
  rw [hchars]
  exact ⟨fun h => ⟨h.ne_empty, h.not_mem⟩, fun h => ⟨h.1, h.2⟩⟩

instance (s : String) : Decidable (IsWord s) := decidable_of_iff _ isWord_iff.symm

/-- The descriptors whose shape can be read off a listing. -/
inductive Readable : Descriptor → Prop where
  | scalar (type extra) : Readable (.scalar type extra)
  | container (type extra) : Readable (.container type extra)
  | tuple (fields extra) : Readable (.compound .tuple fields extra)
  | unknown {tag : String} (extra) (word : IsWord tag) (other : tag ∉ Tag.known) :
    Readable (.unknown tag extra)
  | record {fields : List (Named Descriptor)} (extra) (words : ∀ f ∈ fields, IsWord f.name)
    (types : ∀ f ∈ fields, Readable f.typ) : Readable (.compound .record fields extra)
  | variant {cases : List (Named Descriptor)} (extra) (words : ∀ f ∈ cases, IsWord f.name)
    (types : ∀ f ∈ cases, Readable f.typ)
    (flat : ∀ f ∈ cases, f.typ.kind ≠ .compound .variant) :
    Readable (.compound .variant cases extra)

/-! ## Words -/

/-- The text begins with a delimiter, or there is none. -/
def EndsWord (rest : List Char) : Prop := ∀ c ∈ rest.head?, c ∈ delimiters

/-- Text with a delimiter behind it is told from what follows. -/
theorem append_inj_of_words {v w rest rest' : List Char} (hv : ∀ c ∈ v, c ∉ delimiters)
    (hw : ∀ c ∈ w, c ∉ delimiters) (hrest : EndsWord rest) (hrest' : EndsWord rest')
    (h : v ++ rest = w ++ rest') : v = w ∧ rest = rest' := by
  induction v generalizing w with
  | nil =>
    cases w with
    | nil => exact ⟨rfl, h⟩
    | cons c w =>
      -- the rest would begin with a character of the word
      have hrest : rest = c :: (w ++ rest') := h
      subst hrest
      exact absurd (hrest c rfl) (hw c List.mem_cons_self)
  | cons c v ih =>
    cases w with
    | nil =>
      have hrest : c :: (v ++ rest) = rest' := h
      subst hrest
      exact absurd (hrest' c rfl) (hv c List.mem_cons_self)
    | cons d w =>
      obtain ⟨rfl, htail⟩ := List.cons.inj h
      obtain ⟨rfl, hrest⟩ := ih (fun c hc => hv c (List.mem_cons_of_mem _ hc))
        (fun c hc => hw c (List.mem_cons_of_mem _ hc)) htail
      exact ⟨rfl, hrest⟩

theorem endsWord_cons {c : Char} (hc : c ∈ delimiters) (cs : List Char) : EndsWord (c :: cs) := by
  intro d hd
  exact Option.some.inj hd ▸ hc

theorem endsWord_colon (cs : List Char) : EndsWord (':' :: cs) := endsWord_cons (by decide) cs

/-- A word is not passed over. -/
theorem word_append_ne {s : String} {rest rest' : List Char} (hs : IsWord s)
    (hrest : EndsWord rest) (hrest' : EndsWord rest') : s.toList ++ rest ≠ rest' := by
  intro h
  obtain ⟨hnil, -⟩ := append_inj_of_words (w := []) hs.not_mem (by simp) hrest hrest' h
  exact hs.ne_empty (String.toList_eq_nil_iff.mp hnil)

/-! ## Fields -/

/-- What stands behind the first field of a list: the others, each with a separator before it, and
the rest. -/
def afterField (separator rest : List Char) : List Field → List Char
  | [] => rest
  | f :: fields =>
    separator ++ (f.name.toList ++
      ':' :: ' ' :: (f.typ.signatureChars ++ afterField separator rest fields))

/-- The fields of a listing are the first field, and the others each behind a separator. -/
theorem intercalate_append (separator rest : List Char) (f : Field) (fields : List Field) :
    separator.intercalate (signatureFields (f :: fields)) ++ rest =
      f.name.toList ++
        ':' :: ' ' :: (f.typ.signatureChars ++ afterField separator rest fields) := by
  induction fields generalizing f with
  | nil => simp [signatureFields, afterField, List.intercalate]
  | cons g fields ih =>
    have hcons : separator.intercalate (signatureFields (f :: g :: fields)) =
        f.name.toList ++ ':' :: ' ' :: f.typ.signatureChars ++
          (separator ++ separator.intercalate (signatureFields (g :: fields))) := by
      simp [signatureFields, List.intercalate]
    rw [hcons]
    simp only [List.append_assoc, List.cons_append]
    rw [ih, afterField]

/-- Two types that are told apart in front of texts of a kind. -/
def ToldApart (ends : List Char → Prop) (d e : Descriptor) : Prop :=
  ∀ s t, ends s → ends t → d.signatureChars ++ s = e.signatureChars ++ t →
    d.shape = e.shape ∧ s = t

section Fields

variable {ends : List Char → Prop} {s t : List Char}

/-- A field with a word for its name is told from what follows when its type is. -/
theorem field_append_inj {f g : Field} (hf : IsWord f.name) (hg : IsWord g.name)
    (htypes : ToldApart ends f.typ g.typ) (hs : ends s) (ht : ends t)
    (h : f.name.toList ++ ':' :: ' ' :: (f.typ.signatureChars ++ s) =
      g.name.toList ++ ':' :: ' ' :: (g.typ.signatureChars ++ t)) :
    f.shape = g.shape ∧ s = t := by
  obtain ⟨hname, hrest⟩ :=
    append_inj_of_words hf.not_mem hg.not_mem (endsWord_colon _) (endsWord_colon _) h
  obtain ⟨htype, hst⟩ := htypes s t hs ht (List.cons.inj (List.cons.inj hrest).2).2
  exact ⟨by rw [Named.shape, Named.shape, String.toList_inj.mp hname, htype], hst⟩

/-- Fields are read one after the other, and the list ends where no separator follows. -/
theorem afterField_inj {c : Char} {separator : List Char} {fs gs : List Field}
    (hsep : ∀ cs, ends (c :: separator ++ cs)) (hs : ends s) (ht : ends t)
    (hcs : s.head? ≠ some c) (hct : t.head? ≠ some c)
    (hfs : ∀ f ∈ fs, IsWord f.name) (hgs : ∀ g ∈ gs, IsWord g.name)
    (htypes : ∀ f ∈ fs, ∀ g ∈ gs, ToldApart ends f.typ g.typ)
    (h : afterField (c :: separator) s fs = afterField (c :: separator) t gs) :
    fs.map (·.shape) = gs.map (·.shape) ∧ s = t := by
  have hends {rest : List Char} (hrest : ends rest) (fields : List Field) :
      ends (afterField (c :: separator) rest fields) := by
    cases fields with
    | nil => exact hrest
    | cons f fields => exact hsep _
  induction fs generalizing gs with
  | nil =>
    cases gs with
    | nil => exact ⟨rfl, h⟩
    | cons g gs =>
      have hs' : s = c :: _ := h
      exact absurd (congrArg List.head? hs') hcs
  | cons f fs ih =>
    cases gs with
    | nil =>
      have ht' : t = c :: _ := h.symm
      exact absurd (congrArg List.head? ht') hct
    | cons g gs =>
      obtain ⟨hf, hfs⟩ := List.forall_mem_cons.mp hfs
      obtain ⟨hg, hgs⟩ := List.forall_mem_cons.mp hgs
      have hfirst := htypes f List.mem_cons_self g List.mem_cons_self
      have hlater : ∀ f ∈ fs, ∀ g ∈ gs, ToldApart ends f.typ g.typ := fun f hf g hg =>
        htypes f (List.mem_cons_of_mem _ hf) g (List.mem_cons_of_mem _ hg)
      obtain ⟨hshape, hrest⟩ := field_append_inj hf hg hfirst (hends hs fs) (hends ht gs)
        (List.append_cancel_left h)
      obtain ⟨hshapes, hst⟩ := ih hfs hgs hlater hrest
      exact ⟨by rw [List.map_cons, List.map_cons, hshape, hshapes], hst⟩

/-- Lists of fields are told apart in front of texts that begin with a delimiter. -/
theorem fields_append_inj {c : Char} {separator : List Char} {fs gs : List Field}
    (hsep : ∀ cs, ends (c :: separator ++ cs)) (hs : ends s) (ht : ends t)
    (hws : EndsWord s) (hwt : EndsWord t) (hcs : s.head? ≠ some c) (hct : t.head? ≠ some c)
    (hfs : ∀ f ∈ fs, IsWord f.name) (hgs : ∀ g ∈ gs, IsWord g.name)
    (htypes : ∀ f ∈ fs, ∀ g ∈ gs, ToldApart ends f.typ g.typ)
    (h : (c :: separator).intercalate (signatureFields fs) ++ s =
      (c :: separator).intercalate (signatureFields gs) ++ t) :
    fs.map (·.shape) = gs.map (·.shape) ∧ s = t := by
  cases fs with
  | nil =>
    cases gs with
    | nil => exact ⟨rfl, h⟩
    | cons g gs =>
      rw [intercalate_append] at h
      exact absurd h.symm (word_append_ne (hgs g List.mem_cons_self) (endsWord_colon _) hws)
  | cons f fs =>
    cases gs with
    | nil =>
      rw [intercalate_append] at h
      exact absurd h (word_append_ne (hfs f List.mem_cons_self) (endsWord_colon _) hwt)
    | cons g gs =>
      rw [intercalate_append, intercalate_append] at h
      -- with a separator before them, the first fields are fields like the others
      have hafter : afterField (c :: separator) s (f :: fs) =
          afterField (c :: separator) t (g :: gs) := congrArg (c :: separator ++ ·) h
      exact afterField_inj hsep hs ht hcs hct hfs hgs htypes hafter

end Fields

/-! ## Types -/

/-- Characters that may stand behind a type: a comma or a brace, and the blank before a bar, unless
the type is a variant. -/
def closers (d : Descriptor) : List Char :=
  if d.kind = .compound .variant then [',', '\x7d'] else [' ', ',', '\x7d']

/-- The text does not go on with the type before it. -/
def Closes (d : Descriptor) (rest : List Char) : Prop := ∀ c ∈ rest.head?, c ∈ d.closers

/-- A comma or a brace ends every type. -/
theorem closes_of_field {d : Descriptor} {rest : List Char}
    (h : ∀ c ∈ rest.head?, c ∈ [',', '\x7d']) : d.Closes rest := by
  intro c hc
  rw [closers]
  split
  · exact h c hc
  · exact List.mem_cons_of_mem _ (h c hc)

/-- A blank ends every type that is no variant. -/
theorem closes_of_case {d : Descriptor} {rest : List Char} (hd : d.kind ≠ .compound .variant)
    (h : ∀ c ∈ rest.head?, c ∈ [' ', ',', '\x7d']) : d.Closes rest := by
  intro c hc
  rw [closers, if_neg hd]
  exact h c hc

/-- Where a type ends, a word ends. -/
theorem Closes.endsWord {d : Descriptor} {rest : List Char} (h : d.Closes rest) :
    EndsWord rest := by
  intro c hc
  have hmem := h c hc
  rw [closers] at hmem
  split at hmem
  · simp only [List.mem_cons, List.not_mem_nil, or_false] at hmem
    rcases hmem with rfl | rfl <;> decide
  · simp only [List.mem_cons, List.not_mem_nil, or_false] at hmem
    rcases hmem with rfl | rfl | rfl <;> decide

/-- The descriptor is listed by its tag. -/
structure IsPlain (d : Descriptor) : Prop where
  word : IsWord d.tag
  kind : Tag.ofString d.tag = d.kind
  chars : d.signatureChars = d.tag.toList
  shape : d.shape = .plain d.kind

theorem isWord_known {tag : String} (h : tag ∈ Tag.known) : IsWord tag := by
  have hwords : ∀ t ∈ Tag.known, IsWord t := by decide
  exact hwords tag h

theorem isPlain_scalar (type : Scalar) (extra : Json.Members) : IsPlain (.scalar type extra) := by
  have hknown : type.tag ∈ Tag.known := by cases type <;> decide
  exact ⟨isWord_known hknown, Tag.ofString_scalar type, rfl, rfl⟩

theorem isPlain_container (type : Container) (extra : Json.Members) :
    IsPlain (.container type extra) := by
  have hknown : type.tag ∈ Tag.known := by cases type <;> decide
  exact ⟨isWord_known hknown, Tag.ofString_container type, rfl, rfl⟩

theorem isPlain_tuple (fields : List Field) (extra : Json.Members) :
    IsPlain (.compound .tuple fields extra) := by
  have hknown : Compound.tuple.tag ∈ Tag.known := by decide
  exact ⟨isWord_known hknown, Tag.ofString_compound .tuple, rfl, rfl⟩

theorem isPlain_unknown {tag : String} (extra : Json.Members) (word : IsWord tag)
    (other : tag ∉ Tag.known) : IsPlain (.unknown tag extra) :=
  ⟨word, Tag.ofString_eq_unknown_iff.mpr other, rfl, rfl⟩

/-- What can be read is listed by its tag, or it is a record or a variant. -/
theorem Readable.forms {d : Descriptor} (hd : d.Readable) :
    d.IsPlain ∨
      (∃ fields extra, d = .compound .record fields extra ∧ (∀ f ∈ fields, IsWord f.name) ∧
        ∀ f ∈ fields, f.typ.Readable) ∨
      ∃ cases extra, d = .compound .variant cases extra ∧ (∀ f ∈ cases, IsWord f.name) ∧
        (∀ f ∈ cases, f.typ.Readable) ∧ ∀ f ∈ cases, f.typ.kind ≠ .compound .variant := by
  cases hd with
  | scalar type extra => exact .inl (isPlain_scalar type extra)
  | container type extra => exact .inl (isPlain_container type extra)
  | tuple fields extra => exact .inl (isPlain_tuple fields extra)
  | unknown extra word other => exact .inl (isPlain_unknown extra word other)
  | record extra words types => exact .inr (.inl ⟨_, extra, rfl, words, types⟩)
  | variant extra words types flat => exact .inr (.inr ⟨_, extra, rfl, words, types, flat⟩)

section Types

variable {d e : Descriptor} {s t : List Char}

/-- A record is listed as its fields between braces. -/
theorem record_append (fields : List Field) (extra : Json.Members) (rest : List Char) :
    (compound .record fields extra).signatureChars ++ rest =
      '\x7b' :: ([',', ' '].intercalate (signatureFields fields) ++ '\x7d' :: rest) := by
  rw [signatureChars, List.cons_append, List.append_assoc]
  rfl

/-- No other listing begins with a brace. -/
theorem IsPlain.append_ne_brace (hd : d.IsPlain) (hs : d.Closes s) (rest : List Char) :
    d.signatureChars ++ s ≠ '\x7b' :: rest := by
  rw [hd.chars]
  exact word_append_ne hd.word hs.endsWord (endsWord_cons (by decide) rest)

/-- The listing of a variant does not begin like that of a record. -/
theorem variant_append_ne_brace {cases : List Field} {extra : Json.Members}
    (words : ∀ f ∈ cases, IsWord f.name) (hs : (compound .variant cases extra).Closes s)
    (rest : List Char) :
    (compound .variant cases extra).signatureChars ++ s ≠ '\x7b' :: rest := by
  rw [signatureChars]
  cases cases with
  | nil =>
    -- a variant without cases leaves no text, so the brace would stand behind it
    rintro rfl
    have hbrace : '\x7b' ∈ [',', '\x7d'] := hs '\x7b' rfl
    exact absurd hbrace (by decide)
  | cons f cases =>
    rw [intercalate_append]
    exact word_append_ne (words f List.mem_cons_self) (endsWord_colon _)
      (endsWord_cons (by decide) rest)

/-- A tag is never taken for the beginning of a variant. -/
theorem IsPlain.append_ne_variant {cases : List Field} {extra : Json.Members} (hd : d.IsPlain)
    (words : ∀ f ∈ cases, IsWord f.name) (hs : d.Closes s)
    (ht : (compound .variant cases extra).Closes t) :
    d.signatureChars ++ s ≠ (compound .variant cases extra).signatureChars ++ t := by
  rw [hd.chars, signatureChars]
  cases cases with
  | nil => exact word_append_ne hd.word hs.endsWord ht.endsWord
  | cons f cases =>
    intro h
    rw [intercalate_append] at h
    obtain ⟨-, rfl⟩ := append_inj_of_words hd.word.not_mem (words f List.mem_cons_self).not_mem
      hs.endsWord (endsWord_colon _) h
    -- a colon would follow the tag
    have hcolon : ':' ∈ d.closers := hs ':' rfl
    rw [closers] at hcolon
    split at hcolon <;> exact absurd hcolon (by decide)

/-- Tags are told apart, and from what follows them. -/
theorem IsPlain.append_inj (hd : d.IsPlain) (he : e.IsPlain) (hs : d.Closes s) (ht : e.Closes t)
    (h : d.signatureChars ++ s = e.signatureChars ++ t) : d.shape = e.shape ∧ s = t := by
  rw [hd.chars, he.chars] at h
  obtain ⟨htag, hst⟩ :=
    append_inj_of_words hd.word.not_mem he.word.not_mem hs.endsWord ht.endsWord h
  have hkind : d.kind = e.kind := by
    rw [← hd.kind, ← he.kind, String.toList_inj.mp htag]
  exact ⟨by rw [hd.shape, he.shape, hkind], hst⟩

/-- A tag is told apart from everything that can be read. -/
theorem IsPlain.append_inj_of_readable (hd : d.IsPlain) (he : e.Readable) (hs : d.Closes s)
    (ht : e.Closes t) (h : d.signatureChars ++ s = e.signatureChars ++ t) :
    d.shape = e.shape ∧ s = t := by
  rcases he.forms with he | ⟨fields, extra, rfl, words, -⟩ | ⟨cases, extra, rfl, words, -, -⟩
  · exact hd.append_inj he hs ht h
  · rw [record_append] at h
    exact absurd h (hd.append_ne_brace hs _)
  · exact absurd h (hd.append_ne_variant words hs ht)

/-- Two records whose types are told apart are told apart. -/
theorem record_append_inj {fs gs : List Field} {extra extra' : Json.Members}
    (hfs : ∀ f ∈ fs, IsWord f.name) (hgs : ∀ g ∈ gs, IsWord g.name)
    (htypes : ∀ f ∈ fs, ∀ g ∈ gs,
      ToldApart (fun rest => ∀ c ∈ rest.head?, c ∈ [',', '\x7d']) f.typ g.typ)
    (h : (compound .record fs extra).signatureChars ++ s =
      (compound .record gs extra').signatureChars ++ t) :
    (compound .record fs extra).shape = (compound .record gs extra').shape ∧ s = t := by
  rw [record_append, record_append] at h
  have hbrace (rest : List Char) : EndsWord ('\x7d' :: rest) := endsWord_cons (by decide) rest
  obtain ⟨hshapes, hst⟩ := fields_append_inj (by simp) (by simp) (by simp) (hbrace s) (hbrace t)
    (by simp) (by simp) hfs hgs htypes (List.cons.inj h).2
  exact ⟨by rw [shape, shape, fieldShapes_eq, fieldShapes_eq, hshapes], (List.cons.inj hst).2⟩

/-- Two variants whose types are told apart are told apart. -/
theorem variant_append_inj {fs gs : List Field} {extra extra' : Json.Members}
    (hfs : ∀ f ∈ fs, IsWord f.name) (hgs : ∀ g ∈ gs, IsWord g.name)
    (htypes : ∀ f ∈ fs, ∀ g ∈ gs,
      ToldApart (fun rest => ∀ c ∈ rest.head?, c ∈ [' ', ',', '\x7d']) f.typ g.typ)
    (hs : (compound .variant fs extra).Closes s) (ht : (compound .variant gs extra').Closes t)
    (h : (compound .variant fs extra).signatureChars ++ s =
      (compound .variant gs extra').signatureChars ++ t) :
    (compound .variant fs extra).shape = (compound .variant gs extra').shape ∧ s = t := by
  have hends {rest : List Char} {cases : List Field} {extra : Json.Members}
      (hrest : (compound .variant cases extra).Closes rest) :
      (∀ c ∈ rest.head?, c ∈ [' ', ',', '\x7d']) ∧ rest.head? ≠ some ' ' := by
    constructor
    · intro c hc
      exact List.mem_cons_of_mem _ (hrest c hc)
    · intro hblank
      have hmem : ' ' ∈ [',', '\x7d'] := hrest ' ' hblank
      exact absurd hmem (by decide)
  rw [signatureChars, signatureChars] at h
  obtain ⟨hshapes, hst⟩ := fields_append_inj (by simp) (hends hs).1 (hends ht).1 hs.endsWord
    ht.endsWord (hends hs).2 (hends ht).2 hfs hgs htypes h
  exact ⟨by rw [shape, shape, fieldShapes_eq, fieldShapes_eq, hshapes], hst⟩

/-- Equal texts begin with types of equal shapes. -/
theorem Readable.append_inj (hd : d.Readable) (he : e.Readable) (hs : d.Closes s)
    (ht : e.Closes t) (h : d.signatureChars ++ s = e.signatureChars ++ t) :
    d.shape = e.shape ∧ s = t := by
  induction hd generalizing e s t with
  | scalar type extra => exact (isPlain_scalar type extra).append_inj_of_readable he hs ht h
  | container type extra => exact (isPlain_container type extra).append_inj_of_readable he hs ht h
  | tuple fields extra => exact (isPlain_tuple fields extra).append_inj_of_readable he hs ht h
  | unknown extra word other =>
    exact (isPlain_unknown extra word other).append_inj_of_readable he hs ht h
  | record extra words types ih =>
    rcases he.forms with he | ⟨gs, extra', rfl, words', types'⟩ | ⟨gs, extra', rfl, words', -⟩
    · exact (he.append_inj_of_readable (.record extra words types) ht hs h.symm).imp Eq.symm Eq.symm
    · refine record_append_inj words words' ?_ h
      intro f hf g hg s t hs ht h
      exact ih f hf (types' g hg) (closes_of_field hs) (closes_of_field ht) h
    · rw [record_append] at h
      exact absurd h.symm (variant_append_ne_brace words' ht _)
  | variant extra words types flat ih =>
    rcases he.forms with he | ⟨gs, extra', rfl, -⟩ | ⟨gs, extra', rfl, words', types', flat'⟩
    · exact (he.append_inj_of_readable (.variant extra words types flat) ht hs h.symm).imp
        Eq.symm Eq.symm
    · rw [record_append] at h
      exact absurd h (variant_append_ne_brace words hs _)
    · refine variant_append_inj words words' ?_ hs ht h
      intro f hf g hg s t hs ht h
      exact ih f hf (types' g hg) (closes_of_case (flat f hf) hs) (closes_of_case (flat' g hg) ht) h

end Types

/-- Types that can be read off their listings have the same shape when they are listed alike. -/
theorem Readable.shape_eq {d e : Descriptor} (hd : d.Readable) (he : e.Readable)
    (h : d.signature = e.signature) : d.shape = e.shape := by
  have hchars : d.signatureChars ++ [] = e.signatureChars ++ [] :=
    congrArg (· ++ []) (String.ofList_injective h)
  exact (hd.append_inj he (by simp [Closes]) (by simp [Closes]) hchars).1

end Descriptor

/-! ## Parameters -/

/-- The name ends at the first colon with a blank behind it. -/
def Named.EndsAtColon (f : Field) : Prop := ¬ [':', ' '] <:+: f.name.toList

namespace Descriptor

/-- A name is told from the type behind it, unless it holds a colon with a blank behind it. -/
theorem append_colon_inj {m n s t : List Char} (hm : ¬ [':', ' '] <:+: m)
    (hn : ¬ [':', ' '] <:+: n) (h : m ++ ':' :: ' ' :: s = n ++ ':' :: ' ' :: t) :
    m = n ∧ s = t := by
  have hlonger {m n u s t : List Char} (hn : ¬ [':', ' '] <:+: n) (hu : n = m ++ u)
      (h : ':' :: ' ' :: s = u ++ ':' :: ' ' :: t) : m = n ∧ s = t := by
    match u, hu, h with
    | [], hu, h => exact ⟨by simpa using hu.symm, by simpa using h⟩
    | [c], hu, h => simp at h
    | a :: b :: u, hu, h =>
      obtain ⟨rfl, rfl, -⟩ : ':' = a ∧ ' ' = b ∧ _ := by simpa using h
      exact absurd ⟨m, u, by simp [hu]⟩ hn
  rcases List.append_eq_append_iff.mp h with ⟨u, hu, hrest⟩ | ⟨u, hu, hrest⟩
  · exact hlonger hn hu hrest
  · exact (hlonger hm hu hrest).imp Eq.symm Eq.symm

theorem toList_signature (f : Field) :
    f.signature.toList =
      '(' :: (f.name.toList ++ ':' :: ' ' :: (f.typ.signatureChars ++ [')'])) := by
  simp [Named.signature, signature]

/-- Parameters that can be read off their listings are listed alike exactly when they have the same
name and shape. -/
theorem field_signature_eq_iff {p q : Field} (hp : p.typ.Readable ∧ p.EndsAtColon)
    (hq : q.typ.Readable ∧ q.EndsAtColon) : p.signature = q.signature ↔ p.shape = q.shape := by
  constructor
  · intro h
    have hlist : p.signature.toList = q.signature.toList := congrArg String.toList h
    rw [toList_signature, toList_signature] at hlist
    obtain ⟨hname, htype⟩ := append_colon_inj hp.2 hq.2 (List.cons.inj hlist).2
    have hchars : p.typ.signatureChars = q.typ.signatureChars := List.append_cancel_right htype
    rw [Named.shape, Named.shape, String.toList_inj.mp hname,
      hp.1.shape_eq hq.1 (congrArg String.ofList hchars)]
  · intro h
    obtain ⟨hname, htype⟩ := Named.mk.inj h
    rw [Named.signature, Named.signature, hname, signature_congr htype]

/-- The same of lists of parameters, one by one. -/
theorem signatures_eq_iff {ps qs : List Field} (hps : ∀ p ∈ ps, p.typ.Readable ∧ p.EndsAtColon)
    (hqs : ∀ q ∈ qs, q.typ.Readable ∧ q.EndsAtColon) :
    signatures ps = signatures qs ↔ ps.map (·.shape) = qs.map (·.shape) := by
  rw [signatures, signatures]
  induction ps generalizing qs with
  | nil => rw [List.map_nil, List.map_nil, List.nil_eq, List.nil_eq, List.map_eq_nil_iff,
      List.map_eq_nil_iff]
  | cons p ps ih =>
    cases qs with
    | nil => simp
    | cons q qs =>
      obtain ⟨hp, hps⟩ := List.forall_mem_cons.mp hps
      obtain ⟨hq, hqs⟩ := List.forall_mem_cons.mp hqs
      rw [List.map_cons, List.map_cons, List.map_cons, List.map_cons, List.cons.injEq,
        List.cons.injEq, field_signature_eq_iff hp hq, ih hps hqs]

/-! ## What listings tell -/

/-- **A listing tells the shape, and nothing else.** Two types that can be read are listed alike
exactly when they have the same shape. Two lists of parameters of such types, whose names end at
the first colon with a blank behind it, are listed alike exactly when they have the same names and
shapes in the same order. -/
theorem listing_tells_shapes :
    (∀ d e : Descriptor, d.Readable → e.Readable →
      (d.signature = e.signature ↔ d.shape = e.shape)) ∧
    ∀ ps qs : List Field, (∀ p ∈ ps, p.typ.Readable ∧ p.EndsAtColon) →
      (∀ q ∈ qs, q.typ.Readable ∧ q.EndsAtColon) →
      (signatures ps = signatures qs ↔ ps.map (·.shape) = qs.map (·.shape)) := by
  constructor
  · intro d e hd he
    exact ⟨hd.shape_eq he, signature_congr⟩
  · intro ps qs hps hqs
    exact signatures_eq_iff hps hqs

/-- A variant without cases before a variant of two, in a parameter with a colon in its name. What
an unknown tag keeps as written is not listed, and not part of the shape. -/
theorem listing_tells_shapes_nested :
    let typ (kept : Json.Members) : Descriptor := .compound .record
      [⟨"a", .compound .variant [] []⟩, ⟨"b", .compound .variant
        [⟨"c", .unknown "Flags" kept⟩, ⟨"d", .compound .record [] []⟩] []⟩] []
    let p : Field := ⟨"x:y", typ []⟩
    let q : Field := ⟨"x:y", typ [("bits", .null)]⟩
    (p.typ.Readable ∧ p.EndsAtColon) ∧ (q.typ.Readable ∧ q.EndsAtColon) ∧
      p.signature = "(x:y: \x7ba: , b: c: Flags | d: \x7b\x7d\x7d)" ∧
      p.typ.shape = q.typ.shape ∧ [p].map (·.shape) = [q].map (·.shape) := by
  intro typ p q
  have htyp (kept : Json.Members) : (typ kept).Readable := by
    refine .record [] ?_ ?_
    · have hwords : IsWord "a" ∧ IsWord "b" := by decide
      simpa using hwords
    · simp only [List.forall_mem_cons, List.not_mem_nil, false_implies, implies_true, and_true]
      refine ⟨.variant [] (by simp) (by simp) (by simp), .variant [] ?_ ?_ ?_⟩
      · have hwords : IsWord "c" ∧ IsWord "d" := by decide
        simpa using hwords
      · simpa using ⟨Readable.unknown kept (by decide) (by decide),
          Readable.record [] (by simp) (by simp)⟩
      · simp [kind]
  have hname : ¬ [':', ' '] <:+: "x:y".toList := by decide
  have hp : p.typ.Readable ∧ p.EndsAtColon := ⟨htyp [], hname⟩
  have hq : q.typ.Readable ∧ q.EndsAtColon := ⟨htyp _, hname⟩
  refine ⟨hp, hq, by decide, ?_, ?_⟩
  · exact (listing_tells_shapes.1 p.typ q.typ hp.1 hq.1).mp rfl
  · exact (listing_tells_shapes.2 [p] [q] (by simpa using hp) (by simpa using hq)).mp rfl

/-- The name of a parameter may hold what looks like the beginning of a variant. -/
theorem signatures_ambiguous :
    let ps : List Field := [⟨"a: b", .scalar .u32 []⟩]
    let qs : List Field := [⟨"a", .compound .variant [⟨"b", .scalar .u32 []⟩] []⟩]
    (∀ p ∈ ps, p.typ.Readable) ∧ (∀ q ∈ qs, q.typ.Readable) ∧ signatures ps = signatures qs ∧
      ps.map (·.name) ≠ qs.map (·.name) := by
  have hcase : IsWord "b" := by decide
  have hvariant : Readable (.compound .variant [⟨"b", .scalar .u32 []⟩] []) :=
    .variant [] (by simpa using hcase) (by simpa using Readable.scalar .u32 []) (by simp [kind])
  exact ⟨by simpa using Readable.scalar .u32 [], by simpa using hvariant, by decide, by decide⟩

end Descriptor

end TypedCall
