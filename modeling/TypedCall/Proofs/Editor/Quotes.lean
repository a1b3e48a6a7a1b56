import TypedCall.Editor.Text
import TypedCall.Proofs.Json.Characters
import TypedCall.Proofs.Json.RoundTrip

/-!
# Quotes in a document that is straightened

Straightening turns quote marks into the straight quote wherever they stand. It never touches an
escape, so a text in which every backslash begins a whole escape stays such a text
(`aligned_map_straighten`), and what is read of it holds no quote mark at all
(`markFree_of_parse`). A document without quote marks is written without them, and its text is left
as it is (`straighten_pretty`).
-/

namespace TypedCall.Editor

open Json (Value Members Read Fault)

/-- A quote mark that is straightened. -/
def IsMark (c : Char) : Prop := c = '\u201c' ∨ c = '\u201d' ∨ c = '\''

instance (c : Char) : Decidable (IsMark c) := inferInstanceAs (Decidable (_ ∨ _ ∨ _))

theorem straightenChar_of_mark {c : Char} (h : IsMark c) : straightenChar c = '"' := if_pos h

theorem straightenChar_of_not_mark {c : Char} (h : ¬ IsMark c) : straightenChar c = c := if_neg h

/-- Straightening leaves no mark. -/
theorem not_mark_straightenChar (c : Char) : ¬ IsMark (straightenChar c) := by
  by_cases h : IsMark c
  · rw [straightenChar_of_mark h]
    decide
  · rw [straightenChar_of_not_mark h]
    exact h

/-- Straightening makes no backslash. -/
theorem straightenChar_ne_backslash {c : Char} (h : c ≠ '\\') : straightenChar c ≠ '\\' := by
  by_cases hm : IsMark c
  · rw [straightenChar_of_mark hm]
    decide
  · rw [straightenChar_of_not_mark hm]
    exact h

/-- Where there is no mark nothing is straightened. -/
theorem map_straighten_of_not_mark {cs : List Char} (h : ∀ c ∈ cs, ¬ IsMark c) :
    cs.map straightenChar = cs := by
  rw [List.map_congr_left fun c hc => straightenChar_of_not_mark (h c hc), List.map_id']

/-! ## Escapes -/

/-- The only quote mark that a written character can show is the character itself. -/
theorem not_mark_of_mem_writtenChar {c d : Char} (hc : ¬ IsMark c)
    (h : d ∈ Json.writtenChar c) : ¬ IsMark d := by
  rcases Json.mem_writtenChar h with ⟨rfl, -⟩ | hescape
  · exact hc
  · have hall : ∀ d ∈ Json.escapeChars, ¬ IsMark d := by simp [Json.escapeChars, IsMark]
    exact hall d hescape

/-- Neither an escape nor what it stands for is a quote mark. -/
theorem not_mark_of_escape {c : Char} {es : List Char} (h : Json.writtenChar c = '\\' :: es) :
    ¬ IsMark c ∧ ∀ d ∈ es, ¬ IsMark d := by
  have hc : ¬ IsMark c := by
    rintro (rfl | rfl | rfl) <;> exact absurd (List.cons.inj h).1 (by decide)
  refine ⟨hc, fun d hd => not_mark_of_mem_writtenChar hc ?_⟩
  rw [h]
  exact List.mem_cons_of_mem _ hd

/-- A text in which every backslash begins an escape that the printer writes, and every other
character has the property. -/
inductive Aligned (P : Char → Prop) : List Char → Prop
  | nil : Aligned P []
  | plain {c cs} (hslash : c ≠ '\\') (hc : P c) (h : Aligned P cs) : Aligned P (c :: cs)
  | escape {c es cs} (hes : Json.writtenChar c = '\\' :: es) (h : Aligned P cs) :
    Aligned P ('\\' :: (es ++ cs))

variable {P : Char → Prop}

/-- Aligned texts can be put one behind the other. -/
theorem Aligned.append {cs ds : List Char} (hcs : Aligned P cs) (hds : Aligned P ds) :
    Aligned P (cs ++ ds) := by
  induction hcs with
  | nil => exact hds
  | plain hslash hc _ ih => exact .plain hslash hc ih
  | escape hes _ ih =>
    rw [List.cons_append, List.append_assoc]
    exact .escape hes ih

/-- A text without backslashes is aligned when its characters have the property. -/
theorem aligned_of_forall {cs : List Char} (h : ∀ c ∈ cs, c ≠ '\\' ∧ P c) : Aligned P cs := by
  induction cs with
  | nil => exact .nil
  | cons c cs ih =>
    obtain ⟨hslash, hc⟩ := h c List.mem_cons_self
    exact .plain hslash hc (ih fun d hd => h d (List.mem_cons_of_mem _ hd))

/-- After straightening no quote mark is left, and the escapes are as they were. -/
theorem aligned_map_straighten {cs : List Char} (h : Aligned P cs) :
    Aligned (fun c => ¬ IsMark c) (cs.map straightenChar) := by
  induction h with
  | nil => exact .nil
  | @plain c cs hslash _ _ ih =>
    exact .plain (straightenChar_ne_backslash hslash) (not_mark_straightenChar c) ih
  | @escape c es cs hes _ ih =>
    have hes' : es.map straightenChar = es := map_straighten_of_not_mark (not_mark_of_escape hes).2
    rw [List.map_cons, List.map_append, hes', straightenChar_of_not_mark (by decide)]
    exact .escape hes ih

/-- A text without quote marks outside of its escapes is left as it is. -/
theorem map_straighten_of_aligned {cs : List Char} (h : Aligned (fun c => ¬ IsMark c) cs) :
    cs.map straightenChar = cs := by
  induction h with
  | nil => rfl
  | plain _ hc _ ih => rw [List.map_cons, straightenChar_of_not_mark hc, ih]
  | escape hes _ ih =>
    rw [List.map_cons, List.map_append, map_straighten_of_not_mark (not_mark_of_escape hes).2, ih,
      straightenChar_of_not_mark (by decide)]

/-! ## Reading an aligned text -/

/-- A text without quote marks. -/
def Unmarked (s : String) : Prop := ∀ c ∈ s.toList, ¬ IsMark c

/-- Of a text without marks, characters without marks are read, and none are left behind. -/
theorem readChars_aligned {fuel : Nat} {cs ds rest : List Char}
    (hcs : Aligned (fun c => ¬ IsMark c) cs) (h : Json.readChars fuel cs = .ok (ds, rest)) :
    (∀ d ∈ ds, ¬ IsMark d) ∧ Aligned (fun c => ¬ IsMark c) rest := by
  induction fuel generalizing cs ds with
  | zero => cases h
  | succ fuel ih =>
    obtain ⟨rfl, rfl⟩ | ⟨es, d, r, ds', rfl, hes, hr, rfl⟩ | ⟨c, r, ds', rfl, -, hslash, hr, rfl⟩ :=
      Json.readChars_succ_ok h
    · cases hcs with
      | plain _ _ hrest => exact ⟨by simp, hrest⟩
    · cases hcs with
      | plain hslash => exact absurd rfl hslash
      | @escape c es' cs' hwritten hcs' =>
        -- the reader takes the escape that the printer wrote
        obtain ⟨⟨-, hslash, -⟩, hplain⟩ | ⟨es'', hes'', hread⟩ := Json.writtenChar_cases c
        · rw [hplain] at hwritten
          exact absurd (List.cons.inj hwritten).1 hslash
        · obtain ⟨-, rfl⟩ := List.cons.inj (hes''.symm.trans hwritten)
          obtain ⟨rfl, rfl⟩ := Prod.mk.inj (Except.ok.inj ((hread cs').symm.trans hes))
          obtain ⟨hds, hrest⟩ := ih hcs' hr
          exact ⟨List.forall_mem_cons.mpr ⟨(not_mark_of_escape hwritten).1, hds⟩, hrest⟩
    · cases hcs with
      | plain _ hc hcs' =>
        obtain ⟨hds, hrest⟩ := ih hcs' hr
        exact ⟨List.forall_mem_cons.mpr ⟨hc, hds⟩, hrest⟩
      | escape => exact absurd rfl hslash

/-- Being aligned is kept while a text is read, and no string that is read holds a quote mark. -/
theorem textInvariant_aligned :
    Json.TextInvariant (Aligned fun c => ¬ IsMark c) (fun _ => True) Unmarked where
  tail hslash h := by
    cases h with
    | plain _ _ h => exact h
    | escape => exact absurd rfl hslash
  number _ := trivial
  string hcs h := by
    obtain ⟨ds, hds, rfl⟩ := Json.readString_ok.mp h
    rw [Unmarked, String.toList_ofList]
    exact readChars_aligned hcs hds

/-! ## Written documents -/

section Written

open Json.Value (newLine prettyItem prettyMember)

/-- The characters of a document outside of its strings are neither backslashes nor quote marks. -/
theorem aligned_of_not_mark {cs : List Char} (hP : ∀ c, ¬ IsMark c → P c)
    (h : ∀ c ∈ cs, c ≠ '\\' ∧ ¬ IsMark c) : Aligned P cs :=
  aligned_of_forall fun c hc => ⟨(h c hc).1, hP c (h c hc).2⟩

theorem aligned_newLine (hP : ∀ c, ¬ IsMark c → P c) (level : Nat) : Aligned P (newLine level) := by
  refine aligned_of_not_mark hP fun c hc => ?_
  rcases List.mem_cons.mp hc with rfl | hc
  · decide
  · rw [(List.mem_replicate.mp hc).2]
    decide

/-- A written string is aligned when its own characters have the property. -/
theorem aligned_writtenString (hP : ∀ c, ¬ IsMark c → P c) {s : String}
    (hs : ∀ c ∈ s.toList, P c) : Aligned P (Json.writtenString s) := by
  have hquote : Aligned P ['"'] := aligned_of_not_mark hP (by simp [IsMark])
  have hchars : ∀ cs : List Char, (∀ c ∈ cs, P c) → Aligned P (cs.flatMap Json.writtenChar) := by
    intro cs hcs
    induction cs with
    | nil => exact .nil
    | cons c cs ih =>
      have hrest := ih fun d hd => hcs d (List.mem_cons_of_mem _ hd)
      rw [List.flatMap_cons]
      obtain ⟨⟨-, hslash, -⟩, hc⟩ | ⟨es, hc, -⟩ := Json.writtenChar_cases c
      · rw [hc]
        exact .plain hslash (hcs c List.mem_cons_self) hrest
      · rw [hc]
        exact .escape hc hrest
  exact (hquote.append (hchars s.toList hs)).append hquote

theorem not_mark_of_isNumberChar {c : Char} (h : Json.IsNumberChar c) :
    c ≠ '\\' ∧ ¬ IsMark c := by
  have hother : ∀ d ∈ ['\\', '\u201c', '\u201d', '\''], ¬ Json.IsNumberChar d := by
    intro d hd
    simp only [Json.IsNumberChar, List.mem_cons, List.not_mem_nil, or_false] at hd ⊢
    rcases hd with rfl | rfl | rfl | rfl <;> decide
  refine ⟨fun hc => hother c (by simp [hc]) h, fun hm => hother c ?_ h⟩
  rcases hm with rfl | rfl | rfl <;> simp

theorem aligned_number (hP : ∀ c, ¬ IsMark c → P c) (n : Json.Number) : Aligned P n.written :=
  aligned_of_not_mark hP fun c hc => not_mark_of_isNumberChar (Json.isNumberChar_written n c hc)

/-- Texts with commas between them are aligned when each text is. -/
theorem aligned_commaSeparated (hP : ∀ c, ¬ IsMark c → P c) {texts : List (List Char)}
    (h : ∀ text ∈ texts, Aligned P text) : Aligned P (Json.commaSeparated texts) := by
  have hcomma : Aligned P [','] := aligned_of_not_mark hP (by simp [IsMark])
  have hafter : ∀ texts : List (List Char), (∀ text ∈ texts, Aligned P text) →
      Aligned P (Json.afterCommas texts) := by
    intro texts h
    induction texts with
    | nil => exact .nil
    | cons text texts ih =>
      rw [Json.afterCommas_cons]
      exact hcomma.append ((h text List.mem_cons_self).append
        (ih fun t ht => h t (List.mem_cons_of_mem _ ht)))
  cases texts with
  | nil => exact .nil
  | cons text texts =>
    exact (h text List.mem_cons_self).append
      (hafter texts fun t ht => h t (List.mem_cons_of_mem _ ht))

/-- In a written document every backslash begins an escape, and the characters outside of escapes
are those of its strings and some that are no quote marks. -/
theorem aligned_pretty (hP : ∀ c, ¬ IsMark c → P c) {v : Value} {N : Json.Number → Prop}
    (hv : v.All N fun s => ∀ c ∈ s.toList, P c) (level : Nat) :
    Aligned P (v.prettyChars level) := by
  induction v using Value.induction generalizing level with
  | null =>
    have hnull : ∀ c ∈ ['n', 'u', 'l', 'l'], c ≠ '\\' ∧ ¬ IsMark c := by simp [IsMark]
    exact aligned_of_not_mark hP hnull
  | bool b =>
    have hbool : ∀ c ∈ (Value.bool b).compactChars, c ≠ '\\' ∧ ¬ IsMark c := by
      cases b <;> simp [Json.Value.compactChars, IsMark]
    exact aligned_of_not_mark hP hbool
  | number n => exact aligned_number hP n
  | string s => exact aligned_writtenString hP hv
  | array items ih =>
    rw [Json.Value.all_array] at hv
    have hitems : ∀ text ∈ items.map (prettyItem (level + 1)), Aligned P text := by
      intro text htext
      obtain ⟨v, hmem, rfl⟩ := List.mem_map.mp htext
      exact (aligned_newLine hP _).append (ih v hmem (hv v hmem) (level + 1))
    have hopen : Aligned P ['['] := aligned_of_not_mark hP (by simp [IsMark])
    have hclose : Aligned P [']'] := aligned_of_not_mark hP (by simp [IsMark])
    cases items with
    | nil => exact hopen.append hclose
    | cons v vs =>
      rw [Json.Value.prettyChars_array (by simp)]
      exact hopen.append ((aligned_commaSeparated hP hitems).append
        ((aligned_newLine hP level).append hclose))
  | object members ih =>
    rw [Json.Value.all_object] at hv
    have hcolon : Aligned P [':', ' '] := aligned_of_not_mark hP (by simp [IsMark])
    have hmembers : ∀ text ∈ members.map (prettyMember (level + 1)), Aligned P text := by
      intro text htext
      obtain ⟨m, hmem, rfl⟩ := List.mem_map.mp htext
      exact ((aligned_newLine hP _).append (aligned_writtenString hP (hv m hmem).1)).append
        (hcolon.append (ih m.1 m.2 hmem (hv m hmem).2 (level + 1)))
    have hopen : Aligned P ['\x7b'] := aligned_of_not_mark hP (by simp [IsMark])
    have hclose : Aligned P ['\x7d'] := aligned_of_not_mark hP (by simp [IsMark])
    cases members with
    | nil => exact hopen.append hclose
    | cons m ms =>
      rw [Json.Value.prettyChars_object (by simp)]
      exact hopen.append ((aligned_commaSeparated hP hmembers).append
        ((aligned_newLine hP level).append hclose))

end Written

/-- No text inside the value holds a quote mark. -/
def MarkFree (v : Value) : Prop := v.All (fun _ => True) Unmarked

/-- A value without quote marks is written without them, and its text is left as it is. -/
theorem straighten_pretty {v : Value} (hm : MarkFree v) : straighten v.pretty = v.pretty := by
  rw [straighten, Json.Value.pretty, String.toList_ofList,
    map_straighten_of_aligned (aligned_pretty (fun _ h => h) hm 0)]

/-- Whatever is read of a straightened document holds no quote marks. -/
theorem markFree_of_parse {v w : Value} (hv : v.IsDocument)
    (h : Value.parse (straighten v.pretty) = .ok w) : MarkFree w := by
  have hall : v.All Json.Number.Fits fun s => ∀ c ∈ s.toList, True :=
    hv.all.imp₂ (fun _ hn _ => hn) (fun _ _ _ _ _ => trivial) hv.all
  refine (textInvariant_aligned.parse ?_ h).all
  rw [straighten, Json.Value.pretty, String.toList_ofList, String.toList_ofList]
  exact aligned_map_straighten (aligned_pretty (fun _ _ => trivial) hall 0)

end TypedCall.Editor
