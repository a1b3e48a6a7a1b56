import TypedCall.Json.Printer
import TypedCall.Proofs.Json.Reading

/-!
# Written strings read back

Each character is written either as itself or as an escape that stands for it
(`writtenChar_cases`), so a reader inside a string takes one turn a character and stops at the
closing quote.
-/

namespace TypedCall.Json

/-- A character that stands for itself inside a string. -/
def IsPlain (c : Char) : Prop := c ≠ '"' ∧ c ≠ '\\' ∧ ¬ c.toNat < 0x20

/-- A control character is read back from the four digits of its number. -/
theorem readUnit_written {n : Nat} (h : n < 0x20) (rest : List Char) :
    readUnit ('0' :: '0' :: lowerHexDigit (n / 16) :: lowerHexDigit (n % 16) :: rest) =
      .ok (Char.ofNat n, rest) := by
  have hquad : ∀ n < 0x20,
      hexQuad? '0' '0' (lowerHexDigit (n / 16)) (lowerHexDigit (n % 16)) = some n := by decide
  rw [readUnit, readHexQuad, hquad n h]
  show (if 0xDC00 ≤ n ∧ n ≤ 0xDFFF then _ else _) = _
  rw [if_neg (by omega), if_pos (by omega)]

/-- A written character is the character itself or an escape that is read as it. -/
theorem writtenChar_cases (c : Char) :
    (IsPlain c ∧ writtenChar c = [c]) ∨
      ∃ es, writtenChar c = '\\' :: es ∧ ∀ rest, readEscape (es ++ rest) = .ok (c, rest) := by
  rw [writtenChar]
  by_cases hquote : c = '"'
  · exact .inr ⟨['"'], by rw [if_pos hquote], fun rest => by rw [hquote]; rfl⟩
  rw [if_neg hquote]
  by_cases hslash : c = '\\'
  · exact .inr ⟨['\\'], by rw [if_pos hslash], fun rest => by rw [hslash]; rfl⟩
  rw [if_neg hslash]
  by_cases hcontrol : c.toNat < 0x20
  · right
    rw [if_pos hcontrol]
    have hnat : ∀ n : Nat, c.toNat = n → c = Char.ofNat n := fun n h => by
      rw [← h, Char.ofNat_toNat]
    by_cases hn : c = '\n'
    · exact ⟨['n'], by rw [if_pos hn], fun rest => by rw [hn]; rfl⟩
    rw [if_neg hn]
    by_cases hr : c = '\r'
    · exact ⟨['r'], by rw [if_pos hr], fun rest => by rw [hr]; rfl⟩
    rw [if_neg hr]
    by_cases ht : c = '\t'
    · exact ⟨['t'], by rw [if_pos ht], fun rest => by rw [ht]; rfl⟩
    rw [if_neg ht]
    by_cases hb : c.toNat = 0x08
    · exact ⟨['b'], by rw [if_pos hb], fun rest => by rw [hnat _ hb]; rfl⟩
    rw [if_neg hb]
    by_cases hf : c.toNat = 0x0c
    · exact ⟨['f'], by rw [if_pos hf], fun rest => by rw [hnat _ hf]; rfl⟩
    rw [if_neg hf]
    -- the controls without a short escape are written by their number
    refine ⟨_, rfl, fun rest => ?_⟩
    have hunit := readUnit_written hcontrol rest
    rw [Char.ofNat_toNat] at hunit
    exact hunit
  · exact .inl ⟨⟨hquote, hslash, hcontrol⟩, by rw [if_neg hcontrol]⟩

theorem readChars_plain {fuel : Nat} {c : Char} (hc : IsPlain c) {cs ds rest : List Char}
    (h : readChars fuel cs = .ok (ds, rest)) :
    readChars (fuel + 1) (c :: cs) = .ok (c :: ds, rest) := by
  rw [readChars, if_neg hc.1, if_neg hc.2.1, if_neg hc.2.2, h]
  rfl

theorem readChars_escape {fuel : Nat} {c : Char} {es cs ds rest : List Char}
    (hes : readEscape es = .ok (c, cs)) (h : readChars fuel cs = .ok (ds, rest)) :
    readChars (fuel + 1) ('\\' :: es) = .ok (c :: ds, rest) := by
  rw [readChars, if_neg (by decide), if_pos rfl, hes]
  show (readChars fuel cs >>= fun r => .ok (c :: r.1, r.2)) = _
  rw [h]
  rfl

/-- The written characters of a string are read back up to the closing quote. -/
theorem readChars_written {s rest : List Char} {fuel : Nat} (hfuel : s.length < fuel) :
    readChars fuel (s.flatMap writtenChar ++ '"' :: rest) = .ok (s, rest) := by
  induction s generalizing fuel with
  | nil =>
    obtain ⟨fuel, rfl⟩ : ∃ f, fuel = f + 1 := ⟨fuel - 1, by simp at hfuel; omega⟩
    rfl
  | cons c s ih =>
    obtain ⟨fuel, rfl⟩ : ∃ f, fuel = f + 1 := ⟨fuel - 1, by omega⟩
    have hlt : s.length < fuel := by simpa using hfuel
    have hs := ih hlt
    rw [List.flatMap_cons, List.append_assoc]
    obtain ⟨hplain, hc⟩ | ⟨es, hc, hes⟩ := writtenChar_cases c
    · rw [hc]
      exact readChars_plain hplain hs
    · rw [hc]
      exact readChars_escape (hes _) hs

/-- A written string is read back, and the reader stops behind its closing quote. -/
theorem readString_written (s : String) (rest : List Char) :
    readString (s.toList.flatMap writtenChar ++ '"' :: rest) = .ok (s, rest) := by
  -- the fuel counts characters of the text, of which each character takes at least one
  have hlength : ∀ cs : List Char, cs.length ≤ (cs.flatMap writtenChar).length := by
    intro cs
    induction cs with
    | nil => exact Nat.le_refl _
    | cons c cs ih =>
      have hpos : 0 < (writtenChar c).length := by
        obtain ⟨-, hc⟩ | ⟨es, hc, -⟩ := writtenChar_cases c <;> simp [hc]
      rw [List.flatMap_cons, List.length_append, List.length_cons]
      omega
  have hfuel : s.toList.length < (s.toList.flatMap writtenChar ++ '"' :: rest).length + 1 := by
    have := hlength s.toList
    rw [List.length_append]
    omega
  rw [readString, readChars_written hfuel]
  show Except.ok (String.ofList s.toList, rest) = _
  rw [String.ofList_toList]

theorem writtenString_append (s : String) (rest : List Char) :
    writtenString s ++ rest = '"' :: (s.toList.flatMap writtenChar ++ '"' :: rest) := by
  simp [writtenString]

/-- A written string is a value. -/
theorem readValue_string (depth : Nat) (s : String) (rest : List Char) :
    readValue depth (writtenString s ++ rest) = .ok (.string s, rest) := by
  rw [readValue_ok, writtenString_append, skipBlanks_cons (by decide)]
  exact .string (readString_written s rest)

end TypedCall.Json
