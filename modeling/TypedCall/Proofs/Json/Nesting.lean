import TypedCall.Proofs.Json.RoundTrip

/-!
# Documents of any depth

What is read where little may be nested is read in the same way where more may be
(`below_readValue`). So the text that a value is written as is never taken for another value
(`eq_of_parse_pretty`): if the value is too deep to be read back, nothing is read.
-/

namespace TypedCall.Json

section Readers

variable {item other : List Char → Except Fault (Read Value)}

/-- Items are read alike when each of them is. -/
theorem below_readItems (h : ∀ cs, Below (item cs) (other cs)) (fuel : Nat) (cs : List Char) :
    Below (readItems item fuel cs) (readItems other fuel cs) := by
  -- on the fuel, which both readers spend in the same way
  induction fuel generalizing cs with
  | zero => exact .refl _
  | succ fuel ih =>
    intro (vs, rest) hvs
    obtain ⟨v, r, hv, hend | ⟨r', c, ds, vs', hr, hds, hc, hvs', rfl⟩⟩ := readItems_succ_ok.mp hvs
    · exact readItems_succ_ok.mpr ⟨v, r, h cs hv, .inl hend⟩
    · have hrest := ih (c :: ds) hvs'
      exact readItems_succ_ok.mpr ⟨v, r, h cs hv, .inr ⟨r', c, ds, vs', hr, hds, hc, hrest, rfl⟩⟩

/-- An array is read alike when each of its items is. -/
theorem below_readArray (h : ∀ cs, Below (item cs) (other cs)) (cs : List Char) :
    Below (readArray item cs) (readArray other cs) := by
  intro (v, rest) hv
  obtain hempty | ⟨c, ds, vs, hcs, hc, hvs, rfl⟩ := readArray_ok.mp hv
  · exact readArray_ok.mpr (.inl hempty)
  · have hitems := below_readItems h (ds.length + 2) (c :: ds) hvs
    exact readArray_ok.mpr (.inr ⟨c, ds, vs, hcs, hc, hitems, rfl⟩)

theorem below_readMember (h : ∀ cs, Below (item cs) (other cs)) (cs : List Char) :
    Below (readMember item cs) (readMember other cs) := by
  intro (m, rest) hm
  obtain ⟨r, r', hkey, hcolon, hv⟩ := readMember_ok.mp hm
  exact readMember_ok.mpr ⟨r, r', hkey, hcolon, h r' hv⟩

/-- Members are read alike when each of their values is. -/
theorem below_readMembers (h : ∀ cs, Below (item cs) (other cs)) (before : Members) (fuel : Nat)
    (cs : List Char) :
    Below (readMembers item before fuel cs) (readMembers other before fuel cs) := by
  induction fuel generalizing before cs with
  | zero => exact .refl _
  | succ fuel ih =>
    intro (ms, rest) hms
    obtain ⟨k, v, r, hm, hr⟩ := readMembers_succ_ok.mp hms
    have hm' := below_readMember h cs hm
    obtain hend | ⟨r', r'', hcomma, hquote, hms'⟩ := hr
    · exact readMembers_succ_ok.mpr ⟨k, v, r, hm', .inl hend⟩
    · have hrest := ih (before.insert k v) r'' hms'
      exact readMembers_succ_ok.mpr ⟨k, v, r, hm', .inr ⟨r', r'', hcomma, hquote, hrest⟩⟩

/-- An object is read alike when each of its values is. -/
theorem below_readObject (h : ∀ cs, Below (item cs) (other cs)) (cs : List Char) :
    Below (readObject item cs) (readObject other cs) := by
  intro (v, rest) hv
  obtain hempty | ⟨r, ms, hcs, hms, rfl⟩ := readObject_ok.mp hv
  · exact readObject_ok.mpr (.inl hempty)
  · have hmembers := below_readMembers h [] (r.length + 1) r hms
    exact readObject_ok.mpr (.inr ⟨r, ms, hcs, hmembers, rfl⟩)

end Readers

/-- Where more may be nested, what is read is read in the same way. -/
theorem below_readValue {depth more : Nat} (hle : depth ≤ more) (cs : List Char) :
    Below (readValue depth cs) (readValue more cs) := by
  -- on the depth that is left: items and members are read with one level less on both sides
  induction depth using Nat.strong_induction_on generalizing more cs with
  | _ depth ih =>
    intro (v, rest) h
    rw [readValue_ok] at h ⊢
    generalize skipBlanks cs = skipped at h
    cases h with
    | null h => exact .null h
    | true h => exact .true h
    | false h => exact .false h
    | string h => exact .string h
    | negative h => exact .negative h
    | positive hc h => exact .positive hc h
    | @array depth cs v rest h =>
      obtain ⟨more, rfl⟩ : ∃ m, more = m + 1 := ⟨more - 1, by omega⟩
      have hitem := ih depth (Nat.lt_succ_self depth) (Nat.le_of_succ_le_succ hle)
      exact .array (below_readArray hitem cs h)
    | @object depth cs v rest h =>
      obtain ⟨more, rfl⟩ : ∃ m, more = m + 1 := ⟨more - 1, by omega⟩
      have hitem := ih depth (Nat.lt_succ_self depth) (Nat.le_of_succ_le_succ hle)
      exact .object (below_readObject hitem cs h)

namespace Value

/-- The written form of a value is taken for no other value, however deep the value is. -/
theorem eq_of_parse_pretty {v w : Value} (hv : v.All Number.Fits fun _ => True)
    (hw : v.WellFormed) (h : Value.parse v.pretty = .ok w) : w = v := by
  obtain ⟨rest, hread, -⟩ := parse_eq_ok.mp h
  -- a reader that is allowed the depth of the value reads the value back
  have hholds : v.Holds Number.Fits (fun _ => True) (max nestingLimit v.depth) :=
    ⟨hv, hw, Nat.le_max_right _ _⟩
  have hback := readsBack_pretty hholds 0 [] endsNumber_nil
  rw [List.append_nil] at hback
  have hdeep := below_readValue (Nat.le_max_left nestingLimit v.depth) _ hread
  rw [pretty, String.toList_ofList, hback] at hdeep
  exact (Prod.mk.inj (Except.ok.inj hdeep)).1.symm

end Value

end TypedCall.Json
