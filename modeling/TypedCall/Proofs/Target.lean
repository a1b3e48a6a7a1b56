import TypedCall.Request
import TypedCall.Proofs.Text.Percent

/-!
# The name of a call

The two parts of the name in a request are encoded apart, but the point between them is a character
that encoding keeps, so the name is the encoding of one text (`target_eq`): the export, a point, and
the function in braces. Nothing is lost in it, and where no export name holds a brace the first
brace of that text tells the export from the function (`callName_inj`).
-/

namespace TypedCall

/-- The name of a call before it is encoded. -/
def callName (exportName function : String) : String :=
  exportName ++ ".\x7b" ++ function ++ "\x7d"

theorem toList_callName (e f : String) :
    (callName e f).toList = e.toList ++ '.' :: '\x7b' :: (f.toList ++ ['\x7d']) := by
  simp [callName]

theorem target_eq (e f : String) :
    target e f = String.ofList (Text.encodePercent (callName e f).toList) := by
  have hpoint : Text.percentChar '.' = ['.'] := by decide
  rw [target, targetChars, toList_callName]
  simp only [Text.encodePercent, List.flatMap_append, List.flatMap_cons, hpoint, List.cons_append,
    List.nil_append]

/-- What stands before the first brace of a name is the export and the point. -/
theorem takeWhile_callName {e f : String} (he : '\x7b' ∉ e.toList) :
    (callName e f).toList.takeWhile (· != '\x7b') = e.toList ++ ['.'] := by
  have hplain : ∀ c ∈ e.toList, (c != '\x7b') = true := by
    intro c hc
    have hne : c ≠ '\x7b' := fun h => he (h ▸ hc)
    simpa using hne
  rw [toList_callName, List.takeWhile_append_of_pos hplain]
  rfl

/-- Where no export name holds a brace, a name has one export and one function. -/
theorem callName_inj {e₁ f₁ e₂ f₂ : String} (he₁ : '\x7b' ∉ e₁.toList) (he₂ : '\x7b' ∉ e₂.toList) :
    callName e₁ f₁ = callName e₂ f₂ ↔ e₁ = e₂ ∧ f₁ = f₂ := by
  constructor
  · intro h
    have hexport := takeWhile_callName (f := f₁) he₁
    rw [h, takeWhile_callName he₂] at hexport
    obtain rfl : e₂ = e₁ := String.toList_inj.mp (List.append_cancel_right hexport)
    have hrest : (callName e₂ f₁).toList = (callName e₂ f₂).toList := by rw [h]
    have hfunction : f₁.toList = f₂.toList := by simpa [toList_callName] using hrest
    exact ⟨rfl, String.toList_inj.mp hfunction⟩
  · rintro ⟨rfl, rfl⟩
    rfl

/-- **The name in a request identifies the call.** It is percent-encoded, and stands for the bytes
of the name of the call; so two calls have the same name in a request exactly when their names were
the same before, which is when they are calls of the same function of the same export, if no export
name holds a brace. -/
theorem target_identifies :
    (∀ e f, Text.IsPercentEncoded (target e f).toList ∧
      Text.decodePercent (target e f).toList = some (Text.bytes (callName e f))) ∧
    ∀ e₁ f₁ e₂ f₂, (target e₁ f₁ = target e₂ f₂ ↔ callName e₁ f₁ = callName e₂ f₂) ∧
      ('\x7b' ∉ e₁.toList → '\x7b' ∉ e₂.toList →
        (target e₁ f₁ = target e₂ f₂ ↔ e₁ = e₂ ∧ f₁ = f₂)) := by
  have hname : ∀ e₁ f₁ e₂ f₂, target e₁ f₁ = target e₂ f₂ ↔ callName e₁ f₁ = callName e₂ f₂ := by
    intro e₁ f₁ e₂ f₂
    rw [target_eq, target_eq, String.ofList_inj, Text.encodePercent_inj]
  refine ⟨fun e f => ?_, fun e₁ f₁ e₂ f₂ => ⟨hname e₁ f₁ e₂ f₂, fun he₁ he₂ => ?_⟩⟩
  · rw [target_eq, String.toList_ofList]
    exact ⟨(Text.encodes_encodePercent (callName e f)).encoded, Text.decodePercent_encodePercent _⟩
  · rw [hname, callName_inj he₁ he₂]

/-- A point in an export name and braces in the names of functions are not taken for those that
join the two. -/
theorem target_identifies_point :
    target "golem:cart/api.v2" "get.\x7bé\x7d" = "golem%3Acart%2Fapi.v2.%7Bget.%7B%C3%A9%7D%7D" ∧
      target "golem:cart/api.v2" "get.\x7bé\x7d" ≠
        target "golem:cart/api" "v2.\x7bget.\x7bé\x7d" := by
  refine ⟨by decide, ?_⟩
  have hiff := (target_identifies.2 "golem:cart/api.v2" "get.\x7bé\x7d" "golem:cart/api"
    "v2.\x7bget.\x7bé\x7d").2 (by decide) (by decide)
  rw [Ne, hiff]
  decide

/-- With a brace in an export name two calls may have the same name. -/
example : target "a.\x7bb" "c" = target "a" "b.\x7bc" := by decide

end TypedCall
