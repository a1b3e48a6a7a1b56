import Mathlib.Data.List.Induction
import TypedCall.Proofs.Config.Merging

/-!
# Settings in the environment

The variables that stand for settings, and what the environment says when it sets no other variable
of the program: about each setting just what its own variable says.
-/

namespace TypedCall.Config

/-- The variables for settings, with the key of each. -/
def settingVariables : List (String × String) := [
  ("INVOKER_LOG_LEVEL", "log_level"),
  ("INVOKER_METADATA_DIR", "metadata_dir"),
  ("INVOKER_EDITOR__SANITIZE_QUOTES", "editor.sanitize_quotes")]

/-- No variable is set twice, and of those that the program reads only the ones for settings. -/
structure OnlySettings (environment : List (String × String)) : Prop where
  nodup : (environment.map (·.1)).Nodup
  known : ∀ v ∈ environment, (variableKey? v.1).isSome → v.1 ∈ settingVariables.map (·.1)

/-- What a variable of the given text says. -/
def ofVariable (text : String) : Value := .datum (variableDatum text) (some "the environment")

theorem variableKey?_of_mem :
    ∀ v ∈ settingVariables, variableKey? v.1 = some v.2 := by
  decide +kernel

/-- Different variables are about different names. -/
theorem eq_of_head?_eq : ∀ v ∈ settingVariables, ∀ w ∈ settingVariables,
    (pathOf v.2).head? = (pathOf w.2).head? → v = w := by
  decide +kernel

theorem OnlySettings.of_append {first second : List (String × String)}
    (h : OnlySettings (first ++ second)) : OnlySettings first where
  nodup := by
    have hnodup := h.nodup
    rw [List.map_append] at hnodup
    exact (List.nodup_append.mp hnodup).1
  known v hv := h.known v (List.mem_append_left _ hv)

section Concat

variable {environment : List (String × String)} {source key : String}

/-- A further variable sets its key. -/
theorem ofEnvironment_concat_of_some (h : variableKey? source = some key) (text : String) :
    ofEnvironment (environment ++ [(source, text)]) =
      Table.set key (ofVariable text) (ofEnvironment environment) := by
  rw [ofEnvironment, List.foldl_append, List.foldl_cons, List.foldl_nil]
  dsimp only
  rw [h]
  rfl

/-- A further variable that stands for no setting is ignored. -/
theorem ofEnvironment_concat_of_none (h : variableKey? source = none) (text : String) :
    ofEnvironment (environment ++ [(source, text)]) = ofEnvironment environment := by
  rw [ofEnvironment, List.foldl_append, List.foldl_cons, List.foldl_nil]
  dsimp only
  rw [h]
  rfl

/-- The last variable is not set before. -/
theorem OnlySettings.lookup_eq_none {text : String}
    (h : OnlySettings (environment ++ [(source, text)])) : environment.lookup source = none := by
  have hnodup := h.nodup
  rw [List.map_append, List.nodup_append] at hnodup
  rw [List.lookup_eq_none_iff]
  intro v hv
  rw [bne_iff_ne]
  exact (hnodup.2.2 v.1 (List.mem_map_of_mem hv) source List.mem_cons_self).symm

end Concat

/-- What the environment says about a name is what the variable about it says. -/
theorem filter_ofEnvironment {environment : List (String × String)} (h : OnlySettings environment)
    {source key name : String} (hsource : (source, key) ∈ settingVariables)
    (hname : concerns name key = true) :
    (ofEnvironment environment).filter (concerns name ·.1) =
      ((environment.lookup source).map fun text => (key, ofVariable text)).toList := by
  induction environment using List.reverseRecOn with
  | nil => rfl
  | append_singleton environment last ih =>
    obtain ⟨other, text⟩ := last
    have ih := ih h.of_append
    rw [List.lookup_append]
    by_cases hother : source = other
    · subst hother
      rw [h.lookup_eq_none] at ih ⊢
      rw [ofEnvironment_concat_of_some (variableKey?_of_mem _ hsource), List.lookup_cons_self]
      exact Table.filter_set_of_true hname _ ih
    · have hlookup : [(other, text)].lookup source = none := by
        rw [List.lookup_cons, beq_eq_false_iff_ne.mpr hother, List.lookup_nil]
      rw [hlookup, Option.or_none, ← ih]
      cases hkey : variableKey? other with
      | none => rw [ofEnvironment_concat_of_none hkey]
      | some key' =>
        -- another variable is about another name
        have hmem := h.known (other, text) (by simp) (by simp [hkey])
        obtain ⟨v, hv, rfl⟩ := List.mem_map.mp hmem
        obtain rfl : key' = v.2 := Option.some.inj (hkey.symm.trans (variableKey?_of_mem v hv))
        rw [ofEnvironment_concat_of_some hkey]
        refine Table.filter_set_of_false (Bool.eq_false_iff.mpr fun hconcerns => hother ?_) _ _
        have hhead : (pathOf key).head? = (pathOf v.2).head? :=
          (of_decide_eq_true hname).trans (of_decide_eq_true hconcerns).symm
        exact congrArg Prod.fst (eq_of_head?_eq _ hsource v hv hhead)

end TypedCall.Config
