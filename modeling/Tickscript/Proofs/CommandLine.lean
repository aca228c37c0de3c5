/-
  What comes of a command line.

  A run reads its source, takes the text for an alert and converts it.  The first stage that
  fails is the only one that is reported, and nothing is written before all have succeeded.

  * `Surroundings`: the input and the files that a command line may ask for;
    `Surroundings.outcome`: what it leaves behind there;
  * `Converts`: which chain a content becomes, if it becomes one; exit code and output of a
    run depend on nothing else (`Invocation.run_of_converts`, `Invocation.run_of_not_converts`);
  * `Surroundings.outcome_by_stages`: the stages of a command line, one by one;
  * `Surroundings.render_of_parse_document`: the two forms of the output agree.
-/
import Tickscript.Proofs.Arguments
import Tickscript.Proofs.Documents.Alert
import Tickscript.Proofs.Documents.Converted

namespace Tickscript

/-! ## Outcomes -/

namespace Outcome

/-- Nothing is written, and the message is all that is reported. -/
def Fails (o : Outcome) (message : List Char) : Prop :=
  o.exit = 1 ∧ o.output = [] ∧ o.failure = some ("Error: ".toList ++ message)

/-- The output is written, and no failure is reported. -/
def Succeeds (o : Outcome) (output : List Char) : Prop :=
  o.exit = 0 ∧ o.output = output ∧ o.failure = none

theorem fails_failed (s : Stage) (log : List Event) : (failed s log).Fails s.message :=
  ⟨rfl, rfl, rfl⟩

theorem succeeds_succeeded (output : List Char) (log : List Event) :
    (succeeded output log).Succeeds output :=
  ⟨rfl, rfl, rfl⟩

end Outcome

/-! ## Runs -/

/-- The content can be read, is the text of an alert, and the alert becomes the chain on top of
    the parent. -/
def Converts (content : Option ByteArray) (parent : String) (c : Chain) : Prop :=
  ∃ text a, content.bind String.fromUTF8? = some text ∧ Alert.codec.parse text.toList = .ok a ∧
    (a.convert (.identifier parent)).result = .ok c

/-- A content becomes one chain at most. -/
theorem Converts.unique {content : Option ByteArray} {parent : String} {c d : Chain}
    (hc : Converts content parent c) (hd : Converts content parent d) : c = d := by
  obtain ⟨text, a, htext, halert, hc⟩ := hc
  obtain ⟨text', a', htext', halert', hd⟩ := hd
  obtain rfl := Option.some.inj (htext.symm.trans htext')
  obtain rfl := Except.ok.inj (halert.symm.trans halert')
  exact Except.ok.inj (hc.symm.trans hd)

theorem fromUTF8?_toUTF8 (s : String) : String.fromUTF8? s.toUTF8 = some s := by
  simp only [String.fromUTF8?, String.toUTF8_eq_toByteArray, dif_pos s.isValidUTF8]
  rfl

/-- What is written for an alert becomes its chain. -/
theorem Alert.converts_print {a : Alert} (hfinite : a.Finite) (h : a.Encodable) (p : String) :
    Converts (some (String.ofList (Alert.codec.print a)).toUTF8) p ⟨p, a.calls⟩ := by
  refine ⟨String.ofList (Alert.codec.print a), a, ?_, ?_, convert_identifier_ok_iff.2 ⟨h, rfl⟩⟩
  · rw [Option.bind_some, fromUTF8?_toUTF8]
  · rw [String.toList_ofList]
    exact parse_printed hfinite

namespace Invocation

variable {i : Invocation} {content : Option ByteArray}

/-! ### Stages -/

section
variable {text : String} {a : Alert}

theorem run_unread (h : content.bind String.fromUTF8? = none) :
    (i.run content).Fails (Stage.reading i.source).message := by
  simp only [run, h]
  exact Outcome.fails_failed _ _

theorem run_unparsed {e : Json.Fault} (htext : content.bind String.fromUTF8? = some text)
    (h : Alert.codec.parse text.toList = .error e) :
    (i.run content).Fails (Stage.parsing i.source).message := by
  simp only [run, htext, h]
  exact Outcome.fails_failed _ _

theorem run_unconverted {e : BuildError} (htext : content.bind String.fromUTF8? = some text)
    (halert : Alert.codec.parse text.toList = .ok a)
    (h : (a.convert (.identifier i.parent)).result = .error e) :
    (i.run content).Fails (Stage.converting e).message := by
  simp only [run, htext, halert, h]
  exact Outcome.fails_failed _ _

theorem run_converted {c : Chain} (htext : content.bind String.fromUTF8? = some text)
    (halert : Alert.codec.parse text.toList = .ok a)
    (h : (a.convert (.identifier i.parent)).result = .ok c) :
    (i.run content).Succeeds (i.form.render c) := by
  simp only [run, htext, halert, h]
  exact Outcome.succeeds_succeeded _ _

end

/-! ### Exit code and output -/

theorem run_of_converts {c : Chain} (h : Converts content i.parent c) :
    (i.run content).Succeeds (i.form.render c) := by
  obtain ⟨text, a, htext, halert, hc⟩ := h
  exact run_converted htext halert hc

/-- Without a chain some stage fails. -/
theorem run_of_not_converts (h : ∀ c, ¬ Converts content i.parent c) :
    ∃ message, (i.run content).Fails message := by
  cases htext : content.bind String.fromUTF8? with
  | none => exact ⟨_, run_unread htext⟩
  | some text =>
    cases halert : Alert.codec.parse text.toList with
    | error e => exact ⟨_, run_unparsed htext halert⟩
    | ok a =>
      cases hc : (a.convert (.identifier i.parent)).result with
      | error e => exact ⟨_, run_unconverted htext halert hc⟩
      | ok c => exact absurd ⟨text, a, htext, halert, hc⟩ (h c)

theorem exit_run_eq_zero_iff : (i.run content).exit = 0 ↔ ∃ c, Converts content i.parent c := by
  constructor
  · intro hexit
    by_contra h
    obtain ⟨message, hfails, -⟩ := run_of_not_converts (not_exists.1 h)
    rw [hfails] at hexit
    cases hexit
  · rintro ⟨c, hc⟩
    exact (run_of_converts hc).1

end Invocation

/-! ## Command lines -/

/-- What a command line may ask for: the input, and the files that can be read. -/
structure Surroundings where
  input : ByteArray
  file : String → Option ByteArray

namespace Surroundings

def content (s : Surroundings) : Source → Option ByteArray
  | .input => some s.input
  | .file path => s.file path

/-- What a command line leaves behind. -/
def outcome (s : Surroundings) (args : List String) : Outcome :=
  Id.run (execute (fun source => pure (s.content source)) args)

theorem outcome_of_parse {s : Surroundings} {args : List String} {i : Invocation}
    (h : Arguments.parse args = .ok i) : s.outcome args = i.run (s.content i.source) := by
  simp only [outcome, execute, h]
  rfl

/-- **Both forms say the same.**  Whatever is converted, the document that is written for it is
    read as a chain, unless it is nested too deep for a reader, and the chain is written as the
    script. -/
theorem render_of_parse_document (s : Surroundings) {args args' : List String} {i j : Invocation}
    (hi : Arguments.parse args = .ok i) (hj : Arguments.parse args' = .ok j)
    (hdocument : i.form = .document) (hscript : j.form = .script)
    (hparent : j.parent = i.parent) (hcontent : s.content j.source = s.content i.source)
    (hexit : (s.outcome args).exit = 0)
    (hdepth : ∀ c, Converts (s.content i.source) i.parent c → c.json.depth ≤ 127) :
    (s.outcome args').exit = 0 ∧
      ∃ b, Chain.codec.parse (s.outcome args).output = .ok b ∧
        b.render = (s.outcome args').output := by
  rw [outcome_of_parse hi] at hexit ⊢
  rw [outcome_of_parse hj, hcontent]
  obtain ⟨c, hc⟩ := Invocation.exit_run_eq_zero_iff.1 hexit
  obtain ⟨-, hpretty, -⟩ := Invocation.run_of_converts hc
  obtain ⟨hzero, hrender, -⟩ :=
    Invocation.run_of_converts (hparent ▸ hc : Converts (s.content i.source) j.parent c)
  have hfaithful : Chain.codec.Faithful c := by
    obtain ⟨text, a, -, -, ha⟩ := hc
    obtain ⟨he, rfl⟩ := Alert.convert_identifier_ok_iff.1 ha
    exact Alert.faithful_calls he
  refine ⟨hzero, c, ?_, ?_⟩
  · rw [hpretty, hdocument]
    exact hfaithful.parse_pretty.trans (if_pos (hdepth c hc))
  · rw [hrender, hscript]
    rfl

/-- Quotes of both kinds, an end of line, and two lists of recipients. -/
theorem render_of_parse_document_email :
    let a : Alert := {
      message := "it's \"x\"\n"
      emailHandlers := [{}, { toList := ["a, b", "c"] }] }
    let content := (String.ofList (Alert.codec.print a)).toUTF8
    let s : Surroundings := ⟨content, fun _ => none⟩
    let args := Arguments.spell "-" "it" .document false
    let args' := Arguments.spell "-" "it" .script false
    ∃ b, Chain.codec.parse (s.outcome args).output = .ok b ∧
      b.render = (s.outcome args').output := by
  intro a content s args args'
  have he : a.Encodable := ⟨by decide, fun _ => by decide, fun _ => by decide⟩
  have hc : Converts (some content) "it" ⟨"it", a.calls⟩ :=
    Alert.converts_print ⟨rfl, rfl⟩ he "it"
  have hlength : a.calls.length ≤ 62 := by decide
  -- the text itself does not matter
  clear_value content a
  have hargs : Arguments.parse args = .ok ⟨.input, "it", .document, false⟩ :=
    Arguments.parse_spell (by decide) "it" .document false
  have hargs' : Arguments.parse args' = .ok ⟨.input, "it", .script, false⟩ :=
    Arguments.parse_spell (by decide) "it" .script false
  have hexit : (s.outcome args).exit = 0 := by
    rw [outcome_of_parse hargs]
    exact Invocation.exit_run_eq_zero_iff.2 ⟨_, hc⟩
  have hdepth : ∀ c, Converts (s.content .input) "it" c → c.json.depth ≤ 127 := by
    intro c hc'
    rw [hc'.unique hc]
    obtain ⟨-, hmax⟩ := Alert.depth_calls (p := "it") he
    omega
  exact (render_of_parse_document s hargs hargs' rfl rfl rfl rfl hexit hdepth).2

end Surroundings

end Tickscript
