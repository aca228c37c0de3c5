/-
  The outcome of a run, said of its steps alone.

  A step is tried or left out by its kind, its condition and the zeros among its
  arguments (`Step.isAttempted`).  A step that is tried adds a link if all its
  arguments have literals (`Step.Adds`), and is rejected for the leftmost argument
  that has none (`Step.Rejects`).

  * `Step.adds_or_rejects`, `Step.Adds.not_rejects`: one or the other, never both;
  * `Step.mem_links_iff`, `Step.failure_eq_some_iff`: so a step that is tried has that link, or
    that failure;
  * `Step.built_of_adds`, `Step.built_of_rejects`: what the attempted steps of a
    run leave behind, without and with a rejected one among them;
  * `Builder.run_outcome`: the state of a builder after any run.
-/
import Mathlib.Data.List.Forall2
import Tickscript.Proofs.Run

namespace Tickscript

/-! ## Arguments -/

namespace Argument

/-- The literals of arguments, one by one. -/
def Encodes (args : List Argument) (literals : List Literal) : Prop :=
  List.Forall₂ (fun a l => a.encode = .ok l) args literals

/-- The leftmost argument without a literal has none for this cause. -/
def Fails (args : List Argument) (cause : LiteralError) : Prop :=
  ∃ front a back literals, args = front ++ a :: back ∧ Encodes front literals ∧
    a.encode = .error cause

theorem encodeAll_cons (a : Argument) (rest : List Argument) :
    encodeAll (a :: rest) =
      match a.encode with
      | .error cause => .error cause
      | .ok l => (encodeAll rest).map (l :: ·) := by
  rw [encodeAll]
  cases a.encode with
  | error cause => rfl
  | ok l => cases encodeAll rest <;> rfl

theorem encodeAll_of_encodes : ∀ {args : List Argument} {literals : List Literal},
    Encodes args literals → encodeAll args = .ok literals
  | [], _, .nil => rfl
  | a :: rest, _, .cons ha hrest => by
    rw [encodeAll_cons, ha, encodeAll_of_encodes hrest]
    rfl

theorem encodeAll_of_fails {args : List Argument} {cause : LiteralError} (h : Fails args cause) :
    encodeAll args = .error cause := by
  obtain ⟨front, a, back, literals, rfl, hfront, ha⟩ := h
  induction hfront with
  | nil => rw [List.nil_append, encodeAll_cons, ha]
  | cons hb _ ih =>
    rw [List.cons_append, encodeAll_cons, hb, ih]
    rfl

theorem exists_of_mem_encodes {args : List Argument} {literals : List Literal}
    (h : Encodes args literals) : ∀ l ∈ literals, ∃ a ∈ args, a.encode = .ok l := by
  induction h with
  | nil => exact fun l hl => absurd hl List.not_mem_nil
  | cons ha _ ih =>
    intro l hl
    rcases List.mem_cons.1 hl with rfl | hl
    · exact ⟨_, List.mem_cons_self, ha⟩
    · obtain ⟨b, hb, hbl⟩ := ih l hl
      exact ⟨b, List.mem_cons_of_mem _ hb, hbl⟩

theorem encodes_or_fails : ∀ args : List Argument,
    (∃ literals, Encodes args literals) ∨ ∃ cause, Fails args cause
  | [] => Or.inl ⟨[], .nil⟩
  | a :: rest => by
    cases ha : a.encode with
    | error cause => exact Or.inr ⟨cause, [], a, rest, [], rfl, .nil, ha⟩
    | ok l =>
      rcases encodes_or_fails rest with ⟨ls, hls⟩ | ⟨cause, front, b, back, ls, rfl, hfront, hb⟩
      · exact Or.inl ⟨l :: ls, .cons ha hls⟩
      · exact Or.inr ⟨cause, a :: front, b, back, l :: ls, rfl, .cons ha hfront, hb⟩

end Argument

/-! ## Steps -/

namespace Step

/-- The operator of the call. -/
def operator : Step → Operator
  | pipe _ _ => .pipe
  | dot _ _ | dotIf _ _ _ | dotAlways _ _ => .dot

/-- The name of the call. -/
def name : Step → String
  | pipe n _ | dot n _ | dotIf n _ _ | dotAlways n _ => n

/-- The arguments of the call. -/
def args : Step → List Argument
  | pipe _ as | dot _ as | dotIf _ _ as | dotAlways _ as => as

/-- Nodes and properties that may be zero are tried always, the other properties if no argument is
    zero, and under a condition only if it holds. -/
def isAttempted : Step → Bool
  | pipe _ _ | dotAlways _ _ => true
  | dot _ as => as.all fun a => !a.isZero
  | dotIf _ condition as => condition && as.all fun a => !a.isZero

/-- All arguments have literals, and the link is the call with them. -/
structure Adds (s : Step) (l : Link) : Prop where
  operator : l.operator = s.operator
  name : l.call.name = s.name
  args : Argument.Encodes s.args l.call.args

/-- An argument has no literal; the cause is that of the leftmost one. -/
def Rejects (s : Step) (cause : LiteralError) : Prop := Argument.Fails s.args cause

theorem adds_or_rejects (s : Step) : (∃ l, s.Adds l) ∨ ∃ cause, s.Rejects cause := by
  rcases Argument.encodes_or_fails s.args with ⟨ls, hls⟩ | h
  · exact Or.inl ⟨⟨s.operator, ⟨s.name, ls⟩⟩, rfl, rfl, hls⟩
  · exact Or.inr h

theorem Adds.not_rejects {s : Step} {l : Link} (h : s.Adds l) (cause : LiteralError) :
    ¬ s.Rejects cause := by
  intro hr
  have hok := Argument.encodeAll_of_encodes h.args
  rw [Argument.encodeAll_of_fails hr] at hok
  cases hok

theorem exists_adds {s : Step} (h : ∀ cause, ¬ s.Rejects cause) : ∃ l, s.Adds l := by
  rcases s.adds_or_rejects with hl | ⟨cause, hr⟩
  · exact hl
  · exact absurd hr (h cause)

theorem property?_eq (n : String) (as : List Argument) :
    Attempt.property? n as = if as.all fun a => !a.isZero then some ⟨.dot, n, as⟩ else none := by
  have hall : (as.all fun a => !a.isZero) = !as.any Argument.isZero := List.not_any_eq_all_not.symm
  rw [Attempt.property?, hall]
  cases as.any Argument.isZero <;> rfl

theorem attempt_eq (s : Step) :
    s.attempt = if s.isAttempted then some ⟨s.operator, s.name, s.args⟩ else none := by
  cases s with
  | pipe | dotAlways => rfl
  | dot n as => exact property?_eq n as
  | dotIf n condition as =>
    cases condition with
    | false => rfl
    | true => exact property?_eq n as

variable {s : Step}

theorem links_of_not_isAttempted (h : s.isAttempted = false) : s.links = [] := by
  simp [links, attempt_eq, h]

theorem failure_of_not_isAttempted (h : s.isAttempted = false) : s.failure = none := by
  simp [failure, attempt_eq, h]

theorem encode_of_adds {l : Link} (h : s.Adds l) :
    Attempt.encode ⟨s.operator, s.name, s.args⟩ = .ok l := by
  rw [Attempt.encode, Argument.encodeAll_of_encodes h.args, ← h.operator, ← h.name]
  rfl

/-- A step adds one link at most. -/
theorem Adds.unique {l m : Link} (hl : s.Adds l) (hm : s.Adds m) : l = m := by
  have h := encode_of_adds hl
  rw [encode_of_adds hm] at h
  exact (Except.ok.inj h).symm

theorem links_of_adds {l : Link} (ha : s.isAttempted) (h : s.Adds l) : s.links = [l] := by
  simp [links, attempt_eq, ha, encode_of_adds h]

theorem failure_of_adds {l : Link} (ha : s.isAttempted) (h : s.Adds l) : s.failure = none := by
  simp [failure, attempt_eq, ha, encode_of_adds h]

theorem encode_of_rejects {cause : LiteralError} (h : s.Rejects cause) :
    Attempt.encode ⟨s.operator, s.name, s.args⟩ = .error cause := by
  rw [Attempt.encode, Argument.encodeAll_of_fails h]
  rfl

theorem failure_of_rejects {cause : LiteralError} (ha : s.isAttempted) (h : s.Rejects cause) :
    s.failure = some ⟨s.name, cause⟩ := by
  simp [failure, attempt_eq, ha, encode_of_rejects h]

theorem mem_links_iff {l : Link} : l ∈ s.links ↔ s.isAttempted ∧ s.Adds l := by
  constructor
  · intro hl
    cases ha : s.isAttempted with
    | false =>
      rw [links_of_not_isAttempted ha] at hl
      cases hl
    | true =>
      rcases s.adds_or_rejects with ⟨m, hm⟩ | ⟨cause, hr⟩
      · rw [links_of_adds ha hm] at hl
        obtain rfl := List.mem_singleton.1 hl
        exact ⟨rfl, hm⟩
      · rw [links_of_failure (failure_of_rejects ha hr)] at hl
        cases hl
  · rintro ⟨ha, hl⟩
    rw [links_of_adds ha hl]
    exact List.mem_singleton_self l

theorem failure_eq_some_iff {e : BuildError} :
    s.failure = some e ↔ s.isAttempted ∧ ∃ cause, s.Rejects cause ∧ e = ⟨s.name, cause⟩ := by
  constructor
  · intro hf
    cases ha : s.isAttempted with
    | false =>
      rw [failure_of_not_isAttempted ha] at hf
      cases hf
    | true =>
      rcases s.adds_or_rejects with ⟨l, hl⟩ | ⟨cause, hr⟩
      · rw [failure_of_adds ha hl] at hf
        cases hf
      · rw [failure_of_rejects ha hr] at hf
        exact ⟨rfl, cause, hr, (Option.some.inj hf).symm⟩
  · rintro ⟨ha, cause, hr, rfl⟩
    exact failure_of_rejects ha hr

/-! ### Several steps -/

variable {rest : List Step}

theorem built_cons_of_not_isAttempted (h : s.isAttempted = false) :
    built (s :: rest) = built rest := by
  rw [built_cons_of_not_failure (failure_of_not_isAttempted h), links_of_not_isAttempted h,
    List.nil_append]

theorem firstFailure_cons_of_not_isAttempted (h : s.isAttempted = false) :
    firstFailure (s :: rest) = firstFailure rest := by
  rw [firstFailure_cons, failure_of_not_isAttempted h, Option.none_or]

theorem built_cons_of_adds {l : Link} (ha : s.isAttempted) (h : s.Adds l) :
    built (s :: rest) = l :: built rest := by
  rw [built_cons_of_not_failure (failure_of_adds ha h), links_of_adds ha h, List.singleton_append]

theorem firstFailure_cons_of_adds {l : Link} (ha : s.isAttempted) (h : s.Adds l) :
    firstFailure (s :: rest) = firstFailure rest := by
  rw [firstFailure_cons, failure_of_adds ha h, Option.none_or]

/-- **A run in which no attempted step is rejected.** -/
theorem built_of_adds : ∀ {steps : List Step},
    (∀ s ∈ steps.filter isAttempted, ∀ cause, ¬ s.Rejects cause) →
    List.Forall₂ Adds (steps.filter isAttempted) (built steps) ∧ firstFailure steps = none
  | [], _ => ⟨.nil, rfl⟩
  | s :: rest, h => by
    cases ha : s.isAttempted with
    | false =>
      rw [List.filter_cons_of_neg (by simp [ha])] at h ⊢
      rw [built_cons_of_not_isAttempted ha, firstFailure_cons_of_not_isAttempted ha]
      exact built_of_adds h
    | true =>
      rw [List.filter_cons_of_pos ha] at h ⊢
      obtain ⟨l, hl⟩ := exists_adds (h s List.mem_cons_self)
      obtain ⟨hlinks, hfailure⟩ := built_of_adds fun t ht => h t (List.mem_cons_of_mem s ht)
      rw [built_cons_of_adds ha hl, firstFailure_cons_of_adds ha hl]
      exact ⟨.cons hl hlinks, hfailure⟩

/-- **A run with a rejected step**, the first one among those attempted. -/
theorem built_of_rejects : ∀ {steps front back : List Step} {s : Step} {cause : LiteralError},
    steps.filter isAttempted = front ++ s :: back → (∀ t ∈ front, ∀ c, ¬ t.Rejects c) →
    s.Rejects cause →
    List.Forall₂ Adds front (built steps) ∧ firstFailure steps = some ⟨s.name, cause⟩
  | [], front, back, s, _, h, _, _ => by simp at h
  | t :: rest, front, back, s, cause, h, hfront, hr => by
    cases ha : t.isAttempted with
    | false =>
      rw [List.filter_cons_of_neg (by simp [ha])] at h
      rw [built_cons_of_not_isAttempted ha, firstFailure_cons_of_not_isAttempted ha]
      exact built_of_rejects h hfront hr
    | true =>
      rw [List.filter_cons_of_pos ha] at h
      cases front with
      | nil =>
        -- the first attempted step is the rejected one
        obtain ⟨rfl, -⟩ := List.cons.inj h
        rw [built_cons_of_failure (failure_of_rejects ha hr), firstFailure_cons,
          failure_of_rejects ha hr]
        exact ⟨.nil, rfl⟩
      | cons u front =>
        obtain ⟨rfl, hrest⟩ := List.cons.inj h
        obtain ⟨l, hl⟩ := exists_adds (hfront t List.mem_cons_self)
        obtain ⟨hlinks, hfailure⟩ :=
          built_of_rejects hrest (fun v hv => hfront v (List.mem_cons_of_mem t hv)) hr
        rw [built_cons_of_adds ha hl, firstFailure_cons_of_adds ha hl]
        exact ⟨.cons hl hlinks, hfailure⟩

end Step

/-! ## Builders -/

namespace Builder

theorem run_append (b : Builder) (steps later : List Step) :
    (b.run (steps ++ later)).1 = ((b.run steps).1.run later).1 := by
  induction steps generalizing b with
  | nil => rfl
  | cons s rest ih => rw [List.cons_append, run_cons, run_cons, ih]

/-- **The state of a builder after any run.**  Without a rejected step all attempted steps become
    links, in order, behind those of the parent.  Otherwise the links are those of the attempted
    steps in front of the first rejected one, the failure is its failure, and this stays so whatever
    steps follow. -/
theorem run_outcome (parent : Chain) (steps : List Step) :
    let b := ((start parent).run steps).1
    let attempted := steps.filter Step.isAttempted
    ((∀ s ∈ attempted, ∀ cause, ¬ s.Rejects cause) →
      ∃ links, List.Forall₂ Step.Adds attempted links ∧
        b.tip = ⟨parent.root, parent.links ++ links⟩ ∧ b.failure = none ∧
        b.finish = .ok ⟨parent.root, parent.links ++ links⟩) ∧
    ∀ front s back cause, attempted = front ++ s :: back →
      (∀ t ∈ front, ∀ c, ¬ t.Rejects c) → s.Rejects cause →
      ∃ links, List.Forall₂ Step.Adds front links ∧
        b.tip = ⟨parent.root, parent.links ++ links⟩ ∧ b.failure = some ⟨s.name, cause⟩ ∧
        b.finish = .error ⟨s.name, cause⟩ ∧
        ∀ later, ((start parent).run (steps ++ later)).1 = b := by
  intro b attempted
  have hb : b = ⟨⟨parent.root, parent.links ++ Step.built steps⟩, Step.firstFailure steps⟩ :=
    run_eq rfl steps
  refine ⟨fun h => ?_, fun front s back cause h hfront hr => ?_⟩
  · obtain ⟨hlinks, hfailure⟩ := Step.built_of_adds h
    rw [hfailure] at hb
    exact ⟨_, hlinks, by rw [hb], by rw [hb], by rw [hb]; rfl⟩
  · obtain ⟨hlinks, hfailure⟩ := Step.built_of_rejects h hfront hr
    rw [hfailure] at hb
    have hfailed : b.failure = some ⟨s.name, cause⟩ := by rw [hb]
    refine ⟨_, hlinks, by rw [hb], hfailed, by rw [hb]; rfl, fun later => ?_⟩
    rw [run_append]
    exact run_failed hfailed later

/-- A property without a text is left out, and one with a false condition is not looked at; of three
    arguments the leftmost without a literal is blamed, and what comes later does not matter. -/
theorem run_outcome_flapping :
    let parent : Chain := ⟨"stream", [⟨.pipe, ⟨"from", []⟩⟩]⟩
    let omitted : List Step := [.dot "topic" [.text ""], .dotIf "all" false [.float .nan]]
    let flapping : Step := .dotAlways "flapping" [.float (.zero true), .float .nan, .absent]
    let b := ((start parent).run (.pipe "alert" [] :: omitted)).1
    let failed := ((start parent).run (.pipe "alert" [] :: omitted ++ [flapping])).1
    b.finish = .ok ⟨"stream", [⟨.pipe, ⟨"from", []⟩⟩, ⟨.pipe, ⟨"alert", []⟩⟩]⟩ ∧
      failed.tip = b.tip ∧ failed.finish = .error ⟨"flapping", .nonFiniteFloat .nan⟩ ∧
      ((start parent).run (.pipe "alert" [] :: omitted ++ [flapping] ++ [.dot "id" [.text "a"]])).1
        = failed := by
  intro parent omitted flapping b failed
  have hpipe : Step.Adds (.pipe "alert" []) ⟨.pipe, ⟨"alert", []⟩⟩ := ⟨rfl, rfl, .nil⟩
  have hfront : ∀ s ∈ [Step.pipe "alert" []], ∀ cause, ¬ s.Rejects cause := by
    intro s hs
    obtain rfl := List.mem_singleton.1 hs
    exact hpipe.not_rejects
  have honly : ∀ {links}, List.Forall₂ Step.Adds [.pipe "alert" []] links →
      links = [⟨.pipe, ⟨"alert", []⟩⟩] := by
    rintro _ (_ | ⟨hl, _ | _⟩)
    rw [hl.unique hpipe]
  have hrejects : flapping.Rejects (.nonFiniteFloat .nan) :=
    ⟨[.float (.zero true)], .float .nan, [.absent], [.number (.float (.zero true))], rfl,
      .cons rfl .nil, rfl⟩
  obtain ⟨links, hlinks, htip, -, hfinish⟩ :=
    (run_outcome parent (.pipe "alert" [] :: omitted)).1 hfront
  obtain ⟨links', hlinks', htip', -, hfinish', hlater⟩ :=
    (run_outcome parent (.pipe "alert" [] :: omitted ++ [flapping])).2 _ flapping [] _ rfl
      hfront hrejects
  obtain rfl := honly hlinks
  obtain rfl := honly hlinks'
  exact ⟨hfinish, htip'.trans htip.symm, hfinish', hlater _⟩

end Builder

end Tickscript
