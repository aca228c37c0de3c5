/-
  What literals arguments have, and which arguments have none.

  * `Argument.NoLiteral`: the arguments that no literal can hold, each with its cause;
  * `Argument.Denotes`: a literal says the same as an argument;
  * `Argument.encode_eq_error_iff`, `Argument.encode_eq_ok_iff`: encoding gives the literal that
    says the same, unless no literal can hold the argument;
  * `Argument.isZero_iff`: the zero arguments are the missing one and those whose literal is a
    zero (`Literal.Zero`);
  * `Argument.encode_exact`: all of this together, and that within a kind no two arguments share
    a literal.
-/
import Mathlib.Algebra.Order.Ring.Nat
import Mathlib.Data.List.Basic
import Tickscript.Argument

namespace Tickscript

/-- The literals of zero values.  An integer in a base of its own is not among them. -/
inductive Literal.Zero : Literal → Prop
  | text : Zero (.text "")
  | bool : Zero (.bool false)
  | int : Zero (.number (.int 0 .decimal))
  | float {x : Binary64} : x == .zero false → Zero (.number (.float x))
  | duration : Zero (.duration 0)
  | lambda : Zero (.lambda "")
  | list : Zero (.list [])

namespace Literal

@[simp] theorem zero_text {s : String} : (text s).Zero ↔ s = "" :=
  ⟨fun | .text => rfl, fun h => h ▸ .text⟩

@[simp] theorem zero_bool {b : Bool} : (bool b).Zero ↔ b = false :=
  ⟨fun | .bool => rfl, fun h => h ▸ .bool⟩

@[simp] theorem zero_int {n : Int64} {base : Base} :
    (number (.int n base)).Zero ↔ n = 0 ∧ base = .decimal :=
  ⟨fun | .int => ⟨rfl, rfl⟩, fun ⟨hn, hbase⟩ => hn ▸ hbase ▸ .int⟩

@[simp] theorem zero_float {x : Binary64} : (number (.float x)).Zero ↔ x == .zero false :=
  ⟨fun | .float h => h, .float⟩

@[simp] theorem zero_duration {n : Int64} : (duration n).Zero ↔ n = 0 :=
  ⟨fun | .duration => rfl, fun h => h ▸ .duration⟩

@[simp] theorem zero_lambda {e : String} : (lambda e).Zero ↔ e = "" :=
  ⟨fun | .lambda => rfl, fun h => h ▸ .lambda⟩

@[simp] theorem zero_list {items : List Literal} : (list items).Zero ↔ items = [] :=
  ⟨fun | .list => rfl, fun h => h ▸ .list⟩

end Literal

/-- A duration is made of its seconds and the nanoseconds beyond them. -/
theorem Duration.seconds_add_fraction (d : Duration) :
    d.seconds * 10 ^ 9 + d.fraction = d.nanoseconds := Nat.div_add_mod' d.nanoseconds (10 ^ 9)

namespace Argument

/-! ## Kinds, causes and meanings -/

/-- Arguments of one kind. -/
inductive SameKind : Argument → Argument → Prop
  | text (s t : String) : SameKind (.text s) (.text t)
  | bool (b c : Bool) : SameKind (.bool b) (.bool c)
  | int (m n : Int64) : SameKind (.int m) (.int n)
  | uint (m n : UInt64) : SameKind (.uint m) (.uint n)
  | float (x y : Binary64) : SameKind (.float x) (.float y)
  | duration (d e : Duration) : SameKind (.duration d) (.duration e)
  | list (ss ts : List String) : SameKind (.list ss) (.list ts)
  | lambda (e f : String) : SameKind (.lambda e) (.lambda f)
  | number (m n : Number) : SameKind (.number m) (.number n)
  | absent : SameKind .absent .absent

/-- No literal can hold the argument, for this cause. -/
inductive NoLiteral : Argument → LiteralError → Prop
  | uint {n : UInt64} : 2 ^ 63 ≤ n.toNat → NoLiteral (.uint n) (.integerOverflow n)
  | float {x : Binary64} : x.isFinite = false → NoLiteral (.float x) (.nonFiniteFloat x)
  | duration {d : Duration} : 2 ^ 63 ≤ d.seconds * 10 ^ 9 + d.fraction →
      NoLiteral (.duration d) (.durationOverflow d.seconds)
  | based {n : Int64} {base : Base} : base ≠ .decimal → n < 0 →
      NoLiteral (.number (.int n base)) (.negativeBasedInteger n base)
  | floatNumber {x : Binary64} : x.isFinite = false →
      NoLiteral (.number (.float x)) (.nonFiniteFloat x)
  | absent : NoLiteral .absent .absent

/-- The literal says the same as the argument. -/
inductive Denotes : Argument → Literal → Prop
  | text (s : String) : Denotes (.text s) (.text s)
  | bool (b : Bool) : Denotes (.bool b) (.bool b)
  | int (n : Int64) : Denotes (.int n) (.number (.int n .decimal))
  | uint {n : UInt64} {v : Int64} : v.toInt = n.toNat →
      Denotes (.uint n) (.number (.int v .decimal))
  | float (x : Binary64) : Denotes (.float x) (.number (.float x))
  | duration {d : Duration} {v : Int64} : v.toInt = (d.seconds * 10 ^ 9 + d.fraction : Nat) →
      Denotes (.duration d) (.duration v)
  | list (items : List String) : Denotes (.list items) (.list (items.map .text))
  | lambda (e : String) : Denotes (.lambda e) (.lambda e)
  | number (n : Number) : Denotes (.number n) (.number n)

variable {x y : Argument} {l m : Literal} {cause : LiteralError}

/-- Only one literal says the same as an argument. -/
theorem Denotes.unique (hl : x.Denotes l) (hm : x.Denotes m) : l = m := by
  cases hl with
  | uint hv =>
    cases hm with
    | uint hw => rw [Int64.toInt_inj.1 (hv.trans hw.symm)]
  | duration hv =>
    cases hm with
    | duration hw => rw [Int64.toInt_inj.1 (hv.trans hw.symm)]
  | _ => cases hm; rfl

theorem Denotes.eq_list {items : List String} (h : Denotes (.list items) l) :
    l = .list (items.map .text) := by
  cases h
  rfl

/-- Within a kind only one argument says the same as a literal. -/
theorem Denotes.injective (hkind : x.SameKind y) (hx : x.Denotes l) (hy : y.Denotes l) : x = y := by
  cases hkind with
  | uint m n =>
    cases hx with
    | uint hm =>
      cases hy with
      | uint hn => rw [UInt64.toNat_inj.1 (Int.ofNat_inj.1 (hm.symm.trans hn))]
  | duration d e =>
    cases hx with
    | duration hd =>
      cases hy with
      | duration he =>
        have heq : d.nanoseconds = e.nanoseconds := by
          rw [← d.seconds_add_fraction, ← e.seconds_add_fraction]
          exact Int.ofNat_inj.1 (hd.symm.trans he)
        cases d
        cases e
        cases heq
        rfl
  | list ss ts =>
    have heq : ss.map Literal.text = ts.map Literal.text :=
      Literal.list.inj (hx.eq_list.symm.trans hy.eq_list)
    rw [List.map_injective_iff.2 (fun _ _ => Literal.text.inj) heq]
  | absent => rfl
  | _ => cases hx; cases hy; rfl

/-! ## Encoding -/

theorem encode_of_noLiteral (h : x.NoLiteral cause) : x.encode = .error cause := by
  cases h with
  | uint hn => exact if_neg (Nat.not_lt.2 hn)
  | float hx | floatNumber hx => exact if_neg (by rw [hx]; exact Bool.false_ne_true)
  | @duration d hd =>
    rw [d.seconds_add_fraction] at hd
    exact if_neg (Nat.not_lt.2 hd)
  | based hbase hn => exact if_pos ⟨hbase, hn⟩
  | absent => rfl

/-- An argument has the literal that says the same, or no literal can hold it. -/
theorem encode_cases (x : Argument) :
    (∃ l, x.encode = .ok l ∧ x.Denotes l) ∨ ∃ cause, x.NoLiteral cause := by
  cases x with
  | text s => exact Or.inl ⟨_, rfl, .text s⟩
  | bool b => exact Or.inl ⟨_, rfl, .bool b⟩
  | int n => exact Or.inl ⟨_, rfl, .int n⟩
  | uint n =>
    rcases Nat.lt_or_ge n.toNat (2 ^ 63) with hn | hn
    · exact Or.inl ⟨_, if_pos hn, .uint (Int64.toInt_ofNat_of_lt hn)⟩
    · exact Or.inr ⟨_, .uint hn⟩
  | float x =>
    cases hx : x.isFinite with
    | true => exact Or.inl ⟨_, if_pos hx, .float x⟩
    | false => exact Or.inr ⟨_, .float hx⟩
  | duration d =>
    rcases Nat.lt_or_ge d.nanoseconds (2 ^ 63) with hd | hd
    · refine Or.inl ⟨_, if_pos hd, .duration ?_⟩
      rw [d.seconds_add_fraction]
      exact Int64.toInt_ofNat_of_lt hd
    · exact Or.inr ⟨_, .duration (d.seconds_add_fraction ▸ hd)⟩
  | list items => exact Or.inl ⟨_, rfl, .list items⟩
  | lambda e => exact Or.inl ⟨_, rfl, .lambda e⟩
  | number n =>
    cases n with
    | int n base =>
      by_cases h : base ≠ .decimal ∧ n < 0
      · exact Or.inr ⟨_, .based h.1 h.2⟩
      · exact Or.inl ⟨_, if_neg h, .number _⟩
    | float x =>
      cases hx : x.isFinite with
      | true => exact Or.inl ⟨_, if_pos hx, .number _⟩
      | false => exact Or.inr ⟨_, .floatNumber hx⟩
  | absent => exact Or.inr ⟨_, .absent⟩

theorem encode_eq_error_iff : x.encode = .error cause ↔ x.NoLiteral cause := by
  refine ⟨fun h => ?_, encode_of_noLiteral⟩
  rcases x.encode_cases with ⟨l, hl, -⟩ | ⟨cause', hx⟩
  · rw [hl] at h
    cases h
  · have heq := encode_of_noLiteral hx
    rw [h] at heq
    cases heq
    exact hx

theorem encode_eq_ok_iff :
    x.encode = .ok l ↔ x.Denotes l ∧ ∀ cause, ¬ x.NoLiteral cause := by
  constructor
  · intro h
    have hnone : ∀ cause, ¬ x.NoLiteral cause := by
      intro cause hx
      rw [encode_of_noLiteral hx] at h
      cases h
    rcases x.encode_cases with ⟨m, hm, hdenotes⟩ | ⟨cause, hx⟩
    · rw [hm] at h
      cases h
      exact ⟨hdenotes, hnone⟩
    · exact absurd hx (hnone cause)
  · rintro ⟨hdenotes, hnone⟩
    rcases x.encode_cases with ⟨m, hm, hdenotes'⟩ | ⟨cause, hx⟩
    · rw [hm, hdenotes.unique hdenotes']
    · exact absurd hx (hnone cause)

/-! ## Zeros -/

/-- An argument and the literal that says the same are both zero or both not. -/
theorem Denotes.isZero_iff (h : x.Denotes l) : x.isZero ↔ l.Zero := by
  cases h with
  | text s => simp [isZero]
  | bool b => simp [isZero]
  | int n => simp [isZero]
  | @uint n v hv =>
    have hzero : v = 0 ↔ n = 0 := by
      rw [← Int64.toInt_inj, hv, ← UInt64.toNat_inj]
      exact Int.natCast_eq_zero
    simp [isZero, hzero]
  | float x => simp [isZero, x.isZero_eq_beq]
  | @duration d v hv =>
    have hzero : v = 0 ↔ d.nanoseconds = 0 := by
      rw [← Int64.toInt_inj, hv, d.seconds_add_fraction]
      exact Int.natCast_eq_zero
    simp [isZero, hzero]
  | list items => simp [isZero]
  | lambda e => simp [isZero]
  | number n =>
    cases n with
    | int n base => simp [isZero, and_comm]
    | float x => simp [isZero, x.isZero_eq_beq]

/-- Of the arguments that no literal can hold the missing one alone is a zero. -/
theorem NoLiteral.eq_absent (h : x.NoLiteral cause) (hzero : x.isZero) : x = .absent := by
  cases h with
  | uint hn =>
    have h0 := eq_of_beq hzero
    subst h0
    exact absurd hn (by decide)
  | float hx | floatNumber hx =>
    rw [Binary64.isFinite_of_isZero hzero] at hx
    cases hx
  | @duration d hd =>
    rw [d.seconds_add_fraction, eq_of_beq hzero] at hd
    exact absurd hd (by decide)
  | based hbase =>
    have hboth := Bool.and_eq_true_iff.1 hzero
    exact absurd (eq_of_beq hboth.1) hbase
  | absent => rfl

theorem isZero_iff : x.isZero ↔ x = .absent ∨ ∃ l, x.encode = .ok l ∧ l.Zero := by
  constructor
  · intro h
    rcases x.encode_cases with ⟨l, hl, hdenotes⟩ | ⟨cause, hnone⟩
    · exact Or.inr ⟨l, hl, hdenotes.isZero_iff.1 h⟩
    · exact Or.inl (hnone.eq_absent h)
  · rintro (rfl | ⟨l, hl, h⟩)
    · rfl
    · exact (encode_eq_ok_iff.1 hl).1.isZero_iff.2 h

/-- **An argument is encoded by the literal that says the same, unless no literal can hold it**, and
    it is a zero exactly if it is missing or its literal is a zero.  So what fails to be encoded is
    never taken for a zero, unless it is missing. -/
theorem encode_exact (x : Argument) :
    (∀ cause, x.encode = .error cause ↔ x.NoLiteral cause) ∧
    (∀ l, x.encode = .ok l ↔ x.Denotes l ∧ ∀ cause, ¬ x.NoLiteral cause) ∧
    (∀ y l, x.SameKind y → x.encode = .ok l → y.encode = .ok l → x = y) ∧
    (x.isZero ↔ x = .absent ∨ ∃ l, x.encode = .ok l ∧ l.Zero) ∧
    ∀ cause, x.encode = .error cause → x ≠ .absent → x.isZero = false := by
  refine ⟨fun _ => encode_eq_error_iff, fun _ => encode_eq_ok_iff, fun y l hkind hx hy => ?_,
    isZero_iff, fun cause h hx => ?_⟩
  · exact (encode_eq_ok_iff.1 hx).1.injective hkind (encode_eq_ok_iff.1 hy).1
  · rw [Bool.eq_false_iff]
    exact fun hzero => hx ((encode_eq_error_iff.1 h).eq_absent hzero)

/-- The first word beyond the range of literals is no zero although it has no literal, and the zero
    in octal is none although it has one. -/
theorem encode_exact_beyond :
    (uint 0x8000000000000000).encode = .error (.integerOverflow 0x8000000000000000) ∧
      uint 0x8000000000000000 ≠ .absent ∧ (uint 0x8000000000000000).isZero = false ∧
      (number (.int 0 .octal)).encode = .ok (.number (.int 0 .octal)) ∧
      ¬ (number (.int 0 .octal)).isZero := by
  have hword : (uint 0x8000000000000000).encode = .error (.integerOverflow 0x8000000000000000) :=
    ((encode_exact _).1 _).2 (.uint (by decide))
  have hoctal : (number (.int 0 .octal)).encode = .ok (.number (.int 0 .octal)) := by
    refine ((encode_exact _).2.1 _).2 ⟨.number _, ?_⟩
    rintro _ ⟨⟩
    exact absurd ‹(0 : Int64) < 0› (by decide)
  refine ⟨hword, nofun, (encode_exact _).2.2.2.2 _ hword nofun, hoctal, ?_⟩
  rw [(encode_exact _).2.2.2.1]
  rintro (h | ⟨l, hl, h⟩)
  · cases h
  · rw [hoctal] at hl
    cases hl
    exact absurd (Literal.zero_int.1 h).2 (by decide)

end Argument

end Tickscript
