/-
  Equality, which compares doubles as numbers and headers regardless of order.

  Two doubles are equal if they are numbers and the same but for the sign of a
  zero.  So equality of literals, links and chains is plain equality of what
  `dropZeroSign` leaves.

  * `Chain.eq_of_beq`: equal chains have the same root, and the same links but for
    the signs of zeros;
  * the instances: a configuration without doubles is equal to itself.
-/
import Tickscript.Alert.Conversion

namespace Tickscript

/-! ## Doubles -/

namespace Binary64

/-- The double with the sign of a zero left out. -/
def dropZeroSign (x : Binary64) : Binary64 := if x.isZero then zero false else x

theorem isFinite_dropZeroSign (x : Binary64) : x.dropZeroSign.isFinite = x.isFinite := by
  cases h : x.isZero with
  | true => rw [dropZeroSign, if_pos h, isFinite_of_isZero h]; rfl
  | false => rw [dropZeroSign, if_neg (by simp [h])]

theorem equals_iff {x y : Binary64} :
    x.equals y ↔ x ≠ nan ∧ x.dropZeroSign = y.dropZeroSign := by
  cases x with
  | nan => simp [equals]
  | infinite m =>
    cases y with
    | finite n k => by_cases hk : k.val = 0 <;> simp [equals, dropZeroSign, isZero, hk, zero]
    | _ => simp [equals, dropZeroSign, isZero]
  | finite m j =>
    obtain ⟨j, hj⟩ := j
    cases y with
    | finite n k =>
      obtain ⟨k, hk⟩ := k
      by_cases h0 : j = 0 <;> by_cases h1 : k = 0
      · subst h0 h1
        simp [equals, dropZeroSign, isZero]
      · subst h0
        simp [equals, dropZeroSign, isZero, zero, h1]
      · subst h1
        simp [equals, dropZeroSign, isZero, zero, h0]
      · simp [equals, dropZeroSign, isZero, h0, h1, and_comm]
    | _ => by_cases h0 : j = 0 <;> simp [equals, dropZeroSign, isZero, h0, zero]

theorem equals_of_isFinite {x y : Binary64} (hx : x.isFinite)
    (h : x.dropZeroSign = y.dropZeroSign) : x.equals y := by
  refine equals_iff.2 ⟨?_, h⟩
  rintro rfl
  simp [isFinite] at hx

theorem equals_of_isZero {x y : Binary64} (hx : x.isZero) (hy : y.isZero) : x.equals y :=
  equals_of_isFinite (isFinite_of_isZero hx) (by rw [dropZeroSign, dropZeroSign, if_pos hx, if_pos hy])

end Binary64

/-! ## Literals, links and chains -/

def Number.dropZeroSign : Number → Number
  | int value base => int value base
  | float x => float x.dropZeroSign

theorem Number.eq_of_beq {m n : Number} (h : m == n) : m.dropZeroSign = n.dropZeroSign := by
  cases m with
  | int value base =>
    cases n with
    | int value' base' =>
      have hi : value = value' ∧ base = base' := by
        simpa [BEq.beq, instBEqNumber.beq] using h
      rw [hi.1, hi.2]
    | float y => simp [BEq.beq, instBEqNumber.beq] at h
  | float x =>
    cases n with
    | int value base => simp [BEq.beq, instBEqNumber.beq] at h
    | float y =>
      have hx : x.equals y := h
      rw [dropZeroSign, dropZeroSign, (Binary64.equals_iff.1 hx).2]

namespace Literal

mutual

/-- The literal with the signs of zeros left out. -/
def dropZeroSign : Literal → Literal
  | number n => number n.dropZeroSign
  | list items => list (dropZeroSigns items)
  | l => l

def dropZeroSigns : List Literal → List Literal
  | [] => []
  | l :: rest => dropZeroSign l :: dropZeroSigns rest

end

theorem dropZeroSigns_eq_map : ∀ ls : List Literal, dropZeroSigns ls = ls.map dropZeroSign
  | [] => rfl
  | _ :: rest => by rw [dropZeroSigns, dropZeroSigns_eq_map rest, List.map_cons]

mutual

theorem eq_of_equals : ∀ {l m : Literal}, l.equals m → l.dropZeroSign = m.dropZeroSign
  | .text s, .text t, h => by simp only [equals, beq_iff_eq] at h; rw [h]
  | .number m, .number n, h => by rw [dropZeroSign, dropZeroSign, Number.eq_of_beq h]
  | .bool a, .bool b, h => by simp only [equals, beq_iff_eq] at h; rw [h]
  | .duration m, .duration n, h => by simp only [equals, beq_iff_eq] at h; rw [h]
  | .lambda s, .lambda t, h => by simp only [equals, beq_iff_eq] at h; rw [h]
  | .list ls, .list ms, h => by
    rw [dropZeroSign, dropZeroSign, eq_of_equalsAll (by simpa only [equals] using h)]

theorem eq_of_equalsAll : ∀ {ls ms : List Literal}, equalsAll ls ms →
    dropZeroSigns ls = dropZeroSigns ms
  | [], [], _ => rfl
  | l :: ls, m :: ms, h => by
    simp only [equalsAll, Bool.and_eq_true] at h
    rw [dropZeroSigns, dropZeroSigns, eq_of_equals h.1, eq_of_equalsAll h.2]

end

end Literal

/-- Lists whose items are equal in pairs agree in all that equality looks at. -/
theorem map_eq_of_beq {α β : Type} [BEq α] {f : α → β} (hf : ∀ {a b : α}, a == b → f a = f b) :
    ∀ {as bs : List α}, as == bs → as.map f = bs.map f
  | [], [], _ => rfl
  | [], _ :: _, h => by simp at h
  | _ :: _, [], h => by simp at h
  | a :: as, b :: bs, h => by
    simp only [List.cons_beq_cons, Bool.and_eq_true] at h
    rw [List.map_cons, List.map_cons, hf h.1, map_eq_of_beq hf h.2]

/-- The link with the signs of zeros left out. -/
def Link.dropZeroSign (l : Link) : Link :=
  ⟨l.operator, ⟨l.call.name, l.call.args.map Literal.dropZeroSign⟩⟩

theorem Link.eq_of_beq {l m : Link} (h : l == m) : l.dropZeroSign = m.dropZeroSign := by
  obtain ⟨o, n, as⟩ := l
  obtain ⟨o', n', as'⟩ := m
  have hp : o = o' ∧ n = n' ∧ as == as' := by
    simpa [BEq.beq, instBEqLink.beq, instBEqCall.beq] using h
  obtain ⟨rfl, rfl, ha⟩ := hp
  simp only [dropZeroSign, map_eq_of_beq (fun h => Literal.eq_of_equals h) ha]

/-- **Equal chains are the same but for the signs of zeros.** -/
theorem Chain.eq_of_beq {c d : Chain} (h : c == d) :
    c.root = d.root ∧ c.links.map Link.dropZeroSign = d.links.map Link.dropZeroSign := by
  obtain ⟨r, ls⟩ := c
  obtain ⟨r', ls'⟩ := d
  have hp : r = r' ∧ ls == ls' := by simpa [BEq.beq, instBEqChain.beq] using h
  exact ⟨hp.1, map_eq_of_beq Link.eq_of_beq hp.2⟩

/-! ## Configurations -/

instance : ReflBEq Headers := ⟨fun {h} => by simp [BEq.beq, Headers.equals]⟩

namespace Handler

deriving instance ReflBEq for HttpPost
deriving instance ReflBEq for Tcp, Email, Exec, Log, VictorOps, PagerDuty, Pushover, Sensu, Slack
deriving instance ReflBEq for Telegram, HipChat, Alerta, OpsGenie, Talk, Mqtt, SnmpData
deriving instance ReflBEq for SnmpTrap

end Handler

end Tickscript
