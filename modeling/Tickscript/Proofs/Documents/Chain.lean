/-
  Chains in documents and back.

  What is written for a chain without infinities and NaNs is read as the same chain,
  as long as it is not nested deeper than a reader goes.  The same holds of each of
  its parts.

  * `Literal.faithful`: literals, by recursion into lists;
  * `Chain.faithful`: chains, by induction on the calls from the right, as the last
    call is the outermost object;
  * `Chain.parse_print_of_finite`: so a whole text is read back, or refused for its nesting.
-/
import Mathlib.Data.List.Induction
import Tickscript.Chain.Document
import Tickscript.Proofs.Json.Record

namespace Tickscript

open Json (Codec Reader Record)

/-! ## Numbers -/

theorem Base.faithful (b : Base) : Base.codec.Faithful b := by
  cases b <;> exact Json.Variant.recovers_bare rfl

namespace Number

/-- Not a double that is infinite or no number. -/
def Finite : Number → Prop
  | int _ _ => True
  | float x => x.isFinite

theorem based_faithful (p : Int64 × Base) : based.codec.Faithful p :=
  Record.faithful (by decide)
    (.cons (.of (Codec.faithful_int64 p.1)) (.cons (.of (Base.faithful p.2)) .nil)) rfl

theorem faithful {n : Number} (h : n.Finite) : Number.codec.Faithful n := by
  cases n with
  | int value base =>
    have hbased := (based_faithful (value, base)).map fun p => Number.int p.1 p.2
    exact Json.Variant.recovers_write rfl hbased
  | float x =>
    have hfloat := (Codec.faithful_float h).map Number.float
    exact Json.Variant.recovers_write rfl hfloat

end Number

/-! ## Literals -/

namespace Literal

/-- Each number among the literals that the literal stands for is finite. -/
def Finite (l : Literal) : Prop := ∀ n, number n ∈ l.flatten → n.Finite

theorem mem_flattenAll {m : Literal} {items : List Literal} :
    m ∈ flattenAll items ↔ ∃ l ∈ items, m ∈ l.flatten := by
  induction items with
  | nil => simp [flattenAll]
  | cons l rest ih => simp [flattenAll, ih]

theorem finite_of_mem {items : List Literal} (h : (list items).Finite) {l : Literal}
    (hl : l ∈ items) : l.Finite :=
  fun n hn => h n (mem_flattenAll.2 ⟨l, hl, hn⟩)

theorem jsonAll_eq_map : ∀ items : List Literal, jsonAll items = items.map json
  | [] => rfl
  | l :: rest => congrArg (l.json :: ·) (jsonAll_eq_map rest)

/-- It is enough to look at the literal itself. -/
theorem faithful_of_layer {l : Literal} (h : (layer Literal.codec.read).Recovers l.json l) :
    Literal.codec.Faithful l := by
  rw [Codec.Faithful, read_eq_layer]
  exact h

mutual

theorem faithful : ∀ {l : Literal}, l.Finite → Literal.codec.Faithful l
  | text s, _ =>
    faithful_of_layer (Json.Variant.recovers_write rfl ((Codec.faithful_text s).map text))
  | number n, h => by
    have hn := Number.faithful (h n List.mem_cons_self)
    exact faithful_of_layer (Json.Variant.recovers_write rfl (hn.map number))
  | bool b, _ =>
    faithful_of_layer (Json.Variant.recovers_write rfl ((Codec.faithful_bool b).map bool))
  | duration n, _ =>
    faithful_of_layer (Json.Variant.recovers_write rfl ((Codec.faithful_int64 n).map duration))
  | lambda e, _ =>
    faithful_of_layer (Json.Variant.recovers_write rfl ((Codec.faithful_text e).map lambda))
  | list items, h => by
    have hitems : (Reader.list Literal.codec.read).Recovers (.array (jsonAll items)) items := by
      rw [jsonAll_eq_map]
      exact Codec.faithful_list (faithfulAll fun _ hl => finite_of_mem h hl)
    exact faithful_of_layer (Json.Variant.recovers_write rfl (hitems.map list))

theorem faithfulAll : ∀ {items : List Literal}, (∀ l ∈ items, l.Finite) →
    ∀ l ∈ items, Literal.codec.Faithful l
  | [], _ => fun _ h => absurd h List.not_mem_nil
  | l :: rest, h => by
    obtain ⟨hl, hrest⟩ := List.forall_mem_cons.1 h
    exact List.forall_mem_cons.2 ⟨faithful hl, faithfulAll hrest⟩

end

end Literal

/-! ## Chains -/

theorem Operator.faithful (o : Operator) : Operator.codec.Faithful o := by
  cases o <;> exact Json.Variant.recovers_bare rfl

/-- Each argument is finite. -/
def Call.Finite (c : Call) : Prop := ∀ l ∈ c.args, l.Finite

theorem Call.faithful {c : Call} (h : c.Finite) : Call.codec.Faithful c :=
  Record.faithful (by decide)
    (.cons .text (.cons (.of (Codec.faithful_list (Literal.faithfulAll h))) .nil)) rfl

namespace Chain

/-- Each argument of each call is finite. -/
def Finite (c : Chain) : Prop := ∀ l ∈ c.links, l.call.Finite

theorem faithful (c : Chain) (h : c.Finite) : Chain.codec.Faithful c := by
  obtain ⟨root, links⟩ := c
  -- the last call is the outermost object, and what it holds is the chain without it
  induction links using List.reverseRecOn with
  | nil =>
    rw [Codec.Faithful, read_eq_layer]
    exact Json.Variant.recovers_write rfl ((Codec.faithful_text root).map identifier)
  | append_singleton links l ih =>
    have hleft : Chain.codec.Faithful ⟨root, links⟩ :=
      ih fun m hm => h m (List.mem_append_left _ hm)
    have hcall : Call.codec.Faithful l.call :=
      Call.faithful (h l (List.mem_append_right _ List.mem_cons_self))
    have hsegment : (segment codec.read).codec.Faithful (⟨root, links⟩, l) :=
      Record.faithful (by decide)
        (.cons (.of hleft) (.cons (.of (Operator.faithful _)) (.cons (.of hcall) .nil))) rfl
    have hwrite : codec.write ⟨root, links ++ [l]⟩
        = Json.Variant.write "Chain" ((segment codec.read).codec.write (⟨root, links⟩, l)) :=
      List.foldl_append
    rw [Codec.Faithful, read_eq_layer, hwrite]
    exact Json.Variant.recovers_write rfl (hsegment.map fun s => s.1.append s.2)

/-- **A chain without infinities and NaNs is read back from its text, bit for bit, if the text is
    not nested deeper than 127 levels; a deeper text is refused as malformed.** -/
theorem parse_print_of_finite (c : Chain) (h : c.Finite) : codec.parse (codec.print c) =
    if c.json.depth ≤ 127 then .ok c else .error .malformed :=
  (faithful c h).parse_print

/-- A negative zero, an empty list inside a list and a negative octal number survive. -/
theorem parse_print_of_finite_signed_zero :
    let c : Chain := ⟨"it's \"x\"\n", [
      ⟨.pipe, ⟨"alert", []⟩⟩,
      ⟨.dot, ⟨"flapping", [.number (.float (.zero true)), .number (.int (-8) .octal)]⟩⟩,
      ⟨.dot, ⟨"services", [.list [.list [], .text "\t"], .lambda ""]⟩⟩]⟩
    c.Finite ∧ codec.parse (codec.print c) = .ok c := by
  intro c
  have hfinite : c.Finite := by
    simp [c, Finite, Call.Finite, Literal.Finite, Literal.flatten, Literal.flattenAll,
      Number.Finite, Binary64.zero, Binary64.isFinite]
  have hdepth : c.json.depth ≤ 127 := by decide
  exact ⟨hfinite, (parse_print_of_finite c hfinite).trans (if_pos hdepth)⟩

end Chain

end Tickscript
