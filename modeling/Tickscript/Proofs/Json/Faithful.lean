/-
  Readers recover what is written.

  A reader recovers a value from what is written for it (`Reader.Recovers`) if it
  reads the value back whenever there are levels enough for the containers in it,
  and finds the text malformed otherwise.  A codec is faithful to a value
  (`Codec.Faithful`) if its reader recovers the value from what its writer writes.

  * `Variant.recovers_bare`, `Variant.recovers_write`: alternatives recover what their
    contents do;
  * `Codec.faithful_text` and its companions: scalars, optional values and lists;
  * `Codec.Faithful.parse_print`, `Codec.Faithful.parse_pretty`: what this means for whole
    texts, be they compact or pretty;
  * `Codec.depth_list_le_iff` and its companions: how deep the written value is nested.
-/
import Tickscript.Json.Variant
import Tickscript.Proofs.Json.Tree

namespace Tickscript.Json

variable {α β : Type}

theorem depthItems_le_iff {n : Nat} {items : List Json} :
    depthItems items ≤ n ↔ ∀ j ∈ items, j.depth ≤ n := by
  induction items with
  | nil => simp [depthItems]
  | cons j rest ih => simp [depthItems, ih]

theorem depthMembers_le_iff {n : Nat} {members : List (String × Json)} :
    depthMembers members ≤ n ↔ ∀ m ∈ members, m.2.depth ≤ n := by
  induction members with
  | nil => simp [depthMembers]
  | cons m rest ih => simp [depthMembers, ih]

/-! ## Readers -/

namespace Reader

variable {r : Reader α} {j : Json} {a : α}

/-- The value is read from what is written, exactly if the levels suffice for it. -/
def Recovers (r : Reader α) (j : Json) (a : α) : Prop :=
  ∀ levels, r levels j.document = if j.depth ≤ levels then .ok a else .error .malformed

/-- What holds no container is recovered at every level. -/
theorem recovers_of_depth_zero (hj : j.depth = 0)
    (h : ∀ levels, r levels j.document = .ok a) : r.Recovers j a := by
  intro levels
  rw [h levels, if_pos (hj ▸ Nat.zero_le levels)]

/-- Only finite doubles are read. -/
theorem isFinite_of_float {levels : Nat} {d : Document} {x : Binary64}
    (h : float levels d = .ok x) : x.isFinite := by
  unfold float at h
  split at h
  · next n =>
    cases hn : n.float? with
    | none => simp [hn] at h
    | some y =>
      obtain rfl : y = x := by simpa [hn] using h
      exact Numeral.isFinite_of_float? hn
  · cases h

theorem recovers_integer {decode : Int → Option α} {n : Int}
    (hmin : Int64.minValue.toInt ≤ n) (hmax : n < UInt64.size) (h : decode n = some a) :
    (integer decode).Recovers (.int n) a := by
  refine recovers_of_depth_zero rfl fun levels => ?_
  simp only [document, integer, Numeral.integer?_ofInt hmin hmax, Option.bind_some, h]

theorem Recovers.map (h : r.Recovers j a) (f : α → β) :
    Recovers (fun levels d => (r levels d).map f) j (f a) := by
  intro levels
  simp only [h levels]
  split <;> rfl

theorem mapM_itemDocuments {write : α → Json} (levels : Nat) : ∀ {as : List α},
    (∀ a ∈ as, r.Recovers (write a) a) →
    (itemDocuments (as.map write)).mapM (r levels)
      = if depthItems (as.map write) ≤ levels then .ok as else .error .malformed
  | [], _ => (if_pos (Nat.zero_le levels)).symm
  | a :: as, h => by
    have hrest := mapM_itemDocuments levels fun b hb => h b (List.mem_cons_of_mem a hb)
    simp only [List.map_cons, itemDocuments, List.mapM_cons, h a List.mem_cons_self levels, hrest,
      depthItems, Nat.max_le]
    by_cases ha : (write a).depth ≤ levels <;>
      by_cases has : depthItems (as.map write) ≤ levels <;> simp [ha, has] <;> rfl

end Reader

/-! ## Alternatives -/

namespace Variant

variable {cases : List (Case α)} {tag : String}

theorem recovers_bare {a : α} (h : bodyOf cases tag = some (.bare a)) :
    (read cases).Recovers (.text tag) a :=
  Reader.recovers_of_depth_zero rfl fun levels => by simp only [document, read, readTag, h]

theorem recovers_write {r : Reader α} {j : Json} {a : α}
    (h : bodyOf cases tag = some (.content r)) (hr : r.Recovers j a) :
    (read cases).Recovers (write tag j) a
  | 0 => rfl
  | levels + 1 => by
    have hread : readMember cases levels [(.name (some tag), j.document)] none
        = r levels j.document := by
      simp only [readMember, Key.read, bind, Except.bind, h, Body.read]
      cases r levels j.document <;> rfl
    simp only [write, document, memberDocuments, read, hread, hr levels, depth, depthMembers,
      Nat.max_zero, Nat.add_le_add_iff_right]

@[simp] theorem depth_write (j : Json) : (write tag j).depth = j.depth + 1 := by
  simp [write, depth, depthMembers]

end Variant

/-! ## Codecs -/

namespace Codec

variable {c : Codec α}

/-- The value is recovered from what is written for it. -/
def Faithful (c : Codec α) (a : α) : Prop := c.read.Recovers (c.write a) a

theorem faithful_text (s : String) : text.Faithful s :=
  Reader.recovers_of_depth_zero rfl fun _ => rfl

theorem faithful_bool (b : Bool) : bool.Faithful b :=
  Reader.recovers_of_depth_zero rfl fun _ => rfl

theorem faithful_float {x : Binary64} (hx : x.isFinite) : float.Faithful x := by
  refine Reader.recovers_of_depth_zero rfl fun levels => ?_
  cases x with
  | nan => simp [Binary64.isFinite] at hx
  | infinite => simp [Binary64.isFinite] at hx
  | finite negative k =>
    simp only [float, document, Scalar.ofFloat, Reader.float, Numeral.float?_ofFinite]

/-- A natural number that is small enough is recovered as a word. -/
theorem recovers_below {bound k : Nat} (word : Nat → α) (hk : k < bound)
    (hbound : bound ≤ UInt64.size) :
    (Reader.integer (below bound word)).Recovers (.int k) (word k) := by
  have hmin : Int64.minValue.toInt ≤ k := Int.le_trans (by decide) (Int.natCast_nonneg k)
  have hdecode : below bound word k = some (word k) := by
    rw [below, if_pos ⟨Int.natCast_nonneg k, Int.ofNat_lt.2 hk⟩, Int.toNat_natCast]
  exact Reader.recovers_integer hmin (Int.ofNat_lt.2 (Nat.lt_of_lt_of_le hk hbound)) hdecode

theorem faithful_uint8 (w : UInt8) : uint8.Faithful w := by
  simpa only [Faithful, uint8, UInt8.ofNat_toNat]
    using recovers_below UInt8.ofNat w.toNat_lt (by decide)

theorem faithful_uint32 (w : UInt32) : uint32.Faithful w := by
  simpa only [Faithful, uint32, UInt32.ofNat_toNat]
    using recovers_below UInt32.ofNat w.toNat_lt (by decide)

theorem faithful_uint64 (w : UInt64) : uint64.Faithful w := by
  simpa only [Faithful, uint64, UInt64.ofNat_toNat]
    using recovers_below UInt64.ofNat w.toNat_lt (by decide)

theorem faithful_int64 (w : Int64) : int64.Faithful w := by
  have hmax : w.toInt < UInt64.size := Int.lt_of_lt_of_le w.toInt_lt (by decide)
  refine Reader.recovers_integer w.minValue_le_toInt hmax ?_
  rw [signed, if_pos ⟨w.minValue_le_toInt, w.toInt_le⟩, Int64.ofInt_toInt]

theorem faithful_optional {a : Option α} (h : ∀ b ∈ a, c.Faithful b)
    (hnull : ∀ b, (c.write b).document ≠ .scalar .null) : (optional c).Faithful a := by
  cases a with
  | none => exact Reader.recovers_of_depth_zero rfl fun _ => rfl
  | some b =>
    intro levels
    have hread : Reader.optional c.read levels (c.write b).document
        = (c.read levels (c.write b).document).map some := by
      rw [Reader.optional]
      exact hnull b
    exact hread.trans ((h b rfl).map some levels)

theorem faithful_list {as : List α} (h : ∀ a ∈ as, c.Faithful a) : (list c).Faithful as
  | 0 => rfl
  | levels + 1 => by
    simp only [list, document, Reader.list, Reader.mapM_itemDocuments levels h, depth,
      Nat.add_le_add_iff_right]
    split <;> rfl

/-- **A whole text is read back, exactly if it is not nested too deep.** -/
theorem Faithful.parse_print {a : α} (h : c.Faithful a) : c.parse (c.print a) =
    if (c.write a).depth ≤ Reader.maxLevels then .ok a else .error .malformed :=
  (Reader.parse_compact c.read (c.write a)).trans (h _)

/-- The same with the lines of pretty text and an end of line behind it. -/
theorem Faithful.parse_pretty {a : α} (h : c.Faithful a) :
    c.parse ((c.write a).pretty ++ ['\n']) =
      if (c.write a).depth ≤ Reader.maxLevels then .ok a else .error .malformed :=
  (Reader.parse_pretty c.read (c.write a)).trans (h _)

/-! ### Nesting -/

variable {n : Nat}

@[simp] theorem depth_text (s : String) : (text.write s).depth = 0 := rfl

@[simp] theorem depth_bool (b : Bool) : (bool.write b).depth = 0 := rfl

@[simp] theorem depth_float (x : Binary64) : (float.write x).depth = 0 := rfl

@[simp] theorem depth_uint8 (w : UInt8) : (uint8.write w).depth = 0 := rfl

@[simp] theorem depth_uint32 (w : UInt32) : (uint32.write w).depth = 0 := rfl

@[simp] theorem depth_uint64 (w : UInt64) : (uint64.write w).depth = 0 := rfl

@[simp] theorem depth_int64 (w : Int64) : (int64.write w).depth = 0 := rfl

@[simp] theorem depth_optional_le_iff {a : Option α} :
    ((optional c).write a).depth ≤ n ↔ ∀ b ∈ a, (c.write b).depth ≤ n := by
  cases a with
  | none => simp [optional, depth]
  | some b => simp [optional]

@[simp] theorem depth_list_le_iff {as : List α} :
    ((list c).write as).depth ≤ n + 1 ↔ ∀ a ∈ as, (c.write a).depth ≤ n := by
  simp [list, depth, depthItems_le_iff]

end Codec

end Tickscript.Json
