/-
  Arrays as records.

  An array gives the first fields their values in order; the object with the same values under
  the keys of these fields (`Record.keyed`) comes to the same.

  * `Record.readMembers_keyed`: the two ways to look through the values;
  * `Record.read_array`: both forms have the same outcome, values and faults alike;
  * `Record.read_array_missing`: an array that ends too early is refused where every field is
    required;
  * `Record.Lenient.read_array_missing`: where every field has a default, it is read as if the
    defaults were written out.
-/
import Mathlib.Data.List.Perm.Subperm
import Tickscript.Proofs.Json.Members

namespace Tickscript.Json

/-! ## Items of lists -/

theorem Reader.exists_of_list {α : Type} {r : Reader α} {levels i : Nat} {d : Document}
    {items : List Document} {as : List α} (h : r.list (levels + 1) (.array items none) = .ok as)
    (hi : items[i]? = some d) : ∃ a, as[i]? = some a ∧ r levels d = .ok a := by
  obtain ⟨n, items', hn, hitems, hread⟩ := forall₂_of_list h
  obtain rfl := Nat.succ.inj hn
  obtain ⟨rfl, -⟩ := Document.array.inj hitems
  obtain ⟨hlt, rfl⟩ := List.getElem?_eq_some_iff.1 hi
  have hlt' : i < as.length := hread.length_eq ▸ hlt
  exact ⟨as[i], List.getElem?_eq_getElem hlt', hread.get hlt hlt'⟩

namespace Record

/-! ## Values in order -/

variable {σ α : Type}

/-- The values under the keys of the first fields. -/
def keyedFields (fs : List (Field σ)) (items : List Document) : List (Key × Document) :=
  List.zipWith (fun f d => (.name (some f.key), d)) fs items

/-- The members of an object that says the same as an array. -/
def keyed (r : Record σ α) (items : List Document) : List (Key × Document) :=
  keyedFields r.fields items

section
variable {fs : List (Field σ)} {levels : Nat} {items left : List Document} {found : Found σ}

theorem keyedFields_append : ∀ {fs : List (Field σ)} {items rest : List Document},
    items.length ≤ fs.length →
    keyedFields fs (items ++ rest) = keyedFields fs items ++ keyedFields (fs.drop items.length) rest
  | [], [], _, _ => rfl
  | _ :: _, [], _, _ => rfl
  | _ :: _, _ :: _, _, h => congrArg _ (keyedFields_append (Nat.le_of_succ_le_succ h))

theorem keys_keyedFields : ∀ {fs : List (Field σ)} {items : List Document},
    (keyedFields fs items).map Prod.fst = (fs.take items.length).map fun f => .name (some f.key)
  | [], _ => by simp [keyedFields]
  | _ :: _, [] => rfl
  | _ :: _, _ :: _ => congrArg _ keys_keyedFields

/-- Values that are looked through in order belong to the first fields; the others are left. -/
theorem keys_of_readItems : ∀ {fs : List (Field σ)} {items left : List Document} {found : Found σ},
    readItems (fs.map fun f => (f.key, f.read levels)) items = .ok (found, left) →
    left = items.drop fs.length ∧ found.map Prod.fst = (fs.map Field.key).take items.length
  | [], items, _, _, h => by
    cases h
    simp
  | f :: fs, [], _, _, h => by
    cases h
    exact ⟨rfl, rfl⟩
  | f :: fs, d :: items, left, found, h => by
    obtain ⟨change, -, h⟩ := of_bind_eq_ok h
    obtain ⟨⟨found', left'⟩, hrest, h⟩ := of_bind_eq_ok h
    cases h
    obtain ⟨hleft, hkeys⟩ := keys_of_readItems hrest
    refine ⟨hleft, ?_⟩
    rw [List.map_cons, hkeys, List.map_cons, List.length_cons, List.take_succ_cons]

/-- **Values under their keys are looked through like values in order.** -/
theorem readMembers_keyed (closed : Bool)
    (readers : List (String × (Document → Except Fault (σ → σ)))) :
    ∀ {fs : List (Field σ)} {items : List Document} (found : Found σ),
    (∀ f ∈ fs, readers.lookup f.key = some (f.read levels)) →
    (∀ f ∈ fs, found.lookup f.key = none) → (fs.map Field.key).Nodup →
    items.length ≤ fs.length →
    readMembers closed readers found (keyedFields fs items)
      = (readItems (fs.map fun f => (f.key, f.read levels)) items).map
          fun p => p.1.reverse ++ found
  | [], [], _, _, _, _, _ => rfl
  | _ :: _, [], _, _, _, _, _ => rfl
  | f :: fs, d :: items, found, hreaders, hfound, hkeys, hlength => by
    rw [List.forall_mem_cons] at hreaders hfound
    rw [List.map_cons, List.nodup_cons] at hkeys
    simp only [keyedFields, List.zipWith_cons_cons, List.map_cons, readItems, bind, Except.bind,
      readMembers_cons hreaders.1 hfound.1]
    cases f.read levels d with
    | error e => rfl
    | ok change =>
      have hrest := readMembers_keyed closed readers ((f.key, change) :: found) hreaders.2
        (lookup_cons_eq_none hkeys.1 hfound.2) hkeys.2 (Nat.le_of_succ_le_succ hlength)
      rw [keyedFields] at hrest
      simp only [hrest]
      cases readItems (fs.map fun f => (f.key, f.read levels)) items with
      | error e => rfl
      | ok p => simp [Except.map]

/-- Values that are all read are found. -/
theorem exists_readItems (h : List.Forall₂ (fun f d => ∃ change, f.read levels d = .ok change)
    (fs.take items.length) items) :
    ∃ found, readItems (fs.map fun f => (f.key, f.read levels)) items = .ok (found, []) := by
  induction items generalizing fs with
  | nil =>
    refine ⟨[], ?_⟩
    cases fs <;> rfl
  | cons d items ih =>
    cases fs with
    | nil => cases h
    | cons f fs =>
      obtain ⟨⟨change, hchange⟩, hrest⟩ := List.forall₂_cons.1 h
      obtain ⟨found, hfound⟩ := ih hrest
      refine ⟨(f.key, change) :: found, ?_⟩
      simp only [List.map_cons, readItems, bind, Except.bind, hchange, hfound]

end

/-! ## Arrays and objects -/

variable {r : Record σ α} {levels : Nat} {items : List Document}

/-- An array with no more values than there are fields comes to what its values come to. -/
theorem read_array_eq (hlength : items.length ≤ r.fields.length) :
    r.read (levels + 1) (.array items none) = (readItems (r.readers levels) items).bind
      fun p => r.build p.1 := by
  simp only [read, readArray]
  cases hfound : readItems (r.readers levels) items with
  | error e => rfl
  | ok p =>
    obtain ⟨found, left⟩ := p
    obtain ⟨rfl, -⟩ := keys_of_readItems hfound
    simp only [List.drop_eq_nil_of_le hlength, bind, Except.bind, unbroken, List.isEmpty_nil, if_true,
      ite_self]
    cases r.build found <;> rfl

/-- An array that is read has no more values than there are fields. -/
theorem length_le_of_read_array {a : α} (h : r.read (levels + 1) (.array items none) = .ok a) :
    items.length ≤ r.fields.length := by
  obtain ⟨⟨found, left⟩, hfound, h⟩ := of_bind_eq_ok h
  obtain ⟨rfl, -⟩ := keys_of_readItems hfound
  by_contra hlong
  have hleft : (items.drop r.fields.length).isEmpty = false := by
    rw [List.isEmpty_eq_false_iff, ne_eq, List.drop_eq_nil_iff]
    exact hlong
  simp only [bind, Except.bind, unbroken, ite_self, hleft, Bool.false_eq_true, if_false] at h
  cases hbuild : r.build found <;> rw [hbuild] at h <;> cases h

/-- **An array is read as the object with the same values under the keys of the fields.** -/
theorem read_array (hkeys : r.keys.Nodup) (hlength : items.length ≤ r.fields.length) :
    ∀ levels, r.read levels (.array items none) = r.read levels (.object (r.keyed items) none)
  | 0 => rfl
  | levels + 1 => by
    have hmembers : readMembers r.closed (r.readers levels) [] (r.keyed items)
        = (readItems (r.readers levels) items).map fun p => p.1.reverse ++ [] :=
      readMembers_keyed r.closed (r.readers levels) [] (lookup_readers levels hkeys)
        (fun _ _ => rfl) hkeys hlength
    rw [read_array_eq hlength]
    simp only [read, readObject, hmembers]
    cases hfound : readItems (r.readers levels) items with
    | error e => rfl
    | ok p =>
      obtain ⟨-, hfirst⟩ := keys_of_readItems hfound
      have hnodup : (p.1.map Prod.fst).Nodup := by
        rw [hfirst]
        exact hkeys.sublist (List.take_sublist _ _)
      have hperm : p.1.Perm (p.1.reverse ++ []) := by simp
      exact build_congr (lookup_perm hperm hnodup)

/-- **Where every field is required, an array that ends too early is refused.** -/
theorem read_array_missing (hrequired : r.required) (hkeys : r.keys.Nodup)
    (hlength : items.length < r.fields.length)
    (h : List.Forall₂ (fun f d => ∃ change, f.read levels d = .ok change)
      (r.fields.take items.length) items) :
    r.read (levels + 1) (.array items none) = .error .mismatched := by
  obtain ⟨found, hfound⟩ := exists_readItems h
  obtain ⟨-, hfirst⟩ := keys_of_readItems hfound
  have hmissing : ¬ r.keys.all fun key => (found.lookup key).isSome := by
    intro hall
    have hsub : r.keys ⊆ found.map Prod.fst := fun key hkey =>
      lookup_isSome_iff_mem.1 (List.all_eq_true.1 hall key hkey)
    have hcount := (List.subperm_of_subset hkeys hsub).length_le
    rw [hfirst, List.length_take, keys, List.length_map] at hcount
    omega
  have hbuild : r.build found = .error .mismatched := by simp [build, hrequired, hmissing]
  rw [read_array_eq hlength.le, readers, hfound]
  exact hbuild

/-! ## Fields in either form -/

/-- The document gives the field with the key a value: under the key or in the place of the field. -/
inductive Holds (r : Record σ α) (key : String) (d : Document) : Document → Prop
  | member {members : List (Key × Document)} : (Key.name (some key), d) ∈ members →
      Holds r key d (.object members none)
  | item {items : List Document} : (Key.name (some key), d) ∈ r.keyed items →
      Holds r key d (.array items none)

namespace Lenient

variable {r : Record σ σ} {a : σ} {e : Fault} {front back : List (Key × Document)}

/-- A record whose fields have defaults fails to be read only while its members are looked through,
    and then nothing behind them matters. -/
theorem read_append_of_error (h : r.Lenient)
    (hread : r.read (levels + 1) (.object front none) = .error e) :
    r.read (levels + 1) (.object (front ++ back) none) = .error e := by
  simp only [read, readObject, readMembers_append] at hread ⊢
  cases hfound : readMembers r.closed (r.readers levels) [] front with
  | error e' =>
    rw [hfound] at hread
    exact hread
  | ok found =>
    rw [hfound, h.defaulted] at hread
    cases hread

/-- Values that are all read make a record. -/
theorem exists_read_array (h : r.Lenient) (hlength : items.length ≤ r.fields.length)
    (hitems : List.Forall₂ (fun f d => ∃ change, f.read levels d = .ok change)
      (r.fields.take items.length) items) :
    ∃ a, r.read (levels + 1) (.array items none) = .ok a := by
  obtain ⟨found, hfound⟩ := exists_readItems hitems
  have hbuild : r.build found = .ok (r.assemble found) := by
    rw [h.defaulted]
    rfl
  rw [read_array_eq hlength, readers, hfound]
  exact ⟨_, hbuild⟩

/-- Written defaults of fields that are not there make no difference. -/
theorem read_append_defaults (h : r.Lenient) : ∀ {fs : List (Field σ)} {front : List (Key × Document)},
    (∀ f ∈ fs, f ∈ r.fields) → (fs.map Field.key).Nodup →
    (∀ f ∈ fs, Key.name (some f.key) ∉ front.map Prod.fst) →
    r.read (levels + 2) (.object front none)
      = r.read (levels + 2) (.object
          (front ++ keyedFields fs (fs.map fun f => (f.write r.blank).document)) none)
  | [], front, _, _, _ => by simp [keyedFields]
  | f :: fs, front, hfs, hkeys, hnew => by
    rw [List.forall_mem_cons] at hfs hnew
    rw [List.map_cons, List.nodup_cons] at hkeys
    cases hread : r.read (levels + 2) (.object front none) with
    | error e => exact (h.read_append_of_error hread).symm
    | ok a =>
      let last : Key × Document := (.name (some f.key), (f.write r.blank).document)
      have hone : r.read (levels + 2) (.object (front ++ [last]) none) = .ok a :=
        h.read_insert_of_agrees (by rwa [List.append_nil]) hfs.1 (by rw [List.append_nil]; exact hnew.1)
          (h.blank f hfs.1 levels)
      have hlast : ∀ g ∈ fs, Key.name (some g.key) ∉ (front ++ [last]).map Prod.fst := by
        intro g hg
        have hne : g.key ≠ f.key := fun h => hkeys.1 (h ▸ List.mem_map_of_mem hg)
        simpa [last, hne] using hnew.2 g hg
      have hrest := read_append_defaults h hfs.2 hkeys.2 hlast
      rw [hone, List.append_assoc] at hrest
      exact hrest

/-- **Where every field has a default, an array that ends too early is read as if the defaults of
    the missing fields were written out.** -/
theorem read_array_missing (h : r.Lenient) (hlength : items.length ≤ r.fields.length) :
    r.read (levels + 2) (.array items none)
      = r.read (levels + 2) (.array (items ++
          (r.fields.drop items.length).map fun f => (f.write r.blank).document) none) := by
  have hall : (items ++ (r.fields.drop items.length).map fun f => (f.write r.blank).document).length
      ≤ r.fields.length := by simp; omega
  have hkeys := h.keys
  rw [Record.keys, ← List.take_append_drop items.length r.fields, List.map_append,
    List.nodup_append] at hkeys
  have hnew : ∀ f ∈ r.fields.drop items.length,
      Key.name (some f.key) ∉ (r.keyed items).map Prod.fst := by
    intro f hf hmem
    rw [keyed, keys_keyedFields, List.mem_map] at hmem
    obtain ⟨g, hg, hsame⟩ := hmem
    have hkey : g.key = f.key := by simpa using hsame
    exact hkeys.2.2 g.key (List.mem_map_of_mem hg) f.key (List.mem_map_of_mem hf) hkey
  rw [read_array h.keys hlength, read_array h.keys hall, keyed, keyed, keyedFields_append hlength]
  exact h.read_append_defaults (fun f hf => List.mem_of_mem_drop hf) hkeys.2.1 hnew

/-- **What a record holds in a field is what is read for it**, in either form. -/
theorem read_of_holds {β : Type} {c : Codec β} {get : σ → β} {set : σ → β → σ} {key : String}
    {d whole : Document} (h : r.Lenient) (hread : r.read (levels + 1) whole = .ok a)
    (hf : Field.of key c get set ∈ r.fields) (hget : ∀ s b, get (set s b) = b)
    (hholds : r.Holds key d whole) : c.read levels d = .ok (get a) := by
  cases hholds with
  | member hmem => exact h.read_member hread hf hget hmem
  | item hmem =>
    rw [read_array h.keys (length_le_of_read_array hread)] at hread
    exact h.read_member hread hf hget hmem

end Lenient

end Record

end Tickscript.Json
