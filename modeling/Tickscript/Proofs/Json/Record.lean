/-
  Records recover what is written.

  A field copies (`Field.Copies`) if its reader recovers, from what is written for a
  record, a change that puts the same value into another record.

  * `Record.faithful`: a record whose fields copy, under different keys, is recovered
    if the changes in order make its parts out of the blank;
  * `Record.exists_found_of_read`, `Record.exists_changes_of_read`: a record that is read is
    made of what was read for its fields, for each of them where all are required;
  * `Record.read_invariant`: whatever is read, an invariant of the blank that no field
    breaks holds of the parts;
  * `Record.depth_codec_le_iff`: a record is nested one level deeper than its fields.
-/
import Mathlib.Data.List.Forall2
import Mathlib.Data.List.Nodup
import Tickscript.Json.Record
import Tickscript.Proofs.Json.Faithful

namespace Tickscript.Json

variable {σ α β : Type}

/-- What comes out of two steps that both went well. -/
theorem of_bind_eq_ok {x : Except Fault α} {f : α → Except Fault β} {b : β}
    (h : x >>= f = .ok b) : ∃ a, x = .ok a ∧ f a = .ok b := by
  cases x with
  | error e => cases h
  | ok a => exact ⟨a, rfl, h⟩

theorem of_unbroken_eq_ok {fault : Option Fault} {a b : α} (h : unbroken fault a = .ok b) :
    a = b := by
  cases fault with
  | none => exact Except.ok.inj h
  | some f => cases h

/-! ## Lists -/

theorem forall₂_of_mapM {f : α → Except Fault β} : ∀ {as : List α} {bs : List β},
    as.mapM f = .ok bs → List.Forall₂ (fun a b => f a = .ok b) as bs
  | [], bs, h => by
    cases h
    exact .nil
  | a :: as, bs, h => by
    rw [List.mapM_cons] at h
    obtain ⟨b, hb, h⟩ := of_bind_eq_ok h
    obtain ⟨rest, hrest, h⟩ := of_bind_eq_ok h
    obtain rfl : b :: rest = bs := Except.ok.inj h
    exact .cons hb (forall₂_of_mapM hrest)

/-- The items of a list are read one by one, one level down. -/
theorem Reader.forall₂_of_list {r : Reader α} {levels : Nat} {d : Document} {as : List α}
    (h : r.list levels d = .ok as) : ∃ n items, levels = n + 1 ∧ d = .array items none ∧
      List.Forall₂ (fun e a => r n e = .ok a) items as := by
  unfold list at h
  split at h
  · cases h
  · next n items fault =>
    obtain ⟨bs, hbs, h⟩ := of_bind_eq_ok h
    cases fault with
    | some f => cases h
    | none =>
      obtain rfl : bs = as := Except.ok.inj h
      exact ⟨n, items, rfl, rfl, forall₂_of_mapM hbs⟩
  · cases h

/-! ## Lookup -/

theorem lookup_cons_of_ne {key name : String} (h : name ≠ key) (a : α) (l : List (String × α)) :
    ((key, a) :: l).lookup name = l.lookup name := by
  rw [List.lookup_cons, beq_eq_false_iff_ne.2 h]

theorem mem_of_lookup {name : String} {a : α} {l : List (String × α)}
    (h : l.lookup name = some a) : (name, a) ∈ l := by
  obtain ⟨_, _, rfl, -⟩ := List.lookup_eq_some_iff.1 h
  exact List.mem_append_right _ List.mem_cons_self

/-! ## Fields -/

namespace Field

@[simp] theorem write_of {key : String} {c : Codec β} {get : σ → β} {set : σ → β → σ} (s : σ) :
    (Field.of key c get set).write s = c.write (get s) := rfl

/-- What is written for `p` is read as the change `set`. -/
def Copies (p : σ) (f : Field σ) (set : σ → σ) : Prop := f.read.Recovers (f.write p) set

namespace Copies

variable {p : σ} {key : String}

theorem of {c : Codec β} {get : σ → β} {set : σ → β → σ} (h : c.Faithful (get p)) :
    Copies p (.of key c get set) fun s => set s (get p) :=
  h.map fun b s => set s b

theorem text {get : σ → String} {set : σ → String → σ} :
    Copies p (.of key .text get set) fun s => set s (get p) :=
  .of (Codec.faithful_text _)

theorem bool {get : σ → Bool} {set : σ → Bool → σ} :
    Copies p (.of key .bool get set) fun s => set s (get p) :=
  .of (Codec.faithful_bool _)

theorem list {c : Codec β} {get : σ → List β} {set : σ → List β → σ} (h : ∀ b, c.Faithful b) :
    Copies p (.of key (.list c) get set) fun s => set s (get p) :=
  .of (Codec.faithful_list fun b _ => h b)

theorem texts {get : σ → List String} {set : σ → List String → σ} :
    Copies p (.of key (.list .text) get set) fun s => set s (get p) :=
  .list Codec.faithful_text

end Copies

theorem exists_of_read {key : String} {c : Codec β} {get : σ → β} {set : σ → β → σ} {levels : Nat}
    {d : Document} {change : σ → σ} (h : (Field.of key c get set).read levels d = .ok change) :
    ∃ b, c.read levels d = .ok b ∧ change = fun s => set s b := by
  cases hc : c.read levels d with
  | error f => simp [Field.of, hc, Except.map] at h
  | ok b =>
    obtain rfl : (fun s => set s b) = change := by simpa [Field.of, hc, Except.map] using h
    exact ⟨b, rfl, rfl⟩

/-- Whatever is read for the field, the change keeps the invariant. -/
def Keeps (I : σ → Prop) (f : Field σ) : Prop :=
  ∀ levels d set, f.read levels d = .ok set → ∀ s, I s → I (set s)

theorem keeps_of_iff {I : σ → Prop} {key : String} {c : Codec β} {get : σ → β}
    {set : σ → β → σ} : Keeps I (.of key c get set) ↔
      ∀ levels d b, c.read levels d = .ok b → ∀ s, I s → I (set s b) := by
  constructor
  · intro h levels d b hb
    exact h levels d (fun s => set s b) (by simp [Field.of, hb, Except.map])
  · intro h levels d change hread
    obtain ⟨b, hb, rfl⟩ := exists_of_read hread
    exact h levels d b hb

end Field

namespace Record

/-! ## Objects with all fields -/

/-- The reader of a field is found under its key. -/
theorem lookup_readers (levels : Nat) : ∀ {fs : List (Field σ)}, (fs.map Field.key).Nodup →
    ∀ f ∈ fs, (fs.map fun f => (f.key, f.read levels)).lookup f.key = some (f.read levels)
  | g :: fs, hkeys, f, hf => by
    rw [List.map_cons, List.nodup_cons] at hkeys
    rcases List.mem_cons.1 hf with rfl | hf
    · simp
    · have hne : f.key ≠ g.key := fun h => hkeys.1 (h ▸ List.mem_map_of_mem hf)
      rw [List.map_cons, lookup_cons_of_ne hne]
      exact lookup_readers levels hkeys.2 f hf

/-- What is found under a name is the reader of the field with this key. -/
theorem exists_field_of_lookup {levels : Nat} {fs : List (Field σ)} {name : String}
    {reader : Document → Except Fault (σ → σ)}
    (h : (fs.map fun f => (f.key, f.read levels)).lookup name = some reader) :
    ∃ f ∈ fs, f.key = name ∧ f.read levels = reader := by
  obtain ⟨f, hf, hpair⟩ := List.mem_map.1 (mem_of_lookup h)
  exact ⟨f, hf, congrArg Prod.fst hpair, congrArg Prod.snd hpair⟩

/-- The changes found under the keys of the fields. -/
def Gives (found : Found σ) : List (Field σ) → List (σ → σ) → Prop :=
  List.Forall₂ fun f set => found.lookup f.key = some set

/-- A member with a key that is known and new adds the change that is read for it. -/
theorem readMembers_cons {closed : Bool} {key : String} {reader : Document → Except Fault (σ → σ)}
    {readers : List (String × (Document → Except Fault (σ → σ)))} {found : Found σ}
    (hreader : readers.lookup key = some reader) (hnew : found.lookup key = none) (d : Document)
    (rest : List (Key × Document)) :
    readMembers closed readers found ((.name (some key), d) :: rest)
      = (reader d).bind fun set => readMembers closed readers ((key, set) :: found) rest := by
  simp only [readMembers, Key.read, bind, Except.bind, hreader, hnew, Option.isSome_none,
    Bool.false_eq_true, if_false]

/-- What is found for one field leaves the fields behind it to be found. -/
theorem lookup_cons_eq_none {f : Field σ} {fs : List (Field σ)} {found : Found σ} {set : σ → σ}
    (hkey : f.key ∉ fs.map Field.key) (h : ∀ g ∈ fs, found.lookup g.key = none) :
    ∀ g ∈ fs, List.lookup g.key ((f.key, set) :: found) = none := by
  intro g hg
  have hne : g.key ≠ f.key := fun h => hkey (h ▸ List.mem_map_of_mem hg)
  rw [lookup_cons_of_ne hne]
  exact h g hg

/-- What is written for the fields adds their changes to those found before. -/
theorem readMembers_written (closed : Bool) {levels : Nat} {p : σ}
    {readers : List (String × (Document → Except Fault (σ → σ)))} {fs : List (Field σ)}
    {sets : List (σ → σ)} (h : List.Forall₂ (Field.Copies p) fs sets) : ∀ found : Found σ,
    (∀ f ∈ fs, readers.lookup f.key = some (f.read levels)) →
    (∀ f ∈ fs, found.lookup f.key = none) → (fs.map Field.key).Nodup →
    ∃ found' : Found σ,
      readMembers closed readers found (memberDocuments (fs.map fun f => (f.key, f.write p)))
        = (if depthMembers (fs.map fun f => (f.key, f.write p)) ≤ levels then .ok found'
            else .error .malformed) ∧
      Gives found' fs sets ∧ ∀ key ∉ fs.map Field.key, found'.lookup key = found.lookup key := by
  induction h with
  | nil => exact fun found _ _ _ => ⟨found, rfl, .nil, fun _ _ => rfl⟩
  | @cons f set fs sets hf _ ih =>
    intro found hreaders hfound hkeys
    rw [List.map_cons, List.nodup_cons] at hkeys
    rw [List.forall_mem_cons] at hreaders hfound
    obtain ⟨found', hread, hgives, hframe⟩ :=
      ih ((f.key, set) :: found) hreaders.2 (lookup_cons_eq_none hkeys.1 hfound.2) hkeys.2
    refine ⟨found', ?_, .cons ?_ hgives, fun key hkey => ?_⟩
    · simp only [List.map_cons, memberDocuments, readMembers_cons hreaders.1 hfound.1, hf levels,
        depthMembers, Nat.max_le]
      by_cases hdepth : (f.write p).depth ≤ levels
      · simp only [hdepth, if_true, true_and, Except.bind, hread]
      · simp only [hdepth, if_false, false_and, Except.bind]
    · -- no member behind it has the key, so what was found for `f` stays
      rw [hframe f.key hkeys.1, List.lookup_cons_self]
    · rw [List.map_cons, List.mem_cons, not_or] at hkey
      rw [hframe key hkey.2, lookup_cons_of_ne hkey.1]

/-! ## Putting a record together -/

variable {r : Record σ α}

theorem foldl_of_gives {found : Found σ} {fs : List (Field σ)} {sets : List (σ → σ)}
    (h : Gives found fs sets) : ∀ s, (fs.map Field.key).foldl
      (fun s key => match found.lookup key with | some set => set s | none => s) s
      = sets.foldl (fun s set => set s) s := by
  induction h with
  | nil => exact fun _ => rfl
  | cons hf _ ih =>
    intro s
    rw [List.map_cons, List.foldl_cons, hf, List.foldl_cons]
    exact ih _

theorem all_of_gives {found : Found σ} {fs : List (Field σ)} {sets : List (σ → σ)}
    (h : Gives found fs sets) :
    (fs.map Field.key).all (fun key => (found.lookup key).isSome) = true := by
  induction h with
  | nil => rfl
  | cons hf _ ih => rw [List.map_cons, List.all_cons, hf, ih]; rfl

/-- Where the changes of all fields have been found, they are made, and the parts put together. -/
theorem build_of_gives {found : Found σ} {sets : List (σ → σ)} (h : Gives found r.fields sets) :
    r.build found = (r.finish (sets.foldl (fun s set => set s) r.blank)).elim
      (.error .mismatched) .ok := by
  have hall : r.keys.all (fun key => (found.lookup key).isSome) = true := all_of_gives h
  have hassemble : r.assemble found = sets.foldl (fun s set => set s) r.blank :=
    foldl_of_gives h r.blank
  simp only [build, hall, hassemble, Bool.not_true, Bool.and_false, Bool.false_eq_true, if_false]
  cases r.finish (sets.foldl (fun s set => set s) r.blank) <;> rfl

/-- **A record whose fields copy is recovered.** -/
theorem faithful {a : α} {sets : List (σ → σ)} (hkeys : r.keys.Nodup)
    (hcopies : List.Forall₂ (Field.Copies (r.parts a)) r.fields sets)
    (hfinish : r.finish (sets.foldl (fun s set => set s) r.blank) = some a) :
    r.codec.Faithful a
  | 0 => rfl
  | levels + 1 => by
    obtain ⟨found, hread, hgives, -⟩ := readMembers_written r.closed hcopies []
      (lookup_readers levels hkeys) (fun _ _ => rfl) hkeys
    simp only [codec, write, document, read, readObject, readers, hread, depth,
      Nat.add_le_add_iff_right]
    by_cases hdepth : depthMembers (r.fields.map fun f => (f.key, f.write (r.parts a))) ≤ levels
    · simp only [hdepth, if_true, unbroken, bind, Except.bind, build_of_gives hgives, hfinish,
        Option.elim_some]
    · simp only [hdepth, if_false, bind, Except.bind]

/-! ## Where changes come from -/

section Sources

variable {levels : Nat} {fs : List (Field σ)} {found : Found σ}

/-- Each change found was read for the field under whose key it is. -/
def Sourced (fs : List (Field σ)) (levels : Nat) (found : Found σ) : Prop :=
  ∀ e ∈ found, ∃ f ∈ fs, f.key = e.1 ∧ ∃ d, f.read levels d = .ok e.2

theorem sourced_nil : Sourced fs levels [] := fun _ he => absurd he List.not_mem_nil

theorem Sourced.cons {f : Field σ} {d : Document} {change : σ → σ} (hf : f ∈ fs)
    (hread : f.read levels d = .ok change) (h : Sourced fs levels found) :
    Sourced fs levels ((f.key, change) :: found) :=
  List.forall_mem_cons.2 ⟨⟨f, hf, rfl, d, hread⟩, h⟩

theorem sourced_of_readMembers {closed : Bool} :
    ∀ {members : List (Key × Document)} {found found' : Found σ}, Sourced fs levels found →
    readMembers closed (fs.map fun f => (f.key, f.read levels)) found members = .ok found' →
    Sourced fs levels found'
  | [], found, found', hfound, h => by
    obtain rfl : found = found' := Except.ok.inj h
    exact hfound
  | (key, d) :: rest, found, found', hfound, h => by
    obtain ⟨name, -, h⟩ := of_bind_eq_ok h
    cases hreader : (fs.map fun f => (f.key, f.read levels)).lookup name with
    | some reader =>
      obtain ⟨f, hf, rfl, rfl⟩ := exists_field_of_lookup hreader
      simp only [hreader] at h
      split at h
      · cases h
      · obtain ⟨change, hchange, h⟩ := of_bind_eq_ok h
        exact sourced_of_readMembers (hfound.cons hf hchange) h
    | none =>
      simp only [hreader] at h
      split at h
      · cases h
      · obtain ⟨_, -, h⟩ := of_bind_eq_ok h
        exact sourced_of_readMembers hfound h

theorem sourced_of_readItems : ∀ {fs : List (Field σ)} {items left : List Document}
    {found : Found σ}, readItems (fs.map fun f => (f.key, f.read levels)) items = .ok (found, left) →
    Sourced fs levels found
  | [], _, _, _, h => by
    cases h
    exact sourced_nil
  | _ :: _, [], _, _, h => by
    cases h
    exact sourced_nil
  | f :: fs, d :: items, left, found, h => by
    obtain ⟨change, hchange, h⟩ := of_bind_eq_ok h
    obtain ⟨⟨found', left'⟩, hrest, h⟩ := of_bind_eq_ok h
    cases h
    have hsourced : Sourced (f :: fs) levels found' := fun e he =>
      let ⟨g, hg, hsource⟩ := sourced_of_readItems hrest e he
      ⟨g, List.mem_cons_of_mem f hg, hsource⟩
    exact hsourced.cons List.mem_cons_self hchange

/-- **A record that is read was built from changes read for its fields**, one level down. -/
theorem exists_found_of_read {d : Document} {a : α} (h : r.read levels d = .ok a) :
    ∃ n found, levels = n + 1 ∧ Sourced r.fields n found ∧ r.build found = .ok a := by
  cases d with
  | absent f => cases levels <;> cases h
  | scalar s => cases levels <;> cases h
  | array items fault =>
    cases levels with
    | zero => cases h
    | succ n =>
      obtain ⟨⟨found, left⟩, hitems, h⟩ := of_bind_eq_ok h
      -- whether the array ends too early or too late does not change what is built
      have hlast : (do
          let b ← r.build found
          if left.isEmpty then unbroken fault b else .error .malformed) = .ok a := by
        dsimp only at h
        split at h
        · obtain ⟨_, -, h⟩ := of_bind_eq_ok h
          exact h
        · exact h
      obtain ⟨b, hbuild, hb⟩ := of_bind_eq_ok hlast
      split at hb
      · rw [← of_unbroken_eq_ok hb]
        exact ⟨n, found, rfl, sourced_of_readItems hitems, hbuild⟩
      · cases hb
  | object members fault =>
    cases levels with
    | zero => cases h
    | succ n =>
      obtain ⟨found, hmembers, h⟩ := of_bind_eq_ok h
      obtain ⟨_, -, h⟩ := of_bind_eq_ok h
      exact ⟨n, found, rfl, sourced_of_readMembers sourced_nil hmembers, h⟩

theorem exists_gives : ∀ {fs : List (Field σ)}, (∀ f ∈ fs, (found.lookup f.key).isSome) →
    ∃ changes, Gives found fs changes
  | [], _ => ⟨[], .nil⟩
  | f :: fs, h => by
    obtain ⟨hf, hfs⟩ := List.forall_mem_cons.1 h
    obtain ⟨change, hchange⟩ := Option.isSome_iff_exists.1 hf
    obtain ⟨changes, hchanges⟩ := exists_gives hfs
    exact ⟨change :: changes, .cons hchange hchanges⟩

/-- What is built has nothing missing that is required. -/
theorem of_build_eq_ok {a : α} (h : r.build found = .ok a) :
    (r.required → ∀ key ∈ r.keys, (found.lookup key).isSome) ∧
      r.finish (r.assemble found) = some a := by
  unfold build at h
  split at h
  · cases h
  · next hmissing =>
    split at h
    · next b hb =>
      obtain rfl : b = a := Except.ok.inj h
      refine ⟨fun hrequired => ?_, hb⟩
      simpa [hrequired] using hmissing
    · cases h

/-- **Where every field is required, each of them was read**, and the changes make the record. -/
theorem exists_changes_of_read {d : Document} {a : α} (hrequired : r.required)
    (hkeys : r.keys.Nodup) (h : r.read levels d = .ok a) : ∃ n changes, levels = n + 1 ∧
      List.Forall₂ (fun f change => ∃ d, f.read n d = .ok change) r.fields changes ∧
      r.finish (changes.foldl (fun s change => change s) r.blank) = some a := by
  obtain ⟨n, found, rfl, hsourced, hbuild⟩ := exists_found_of_read h
  obtain ⟨hall, hfinish⟩ := of_build_eq_ok hbuild
  obtain ⟨changes, hgives⟩ :=
    exists_gives fun f hf => hall hrequired f.key (List.mem_map_of_mem hf)
  refine ⟨n, changes, rfl, ?_, foldl_of_gives hgives r.blank ▸ hfinish⟩
  refine List.forall₂_iff_get.2 ⟨hgives.length_eq, fun i hi hi' => ?_⟩
  obtain ⟨g, hg, hkey, hread⟩ := hsourced _ (mem_of_lookup (hgives.get hi hi'))
  -- the keys tell the fields apart
  rwa [List.inj_on_of_nodup_map hkeys hg (List.get_mem _ _) hkey] at hread

end Sources

/-! ## Invariants of what is read -/

section Invariant

variable {I : σ → Prop} {found : Found σ}

/-- Every change found keeps the invariant. -/
def Safe (I : σ → Prop) (found : Found σ) : Prop := ∀ e ∈ found, ∀ s, I s → I (e.2 s)

theorem Sourced.safe {levels : Nat} {fs : List (Field σ)} (h : Sourced fs levels found)
    (hfs : ∀ f ∈ fs, f.Keeps I) : Safe I found := by
  intro e he
  obtain ⟨f, hf, -, d, hread⟩ := h e he
  exact hfs f hf levels d e.2 hread

theorem Safe.assemble (hblank : I r.blank) (h : Safe I found) : I (r.assemble found) := by
  refine List.foldlRecOn r.keys _ hblank fun s hs key _ => ?_
  split
  · next set hset =>
    exact h (key, set) (mem_of_lookup hset) s hs
  · exact hs

theorem Safe.build {a : α} (hblank : I r.blank) (h : Safe I found)
    (hbuild : r.build found = .ok a) : ∃ s, I s ∧ r.finish s = some a :=
  ⟨_, h.assemble hblank, (of_build_eq_ok hbuild).2⟩

/-- **Whatever is read, an invariant of the blank that every field keeps holds of the parts.** -/
theorem read_invariant {levels : Nat} {d : Document} {a : α} (hblank : I r.blank)
    (hfields : ∀ f ∈ r.fields, f.Keeps I) (h : r.read levels d = .ok a) :
    ∃ s, I s ∧ r.finish s = some a := by
  obtain ⟨n, found, -, hsourced, hbuild⟩ := exists_found_of_read h
  exact (hsourced.safe hfields).build hblank hbuild

end Invariant

/-! ## Nesting -/

@[simp] theorem depth_codec_le_iff {n : Nat} {a : α} :
    (r.codec.write a).depth ≤ n + 1 ↔ ∀ f ∈ r.fields, (f.write (r.parts a)).depth ≤ n := by
  simp [codec, write, depth, depthMembers_le_iff]

end Record

end Tickscript.Json
