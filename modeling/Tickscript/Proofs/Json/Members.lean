/-
  Members of objects, in any order.

  A member gives a record a change under the key of a field, or nothing (`Record.Taken`).
  What an object is read as depends on what its members give, and on nothing else
  (`Record.read_object`): the order does not matter, and an unknown member is passed over.

  * `Record.outcome_perm`: the order in which the members give does not matter;
  * `Record.assemble_cons`: a change of another field comes after all that was found, if the
    fields are apart from each other (`Field.Apart`);
  * `Record.read_object_perm`: members in another order, with unknown ones among them;
  * `Record.Lenient.read_insert`, `Record.Lenient.read_remove_of_agrees`,
    `Record.Lenient.read_repeated`: one field more, one less, and one a second time, where every
    field has a default;
  * `Record.Lenient.read_member`: what is read for a field is what the record then holds.
-/
import Mathlib.Data.List.Nodup
import Mathlib.Data.List.Pairwise
import Mathlib.Data.List.Perm.Basic
import Mathlib.Data.List.ReduceOption
import Tickscript.Proofs.Json.Intact
import Tickscript.Proofs.Json.Record

namespace Tickscript.Json

variable {σ α β : Type}

/-! ## Lookup -/

theorem lookup_eq_some_iff_mem {name : String} {a : α} : ∀ {l : List (String × α)},
    (l.map Prod.fst).Nodup → (l.lookup name = some a ↔ (name, a) ∈ l)
  | [], _ => by simp
  | (key, b) :: l, h => by
    rw [List.map_cons, List.nodup_cons] at h
    by_cases hname : name = key
    · subst hname
      have hnew : (name, a) ∉ l := fun hmem => h.1 (List.mem_map.2 ⟨_, hmem, rfl⟩)
      rw [List.lookup_cons_self, List.mem_cons]
      simp [hnew, eq_comm]
    · rw [lookup_cons_of_ne hname, lookup_eq_some_iff_mem h.2, List.mem_cons]
      simp [hname]

theorem lookup_perm {l l' : List (String × α)} (h : l.Perm l') (hl : (l.map Prod.fst).Nodup)
    (name : String) : l.lookup name = l'.lookup name := by
  have hl' : (l'.map Prod.fst).Nodup := (h.map Prod.fst).nodup_iff.1 hl
  refine Option.ext fun a => ?_
  rw [lookup_eq_some_iff_mem hl, lookup_eq_some_iff_mem hl', h.mem_iff]

theorem lookup_isSome_iff_mem {name : String} {l : List (String × α)} :
    (l.lookup name).isSome ↔ name ∈ l.map Prod.fst := by
  rw [List.lookup_isSome_iff, List.mem_map]
  exact exists_congr fun e => and_congr_right fun _ => beq_iff_eq.trans eq_comm

theorem lookup_eq_none_iff_not_mem {name : String} {l : List (String × α)} :
    l.lookup name = none ↔ name ∉ l.map Prod.fst := by
  rw [← Option.not_isSome_iff_eq_none, lookup_isSome_iff_mem]

/-! ## Fields -/

namespace Field

/-- It does not matter which of the two fields is changed first. -/
def Apart (f g : Field σ) : Prop :=
  ∀ m n d e change change', f.read m d = .ok change → g.read n e = .ok change' →
    ∀ s, change (change' s) = change' (change s)

instance : Std.Symm (@Apart σ) where
  symm _ _ h m n d e change change' hchange hchange' s :=
    (h n m e d change' change hchange' hchange s).symm

/-- The value is read for the field, and is what the field has in `s`. -/
def Agrees (s : σ) (f : Field σ) (levels : Nat) (d : Document) : Prop :=
  ∃ change, f.read levels d = .ok change ∧ change s = s

theorem apart_of {γ : Type} {key key' : String} {c : Codec β} {c' : Codec γ} {get : σ → β}
    {get' : σ → γ} {set : σ → β → σ} {set' : σ → γ → σ}
    (h : ∀ s b b', set (set' s b') b = set' (set s b) b') :
    Apart (.of key c get set) (.of key' c' get' set') := by
  intro m n d e change change' hchange hchange' s
  obtain ⟨b, -, rfl⟩ := exists_of_read hchange
  obtain ⟨b', -, rfl⟩ := exists_of_read hchange'
  exact h s b b'

end Field

namespace Record

/-! ## Members one by one -/

/-- What a member gives: a change under the key of a field; or nothing, if its key is unknown and
    its value can be passed over. -/
inductive Taken (fs : List (Field σ)) (levels : Nat) :
    Key × Document → Option (String × (σ → σ)) → Prop
  | field {f : Field σ} {d : Document} {change : σ → σ} : f ∈ fs → f.read levels d = .ok change →
      Taken fs levels (.name (some f.key), d) (some (f.key, change))
  | unknown {name : String} {d : Document} : name ∉ fs.map Field.key → d.Intact →
      Taken fs levels (.name (some name), d) none

section
variable {fs : List (Field σ)} {levels : Nat} {members : List (Key × Document)}
  {taken : List (Option (String × (σ → σ)))}

theorem lookup_readers_eq_none_iff {name : String} :
    (fs.map fun f => (f.key, f.read levels)).lookup name = none ↔ name ∉ fs.map Field.key := by
  rw [lookup_eq_none_iff_not_mem, List.map_map]
  rfl

/-- Where all members are read, each of them gives something or can be passed over. -/
theorem exists_taken : ∀ {members : List (Key × Document)} {found found' : Found σ},
    readMembers false (fs.map fun f => (f.key, f.read levels)) found members = .ok found' →
    ∃ taken, List.Forall₂ (Taken fs levels) members taken
  | [], _, _, _ => ⟨[], .nil⟩
  | (.name none, _) :: _, _, _, h => by cases h
  | (.broken _ _, _) :: _, _, _, h => by cases h
  | (.name (some name), d) :: rest, found, found', h => by
    rw [readMembers] at h
    simp only [Key.read, bind, Except.bind] at h
    cases hreader : (fs.map fun f => (f.key, f.read levels)).lookup name with
    | some reader =>
      obtain ⟨f, hf, rfl, rfl⟩ := exists_field_of_lookup hreader
      simp only [hreader] at h
      split at h
      · cases h
      · obtain ⟨change, hchange, h⟩ := of_bind_eq_ok h
        obtain ⟨taken, htaken⟩ := exists_taken h
        exact ⟨_, .cons (.field hf hchange) htaken⟩
    | none =>
      simp only [hreader] at h
      obtain ⟨_, hskip, h⟩ := of_bind_eq_ok h
      obtain ⟨taken, htaken⟩ := exists_taken h
      exact ⟨_, .cons (.unknown (lookup_readers_eq_none_iff.1 hreader) hskip) htaken⟩

/-- **What the members give is found, unless a key comes twice.** -/
theorem readMembers_of_taken (hkeys : (fs.map Field.key).Nodup)
    (h : List.Forall₂ (Taken fs levels) members taken) : ∀ {found : Found σ},
    (found.map Prod.fst).Nodup →
    readMembers false (fs.map fun f => (f.key, f.read levels)) found members
      = if ((taken.reduceOption.reverse ++ found).map Prod.fst).Nodup
        then .ok (taken.reduceOption.reverse ++ found) else .error .mismatched := by
  induction h with
  | nil =>
    intro found hfound
    simp only [readMembers, List.reduceOption_nil, List.reverse_nil, List.nil_append, hfound, if_true]
  | @cons m t members taken hm _ ih =>
    intro found hfound
    cases hm with
    | @field f d change hf hread =>
      simp only [readMembers, Key.read, bind, Except.bind, lookup_readers levels hkeys f hf, hread,
        lookup_isSome_iff_mem, List.reduceOption_cons_of_some, List.reverse_cons, List.append_assoc,
        List.singleton_append]
      by_cases hnew : f.key ∈ found.map Prod.fst
      · -- what was found before stays, so the key comes twice in what is found in the end
        rw [if_pos hnew, if_neg]
        intro hall
        rw [List.map_append, List.nodup_append] at hall
        exact (List.nodup_cons.1 hall.2.1).1 hnew
      · rw [if_neg hnew]
        exact ih (List.nodup_cons.2 ⟨hnew, hfound⟩)
    | @unknown name d hname hd =>
      have hskip : d.skip = .ok () := hd
      simp only [readMembers, Key.read, bind, Except.bind, lookup_readers_eq_none_iff.2 hname, hskip,
        List.reduceOption_cons_of_none]
      exact ih hfound

theorem readMembers_append (closed : Bool)
    (readers : List (String × (Document → Except Fault (σ → σ)))) (back : List (Key × Document)) :
    ∀ (front : List (Key × Document)) (found : Found σ),
      readMembers closed readers found (front ++ back) = (do
        let found' ← readMembers closed readers found front
        readMembers closed readers found' back)
  | [], _ => rfl
  | (key, d) :: front, found => by
    simp only [List.cons_append, readMembers, bind_assoc]
    congr 1
    funext name
    cases readers.lookup name with
    | some reader =>
      by_cases hname : (found.lookup name).isSome
      · simp only [hname, if_true]
        rfl
      · simp only [hname, Bool.false_eq_true, if_false, bind_assoc,
          readMembers_append closed readers back front]
    | none =>
      cases closed with
      | true => rfl
      | false =>
        simp only [Bool.false_eq_true, if_false, bind_assoc,
          readMembers_append false readers back front]

theorem sourced_of_taken (h : List.Forall₂ (Taken fs levels) members taken) :
    Sourced fs levels taken.reduceOption := by
  induction h with
  | nil => exact sourced_nil
  | cons hm _ ih =>
    cases hm with
    | field hf hread =>
      rw [List.reduceOption_cons_of_some]
      exact ih.cons hf hread
    | unknown => exact ih

/-- A field is given something exactly if its key is there. -/
theorem mem_keys_of_taken_iff (h : List.Forall₂ (Taken fs levels) members taken) {f : Field σ}
    (hf : f ∈ fs) : f.key ∈ taken.reduceOption.map Prod.fst ↔
      Key.name (some f.key) ∈ members.map Prod.fst := by
  induction h with
  | nil => simp
  | cons hm _ ih =>
    cases hm with
    | field => simp [ih]
    | @unknown name d hname _ =>
      have hne : f.key ≠ name := by
        rintro rfl
        exact hname (List.mem_map_of_mem hf)
      simp [ih, hne]

/-- The key of a field is found exactly if it is there. -/
theorem mem_found_iff (hkeys : (fs.map Field.key).Nodup) {found : Found σ}
    (h : readMembers false (fs.map fun f => (f.key, f.read levels)) [] members = .ok found)
    {f : Field σ} (hf : f ∈ fs) :
    f.key ∈ found.map Prod.fst ↔ Key.name (some f.key) ∈ members.map Prod.fst := by
  obtain ⟨taken, htaken⟩ := exists_taken h
  have hnodup : ((([] : Found σ)).map Prod.fst).Nodup := .nil
  rw [readMembers_of_taken hkeys htaken hnodup, List.append_nil] at h
  split at h
  · obtain rfl := Except.ok.inj h
    rw [← mem_keys_of_taken_iff htaken hf]
    simp
  · cases h

end

/-! ## Putting a record together -/

namespace Found

/-- What was found under a key, done to a record. -/
def apply (found : Found σ) (s : σ) (key : String) : σ :=
  match found.lookup key with
  | some change => change s
  | none => s

theorem foldl_apply_congr {found found' : Found σ} : ∀ {keys : List String},
    (∀ key ∈ keys, found.lookup key = found'.lookup key) →
    ∀ s, keys.foldl found.apply s = keys.foldl found'.apply s
  | [], _, _ => rfl
  | key :: keys, h, s => by
    rw [List.forall_mem_cons] at h
    rw [List.foldl_cons, List.foldl_cons, apply, h.1]
    exact foldl_apply_congr h.2 _

/-- A change that gets along with all that was found can be made before or after it. -/
theorem foldl_apply_comm {found : Found σ} {change : σ → σ}
    (h : ∀ e ∈ found, ∀ s, change (e.2 s) = e.2 (change s)) : ∀ (keys : List String) (s : σ),
    change (keys.foldl found.apply s) = keys.foldl found.apply (change s)
  | [], _ => rfl
  | key :: keys, s => by
    rw [List.foldl_cons, List.foldl_cons, foldl_apply_comm h keys]
    congr 1
    unfold apply
    split
    · next change' hchange' => exact h _ (mem_of_lookup hchange') s
    · rfl

end Found

section
variable {r : Record σ α} {found found' : Found σ} {key : String} {change : σ → σ}

theorem assemble_eq (r : Record σ α) (found : Found σ) :
    r.assemble found = r.keys.foldl found.apply r.blank := rfl

theorem build_congr (h : ∀ key, found.lookup key = found'.lookup key) :
    r.build found = r.build found' := by
  have hassemble : r.assemble found = r.assemble found' :=
    Found.foldl_apply_congr (fun key _ => h key) r.blank
  simp only [build, h, hassemble]

/-- **A change of one more field comes after all that was found.** -/
theorem assemble_cons (hkeys : r.keys.Nodup) (hkey : key ∈ r.keys)
    (hcomm : ∀ e ∈ found, ∀ s, change (e.2 s) = e.2 (change s))
    (hnew : key ∉ found.map Prod.fst) :
    r.assemble ((key, change) :: found) = change (r.assemble found) := by
  obtain ⟨front, back, hsplit⟩ := List.append_of_mem hkey
  rw [hsplit, List.nodup_append, List.nodup_cons] at hkeys
  have hother {keys : List String} (h : key ∉ keys) (s : σ) :
      keys.foldl (Found.apply ((key, change) :: found)) s = keys.foldl found.apply s :=
    Found.foldl_apply_congr (fun k hk => lookup_cons_of_ne (ne_of_mem_of_not_mem hk h) _ _) s
  have hnone : found.lookup key = none := lookup_eq_none_iff_not_mem.2 hnew
  have hfront : key ∉ front := fun h => hkeys.2.2 key h key List.mem_cons_self rfl
  have hhere (s : σ) : Found.apply ((key, change) :: found) s key = change s := by
    rw [Found.apply, List.lookup_cons_self]
  have hnothing (s : σ) : found.apply s key = s := by rw [Found.apply, hnone]
  calc r.assemble ((key, change) :: found)
      = back.foldl found.apply (change (front.foldl found.apply r.blank)) := by
        rw [assemble_eq, hsplit, List.foldl_append, List.foldl_cons, hother hfront,
          hother hkeys.2.1.1, hhere]
    _ = change (back.foldl found.apply (front.foldl found.apply r.blank)) :=
        (Found.foldl_apply_comm hcomm back _).symm
    _ = change (r.assemble found) := by
        rw [assemble_eq, hsplit, List.foldl_append, List.foldl_cons, hnothing]

/-- A change that leaves the blank as it is makes no difference. -/
theorem change_assemble (hcomm : ∀ e ∈ found, ∀ s, change (e.2 s) = e.2 (change s))
    (hblank : change r.blank = r.blank) : change (r.assemble found) = r.assemble found := by
  rw [assemble_eq, Found.foldl_apply_comm hcomm, hblank]

end

/-! ## Objects -/

/-- What comes of what the members give. -/
def outcome (r : Record σ α) (taken : List (Option (String × (σ → σ)))) : Except Fault α :=
  if (taken.reduceOption.map Prod.fst).Nodup then r.build taken.reduceOption
  else .error .mismatched

section
variable {r : Record σ α} {levels : Nat} {members members' : List (Key × Document)} {a : α}
  {taken taken' : List (Option (String × (σ → σ)))}

/-- **An object is read as what comes of what its members give.** -/
theorem read_object (hopen : r.closed = false) (hkeys : r.keys.Nodup)
    (h : List.Forall₂ (Taken r.fields levels) members taken) :
    r.read (levels + 1) (.object members none) = r.outcome taken := by
  have hnodup₀ : ((([] : Found σ)).map Prod.fst).Nodup := .nil
  have hread := readMembers_of_taken hkeys h hnodup₀
  have hperm : taken.reduceOption.reverse.Perm taken.reduceOption := List.reverse_perm _
  have hnodup := (hperm.map Prod.fst).nodup_iff
  simp only [List.append_nil, hnodup] at hread
  simp only [read, readObject, hopen, readers, hread, outcome]
  split
  · next h => exact build_congr (lookup_perm hperm (hnodup.2 h))
  · rfl

theorem exists_taken_of_read (hopen : r.closed = false)
    (h : r.read (levels + 1) (.object members none) = .ok a) :
    ∃ taken, List.Forall₂ (Taken r.fields levels) members taken := by
  obtain ⟨found, hfound, -⟩ := of_bind_eq_ok h
  rw [hopen] at hfound
  exact exists_taken hfound

/-- The order in which the members give does not matter. -/
theorem outcome_perm (h : taken.Perm taken') : r.outcome taken = r.outcome taken' := by
  have hperm : taken.reduceOption.Perm taken'.reduceOption := h.filterMap id
  simp only [outcome, (hperm.map Prod.fst).nodup_iff]
  split
  · next hnodup =>
    exact build_congr (lookup_perm hperm ((hperm.map Prod.fst).nodup_iff.2 hnodup))
  · rfl

/-- The members may come in any order. -/
theorem read_object_of_perm (hopen : r.closed = false) (hkeys : r.keys.Nodup)
    (h : List.Forall₂ (Taken r.fields levels) members taken) (hperm : members.Perm members') :
    r.read (levels + 1) (.object members' none) = r.outcome taken := by
  obtain ⟨taken', htaken', hperm'⟩ := List.perm_comp_forall₂ hperm.symm h
  rw [read_object hopen hkeys htaken', outcome_perm hperm']

/-- What an object gives that has one more member. -/
theorem read_middle {m : Key × Document} {t : Option (String × (σ → σ))}
    {front back : List (Key × Document)} (hopen : r.closed = false) (hkeys : r.keys.Nodup)
    (hm : Taken r.fields levels m t) (h : List.Forall₂ (Taken r.fields levels) (front ++ back) taken) :
    r.read (levels + 1) (.object (front ++ m :: back) none) = r.outcome (t :: taken) :=
  read_object_of_perm hopen hkeys (.cons hm h) List.perm_middle.symm

theorem exists_taken_middle {m : Key × Document} {front back : List (Key × Document)}
    (hopen : r.closed = false)
    (h : r.read (levels + 1) (.object (front ++ m :: back) none) = .ok a) :
    ∃ t rest, Taken r.fields levels m t ∧
      List.Forall₂ (Taken r.fields levels) (front ++ back) rest := by
  obtain ⟨taken, htaken⟩ := exists_taken_of_read hopen h
  obtain ⟨taken', htaken', -⟩ := List.perm_comp_forall₂ List.perm_middle.symm htaken
  obtain ⟨t, rest, ht, hrest, -⟩ := List.forall₂_cons_left_iff.1 htaken'
  exact ⟨t, rest, ht, hrest⟩

/-- **Neither the order of the members nor any number of unknown ones matters.** -/
theorem read_object_perm {extra : List (Key × Document)} (hopen : r.closed = false)
    (hkeys : r.keys.Nodup) (h : r.read (levels + 1) (.object members none) = .ok a)
    (hextra : ∀ m ∈ extra, Taken r.fields levels m none)
    (hperm : (members ++ extra).Perm members') :
    r.read (levels + 1) (.object members' none) = .ok a := by
  obtain ⟨taken, htaken⟩ := exists_taken_of_read hopen h
  have hnothing : List.Forall₂ (Taken r.fields levels) extra (extra.map fun _ => none) := by
    rw [List.forall₂_map_right_iff, List.forall₂_same]
    exact hextra
  have hgiven : (taken ++ extra.map fun _ => none).reduceOption = taken.reduceOption := by
    simp [List.reduceOption]
  rw [read_object_of_perm hopen hkeys (List.rel_append htaken hnothing) hperm, outcome, hgiven,
    ← outcome, ← read_object hopen hkeys htaken, h]

end

/-! ## Records of settings -/

/-- Every field has a default, from which its written form can be read, and no two fields have to do
    with each other. -/
structure Lenient (r : Record σ σ) : Prop where
  defaulted : r = .defaulted r.blank r.fields
  keys : r.keys.Nodup
  apart : r.fields.Pairwise Field.Apart
  blank : ∀ f ∈ r.fields, ∀ levels, f.Agrees r.blank (levels + 1) (f.write r.blank).document

namespace Lenient

variable {r : Record σ σ} {f : Field σ} {levels : Nat} {d : Document} {change : σ → σ} {a : σ}
  {members front back : List (Key × Document)} {taken : List (Option (String × (σ → σ)))}

theorem closed (h : r.Lenient) : r.closed = false := by rw [h.defaulted]; rfl

theorem outcome_eq_ok_iff (h : r.Lenient) : r.outcome taken = .ok a ↔
    (taken.reduceOption.map Prod.fst).Nodup ∧ r.assemble taken.reduceOption = a := by
  have hbuild (found : Found σ) : r.build found = .ok (r.assemble found) := by
    rw [h.defaulted]
    rfl
  rw [outcome, hbuild]
  split
  · next hnodup => simp [hnodup]
  · next hnodup => simp [hnodup]

/-- The change of one more field gets along with those of the others. -/
theorem comm_of_taken (h : r.Lenient) (htaken : List.Forall₂ (Taken r.fields levels) members taken)
    (hf : f ∈ r.fields) (hread : f.read levels d = .ok change)
    (hnew : f.key ∉ taken.reduceOption.map Prod.fst) :
    ∀ e ∈ taken.reduceOption, ∀ s, change (e.2 s) = e.2 (change s) := by
  intro e he
  obtain ⟨g, hg, hkey, d', hread'⟩ := sourced_of_taken htaken e he
  have hne : f ≠ g := by
    rintro rfl
    exact hnew (hkey ▸ List.mem_map_of_mem he)
  exact h.apart.forall hf hg hne _ _ _ _ _ _ hread hread'

/-- What comes of one more field. -/
theorem outcome_cons (h : r.Lenient) (htaken : List.Forall₂ (Taken r.fields levels) members taken)
    (hf : f ∈ r.fields) (hread : f.read levels d = .ok change)
    (hnew : f.key ∉ taken.reduceOption.map Prod.fst) (ha : r.outcome taken = .ok a) :
    r.outcome (some (f.key, change) :: taken) = .ok (change a) := by
  obtain ⟨hnodup, rfl⟩ := h.outcome_eq_ok_iff.1 ha
  rw [h.outcome_eq_ok_iff, List.reduceOption_cons_of_some]
  exact ⟨List.nodup_cons.2 ⟨hnew, hnodup⟩,
    assemble_cons h.keys (List.mem_map_of_mem hf) (h.comm_of_taken htaken hf hread hnew) hnew⟩

/-- **One more field is read as it is on its own**, and changes what the other members make. -/
theorem read_insert (h : r.Lenient)
    (hread : r.read (levels + 1) (.object (front ++ back) none) = .ok a) (hf : f ∈ r.fields)
    (hnew : Key.name (some f.key) ∉ (front ++ back).map Prod.fst) (d : Document) :
    r.read (levels + 1) (.object (front ++ (.name (some f.key), d) :: back) none)
      = (f.read levels d).map fun change => change a := by
  obtain ⟨taken, htaken⟩ := exists_taken_of_read h.closed hread
  cases hd : f.read levels d with
  | ok change =>
    rw [read_object h.closed h.keys htaken] at hread
    rw [← mem_keys_of_taken_iff htaken hf] at hnew
    rw [read_middle h.closed h.keys (.field hf hd) htaken, h.outcome_cons htaken hf hd hnew hread]
    rfl
  | error e =>
    obtain ⟨found, hfound, -⟩ := of_bind_eq_ok hread
    rw [h.closed, readMembers_append] at hfound
    obtain ⟨found', hfront, -⟩ := of_bind_eq_ok hfound
    have hnone : found'.lookup f.key = none := by
      rw [lookup_eq_none_iff_not_mem, mem_found_iff h.keys hfront hf]
      exact fun hmem => hnew (by simpa using Or.inl hmem)
    have hreader : (r.readers levels).lookup f.key = some (f.read levels) :=
      lookup_readers levels h.keys f hf
    simp only [read, readObject, h.closed, readMembers_append, hfront, bind, Except.bind,
      readMembers_cons hreader hnone, hd]
    rfl

/-- A field that the other members leave at its default may be there or not. -/
theorem read_insert_of_agrees (h : r.Lenient)
    (hread : r.read (levels + 1) (.object (front ++ back) none) = .ok a) (hf : f ∈ r.fields)
    (hnew : Key.name (some f.key) ∉ (front ++ back).map Prod.fst) (hd : f.Agrees r.blank levels d) :
    r.read (levels + 1) (.object (front ++ (.name (some f.key), d) :: back) none) = .ok a := by
  obtain ⟨change, hchange, hblank⟩ := hd
  obtain ⟨taken, htaken⟩ := exists_taken_of_read h.closed hread
  rw [read_object h.closed h.keys htaken] at hread
  obtain ⟨-, rfl⟩ := h.outcome_eq_ok_iff.1 hread
  rw [h.read_insert (by rw [read_object h.closed h.keys htaken, hread]) hf hnew, hchange]
  rw [← mem_keys_of_taken_iff htaken hf] at hnew
  exact congrArg Except.ok (change_assemble (h.comm_of_taken htaken hf hchange hnew) hblank)

/-- **A field that says nothing but the default may be left out.** -/
theorem read_remove_of_agrees (h : r.Lenient)
    (hread : r.read (levels + 1) (.object (front ++ (.name (some f.key), d) :: back) none) = .ok a)
    (hf : f ∈ r.fields) (hd : f.Agrees r.blank levels d) :
    r.read (levels + 1) (.object (front ++ back) none) = .ok a := by
  obtain ⟨change, hchange, hblank⟩ := hd
  obtain ⟨-, rest, -, hrest⟩ := exists_taken_middle h.closed hread
  rw [read_middle h.closed h.keys (.field hf hchange) hrest] at hread
  obtain ⟨hnodup, rfl⟩ := h.outcome_eq_ok_iff.1 hread
  rw [List.reduceOption_cons_of_some] at hnodup ⊢
  obtain ⟨hnew, hnodup⟩ := List.nodup_cons.1 hnodup
  have hcomm := h.comm_of_taken hrest hf hchange hnew
  rw [read_object h.closed h.keys hrest, h.outcome_eq_ok_iff,
    assemble_cons h.keys (List.mem_map_of_mem hf) hcomm hnew, change_assemble hcomm hblank]
  exact ⟨hnodup, rfl⟩

/-- **A field that comes a second time is refused**, wherever it stands and whatever is read for it. -/
theorem read_repeated (h : r.Lenient)
    (hread : r.read (levels + 1) (.object (front ++ back) none) = .ok a) (hf : f ∈ r.fields)
    (hold : Key.name (some f.key) ∈ (front ++ back).map Prod.fst) (hd : f.read levels d = .ok change) :
    r.read (levels + 1) (.object (front ++ (.name (some f.key), d) :: back) none)
      = .error .mismatched := by
  obtain ⟨taken, htaken⟩ := exists_taken_of_read h.closed hread
  rw [← mem_keys_of_taken_iff htaken hf] at hold
  rw [read_middle h.closed h.keys (.field hf hd) htaken, outcome, if_neg]
  exact fun hnodup => (List.nodup_cons.1 hnodup).1 hold

/-- **What a record holds in a field is what is read for it.** -/
theorem read_member {c : Codec β} {get : σ → β} {set : σ → β → σ} {key : String} (h : r.Lenient)
    (hread : r.read (levels + 1) (.object members none) = .ok a)
    (hf : Field.of key c get set ∈ r.fields) (hget : ∀ s b, get (set s b) = b)
    (hmem : (Key.name (some key), d) ∈ members) : c.read levels d = .ok (get a) := by
  obtain ⟨front, back, rfl⟩ := List.append_of_mem hmem
  obtain ⟨t, rest, ht, hrest⟩ := exists_taken_middle h.closed hread
  rw [read_middle h.closed h.keys ht hrest] at hread
  obtain ⟨hnodup, rfl⟩ := h.outcome_eq_ok_iff.1 hread
  cases ht with
  | unknown hname => exact absurd (List.mem_map_of_mem hf) hname
  | @field g _ change hg hchange =>
    have hsame : g = Field.of g.key c get set := List.inj_on_of_nodup_map h.keys hg hf rfl
    have hread' : (Field.of g.key c get set).read levels d = .ok change := hsame ▸ hchange
    obtain ⟨b, hb, rfl⟩ := Field.exists_of_read hread'
    rw [List.reduceOption_cons_of_some] at hnodup ⊢
    have hnew := (List.nodup_cons.1 hnodup).1
    rw [hb, assemble_cons h.keys (List.mem_map_of_mem hg) (h.comm_of_taken hrest hg hchange hnew)
      hnew, hget]

end Lenient

end Record

end Tickscript.Json
