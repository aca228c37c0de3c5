/-
  Readers wait for the end of a value.

  Who reads a value that breaks off may find that the text ends too early, or be
  content with what is there, as with the first digits of a number.  It does not find
  any other fault, if it can read the whole value (`Reader.Awaits`).

  * `Codec.awaits_text` and its companions: scalars, optional texts and lists;
  * `Variant.awaits_write`: alternatives;
  * `Record.awaits`: records, if all their fields wait;
  * `Codec.parse_of_isPrefix`: what this means for the text of a container.
-/
import Tickscript.Proofs.Json.Record
import Tickscript.Proofs.Json.Stub

namespace Tickscript.Json

variable {σ α β : Type}

/-- What goes wrong in two steps goes wrong in one of them. -/
theorem of_bind_eq_error {x : Except Fault α} {g : α → Except Fault β} {f : Fault}
    (h : x >>= g = .error f) : x = .error f ∨ ∃ a, x = .ok a ∧ g a = .error f := by
  cases x with
  | error e => exact Or.inl (congrArg Except.error (Except.error.inj h))
  | ok a => exact Or.inr ⟨a, rfl, h⟩

/-! ## Readers -/

namespace Reader

variable {r : Reader α} {j : Json}

/-- If the value can be read, the only fault in a stub of it is that the text ends too early. -/
def Awaits (r : Reader α) (j : Json) : Prop :=
  ∀ levels a d f, r levels j.document = .ok a → Stub j d → r levels d = .error f → f = .truncated

theorem Awaits.map (h : r.Awaits j) (g : α → β) :
    Awaits (fun levels d => (r levels d).map g) j := by
  intro levels b d f hread hstub hfault
  cases hr : r levels j.document with
  | error e => simp [hr, Except.map] at hread
  | ok a =>
    cases hd : r levels d with
    | error e =>
      obtain rfl : e = f := by simpa [hd, Except.map] using hfault
      exact h levels a d e hr hstub hd
    | ok b => simp [hd, Except.map] at hfault

/-- For what holds no container, it is enough to look at the last token. -/
theorem awaits_scalar (hj : j.depth = 0)
    (habsent : ∀ levels, r levels (.absent .truncated) = .error .truncated)
    (h : ∀ levels s, BrokenScalar j s →
      r levels (.scalar s) = .error .truncated ∨ ∃ a, r levels (.scalar s) = .ok a) :
    r.Awaits j := by
  intro levels a d f _ hstub hfault
  cases hstub with
  | absent => exact (Except.error.inj ((habsent levels).symm.trans hfault)).symm
  | scalar hs =>
    rcases h levels _ hs with h | ⟨b, h⟩
    · exact (Except.error.inj (h.symm.trans hfault)).symm
    · cases h.symm.trans hfault
  | array | object => cases hj

/-- An integer that breaks off is nearer to zero, or only a sign. -/
theorem awaits_integer {decode : Int → Option α} {n : Int}
    (h : ∀ m, Toward n m → ∃ a, (integer decode).Recovers (.int m) a) :
    (integer decode).Awaits (.int n) := by
  refine awaits_scalar rfl (fun _ => rfl) fun levels s hs => ?_
  cases hs with
  | int => exact Or.inl rfl
  | @toward _ m hm =>
    obtain ⟨a, ha⟩ := h m hm
    have hread := ha levels
    have hdepth : (Json.int m).depth ≤ levels := Nat.zero_le levels
    rw [if_pos hdepth] at hread
    exact Or.inr ⟨a, hread⟩

theorem mapM_of_brokenItems {levels : Nat} {items : List Json} {ds : List Document}
    (h : ∀ j ∈ items, r.Awaits j) (hds : BrokenItems Stub items ds) : ∀ {as : List α} {f : Fault},
    (itemDocuments items).mapM (r levels) = .ok as → ds.mapM (r levels) = .error f →
    f = .truncated := by
  induction hds with
  | nil =>
    intro as f _ hfault
    cases hfault
  | @cut j d rest hd =>
    intro as f hread hfault
    rw [itemDocuments, List.mapM_cons] at hread
    obtain ⟨a, ha, -⟩ := of_bind_eq_ok hread
    rw [List.mapM_cons] at hfault
    rcases of_bind_eq_error hfault with hfault | ⟨b, -, hfault⟩
    · exact h j List.mem_cons_self levels a d f ha hd hfault
    · cases hfault
  | @cons j rest ds _ ih =>
    intro as f hread hfault
    rw [itemDocuments, List.mapM_cons] at hread
    obtain ⟨a, ha, hread⟩ := of_bind_eq_ok hread
    obtain ⟨bs, hbs, -⟩ := of_bind_eq_ok hread
    rw [List.mapM_cons] at hfault
    rcases of_bind_eq_error hfault with hfault | ⟨b, -, hfault⟩
    · cases ha.symm.trans hfault
    · rcases of_bind_eq_error hfault with hfault | ⟨cs, -, hfault⟩
      · exact ih (fun i hi => h i (List.mem_cons_of_mem j hi)) hbs hfault
      · cases hfault

theorem awaits_list {items : List Json} (h : ∀ j ∈ items, r.Awaits j) :
    (list r).Awaits (.array items) := by
  intro levels as d f hread hstub hfault
  cases levels with
  | zero => cases hread
  | succ levels =>
    cases hstub with
    | absent => exact (Except.error.inj hfault).symm
    | scalar hs => cases hs
    | array hds =>
      obtain ⟨bs, hbs, -⟩ := of_bind_eq_ok hread
      rcases of_bind_eq_error hfault with hfault | ⟨cs, -, hfault⟩
      · exact mapM_of_brokenItems h hds hbs hfault
      · exact (Except.error.inj hfault).symm

end Reader

/-! ## Alternatives -/

namespace Variant

variable {cases : List (Case α)} {tag : String}

theorem awaits_tag : (read cases).Awaits (.text tag) := by
  refine Reader.awaits_scalar rfl (fun _ => by simp only [read]) fun levels s hs => ?_
  cases hs
  exact Or.inl (by simp only [read])

theorem awaits_write {r : Reader α} {j : Json} (h : bodyOf cases tag = some (.content r))
    (hr : r.Awaits j) : (read cases).Awaits (write tag j) := by
  intro levels a d f hread hstub hfault
  cases levels with
  | zero => cases hread
  | succ levels =>
    -- one member is read like its content, up to what comes behind it
    have hmember (d : Document) (fault : Option Fault) :
        readMember cases levels [(.name (some tag), d)] fault
          = (r levels d).bind fun a => unbroken fault a := by
      simp only [readMember, Key.read, bind, Except.bind, h, Body.read, List.isEmpty_nil, if_true]
    cases hstub with
    | absent => exact (Except.error.inj hfault).symm
    | scalar hs => cases hs
    | object hds =>
      have hread : readMember cases levels [(.name (some tag), j.document)] none = .ok a := hread
      rw [hmember] at hread
      obtain ⟨b, hb, -⟩ := of_bind_eq_ok hread
      cases hds with
      | nil => exact (Except.error.inj hfault).symm
      | key => exact (Except.error.inj hfault).symm
      | @cut _ _ d _ hd =>
        have hfault : readMember cases levels [(.name (some tag), d)] (some .truncated) = .error f :=
          hfault
        rw [hmember] at hfault
        rcases of_bind_eq_error hfault with hfault | ⟨_, -, hfault⟩
        · exact hr levels b d f hb hd hfault
        · exact (Except.error.inj hfault).symm
      | @cons _ _ _ ds hds =>
        cases hds
        have hfault : readMember cases levels [(.name (some tag), j.document)] (some .truncated)
            = .error f := hfault
        rw [hmember, hb] at hfault
        exact (Except.error.inj hfault).symm

end Variant

/-! ## Records -/

namespace Record

variable {r : Record σ α}

/-- A member that is read is the first with its key. -/
theorem lookup_eq_none_of_readMembers {closed : Bool} {key : String}
    {reader : Document → Except Fault (σ → σ)}
    {readers : List (String × (Document → Except Fault (σ → σ)))} {found found' : Found σ}
    {d : Document} {rest : List (Key × Document)} (hreader : readers.lookup key = some reader)
    (h : readMembers closed readers found ((.name (some key), d) :: rest) = .ok found') :
    found.lookup key = none := by
  by_contra hold
  have hsome : (found.lookup key).isSome := Option.isSome_iff_ne_none.2 hold
  simp [readMembers, Key.read, bind, Except.bind, hreader, hsome] at h

/-- The reader of each key waits. -/
def KeysAwait (readers : List (String × (Document → Except Fault (σ → σ))))
    (members : List (String × Json)) : Prop :=
  ∀ m ∈ members, ∃ reader, readers.lookup m.1 = some reader ∧ ∀ {set d f},
    reader m.2.document = .ok set → Stub m.2 d → reader d = .error f → f = .truncated

theorem readMembers_of_brokenMembers {closed : Bool}
    {readers : List (String × (Document → Except Fault (σ → σ)))} {members : List (String × Json)}
    {ds : List (Key × Document)} (hreaders : KeysAwait readers members)
    (hds : BrokenMembers Stub members ds) : ∀ {found found' : Found σ} {f : Fault},
    readMembers closed readers found (memberDocuments members) = .ok found' →
    readMembers closed readers found ds = .error f → f = .truncated := by
  induction hds with
  | nil =>
    intro found found' f _ hfault
    cases hfault
  | key =>
    intro found found' f _ hfault
    exact (Except.error.inj hfault).symm
  | @cut key j d rest hd =>
    intro found found' f hread hfault
    obtain ⟨reader, hreader, hawaits⟩ := hreaders (key, j) List.mem_cons_self
    have hnew := lookup_eq_none_of_readMembers hreader hread
    rw [memberDocuments, readMembers_cons hreader hnew] at hread
    obtain ⟨set, hset, -⟩ := of_bind_eq_ok hread
    rw [readMembers_cons hreader hnew] at hfault
    rcases of_bind_eq_error hfault with hfault | ⟨set', -, hfault⟩
    · exact hawaits hset hd hfault
    · cases hfault
  | @cons key j rest ds _ ih =>
    intro found found' f hread hfault
    obtain ⟨reader, hreader, -⟩ := hreaders (key, j) List.mem_cons_self
    have hnew := lookup_eq_none_of_readMembers hreader hread
    rw [memberDocuments, readMembers_cons hreader hnew] at hread
    obtain ⟨set, hset, hread⟩ := of_bind_eq_ok hread
    rw [readMembers_cons hreader hnew] at hfault
    rcases of_bind_eq_error hfault with hfault | ⟨set', hset', hfault⟩
    · cases hset.symm.trans hfault
    · obtain rfl : set = set' := Except.ok.inj (hset.symm.trans hset')
      exact ih (fun m hm => hreaders m (List.mem_cons_of_mem _ hm)) hread hfault

/-- **A record waits if all its fields do.** -/
theorem awaits {a : α} (hkeys : r.keys.Nodup)
    (h : ∀ f ∈ r.fields, f.read.Awaits (f.write (r.parts a))) :
    r.codec.read.Awaits (r.codec.write a) := by
  intro levels b d f hread hstub hfault
  cases levels with
  | zero => cases hread
  | succ levels =>
    cases hstub with
    | absent => exact (Except.error.inj hfault).symm
    | scalar hs => cases hs
    | object hds =>
      obtain ⟨found, hfound, -⟩ := of_bind_eq_ok hread
      rcases of_bind_eq_error hfault with hfault | ⟨found', -, hfault⟩
      · refine readMembers_of_brokenMembers (fun m hm => ?_) hds hfound hfault
        obtain ⟨g, hg, rfl⟩ := List.mem_map.1 hm
        exact ⟨g.read levels, lookup_readers levels hkeys g hg, fun hread hstub hfault =>
          h g hg levels _ _ _ hread hstub hfault⟩
      · exact (Except.error.inj hfault).symm

end Record

/-! ## Codecs -/

namespace Codec

variable {c : Codec α}

/-- Whatever is written, the reader waits for its end. -/
def Awaits (c : Codec α) : Prop := ∀ a, c.read.Awaits (c.write a)

@[simp] theorem awaits_text : text.Awaits := by
  refine fun s => Reader.awaits_scalar rfl (fun _ => rfl) fun levels s hs => ?_
  cases hs
  exact Or.inl rfl

@[simp] theorem awaits_bool : bool.Awaits := by
  refine fun b => Reader.awaits_scalar rfl (fun _ => rfl) fun levels s hs => ?_
  cases hs
  exact Or.inl rfl

@[simp] theorem awaits_float : float.Awaits := by
  refine fun x => Reader.awaits_scalar rfl (fun _ => rfl) fun levels s hs => ?_
  cases hs with
  | float => exact Or.inl rfl
  | unnumbered => exact Or.inl rfl
  | @within _ n hn =>
    obtain ⟨y, hy⟩ := Option.isSome_iff_exists.1 hn
    exact Or.inr ⟨y, by simp only [float, Reader.float, hy]⟩

/-- Nearer to zero than a natural number below the bound there are only such numbers. -/
theorem awaits_below {bound k : Nat} {word : Nat → α} (hk : k < bound)
    (hbound : bound ≤ UInt64.size) : (Reader.integer (below bound word)).Awaits (.int k) := by
  refine Reader.awaits_integer fun m hm => ?_
  obtain ⟨l, rfl⟩ : ∃ l : Nat, m = l := Int.eq_ofNat_of_zero_le (by rcases hm with h | h <;> omega)
  exact ⟨_, recovers_below word (by rcases hm with h | h <;> omega) hbound⟩

@[simp] theorem awaits_uint8 : uint8.Awaits := fun w => awaits_below w.toNat_lt (by decide)

@[simp] theorem awaits_uint32 : uint32.Awaits := fun w => awaits_below w.toNat_lt (by decide)

@[simp] theorem awaits_uint64 : uint64.Awaits := fun w => awaits_below w.toNat_lt (by decide)

@[simp] theorem awaits_int64 : int64.Awaits := by
  refine fun w => Reader.awaits_integer fun m hm => ?_
  have hmin := w.minValue_le_toInt
  have hmax := w.toInt_lt
  have hsign : Int64.minValue.toInt < 0 := by decide
  have hm' : Int64.minValue.toInt ≤ m ∧ m < 2 ^ 63 := by rcases hm with h | h <;> omega
  have hword : (Int64.ofInt m).toInt = m := Int64.toInt_ofInt_of_le hm'.1 hm'.2
  have hrecovers : (Reader.integer signed).Recovers (.int (Int64.ofInt m).toInt) (Int64.ofInt m) :=
    faithful_int64 _
  rw [hword] at hrecovers
  exact ⟨_, hrecovers⟩

/-- A null breaks off, too. -/
@[simp] theorem awaits_optional_text : (optional text).Awaits := by
  refine fun a => ?_
  cases a with
  | none =>
    refine Reader.awaits_scalar rfl (fun _ => rfl) fun levels s hs => ?_
    cases hs
    exact Or.inl rfl
  | some s =>
    refine Reader.awaits_scalar rfl (fun _ => rfl) fun levels s hs => ?_
    cases hs
    exact Or.inl rfl

@[simp] theorem awaits_list (h : c.Awaits) : (list c).Awaits := by
  refine fun as => Reader.awaits_list fun j hj => ?_
  obtain ⟨a, -, rfl⟩ := List.mem_map.1 hj
  exact h a

end Codec

/-- Whatever is written for the field, its reader waits. -/
def Field.Awaits (f : Field σ) : Prop := ∀ s, f.read.Awaits (f.write s)

@[simp] theorem Field.awaits_of {key : String} {c : Codec β} {get : σ → β} {set : σ → β → σ}
    (h : c.Awaits) : (Field.of key c get set).Awaits :=
  fun s => (h (get s)).map fun b s => set s b

theorem Record.awaits_codec {r : Record σ α} (hkeys : r.keys.Nodup)
    (h : ∀ f ∈ r.fields, f.Awaits) : r.codec.Awaits :=
  fun a => Record.awaits hkeys fun f hf => h f hf (r.parts a)

/-! ## Texts that break off -/

/-- No record is made of a stub. -/
theorem Record.read_ne_ok_of_stub {r : Record σ α} {levels : Nat} {members : List (String × Json)}
    {d : Document} (hd : Stub (.object members) d) (a : α) : r.read levels d ≠ .ok a := by
  intro h
  cases levels <;> cases hd with
  | absent => cases h
  | scalar hs => cases hs
  | object hds =>
    first
    | cases h
    | obtain ⟨_, -, h⟩ := of_bind_eq_ok h
      cases h

/-- No alternative is made of a stub of an object. -/
theorem Variant.read_ne_ok_of_stub {cases : List (Case α)} {levels : Nat}
    {members : List (String × Json)} {d : Document} (hd : Stub (.object members) d) (a : α) :
    Variant.read cases levels d ≠ .ok a := by
  intro h
  cases hd with
  | absent => simp [Variant.read] at h
  | scalar hs => cases hs
  | @object _ ds hds =>
    cases levels with
    | zero => simp [Variant.read] at h
    | succ levels =>
      simp only [Variant.read] at h
      rcases ds with _ | ⟨⟨key, e⟩, rest⟩
      · cases h
      · obtain ⟨tag, -, h⟩ := of_bind_eq_ok h
        cases hbody : Variant.bodyOf cases tag with
        | none => simp [hbody] at h
        | some body =>
          simp only [hbody] at h
          obtain ⟨b, -, h⟩ := of_bind_eq_ok h
          split at h <;> cases h

/-- **Only the whole text is read; where it breaks off, it ends too early and nothing else is wrong
    with it.**  The text is that of an object that can be read. -/
theorem Codec.parse_of_isPrefix {c : Codec α} {a : α} {p : List Char}
    (hawaits : c.read.Awaits (c.write a))
    (hnever : ∀ d b, Stub (c.write a) d → c.read Reader.maxLevels d ≠ .ok b)
    (hparse : c.parse (c.print a) = .ok a) (hp : p <+: c.print a) :
    c.parse p = if p = c.print a then .ok a else .error .truncated := by
  split_ifs with hproper
  · rw [hproper, hparse]
  · obtain ⟨d, hd, hread⟩ := c.read.exists_stub_of_isPrefix hp hproper
    have hwhole : c.read Reader.maxLevels (c.write a).document = .ok a :=
      (c.read.parse_compact (c.write a)).symm.trans hparse
    rw [Codec.parse, hread]
    cases hstub : c.read Reader.maxLevels d with
    | ok b => exact absurd hstub (hnever d b hd)
    | error f => rw [hawaits _ a d f hwhole hd hstub]

end Tickscript.Json
