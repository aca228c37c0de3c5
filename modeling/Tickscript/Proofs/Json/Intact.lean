/-
  Trees without faults.

  A fault of a text does not only end the innermost container that it lies in, but all
  containers around that.  So a tree is either intact, which is to say that it can be passed
  over, or it shows at its root that it was cut off.

  * `Spells`: a text is one value with the given tree, and nothing else;
  * `tidy_tokens`: of the tokens of a text, only the last can be faulty;
  * `State.intact_of_next`, `State.run_intact_or_cut`: what one token, and then all of
    them, do to what has been built;
  * `Spells.intact_object`: an object that is closed has nothing faulty in it.
-/
import Tickscript.Proofs.Json.Tree

namespace Tickscript.Json

/-! ## Texts of one value -/

/-- The text is one value with the given tree, and nothing but white space follows it. -/
def Spells (text : List Char) (d : Document) : Prop :=
  Document.ofTokens (Token.tokens text) = (d, false)

theorem spells_compact (j : Json) : Spells j.compact j.document := by
  have hscans := (scans_compact j).tokens_append blank_nil
  rw [List.append_nil] at hscans
  rw [Spells, hscans, ofTokens_tokens]

theorem Reader.parse_of_spells {α : Type} (r : Reader α) {text : List Char} {d : Document}
    (h : Spells text d) : r.parse text = r maxLevels d := by
  have htree : Document.ofTokens (Token.tokens text) = (d, false) := h
  simp only [Reader.parse, htree]
  cases r maxLevels d <;> rfl

/-! ## Intact trees -/

/-- The value can be passed over. -/
def Document.Intact (d : Document) : Prop := d.skip = .ok ()

/-- The key and the value of a member can be passed over. -/
def MemberIntact (m : Key × Document) : Prop := m.1.skip = .ok () ∧ m.2.Intact

/-- The tree shows at its root that a fault has cut it off. -/
def Document.Cut : Document → Prop
  | absent _ => True
  | scalar s => s.skip ≠ .ok ()
  | array _ fault | object _ fault => fault ≠ none

theorem andThen_eq_ok_iff {x : Except Fault Unit} {y : Except Fault Unit} :
    (x >>= fun _ => y) = .ok () ↔ x = .ok () ∧ y = .ok () := by
  cases x with
  | error f => exact ⟨nofun, fun h => nomatch h.1⟩
  | ok => exact ⟨fun h => ⟨rfl, h⟩, fun h => h.2⟩

theorem skipItems_eq_ok_iff {items : List Document} :
    Document.skipItems items = .ok () ↔ ∀ d ∈ items, d.Intact := by
  induction items with
  | nil => simp [Document.skipItems]
  | cons d rest ih =>
    rw [Document.skipItems, andThen_eq_ok_iff, ih, List.forall_mem_cons]
    rfl

theorem skipMembers_eq_ok_iff {members : List (Key × Document)} :
    Document.skipMembers members = .ok () ↔ ∀ m ∈ members, MemberIntact m := by
  induction members with
  | nil => simp [Document.skipMembers]
  | cons m rest ih =>
    obtain ⟨key, d⟩ := m
    rw [Document.skipMembers, andThen_eq_ok_iff, andThen_eq_ok_iff, ih, List.forall_mem_cons,
      ← and_assoc]
    rfl

theorem intact_array_iff {items : List Document} :
    (Document.array items none).Intact ↔ ∀ d ∈ items, d.Intact := by
  rw [Document.Intact, Document.skip, andThen_eq_ok_iff, skipItems_eq_ok_iff]
  exact and_iff_left rfl

theorem intact_object_iff {members : List (Key × Document)} :
    (Document.object members none).Intact ↔ ∀ m ∈ members, MemberIntact m := by
  rw [Document.Intact, Document.skip, andThen_eq_ok_iff, skipMembers_eq_ok_iff]
  exact and_iff_left rfl

/-! ## Faulty tokens -/

/-- A token that cannot be passed over. -/
def Token.Faulty : Token → Prop
  | scalar s => s.skip ≠ .ok ()
  | _ => False

/-- No token but the last is faulty. -/
inductive Tidy : List Token → Prop
  | nil : Tidy []
  | last (t : Token) : Tidy [t]
  | cons {t : Token} {ts : List Token} : ¬ t.Faulty → Tidy ts → Tidy (t :: ts)

/-- Behind a faulty token there is no text. -/
theorem Token.scan_of_faulty {c : Char} {cs : List Char} (h : (scan c cs).1.Faulty) :
    (scan c cs).2 = [] := by
  have word (rest : List Char) (meaning : Scalar) (hm : meaning.skip = .ok ())
      (h : (ofWord rest meaning cs).1.Faulty) : (ofWord rest meaning cs).2 = [] := by
    unfold ofWord at h ⊢
    split
    · next hword =>
      rw [hword] at h
      exact absurd hm h
    · rfl
  have text (h : (ofText cs).1.Faulty) : (ofText cs).2 = [] := by
    unfold ofText at h ⊢
    split
    · next htext =>
      rw [htext] at h
      exact absurd rfl h
    · rfl
  have number (ds : List Char) (h : (ofNumber ds).1.Faulty) : (ofNumber ds).2 = [] := by
    unfold ofNumber at h ⊢
    split
    · next hnumber =>
      rw [hnumber] at h
      exact absurd rfl h
    · rfl
  unfold scan at h ⊢
  split at h <;> try exact h.elim
  · exact text h
  · exact word _ _ rfl h
  · exact word _ _ rfl h
  · exact word _ _ rfl h
  · split at h
    · next hc =>
      rw [if_pos hc]
      exact number _ h
    · exact h.elim

theorem tidy_tokens (text : List Char) : Tidy (Token.tokens text) := by
  fun_induction Token.tokens text with
  | case1 => exact .nil
  | case2 c cs _ ih => exact ih
  | case3 c cs _ ih =>
    by_cases h : (Token.scan c cs).1.Faulty
    · rw [Token.scan_of_faulty h, Token.tokens]
      exact .last _
    · exact .cons h ih

/-! ## Building -/

/-- What a container holds so far can be passed over. -/
def Frame.Intact : Frame → Prop
  | array items => ∀ d ∈ items, d.Intact
  | member members key => (∀ m ∈ members, MemberIntact m) ∧ key.skip = .ok ()

namespace State

/-- Whatever has been built can be passed over. -/
def Intact : State → Prop
  | value outer | firstItem outer | firstKey outer => ∀ f ∈ outer, f.Intact
  | afterItem items outer => (∀ d ∈ items, d.Intact) ∧ ∀ f ∈ outer, f.Intact
  | nextKey members outer | afterMember members outer =>
    (∀ m ∈ members, MemberIntact m) ∧ ∀ f ∈ outer, f.Intact
  | colon members key outer =>
    (∀ m ∈ members, MemberIntact m) ∧ key.skip = .ok () ∧ ∀ f ∈ outer, f.Intact
  | done d => d.Intact

/-- The container that may end here, and those around it. -/
inductive Closes : State → Document → List Frame → Prop
  | firstItem (outer : List Frame) : Closes (firstItem outer) (.array [] none) outer
  | afterItem (items : List Document) (outer : List Frame) :
      Closes (afterItem items outer) (.array items.reverse none) outer
  | firstKey (outer : List Frame) : Closes (firstKey outer) (.object [] none) outer
  | afterMember (members : List (Key × Document)) (outer : List Frame) :
      Closes (afterMember members outer) (.object members.reverse none) outer

/-- What a token can do to the automaton. -/
inductive Moves : State → Token → State → Prop
  | value {outer : List Frame} {s s' : State} {t : Token} :
      Wants outer s → start outer t = some s' → Moves s t s'
  | key {members : List (Key × Document)} {outer : List Frame} {s : State} {t : Token} {key : Key} :
      WantsKey members outer s → keyOf t = some key → Moves s t (colon members key outer)
  | colon (members : List (Key × Document)) (key : Key) (outer : List Frame) :
      Moves (colon members key outer) .colon (value (.member members key :: outer))
  | nextItem (items : List Document) (outer : List Frame) :
      Moves (afterItem items outer) .comma (value (.array items :: outer))
  | nextMember (members : List (Key × Document)) (outer : List Frame) :
      Moves (afterMember members outer) .comma (nextKey members outer)
  | close {s : State} {d : Document} {outer : List Frame} {t : Token} :
      Closes s d outer → ¬ t.Faulty → Moves s t (deliver d outer)

theorem moves_of_next {s s' : State} {t : Token} (h : s.next t = some s') : Moves s t s' := by
  fun_cases State.next s t with
  | case1 outer => exact .value (.value outer) h
  | case2 outer => cases h; exact .close (.firstItem outer) id
  | case3 outer =>
    rw [(Wants.firstItem outer).next ‹_›] at h
    exact .value (.firstItem outer) h
  | case4 items outer => cases h; exact .nextItem items outer
  | case5 items outer => cases h; exact .close (.afterItem items outer) id
  | case6 outer => cases h; exact .close (.firstKey outer) id
  | case7 outer =>
    rw [next] at h
    · obtain ⟨key, hkey, rfl⟩ := Option.map_eq_some_iff.1 h
      exact .key (.firstKey outer) hkey
    · assumption
  | case8 members outer =>
    obtain ⟨key, hkey, rfl⟩ := Option.map_eq_some_iff.1 h
    exact .key (.nextKey members outer) hkey
  | case9 members key outer => cases h; exact .colon members key outer
  | case10 members outer => cases h; exact .nextMember members outer
  | case11 members outer => cases h; exact .close (.afterMember members outer) id
  | case12 => rw [next] at h <;> first | cases h | assumption

theorem intact_deliver {d : Document} (hd : d.Intact) : ∀ {outer : List Frame},
    (∀ f ∈ outer, f.Intact) → (deliver d outer).Intact
  | [], _ => hd
  | .array items :: outer, h => by
    rw [List.forall_mem_cons] at h
    exact ⟨List.forall_mem_cons.2 ⟨hd, h.1⟩, h.2⟩
  | .member members key :: outer, h => by
    rw [List.forall_mem_cons] at h
    exact ⟨List.forall_mem_cons.2 ⟨⟨h.1.2, hd⟩, h.1.1⟩, h.2⟩

theorem intact_of_start {outer : List Frame} {t : Token} {s : State} (h : start outer t = some s)
    (ht : ¬ t.Faulty) (houter : ∀ f ∈ outer, f.Intact) : s.Intact := by
  unfold start at h
  split at h <;> cases h
  · have hscalar : Document.Intact (.scalar _) := not_not.1 ht
    exact intact_deliver hscalar houter
  · exact houter
  · exact houter

theorem skip_of_keyOf {t : Token} {key : Key} (h : keyOf t = some key) (ht : ¬ t.Faulty) :
    key.skip = .ok () := by
  unfold keyOf at h
  split at h <;> cases h
  · rfl
  · exact absurd nofun ht

theorem Closes.intact {s : State} {d : Document} {outer : List Frame} (h : Closes s d outer)
    (hs : s.Intact) : d.Intact ∧ ∀ f ∈ outer, f.Intact := by
  cases h with
  | firstItem => exact ⟨rfl, hs⟩
  | afterItem =>
    exact ⟨intact_array_iff.2 fun d hd => hs.1 d (List.mem_reverse.1 hd), hs.2⟩
  | firstKey => exact ⟨rfl, hs⟩
  | afterMember =>
    exact ⟨intact_object_iff.2 fun m hm => hs.1 m (List.mem_reverse.1 hm), hs.2⟩

/-- **A token without a fault leaves what has been built intact.** -/
theorem intact_of_next {s s' : State} {t : Token} (h : s.next t = some s') (ht : ¬ t.Faulty)
    (hs : s.Intact) : s'.Intact := by
  have nothing {α : Type} {p : α → Prop} : ∀ x ∈ ([] : List α), p x :=
    fun _ hx => absurd hx List.not_mem_nil
  cases moves_of_next h with
  | value hwants hstart =>
    cases hwants with
    | value => exact intact_of_start hstart ht hs
    | firstItem => exact intact_of_start hstart ht (List.forall_mem_cons.2 ⟨nothing, hs⟩)
  | key hwants hkey =>
    cases hwants with
    | nextKey => exact ⟨hs.1, skip_of_keyOf hkey ht, hs.2⟩
    | firstKey => exact ⟨nothing, skip_of_keyOf hkey ht, hs⟩
  | colon => exact List.forall_mem_cons.2 ⟨⟨hs.1, hs.2.1⟩, hs.2.2⟩
  | nextItem => exact List.forall_mem_cons.2 hs
  | nextMember => exact hs
  | close hcloses _ => exact intact_deliver (hcloses.intact hs).1 (hcloses.intact hs).2

/-- A fault that cuts off a value cuts off all that is around it. -/
theorem cut_unwind : ∀ {outer : List Frame} {d : Document}, d.Cut → (unwind d outer).Cut
  | [], _, h => h
  | .array items :: _, d, _ =>
    cut_unwind (d := .array (items.reverse ++ [d]) (some .truncated)) nofun
  | .member members key :: _, d, _ =>
    cut_unwind (d := .object (members.reverse ++ [(key, d)]) (some .truncated)) nofun

/-- Where a text ends or goes wrong, the tree is cut off, unless it was complete. -/
theorem cut_halt (f : Fault) {s : State} (h : ∀ d, s ≠ done d) : (s.halt f).Cut := by
  cases s with
  | value => exact cut_unwind trivial
  | done d => exact absurd rfl (h d)
  | _ => exact cut_unwind nofun

/-- A faulty token completes nothing but a tree that it is itself. -/
theorem cut_of_next_faulty {s : State} {t : Token} {d : Document} (ht : t.Faulty)
    (h : s.next t = some (done d)) : d.Cut := by
  have hmoves := moves_of_next h
  generalize hd : done d = s' at hmoves
  cases hmoves with
  | @value outer _ _ _ _ hstart =>
    cases t with
    | scalar x =>
      rcases outer with _ | ⟨_ | _, _⟩ <;> cases hstart <;> cases hd
      exact ht
    | _ => exact ht.elim
  | close _ hfaulty => exact absurd ht hfaulty
  | _ => cases hd

/-- Where the tokens end before the tree is complete, it is cut off. -/
theorem run_nil_intact_or_cut {s : State} (hs : s.Intact) :
    (s.run []).1.Intact ∨ (s.run []).1.Cut := by
  by_cases hdone : ∃ d, s = done d
  · obtain ⟨d, rfl⟩ := hdone
    exact Or.inl hs
  · have hhalt : s.run [] = (s.halt .truncated, false) := by
      rw [run]
      exact fun d hd => hdone ⟨d, hd⟩
    rw [hhalt]
    exact Or.inr (cut_halt _ fun d hd => hdone ⟨d, hd⟩)

/-- A token that may not come cuts the tree off, unless it was complete. -/
theorem run_cons_intact_or_cut {s : State} (hs : s.Intact) {t : Token} {ts : List Token}
    (hnext : ∀ s', s.next t = some s' → (s'.run ts).1.Intact ∨ (s'.run ts).1.Cut) :
    (s.run (t :: ts)).1.Intact ∨ (s.run (t :: ts)).1.Cut := by
  by_cases hdone : ∃ d, s = done d
  · obtain ⟨d, rfl⟩ := hdone
    exact Or.inl hs
  cases hn : s.next t with
  | some s' =>
    rw [run_cons hn]
    exact hnext s' hn
  | none =>
    have hhalt : s.run (t :: ts) = (s.halt .malformed, false) := by
      rw [run, hn]
      exact fun d hd => hdone ⟨d, hd⟩
    rw [hhalt]
    exact Or.inr (cut_halt _ fun d hd => hdone ⟨d, hd⟩)

/-- **The whole tree is intact or cut off**, if what was built before is intact. -/
theorem run_intact_or_cut {ts : List Token} (hts : Tidy ts) : ∀ {s : State}, s.Intact →
    (s.run ts).1.Intact ∨ (s.run ts).1.Cut := by
  induction hts with
  | nil => exact run_nil_intact_or_cut
  | last t =>
    intro s hs
    refine run_cons_intact_or_cut hs fun s' hn => ?_
    by_cases ht : t.Faulty
    · by_cases hdone : ∃ d, s' = done d
      · obtain ⟨d, rfl⟩ := hdone
        exact Or.inr (cut_of_next_faulty ht hn)
      · refine Or.inr ?_
        rw [run]
        · exact cut_halt _ fun d hd => hdone ⟨d, hd⟩
        · exact fun d hd => hdone ⟨d, hd⟩
    · exact run_nil_intact_or_cut (intact_of_next hn ht hs)
  | cons ht _ ih =>
    intro s hs
    exact run_cons_intact_or_cut hs fun s' hn => ih (intact_of_next hn ht hs)

end State

theorem Spells.intact_or_cut {text : List Char} {d : Document} (h : Spells text d) :
    d.Intact ∨ d.Cut := by
  have hrun := State.run_intact_or_cut (tidy_tokens text) (s := .value [])
    fun _ hf => absurd hf List.not_mem_nil
  have hd : ((State.value []).run (Token.tokens text)).1 = d := congrArg Prod.fst h
  rwa [hd] at hrun

/-- **A closed object has nothing faulty in it.** -/
theorem Spells.intact_object {text : List Char} {members : List (Key × Document)}
    (h : Spells text (.object members none)) : ∀ m ∈ members, MemberIntact m :=
  intact_object_iff.1 (h.intact_or_cut.resolve_right fun hcut => hcut rfl)

end Tickscript.Json
