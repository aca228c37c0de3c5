/-
  The tree of a value that breaks off.

  Where the text of a value ends too early, its last token is either incomplete or the
  beginning of a number, and all containers that are open end there.  What is left of
  the tree of the value is a stub of it (`Stub`).

  * `exists_brokenScalar`: the token of a scalar that breaks off;
  * `State.breakable`: the tree of any value that breaks off, by recursion on the value;
  * `Reader.exists_stub_of_isPrefix`: so reading the text of a value that breaks off is
    reading a stub of it.
-/
import Tickscript.Proofs.Json.Tree
import Tickscript.Proofs.Json.Unfinished

namespace Tickscript.Json

/-! ## Strings -/

/-- The three written forms of a character. -/
theorem escape_cases (c : Char) : (∃ l, escape c = ['\\', l]) ∨
    (c < ' ' ∧ escape c = '\\' :: 'u' :: (Nat.toDigits 16 c.toNat).leftpad 4 '0') ∨
    escape c = [c] := by
  unfold escape
  split_ifs with _ _ _ _ _ _ _ hc <;> first
    | exact Or.inl ⟨_, rfl⟩
    | exact Or.inr (Or.inl ⟨hc, rfl⟩)
    | exact Or.inr (Or.inr rfl)

theorem pieces_hex_short : ∀ {rest : List Char}, rest.length < 4 →
    pieces ('\\' :: 'u' :: rest) = ([], .error (hexFault rest))
  | [], _ | [_], _ | [_, _], _ | [_, _, _], _ => rfl
  | _ :: _ :: _ :: _ :: _, h => absurd h (by simp only [List.length_cons]; omega)

theorem hexFault_take_toDigits : ∀ n < 32, ((Nat.toDigits 16 n).leftpad 4 '0').length = 4 ∧
    ∀ i < 4, hexFault (((Nat.toDigits 16 n).leftpad 4 '0').take i) = .truncated := by decide

/-- An escape that breaks off. -/
theorem pieces_of_prefix_escape {c : Char} {q : List Char} (hq : q <+: escape c)
    (hproper : q ≠ escape c) : pieces q = ([], .error .truncated) := by
  by_cases hempty : q = []
  · rw [hempty]
    rfl
  rcases escape_cases c with ⟨l, hl⟩ | ⟨hc, hl⟩ | hl <;> rw [hl] at hq hproper <;>
    obtain ⟨t, rfl, ht⟩ := (List.prefix_cons_iff.1 hq).resolve_left hempty
  · rcases List.prefix_cons_iff.1 ht with rfl | ⟨u, rfl, hu⟩
    · rfl
    · rw [List.prefix_nil.1 hu] at hproper
      exact absurd rfl hproper
  · rcases List.prefix_cons_iff.1 ht with rfl | ⟨u, rfl, hu⟩
    · rfl
    · obtain ⟨hlength, hfault⟩ := hexFault_take_toDigits c.toNat hc
      have hshort : u.length < 4 := by
        refine Nat.lt_of_le_of_ne (hlength ▸ hu.length_le) fun h => hproper ?_
        rw [hu.eq_of_length (h.trans hlength.symm)]
      rw [pieces_hex_short hshort, List.prefix_iff_eq_take.1 hu, hfault _ hshort]
  · rw [List.prefix_nil.1 ht] at hproper
    exact absurd rfl hproper

/-- A string that breaks off has the parts of some characters. -/
theorem pieces_of_isPrefix {s q : List Char} (hq : q <+: s.flatMap escape) :
    ∃ t : List Char, pieces q = (t.map piece, .error .truncated) := by
  induction s generalizing q with
  | nil =>
    rw [List.prefix_nil.1 hq]
    exact ⟨[], rfl⟩
  | cons c s ih =>
    rw [List.flatMap_cons] at hq
    rcases prefix_append_cases hq with hq | ⟨r, -, rfl, hr⟩
    · by_cases hproper : q = escape c
      · have hescape := pieces_escape c []
        rw [List.append_nil, ← hproper] at hescape
        exact ⟨[c], hescape⟩
      · exact ⟨[], pieces_of_prefix_escape hq hproper⟩
    · obtain ⟨t, ht⟩ := ih hr
      exact ⟨c :: t, by rw [pieces_escape, ht, List.map_cons]⟩

/-- No part of a written string is the first half of a character. -/
theorem settled_map_piece (s : List Char) : settled (s.map piece) = s.map piece := by
  unfold settled
  split
  · next n hlast =>
    have hmem := List.mem_of_getLast? hlast
    obtain ⟨c, -, hc⟩ := List.mem_map.1 hmem
    rw [piece] at hc
    split_ifs at hc with hcontrol
    have hn : c.toNat = n := Piece.unit.inj hc
    have hlt : c.toNat < 32 := hcontrol.1
    have hleading : isLeading n = false := by
      simp only [isLeading, Bool.and_eq_false_imp, decide_eq_true_eq]
      omega
    rw [if_neg (by simp [hleading])]
  · rfl

theorem tokens_prefix_quoted {s : String} {p : List Char} (hp : p <+: quoted s) (hne : p ≠ [])
    (hproper : p ≠ quoted s) : Token.tokens p = [.scalar (.brokenText .truncated .truncated)] := by
  obtain ⟨q, rfl, hq⟩ := (List.prefix_cons_iff.1 hp).resolve_left hne
  have hq := (List.prefix_concat_iff.1 hq).resolve_left fun h => hproper (by rw [h]; rfl)
  obtain ⟨t, ht⟩ := pieces_of_isPrefix hq
  have hscan : Token.scan '"' q = (.scalar (.brokenText .truncated .truncated), []) := by
    show Token.ofText q = _
    simp [Token.ofText, ht, settled_map_piece, spell_map_piece]
  rw [tokens_cons rfl, hscan, Token.tokens]

/-! ## Words -/

theorem afterWord_of_isPrefix {word cs : List Char} (h : cs <+: word) (hproper : cs ≠ word) :
    afterWord word cs = .error .truncated := by
  induction word generalizing cs with
  | nil => exact absurd (List.prefix_nil.1 h) hproper
  | cons w word ih =>
    rcases List.prefix_cons_iff.1 h with rfl | ⟨cs, rfl, hcs⟩
    · rfl
    · rw [afterWord, if_pos rfl]
      exact ih hcs fun h => hproper (by rw [h])

theorem tokens_prefix_word {c : Char} {word p : List Char} {meaning : Scalar}
    (hc : isBlank c = false) (hscan : ∀ cs, Token.scan c cs = Token.ofWord word meaning cs)
    (hp : p <+: c :: word) (hne : p ≠ []) (hproper : p ≠ c :: word) :
    Token.tokens p = [.scalar (.brokenWord .truncated)] := by
  obtain ⟨q, rfl, hq⟩ := (List.prefix_cons_iff.1 hp).resolve_left hne
  have hword : afterWord word q = .error .truncated :=
    afterWord_of_isPrefix hq fun h => hproper (by rw [h])
  rw [tokens_cons hc, hscan, Token.ofWord, hword]
  simp only [Token.tokens]

theorem tokens_prefix_null {p : List Char} (hp : p <+: "null".toList) (hne : p ≠ [])
    (hproper : p ≠ "null".toList) : Token.tokens p = [.scalar (.brokenWord .truncated)] :=
  tokens_prefix_word (c := 'n') rfl (fun _ => rfl) hp hne hproper

/-! ## Scalars -/

/-- What the last token may be where the text of a scalar breaks off. -/
inductive BrokenScalar : Json → Scalar → Prop where
  | null : BrokenScalar .null (.brokenWord .truncated)
  | bool (b : Bool) : BrokenScalar (.bool b) (.brokenWord .truncated)
  | int (n : Int) : BrokenScalar (.int n) (.brokenNumber .truncated)
  | toward {n m : Int} : Toward n m → BrokenScalar (.int n) (.number (.ofInt m))
  | float (x : Binary64) : BrokenScalar (.float x) (.brokenNumber .truncated)
  | within {x : Binary64} {n : Numeral} : n.float?.isSome → BrokenScalar (.float x) (.number n)
  | unnumbered (x : Binary64) : BrokenScalar (.float x) (.brokenWord .truncated)
  | text (s : String) : BrokenScalar (.text s) (.brokenText .truncated .truncated)

/-- What breaks off inside a number is one token. -/
theorem exists_token_of_numeral {p : List Char} (hp : ∀ c ∈ p.head?, Integer.Numeral c)
    (hne : p ≠ []) {P : Numeral → Prop}
    (h : numeral p = .error .truncated ∨ ∃ n, numeral p = .ok (n, []) ∧ P n) :
    Token.tokens p = [.scalar (.brokenNumber .truncated)] ∨
      ∃ n, P n ∧ Token.tokens p = [.scalar (.number n)] := by
  obtain ⟨c, cs, rfl⟩ := List.exists_cons_of_ne_nil hne
  have hc : Integer.Numeral c := hp c rfl
  rcases h with h | ⟨n, h, hn⟩
  · refine Or.inl ?_
    rw [tokens_of_numeral hc, Token.ofNumber, h]
    simp only [Token.tokens]
  · refine Or.inr ⟨n, hn, ?_⟩
    rw [tokens_number hc h, Token.tokens]

/-- **Where the text of a scalar breaks off, it is scanned as one token.** -/
theorem exists_brokenScalar {j : Json} {p : List Char} (hj : j.depth = 0) (hp : p <+: j.compact)
    (hne : p ≠ []) (hproper : p ≠ j.compact) :
    ∃ s, BrokenScalar j s ∧ Token.tokens p = [.scalar s] := by
  cases j with
  | null => exact ⟨_, .null, tokens_prefix_null hp hne hproper⟩
  | bool b =>
    refine ⟨_, .bool b, ?_⟩
    cases b with
    | true => exact tokens_prefix_word (c := 't') rfl (fun _ => rfl) hp hne hproper
    | false => exact tokens_prefix_word (c := 'f') rfl (fun _ => rfl) hp hne hproper
  | text s => exact ⟨_, .text s, tokens_prefix_quoted hp hne hproper⟩
  | int n =>
    have hhead : ∀ c ∈ p.head?, Integer.Numeral c := fun c hc =>
      Integer.numeral_of_mem_decimal (hp.subset (List.mem_of_mem_head? hc))
    have hnumeral : numeral p = .error .truncated ∨
        ∃ k, numeral p = .ok (k, []) ∧ ∃ m, Toward n m ∧ k = .ofInt m := by
      rcases unfinished_decimal hp hne hproper with h | ⟨m, h, hm⟩
      · exact Or.inl h
      · exact Or.inr ⟨_, h, m, hm, rfl⟩
    rcases exists_token_of_numeral hhead hne hnumeral with h | ⟨_, ⟨m, hm, rfl⟩, h⟩
    · exact ⟨_, .int n, h⟩
    · exact ⟨_, .toward hm, h⟩
  | float x =>
    cases x with
    | nan => exact ⟨_, .unnumbered _, tokens_prefix_null hp hne hproper⟩
    | infinite => exact ⟨_, .unnumbered _, tokens_prefix_null hp hne hproper⟩
    | finite negative k =>
      have hhead : ∀ c ∈ p.head?, Integer.Numeral c := by
        obtain ⟨c, cs, hjson, hc⟩ := json_eq_cons negative k
        rw [head?_of_isPrefix hp hne, Json.compact, hjson]
        rintro _ ⟨⟩
        exact hc
      rcases exists_token_of_numeral hhead hne (unfinished_json hp hne hproper) with h | ⟨n, hn, h⟩
      · exact ⟨_, .float _, h⟩
      · exact ⟨_, .within hn, h⟩
  | array | object => cases hj

/-! ## Stubs -/

/-- What is left of items where they break off: some of them, with or without something of the
    next one. -/
inductive BrokenItems (R : Json → Document → Prop) : List Json → List Document → Prop where
  | nil (items : List Json) : BrokenItems R items []
  | cut {j : Json} {d : Document} (rest : List Json) : R j d → BrokenItems R (j :: rest) [d]
  | cons (j : Json) {rest : List Json} {ds : List Document} :
      BrokenItems R rest ds → BrokenItems R (j :: rest) (j.document :: ds)

/-- What is left of members where they break off: some of them, with or without a broken key or
    something of the next one. -/
inductive BrokenMembers (R : Json → Document → Prop) :
    List (String × Json) → List (Key × Document) → Prop where
  | nil (members : List (String × Json)) : BrokenMembers R members []
  | key (m : String × Json) (rest : List (String × Json)) :
      BrokenMembers R (m :: rest) [(.broken .truncated .truncated, .absent .truncated)]
  | cut (key : String) {j : Json} {d : Document} (rest : List (String × Json)) :
      R j d → BrokenMembers R ((key, j) :: rest) [(.name (some key), d)]
  | cons (key : String) (j : Json) {rest : List (String × Json)} {ds : List (Key × Document)} :
      BrokenMembers R rest ds →
      BrokenMembers R ((key, j) :: rest) ((.name (some key), j.document) :: ds)

/-- What is left of the tree of a value where its text breaks off. -/
inductive Stub : Json → Document → Prop where
  | absent (j : Json) : Stub j (.absent .truncated)
  | scalar {j : Json} {s : Scalar} : BrokenScalar j s → Stub j (.scalar s)
  | array {items : List Json} {ds : List Document} :
      BrokenItems Stub items ds → Stub (.array items) (.array ds (some .truncated))
  | object {members : List (String × Json)} {ds : List (Key × Document)} :
      BrokenMembers Stub members ds → Stub (.object members) (.object ds (some .truncated))

namespace State

/-- Where the text ends, one of the given trees stands in the place of the value, and all open
    containers end behind it. -/
def Leaves (cs : List Char) (P : Document → Prop) : Prop :=
  ∀ outer s, Wants outer s → ∃ d, P d ∧ s.run (Token.tokens cs) = (unwind d outer, false)

theorem stops_comma (cs : List Char) : Stops (',' :: cs) := by
  rintro c ⟨⟩
  decide

theorem tokens_comma (cs : List Char) : Token.tokens (',' :: cs) = .comma :: Token.tokens cs :=
  tokens_cons rfl cs

theorem tokens_colon (cs : List Char) : Token.tokens (':' :: cs) = .colon :: Token.tokens cs :=
  tokens_cons rfl cs

theorem run_deliver_nil (d : Document) (outer : List Frame) :
    (deliver d outer).run [] = (unwind d outer, false) := by
  rcases outer with _ | ⟨⟨items⟩ | ⟨members, key⟩, outer⟩
  · rfl
  · simp [deliver, run, halt, unwind]
  · simp [deliver, run, halt, unwind]

theorem leaves_of_tokens {cs : List Char} {P : Document → Prop} {s : Scalar}
    (h : Token.tokens cs = [.scalar s]) (hs : P (.scalar s)) : Leaves cs P := by
  intro outer state hw
  refine ⟨.scalar s, hs, ?_⟩
  rw [h, ← List.append_nil [Token.scalar s], completes_scalar s outer state hw, run_deliver_nil]

/-- A whole value may stand at the end, too. -/
theorem leaves_compact {j : Json} {P : Document → Prop} (hj : P j.document) :
    Leaves j.compact P := by
  intro outer s hw
  have hscan := scans_compact j [] stops_nil
  rw [List.append_nil, Token.tokens] at hscan
  exact ⟨_, hj, by rw [hscan, completes_tokens j outer s hw, run_deliver_nil]⟩

/-- Wherever the text of the value breaks off, there is a stub of it. -/
def Breakable (j : Json) : Prop :=
  ∀ p, p <+: j.compact → p ≠ [] → p ≠ j.compact → Leaves p (Stub j)

section
variable {j : Json} {p : List Char} {outer : List Frame} {s : State}

theorem Breakable.leaves (hj : Breakable j) (hp : p <+: j.compact) (hne : p ≠ []) :
    Leaves p fun d => Stub j d ∨ d = j.document := by
  by_cases hall : p = j.compact
  · exact hall ▸ leaves_compact (Or.inr rfl)
  · intro outer s hw
    obtain ⟨d, hd, hrun⟩ := hj p hp hne hall outer s hw
    exact ⟨d, Or.inl hd, hrun⟩

/-! ### Items -/

/-- Items that break off inside the first one or at its end. -/
theorem exists_brokenItems_first (hj : Breakable j) (rest : List Json) {acc : List Document}
    (hw : Wants (.array acc :: outer) s) (hp : p <+: j.compact) :
    ∃ ds, BrokenItems Stub (j :: rest) ds ∧ s.run (Token.tokens p)
      = (unwind (.array (acc.reverse ++ ds) (some .truncated)) outer, false) := by
  by_cases hne : p = []
  · subst hne
    rw [Token.tokens]
    cases hw with
    | value => exact ⟨_, .cut rest (.absent j), rfl⟩
    | firstItem => exact ⟨[], .nil _, rfl⟩
  · obtain ⟨d, hd, hrun⟩ := hj.leaves hp hne _ _ hw
    refine ⟨[d], ?_, hrun⟩
    rcases hd with hd | rfl
    · exact .cut rest hd
    · exact .cons j (.nil rest)

/-- **What is left of items where they break off.** -/
theorem exists_brokenItems {rest : List Json} (hall : ∀ i ∈ j :: rest, Breakable i)
    {acc : List Document} (hw : Wants (.array acc :: outer) s)
    (hp : p <+: [','].intercalate (compactItems (j :: rest))) :
    ∃ ds, BrokenItems Stub (j :: rest) ds ∧ s.run (Token.tokens p)
      = (unwind (.array (acc.reverse ++ ds) (some .truncated)) outer, false) := by
  induction rest generalizing j p acc s with
  | nil =>
    rw [compactItems, compactItems, List.intercalate_singleton] at hp
    exact exists_brokenItems_first (hall j List.mem_cons_self) [] hw hp
  | cons i rest ih =>
    obtain ⟨hj, hrest⟩ := List.forall_mem_cons.1 hall
    rw [compactItems, compactItems, List.intercalate_cons_cons, ← compactItems,
      List.append_assoc] at hp
    rcases prefix_append_cases hp with hp | ⟨q, hq, rfl, hback⟩
    · exact exists_brokenItems_first hj _ hw hp
    · obtain ⟨t, rfl, ht⟩ := (List.prefix_cons_iff.1 hback).resolve_left hq
      have hcomma : (afterItem (j.document :: acc) outer).next .comma
          = some (value (.array (j.document :: acc) :: outer)) := rfl
      obtain ⟨ds, hds, hrun⟩ := ih hrest (.value (.array (j.document :: acc) :: outer)) ht
      refine ⟨j.document :: ds, .cons j hds, ?_⟩
      rw [scans_compact j _ (stops_comma t), completes_tokens j _ _ hw, tokens_comma, deliver,
        run_cons hcomma, hrun, List.reverse_cons, List.append_assoc]
      rfl

/-! ### Members -/

/-- Members that break off inside the first one or at its end. -/
theorem exists_brokenMembers_first (hj : Breakable j) (key : String) (rest : List (String × Json))
    {acc : List (Key × Document)} (hw : WantsKey acc outer s)
    (hp : p <+: quoted key ++ ':' :: j.compact) :
    ∃ ds, BrokenMembers Stub ((key, j) :: rest) ds ∧ s.run (Token.tokens p)
      = (unwind (.object (acc.reverse ++ ds) (some .truncated)) outer, false) := by
  rcases prefix_append_cases hp with hp | ⟨q, hq, rfl, hback⟩
  · by_cases hne : p = []
    · subst hne
      rw [Token.tokens]
      cases hw with
      | nextKey => exact ⟨_, .key _ _, rfl⟩
      | firstKey => exact ⟨[], .nil _, rfl⟩
    by_cases hall : p = quoted key
    · have hkey := tokens_quoted key []
      rw [List.append_nil, Token.tokens] at hkey
      rw [hall, hkey, run_cons (hw.next (some key))]
      exact ⟨_, .cut key rest (.absent j), rfl⟩
    · rw [tokens_prefix_quoted hp hne hall]
      refine ⟨_, .key _ _, ?_⟩
      cases hw <;> rfl
  · obtain ⟨t, rfl, ht⟩ := (List.prefix_cons_iff.1 hback).resolve_left hq
    have hcolon : (colon acc (.name (some key)) outer).next .colon
        = some (value (.member acc (.name (some key)) :: outer)) := rfl
    rw [tokens_quoted, tokens_colon, run_cons (hw.next (some key)), run_cons hcolon]
    by_cases hne : t = []
    · rw [hne, Token.tokens]
      exact ⟨_, .cut key rest (.absent j), rfl⟩
    · obtain ⟨d, hd, hrun⟩ := hj.leaves ht hne _ _ (.value (.member acc (.name (some key)) :: outer))
      refine ⟨[(.name (some key), d)], ?_, hrun⟩
      rcases hd with hd | rfl
      · exact .cut key rest hd
      · exact .cons key j (.nil rest)

/-- **What is left of members where they break off.** -/
theorem exists_brokenMembers {key : String} {rest : List (String × Json)}
    (hall : ∀ m ∈ (key, j) :: rest, Breakable m.2) {acc : List (Key × Document)}
    (hw : WantsKey acc outer s)
    (hp : p <+: [','].intercalate (compactMembers ((key, j) :: rest))) :
    ∃ ds, BrokenMembers Stub ((key, j) :: rest) ds ∧ s.run (Token.tokens p)
      = (unwind (.object (acc.reverse ++ ds) (some .truncated)) outer, false) := by
  induction rest generalizing key j p acc s with
  | nil =>
    rw [compactMembers, compactMembers, List.intercalate_singleton] at hp
    exact exists_brokenMembers_first (hall (key, j) List.mem_cons_self) key [] hw hp
  | cons m rest ih =>
    obtain ⟨key', i⟩ := m
    obtain ⟨hj, hrest⟩ := List.forall_mem_cons.1 hall
    rw [compactMembers, compactMembers, List.intercalate_cons_cons, ← compactMembers,
      List.append_assoc] at hp
    rcases prefix_append_cases hp with hp | ⟨q, hq, rfl, hback⟩
    · exact exists_brokenMembers_first hj key _ hw hp
    · obtain ⟨t, rfl, ht⟩ := (List.prefix_cons_iff.1 hback).resolve_left hq
      have hcolon : (colon acc (.name (some key)) outer).next .colon
          = some (value (.member acc (.name (some key)) :: outer)) := rfl
      have hcomma : (afterMember ((.name (some key), j.document) :: acc) outer).next .comma
          = some (nextKey ((.name (some key), j.document) :: acc) outer) := rfl
      obtain ⟨ds, hds, hrun⟩ := ih hrest (.nextKey ((.name (some key), j.document) :: acc) outer) ht
      refine ⟨(.name (some key), j.document) :: ds, .cons key j hds, ?_⟩
      rw [List.append_assoc, tokens_quoted, List.cons_append, tokens_colon,
        run_cons (hw.next (some key)), run_cons hcolon, scans_compact j _ (stops_comma t),
        completes_tokens j _ _ (.value _), tokens_comma, deliver, run_cons hcomma, hrun,
        List.reverse_cons, List.append_assoc]
      rfl

/-! ### Values -/

theorem breakable_scalar (hj : j.depth = 0) : Breakable j := by
  intro p hp hne hproper
  obtain ⟨s, hs, htokens⟩ := exists_brokenScalar hj hp hne hproper
  exact leaves_of_tokens htokens (.scalar hs)

/-- What breaks off inside brackets. -/
theorem prefix_brackets {o c : Char} {inner : List Char} (hp : p <+: o :: inner ++ [c])
    (hne : p ≠ []) (hproper : p ≠ o :: inner ++ [c]) : ∃ q, p = o :: q ∧ q <+: inner := by
  obtain ⟨q, rfl, hq⟩ := (List.prefix_cons_iff.1 hp).resolve_left hne
  exact ⟨q, rfl, (List.prefix_concat_iff.1 hq).resolve_left fun h => hproper (by rw [h]; rfl)⟩

theorem breakable_array : ∀ {items : List Json}, (∀ i ∈ items, Breakable i) →
    Breakable (.array items)
  | [], _ => fun p hp hne hproper outer s hw => by
    obtain ⟨q, rfl, hq⟩ := prefix_brackets hp hne hproper
    obtain rfl : q = [] := List.prefix_nil.1 hq
    have hopen : s.next .openArray = some (firstItem outer) := hw.next (by simp)
    refine ⟨_, .array (.nil []), ?_⟩
    rw [Brackets.array.tokens_open, Token.tokens]
    exact run_cons hopen []
  | j :: rest, h => fun p hp hne hproper outer s hw => by
    obtain ⟨q, rfl, hq⟩ := prefix_brackets hp hne hproper
    obtain ⟨ds, hds, hrun⟩ := exists_brokenItems h (.firstItem outer) hq
    refine ⟨_, .array hds, ?_⟩
    rw [Brackets.array.tokens_open]
    exact (run_cons (hw.next (by simp)) _).trans hrun

theorem breakable_object : ∀ {members : List (String × Json)}, (∀ m ∈ members, Breakable m.2) →
    Breakable (.object members)
  | [], _ => fun p hp hne hproper outer s hw => by
    obtain ⟨q, rfl, hq⟩ := prefix_brackets hp hne hproper
    obtain rfl : q = [] := List.prefix_nil.1 hq
    have hopen : s.next .openObject = some (firstKey outer) := hw.next (by simp)
    refine ⟨_, .object (.nil []), ?_⟩
    rw [Brackets.object.tokens_open, Token.tokens]
    exact run_cons hopen []
  | (key, j) :: rest, h => fun p hp hne hproper outer s hw => by
    obtain ⟨q, rfl, hq⟩ := prefix_brackets hp hne hproper
    obtain ⟨ds, hds, hrun⟩ := exists_brokenMembers h (.firstKey outer) hq
    refine ⟨_, .object hds, ?_⟩
    rw [Brackets.object.tokens_open]
    exact (run_cons (hw.next (by simp)) _).trans hrun

end

mutual

/-- **Wherever the text of a value breaks off, there is a stub of it.** -/
theorem breakable : ∀ j : Json, Breakable j
  | .null => breakable_scalar rfl
  | .bool _ => breakable_scalar rfl
  | .int _ => breakable_scalar rfl
  | .float _ => breakable_scalar rfl
  | .text _ => breakable_scalar rfl
  | .array items => breakable_array (breakableItems items)
  | .object members => breakable_object (breakableMembers members)

theorem breakableItems : ∀ (items : List Json), ∀ i ∈ items, Breakable i
  | [] => fun _ h => absurd h List.not_mem_nil
  | j :: rest => List.forall_mem_cons.2 ⟨breakable j, breakableItems rest⟩

theorem breakableMembers : ∀ (members : List (String × Json)), ∀ m ∈ members, Breakable m.2
  | [] => fun _ h => absurd h List.not_mem_nil
  | (_, j) :: rest => List.forall_mem_cons.2 ⟨breakable j, breakableMembers rest⟩

end

end State

/-- The tree of a text that breaks off is a stub, and nothing follows it. -/
theorem exists_stub {j : Json} {p : List Char} (hp : p <+: j.compact) (hproper : p ≠ j.compact) :
    ∃ d, Stub j d ∧ Document.ofTokens (Token.tokens p) = (d, false) := by
  by_cases hne : p = []
  · subst hne
    refine ⟨_, .absent j, ?_⟩
    rw [Token.tokens]
    rfl
  · exact State.breakable j p hp hne hproper [] _ (.value [])

/-- **Reading a text that breaks off is reading a stub.** -/
theorem Reader.exists_stub_of_isPrefix {α : Type} (r : Reader α) {j : Json} {p : List Char}
    (hp : p <+: j.compact) (hproper : p ≠ j.compact) :
    ∃ d, Stub j d ∧ r.parse p = r maxLevels d := by
  obtain ⟨d, hd, htree⟩ := exists_stub hp hproper
  refine ⟨d, hd, ?_⟩
  simp only [parse, htree]
  cases r maxLevels d <;> rfl

end Tickscript.Json
