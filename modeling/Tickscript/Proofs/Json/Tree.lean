/-
  The tree of a written value.

  A written value is scanned as its tokens (`Json.tokens`), and these spell its tree
  without a fault (`Json.document`).

  * `Json.scans_compact`, `Json.scans_prettyAt`: the tokens of compact and of pretty
    text, whatever follows it; the white space of the latter leaves no trace;
  * `Json.State.completes_tokens`: the automaton takes them for one complete value,
    inside any containers;
  * `Json.Reader.parse_compact`, `Json.Reader.parse_pretty`: so reading either text is
    reading the tree.
-/
import Tickscript.Json.Reader
import Tickscript.Proofs.Json.Numeral
import Tickscript.Proofs.Json.Text

namespace Tickscript

namespace Json

/-! ## Tokens and trees of values -/

/-- A double as it stands in a document. -/
def Scalar.ofFloat : Binary64 → Scalar
  | .finite negative k => .number (.ofFinite negative k)
  | _ => .null

mutual

/-- The tokens of a value. -/
def tokens : Json → List Token
  | null => [.scalar .null]
  | bool b => [.scalar (.bool b)]
  | int n => [.scalar (.number (.ofInt n))]
  | float x => [.scalar (.ofFloat x)]
  | text s => [.scalar (.text (some s))]
  | array items => .openArray :: [Token.comma].intercalate (itemTokens items) ++ [.closeArray]
  | object members =>
    .openObject :: [Token.comma].intercalate (memberTokens members) ++ [.closeObject]

def itemTokens : List Json → List (List Token)
  | [] => []
  | j :: rest => tokens j :: itemTokens rest

def memberTokens : List (String × Json) → List (List Token)
  | [] => []
  | (key, j) :: rest => (.scalar (.text (some key)) :: .colon :: tokens j) :: memberTokens rest

end

mutual

/-- The tree of a value. -/
def document : Json → Document
  | null => .scalar .null
  | bool b => .scalar (.bool b)
  | int n => .scalar (.number (.ofInt n))
  | float x => .scalar (.ofFloat x)
  | text s => .scalar (.text (some s))
  | array items => .array (itemDocuments items) none
  | object members => .object (memberDocuments members) none

def itemDocuments : List Json → List Document
  | [] => []
  | j :: rest => document j :: itemDocuments rest

def memberDocuments : List (String × Json) → List (Key × Document)
  | [] => []
  | (key, j) :: rest => (.name (some key), document j) :: memberDocuments rest

end

/-! ## Scanning -/

theorem tokens_cons {c : Char} (h : isBlank c = false) (cs : List Char) :
    Token.tokens (c :: cs) = (Token.scan c cs).1 :: Token.tokens (Token.scan c cs).2 := by
  rw [Token.tokens, h]
  rfl

theorem tokens_quoted (s : String) (t : List Char) :
    Token.tokens (quoted s ++ t) = .scalar (.text (some s)) :: Token.tokens t := by
  have hq : quoted s ++ t = '"' :: (s.toList.flatMap escape ++ '"' :: t) := by simp [quoted]
  have hscan : Token.scan '"' (s.toList.flatMap escape ++ '"' :: t)
      = Token.ofText (s.toList.flatMap escape ++ '"' :: t) := rfl
  rw [hq, tokens_cons rfl, hscan, ofText_quoted]

/-- A number is scanned where one begins. -/
theorem tokens_of_numeral {c : Char} (hc : Integer.Numeral c) (cs : List Char) :
    Token.tokens (c :: cs)
      = (Token.ofNumber (c :: cs)).1 :: Token.tokens (Token.ofNumber (c :: cs)).2 := by
  have hblank : isBlank c = false := by
    rw [Bool.eq_false_iff]
    intro hb
    simp only [isBlank, Bool.or_eq_true, beq_iff_eq] at hb
    rcases hb with ((rfl | rfl) | rfl) | rfl <;> exact absurd hc (by decide)
  have hscan : Token.scan c cs = Token.ofNumber (c :: cs) := by
    unfold Token.scan
    split <;> first | exact absurd hc (by decide) | skip
    rw [if_pos (by simpa [Integer.Numeral] using hc)]
  rw [tokens_cons hblank, hscan]

theorem tokens_number {c : Char} {cs t : List Char} {n : Numeral} (hc : Integer.Numeral c)
    (h : numeral (c :: cs) = .ok (n, t)) :
    Token.tokens (c :: cs) = .scalar (.number n) :: Token.tokens t := by
  rw [tokens_of_numeral hc, Token.ofNumber, h]

theorem tokens_decimal (n : Int) {rest : List Char} (h : Stops rest) :
    Token.tokens (Integer.decimal n ++ rest)
      = .scalar (.number (.ofInt n)) :: Token.tokens rest := by
  have hscan := numeral_decimal n h
  cases hd : Integer.decimal n with
  | nil => exact absurd (List.append_eq_nil_iff.1 hd).2 Nat.toDigits_ne_nil
  | cons c cs =>
    rw [hd] at hscan
    exact tokens_number (Integer.numeral_of_mem_decimal (hd ▸ List.mem_cons_self)) hscan

theorem tokens_json (x : Binary64) {rest : List Char} (h : Stops rest) :
    Token.tokens (x.json ++ rest) = .scalar (.ofFloat x) :: Token.tokens rest := by
  have hnull : Token.tokens ("null".toList ++ rest) = .scalar .null :: Token.tokens rest :=
    tokens_cons rfl _
  cases x with
  | nan => exact hnull
  | infinite => exact hnull
  | finite negative k =>
    have hscan := numeral_json negative k h
    obtain ⟨c, cs, hjson, hc⟩ := json_eq_cons negative k
    rw [hjson] at hscan ⊢
    exact tokens_number hc hscan

/-- Whatever follows that cannot belong to a number, the text is scanned as these tokens. -/
def Scans (cs : List Char) (ts : List Token) : Prop :=
  ∀ rest, Stops rest → Token.tokens (cs ++ rest) = ts ++ Token.tokens rest

/-! ### White space -/

/-- Nothing but white space. -/
def Blank (cs : List Char) : Prop := ∀ c ∈ cs, isBlank c

theorem blank_nil : Blank [] := fun _ h => absurd h List.not_mem_nil

theorem blank_newline (level : Nat) : Blank (newline level) := by
  intro c hc
  rcases List.mem_cons.1 hc with rfl | hc
  · rfl
  · rw [List.eq_of_mem_replicate hc]
    rfl

/-- White space is passed over. -/
theorem tokens_blank {ws : List Char} (h : Blank ws) (cs : List Char) :
    Token.tokens (ws ++ cs) = Token.tokens cs := by
  induction ws with
  | nil => rfl
  | cons c ws ih =>
    obtain ⟨hc, hws⟩ := List.forall_mem_cons.1 h
    rw [List.cons_append, Token.tokens, if_pos hc, ih hws]

/-- White space does not belong to a number. -/
theorem Stops.blank_append {ws cs : List Char} (h : Blank ws) (hcs : Stops cs) :
    Stops (ws ++ cs) := by
  cases ws with
  | nil => exact hcs
  | cons c ws =>
    have hc : isBlank c := h c List.mem_cons_self
    simp only [isBlank, Bool.or_eq_true, beq_iff_eq] at hc
    rintro d ⟨⟩
    rcases hc with ((rfl | rfl) | rfl) | rfl <;> decide

/-! ### Containers -/

/-- The characters around the parts of a container, with their tokens. -/
inductive Brackets : Char → Token → Char → Token → Prop where
  | array : Brackets '[' .openArray ']' .closeArray
  | object : Brackets '\x7b' .openObject '\x7d' .closeObject

section
variable {o c : Char} {t u : Token} {between after : List Char}

theorem Brackets.tokens_open (h : Brackets o t c u) (rest : List Char) :
    Token.tokens (o :: rest) = t :: Token.tokens rest := by
  cases h with
  | array => exact tokens_cons rfl rest
  | object => exact tokens_cons rfl rest

theorem Brackets.tokens_close (h : Brackets o t c u) (rest : List Char) :
    Stops (c :: rest) ∧ Token.tokens (c :: rest) = u :: Token.tokens rest := by
  cases h with
  | array => exact ⟨by rintro d ⟨⟩; decide, tokens_cons rfl rest⟩
  | object => exact ⟨by rintro d ⟨⟩; decide, tokens_cons rfl rest⟩

/-- The parts of a container, up to its end. -/
theorem tokens_intercalate (h : Brackets o t c u) (hbetween : Blank between) (hafter : Blank after)
    (rest : List Char) {parts : List (List Char)} {ts : List (List Token)}
    (hparts : List.Forall₂ Scans parts ts) :
    Token.tokens ((',' :: between).intercalate parts ++ (after ++ c :: rest))
      = [Token.comma].intercalate ts ++ u :: Token.tokens rest := by
  obtain ⟨hstops, hclose⟩ := h.tokens_close rest
  have hend : Token.tokens (after ++ c :: rest) = u :: Token.tokens rest :=
    (tokens_blank hafter _).trans hclose
  induction hparts with
  | nil => exact hend
  | cons hp hrest ih =>
    cases hrest with
    | nil =>
      rw [List.intercalate_singleton, List.intercalate_singleton,
        hp _ (hstops.blank_append hafter), hend]
    | cons hp' hrest =>
      have hcomma : ∀ more, Stops (',' :: more) := by
        rintro more d ⟨⟩
        decide
      rw [List.intercalate_cons_cons, List.intercalate_cons_cons]
      simp only [List.append_assoc, List.cons_append, List.nil_append]
      rw [hp _ (hcomma _), tokens_cons rfl, ← ih]
      exact congrArg (_ ++ Token.comma :: ·) (tokens_blank hbetween _)

/-- **A container is scanned if its parts are**, with any white space around them. -/
theorem scans_container (h : Brackets o t c u) {before : List Char} (hbefore : Blank before)
    (hbetween : Blank between) (hafter : Blank after) {parts : List (List Char)}
    {ts : List (List Token)} (hparts : List.Forall₂ Scans parts ts) :
    Scans (o :: before ++ (',' :: between).intercalate parts ++ after ++ [c])
      (t :: [Token.comma].intercalate ts ++ [u]) := by
  intro rest _
  simp only [List.cons_append, List.append_assoc, List.nil_append]
  rw [h.tokens_open, tokens_blank hbefore, tokens_intercalate h hbetween hafter rest hparts]

end

/-! ### Compact text -/

mutual

/-- **Compact text is scanned as the tokens of its value**, up to what follows. -/
theorem scans_compact : ∀ j : Json, Scans j.compact j.tokens
  | null => fun _ _ => tokens_cons rfl _
  | bool true => fun _ _ => tokens_cons rfl _
  | bool false => fun _ _ => tokens_cons rfl _
  | int n => fun _ h => tokens_decimal n h
  | float x => fun _ h => tokens_json x h
  | text s => fun rest _ => tokens_quoted s rest
  | array items => by
    simpa [compact, tokens]
      using scans_container .array blank_nil blank_nil blank_nil (scans_compactItems items)
  | object members => by
    simpa [compact, tokens]
      using scans_container .object blank_nil blank_nil blank_nil (scans_compactMembers members)

theorem scans_compactItems : ∀ items : List Json,
    List.Forall₂ Scans (compactItems items) (itemTokens items)
  | [] => .nil
  | j :: rest => .cons (scans_compact j) (scans_compactItems rest)

theorem scans_compactMembers : ∀ members : List (String × Json),
    List.Forall₂ Scans (compactMembers members) (memberTokens members)
  | [] => .nil
  | (key, j) :: rest => by
    refine .cons (fun more h => ?_) (scans_compactMembers rest)
    rw [List.append_assoc, tokens_quoted, List.cons_append, tokens_cons rfl]
    exact congrArg (_ :: _ :: ·) (scans_compact j more h)

end

/-! ### Pretty text -/

/-- A container with its parts on lines of their own. -/
theorem scans_framed {o c : Char} {t u : Token} (h : Brackets o t c u) (level : Nat)
    {parts : List (List Char)} {ts : List (List Token)} (hparts : List.Forall₂ Scans parts ts) :
    Scans (framed o c level parts) (t :: [Token.comma].intercalate ts ++ [u]) := by
  cases hparts with
  | nil => exact scans_container h blank_nil blank_nil blank_nil .nil
  | cons hp hrest =>
    exact scans_container h (blank_newline (level + 1)) (blank_newline (level + 1))
      (blank_newline level) (.cons hp hrest)

mutual

/-- **Pretty text is scanned as the tokens of its value**, at whatever level it stands. -/
theorem scans_prettyAt : ∀ (level : Nat) (j : Json), Scans (j.prettyAt level) j.tokens
  | _, null => scans_compact null
  | _, bool b => scans_compact (bool b)
  | _, int n => scans_compact (int n)
  | _, float x => scans_compact (float x)
  | _, text s => scans_compact (text s)
  | level, array items => scans_framed .array level (scans_prettyItems (level + 1) items)
  | level, object members => scans_framed .object level (scans_prettyMembers (level + 1) members)

theorem scans_prettyItems : ∀ (level : Nat) (items : List Json),
    List.Forall₂ Scans (prettyItems level items) (itemTokens items)
  | _, [] => .nil
  | level, j :: rest => .cons (scans_prettyAt level j) (scans_prettyItems level rest)

theorem scans_prettyMembers : ∀ (level : Nat) (members : List (String × Json)),
    List.Forall₂ Scans (prettyMembers level members) (memberTokens members)
  | _, [] => .nil
  | level, (key, j) :: rest => by
    refine .cons (fun more h => ?_) (scans_prettyMembers level rest)
    have hblank : Token.tokens (' ' :: (j.prettyAt level ++ more))
        = Token.tokens (j.prettyAt level ++ more) :=
      tokens_blank (by simp [Blank, isBlank] : Blank [' ']) _
    rw [List.append_assoc, tokens_quoted, List.cons_append, tokens_cons rfl]
    exact congrArg (_ :: _ :: ·) (hblank.trans (scans_prettyAt level j more h))

end

/-- Behind a scanned text there may be white space. -/
theorem Scans.tokens_append {cs ws : List Char} {ts : List Token} (h : Scans cs ts)
    (hws : Blank ws) : Token.tokens (cs ++ ws) = ts := by
  have hstops : Stops ws := List.append_nil ws ▸ stops_nil.blank_append hws
  have hblank : Token.tokens ws = [] := by
    rw [← List.append_nil ws, tokens_blank hws, Token.tokens]
  rw [h ws hstops, hblank, List.append_nil]

/-! ## Building -/

namespace State

theorem run_cons {s s' : State} {t : Token} (h : s.next t = some s') (ts : List Token) :
    s.run (t :: ts) = s'.run ts := by
  cases s with
  | done d => cases h
  | _ => rw [run, h]; simp

/-- A value may come next, inside the given containers. -/
inductive Wants : List Frame → State → Prop where
  | value (outer : List Frame) : Wants outer (value outer)
  | firstItem (outer : List Frame) : Wants (.array [] :: outer) (firstItem outer)

theorem Wants.next {outer : List Frame} {s : State} (h : Wants outer s) {t : Token}
    (ht : t ≠ .closeArray) : s.next t = start outer t := by
  cases h with
  | value => rfl
  | firstItem =>
    cases t with
    | closeArray => exact absurd rfl ht
    | _ => rfl

/-- A key may come next, behind the given members and inside the given containers. -/
inductive WantsKey : List (Key × Document) → List Frame → State → Prop where
  | nextKey (members : List (Key × Document)) (outer : List Frame) :
      WantsKey members outer (nextKey members outer)
  | firstKey (outer : List Frame) : WantsKey [] outer (firstKey outer)

theorem WantsKey.next {members : List (Key × Document)} {outer : List Frame} {s : State}
    (h : WantsKey members outer s) (key : Option String) :
    s.next (.scalar (.text key)) = some (colon members (.name key) outer) := by
  cases h <;> rfl

/-- The tokens make up one value. -/
def Completes (ts : List Token) (d : Document) : Prop :=
  ∀ outer s, Wants outer s → ∀ rest, s.run (ts ++ rest) = (deliver d outer).run rest

/-- The tokens make up one member. -/
inductive CompletesMember : List Token → Key × Document → Prop where
  | mk {ts : List Token} {d : Document} (key : Option String) (h : Completes ts d) :
      CompletesMember (.scalar (.text key) :: .colon :: ts) (.name key, d)

theorem completes_scalar (s : Scalar) : Completes [.scalar s] (.scalar s) :=
  fun _ _ hs rest => run_cons (hs.next (by simp)) rest

/-- The items of an array and its end, behind the items that came before. -/
theorem run_items {t : List Token} {d : Document} {ts : List (List Token)} {ds : List Document}
    (h : Completes t d) (hs : List.Forall₂ Completes ts ds) {acc : List Document}
    {outer : List Frame} {s : State} (hw : Wants (.array acc :: outer) s) (rest : List Token) :
    s.run ([Token.comma].intercalate (t :: ts) ++ .closeArray :: rest)
      = (deliver (.array (acc.reverse ++ d :: ds) none) outer).run rest := by
  induction hs generalizing t d acc s with
  | nil =>
    have hclose : (afterItem (d :: acc) outer).next .closeArray
        = some (deliver (.array (d :: acc).reverse none) outer) := rfl
    rw [List.intercalate_singleton, h _ _ hw, deliver, run_cons hclose, List.reverse_cons]
  | cons h' _ ih =>
    have hcomma : (afterItem (d :: acc) outer).next .comma
        = some (value (.array (d :: acc) :: outer)) := rfl
    rw [List.intercalate_cons_cons]
    simp only [List.append_assoc, List.cons_append, List.nil_append]
    rw [h _ _ hw, deliver, run_cons hcomma, ih h' (.value _), List.reverse_cons, List.append_assoc]
    rfl

/-- The members of an object and its end, behind the members that came before. -/
theorem run_members {t : List Token} {m : Key × Document} {ts : List (List Token)}
    {ms : List (Key × Document)} (h : CompletesMember t m)
    (hs : List.Forall₂ CompletesMember ts ms) {acc : List (Key × Document)} {outer : List Frame}
    {s : State} (hw : WantsKey acc outer s) (rest : List Token) :
    s.run ([Token.comma].intercalate (t :: ts) ++ .closeObject :: rest)
      = (deliver (.object (acc.reverse ++ m :: ms) none) outer).run rest := by
  -- a key and its colon leave the automaton in want of a value
  have hmember {t : List Token} {m : Key × Document} (h : CompletesMember t m)
      {acc : List (Key × Document)} {s : State} (hw : WantsKey acc outer s) (rest : List Token) :
      s.run (t ++ rest) = (afterMember (m :: acc) outer).run rest := by
    cases h with
    | mk key h =>
      have hcolon : (colon acc (.name key) outer).next .colon
          = some (value (.member acc (.name key) :: outer)) := rfl
      simp only [List.cons_append]
      rw [run_cons (hw.next key), run_cons hcolon, h _ _ (.value _), deliver]
  induction hs generalizing t m acc s with
  | nil =>
    have hclose : (afterMember (m :: acc) outer).next .closeObject
        = some (deliver (.object (m :: acc).reverse none) outer) := rfl
    rw [List.intercalate_singleton, hmember h hw, run_cons hclose, List.reverse_cons]
  | cons h' _ ih =>
    have hcomma : (afterMember (m :: acc) outer).next .comma
        = some (nextKey (m :: acc) outer) := rfl
    rw [List.intercalate_cons_cons]
    simp only [List.append_assoc, List.cons_append, List.nil_append]
    rw [hmember h hw, run_cons hcomma, ih h' (.nextKey _ _), List.reverse_cons, List.append_assoc]
    rfl

mutual

/-- **The tokens of a value make up its tree.** -/
theorem completes_tokens : ∀ j : Json, Completes j.tokens j.document
  | .null => completes_scalar _
  | .bool _ => completes_scalar _
  | .int _ => completes_scalar _
  | .float _ => completes_scalar _
  | .text _ => completes_scalar _
  | .array [] => fun outer s hs rest => by
    have hclose : (firstItem outer).next .closeArray = some (deliver (.array [] none) outer) := rfl
    exact (run_cons (hs.next (by simp)) _).trans (run_cons hclose rest)
  | .array (j :: items) => fun outer s hs rest => by
    have h := run_items (completes_tokens j) (completes_itemTokens items) (.firstItem outer) rest
    simp only [tokens, document, List.cons_append, List.append_assoc, List.nil_append]
    exact (run_cons (hs.next (by simp)) _).trans h
  | .object [] => fun outer s hs rest => by
    have hclose : (firstKey outer).next .closeObject = some (deliver (.object [] none) outer) := rfl
    exact (run_cons (hs.next (by simp)) _).trans (run_cons hclose rest)
  | .object ((key, j) :: members) => fun outer s hs rest => by
    have h := run_members (.mk (some key) (completes_tokens j)) (completes_memberTokens members)
      (.firstKey outer) rest
    simp only [tokens, document, List.cons_append, List.append_assoc, List.nil_append]
    exact (run_cons (hs.next (by simp)) _).trans h

theorem completes_itemTokens : ∀ items : List Json,
    List.Forall₂ Completes (itemTokens items) (itemDocuments items)
  | [] => .nil
  | j :: rest => .cons (completes_tokens j) (completes_itemTokens rest)

theorem completes_memberTokens : ∀ members : List (String × Json),
    List.Forall₂ CompletesMember (memberTokens members) (memberDocuments members)
  | [] => .nil
  | (key, j) :: rest => .cons (.mk (some key) (completes_tokens j)) (completes_memberTokens rest)

end

end State

/-- The tokens of a value have its tree, and nothing follows it. -/
theorem ofTokens_tokens (j : Json) : Document.ofTokens j.tokens = (j.document, false) := by
  have h := State.completes_tokens j [] _ (.value []) []
  rw [List.append_nil] at h
  rw [Document.ofTokens, h]
  rfl

namespace Reader

variable {α : Type} (r : Reader α)

/-- **Reading a written text is reading the tree of its value**, with white space behind it. -/
theorem parse_of_scans {cs ws : List Char} {j : Json} (h : Scans cs j.tokens) (hws : Blank ws) :
    r.parse (cs ++ ws) = r maxLevels j.document := by
  simp only [parse, h.tokens_append hws, ofTokens_tokens]
  cases r maxLevels j.document <;> rfl

theorem parse_compact (j : Json) : r.parse j.compact = r maxLevels j.document := by
  simpa using r.parse_of_scans (scans_compact j) blank_nil

theorem parse_pretty (j : Json) : r.parse (j.pretty ++ ['\n']) = r maxLevels j.document :=
  r.parse_of_scans (scans_prettyAt 0 j) (by simp [Blank, isBlank])

end Reader

end Json

end Tickscript
