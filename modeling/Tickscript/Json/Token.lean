/-
  The tokens of a document.

  Scanning stops at the first token that is faulty in itself, because nothing
  behind it is ever looked at; such a token carries the fault.  Two readers look
  at a token: the one that wants its value, and the one that only passes over it.
  They agree except on what is inside strings and broken numbers, so a broken
  string carries a fault for each of them, and a string whose escapes do not pair
  up is a token without a text.

  * `Token.tokens` is the list of tokens of a text;
  * `Numeral` is a number as written, with its exact decimal value;
  * `pieces` scans the inside of a string and `spell` joins the halves of the
    characters that are written as two escapes.
-/
import Tickscript.Json.Fault
import Tickscript.Binary64.Rounding

namespace Tickscript.Json

/-! ## Numbers -/

/-- A number as written.  It is `whole` if it has neither point nor exponent. -/
structure Numeral where
  negative : Bool
  decimal : Decimal
  whole : Bool

namespace Numeral

/-- The double nearest to the number, unless it is beyond their range. -/
def float? (n : Numeral) : Option Binary64 := Binary64.ofDecimal n.negative n.decimal

/-- The integer that the number spells: it is written whole, it is not a negative zero, and it
    fits a word of 64 bits, signed or not. -/
def integer? (n : Numeral) : Option Int :=
  let value : Int := if n.negative then -n.decimal.coefficient else n.decimal.coefficient
  if n.whole ∧ ¬ (n.negative ∧ value = 0) ∧ Int64.minValue.toInt ≤ value ∧ value < UInt64.size then some value
  else none

end Numeral

/-- What is wrong where `rest` stands and something else is needed. -/
def faultAt (rest : List Char) : Fault := if rest.isEmpty then .truncated else .malformed

/-- A run of at least one digit, and the text behind it. -/
def digitRun (cs : List Char) : Except Fault (List Char × List Char) :=
  match cs.takeWhile Char.isDigit with
  | [] => .error (faultAt cs)
  | run => .ok (run, cs.dropWhile Char.isDigit)

/-- The digits before the point: no zero in front of other digits. -/
def wholePart (cs : List Char) : Except Fault (List Char × List Char) := do
  let (run, rest) ← digitRun cs
  if 1 < run.length ∧ run.head? = some '0' then .error .malformed else .ok (run, rest)

/-- The point and the digits behind it, if there is a point. -/
def fractionPart : List Char → Except Fault (List Char × List Char)
  | '.' :: cs => digitRun cs
  | cs => .ok ([], cs)

/-- The digits of an exponent of the given sign. -/
def exponentDigits (negative : Bool) (cs : List Char) : Except Fault (Int × List Char) := do
  let (run, rest) ← digitRun cs
  let e : Int := Nat.ofDigitChars 10 run 0
  .ok (if negative then -e else e, rest)

/-- An exponent behind its mark. -/
def signedExponent : List Char → Except Fault (Int × List Char)
  | '-' :: cs => exponentDigits true cs
  | '+' :: cs => exponentDigits false cs
  | cs => exponentDigits false cs

/-- The exponent, if there is a mark. -/
def exponentPart : List Char → Except Fault (Option Int × List Char)
  | 'e' :: cs => (signedExponent cs).map fun (e, rest) => (some e, rest)
  | 'E' :: cs => (signedExponent cs).map fun (e, rest) => (some e, rest)
  | cs => .ok (none, cs)

/-- The number after its sign, and the text behind it. -/
def unsignedNumeral (negative : Bool) (cs : List Char) : Except Fault (Numeral × List Char) := do
  let (whole, cs) ← wholePart cs
  let (fraction, cs) ← fractionPart cs
  let (exponent, cs) ← exponentPart cs
  let decimal : Decimal :=
    ⟨Nat.ofDigitChars 10 (whole ++ fraction) 0, exponent.getD 0 - fraction.length⟩
  .ok (⟨negative, decimal, fraction.isEmpty && exponent.isNone⟩, cs)

/-- The number at the head of a text, and the text behind it. -/
def numeral : List Char → Except Fault (Numeral × List Char)
  | '-' :: cs => unsignedNumeral true cs
  | cs => unsignedNumeral false cs

/-! ## Strings -/

/-- A part of a string: a character, or a unit of sixteen bits given by its number. -/
inductive Piece where
  | char (c : Char)
  | unit (n : Nat)

/-- The character of an escape of two characters. -/
def unescape : Char → Option Char
  | '"' => some '"'
  | '\\' => some '\\'
  | '/' => some '/'
  | 'b' => some '\x08'
  | 'f' => some '\x0c'
  | 'n' => some '\n'
  | 'r' => some '\r'
  | 't' => some '\t'
  | _ => none

/-- The value of a hexadecimal digit. -/
def hexDigit (c : Char) : Option Nat :=
  if c.isDigit then some (c.toNat - '0'.toNat)
  else if 'a' ≤ c ∧ c ≤ 'f' then some (c.toNat - 'a'.toNat + 10)
  else if 'A' ≤ c ∧ c ≤ 'F' then some (c.toNat - 'A'.toNat + 10)
  else none

/-- The number that four hexadecimal digits spell. -/
def hexUnit (a b c d : Char) : Option Nat := do
  return (((← hexDigit a) * 16 + (← hexDigit b)) * 16 + (← hexDigit c)) * 16 + (← hexDigit d)

/-- What is wrong with an escape by number in front of `rest`: the text has to go on for at least
    four bytes before the digits are looked at. -/
def hexFault (rest : List Char) : Fault :=
  if (rest.map Char.utf8Size).foldr (· + ·) 0 < 4 then .truncated else .malformed

/-- The parts of a string up to its closing quote, and the text behind that; or the parts up to a
    fault. -/
def pieces : List Char → List Piece × Except Fault (List Char)
  | [] => ([], .error .truncated)
  | '"' :: rest => ([], .ok rest)
  | '\\' :: 'u' :: a :: b :: c :: d :: rest =>
    match hexUnit a b c d with
    | some n => let (ps, close) := pieces rest; (.unit n :: ps, close)
    | none => ([], .error (hexFault (a :: b :: c :: d :: rest)))
  | '\\' :: 'u' :: rest => ([], .error (hexFault rest))
  | '\\' :: c :: rest =>
    match unescape c with
    | some c => let (ps, close) := pieces rest; (.char c :: ps, close)
    | none => ([], .error .malformed)
  | ['\\'] => ([], .error .truncated)
  | c :: rest =>
    if c < ' ' then ([], .error .malformed)
    else let (ps, close) := pieces rest; (.char c :: ps, close)

/-- The first half of a character that takes two units. -/
def isLeading (n : Nat) : Bool := 0xD800 ≤ n && n < 0xDC00

/-- The second half of a character that takes two units. -/
def isTrailing (n : Nat) : Bool := 0xDC00 ≤ n && n < 0xE000

/-- The character whose two halves are given. -/
def joined (leading trailing : Nat) : Char :=
  Char.ofNat (0x10000 + (leading - 0xD800) * 0x400 + (trailing - 0xDC00))

/-- The characters that the parts of a string spell, unless a half stands alone. -/
def spell : List Piece → Option (List Char)
  | [] => some []
  | .char c :: rest => (spell rest).map (c :: ·)
  | .unit n :: rest =>
    if isLeading n then
      match rest with
      | .unit m :: rest => if isTrailing m then (spell rest).map (joined n m :: ·) else none
      | _ => none
    else if isTrailing n then none
    else (spell rest).map (Char.ofNat n :: ·)

/-- The parts without a first half at their very end, whose other half may yet come. -/
def settled (ps : List Piece) : List Piece :=
  match ps.getLast? with
  | some (.unit n) => if isLeading n then ps.dropLast else ps
  | _ => ps

/-! ## Tokens -/

/-- A value that is no container.  A text is missing where the halves of characters do not pair
    up; the last three are broken off by a fault. -/
inductive Scalar where
  | null
  | bool (b : Bool)
  | number (n : Numeral)
  | text (s : Option String)
  | brokenWord (f : Fault)
  | brokenNumber (f : Fault)
  | brokenText (read passed : Fault)

inductive Token where
  | openObject
  | closeObject
  | openArray
  | closeArray
  | colon
  | comma
  | scalar (s : Scalar)
  | stray

/-- White space between tokens. -/
def isBlank (c : Char) : Bool := c == ' ' || c == '\t' || c == '\n' || c == '\r'

/-- The text behind a word. -/
def afterWord : List Char → List Char → Except Fault (List Char)
  | [], cs => .ok cs
  | _ :: _, [] => .error .truncated
  | w :: ws, c :: cs => if w = c then afterWord ws cs else .error .malformed

namespace Token

/-- The token that is a word with a meaning. -/
def ofWord (rest : List Char) (meaning : Scalar) (cs : List Char) : Token × List Char :=
  match afterWord rest cs with
  | .ok cs => (.scalar meaning, cs)
  | .error f => (.scalar (.brokenWord f), [])

/-- The token that is a string, scanned from behind its opening quote. -/
def ofText (cs : List Char) : Token × List Char :=
  match pieces cs with
  | (ps, .ok rest) => (.scalar (.text ((spell ps).map String.ofList)), rest)
  | (ps, .error f) =>
    (.scalar (.brokenText (if (spell (settled ps)).isSome then f else .malformed) f), [])

/-- The token that is a number. -/
def ofNumber (cs : List Char) : Token × List Char :=
  match numeral cs with
  | .ok (n, rest) => (.scalar (.number n), rest)
  | .error f => (.scalar (.brokenNumber f), [])

/-- The token that starts with `c`, and the text behind it.  Behind a faulty token there is no
    text. -/
def scan (c : Char) (cs : List Char) : Token × List Char :=
  match c with
  | '\x7b' => (.openObject, cs)
  | '\x7d' => (.closeObject, cs)
  | '[' => (.openArray, cs)
  | ']' => (.closeArray, cs)
  | ':' => (.colon, cs)
  | ',' => (.comma, cs)
  | '"' => ofText cs
  | 'n' => ofWord "ull".toList .null cs
  | 't' => ofWord "rue".toList (.bool true) cs
  | 'f' => ofWord "alse".toList (.bool false) cs
  | _ => if c = '-' ∨ c.isDigit then ofNumber (c :: cs) else (.stray, [])

end Token

/-! ### Scanning leaves less text -/

theorem digitRun_length {cs run rest : List Char} (h : digitRun cs = .ok (run, rest)) :
    rest.length < cs.length := by
  unfold digitRun at h
  split at h
  · cases h
  · rename_i hne
    obtain ⟨rfl, rfl⟩ : cs.takeWhile Char.isDigit = run ∧ cs.dropWhile Char.isDigit = rest := by
      simpa using h
    have key := congrArg List.length (@List.takeWhile_append_dropWhile _ Char.isDigit cs)
    rw [List.length_append] at key
    have pos : 0 < (cs.takeWhile Char.isDigit).length := List.length_pos_iff.2 hne
    omega

theorem wholePart_length {cs run rest : List Char} (h : wholePart cs = .ok (run, rest)) :
    rest.length < cs.length := by
  unfold wholePart at h
  cases hr : digitRun cs with
  | error f => simp [hr, bind, Except.bind] at h
  | ok p =>
    obtain ⟨run', rest'⟩ := p
    simp only [hr, bind, Except.bind] at h
    split at h
    · cases h
    · cases h
      exact digitRun_length hr

theorem fractionPart_length {cs run rest : List Char} (h : fractionPart cs = .ok (run, rest)) :
    rest.length ≤ cs.length := by
  unfold fractionPart at h
  split at h
  · have := digitRun_length h
    simp only [List.length_cons]
    omega
  · cases h
    exact Nat.le_refl _

theorem exponentDigits_length {b : Bool} {cs rest : List Char} {e : Int}
    (h : exponentDigits b cs = .ok (e, rest)) : rest.length < cs.length := by
  unfold exponentDigits at h
  cases hr : digitRun cs with
  | error f => simp [hr, bind, Except.bind] at h
  | ok p =>
    obtain ⟨run', rest'⟩ := p
    simp only [hr, bind, Except.bind, Except.ok.injEq, Prod.mk.injEq] at h
    obtain ⟨-, rfl⟩ := h
    exact digitRun_length hr

theorem signedExponent_length {cs rest : List Char} {e : Int}
    (h : signedExponent cs = .ok (e, rest)) : rest.length < cs.length := by
  unfold signedExponent at h
  split at h
  · have := exponentDigits_length h
    simp only [List.length_cons]
    omega
  · have := exponentDigits_length h
    simp only [List.length_cons]
    omega
  · exact exponentDigits_length h

theorem exponentPart_length {cs rest : List Char} {e : Option Int}
    (h : exponentPart cs = .ok (e, rest)) : rest.length ≤ cs.length := by
  have marked {cs : List Char}
      (h : ((signedExponent cs).map fun (e, rest) => (some e, rest)) = .ok (e, rest)) :
      rest.length < cs.length := by
    cases hs : signedExponent cs with
    | error f => simp [hs, Except.map] at h
    | ok p =>
      obtain ⟨e', rest'⟩ := p
      simp only [hs, Except.map, Except.ok.injEq, Prod.mk.injEq] at h
      obtain ⟨-, rfl⟩ := h
      exact signedExponent_length hs
  unfold exponentPart at h
  split at h
  · have := marked h
    simp only [List.length_cons]
    omega
  · have := marked h
    simp only [List.length_cons]
    omega
  · cases h
    exact Nat.le_refl _

theorem unsignedNumeral_length {b : Bool} {cs rest : List Char} {n : Numeral}
    (h : unsignedNumeral b cs = .ok (n, rest)) : rest.length < cs.length := by
  unfold unsignedNumeral at h
  simp only [bind, Except.bind] at h
  cases hw : wholePart cs with
  | error f => simp [hw] at h
  | ok w =>
    cases hf : fractionPart w.2 with
    | error f => simp [hw, hf] at h
    | ok r =>
      cases he : exponentPart r.2 with
      | error f => simp [hw, hf, he] at h
      | ok e =>
        simp only [hw, hf, he, Except.ok.injEq, Prod.mk.injEq] at h
        obtain ⟨-, rfl⟩ := h
        have := @wholePart_length cs w.1 w.2 hw
        have := @fractionPart_length w.2 r.1 r.2 hf
        have := @exponentPart_length r.2 e.2 e.1 he
        omega

theorem numeral_length {cs rest : List Char} {n : Numeral} (h : numeral cs = .ok (n, rest)) :
    rest.length < cs.length := by
  unfold numeral at h
  split at h
  · have := unsignedNumeral_length h
    simp only [List.length_cons]
    omega
  · exact unsignedNumeral_length h

theorem pieces_length {cs rest : List Char} {ps : List Piece} (h : pieces cs = (ps, .ok rest)) :
    rest.length < cs.length := by
  fun_induction pieces cs generalizing ps with
  | case1 | case4 | case5 | case7 | case8 | case9 => simp at h
  | case2 => grind
  | case3 | case6 | case10 =>
    rename_i ih
    obtain ⟨-, rfl⟩ := Prod.mk.inj h
    have := ih ‹_›
    simp only [List.length_cons]
    omega

theorem afterWord_length {word cs rest : List Char} (h : afterWord word cs = .ok rest) :
    rest.length ≤ cs.length := by
  fun_induction afterWord word cs <;> grind

theorem Token.scan_length (c : Char) (cs : List Char) : (scan c cs).2.length ≤ cs.length := by
  have word (rest : List Char) (meaning : Scalar) :
      (ofWord rest meaning cs).2.length ≤ cs.length := by
    unfold ofWord
    split
    · exact afterWord_length ‹_›
    · simp
  unfold scan
  split <;> try exact Nat.le_refl _
  · unfold ofText
    split
    · exact Nat.le_of_lt (pieces_length ‹_›)
    · simp
  · exact word _ _
  · exact word _ _
  · exact word _ _
  · split
    · unfold ofNumber
      split
      · rename_i h
        have := numeral_length h
        simp only [List.length_cons] at this
        exact Nat.le_of_lt_succ this
      · simp
    · simp

/-- The tokens of a text, up to and with the first faulty one. -/
def Token.tokens : List Char → List Token
  | [] => []
  | c :: cs =>
    if isBlank c then tokens cs
    else (scan c cs).1 :: tokens (scan c cs).2
termination_by cs => cs.length
decreasing_by
  · simp
  · have := scan_length c cs
    simp only [List.length_cons]
    omega

end Tickscript.Json
