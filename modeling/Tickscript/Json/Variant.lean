/-
  Alternatives in documents.

  A value of one of several cases is an object with one member, whose key is the
  tag of the case and whose value is the content.  A case without content is
  also written as its tag alone, and its content, if the object is written, is
  null.

  A tag is a key like any other.  If anything but a string stands in its place, the
  text is no document at all: that is malformed, and not a tag of the wrong kind.

  * `Case.bare` and `Case.holding` are the two kinds of cases;
  * `Variant.read` reads a value of the given cases;
  * `Variant.write` is the object with one member.
-/
import Tickscript.Json.Reader

namespace Tickscript.Json

variable {α β : Type}

/-- What belongs to a tag: a value on its own, or a value made from a content. -/
inductive Body (α : Type) where
  | bare (a : α)
  | content (r : Reader α)

/-- One of the cases of `α`. -/
structure Case (α : Type) where
  tag : String
  body : Body α

namespace Case

/-- The case without content. -/
def bare (tag : String) (a : α) : Case α := ⟨tag, .bare a⟩

/-- The case that is made from a content. -/
def holding (tag : String) (r : Reader β) (make : β → α) : Case α :=
  ⟨tag, .content fun levels d => (r levels d).map make⟩

end Case

/-- What stands in a place of the content of a case. -/
def Body.read : Body α → Reader α
  | bare a => Reader.null a
  | content r => r

namespace Variant

/-- The body that belongs to a tag. -/
def bodyOf (cases : List (Case α)) (tag : String) : Option (Body α) :=
  (cases.find? (·.tag == tag)).map Case.body

/-- A tag alone. -/
def readTag (cases : List (Case α)) (tag : String) : Except Fault α :=
  match bodyOf cases tag with
  | some (.bare a) => .ok a
  | _ => .error .mismatched

/-- An object with one member.  A tag that is not known is noticed before its content is looked
    at. -/
def readMember (cases : List (Case α)) (levels : Nat) :
    List (Key × Document) → Option Fault → Except Fault α
  | [], fault => .error (fault.getD .malformed)
  | (key, d) :: rest, fault => do
    let tag ← key.read
    match bodyOf cases tag with
    | some body =>
      let a ← body.read levels d
      if rest.isEmpty then unbroken fault a else .error .malformed
    | none => .error .mismatched

/-- A value of one of the cases. -/
def read (cases : List (Case α)) : Reader α
  | _, .absent f => .error f
  | _, .scalar (.text (some tag)) => readTag cases tag
  | _, .scalar (.brokenText f _) => .error f
  | levels + 1, .object members fault => readMember cases levels members fault
  | _, _ => .error .malformed

/-! ### Contents read alike -/

theorem bodyOf_snoc (cs : List (Case α)) (c : Case α) (tag : String) :
    bodyOf (cs ++ [c]) tag = (bodyOf cs tag).or (if c.tag = tag then some c.body else none) := by
  simp only [bodyOf, List.find?_append, List.find?_cons, List.find?_nil]
  cases cs.find? (·.tag == tag) with
  | some d => rfl
  | none =>
    by_cases h : c.tag = tag
    · simp [h]
    · have hb : (c.tag == tag) = false := by simpa using h
      simp [h, hb]

theorem read_snoc_congr (cs : List (Case α)) (tag : String) {r s : Reader β} (make : β → α) {n : Nat}
    (h : ∀ m, m < n → r m = s m) :
    read (cs ++ [.holding tag r make]) n = read (cs ++ [.holding tag s make]) n := by
  have tags (t : String) :
      readTag (cs ++ [.holding tag r make]) t = readTag (cs ++ [.holding tag s make]) t := by
    simp only [readTag, bodyOf_snoc, Case.holding]
    cases bodyOf cs t with
    | some b => rfl
    | none => by_cases ht : tag = t <;> simp [ht]
  have members (m : Nat) (hm : m < n) (ms : List (Key × Document)) (fault : Option Fault) :
      readMember (cs ++ [.holding tag r make]) m ms fault
        = readMember (cs ++ [.holding tag s make]) m ms fault := by
    rcases ms with _ | ⟨⟨key, d⟩, rest⟩
    · rfl
    · simp only [readMember, bodyOf_snoc, Case.holding]
      congr 1
      funext t
      cases bodyOf cs t with
      | some b => rfl
      | none => by_cases ht : tag = t <;> simp [ht, Body.read, h m hm]
  funext d
  rcases d with f | ⟨⟨⟩ | b | x | (_ | t) | f | f | f⟩ | ⟨items, fault⟩ | ⟨ms, fault⟩ <;> try rfl
  · exact tags t
  · cases n with
    | zero => rfl
    | succ n => exact members n (Nat.lt_succ_self n) ms fault

/-! ## Writing -/

/-- The object with the one member that tag and content make. -/
def write (tag : String) (content : Json) : Json := .object [(tag, content)]

end Variant

end Tickscript.Json
