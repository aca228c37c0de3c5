/-
  Readers of documents.

  A reader looks at a tree from the left and stops at the first fault, be it one
  of the text or an objection of its own.  It also has a number of levels: that
  many arrays and objects may lie inside each other where values are read.  What
  is skipped does not count.

  * `Reader.parse` reads a whole text;
  * `Reader.text`, `Reader.bool`, `Reader.integer`, `Reader.float`,
    `Reader.optional` and `Reader.list` read values;
  * `Reader.fix` ties the knot for values that hold values of their own kind;
  * a `Codec` is a reader together with the writer that it undoes, and
    `Codec.parse` and `Codec.print` go from and to a text.
-/
import Tickscript.Json.Document
import Tickscript.Json.Value

namespace Tickscript.Json

/-- Reads a value, given how many containers may lie inside each other. -/
abbrev Reader (α : Type) := (levels : Nat) → Document → Except Fault α

namespace Reader

variable {α β : Type}

/-- The levels that a text may have. -/
def maxLevels : Nat := 127

/-- Reads a whole text, behind which only white space may follow. -/
def parse (r : Reader α) (text : List Char) : Except Fault α := do
  let (d, more) := Document.ofTokens (Token.tokens text)
  let a ← r maxLevels d
  if more then .error .malformed else .ok a

/-! ## Scalars -/

def text : Reader String
  | _, .scalar (.text (some s)) => .ok s
  | _, d => .error d.mismatch

def bool : Reader Bool
  | _, .scalar (.bool b) => .ok b
  | _, d => .error d.mismatch

/-- A null, which stands for `a`. -/
def null (a : α) : Reader α
  | _, .scalar .null => .ok a
  | _, d => .error d.mismatch

/-- A whole number that `decode` accepts. -/
def integer (decode : Int → Option α) : Reader α
  | _, .scalar (.number n) =>
    match n.integer?.bind decode with
    | some a => .ok a
    | none => .error (Scalar.number n).mismatch
  | _, d => .error d.mismatch

/-- Any number, as the nearest double. -/
def float : Reader Binary64
  | _, .scalar (.number n) =>
    match n.float? with
    | some x => .ok x
    | none => .error .malformed
  | _, d => .error d.mismatch

/-! ## Compound values -/

/-- A null or a value. -/
def optional (r : Reader α) : Reader (Option α)
  | _, .scalar .null => .ok none
  | levels, d => (r levels d).map some

/-- An array of values. -/
def list (r : Reader α) : Reader (List α)
  | 0, .array _ _ => .error .malformed
  | levels + 1, .array items fault => do
    let as ← items.mapM (r levels)
    unbroken fault as
  | _, d => .error d.mismatch

/-- `layer` applied `n` times to a reader that refuses everything. -/
def iterate (layer : Reader α → Reader α) : Nat → Reader α
  | 0 => fun _ _ => .error .malformed
  | n + 1 => layer (iterate layer n)

/-- The reader that calls itself for the values inside its own containers.  As each of them takes
    at least one level, there are never more calls inside each other than levels. -/
def fix (layer : Reader α → Reader α) : Reader α :=
  fun levels d => iterate layer (levels + 1) levels d

/-! ### The fixed point -/

/-- At each level, the layer asks for values at lower levels only. -/
def Descends (layer : Reader α → Reader α) : Prop :=
  ∀ r s n, (∀ m, m < n → r m = s m) → layer r n = layer s n

theorem iterate_eq_fix {layer : Reader α → Reader α} (h : Descends layer) {n k : Nat}
    (hk : n < k) : iterate layer k n = fix layer n := by
  induction n using Nat.strongRecOn generalizing k with
  | ind n ih =>
    obtain ⟨k, rfl⟩ : ∃ j, k = j + 1 := ⟨k - 1, by omega⟩
    show layer (iterate layer k) n = layer (iterate layer n) n
    exact h _ _ _ fun m hm => (ih m hm (by omega)).trans (ih m hm hm).symm

theorem fix_eq {layer : Reader α → Reader α} (h : Descends layer) :
    fix layer = layer (fix layer) := by
  funext n
  exact h _ _ _ fun m hm => iterate_eq_fix h hm

theorem list_congr {r s : Reader α} {n : Nat} (h : ∀ m, m < n → r m = s m) :
    list r n = list s n := by
  funext d
  rcases n with _ | n
  · cases d <;> rfl
  · cases d with
    | array items fault => simp only [list, h n (Nat.lt_succ_self n)]
    | _ => rfl

end Reader

/-- The strict reading of a key. -/
def Key.read : Key → Except Fault String
  | name (some s) => .ok s
  | name none => .error .malformed
  | broken f _ => .error f

/-! ## Codecs -/

/-- A kind of value of documents: how it is read and how it is written. -/
structure Codec (α : Type) where
  read : Reader α
  write : α → Json

namespace Codec

variable {α : Type}

/-- The value of a whole text. -/
def parse (c : Codec α) (text : List Char) : Except Fault α := c.read.parse text

/-- The compact text of a value. -/
def print (c : Codec α) (a : α) : List Char := (c.write a).compact

def text : Codec String := ⟨Reader.text, .text⟩

def bool : Codec Bool := ⟨Reader.bool, .bool⟩

def float : Codec Binary64 := ⟨Reader.float, .float⟩

/-- The natural number below `bound` that an integer is, as a word. -/
def below (bound : Nat) (word : Nat → α) (n : Int) : Option α :=
  if 0 ≤ n ∧ n < bound then some (word n.toNat) else none

def uint8 : Codec UInt8 := ⟨Reader.integer (below UInt8.size UInt8.ofNat), fun w => .int w.toNat⟩

def uint32 : Codec UInt32 := ⟨Reader.integer (below UInt32.size UInt32.ofNat), fun w => .int w.toNat⟩

def uint64 : Codec UInt64 := ⟨Reader.integer (below UInt64.size UInt64.ofNat), fun w => .int w.toNat⟩

/-- The signed word that an integer is. -/
def signed (n : Int) : Option Int64 :=
  if Int64.minValue.toInt ≤ n ∧ n ≤ Int64.maxValue.toInt then some (Int64.ofInt n) else none

def int64 : Codec Int64 := ⟨Reader.integer signed, fun w => .int w.toInt⟩

/-- A value or null. -/
def optional (c : Codec α) : Codec (Option α) :=
  ⟨Reader.optional c.read, fun a => match a with | some a => c.write a | none => .null⟩

/-- An array of values. -/
def list (c : Codec α) : Codec (List α) :=
  ⟨Reader.list c.read, fun as => .array (as.map c.write)⟩

end Codec

end Tickscript.Json
