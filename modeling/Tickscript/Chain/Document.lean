/-
  Chains in documents: an object for each call that holds all that stands on its
  left, down to the root.

  * `Chain.codec` is the form of a chain; the left part of a call is a chain
    again, so its reader is the fixed point of `Chain.layer`.
-/
import Tickscript.Chain.Basic
import Tickscript.Literal.Document

namespace Tickscript

open Json (Codec Reader Record)

def Operator.codec : Codec Operator where
  read := Json.Variant.read [.bare "Pipe" .pipe, .bare "Dot" .dot]
  write
    | .pipe => .text "Pipe"
    | .dot => .text "Dot"

def Call.record : Record Call Call := .complete ⟨"", []⟩ [
  .of "name" .text (·.name) fun c n => { c with name := n },
  .of "args" (.list Literal.codec) (·.args) fun c as => { c with args := as }]

def Call.codec : Codec Call := record.codec

namespace Chain

/-- A call and the object of what stands on its left. -/
def jsonLink (left : Json) (l : Link) : Json :=
  Json.Variant.write "Chain" (.object [
    ("left", left),
    ("operator", Operator.codec.write l.operator),
    ("call", Call.codec.write l.call)])

/-- A chain as nested objects, the last call outermost. -/
def json (c : Chain) : Json :=
  c.links.foldl jsonLink (Json.Variant.write "Identifier" (.text c.root))

/-- A call with what stands on its left. -/
def segment (left : Reader Chain) : Record (Chain × Link) (Chain × Link) :=
  .complete (default, ⟨.pipe, ⟨"", []⟩⟩) [
    .of "left" ⟨left, json⟩ (·.1) fun s c => (c, s.2),
    .of "operator" Operator.codec (·.2.operator) fun s o => (s.1, { s.2 with operator := o }),
    .of "call" Call.codec (·.2.call) fun s c => (s.1, { s.2 with call := c })]

/-- How a chain is read, given how the left part of a call is. -/
def layer (left : Reader Chain) : Reader Chain := Json.Variant.read (
  [.holding "Identifier" Reader.text identifier] ++
    [.holding "Chain" (segment left).read fun s => s.1.append s.2])

def codec : Codec Chain := ⟨Reader.fix layer, json⟩

theorem segment_read_congr {r s : Reader Chain} {n : Nat} (h : ∀ m, m < n → r m = s m) :
    (segment r).read n = (segment s).read n := by
  rcases n with _ | n
  · funext d
    cases d <;> rfl
  · have readers : (segment r).readers n = (segment s).readers n := by
      simp only [Record.readers, segment, Record.complete, List.map_cons, Json.Field.of,
        h n (Nat.lt_succ_self n)]
    funext d
    cases d with
    | array items fault =>
      simp only [Record.read, Record.readArray, readers]
      rfl
    | object members fault =>
      simp only [Record.read, Record.readObject, readers]
      rfl
    | _ => rfl

theorem layer_descends : Reader.Descends layer := fun _ _ _ h =>
  Json.Variant.read_snoc_congr _ "Chain" _ fun _ hm =>
    segment_read_congr fun _ hk => h _ (Nat.lt_trans hk hm)

theorem read_eq_layer : codec.read = layer codec.read := Reader.fix_eq layer_descends

end Chain

end Tickscript
