/-
  The two forms of a record in documents.

  * `Composite` are the records that documents are made of, those of settings and those in
    which every field is required;
  * `Composite.parse_array`: as an array, each of them is read as it is as an object, and
    for want of the last values it takes the defaults or is refused.
-/
import Tickscript.Chain.Document
import Tickscript.Duration
import Tickscript.Proofs.Documents.Settings

namespace Tickscript

open Json

/-- The records that documents are made of, and whether their fields have defaults. -/
inductive Composite : (defaulted : Bool) → {σ α : Type} → Record σ α → Prop
  | settings {σ : Type} {r : Record σ σ} : Settings r → Composite true r
  | segment : Composite false (Chain.segment Chain.codec.read)
  | call : Composite false Call.record
  | based : Composite false Number.based
  | duration : Composite false Duration.parts

namespace Composite

variable {defaulted : Bool} {σ α : Type} {r : Record σ α}

theorem keys (h : Composite defaulted r) : r.keys.Nodup := by
  cases h with
  | settings h => exact h.lenient.keys
  | _ => decide

theorem required (h : Composite false r) : r.required := by
  cases h <;> rfl

/-- **An array is read as the object with the same values under the keys of the fields**, to the same
    value or with the same fault.  Where the array ends too early, fields that have defaults take
    them, as if they were written out; otherwise it is refused, unless a value has been before. -/
theorem parse_array (h : Composite defaulted r) {items : List Document}
    (hlength : items.length ≤ r.fields.length) :
    (∀ levels, r.read levels (.array items none) = r.read levels (.object (r.keyed items) none)) ∧
    (∀ text text', Spells text (.array items none) → Spells text' (.object (r.keyed items) none) →
      r.codec.parse text = r.codec.parse text') ∧
    (∀ levels, defaulted = true → r.read (levels + 2) (.array items none)
      = r.read (levels + 2) (.array (items ++
          (r.fields.drop items.length).map fun f => (f.write r.blank).document) none)) ∧
    ∀ levels, List.Forall₂ (fun f d => ∃ change, f.read levels d = .ok change)
        (r.fields.take items.length) items →
      (defaulted = true → ∃ a, r.read (levels + 1) (.array items none) = .ok a) ∧
      (defaulted = false → items.length < r.fields.length →
        r.read (levels + 1) (.array items none) = .error .mismatched) := by
  have hforms := Record.read_array h.keys hlength
  refine ⟨hforms, ?_, ?_, ?_⟩
  · intro text text' htext htext'
    have hread : r.codec.parse text = r.read Reader.maxLevels (.array items none) :=
      Reader.parse_of_spells _ htext
    have hread' : r.codec.parse text' = r.read Reader.maxLevels (.object (r.keyed items) none) :=
      Reader.parse_of_spells _ htext'
    rw [hread, hread', hforms]
  · rintro levels rfl
    cases h with
    | settings h => exact h.lenient.read_array_missing hlength
  · refine fun levels hitems => ⟨?_, ?_⟩
    · rintro rfl
      cases h with
      | settings h => exact h.lenient.exists_read_array hlength hitems
    · rintro rfl hshort
      exact Record.read_array_missing h.required h.keys hshort hitems

/-- A duration in both forms, and without nanoseconds; and a log handler without a mode. -/
theorem parse_array_duration :
    let duration (j : Json) := Duration.codec.parse j.compact
    let log (j : Json) := Handler.Log.record.codec.parse j.compact
    duration (.array [.int 1, .int 2]) = duration (.object [("secs", .int 1), ("nanos", .int 2)]) ∧
      duration (.array [.int 1]) = .error .mismatched ∧
      log (.array [.text "a"]) = log (.array [.text "a", .int 384]) := by
  intro duration log
  have hparse {σ α : Type} (r : Record σ α) (j : Json) :
      r.codec.parse j.compact = r.read Reader.maxLevels j.document :=
    Reader.parse_of_spells _ (spells_compact j)
  refine ⟨?_, ?_, ?_⟩
  · have hlength : [Json.document (.int 1), Json.document (.int 2)].length
        ≤ Duration.parts.fields.length := by decide
    exact (parse_array .duration hlength).2.1 _ _ (spells_compact _)
      (spells_compact (.object [("secs", .int 1), ("nanos", .int 2)]))
  · have hlength : [Json.document (.int 1)].length ≤ Duration.parts.fields.length := by decide
    have hitems := (parse_array .duration hlength).2.2.2 126 (.cons ⟨_, rfl⟩ .nil)
    exact (hparse Duration.parts (.array [.int 1])).trans (hitems.2 rfl (by decide))
  · have hlength : [Json.document (.text "a")].length ≤ Handler.Log.record.fields.length := by decide
    have hmissing := (parse_array (.settings .log) hlength).2.2.1 125 rfl
    exact (hparse Handler.Log.record (.array [.text "a"])).trans
      (hmissing.trans (hparse Handler.Log.record (.array [.text "a", .int 384])).symm)

end Composite

end Tickscript
