/-
  What can be wrong with a document.
-/
namespace Tickscript.Json

/-- Why a document cannot be read: the text is no JSON document, it ends too early, or the value
    is not of the kind that is wanted where it stands. -/
inductive Fault where
  | malformed
  | truncated
  | mismatched
deriving DecidableEq

end Tickscript.Json
