import EntityRules.Json.Canonical
import EntityRules.Layers
import EntityRules.Query.Filter
import EntityRules.State

/-! Fingerprints of queries: those with the same fingerprint are taken for the same. -/

namespace EntityRules

structure Fingerprint where
  filter : String
  state : String
  /-- The names of the kinds asked for, sorted. -/
  kinds : List String
  options : String
deriving DecidableEq, Repr

namespace Fingerprint

/-- The names of the kinds that a filter asks for, sorted. -/
def kindNames (filter : QueryFilter) : List String :=
  ((filter.entityTypes.getD []).map Vocabulary.name).mergeSort fun a b => decide (a ≤ b)

/-- Writes a filter, if it can be dumped. -/
def filterText (room : Nat) (filter : QueryFilter) : Except Json.PrintTrouble String :=
  if filter.layers ≤ Json.mostLayers then filter.encode.print room else .error .layered

/-- The fingerprint of a query, given how texts are digested and how many levels a text may have
inside each other. All parts of the query need a text. -/
def build (digest : String → String) (room : Nat) (filter : QueryFilter) (state : GameState)
    (options : QueryOptions) : Except Json.PrintTrouble Fingerprint := do
  let filterText ← filterText room filter
  let stateText ← state.encode.print room
  let optionsText ← options.encode.print room
  return {
    filter := digest filterText
    state := digest stateText
    kinds := kindNames filter
    options := digest optionsText }

end Fingerprint

end EntityRules
