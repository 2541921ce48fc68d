import EntityRules.Entity
import EntityRules.Relationship

/-! Catalogs of the entities that queries choose from. -/

namespace EntityRules

/-- The records stand in the order in which their identifiers first came, and every change of them
is announced by a new revision. -/
structure EntityCatalog where
  /-- The records by identifier. -/
  records : Members (EntityRecord Float) := []
  /-- How often listeners were told of a change. -/
  revision : Nat := 0
  /-- What keeps candidates from being fetched, if anything does. -/
  failure : Option String := none
  /-- The relationships that come to light while candidates are fetched, one each time. -/
  discoveries : List (Relationship Float) := []

namespace EntityCatalog

/-- Stores a record in the place of the one with its identifier, or at the end. -/
def add (c : EntityCatalog) (e : EntityRecord Float) : EntityCatalog :=
  { c with records := Members.put c.records e.id e, revision := c.revision + 1 }

def ofList (es : List (EntityRecord Float)) : EntityCatalog :=
  es.foldl add {}

/-- Removes a record. Whether there was one comes with the catalog. -/
def remove (c : EntityCatalog) (id : String) : Bool × EntityCatalog :=
  if Members.has c.records id then
    (true, { c with records := Members.erase c.records id, revision := c.revision + 1 })
  else (false, c)

def get? (c : EntityCatalog) (id : String) : Option (EntityRecord Float) :=
  Members.get? c.records id

def size (c : EntityCatalog) : Nat := c.records.length

/-- The records of a kind, or all. -/
def ofKind (c : EntityCatalog) (kind : Option EntityKind) : List (EntityRecord Float) :=
  let all := c.records.map (·.2)
  match kind with
  | none => all
  | some k => all.filter (·.kind = k)

end EntityCatalog

end EntityRules
