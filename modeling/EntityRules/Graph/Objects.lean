import EntityRules.Graph.Analysis

/-! The graph as it is kept: its indexes hold edges that are objects and may be shared. -/

namespace EntityRules

/-- An edge as an object: which object it is, and which one holds what is noted of it. -/
structure EdgeObject (ι α : Type) where
  object : ι
  notes : ι
  edge : Relationship α

/-- Which object something in a graph is: one that was handed in, the copy of one that was loaded,
or one that was made for a place where a loaded edge did not stand under its source. -/
inductive Origin where
  | given (object : Nat)
  | copied (object : Nat)
  | renamed (place : Nat)
deriving DecidableEq

namespace EdgeObject

def key {ι α : Type} (e : EdgeObject ι α) : String × String × RelationshipType := e.edge.key

/-- An edge that was handed in stays the object that it is. -/
def given {α : Type} (e : EdgeObject Nat α) : EdgeObject Origin α :=
  { object := .given e.object, notes := .given e.notes, edge := e.edge }

end EdgeObject

/-- The edges of an index, whichever objects they are. -/
def edgeValues {ι α : Type} (ms : Members (List (EdgeObject ι α))) :
    Members (List (Relationship α)) :=
  ms.map fun m => (m.1, m.2.map (·.edge))

/-- A snapshot as it is handed in. -/
structure ObjectSnapshot (α : Type) where
  relationships : Members (List (EdgeObject Nat α))
  metadata : GraphMetadata
  nodes : List String

namespace ObjectSnapshot

variable {α : Type}

def values (s : ObjectSnapshot α) : GraphSnapshot α :=
  { relationships := edgeValues s.relationships, metadata := s.metadata, nodes := s.nodes }

/-- Edges that are objects of their own, numbered from a number on. -/
def numbered (n : Nat) :
    Members (List (Relationship α)) → Members (List (EdgeObject Nat α))
  | [] => []
  | (name, edges) :: rest =>
    (name, (edges.zipIdx n).map fun (edge, i) => { object := i, notes := i, edge }) ::
      numbered (n + edges.length) rest

/-- A snapshot none of whose edges share anything, as a document or a graph gives it out. -/
def ofValues (s : GraphSnapshot α) : ObjectSnapshot α :=
  { relationships := numbered 0 s.relationships, metadata := s.metadata, nodes := s.nodes }

/-- What loading makes of an edge that is listed under a name in a place. It has the name as its
source; what is noted of it stays where it is. -/
def copyAt (name : String) (e : EdgeObject Nat α) (place : Nat) : EdgeObject Origin α :=
  { object := if e.edge.source = name then .copied e.object else .renamed place
    notes := .copied e.notes
    edge := { e.edge with source := name } }

/-- The edges that loading makes, source by source. -/
def copies (s : ObjectSnapshot α) : List (EdgeObject Origin α) :=
  (s.relationships.flatMap fun m => m.2.map (m.1, ·)).zipIdx.map fun (e, place) =>
    copyAt e.1 e.2 place

end ObjectSnapshot

/-- A graph of edges that are objects. One may be listed in several places, and several may share
the one that holds what is noted of them. -/
structure ObjectGraph (α : Type) where
  options : GraphOptions α
  outgoing : Members (List (EdgeObject Origin α))
  incoming : Members (List (EdgeObject Origin α))
  registered : List String
  metadata : GraphMetadata
  analyses : ResultCache String (RelationshipAnalysis α) α
  paths : ResultCache (String × String × Bound) (GraphPath α) α
  revision : Nat

namespace ObjectGraph

variable {α : Type}

/-- A graph with some indexes that has all the rest from another one. -/
def ofRest (v : RelationshipGraph α) (outgoing incoming : Members (List (EdgeObject Origin α))) :
    ObjectGraph α :=
  { options := v.options, outgoing, incoming, registered := v.registered, metadata := v.metadata
    analyses := v.analyses, paths := v.paths, revision := v.revision }

def create (options : GraphOptions α) (now : Moment) : Except CapacityTrouble (ObjectGraph α) :=
  (RelationshipGraph.create options now).map (ofRest · [] [])

/-- What can be seen of a graph: its edges, whichever objects they are. -/
def view (g : ObjectGraph α) : RelationshipGraph α :=
  { options := g.options, outgoing := edgeValues g.outgoing, incoming := edgeValues g.incoming
    registered := g.registered, metadata := g.metadata, analyses := g.analyses, paths := g.paths
    revision := g.revision }

/-- The graph with its indexes and the rest of another one. -/
def keep (g : ObjectGraph α) (v : RelationshipGraph α) : ObjectGraph α :=
  ofRest v g.outgoing g.incoming

def outgoingOf (g : ObjectGraph α) (id : String) : List (EdgeObject Origin α) :=
  (g.outgoing.get? id).getD []

def incomingOf (g : ObjectGraph α) (id : String) : List (EdgeObject Origin α) :=
  (g.incoming.get? id).getD []

/-- All edges, source by source. -/
def edges (g : ObjectGraph α) : List (EdgeObject Origin α) := RelationshipGraph.edgesOf g.outgoing

/-- The edges of an entity: those that start at it and, if wanted, those that end at it as it sees
them. -/
def relationshipsOf (g : ObjectGraph α) (id : String) (both : Bool) :
    List (EdgeObject Origin α) :=
  g.outgoingOf id ++
    if both then ((g.incomingOf id).filter (!·.edge.isSelfReference)).map fun e =>
      { e with edge := e.edge.inverted }
    else []

def register (g : ObjectGraph α) (id : String) (now : Moment) : ObjectGraph α :=
  g.keep (g.view.register id now)

/-- Puts an edge in every place of an object, or at the end if there is none to be replaced. -/
def exchange (e : EdgeObject Origin α) (replaced : Option (EdgeObject Origin α))
    (edges : List (EdgeObject Origin α)) : List (EdgeObject Origin α) :=
  match replaced with
  | none => edges ++ [e]
  | some old => edges.map fun o => if o.object = old.object then e else o

/-- Stores an edge. Under its source the first edge with its key is replaced; under its target, what
is replaced is the object that was found there. -/
def add (g : ObjectGraph α) (e : EdgeObject Origin α) (now : Moment) : ObjectGraph α :=
  let replaced := (g.outgoingOf e.edge.source).find? (·.key = e.key)
  let status :=
    if e.edge.isSelfReference || g.metadata.status = .invalid then .needsUpdate
    else g.metadata.status
  let g := { g with
    outgoing := g.outgoing.put e.edge.source
      (RelationshipGraph.place EdgeObject.key e (g.outgoingOf e.edge.source))
    incoming := g.incoming.put e.edge.target (exchange e replaced (g.incomingOf e.edge.target))
    metadata := { g.metadata with status } }
  g.keep (g.view.changed now)

/-- The edges under a source that lead to a target and have a wanted type. -/
def removed (g : ObjectGraph α) (source target : String) (wanted : RelationshipType → Bool) :
    List (EdgeObject Origin α) :=
  (g.outgoingOf source).filter fun e => e.edge.target = target && wanted e.edge.type

/-- The edges but for the objects that are removed. -/
def without (removed edges : List (EdgeObject Origin α)) : List (EdgeObject Origin α) :=
  edges.filter fun o => removed.all (o.object ≠ ·.object)

/-- Removes the edges between two entities that have a wanted type: the objects under the source,
and the same ones under the target. -/
def removeWhere (g : ObjectGraph α) (source target : String) (wanted : RelationshipType → Bool)
    (now : Moment) : Bool × ObjectGraph α :=
  let removed := g.removed source target wanted
  if removed.isEmpty then (false, g)
  else
    let status := if g.metadata.status = .invalid then .needsUpdate else g.metadata.status
    let g := { g with
      outgoing := RelationshipGraph.putEdges g.outgoing source
        (without removed (g.outgoingOf source))
      incoming := RelationshipGraph.putEdges g.incoming target
        (without removed (g.incomingOf target))
      metadata := { g.metadata with status } }
    (true, g.keep (g.view.changed now))

/-- Removes the edges between two entities: those of a type given by name, or all. -/
def remove (g : ObjectGraph α) (source target : String) (type : Option String) (now : Moment) :
    Bool × ObjectGraph α :=
  match type with
  | none => g.removeWhere source target (fun _ => true) now
  | some name =>
    match Vocabulary.ofName? name with
    | some wanted => g.removeWhere source target (· = wanted) now
    | none => (false, g)

def clearCaches (g : ObjectGraph α) : ObjectGraph α := g.keep g.view.clearCaches

/-- Replaces the contents by copies of those of a snapshot; what is one object there stays one. -/
def load (g : ObjectGraph α) (s : ObjectSnapshot α) : ObjectGraph α :=
  ofRest (g.view.load s.values) (RelationshipGraph.indexBy (·.edge.source) s.copies)
    (RelationshipGraph.indexBy (·.edge.target) s.copies)

/-- The number of edges whose notes an object holds. -/
def holders (g : ObjectGraph α) (notes : Origin) : Nat := g.edges.countP (·.notes = notes)

/-- An edge after every edge with the same notes was marked. -/
def marked (g : ObjectGraph α) (now : Moment) (e : EdgeObject Origin α) : EdgeObject Origin α :=
  { e with edge := (g.holders e.notes).repeat (RelationshipGraph.stamped now) e.edge }

/-- Reports the defects of the graph and notes what was found out. Nothing is repaired. -/
def validate (g : ObjectGraph α) (now : Moment) : GraphReport × ObjectGraph α :=
  let (report, v) := g.view.validate now
  let mark (ms : Members (List (EdgeObject Origin α))) := ms.map fun m => (m.1, m.2.map (g.marked now))
  (report, ofRest v (mark g.outgoing) (mark g.incoming))

section

variable [Scalar α]

def analyze (g : ObjectGraph α) (id : String) (now : Moment) :
    Except GraphTrouble (RelationshipAnalysis α) × ObjectGraph α :=
  let (found, v) := g.view.analyze id now
  (found, g.keep v)

def path (g : ObjectGraph α) (source target : String) (hops : Option (Extent Float)) :
    Except ExtentTrouble (Option (GraphPath α)) × ObjectGraph α :=
  let (found, v) := g.view.path source target hops
  (found, g.keep v)

end

end ObjectGraph

end EntityRules
