import EntityRules.Proofs.Reread.Model
import EntityRules.Proofs.Value.Arranged

/-! Values and their documents. -/

namespace EntityRules

open Members

namespace Value

/-- The value of the document of a value. -/
def dumped (v : Value) : Value := ofJson v.dump

theorem get?_ofMembers (ms : Members Json) (name : String) :
    get? (ofMembers ms) name = (ms.get? name).map ofJson := by
  rw [ofMembers_eq, get?_map]

theorem get?_dumped (ms : Members Value) (name : String) :
    get? (ofMembers (dumpMembers ms)) name = (ms.get? name).map dumped := by
  rw [get?_ofMembers, get?_dumpMembers, Option.map_map]
  rfl

theorem dumped_null : dumped .null = .null := rfl

theorem step_dumped (v : Value) (segment : String) :
    v.dumped.step segment = (v.step segment).map dumped := by
  cases v with
  | arr items =>
    rw [dumped, dump, ofJson, dumpItems_eq_map, ofItems_eq, List.map_map]
    exact itemAt_map dumped_null items segment
  | obj ms =>
    rw [dumped, dump, ofJson, step, step, get?_dumped, getD_map_null dumped_null]
    rfl
  | record type fields =>
    rw [dumped, dump, ofJson, step, step, get?_dumped, getD_map_null dumped_null]
    rfl
  | _ => rfl

/-- A path into the document of a value names the document of what it names in the value. -/
theorem resolve_dumped (v : Value) (path : String) :
    v.dumped.resolve path = (v.resolve path).map dumped :=
  resolve_map dumped_null step_dumped v path

/-- The document of a value on its own. A number that was not given is the whole number there that
it counts as. -/
def alone : Value → Json
  | .unset => .int 0
  | v => v.dump

/-- A value in which every number is given. -/
inductive Given : Value → Prop where
  | document (j : Json) : Given (.ofJson j)
  | kind (k : EntityKind) : Given (.kind k)
  | phase (p : SessionPhase) : Given (.phase p)
  | moment (m : Moment) : Given (.moment m)
  | arr {items : List Value} : (∀ v ∈ items, Given v) → Given (.arr items)
  | obj {ms : Members Value} : (∀ m ∈ ms, Given m.2) → Given (.obj ms)
  | record {type : String} {fields : Members Value} :
    (∀ m ∈ fields, Given m.2) → Given (.record type fields)

namespace Given

variable {v w : Value}

theorem alone_eq (h : v.Given) : v.alone = v.dump := by
  cases h with
  | document j => cases j <;> rfl
  | _ => rfl

theorem null : Given .null := .document .null

theorem itemAt {items : List Value} (all : ∀ v ∈ items, Given v) {segment : String}
    (found : itemAt items segment = .ok w) : w.Given := by
  unfold Value.itemAt at found
  dsimp only at found
  split at found
  · cases found
    exact null
  · split at found
    · cases found
    · split at found
      · cases found
      · next i _ =>
        cases item : items[i]? with
        | none =>
          rw [item] at found
          cases found
          exact null
        | some u =>
          rw [item] at found
          cases found
          exact all u (List.mem_of_getElem? item)

theorem getD_get? {ms : Members Value} (all : ∀ m ∈ ms, Given m.2) (name : String) :
    ((ms.get? name).getD .null).Given := by
  cases held : ms.get? name with
  | none => exact null
  | some v => exact all _ (mem_of_get? held)

/-- What is found in a value in which every number is given is one. -/
theorem step (h : v.Given) {segment : String} (found : v.step segment = .ok w) : w.Given := by
  cases h with
  | document j =>
    have whole : (ofJson j).dumped = ofJson j := congrArg ofJson (dump_ofJson j)
    have inner := step_dumped (ofJson j) segment
    rw [whole, found] at inner
    rw [Except.ok.inj inner]
    exact .document _
  | arr all => exact itemAt all found
  | obj all =>
    cases found
    exact getD_get? all segment
  | record all =>
    cases found
    exact getD_get? all segment
  | _ =>
    cases found
    exact null

theorem follow (h : v.Given) {path : List String} (found : v.follow path = .ok w) : w.Given := by
  induction path generalizing v with
  | nil =>
    cases found
    exact h
  | cons s rest ih =>
    rw [Value.follow] at found
    cases next : v.step s with
    | error t =>
      rw [next] at found
      cases found
    | ok u =>
      rw [next] at found
      exact ih (h.step next) found

theorem resolve (h : v.Given) {path : String} (found : v.resolve path = .ok w) : w.Given := by
  unfold Value.resolve at found
  split at found
  · cases found
    exact null
  · exact h.follow found

@[simp] theorem ofOption {α : Type} {f : α → Value} (all : ∀ a, Given (f a)) (o : Option α) :
    (Value.ofOption f o).Given := by
  cases o with
  | none => exact null
  | some a => exact all a

@[simp] theorem ofList {α : Type} {f : α → Value} (all : ∀ a, Given (f a)) (xs : List α) :
    (Value.ofList f xs).Given :=
  .arr fun v hv => by
    obtain ⟨a, -, rfl⟩ := List.mem_map.mp hv
    exact all a

@[simp] theorem ofMapping {α : Type} {f : α → Value} (all : ∀ a, Given (f a)) (ms : Members α) :
    (Value.ofMapping f ms).Given :=
  .obj fun m hm => by
    obtain ⟨m, -, rfl⟩ := List.mem_map.mp hm
    exact all m.2

theorem ofMembers (ms : Members Json) : ∀ m ∈ Value.ofMembers ms, Given m.2 := by
  intro m hm
  rw [ofMembers_eq] at hm
  obtain ⟨m, -, rfl⟩ := List.mem_map.mp hm
  exact .document m.2

@[simp] theorem members (ms : Members Json) : Given (.obj (Value.ofMembers ms)) :=
  .document (.obj ms)

@[simp] theorem str (s : String) : Given (.str s) := .document (.str s)

@[simp] theorem int (n : Int) : Given (.int n) := .document (.int n)

@[simp] theorem float (x : Float) : Given (.float x) := .document (.float x)

@[simp] theorem bool (b : Bool) : Given (.bool b) := .document (.bool b)

end Given

attribute [simp] Given.kind Given.phase Given.moment

end Value

open Value

theorem EntityRequirements.given_view (r : EntityRequirements) : r.view.Given := by
  refine .record ?_
  simp

theorem ResourceRequirements.given_view (r : ResourceRequirements Float) : r.view.Given := by
  refine .record ?_
  simp

theorem EntityRecord.given_view (e : EntityRecord Float) : e.view.Given := by
  refine .record ?_
  rw [List.forall_mem_append]
  refine ⟨?_, Given.ofMembers _⟩
  simp [EntityRequirements.given_view, ResourceRequirements.given_view]

theorem PlayerState.given_view (p : PlayerState) : p.view.Given := by
  refine .record ?_
  simp

/-- In a world only the time can be left out. -/
theorem WorldState.given_view {w : WorldState} (given : w.time ≠ none) : w.view.Given := by
  obtain ⟨time, ht⟩ := Option.ne_none_iff_exists'.mp given
  refine .record ?_
  simp [ht]

theorem SessionState.given_view (s : SessionState) : s.view.Given := by
  refine .record ?_
  simp

theorem StoryState.given_view (s : StoryState) : s.view.Given := by
  refine .record ?_
  simp

theorem RecentEvent.given_view (e : RecentEvent) : e.view.Given := by
  refine .record ?_
  simp

theorem GameState.given_view {s : GameState} (given : s.world.time ≠ none) : s.view.Given := by
  refine .record ?_
  simp [PlayerState.given_view, WorldState.given_view given, SessionState.given_view,
    StoryState.given_view, RecentEvent.given_view]

namespace Form

/-- How states are read and written. -/
def gameState : Form GameState where
  read := fun _ => GameState.decode
  write := GameState.encode
  Same := fun s t => s.timed = t.timed

/-- How records are read and written. -/
def entityRecord : Form (EntityRecord Float) where
  read := fun _ => EntityRecord.decode
  write := EntityRecord.encode
  layers := EntityRecord.layers

/-- A state always has a document. -/
theorem dump_gameState (s : GameState) : gameState.dump s = some s.encode := if_pos (Nat.zero_le _)

theorem document_of_dump {e : EntityRecord Float} {document : Json}
    (written : entityRecord.dump e = some document) : document = e.encode := by
  unfold dump at written
  split at written
  · exact (Option.some.inj written).symm
  · cases written

end Form

namespace Value.Sample

/-- A record that has nothing but a name of its own and free data. -/
def relic (id : String) (metadata : Members Json) : EntityRecord Float :=
  { id, kind := .infer id, name := none, tags := [], priority := 0, location := none
    requiredLevel := none, storyRelevance := none, playerAlignment := none, difficulty := none
    timestamp := none, availableFrom := none, availableUntil := none, requiredPhase := none
    requirements := none, minEventInterval := none, resourceRequirements := none, metadata
    extras := [] }

/-- A lamp made of two parts. -/
def lamp : EntityRecord Float :=
  relic "item_lamp" [("parts", .arr [.null, .obj [("made", .str "glass")]])]

/-- The document of a record with free data that goes too deep to be written. -/
def abyssSource : Json :=
  .obj [("id", .str "quest_a"), ("metadata", .obj [("deep", Form.nested 299)])]

def abyss : EntityRecord Float := relic "quest_a" [("deep", Form.nested 299)]

end Value.Sample

theorem Value.Sample.resolve_relic (metadata : Members Json) :
    (relic "quest_a" metadata).view.resolve "id" = .ok (.str "quest_a") := by
  rfl

end EntityRules
