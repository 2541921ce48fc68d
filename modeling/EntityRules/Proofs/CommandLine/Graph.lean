import EntityRules.Proofs.CommandLine.Endings
import EntityRules.Proofs.Document.Graph

/-! What the command for graphs tells of a document. -/

namespace EntityRules

theorem RuleEngine.graph_create {s : EngineSettings} {o : EngineOptions} {ev : Evaluator}
    {catalog : EntityCatalog} {graph : RelationshipGraph Float} {clock : Int} {e : RuleEngine}
    (made : create s o ev catalog graph clock = .ok e) : e.graph = graph := by
  obtain ⟨results, -, made⟩ := bind_eq_ok.mp made
  obtain ⟨workers, -, made⟩ := bind_eq_ok.mp made
  cases made
  rfl

/-- What the command for graphs can be asked of a document: that the ends of a path are connected,
and that no relationship leads back. -/
structure RuleDocument.Passes (d : RuleDocument) (hops : Int) (path : Option (String × String))
    (validate : Bool) : Prop where
  connected : ∀ ends ∈ path, d.Connects hops ends.1 ends.2
  onward : validate = true → ∀ r ∈ d.relationships, r.source ≠ r.target

namespace CommandLine

variable {w : Surroundings} {d : RuleDocument} {e : RuleEngine}

namespace Surroundings

theorem exists_engine_iff (w : Surroundings) (d : RuleDocument) :
    (∃ e, w.engine d = .ok e) ↔ w.settings.HasRoom := by
  rcases w.engine_cases d with ⟨room, e, made, -⟩ | ⟨full, why, failed⟩
  · exact iff_of_true ⟨e, made⟩ room
  · refine iff_of_false ?_ full
    rintro ⟨e, made⟩
    cases failed.symm.trans made

/-- An engine takes over the graph of its document. -/
theorem graph_engine (made : w.engine d = .ok e) :
    d.graph w.settings.graph.options w.now = .ok e.graph := by
  unfold engine at made
  split at made
  · next made' =>
    cases made
    obtain ⟨graph, described, created⟩ := bind_eq_ok.mp made'
    rw [RuleEngine.graph_create created]
    exact mapError_eq_ok.mp described
  · cases made

end Surroundings

theorem code_graphReport {g : RelationshipGraph Float} {path : Option (String × String)}
    {validate : Bool} {now : Moment} : (graphReport g path validate now).code = 0 ↔
      (∀ ends ∈ path, (g.path ends.1 ends.2 none).1.toOption.join.isSome = true) ∧
        (validate = true → (g.validate now).1.isValid = true) := by
  unfold graphReport
  cases path <;> cases validate <;> simp [Option.isSome_iff_ne_none]

/-- The report on a document passes just if the document does. -/
theorem code_graphReport_engine (made : w.engine d = .ok e) (path : Option (String × String))
    (validate : Bool) : (graphReport e.graph path validate w.now).code = 0 ↔
      d.Passes w.settings.graph.pathHops path validate := by
  have described := Surroundings.graph_engine made
  have limited : w.settings.graph.options.pathHops = .whole w.settings.graph.pathHops := rfl
  rw [code_graphReport, RuleDocument.isValid_graph described]
  simp only [RuleDocument.isSome_path_graph described limited]
  exact ⟨fun h => ⟨h.1, h.2⟩, fun h => ⟨h.1, h.2⟩⟩

namespace Command

theorem run_graph_eq {file : Argument} (loaded : w.rules file = .ok d) (made : w.engine d = .ok e)
    (path : Option (String × String)) (validate : Bool) :
    run w (.graph file path validate) = .ok (graphReport e.graph path validate w.now) := by
  rw [run, loaded]
  dsimp only [bind, Except.bind]
  rw [made]
  rfl

/-- What the command for graphs makes of a document that loads, whatever reads it. There is an
engine for it if the settings leave room in the caches. Its graph depicts the document, and the exit
code tells whether the document passes what is asked, as long as the console shows what there is to
show. -/
theorem run_graph (w : Surroundings) {file : Argument} {d : RuleDocument}
    (loaded : w.rules file = .ok d) :
    ((∃ e, w.engine d = .ok e) ↔ w.settings.HasRoom) ∧
    ∀ e, w.engine d = .ok e → e.graph.Depicts d ∧
      ∀ path validate, ∃ r, run w (.graph file path validate) = .ok r ∧
        (r.code = 0 ↔ d.Passes w.settings.graph.pathHops path validate) ∧
        (r.code = 1 ↔ ¬ d.Passes w.settings.graph.pathHops path validate) ∧
        ∀ arguments, read arguments = .ok (.graph file path validate) →
          ¬ (Command.graph file path validate).IsRefused w → runLine w arguments = .report r := by
  refine ⟨w.exists_engine_iff d, fun e made => ⟨?_, fun path validate => ?_⟩⟩
  · exact RuleDocument.depicts_graph (Surroundings.graph_engine made)
  · have ran := run_graph_eq loaded made path validate
    have passes := code_graphReport_engine made path validate
    refine ⟨_, ran, passes, ?_, fun arguments accepted shown => ?_⟩
    · rw [← passes]
      have := code_run ran
      omega
    · rw [runLine_of_shown accepted shown, ending_of_ok ran]

namespace Sample

open QueryRules.Sample (noon)

def synergyJson (source target : String) : Json :=
  .obj [("source_id", .str source), ("target_id", .str target), ("type", .str "synergy")]

/-- A document that lists a key twice, a way of two hops, and a relationship that leads back. -/
def windingJson : Json :=
  .obj [("relationships",
    .arr [synergyJson "a" "b", synergyJson "b" "c", synergyJson "c" "c", synergyJson "a" "b"])]

/-- The same document as an author writes it. -/
def winding : String :=
  "relationships:\n" ++
    "  - \x7bsource_id: a, target_id: b, type: synergy\x7d\n" ++
    "  - \x7bsource_id: b, target_id: c, type: synergy\x7d\n" ++
    "  - \x7bsource_id: c, target_id: c, type: synergy\x7d\n" ++
    "  - \x7bsource_id: a, target_id: b, type: synergy\x7d\n"

/-- Surroundings with that document in a file, and with a reader that knows it. -/
def windingDesk : Surroundings :=
  { text := fun file => if file = "rules.yaml" then .ok winding else .error .absent
    yaml := fun text => if text = winding then .ok windingJson else .error .malformed
    now := noon }

def asked (more : List String) : List String := ["graph", "rules.yaml", "--path", "a", "c"] ++ more

end Sample

open Sample

/-- The path is there, and the relationship that leads back is found when it is looked for. -/
theorem run_graph_winding : ∃ d e, windingDesk.rules (some "rules.yaml") = .ok d ∧
    windingDesk.engine d = .ok e ∧ e.graph.Depicts d ∧ d.Connects 5 "a" "c" ∧
    (∃ r, runLine windingDesk (asked []) = .report r ∧ r.code = 0) ∧
    (∃ r, runLine windingDesk (asked ["--validate"]) = .report r ∧ r.code = 1) ∧
    ∃ r ∈ d.relationships, r.source = r.target := by
  have evaluated : (windingDesk.rules (some "rules.yaml")).isOk = true ∧
      codeOf? (runLine windingDesk (asked [])) = some 0 ∧
      codeOf? (runLine windingDesk (asked ["--validate"])) = some 1 := by decide +kernel
  obtain ⟨loads, fine, faulty⟩ := evaluated
  obtain ⟨d, loaded⟩ := exists_of_isOk loads
  obtain ⟨engine_iff, reports⟩ := run_graph windingDesk loaded
  obtain ⟨e, made⟩ := engine_iff.mpr ⟨by decide, by decide⟩
  obtain ⟨depicts, reports⟩ := reports e made
  obtain ⟨r, -, passes, -, shown⟩ := reports (some ("a", "c")) false
  obtain ⟨r', -, -, fails, shown'⟩ := reports (some ("a", "c")) true
  have shown := shown (asked []) rfl (not_isRefused_of_open rfl _)
  have shown' := shown' (asked ["--validate"]) rfl (not_isRefused_of_open rfl _)
  rw [shown] at fine
  rw [shown'] at faulty
  have connected := (passes.mp (Option.some.inj fine)).connected
  refine ⟨d, e, loaded, made, depicts, connected _ rfl, ⟨r, shown, Option.some.inj fine⟩,
    ⟨r', shown', Option.some.inj faulty⟩, ?_⟩
  by_contra onward
  exact fails.mp (Option.some.inj faulty) ⟨connected, fun _ r hr same => onward ⟨r, hr, same⟩⟩

end Command

end CommandLine

end EntityRules
