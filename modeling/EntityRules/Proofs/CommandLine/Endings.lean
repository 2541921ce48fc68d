import EntityRules.Proofs.CommandLine.Requests
import EntityRules.Proofs.Document.Loading
import EntityRules.Proofs.Engine.Failed
import EntityRules.Proofs.Engine.Marked

/-! How command lines end: in a report, unless they meet something that nobody handles. -/

namespace EntityRules

/-- Settings with room in both caches of results. -/
def EngineSettings.HasRoom (s : EngineSettings) : Prop :=
  0 < s.cacheCapacity ∧ 0 < s.graph.cacheCapacity

namespace CommandLine

variable {α β : Type}

theorem escapes_ofLoad {r : Except LoadFailure α} :
    Escapes (r.mapError .ofLoad) ↔ LoadFailure.Escapes r := by
  cases r with
  | ok a => exact iff_of_false nofun nofun
  | error why =>
    cases why with
    | trouble why => exact iff_of_false nofun nofun
    | crash why => exact iff_of_true ⟨why, rfl⟩ ⟨why, rfl⟩

namespace Surroundings

variable (w : Surroundings) (file : Argument)

/-- An argument that stands for a rule document names no file, or one that ends the program. -/
def RulesEscape : Prop :=
  file = none ∨
    ∃ name, file = some name ∧ LoadFailure.Escapes (RuleDocument.load w.yaml w.now name (w.text name))

/-- An argument that stands for a game state names no file, or one that ends the program. -/
def StateEscapes : Prop :=
  file = none ∨
    ∃ name, file = some name ∧ LoadFailure.Escapes (GameState.load w.yaml name (w.text name))

theorem escapes_fileName_iff : Escapes (fileName file) ↔ file = none := by
  cases file with
  | none => exact iff_of_true ⟨_, rfl⟩ rfl
  | some name => exact iff_of_false nofun nofun

theorem fileName_eq_ok {name : String} : fileName file = .ok name ↔ file = some name := by
  cases file <;> simp [fileName]

theorem escapes_rules_iff : Escapes (w.rules file) ↔ w.RulesEscape file := by
  simp only [rules, escapes_bind, escapes_fileName_iff, fileName_eq_ok, escapes_ofLoad, RulesEscape]

theorem escapes_state_iff : Escapes (w.state file) ↔ w.StateEscapes file := by
  simp only [state, escapes_bind, escapes_fileName_iff, fileName_eq_ok, escapes_ofLoad,
    StateEscapes]

end Surroundings

end CommandLine

/-- A cache with a whole capacity is there just if the capacity is above zero. -/
theorem ResultCache.create_whole_cases {κ ν τ : Type} (name : String) (n : Int)
    (ttl : Option (Extent τ)) :
    (0 < n ∧ ∃ c : ResultCache κ ν τ, create name (.whole n) ttl = .ok c ∧ c.ttl = ttl) ∨
      ¬ 0 < n ∧ ∃ why, (create name (.whole n) ttl : Except _ (ResultCache κ ν τ)) = .error why := by
  have bound : (Extent.whole n : Extent Float).bound Extent.notAtMost = .ok (.ofInt n) := rfl
  have positive : (Bound.ofInt n).isPositive = decide (0 < n) := rfl
  unfold create
  rw [bound]
  dsimp only
  rw [positive]
  by_cases h : 0 < n
  · exact .inl ⟨h, _, if_pos (decide_eq_true h), rfl⟩
  · exact .inr ⟨h, _, if_neg (by simpa using h)⟩

/-- What an engine has from its settings: how long it remembers results, and whether. -/
structure RuleEngine.Follows (e : RuleEngine) (s : EngineSettings) : Prop where
  lifetime : e.results.ttl = s.cacheTtl.map .fractional
  cacheEnabled : e.rules.cacheEnabled = s.cacheEnabled
  room : e.rules.room = 900

/-- An engine under settings can tell how long it remembers results. -/
theorem RuleEngine.Follows.told {e : RuleEngine} {s : EngineSettings} (h : e.Follows s)
    (why : ExtentTrouble) : e.results.expiry e.time ≠ .error why := by
  unfold ResultCache.expiry
  rw [h.lifetime]
  cases s.cacheTtl <;> exact nofun

theorem RuleEngine.create_settings (s : EngineSettings) (ev : Evaluator) (catalog : EntityCatalog)
    (graph : RelationshipGraph Float) (clock : Int) :
    (0 < s.cacheCapacity ∧ ∃ e, create s (.ofSettings s) ev catalog graph clock = .ok e ∧
      e.Follows s) ∨
    ¬ 0 < s.cacheCapacity ∧ ∃ why, create s (.ofSettings s) ev catalog graph clock = .error why := by
  have made := @ResultCache.create_whole_cases Fingerprint QueryResult Float "query_results"
    s.cacheCapacity (s.cacheTtl.map .fractional)
  have workers : (Extent.whole s.workers : Extent Float).atLeastOne =
      .ok (.whole (max 1 s.workers)) := rfl
  unfold create
  dsimp only [EngineOptions.ofSettings]
  rw [workers]
  rcases made with ⟨room, results, made, ttl⟩ | ⟨full, why, failed⟩
  · rw [made]
    exact .inl ⟨room, _, rfl, ttl, rfl, rfl⟩
  · rw [failed]
    exact .inr ⟨full, _, rfl⟩

namespace RuleDocument

variable (d : RuleDocument) (s : EngineSettings) (ev : Evaluator) (now : Moment)

theorem graph_settings :
    (0 < s.graph.cacheCapacity ∧ ∃ g, d.graph s.graph.options now = .ok g) ∨
      ¬ 0 < s.graph.cacheCapacity ∧ ∃ why, d.graph s.graph.options now = .error why := by
  unfold graph RelationshipGraph.create
  rcases ResultCache.create_whole_cases "relationship_analysis" s.graph.cacheCapacity none with
    ⟨room, analyses, made, -⟩ | ⟨full, why, failed⟩
  · rcases ResultCache.create_whole_cases "relationship_paths" s.graph.cacheCapacity none with
      ⟨-, paths, others, -⟩ | ⟨full, -⟩
    · refine .inl ⟨room, ?_⟩
      rw [show s.graph.options.cacheCapacity = .whole s.graph.cacheCapacity from rfl, made, others]
      exact ⟨_, rfl⟩
    · exact absurd room full
  · refine .inr ⟨full, ?_⟩
    rw [show s.graph.options.cacheCapacity = .whole s.graph.cacheCapacity from rfl, failed]
    exact ⟨_, rfl⟩

/-- An engine under settings is there just if both capacities are above zero. -/
theorem engine_settings :
    (s.HasRoom ∧ ∃ e, d.engine s (.ofSettings s) ev now = .ok e ∧ e.Follows s) ∨
    ¬ s.HasRoom ∧ ∃ why, d.engine s (.ofSettings s) ev now = .error why := by
  unfold engine
  rcases d.graph_settings s now with ⟨edges, g, built⟩ | ⟨full, why, failed⟩
  · rw [built]
    rcases RuleEngine.create_settings s ev (.ofList d.records) g now.instant with
      ⟨room, e, made, follows⟩ | ⟨full, failed⟩
    · exact .inl ⟨⟨room, edges⟩, e, made, follows⟩
    · exact .inr ⟨fun h => full h.1, failed⟩
  · refine .inr ⟨fun h => full h.2, ?_⟩
    rw [failed]
    exact ⟨_, rfl⟩

end RuleDocument

namespace CommandLine

/-- How an engine answers that can tell how long it remembers results: with a result, with a report
of what is wrong, or not at all. -/
theorem ask_ends {e : RuleEngine} (q : Request) (now : Moment)
    (told : ∀ why, e.results.expiry e.time ≠ .error why) :
    (∃ r, (e.ask q now).1 = .ok r) ∨ (∃ why, (e.ask q now).1 = .error (.reported why)) ∨
      ∃ why, (e.ask q now).1 = .error (.unwritable why) := by
  cases answered : (e.ask q now).1 with
  | ok r => exact .inl ⟨r, rfl⟩
  | error why =>
    cases why with
    | reported why => exact .inr (.inl ⟨why, rfl⟩)
    | unwritable why => exact .inr (.inr ⟨why, rfl⟩)
    | lifetime why =>
      exact absurd ((RuleEngine.accounted_ask e q now).lifetime why answered).2 (told why)

/-- A query that can be remembered and cannot be written is not answered at all. -/
theorem exists_unwritable_iff {e : RuleEngine} {q : Request} {now : Moment} :
    (∃ why, (e.ask q now).1 = .error (.unwritable why)) ↔
      e.isCacheable q.filter q.options = true ∧ ¬ q.IsWritable e.rules.room := by
  have accounted := RuleEngine.accounted_ask e q now
  simp only [accounted.unwritable, ← RuleEngine.fingerprint_eq_error_iff, exists_and_left]

variable {e : RuleEngine} {settings : EngineSettings} (follows : e.Follows settings)
  (state : GameState) (now : Moment)

include follows

/-- A query from the command line can be remembered if anything can, and it can be written if its
state can. -/
theorem isWritable_request {r : QueryRequest} {f : QueryFilter} {o : QueryOptions}
    (hf : QueryFilter.decode r.filterJson = .ok f)
    (ho : QueryOptions.decode r.optionsJson = .ok o) :
    (e.isCacheable f o = true ∧ ¬ Request.IsWritable ⟨f, state, o⟩ e.rules.room) ↔
      settings.cacheEnabled = true ∧ ¬ state.IsShort := by
  obtain ⟨cached, short⟩ := r.decode_optionsJson ho
  have conditionless := r.conditionless hf
  obtain ⟨kinds, tags, -, -, rfl⟩ := r.decode_filterJson_eq_ok.mp hf
  have written : Request.IsWritable ⟨{ entityTypes := kinds, tags }, state, o⟩ (897 + 3) ↔
      state.IsShort := by
    rw [Request.isWritable_iff_of_conditionless conditionless]
    exact and_iff_left short
  rw [follows.room, written, RuleEngine.isCacheable, follows.cacheEnabled, cached]
  simp [Condition.isDeterministic]

/-- A query from the command line ends the program just if its request cannot be read, or if it
could be remembered and its state has a number that is too long. -/
theorem escapes_queryRecords_iff (r : QueryRequest) : Escapes (queryRecords e state r now) ↔
    ¬ (r.IsReadable ∧ (settings.cacheEnabled = true → state.IsShort)) := by
  by_cases readable : r.IsReadable
  · obtain ⟨⟨f, hf⟩, o, ho⟩ := r.isReadable_iff.mp readable
    have refused : (∃ why, (e.ask ⟨f, state, o⟩ now).1 = .error (.unwritable why)) ↔
        settings.cacheEnabled = true ∧ ¬ state.IsShort :=
      exists_unwritable_iff.trans (isWritable_request follows state hf ho)
    rw [and_iff_right readable, Classical.not_imp, ← refused]
    unfold queryRecords
    rw [hf, ho]
    dsimp only [requested, bind, Except.bind]
    rw [← RuleEngine.ask_mk]
    rcases ask_ends ⟨f, state, o⟩ now follows.told with
      ⟨found, answered⟩ | ⟨why, answered⟩ | ⟨why, answered⟩
    · rw [answered]
      exact iff_of_false nofun nofun
    · rw [answered]
      exact iff_of_false nofun nofun
    · rw [answered]
      exact iff_of_true ⟨_, rfl⟩ ⟨why, rfl⟩
  · refine iff_of_true ?_ fun h => readable h.1
    unfold queryRecords
    simp only [escapes_bind, escapes_requested_iff, requested_eq_ok]
    by_cases read : ∃ f, QueryFilter.decode r.filterJson = .ok f
    · obtain ⟨f, hf⟩ := read
      refine .inr ⟨f, hf, .inl fun options => readable ?_⟩
      exact r.isReadable_iff.mpr ⟨⟨f, hf⟩, options⟩
    · exact .inl read

omit follows

/-- What is shown of a query has no exit code of its own. -/
theorem code_queryRecords {r : QueryRequest} {report : Report}
    (h : queryRecords e state r now = .ok report) : report.code = 0 := by
  obtain ⟨f, -, h⟩ := bind_eq_ok.mp h
  obtain ⟨o, -, h⟩ := bind_eq_ok.mp h
  split at h
  · cases h
    rfl
  · cases h
  · cases h
  · cases h

/-- There is an engine just if the settings leave room. -/
theorem Surroundings.engine_cases (w : Surroundings) (d : RuleDocument) :
    (w.settings.HasRoom ∧ ∃ e, w.engine d = .ok e ∧ e.Follows w.settings) ∨
    ¬ w.settings.HasRoom ∧ Escapes (w.engine d) := by
  unfold engine
  rcases d.engine_settings w.settings w.evaluator w.now with
    ⟨room, e, made, follows⟩ | ⟨full, why, failed⟩
  · exact .inl ⟨room, e, by rw [made], follows⟩
  · refine .inr ⟨full, .noRoom, ?_⟩
    rw [failed]

namespace Command

/-- What nobody handles: a file that ends the program, settings without room, a request that cannot
be read, or a state that cannot be written when results are remembered, each where the command comes
to it. -/
def IsUnhandled (w : Surroundings) : Command → Prop
  | evaluate rules state =>
    w.RulesEscape rules ∨ (∃ d, w.rules rules = .ok d) ∧
      (w.StateEscapes state ∨ (∃ s, w.state state = .ok s) ∧ ¬ w.settings.HasRoom)
  | query rules state r =>
    w.RulesEscape rules ∨ (∃ d, w.rules rules = .ok d) ∧
      (w.StateEscapes state ∨ ∃ s, w.state state = .ok s ∧
        ¬ (w.settings.HasRoom ∧ r.IsReadable ∧ (w.settings.cacheEnabled = true → s.IsShort)))
  | graph rules _ _ => w.RulesEscape rules ∨ (∃ d, w.rules rules = .ok d) ∧ ¬ w.settings.HasRoom

/-- What the console does not take of a command: a line that is logged, or something to show. -/
def IsRefused (w : Surroundings) (command : Command) : Prop :=
  w.console.logs command = false ∨
    ∃ r, command.ending w = .report r ∧ ∃ d ∈ r.shown, w.console.shows d = false

variable {w : Surroundings}

/-- What comes behind the making of an engine, when it ends the program unless something holds. -/
theorem escapes_engine_bind {d : RuleDocument} {f : RuleEngine → Except CommandFailure α}
    {holds : Prop} (next : ∀ e, e.Follows w.settings → (Escapes (f e) ↔ ¬ holds)) :
    Escapes (w.engine d >>= f) ↔ ¬ (w.settings.HasRoom ∧ holds) := by
  rw [escapes_bind]
  rcases w.engine_cases d with ⟨room, e, made, follows⟩ | ⟨full, ends⟩
  · rw [made]
    constructor
    · rintro (ends | ⟨_, ⟨⟩, ends⟩) h
      · exact not_escapes_ok e ends
      · exact (next e follows).mp ends h.2
    · exact fun h => .inr ⟨e, rfl, (next e follows).mpr fun h' => h ⟨room, h'⟩⟩
  · exact iff_of_true (.inl ends) fun h => full h.1

/-- What comes behind the making of an engine, when it never ends the program. -/
theorem escapes_engine_bind_ok {d : RuleDocument} {f : RuleEngine → Report} :
    Escapes (w.engine d >>= fun e => pure (f e)) ↔ ¬ w.settings.HasRoom := by
  have next : ∀ e : RuleEngine, e.Follows w.settings → (Escapes (pure (f e)) ↔ ¬ True) :=
    fun e _ => iff_of_false (not_escapes_ok _) fun h => h trivial
  rw [escapes_engine_bind next, and_true]

theorem escapes_run_iff (command : Command) :
    Escapes (command.run w) ↔ command.IsUnhandled w := by
  cases command with
  | evaluate rules state =>
    have behind : ∀ d, Escapes (do
        let s ← w.state state
        return evaluateEntities (← w.engine d) d s) ↔
          w.StateEscapes state ∨ (∃ s, w.state state = .ok s) ∧ ¬ w.settings.HasRoom := by
      intro d
      rw [escapes_stage fun _ => escapes_engine_bind_ok, w.escapes_state_iff]
    unfold run
    rw [escapes_stage behind, w.escapes_rules_iff]
    rfl
  | query rules state r =>
    have behind : ∀ d, Escapes (do
        let s ← w.state state
        queryRecords (← w.engine d) s r w.now) ↔
          w.StateEscapes state ∨ ∃ s, w.state state = .ok s ∧
            ¬ (w.settings.HasRoom ∧ r.IsReadable ∧
              (w.settings.cacheEnabled = true → s.IsShort)) := by
      intro d
      have last : ∀ s, Escapes (w.engine d >>= fun e => queryRecords e s r w.now) ↔
          ¬ (w.settings.HasRoom ∧ r.IsReadable ∧ (w.settings.cacheEnabled = true → s.IsShort)) :=
        fun s => escapes_engine_bind fun e follows => escapes_queryRecords_iff follows s w.now r
      simp only [escapes_bind, last, w.escapes_state_iff]
    unfold run
    rw [escapes_stage behind, w.escapes_rules_iff]
    rfl
  | graph rules path validate =>
    have behind : ∀ d, Escapes (do
        return graphReport (← w.engine d).graph path validate w.now) ↔ ¬ w.settings.HasRoom :=
      fun d => escapes_engine_bind_ok
    unfold run
    rw [escapes_stage behind, w.escapes_rules_iff]
    rfl

/-- A command that comes to its end has one of two exit codes. -/
theorem code_run {command : Command} {report : Report} (h : command.run w = .ok report) :
    report.code = 0 ∨ report.code = 1 := by
  cases command with
  | evaluate rules state =>
    obtain ⟨d, -, h⟩ := bind_eq_ok.mp h
    obtain ⟨s, -, h⟩ := bind_eq_ok.mp h
    obtain ⟨e, -, h⟩ := bind_eq_ok.mp h
    cases h
    exact ite_eq_or_eq _ 0 1
  | query rules state r =>
    obtain ⟨d, -, h⟩ := bind_eq_ok.mp h
    obtain ⟨s, -, h⟩ := bind_eq_ok.mp h
    obtain ⟨e, -, h⟩ := bind_eq_ok.mp h
    exact .inl (code_queryRecords s w.now h)
  | graph rules path validate =>
    obtain ⟨d, -, h⟩ := bind_eq_ok.mp h
    obtain ⟨e, -, h⟩ := bind_eq_ok.mp h
    cases h
    exact (ite_eq_or_eq _ 1 0).symm

theorem ending_of_ok {command : Command} {report : Report} (ran : command.run w = .ok report) :
    command.ending w = .report report := by
  rw [ending, ran]

theorem ending_of_error {command : Command} {why : CommandFailure}
    (ran : command.run w = .error why) : command.ending w = why.ending := by
  rw [ending, ran]

/-- A console that shows everything refuses nothing. -/
theorem not_isRefused_of_open (takes : w.console = {}) (command : Command) :
    ¬ command.IsRefused w := by
  unfold IsRefused
  rw [takes]
  rintro (silent | ⟨_, _, _, _, dark⟩)
  · cases silent
  · cases dark

/-- What the console takes ends the program just as the command ends. -/
theorem runLine_of_shown {arguments : List String} {command : Command}
    (accepted : read arguments = .ok command) (shown : ¬ command.IsRefused w) :
    runLine w arguments = command.ending w := by
  have logged : w.console.logs command = true := by
    by_contra silent
    exact shown (.inl (Bool.not_eq_true _ ▸ silent))
  simp only [runLine, accepted, logged, if_true]
  cases ends : command.ending w with
  | report r =>
    have all : r.shown.all w.console.shows = true := by
      rw [List.all_eq_true]
      intro d hd
      by_contra refused
      exact shown (.inr ⟨r, ends, d, hd, Bool.not_eq_true _ ▸ refused⟩)
    exact if_pos all
  | stop why => rfl
  | crash why => rfl

/-- The program crashes if the command does, or if the console does not take what there is to show.
-/
theorem crashes_iff {arguments : List String} {command : Command}
    (accepted : read arguments = .ok command) :
    (∃ why, runLine w arguments = .crash why) ↔ Escapes (command.run w) ∨ command.IsRefused w := by
  by_cases refused : command.IsRefused w
  · refine iff_of_true ⟨.markup, ?_⟩ (.inr refused)
    simp only [runLine, accepted]
    rcases refused with silent | ⟨r, ends, d, hd, dark⟩
    · rw [silent]
      rfl
    · have some_dark : r.shown.all w.console.shows ≠ true := by
        rw [Ne, List.all_eq_true]
        exact fun all => absurd (all d hd) (by rw [dark]; decide)
      rw [ends, Ending.on, if_neg some_dark, ite_self]
  · rw [runLine_of_shown accepted refused, or_iff_left refused]
    cases ran : command.run w with
    | ok report =>
      rw [ending_of_ok ran]
      exact iff_of_false nofun nofun
    | error why =>
      rw [ending_of_error ran]
      cases why with
      | reported message details => exact iff_of_false nofun nofun
      | crash why => exact iff_of_true ⟨why, rfl⟩ ⟨why, rfl⟩

/-- How an ending crashes, if it does. -/
def crashOf? : Ending → Option Crash
  | .crash why => some why
  | _ => none

theorem crashOf?_eq_some {ending : Ending} {why : Crash} :
    crashOf? ending = some why ↔ ending = .crash why := by
  cases ending <;> simp [crashOf?]

/-- The exit code of an ending in a report. -/
def codeOf? : Ending → Option Nat
  | .report r => some r.code
  | _ => none

theorem codeOf?_eq_some {ending : Ending} {n : Nat} :
    codeOf? ending = some n ↔ ∃ r, ending = .report r ∧ r.code = n := by
  cases ending <;> simp [codeOf?]

namespace Sample

open QueryRules.Sample (noon)

/-- Surroundings with a single file, in JSON. -/
def desk (text : String) : Surroundings :=
  { text := fun file => if file = "rules.json" then .ok text else .error .absent
    yaml := fun _ => .error .malformed
    now := noon }

/-- A document with one relationship of some strength. -/
def related (strength : String) : String :=
  "\x7b\"relationships\": [\x7b\"source_id\": \"a\", \"target_id\": \"b\", \"type\": \"synergy\", " ++
    "\"strength\": " ++ strength ++ "\x7d]\x7d"

def arguments : List String := ["graph", "rules.json"]

def command : Command := .graph (some "rules.json") none false

theorem accepted : read arguments = .ok command := rfl

end Sample

open Sample

end Command

end CommandLine

end EntityRules
