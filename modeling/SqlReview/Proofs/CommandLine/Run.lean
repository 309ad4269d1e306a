import SqlReview.CommandLine.Run
import SqlReview.Proofs.Analysis.Script
import SqlReview.Proofs.Lexical.Idle

/-!
# Runs on a given text

A run on a script notes what its analyses come to and answers with the report on them. It is refused
when the script is blank, and when there is no statement in it: when only blanks and semicolons are
left of it without its comments.
-/

namespace SqlReview.CommandLine

open SqlReview.Text SqlReview.Lexical SqlReview.Report SqlReview.Rule

/-! ### What a run gives -/

/-- Whether a run answers with a value and adds some events to those that were noted before. -/
def Run.Gives {α : Type} (run : Run α) (x : α) (events : List Event) : Prop :=
  ∀ noted, StateT.run (ExceptT.run run) noted = (.ok x, noted ++ events)

variable {α β : Type}

private theorem gives_pure (x : α) : Run.Gives (pure x) x [] := by
  intro noted
  rw [List.append_nil]
  rfl

private theorem gives_note (event : Event) : (note event).Gives () [event] :=
  fun _ => rfl

private theorem Run.Gives.bind {run : Run α} {next : α → Run β} {x : α} {y : β}
    {events more : List Event} (h : run.Gives x events) (h' : (next x).Gives y more) :
    Run.Gives (run >>= next) y (events ++ more) := by
  intro noted
  have hnext := h' (noted ++ events)
  rw [List.append_assoc] at hnext
  rw [ExceptT.run_bind, StateT.run_bind, h noted]
  exact hnext

/-- What comes after a run that only notes events. -/
theorem Run.Gives.followed {run : Run Unit} {next : Run β} {y : β} {events more : List Event}
    (h : run.Gives () events) (h' : next.Gives y more) :
    Run.Gives (run >>= fun _ => next) y (events ++ more) :=
  h.bind h'

/-- A run over a list notes the events of its steps one after the other. -/
theorem gives_forIn {l : List α} {step : α → Run Unit} {events : α → List Event}
    (h : ∀ a, (step a).Gives () (events a)) :
    Run.Gives (forIn l PUnit.unit fun a _ => do step a; pure (.yield .unit)) PUnit.unit
      (l.flatMap events) := by
  induction l with
  | nil => exact gives_pure PUnit.unit
  | cons a l ih =>
    rw [List.forIn_cons, List.flatMap_cons]
    have hstep := (h a).followed (gives_pure (ForInStep.yield PUnit.unit))
    rw [List.append_nil] at hstep
    exact hstep.bind ih

private theorem Run.Gives.outcome {run : Run α} {x : α} {events : List Event}
    (h : run.Gives x events) : run.outcome = (.ok x, events) :=
  h []

/-! ### Analyses -/

/-- What is noted of an analysis: the rules that have something to say of the statement, and what
the analysis comes to. -/
def eventsOf (rules : List Rule) (a : Analysis) : List Event :=
  (fired rules (Subject.of a.sql a.result.complexity.metrics)).map
      (fun r => .ruleFired r.id r.severity) ++
    [.statementAnalyzed a.result.complexity a.result.recommendations.length]

private theorem gives_noteAnalysis (rules : List Rule) (a : Analysis) :
    (noteAnalysis rules a).Gives () (eventsOf rules a) := by
  have hrules := gives_forIn
    (l := fired rules (Subject.of a.sql a.result.complexity.metrics))
    fun r => gives_note (.ruleFired r.id r.severity)
  rw [← List.map_eq_flatMap] at hrules
  exact hrules.followed (gives_note _)

/-- The answer on analyses: their exit code and the report on them. -/
def answerOn (options : Options) (analyses : List Analysis) : Answer :=
  { exitCode := exitCode analyses, output := report options analyses }

private theorem gives_analyzeScript (settings : Settings) (options : Options) {script : String}
    (h : statements script.toList ≠ []) :
    (analyzeScript settings options script).Gives
      (answerOn options (analysesOf settings script.toList))
      ((analysesOf settings script.toList).flatMap (eventsOf (enabled settings)) ++
        [.finished (analysesOf settings script.toList).length]) := by
  have hempty : (statements script.toList).isEmpty = false := by
    rw [Bool.eq_false_iff, ne_eq, List.isEmpty_iff]
    exact h
  rw [analyzeScript]
  simp only [hempty]
  have hanalyses := gives_forIn (l := analysesOf settings script.toList)
    (gives_noteAnalysis (enabled settings))
  have hfinished := (gives_note (.finished (analysesOf settings script.toList).length)).followed
    (gives_pure (answerOn options (analysesOf settings script.toList)))
  exact hanalyses.followed hfinished

/-! ### A given text -/

/-- The three ways in which a run on a given text ends. -/
theorem result_given (world : World) (settings : Settings) (options : Options) (text : String) :
    (analyzeSource world settings options (.given text)).result =
      if isBlankText text.toList then .error (.badInput "no SQL to analyze")
      else if statements text.toList = [] then
        .error (.badInput "input contains only comments or separators")
      else .ok (answerOn options (analysesOf settings text.toList)) := by
  by_cases hblank : isBlankText text.toList = true
  · have hscript : (Source.given text).script world =
        .error (.badInput "no SQL to analyze") := if_pos hblank
    rw [if_pos hblank, analyzeSource, hscript]
    rfl
  · have hscript : (Source.given text).script world = .ok text := if_neg hblank
    have hrun : analyzeSource world settings options (.given text) =
        analyzeScript settings options text := by
      rw [analyzeSource, hscript]
      rfl
    rw [if_neg hblank, hrun]
    by_cases hnone : statements text.toList = []
    · rw [if_pos hnone, analyzeScript, hnone]
      rfl
    · rw [if_neg hnone, Run.result, (gives_analyzeScript settings options hnone).outcome]

/-- The analyses of a script are about its statements. -/
theorem map_sql_analysesOf (settings : Settings) (script : List Char) :
    (analysesOf settings script).map (·.sql) = statements script := by
  have htrim : (statements script).map trim = statements script := by
    conv_rhs => rw [← List.map_id (statements script)]
    exact List.map_congr_left fun t ht => trim_of_mem_statements ht
  conv_rhs => rw [← htrim, ← List.zipIdx_map_fst 0 (statements script), List.map_map]
  rw [analysesOf, examineAll, List.map_map]
  rfl

private theorem analysesOf_eq_nil_iff (settings : Settings) (script : List Char) :
    analysesOf settings script = [] ↔ Idle (removeComments script) := by
  rw [← statements_eq_nil_iff, ← map_sql_analysesOf settings, List.map_eq_nil_iff]

private theorem isBlankText_of_mem_analysesOf {settings : Settings} {script : List Char}
    {a : Analysis} (h : a ∈ analysesOf settings script) :
    isBlankText (removeComments a.sql) = false := by
  have hmem : a.sql ∈ statements script := by
    rw [← map_sql_analysesOf settings]
    exact List.mem_map_of_mem h
  simpa [holdsCode] using holdsCode_of_mem_statements hmem

/-- A run on a given text rejects exactly the texts without code, whatever the settings, the
disabled rules and the options are. It says that there is nothing to analyze if and only if the text
is blank; it says that there are only comments or separators if and only if the text is not blank,
but only blanks and semicolons are left of it without its comments; and otherwise it answers with
the report on the analyses of the statements, of which there is at least one. No statement is blank
without its comments. -/
theorem result_given_iff (world : World) (settings : Settings) (ids : List String)
    (options : Options) (text : String) :
    let result := (analyzeSource world (settings.disable ids) options (.given text)).result
    let analyses := analysesOf (settings.disable ids) text.toList
    (result = .error (.badInput "no SQL to analyze") ↔ isBlankText text.toList = true) ∧
      (result = .error (.badInput "input contains only comments or separators") ↔
        isBlankText text.toList = false ∧ Idle (removeComments text.toList)) ∧
      (result = .ok (answerOn options analyses) ∧ analyses ≠ [] ↔
        isBlankText text.toList = false ∧ ¬ Idle (removeComments text.toList)) ∧
      analyses.map (·.sql) = statements text.toList ∧
      ∀ a ∈ analyses, isBlankText (removeComments a.sql) = false := by
  intro result analyses
  have hresult : result = _ := result_given world (settings.disable ids) options text
  have hnone := statements_eq_nil_iff text.toList
  have hempty := analysesOf_eq_nil_iff (settings.disable ids) text.toList
  have hsql := map_sql_analysesOf (settings.disable ids) text.toList
  have hcode : ∀ a ∈ analyses, isBlankText (removeComments a.sql) = false :=
    fun a ha => isBlankText_of_mem_analysesOf ha
  by_cases hblank : isBlankText text.toList = true
  · rw [if_pos hblank] at hresult
    refine ⟨iff_of_true hresult hblank, iff_of_false ?_ ?_, iff_of_false ?_ ?_, hsql, hcode⟩
    · simp [hresult]
    · simp [hblank]
    · simp [hresult]
    · simp [hblank]
  · rw [if_neg hblank] at hresult
    have hsome : isBlankText text.toList = false := Bool.eq_false_iff.mpr hblank
    by_cases hidle : Idle (removeComments text.toList)
    · rw [if_pos (hnone.mpr hidle)] at hresult
      refine ⟨iff_of_false ?_ hblank, iff_of_true hresult ⟨hsome, hidle⟩, iff_of_false ?_ ?_,
        hsql, hcode⟩
      · simp [hresult]
      · simp [hresult]
      · exact fun h => h.2 hidle
    · rw [if_neg (mt hnone.mp hidle)] at hresult
      refine ⟨iff_of_false ?_ hblank, iff_of_false ?_ ?_,
        iff_of_true ⟨hresult, mt hempty.mp hidle⟩ ⟨hsome, hidle⟩, hsql, hcode⟩
      · simp [hresult]
      · simp [hresult]
      · exact fun h => hidle h.2

/-- A script with a statement between comments and separators. -/
theorem result_given_between_separators :
    let analyses := analysesOf (Settings.disable {} []) "-- a;\n; SELECT ';' /* ; */ ;".toList
    ∃ a ∈ analyses, a.sql = "SELECT ';' /* ; */".toList ∧
      isBlankText (removeComments a.sql) = false := by
  intro analyses
  have hgiven := result_given_iff { read := fun _ => .error .missing } {} [] {}
    "-- a;\n; SELECT ';' /* ; */ ;"
  have hsql : analyses.map (·.sql) = ["SELECT ';' /* ; */".toList] :=
    hgiven.2.2.2.1.trans (by decide)
  obtain ⟨a, ha, heq⟩ := List.mem_map.mp (hsql ▸ List.mem_singleton_self _)
  exact ⟨a, ha, heq, hgiven.2.2.2.2 a ha⟩

end SqlReview.CommandLine
