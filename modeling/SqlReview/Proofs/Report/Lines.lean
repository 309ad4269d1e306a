import Mathlib.Data.List.Forall2
import SqlReview.Proofs.Analysis.Script
import SqlReview.Proofs.Rule.Wording
import SqlReview.Report.Basic
import SqlReview.Text.Split

/-!
# Reports read back

A report that is neither verbose nor in colour is a list of lines. The kind of a line shows at its
beginning and no text within a line breaks it, so that every line can be read on its own. What the
lines say of a statement ends where the next gap is, so that the lines tell the verdict on each
statement and the number of statements.
-/

namespace SqlReview.Report

open SqlReview.Text SqlReview.Query SqlReview.Rule

/-! ### Lines -/

/-- A line of a report that is neither verbose nor in colour. -/
inductive Line where
  | header (n : Nat)
  | complexity (level : Level) (score : Nat)
  | nothing
  | recommendation (severity : Severity) (id title : String)
  | description (text : String)
  | suggestion (text : String)
  | gap
  | totals (summary : Summary)
  deriving DecidableEq

namespace Line

/-- A line as it is written. -/
def text : Line → String
  | header n => "Statement #" ++ toString n
  | complexity level score =>
    String.join ["Complexity: ", level.label, " (score: ", toString score, ")"]
  | nothing => "No recommendations"
  | recommendation severity id title =>
    String.join ["  [", severity.label, "] ", id, ": ", title]
  | description text => "    " ++ text
  | suggestion text => "    -> " ++ text
  | gap => ""
  | totals summary => Report.totals summary

private theorem text_header (n : Nat) : (header n).text = "Statement #" ++ toString n :=
  rfl

private theorem text_complexity (level : Level) (score : Nat) : (complexity level score).text =
    String.join ["Complexity: ", level.label, " (score: ", toString score, ")"] :=
  rfl

private theorem text_nothing : nothing.text = "No recommendations" :=
  rfl

private theorem text_recommendation (severity : Severity) (id title : String) :
    (recommendation severity id title).text =
      String.join ["  [", severity.label, "] ", id, ": ", title] :=
  rfl

private theorem text_description (s : String) : (description s).text = "    " ++ s :=
  rfl

private theorem text_suggestion (s : String) : (suggestion s).text = "    -> " ++ s :=
  rfl

private theorem text_totals (s : Summary) : (totals s).text = Report.totals s :=
  rfl

/-- Whether the texts in a line are such that the line can be told from others. -/
def IsWorded : Line → Prop
  | recommendation _ id title => IsLine id ∧ ':' ∉ id.toList ∧ IsLine title
  | description text => IsDescription text
  | suggestion text => IsLine text
  | _ => True

/-! ### Reading a line on its own -/

/-- The number that a text begins with, and what stands behind it. -/
def number (s : List Char) : Nat × List Char :=
  (Nat.ofDigitChars 10 (s.takeWhile Char.isDigit) 0, s.dropWhile Char.isDigit)

/-- What stands before a mark and what stands behind it. -/
def upTo (m : Char) (s : List Char) : List Char × List Char :=
  (s.takeWhile (· != m), (s.dropWhile (· != m)).drop 1)

/-- The level with a label. -/
def levelOf? (label : List Char) : Option Level :=
  [Level.low, .medium, .high].find? (·.label.toList = label)

/-- The tier with a label. -/
def severityOf? (label : List Char) : Option Severity :=
  [Severity.critical, .warning, .info].find? (·.label.toList = label)

/-- The line that numbers a statement. -/
def header? (s : List Char) : Option Line := do
  let s ← s.dropPrefix? "Statement #".toList
  let (n, []) := number s | none
  some (header n)

/-- The line on the complexity of a statement. -/
def complexity? (s : List Char) : Option Line := do
  let s ← s.dropPrefix? "Complexity: ".toList
  let (label, s) := upTo ' ' s
  let level ← levelOf? label
  let s ← s.dropPrefix? "(score: ".toList
  let (score, [')']) := number s | none
  some (complexity level score)

/-- The line that says that nothing is recommended. -/
def nothing? (s : List Char) : Option Line :=
  if s = "No recommendations".toList then some nothing else none

/-- The line on top of a recommendation. -/
def recommendation? (s : List Char) : Option Line := do
  let s ← s.dropPrefix? "  [".toList
  let (label, s) := upTo ']' s
  let severity ← severityOf? label
  let s ← s.dropPrefix? [' ']
  let (id, s) := upTo ':' s
  let title ← s.dropPrefix? [' ']
  some (recommendation severity (String.ofList id) (String.ofList title))

/-- The line with the suggestion of a recommendation. -/
def suggestion? (s : List Char) : Option Line :=
  (s.dropPrefix? "    -> ".toList).map (suggestion <| String.ofList ·)

/-- The line with the description of a recommendation. -/
def description? (s : List Char) : Option Line :=
  (s.dropPrefix? "    ".toList).map (description <| String.ofList ·)

/-- The line at the end of a report. -/
def totals? (s : List Char) : Option Line := do
  let (statements, s) := number s
  let s ← s.dropPrefix? " statement(s): ".toList
  let (critical, s) := number s
  let s ← s.dropPrefix? " critical, ".toList
  let (warning, s) := number s
  let s ← s.dropPrefix? " warning(s), ".toList
  let (info, s) := number s
  if s = " info".toList then some (totals { statements, critical, warning, info }) else none

/-- The line that a text is, read on its own. The kind of a line shows at its beginning. -/
def read? (s : List Char) : Option Line :=
  match s with
  | [] => some gap
  | 'S' :: _ => header? s
  | 'C' :: _ => complexity? s
  | 'N' :: _ => nothing? s
  | ' ' :: ' ' :: '[' :: _ => recommendation? s
  | ' ' :: ' ' :: ' ' :: ' ' :: '-' :: _ => suggestion? s
  | ' ' :: _ => description? s
  | _ => totals? s

private theorem number_toString (n : Nat) {s : List Char} (h : s.head?.any Char.isDigit = false) :
    number ((toString n).toList ++ s) = (n, s) := by
  have hdigits : ∀ c ∈ (toString n).toList, c.isDigit = true := fun _ => isDigit_of_mem_toString
  have htake : s.takeWhile Char.isDigit = [] := by
    cases s with
    | nil => rfl
    | cons c s => exact List.takeWhile_cons_of_neg (Bool.eq_false_iff.mp h)
  have hdrop : s.dropWhile Char.isDigit = s := by
    cases s with
    | nil => rfl
    | cons c s => exact List.dropWhile_cons_of_neg (Bool.eq_false_iff.mp h)
  rw [number, List.takeWhile_append_of_pos hdigits, List.dropWhile_append_of_pos hdigits, htake,
    hdrop, List.append_nil, Nat.toString_eq_repr, Nat.toList_repr, Nat.ofDigitChars_ten_toDigits]

private theorem upTo_append {m : Char} {a : List Char} (h : m ∉ a) (s : List Char) :
    upTo m (a ++ m :: s) = (a, s) := by
  have hbefore : ∀ c ∈ a, (c != m) = true := by
    rintro c hc
    rw [bne_iff_ne]
    rintro rfl
    exact h hc
  rw [upTo, List.takeWhile_append_of_pos hbefore, List.dropWhile_append_of_pos hbefore]
  simp

private theorem dropPrefix?_append (p s : List Char) : (p ++ s).dropPrefix? p = some s :=
  List.dropPrefix?_append_of_beq s (beq_self_eq_true p)

private theorem header?_text (n : Nat) : header? (header n).text.toList = some (header n) := by
  have hnumber : number (toString n).toList = (n, []) := by
    simpa using number_toString n (s := []) rfl
  simp only [header?, text_header, String.toList_append, dropPrefix?_append, Option.bind_eq_bind,
    Option.bind_some, hnumber]

private theorem levelOf?_label (level : Level) : levelOf? level.label.toList = some level := by
  cases level <;> simp [levelOf?, Level.label]

private theorem complexity?_text (level : Level) (score : Nat) :
    complexity? (complexity level score).text.toList = some (complexity level score) := by
  have hlabel : ' ' ∉ level.label.toList := by cases level <;> simp [Level.label]
  have hscore : " (score: ".toList = ' ' :: "(score: ".toList := by simp
  have hnumber : number ((toString score).toList ++ ")".toList) = (score, [')']) :=
    number_toString score (by simp)
  simp only [complexity?, text_complexity, String.toList_join, List.flatMap_cons, List.flatMap_nil,
    List.append_nil, dropPrefix?_append, Option.bind_eq_bind, Option.bind_some, hscore,
    List.cons_append, upTo_append hlabel, levelOf?_label, hnumber]

private theorem severityOf?_label (severity : Severity) :
    severityOf? severity.label.toList = some severity := by
  cases severity <;> simp [severityOf?, Severity.label]

private theorem recommendation?_text (severity : Severity) {id title : String}
    (hid : ':' ∉ id.toList) :
    recommendation? (recommendation severity id title).text.toList =
      some (recommendation severity id title) := by
  have hlabel : ']' ∉ severity.label.toList := by
    cases severity <;> simp [Severity.label]
  have hbracket : "] ".toList = ']' :: [' '] := by simp
  have hcolon : ": ".toList = ':' :: [' '] := by simp
  have hspace : ∀ s : List Char, (' ' :: s).dropPrefix? [' '] = some s := dropPrefix?_append [' ']
  simp only [recommendation?, text_recommendation, String.toList_join, List.flatMap_cons,
    List.flatMap_nil, List.append_nil, dropPrefix?_append, Option.bind_eq_bind, Option.bind_some,
    hbracket, hcolon, List.cons_append, List.nil_append, upTo_append hlabel, severityOf?_label,
    hspace, upTo_append hid, String.ofList_toList]

private theorem totals_eq (s : Summary) : Report.totals s =
    toString s.statements ++ " statement(s): " ++ toString s.critical ++ " critical, " ++
      toString s.warning ++ " warning(s), " ++ toString s.info ++ " info" :=
  rfl

private theorem totals?_text (s : Summary) : totals? (totals s).text.toList = some (totals s) := by
  have hnumber : ∀ (n : Nat) {p : String}, p.toList.head? = some ' ' → ∀ r,
      number ((toString n).toList ++ (p.toList ++ r)) = (n, p.toList ++ r) := by
    intro n p hp r
    apply number_toString n
    simp [hp]
  have hstatements := hnumber s.statements (p := " statement(s): ") (by simp)
  have hcritical := hnumber s.critical (p := " critical, ") (by simp)
  have hwarning := hnumber s.warning (p := " warning(s), ") (by simp)
  have hinfo : number ((toString s.info).toList ++ " info".toList) = (s.info, " info".toList) :=
    number_toString s.info (by simp)
  simp only [totals?, text_totals, totals_eq, String.toList_append, List.append_assoc, hstatements,
    hcritical, hwarning, hinfo, dropPrefix?_append, Option.bind_eq_bind, Option.bind_some, if_pos]

private theorem description?_text (s : String) :
    description? (description s).text.toList = some (description s) := by
  simp only [description?, text_description, String.toList_append, dropPrefix?_append,
    Option.map_some, String.ofList_toList]

private theorem suggestion?_text (s : String) :
    suggestion? (suggestion s).text.toList = some (suggestion s) := by
  simp only [suggestion?, text_suggestion, String.toList_append, dropPrefix?_append,
    Option.map_some, String.ofList_toList]

private theorem read?_of_isDigit {c : Char} (h : c.isDigit = true) (s : List Char) :
    read? (c :: s) = totals? (c :: s) := by
  have hne : ∀ d : Char, d.isDigit = false → c ≠ d := by
    rintro d hd rfl
    exact Bool.eq_false_iff.mp hd h
  rw [read?]
  all_goals simp [hne 'S' rfl, hne 'C' rfl, hne 'N' rfl, hne ' ' rfl]

/-- A line is read as the line that was written. -/
theorem read?_text {l : Line} (h : l.IsWorded) : read? l.text.toList = some l := by
  cases l with
  | header n =>
    have hbegin : "Statement #".toList = 'S' :: "tatement #".toList := by simp
    rw [← header?_text n, text_header, String.toList_append, hbegin]
    rfl
  | complexity level score =>
    have hbegin : "Complexity: ".toList = 'C' :: "omplexity: ".toList := by simp
    rw [← complexity?_text level score, text_complexity, String.toList_join, List.flatMap_cons,
      hbegin]
    rfl
  | nothing =>
    have hbegin : "No recommendations".toList = 'N' :: "o recommendations".toList := by simp
    rw [text_nothing, hbegin, read?, ← hbegin]
    exact if_pos rfl
  | recommendation severity id title =>
    have hbegin : "  [".toList = [' ', ' ', '['] := by simp
    rw [← recommendation?_text severity h.2.1, text_recommendation, String.toList_join,
      List.flatMap_cons, hbegin]
    rfl
  | description s =>
    obtain ⟨c, hhead, hc⟩ := h.head
    obtain ⟨t, ht⟩ := List.head?_eq_some_iff.mp hhead
    have hbegin : "    ".toList = [' ', ' ', ' ', ' '] := by simp
    rw [← description?_text s, text_description, String.toList_append, hbegin, ht]
    simp only [List.cons_append, List.nil_append]
    rw [read?]
    · simp
    · simpa using hc
  | suggestion s =>
    have hbegin : "    -> ".toList = [' ', ' ', ' ', ' ', '-', '>', ' '] := by simp
    rw [← suggestion?_text s, text_suggestion, String.toList_append, hbegin]
    rfl
  | gap => rfl
  | totals s =>
    obtain ⟨c, l, hl, hdigit⟩ := exists_cons_of_toString s.statements
    rw [← totals?_text s, text_totals, totals_eq]
    simp only [String.toList_append, hl, List.cons_append]
    exact read?_of_isDigit hdigit _

/-! ### Lines end where they end -/

/-- The name of a level is on one line. -/
theorem isLine_label_level (level : Level) : IsLine level.label := by
  cases level <;> exact isLine_ofList (by decide)

/-- The name of a tier is on one line. -/
theorem isLine_label_severity (severity : Severity) : IsLine severity.label := by
  cases severity <;> exact isLine_ofList (by decide)

/-- A line whose texts are on one line each is on one line. -/
theorem isLine_text {l : Line} (h : l.IsWorded) : IsLine l.text := by
  cases l with
  | header n => exact (isLine_ofList (by decide)).append (isLine_toString n)
  | complexity level score =>
    apply isLine_join
    simp only [List.forall_mem_cons]
    exact ⟨isLine_ofList (by decide), isLine_label_level level, isLine_ofList (by decide),
      isLine_toString score, isLine_ofList (by decide), List.forall_mem_nil _⟩
  | nothing => exact isLine_ofList (by decide)
  | recommendation severity id title =>
    apply isLine_join
    simp only [List.forall_mem_cons]
    exact ⟨isLine_ofList (by decide), isLine_label_severity severity, isLine_ofList (by decide),
      h.1, isLine_ofList (by decide), h.2.2, List.forall_mem_nil _⟩
  | description s => exact (isLine_ofList (by decide)).append h.line
  | suggestion s => exact (isLine_ofList (by decide)).append h
  | gap => exact isLine_ofList (by decide)
  | totals s =>
    rw [text_totals, totals_eq]
    exact (((((((isLine_toString _).append (isLine_ofList (by decide))).append
      (isLine_toString _)).append (isLine_ofList (by decide))).append (isLine_toString _)).append
      (isLine_ofList (by decide))).append (isLine_toString _)).append (isLine_ofList (by decide))

end Line

/-! ### Reports in lines -/

/-- The lines of a recommendation. -/
def recommendationLines (x : Recommendation) : List Line :=
  [.recommendation x.severity x.id x.title, .description x.description, .suggestion x.suggestion]

/-- The lines of an analysis. -/
def analysisLines (a : Analysis) : List Line :=
  [Line.header (a.index + 1),
      Line.complexity a.result.complexity.level a.result.complexity.score.toNat] ++
    (if a.result.recommendations = [] then [Line.nothing] else []) ++
    a.result.recommendations.flatMap recommendationLines ++ [Line.gap]

/-- The lines of a report. -/
def reportLines (analyses : List Analysis) : List Line :=
  analyses.flatMap analysisLines ++ [Line.totals (.of analyses)]

/-- Lines as they are written one below the other. -/
def writeLines (lines : List Line) : List Char :=
  lines.flatMap fun l => l.text.toList ++ ['\n']

/-- Pieces without colour are written one after the other. -/
theorem toList_printPieces (pieces : List Piece) :
    (printPieces false pieces).toList = pieces.flatMap (·.text.toList) := by
  have hprint : ∀ p : Piece, p.print false = p.text := by
    intro p
    rw [Piece.print]
    split <;> rfl
  rw [printPieces, String.toList_join, List.flatMap_map]
  simp only [hprint]

private theorem writeLines_append (lines more : List Line) :
    writeLines (lines ++ more) = writeLines lines ++ writeLines more :=
  List.flatMap_append ..

private theorem writeLines_flatMap {α : Type} (f : α → List Line) (l : List α) :
    writeLines (l.flatMap f) = l.flatMap fun x => writeLines (f x) :=
  List.flatMap_assoc ..

/-- No lines are written as nothing. -/
theorem writeLines_nil : writeLines [] = [] :=
  rfl

private theorem writeLines_cons (l : Line) (lines : List Line) :
    writeLines (l :: lines) = l.text.toList ++ "\n".toList ++ writeLines lines := by
  have hbreak : "\n".toList = ['\n'] := by simp
  rw [hbreak]
  rfl

private theorem toString_string (s : String) : toString s = s :=
  rfl

private theorem flatMap_recommendationPieces (x : Recommendation) :
    (recommendationPieces x).flatMap (·.text.toList) = writeLines (recommendationLines x) := by
  have hopen : "  [".toList = "  ".toList ++ "[".toList := by simp
  have hclose : "] ".toList = "]".toList ++ " ".toList := by simp
  simp only [recommendationPieces, recommendationLines, severityPiece, plain, List.flatMap_cons,
    List.flatMap_nil, writeLines_cons, Line.text_recommendation, Line.text_description,
    Line.text_suggestion, String.toList_append, String.toList_join,
    List.append_assoc, List.append_nil, hopen, hclose]
  rfl

private theorem flatMap_analysisPieces (a : Analysis) :
    (analysisPieces false a).flatMap (·.text.toList) = writeLines (analysisLines a) := by
  have hnothing :
      (if a.result.recommendations.isEmpty = true then "No recommendations\n" else "").toList =
        writeLines (if a.result.recommendations = [] then [Line.nothing] else []) := by
    simp only [List.isEmpty_iff]
    split <;> rfl
  have hrecommendations :
      (a.result.recommendations.flatMap recommendationPieces).flatMap (·.text.toList) =
        writeLines (a.result.recommendations.flatMap recommendationLines) := by
    rw [List.flatMap_assoc, writeLines_flatMap]
    simp only [flatMap_recommendationPieces]
  have hclose : ")\n".toList = ")".toList ++ "\n".toList := by simp
  rw [analysisPieces, analysisLines, List.flatMap_append, List.flatMap_append, writeLines_append,
    writeLines_append, writeLines_append, hrecommendations, ← hnothing]
  simp only [List.flatMap_cons, List.flatMap_nil, plain, String.toList_append, String.toList_join,
    toString_string, writeLines_cons, Line.text_header, Line.text_complexity, hclose,
    List.append_assoc, List.append_nil]
  rfl

/-- A report is written line by line. -/
theorem toList_report (analyses : List Analysis) :
    (report { format := .text, colored := false, verbose := false } analyses).toList =
      writeLines (reportLines analyses) := by
  change (printPieces false (reportPieces false analyses)).toList = _
  rw [toList_printPieces, reportPieces, reportLines, List.flatMap_append, List.flatMap_assoc,
    writeLines_append, writeLines_flatMap, writeLines_cons]
  simp only [flatMap_analysisPieces, List.flatMap_cons, List.flatMap_nil, plain, Line.text_totals,
    List.append_assoc, writeLines_nil]

/-! ### Lines read back -/

variable {settings : Settings} {statements : List (List Char)}

private theorem isWorded_of_mem_reportLines {l : Line}
    (h : l ∈ reportLines (examineAll (enabled settings) statements)) : l.IsWorded := by
  rcases List.mem_append.mp h with h | h
  · obtain ⟨a, ha, hl⟩ := List.mem_flatMap.mp h
    simp only [analysisLines, List.mem_append, List.mem_flatMap] at hl
    rcases hl with ((hl | hl) | ⟨x, hx, hl⟩) | hl
    · simp only [List.mem_cons, List.not_mem_nil, or_false] at hl
      rcases hl with rfl | rfl <;> trivial
    · split at hl
      · obtain rfl := List.mem_singleton.mp hl
        trivial
      · exact absurd hl List.not_mem_nil
    · have hworded := isWorded_of_mem_examineAll ha hx
      simp only [recommendationLines, List.mem_cons, List.not_mem_nil, or_false] at hl
      rcases hl with rfl | rfl | rfl
      · exact ⟨hworded.id, hworded.colon, hworded.title⟩
      · exact hworded.description
      · exact hworded.suggestion
    · obtain rfl := List.mem_singleton.mp hl
      trivial
  · obtain rfl := List.mem_singleton.mp h
    trivial

private theorem splitAt_of_notMem {separator : Char} {s : List Char} (h : separator ∉ s) :
    splitAt separator s = [s] := by
  induction s with
  | nil => rfl
  | cons c s ih =>
    obtain ⟨hc, hs⟩ := List.ne_and_not_mem_of_not_mem_cons h
    rw [splitAt, if_neg (Ne.symm hc), ih hs]

private theorem splitAt_writeLines {lines : List Line} (h : ∀ l ∈ lines, l.IsWorded) :
    splitAt '\n' (writeLines lines) = lines.map (·.text.toList) ++ [[]] := by
  induction lines with
  | nil => rfl
  | cons l lines ih =>
    obtain ⟨hl, hlines⟩ := List.forall_mem_cons.mp h
    have hbreak : '\n' ∉ l.text.toList := (Line.isLine_text hl).notMem (by decide)
    have hcons : writeLines (l :: lines) = l.text.toList ++ '\n' :: writeLines lines := by
      rw [writeLines, List.flatMap_cons, List.append_assoc]
      rfl
    rw [hcons, splitAt_append, splitAt_of_notMem hbreak, ih hlines]
    rfl

/-- A report breaks where a line of it ends, and nowhere else. -/
theorem splitAt_report (settings : Settings) (statements : List (List Char)) :
    splitAt '\n' (report { format := .text, colored := false, verbose := false }
        (examineAll (enabled settings) statements)).toList =
      (reportLines (examineAll (enabled settings) statements)).map (·.text.toList) ++ [[]] := by
  rw [toList_report, splitAt_writeLines fun l => isWorded_of_mem_reportLines]

/-- Every line of a report, read on its own, is the line that was written. -/
theorem map_read?_text (settings : Settings) (statements : List (List Char)) :
    ((reportLines (examineAll (enabled settings) statements)).map (·.text.toList)).map
        Line.read? =
      (reportLines (examineAll (enabled settings) statements)).map some := by
  rw [List.map_map]
  apply List.map_congr_left
  intro l hl
  exact Line.read?_text (isWorded_of_mem_reportLines hl)

/-! ### Analyses shown alike -/

/-- Whether two analyses are shown alike. -/
structure ShownAlike (a b : Analysis) : Prop where
  index : a.index = b.index
  level : a.result.complexity.level = b.result.complexity.level
  score : a.result.complexity.score = b.result.complexity.score
  recommendations : a.result.recommendations = b.result.recommendations

private theorem ShownAlike.analysisLines_eq {a b : Analysis} (h : ShownAlike a b) :
    analysisLines a = analysisLines b := by
  rw [analysisLines, analysisLines, h.index, h.level, h.score, h.recommendations]

/-- Recommendations are told by their lines, which end before a gap. -/
theorem recommendations_of_lines {xs ys : List Recommendation} {r t : List Line}
    (h : xs.flatMap recommendationLines ++ Line.gap :: r =
      ys.flatMap recommendationLines ++ Line.gap :: t) : xs = ys ∧ r = t := by
  induction xs generalizing ys with
  | nil =>
    cases ys with
    | nil => exact ⟨rfl, (List.cons.inj h).2⟩
    | cons y ys => simp [recommendationLines] at h
  | cons x xs ih =>
    cases ys with
    | nil => simp [recommendationLines] at h
    | cons y ys =>
      simp only [List.flatMap_cons, recommendationLines, List.cons_append, List.nil_append,
        List.cons.injEq, Line.recommendation.injEq, Line.description.injEq,
        Line.suggestion.injEq] at h
      obtain ⟨⟨hseverity, hid, htitle⟩, hdescription, hsuggestion, hrest⟩ := h
      obtain ⟨rfl, rfl⟩ := ih hrest
      cases x
      cases y
      simp_all

private theorem recommendations_of_analysisLines {xs ys : List Recommendation} {r t : List Line}
    (h : (if xs = [] then [Line.nothing] else []) ++
        (xs.flatMap recommendationLines ++ Line.gap :: r) =
      (if ys = [] then [Line.nothing] else []) ++
        (ys.flatMap recommendationLines ++ Line.gap :: t)) :
    xs = ys ∧ r = t := by
  cases xs with
  | nil =>
    cases ys with
    | nil => simpa using h
    | cons y ys => simp [recommendationLines] at h
  | cons x xs =>
    cases ys with
    | nil => simp [recommendationLines] at h
    | cons y ys => exact recommendations_of_lines (by simpa using h)

/-- An analysis is told by its lines, and so is what follows it. -/
theorem shownAlike_of_lines {a b : Analysis} {r t : List Line}
    (h : analysisLines a ++ r = analysisLines b ++ t) : ShownAlike a b ∧ r = t := by
  simp only [analysisLines, List.cons_append, List.nil_append, List.append_assoc, List.cons.injEq,
    Line.header.injEq, Line.complexity.injEq, Nat.add_right_cancel_iff, UInt32.toNat_inj] at h
  obtain ⟨hindex, ⟨hlevel, hscore⟩, h⟩ := h
  obtain ⟨hrecommendations, rfl⟩ := recommendations_of_analysisLines h
  exact ⟨⟨hindex, hlevel, hscore, hrecommendations⟩, rfl⟩

private theorem forall₂_of_lines {as bs : List Analysis} {s t : Summary}
    (h : as.flatMap analysisLines ++ [Line.totals s] =
      bs.flatMap analysisLines ++ [Line.totals t]) :
    List.Forall₂ ShownAlike as bs := by
  induction as generalizing bs with
  | nil =>
    cases bs with
    | nil => exact .nil
    | cons b bs => simp [analysisLines] at h
  | cons a as ih =>
    cases bs with
    | nil => simp [analysisLines] at h
    | cons b bs =>
      rw [List.flatMap_cons, List.flatMap_cons, List.append_assoc, List.append_assoc] at h
      obtain ⟨hab, hrest⟩ := shownAlike_of_lines h
      exact .cons hab (ih hrest)

private theorem reportLines_eq_of_forall₂ {as bs : List Analysis}
    (h : List.Forall₂ ShownAlike as bs) : reportLines as = reportLines bs := by
  have hlines : as.flatMap analysisLines = bs.flatMap analysisLines := by
    induction h with
    | nil => rfl
    | cons hab _ ih => rw [List.flatMap_cons, List.flatMap_cons, hab.analysisLines_eq, ih]
  have htotal : ∀ severity, total severity as = total severity bs := by
    intro severity
    have hfold : ∀ n, as.foldl (fun n a => n + a.result.count severity) n =
        bs.foldl (fun n b => n + b.result.count severity) n := by
      clear hlines
      induction h with
      | nil => exact fun _ => rfl
      | cons hab _ ih =>
        intro n
        rw [List.foldl_cons, List.foldl_cons, Result.count, Result.count, hab.recommendations, ih]
    exact hfold 0
  rw [reportLines, reportLines, hlines, Summary.of, Summary.of, h.length_eq, htotal, htotal, htotal]

/-- A report that is neither verbose nor in colour can be read back. It consists of the lines that
were written for the statements, and every line, read on its own, is the line that was written: no
text of a statement passes for a header, a recommendation or the totals, nor hides one. Two reports
are the same when and only when they are on equally many statements, and on statements of the same
levels, scores and recommendations. -/
theorem report_reads_back (settings settings' : Settings)
    (statements statements' : List (List Char)) :
    let options : Options := { format := .text, colored := false, verbose := false }
    let analyses := examineAll (enabled settings) statements
    let analyses' := examineAll (enabled settings') statements'
    let lines := (reportLines analyses).map (·.text.toList)
    (splitAt '\n' (report options analyses).toList = lines ++ [[]] ∧
      lines.map Line.read? = (reportLines analyses).map some) ∧
    (report options analyses = report options analyses' ↔
      statements.length = statements'.length ∧ List.Forall₂ ShownAlike analyses analyses') := by
  intro options analyses analyses' lines
  refine ⟨⟨splitAt_report settings statements, map_read?_text settings statements⟩, ?_, ?_⟩
  · intro h
    have htexts := splitAt_report settings statements
    rw [h, splitAt_report settings' statements', List.append_left_inj] at htexts
    have hread := congrArg (List.map Line.read?) htexts
    rw [map_read?_text, map_read?_text] at hread
    have hlines : reportLines analyses' = reportLines analyses :=
      List.map_injective_iff.mpr (fun _ _ => Option.some.inj) hread
    have halike : List.Forall₂ ShownAlike analyses analyses' := forall₂_of_lines hlines.symm
    refine ⟨?_, halike⟩
    rw [← length_examineAll (enabled settings) statements, halike.length_eq, length_examineAll]
  · rintro ⟨-, halike⟩
    apply String.toList_inj.mp
    rw [toList_report, toList_report, reportLines_eq_of_forall₂ halike]

end SqlReview.Report
