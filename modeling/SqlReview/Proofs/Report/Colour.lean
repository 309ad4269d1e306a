import SqlReview.Proofs.Query.NameOrigin
import SqlReview.Proofs.Report.Lines
import SqlReview.Proofs.Text.Trim

/-!
# Reports in colour

A report in colour is the report without colour and escape sequences around some of its pieces. The
sequences can be told from the report because no piece has an escape character, as long as no
statement has one: all other text is printable or ends a line.
-/

namespace SqlReview.Report

open SqlReview.Text SqlReview.Lexical SqlReview.Query SqlReview.Rule

/-! ### Escape sequences -/

/-- The character that begins an escape sequence. -/
def escape : Char := '\x1B'

/-- A character of the parameters of an escape sequence. -/
def isParameter (c : Char) : Bool :=
  c.isDigit || c == ';'

/-- What stands behind the escape sequence that a text begins with. -/
def behindSequence? (s : List Char) : Option (List Char) :=
  match s with
  | e :: '[' :: s =>
    if e = escape then
      match s.dropWhile isParameter with
      | 'm' :: rest => some rest
      | _ => none
    else none
  | _ => none

private theorem length_behindSequence? {s rest : List Char} (h : behindSequence? s = some rest) :
    rest.length < s.length := by
  unfold behindSequence? at h
  split at h
  · next e s =>
    split at h
    · split at h
      · next tail hdrop =>
        obtain rfl := Option.some.inj h
        have hle := (s.dropWhile_sublist isParameter).length_le
        rw [hdrop] at hle
        simp only [List.length_cons] at hle ⊢
        omega
      · exact absurd h (by simp)
    · exact absurd h (by simp)
  · exact absurd h (by simp)

/-- A text from which all escape sequences are deleted. -/
def deleteSequences (s : List Char) : List Char :=
  match s with
  | [] => []
  | c :: s =>
    match _h : behindSequence? (c :: s) with
    | some rest => deleteSequences rest
    | none => c :: deleteSequences s
termination_by s.length
decreasing_by
  · exact length_behindSequence? _h
  · exact Nat.lt_succ_self _

/-- A text without its escape sequences. -/
def withoutSequences (s : String) : String :=
  String.ofList (deleteSequences s.toList)

/-- The escape sequence with the given parameters. -/
def sequence (parameters : List Char) : List Char :=
  escape :: '[' :: (parameters ++ ['m'])

private theorem behindSequence?_of_ne {c : Char} (h : c ≠ escape) (s : List Char) :
    behindSequence? (c :: s) = none := by
  unfold behindSequence?
  split
  · next heq =>
    obtain rfl := (List.cons.inj heq).1
    exact if_neg h
  · rfl

private theorem behindSequence?_sequence {parameters : List Char}
    (h : parameters.all isParameter = true) (s : List Char) :
    behindSequence? (sequence parameters ++ s) = some s := by
  have hdrop : (parameters ++ 'm' :: s).dropWhile isParameter = 'm' :: s := by
    rw [List.dropWhile_append_of_pos (List.all_eq_true.mp h)]
    rfl
  simp [sequence, behindSequence?, hdrop]

private theorem deleteSequences_of_some {s rest : List Char} (h : behindSequence? s = some rest) :
    deleteSequences s = deleteSequences rest := by
  cases s with
  | nil => exact absurd h (by simp [behindSequence?])
  | cons c s =>
    rw [deleteSequences]
    split
    · next heq => exact congrArg deleteSequences (Option.some.inj (heq.symm.trans h))
    · next heq => exact absurd (heq.symm.trans h) (by simp)

private theorem deleteSequences_of_none {c : Char} {s : List Char}
    (h : behindSequence? (c :: s) = none) : deleteSequences (c :: s) = c :: deleteSequences s := by
  rw [deleteSequences]
  split
  · next heq => exact absurd (heq.symm.trans h) (by simp)
  · rfl

private theorem deleteSequences_append {a : List Char} (h : escape ∉ a) (b : List Char) :
    deleteSequences (a ++ b) = a ++ deleteSequences b := by
  induction a with
  | nil => rfl
  | cons c a ih =>
    obtain ⟨hc, ha⟩ := List.ne_and_not_mem_of_not_mem_cons h
    rw [List.cons_append, deleteSequences_of_none (behindSequence?_of_ne (Ne.symm hc) _), ih ha,
      List.cons_append]

private theorem deleteSequences_sequence {parameters : List Char}
    (h : parameters.all isParameter = true) (s : List Char) :
    deleteSequences (sequence parameters ++ s) = deleteSequences s :=
  deleteSequences_of_some (behindSequence?_sequence h s)

/-- Sequences one after the other. -/
def IsSequences (s : List Char) : Prop :=
  ∃ runs : List (List Char), (∀ p ∈ runs, p.all isParameter = true) ∧ s = runs.flatMap sequence

private theorem IsSequences.deleteSequences_append {a : List Char} (h : IsSequences a)
    (b : List Char) : deleteSequences (a ++ b) = deleteSequences b := by
  obtain ⟨runs, hruns, rfl⟩ := h
  induction runs with
  | nil => rfl
  | cons p runs ih =>
    obtain ⟨hp, hruns⟩ := List.forall_mem_cons.mp hruns
    rw [List.flatMap_cons, List.append_assoc, deleteSequences_sequence hp, ih hruns]

/-! ### Painters -/

/-- A way to show styled text: a text stands between escape sequences, or alone. -/
structure Painter where
  paint : Style → String → String
  framed : ∀ style text, text ≠ "" → ∃ before after, IsSequences before ∧ IsSequences after ∧
    (paint style text).toList = before ++ text.toList ++ after

/-- A piece as a painter shows it. -/
def Painter.show (painter : Painter) (p : Piece) : String :=
  p.style.elim p.text (painter.paint · p.text)

/-- Pieces as a painter shows them one after the other. -/
def Painter.showAll (painter : Painter) (pieces : List Piece) : String :=
  String.join (pieces.map painter.show)

private theorem isSequences_escapeSequence {code : String}
    (h : code.toList.all isParameter = true) : IsSequences (escapeSequence code).toList := by
  have hopen : "\x1B[".toList = [escape, '['] := by simp [escape]
  have hclose : "m".toList = ['m'] := by simp
  refine ⟨[code.toList], by simpa using h, ?_⟩
  rw [escapeSequence, String.toList_append, String.toList_append, hopen, hclose]
  simp [sequence]

/-- The painter of reports in colour. -/
def sequencePainter : Painter where
  paint style text := escapeSequence style.code ++ text ++ escapeSequence "0"
  framed style text _ := by
    have hcode : style.code.toList.all isParameter = true := by
      cases style <;> simp [Style.code, isParameter]
    have hreset : "0".toList.all isParameter = true := by simp [isParameter]
    refine ⟨_, _, isSequences_escapeSequence hcode, isSequences_escapeSequence hreset, ?_⟩
    rw [String.toList_append, String.toList_append]

private theorem showAll_sequencePainter (pieces : List Piece) :
    sequencePainter.showAll pieces = printPieces true pieces := by
  have hshow : ∀ p : Piece, sequencePainter.show p = p.print true := by
    rintro ⟨_ | style, text⟩ <;> rfl
  exact congrArg String.join (List.map_congr_left fun p _ => hshow p)

/-! ### Pieces that a painter leaves readable -/

/-- Whether a text has no escape character. -/
def Unescaped (s : String) : Prop :=
  escape ∉ s.toList

/-- Whether a piece has no escape character, and there is something to be styled in it. -/
structure Piece.IsPaintable (p : Piece) : Prop where
  text : Unescaped p.text
  ne_empty : p.style ≠ none → p.text ≠ ""

private theorem deleteSequences_show (painter : Painter) {p : Piece} (h : p.IsPaintable)
    (s : List Char) :
    deleteSequences ((painter.show p).toList ++ s) = p.text.toList ++ deleteSequences s := by
  obtain ⟨_ | style, text⟩ := p
  · exact deleteSequences_append h.text s
  · have hne : text ≠ "" := h.ne_empty (Option.some_ne_none style)
    obtain ⟨before, after, hbefore, hafter, hpaint⟩ := painter.framed style text hne
    change deleteSequences ((painter.paint style text).toList ++ s) = _
    rw [hpaint, List.append_assoc, List.append_assoc, hbefore.deleteSequences_append,
      deleteSequences_append h.text, hafter.deleteSequences_append]

/-- Without escape sequences, pieces are what they are without colour. -/
theorem withoutSequences_showAll (painter : Painter) {pieces : List Piece}
    (h : ∀ p ∈ pieces, p.IsPaintable) :
    withoutSequences (painter.showAll pieces) = printPieces false pieces := by
  apply String.toList_inj.mp
  rw [withoutSequences, String.toList_ofList, toList_printPieces, Painter.showAll,
    String.toList_join]
  induction pieces with
  | nil => rw [List.map_nil, List.flatMap_nil, List.flatMap_nil, deleteSequences]
  | cons p pieces ih =>
    obtain ⟨hp, hpieces⟩ := List.forall_mem_cons.mp h
    rw [List.map_cons, List.flatMap_cons, List.flatMap_cons, deleteSequences_show painter hp,
      ih hpieces]

/-! ### Texts without escape characters -/

private theorem unescaped_ofList {l : List Char} (h : escape ∉ l) :
    Unescaped (String.ofList l) := by
  rwa [Unescaped, String.toList_ofList]

private theorem Unescaped.append {s t : String} (hs : Unescaped s) (ht : Unescaped t) :
    Unescaped (s ++ t) := by
  rw [Unescaped, String.toList_append, List.mem_append]
  exact fun h => h.elim hs ht

private theorem unescaped_of_isLine {s : String} (h : IsLine s) : Unescaped s :=
  h.notMem (by decide)

private theorem unescaped_intercalate {separator : String} (hs : Unescaped separator)
    {l : List String} (h : ∀ s ∈ l, Unescaped s) : Unescaped (String.intercalate separator l) := by
  rw [Unescaped, String.toList_intercalate]
  induction l with
  | nil => simp
  | cons s l ih =>
    obtain ⟨hfirst, hrest⟩ := List.forall_mem_cons.mp h
    cases l with
    | nil => rwa [List.map_singleton, List.intercalate_singleton]
    | cons t l =>
      rw [List.map_cons, List.map_cons, List.intercalate_cons_cons, List.mem_append,
        List.mem_append]
      rintro ((hmem | hmem) | hmem)
      · exact hfirst hmem
      · exact hs hmem
      · exact ih hrest hmem

private theorem unescaped_pushn {s : String} (hs : Unescaped s) (n : Nat) :
    Unescaped (s.pushn ' ' n) := by
  induction n with
  | zero => exact hs
  | succ n ih =>
    have hstep : s.pushn ' ' (n + 1) = (s.pushn ' ' n).push ' ' := rfl
    rw [hstep, Unescaped, String.toList_push, List.mem_append, List.mem_singleton]
    exact fun h => h.elim ih (by decide)

private theorem unescaped_toString (n : Nat) : Unescaped (toString n) :=
  unescaped_of_isLine (isLine_toString n)

private theorem Unescaped.count {s : String} (hs : Unescaped s) {l : List Char} (hl : escape ∉ l)
    (n : Nat) : Unescaped (s ++ String.ofList l ++ toString n) :=
  (hs.append (unescaped_ofList hl)).append (unescaped_toString n)

private theorem unescaped_clauseNames (m : Metrics) : ∀ s ∈ clauseNames m, Unescaped s := by
  intro s hs
  obtain ⟨⟨has, name⟩, hmem, hname⟩ := List.mem_filterMap.mp hs
  simp only [Option.ite_none_right_eq_some, Option.some.injEq] at hname
  obtain ⟨-, rfl⟩ := hname
  simp only [List.mem_cons, Prod.mk.injEq, List.not_mem_nil, or_false] at hmem
  rcases hmem with ⟨-, rfl⟩ | ⟨-, rfl⟩ | ⟨-, rfl⟩ | ⟨-, rfl⟩ | ⟨-, rfl⟩ | ⟨-, rfl⟩
  all_goals exact unescaped_ofList (by decide)

private theorem unescaped_metricsLines (m : Metrics) : Unescaped (metricsLines m) := by
  have hcolumns : Unescaped (if m.isSelectStar then "*" else toString m.columnCount) := by
    split
    · exact unescaped_ofList (by decide)
    · exact unescaped_toString _
  have hclauses : Unescaped (if (clauseNames m).isEmpty then "none"
      else String.intercalate ", " (clauseNames m)) := by
    split
    · exact unescaped_ofList (by decide)
    · exact unescaped_intercalate (unescaped_ofList (by decide)) (unescaped_clauseNames m)
  have hcounts : Unescaped ("Metrics: tables=" ++ toString m.tableCount ++ " joins=" ++
      toString m.joinCount ++ " subquery depth=" ++ toString m.subqueryDepth ++ " ") :=
    ((((unescaped_ofList (by decide)).append (unescaped_toString _)).count (by decide) _).count
      (by decide) _).append (unescaped_ofList (by decide))
  have hmore : Unescaped ("aggregations=" ++ toString m.aggregationCount ++ " columns=" ++
      (if m.isSelectStar then "*" else toString m.columnCount) ++ "\n") :=
    ((((unescaped_ofList (by decide)).append (unescaped_toString _)).append
      (unescaped_ofList (by decide))).append hcolumns).append (unescaped_ofList (by decide))
  exact (((hcounts.append hmore).append (unescaped_ofList (by decide))).append hclauses).append
    (unescaped_ofList (by decide))

private theorem unescaped_joinNames {names : List (List Char)} (h : ∀ name ∈ names, escape ∉ name) :
    Unescaped (joinNames names) := by
  apply unescaped_intercalate (unescaped_ofList (by decide))
  intro s hs
  obtain ⟨name, hname, rfl⟩ := List.mem_map.mp hs
  exact unescaped_ofList (h name hname)

private theorem unescaped_structureLines {s : Structure} (m : Metrics)
    (h : ∀ name, name ∈ s.boundNames ∨ name ∈ s.tables → escape ∉ name) :
    Unescaped (structureLines s m) := by
  have hbound : Unescaped (if s.boundNames.isEmpty then "" else
      "CTEs: " ++ joinNames s.boundNames ++ "\n") := by
    split
    · exact unescaped_ofList (by decide)
    · exact ((unescaped_ofList (by decide)).append
        (unescaped_joinNames fun name hname => h name (.inl hname))).append
        (unescaped_ofList (by decide))
  exact (((hbound.append (unescaped_ofList (by decide))).append
    (unescaped_joinNames fun name hname => h name (.inr hname))).append
    (unescaped_ofList (by decide))).append (unescaped_metricsLines m)

/-! ### Pieces of reports -/

private theorem isPaintable_plain {s : String} (h : Unescaped s) : (plain s).IsPaintable :=
  ⟨h, fun hstyle => absurd rfl hstyle⟩

private theorem isPaintable_styled {style : Option Style} {text : String} (h : IsLine text)
    (hne : text ≠ "") : Piece.IsPaintable { style, text } :=
  ⟨unescaped_of_isLine h, fun _ => hne⟩

private theorem isPaintable_severityPiece (severity : Severity) :
    (severityPiece severity).IsPaintable := by
  apply isPaintable_styled
  · exact ((isLine_ofList (by decide)).append (Line.isLine_label_severity severity)).append
      (isLine_ofList (by decide))
  · simp [String.append_eq_empty_iff]

private theorem isPaintable_of_mem_recommendationPieces {x : Recommendation} (h : x.IsWorded)
    {p : Piece} (hp : p ∈ recommendationPieces x) : p.IsPaintable := by
  simp only [recommendationPieces, List.mem_cons, List.not_mem_nil, or_false] at hp
  rcases hp with rfl | rfl | rfl | rfl | rfl
  · exact isPaintable_plain (unescaped_ofList (by decide))
  · exact isPaintable_severityPiece x.severity
  · apply isPaintable_plain
    have hid : Unescaped (" " ++ x.id) :=
      (unescaped_ofList (by decide)).append (unescaped_of_isLine h.id)
    have htitle : Unescaped (" " ++ x.id ++ ": " ++ x.title) :=
      (hid.append (unescaped_ofList (by decide))).append (unescaped_of_isLine h.title)
    exact (((htitle.append (unescaped_ofList (by decide))).append
      (unescaped_ofList (by decide))).append (unescaped_of_isLine h.description.line)).append
      (unescaped_ofList (by decide))
  · exact isPaintable_styled ((isLine_ofList (by decide)).append h.suggestion)
      (by simp [String.append_eq_empty_iff])
  · exact isPaintable_plain (unescaped_ofList (by decide))

/-- The pieces of an analysis are paintable when the statement and the names in it have no escape
character. -/
theorem isPaintable_of_mem_analysisPieces {verbose : Bool} {a : Analysis} (hsql : escape ∉ a.sql)
    (hnames : ∀ name, name ∈ a.found.boundNames ∨ name ∈ a.found.tables → escape ∉ name)
    (hworded : ∀ x ∈ a.result.recommendations, x.IsWorded) {p : Piece}
    (hp : p ∈ analysisPieces verbose a) : p.IsPaintable := by
  simp only [analysisPieces, List.mem_append, List.mem_flatMap, List.mem_cons, List.not_mem_nil,
    or_false] at hp
  rcases hp with ((rfl | rfl | rfl | rfl) | ⟨x, hx, hp⟩) | rfl
  · exact isPaintable_styled ((isLine_ofList (by decide)).append (isLine_toString _))
      (by simp [String.append_eq_empty_iff])
  · apply isPaintable_plain
    have hstatement : Unescaped (if verbose then String.ofList a.sql ++ "\n" else "") := by
      split
      · exact (unescaped_ofList hsql).append (unescaped_ofList (by decide))
      · exact unescaped_ofList (by decide)
    exact ((unescaped_ofList (by decide)).append hstatement).append (unescaped_ofList (by decide))
  · apply isPaintable_styled (Line.isLine_label_level _)
    cases a.result.complexity.level <;> decide
  · apply isPaintable_plain
    have hstructure : Unescaped
        (if verbose then structureLines a.found a.result.complexity.metrics else "") := by
      split
      · exact unescaped_structureLines _ hnames
      · exact unescaped_ofList (by decide)
    have hnothing : Unescaped
        (if a.result.recommendations.isEmpty then "No recommendations\n" else "") := by
      split <;> exact unescaped_ofList (by decide)
    exact ((((unescaped_ofList (by decide)).append (unescaped_toString _)).append
      (unescaped_ofList (by decide))).append hstructure).append hnothing
  · exact isPaintable_of_mem_recommendationPieces (hworded x hx) hp
  · exact isPaintable_plain (unescaped_ofList (by decide))

variable {settings : Settings} {statements : List (List Char)}

/-- An analysis shows the text of a statement and names that are found in it. -/
theorem escape_notMem_of_mem_examineAll {rules : List Rule} (h : ∀ s ∈ statements, escape ∉ s)
    {a : Analysis} (ha : a ∈ examineAll rules statements) :
    escape ∉ a.sql ∧
      ∀ name, name ∈ a.found.boundNames ∨ name ∈ a.found.tables → escape ∉ name := by
  obtain ⟨⟨s, index⟩, hs, rfl⟩ := List.mem_map.mp ha
  have hescape : escape ∉ s := h s (List.fst_mem_of_mem_zipIdx hs)
  refine ⟨?_, ?_⟩
  · obtain ⟨v, w, -, -, htrim⟩ := exists_trim s
    intro hmem
    apply hescape
    rw [htrim]
    exact List.mem_append_left w (List.mem_append_right v hmem)
  · intro name hname hmem
    change name ∈ (examine rules s).1.boundNames ∨ name ∈ (examine rules s).1.tables at hname
    unfold examine at hname
    split at hname
    · simp at hname
    · exact hescape (mem_of_mem_names (by decide) (by decide) (by decide) (by decide) hname hmem)

private theorem isPaintable_of_mem_reportPieces (h : ∀ s ∈ statements, escape ∉ s) {verbose : Bool}
    {p : Piece} (hp : p ∈ reportPieces verbose (examineAll (enabled settings) statements)) :
    p.IsPaintable := by
  rcases List.mem_append.mp hp with hp | hp
  · obtain ⟨a, ha, hp⟩ := List.mem_flatMap.mp hp
    obtain ⟨hsql, hnames⟩ := escape_notMem_of_mem_examineAll h ha
    exact isPaintable_of_mem_analysisPieces hsql hnames
      (fun _ hx => isWorded_of_mem_examineAll ha hx) hp
  · simp only [List.mem_cons, List.not_mem_nil, or_false] at hp
    rcases hp with rfl | rfl
    · exact isPaintable_styled (Line.isLine_text (l := .totals _) trivial)
        (by simp [totals, String.append_eq_empty_iff])
    · exact isPaintable_plain (unescaped_ofList (by decide))

private theorem isPaintable_of_mem_cataloguePieces {p : Piece}
    (hp : p ∈ cataloguePieces (entries (enabled settings))) : p.IsPaintable := by
  obtain ⟨e, he, hp⟩ := List.mem_flatMap.mp hp
  obtain ⟨r, hr, rfl⟩ := List.mem_map.mp he
  have hworded := isWorded_of_mem_enabled hr
  simp only [List.mem_cons, List.not_mem_nil, or_false] at hp
  rcases hp with rfl | rfl
  · exact isPaintable_severityPiece _
  · apply isPaintable_plain
    have hid : Unescaped (padTo (((entries (enabled settings)).map (·.id.length)).max?.getD 0)
        r.entry.id) :=
      (unescaped_of_isLine hworded.id).append (unescaped_pushn (unescaped_ofList (by decide)) _)
    exact ((((unescaped_ofList (by decide)).append hid).append
      (unescaped_ofList (by decide))).append (unescaped_of_isLine hworded.title)).append
      (unescaped_ofList (by decide))

/-- Colour adds escape sequences and nothing else. As long as no statement has an escape character,
a report in colour is the report without colour when its escape sequences are deleted, and so is
the list of rules, under any settings; and it makes no difference which sequences show a style, or
whether any do. -/
theorem withoutSequences_report (settings : Settings) (verbose : Bool)
    (statements : List (List Char)) (h : ∀ s ∈ statements, escape ∉ s) :
    let analyses := examineAll (enabled settings) statements
    let listed := entries (enabled settings)
    let colored : Options := { format := .text, colored := true, verbose }
    let bare : Options := { format := .text, colored := false, verbose }
    (withoutSequences (report colored analyses) = report bare analyses ∧
      withoutSequences (reportEntries colored listed) = reportEntries bare listed) ∧
    ∀ painter : Painter,
      withoutSequences (painter.showAll (reportPieces verbose analyses)) = report bare analyses ∧
      withoutSequences (painter.showAll (cataloguePieces listed)) = reportEntries bare listed := by
  intro analyses listed colored bare
  have hpainter : ∀ painter : Painter,
      withoutSequences (painter.showAll (reportPieces verbose analyses)) = report bare analyses ∧
      withoutSequences (painter.showAll (cataloguePieces listed)) = reportEntries bare listed := by
    intro painter
    exact ⟨withoutSequences_showAll painter fun _ => isPaintable_of_mem_reportPieces h,
      withoutSequences_showAll painter fun _ => isPaintable_of_mem_cataloguePieces⟩
  refine ⟨?_, hpainter⟩
  have hsequences := hpainter sequencePainter
  rwa [showAll_sequencePainter, showAll_sequencePainter] at hsequences

/-- A statement with a name in a prologue, a comment and a quoted name. -/
theorem withoutSequences_report_prologue :
    let statements := ["WITH A AS (SELECT 1) SELECT * FROM `T[0m` -- [1;31mred".toList]
    let analyses := examineAll (enabled {}) statements
    (∀ s ∈ statements, escape ∉ s) ∧
      withoutSequences (report { format := .text, colored := true, verbose := true } analyses) =
        report { format := .text, colored := false, verbose := true } analyses := by
  intro statements analyses
  have h : ∀ s ∈ statements, escape ∉ s := by simp [statements, escape]
  exact ⟨h, (withoutSequences_report {} true statements h).1.1⟩

end SqlReview.Report
