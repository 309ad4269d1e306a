import SqlReview.Proofs.Checked.Text
import SqlReview.Proofs.Lexical.Script
import SqlReview.Proofs.Query.Nesting
import SqlReview.Proofs.Query.TopLevel
import SqlReview.Proofs.Search.Occurrence
import SqlReview.Query.Clause
import SqlReview.Query.SelectList
import SqlReview.Query.Subquery

/-!
# Checked scans of a statement

The scans over a main query with their offsets checked. A loop gets the characters of its text one
by one with their offsets, and looks at the text again only by cutting it. That each cut succeeds
is shown along the loop: the offset of a character is the byte length of what stands before it.
-/

namespace SqlReview.Checked

open SqlReview.Text SqlReview.Lexical SqlReview.Search SqlReview.Query

/-! ### Clauses -/

/-- The offset at which a clause ends, with `depth` parentheses open. -/
def topLevelEnd (stops : List String) (text : List Char) (depth : Nat) :
    List (Nat × Char) → Checked Nat
  | [] => some (byteLength text)
  | (i, c) :: places =>
    if c == '(' then topLevelEnd stops text (depth + 1) places
    else if c == ')' then
      if depth == 0 then some i
      else do
        let depth ← minus depth 1
        topLevelEnd stops text depth places
    else if c == ';' && depth == 0 then some i
    else do
      let ends ← andAlso (depth == 0 && isNameChar c) (keywordAt stops text i)
      if ends then some i else topLevelEnd stops text depth places

/-- The text up to the end of the clause it begins in. -/
def topLevel (stops : List String) (s : List Char) : Checked (List Char) := do
  let stop ← topLevelEnd stops s 0 (charIndices 0 s)
  takeBytes? stop s

/-- The offset at which an occurrence in a text ends. -/
def stopOffset (s : List Char) (found : Occurrence) : Nat :=
  byteLength s - byteLength found.stop.rest

/-- The body of the first clause that a phrase introduces. -/
def clauseBody (introducer : Phrase) (s : List Char) : Checked (Option (List Char)) :=
  match find? introducer s with
  | none => some none
  | some found => do
    let rest ← dropBytes? (stopOffset s found) s
    let body ← topLevel clauseStops rest
    some (some body)

/-- The parts of a text between the separators outside of parentheses. The part that is being read
begins at `start`. -/
def splitTopLevelFrom (separator : Char) (text : List Char) (depth start : Nat) :
    List (Nat × Char) → Checked (List (List Char))
  | [] => do
    let part ← dropBytes? start text
    some [part]
  | (i, c) :: places =>
    if c == '(' then splitTopLevelFrom separator text (depth + 1) start places
    else if c == ')' then splitTopLevelFrom separator text (depth - 1) start places
    else if c == separator && depth == 0 then do
      let part ← slice? text start i
      let parts ← splitTopLevelFrom separator text depth (i + c.utf8Size) places
      some (part :: parts)
    else splitTopLevelFrom separator text depth start places

/-- The parts of a text between the separators outside of parentheses. -/
def splitTopLevel (separator : Char) (s : List Char) : Checked (List (List Char)) :=
  splitTopLevelFrom separator s 0 0 (charIndices 0 s)

/-! ### Select lists -/

/-- The text before the first `FROM` outside of parentheses, with `depth` parentheses open. -/
def beforeFrom (text : List Char) (depth : Nat) : List (Nat × Char) → Checked (Option (List Char))
  | [] => some none
  | (i, c) :: places =>
    if c == '(' then beforeFrom text (depth + 1) places
    else if c == ')' then
      if depth == 0 then some none
      else do
        let depth ← minus depth 1
        beforeFrom text depth places
    else do
      let found ← andAlso ((c == 'f' || c == 'F') && depth == 0) (keywordAt ["FROM"] text i)
      if found then
        let list ← takeBytes? i text
        some (some list)
      else beforeFrom text depth places

/-- The select list of a text. -/
def selectList (s : List Char) : Checked (Option (List Char)) :=
  match find? (.words ["SELECT"]) s with
  | none => some none
  | some found => do
    let rest ← dropBytes? (stopOffset s found) s
    beforeFrom rest 0 (charIndices 0 rest)

/-- The number of items in the select list. -/
def columnCount (s : List Char) : Checked Nat := do
  match (← selectList s).map trim with
  | none => some 0
  | some list =>
    if list = [] ∨ list = ['*'] then some 0
    else
      let parts ← splitTopLevel ',' list
      some parts.length

/-- A select list without a `DISTINCT` at its beginning. -/
def afterDistinct (list : List Char) : Checked (List Char) := do
  if ← startsWith "DISTINCT" list then
    let rest ← dropBytes? (byteLength "DISTINCT".toList) list
    some (trimStart rest)
  else some list

/-- Whether the select list begins with an asterisk, apart from a `DISTINCT`. -/
def isSelectStar (s : List Char) : Checked Bool := do
  match ← selectList s with
  | none => some false
  | some list =>
    let items ← afterDistinct (trimStart list)
    some (items.head? == some '*')

/-! ### Main queries and subqueries -/

/-- Whether a statement begins with a prologue. -/
def hasPrologue (s : List Char) : Checked Bool :=
  startsWith "WITH" (trimStart s)

/-- The text from the first `SELECT` on that stands outside of parentheses and quoted spans; the
whole text, if there is none. -/
def selectFrom (text : List Char) (depth : Nat) (span : Option OpenSpan) :
    List (Nat × Char) → Checked (List Char)
  | [] => some text
  | (i, c) :: places =>
    match span with
    | some q => selectFrom text depth (q.next c) places
    | none =>
      if isQuote c then selectFrom text depth (some { mark := c }) places
      else if c == '(' then selectFrom text (depth + 1) none places
      else if c == ')' then selectFrom text (depth - 1) none places
      else do
        let found ← andAlso ((c == 's' || c == 'S') && depth == 0) (keywordAt ["SELECT"] text i)
        if found then dropBytes? i text else selectFrom text depth none places

/-- A statement from its main query on. -/
def mainQuery (s : List Char) : Checked (List Char) := do
  if ← hasPrologue s then selectFrom s 0 none (charIndices 0 s) else some s

/-- The greatest number of subqueries open at once, with `depth` of them open and `greatest` of
them before. The text is cut behind every character. -/
def subqueryDepthFrom (text : List Char) (depth greatest : Nat) (span : Option OpenSpan) :
    List (Nat × Char) → Checked Nat
  | [] => some greatest
  | (i, c) :: places => do
    let rest ← dropBytes? (i + c.utf8Size) text
    match span with
    | some q => subqueryDepthFrom text depth greatest (q.next c) places
    | none =>
      if isQuote c then subqueryDepthFrom text depth greatest (some { mark := c }) places
      else if c == '(' then
        let opens ← startsWith "SELECT" (trimStart rest)
        if opens then subqueryDepthFrom text (depth + 1) (max greatest (depth + 1)) none places
        else subqueryDepthFrom text depth greatest none places
      else if c == ')' then subqueryDepthFrom text (depth - 1) greatest none places
      else subqueryDepthFrom text depth greatest none places

/-- The greatest number of subqueries that are nested in each other. -/
def subqueryDepth (s : List Char) : Checked Nat :=
  subqueryDepthFrom s 0 0 none (charIndices 0 s)

/-! ### Clauses, checked -/

private theorem isAscii_clauseStops : ∀ k ∈ clauseStops, IsAscii k := by
  decide

private theorem topLevelEnd_eq {stops : List String} (hstops : ∀ k ∈ stops, IsAscii k) (d : Nat)
    (p s : List Char) :
    topLevelEnd stops (p ++ s) d (charIndices (byteLength p) s) =
      some (byteLength (p ++ (topLevelFrom stops d (endsInName p) s).1)) := by
  induction s generalizing d p with
  | nil => rfl
  | cons c s ih =>
    have hnext : ∀ d, topLevelEnd stops (p ++ c :: s) d (charIndices (byteLength (p ++ [c])) s) =
        some (byteLength (p ++ c :: (topLevelFrom stops d (isNameChar c) s).1)) := by
      intro d
      simpa using ih d (p ++ [c])
    have hkey : andAlso (d == 0 && isNameChar c) (keywordAt stops (p ++ c :: s) (byteLength p)) =
        some (d == 0 && isNameChar c && (!endsInName p && startsWithAny stops (c :: s))) := by
      rw [keywordAt_eq hstops, andAlso_some]
    rw [charIndices_cons, topLevelEnd, topLevelFrom, endsBefore, depthAfter]
    by_cases hopen : c = '('
    · subst hopen
      have hname : isNameChar '(' = false := by decide
      simpa [hname] using hnext (d + 1)
    by_cases hclose : c = ')'
    · subst hclose
      cases d with
      | zero => simp
      | succ d => simpa [minus_of_le] using hnext d
    by_cases hend : c = ';' ∧ d = 0
    · simp [hend.1, hend.2]
    · have hsemicolon : (c == ';' && d == 0) = false := by simpa using hend
      have hends : (d == 0 && (c == ')' || c == ';' ||
          (isNameChar c && !endsInName p && startsWithAny stops (c :: s)))) =
          (d == 0 && isNameChar c && (!endsInName p && startsWithAny stops (c :: s))) := by
        rw [Bool.and_comm] at hsemicolon
        simp [hclose, Bool.and_or_distrib_left, hsemicolon, Bool.and_assoc]
      rw [if_neg (by simpa using hopen), if_neg (by simpa using hclose),
        if_neg (by simpa using hsemicolon), hkey, hends, some_bind]
      split
      · rw [List.append_nil]
      · simpa [hopen, hclose] using hnext d

private theorem topLevel_eq {stops : List String} (hstops : ∀ k ∈ stops, IsAscii k)
    (s : List Char) : topLevel stops s = some (Query.topLevel stops s) := by
  have hend : topLevelEnd stops s 0 (charIndices 0 s) =
      some (byteLength (topLevelFrom stops 0 false s).1) := topLevelEnd_eq hstops 0 [] s
  have hcut := takeBytes?_byteLength (topLevelFrom stops 0 false s).1
    (topLevelFrom stops 0 false s).2
  rw [topLevelFrom_append] at hcut
  rw [topLevel, hend]
  exact hcut

/-- A text can be cut where an occurrence in it ends. -/
theorem dropBytes?_stopOffset {phrase : Phrase} {s : List Char} {found : Occurrence}
    (h : found ∈ occurrences phrase s) :
    dropBytes? (stopOffset s found) s = some found.stop.rest := by
  obtain ⟨hread, hstart⟩ := mem_occurrencesFrom h
  have hsuffix : found.stop.rest <:+ s := (Phrase.suffix_read hread).trans hstart
  have hle := byteLength_le_of_suffix hsuffix
  exact dropBytes?_of_suffix hsuffix (by rw [stopOffset]; omega)

/-- With its offsets checked, the body of a clause is the body of the clause. -/
theorem clauseBody_eq (introducer : Phrase) (s : List Char) :
    clauseBody introducer s = some (clauseBody? introducer s) := by
  rw [clauseBody, clauseBody?]
  cases hfind : find? introducer s with
  | none => rfl
  | some found =>
    have hmem : found ∈ occurrences introducer s := List.mem_of_head? hfind
    simp [dropBytes?_stopOffset hmem, topLevel_eq isAscii_clauseStops]

/-- A character at which a text is not cut stays in the first part. -/
theorem splitTopLevelFrom_cons {separator c : Char} {d : Nat}
    (h : ¬(c = separator ∧ d = 0)) (s : List Char) :
    Query.splitTopLevelFrom separator d (c :: s) =
      prepend [c] (Query.splitTopLevelFrom separator (depthAfter d c) s) := by
  rw [Query.splitTopLevelFrom_cons d s (by simpa using h)]
  cases Query.splitTopLevelFrom separator (depthAfter d c) s <;> rfl

/-- There is always a part, if only an empty one. -/
theorem splitTopLevelFrom_ne_nil (separator : Char) (d : Nat) (s : List Char) :
    Query.splitTopLevelFrom separator d s ≠ [] := by
  have hcons : ∀ (c : Char) (parts : List (List Char)), consPart c parts ≠ [] := by
    intro c parts
    cases parts <;> exact List.cons_ne_nil _ _
  cases s with
  | nil => exact List.cons_ne_nil _ _
  | cons c s =>
    rw [Query.splitTopLevelFrom]
    split
    · exact hcons c _
    · split
      · exact hcons c _
      · split
        · exact List.cons_ne_nil _ _
        · exact hcons c _

private theorem splitTopLevelFrom_eq {separator : Char} (hopen : separator ≠ '(')
    (hclose : separator ≠ ')') (d : Nat) (a b s : List Char) :
    splitTopLevelFrom separator (a ++ (b ++ s)) d (byteLength a)
        (charIndices (byteLength (a ++ b)) s) =
      some (prepend b (Query.splitTopLevelFrom separator d s)) := by
  induction s generalizing d a b with
  | nil =>
    rw [charIndices, splitTopLevelFrom, dropBytes?_byteLength]
    simp [Query.splitTopLevelFrom, prepend]
  | cons c s ih =>
    rw [charIndices_cons, splitTopLevelFrom]
    by_cases hsep : c = separator ∧ d = 0
    · obtain ⟨rfl, rfl⟩ := hsep
      have hnext : splitTopLevelFrom c (a ++ (b ++ c :: s)) 0 (byteLength (a ++ b) + c.utf8Size)
          (charIndices (byteLength (a ++ b ++ [c])) s) =
          some (prepend [] (Query.splitTopLevelFrom c 0 s)) := by
        simpa [Nat.add_assoc] using ih 0 (a ++ (b ++ [c])) []
      have hparts : Query.splitTopLevelFrom c 0 (c :: s) =
          [] :: Query.splitTopLevelFrom c 0 s := splitTopLevelFrom_separator ⟨hopen, hclose⟩ s
      have hslice : slice? (a ++ (b ++ c :: s)) (byteLength a) (byteLength (a ++ b)) = some b := by
        rw [byteLength_append]
        exact slice?_byteLength a b (c :: s)
      obtain ⟨part, parts, hrest⟩ :=
        List.exists_cons_of_ne_nil (splitTopLevelFrom_ne_nil c 0 s)
      rw [if_neg (by simpa using hopen), if_neg (by simpa using hclose), if_pos (by simp), hslice,
        hnext, hparts, hrest, prepend, prepend, List.append_nil]
      rfl
    · have hnext : ∀ d, splitTopLevelFrom separator (a ++ (b ++ c :: s)) d (byteLength a)
          (charIndices (byteLength (a ++ b ++ [c])) s) =
          some (prepend (b ++ [c]) (Query.splitTopLevelFrom separator d s)) := by
        intro d
        simpa [Nat.add_assoc] using ih d a (b ++ [c])
      rw [splitTopLevelFrom_cons hsep, prepend_prepend, depthAfter]
      have hbeq : (c == separator && d == 0) = false := by simpa using hsep
      rw [hbeq]
      split
      · exact hnext (d + 1)
      · split
        · exact hnext (d - 1)
        · exact hnext d

private theorem splitTopLevel_eq {separator : Char} (hopen : separator ≠ '(')
    (hclose : separator ≠ ')') (s : List Char) :
    splitTopLevel separator s = some (Query.splitTopLevel separator s) := by
  have h : splitTopLevelFrom separator s 0 0 (charIndices 0 s) =
      some (prepend [] (Query.splitTopLevelFrom separator 0 s)) :=
    splitTopLevelFrom_eq hopen hclose 0 [] [] s
  rw [splitTopLevel, Query.splitTopLevel, h]
  obtain ⟨part, parts, hparts⟩ :=
    List.exists_cons_of_ne_nil (splitTopLevelFrom_ne_nil separator 0 s)
  rw [hparts]
  rfl

/-! ### Select lists, checked -/

/-- A capital letter is the same letter as itself and its small letter only. -/
theorem eq_or_eq_of_sameLetter {k c : Char} (hk : k ∈ capitals) (h : sameLetter k c = true) :
    c = k.toLower ∨ c = k := by
  have hinj : ∀ a ∈ capitals, ∀ b ∈ capitals, a.toLower = b.toLower → b = a := by decide +kernel
  have hkc : k.toLower = c.toLower := by simpa [sameLetter] using h
  by_cases hc : c.toLower = c
  · exact .inl (hc ▸ hkc.symm)
  · exact .inr (hinj k hk c (mem_capitals_of_toLower_ne hc) hkc)

/-- A keyword is looked for where its first letter stands only. -/
theorem andAlso_keywordAt {keyword : String} {k : Char} {ks : List Char}
    (hascii : IsAscii keyword) (hkeyword : keyword.toList = k :: ks) (hk : k ∈ capitals) (d : Nat)
    (p : List Char) (c : Char) (s : List Char) :
    andAlso ((c == k.toLower || c == k) && d == 0)
        (keywordAt [keyword] (p ++ c :: s) (byteLength p)) =
      some (d == 0 && !endsInName p && Query.startsWith keyword (c :: s)) := by
  have hlist : ∀ k ∈ [keyword], IsAscii k := by simpa using hascii
  have hkey := keywordAt_eq hlist p (c :: s)
  by_cases hd : d = 0
  · by_cases hc : c = k.toLower ∨ c = k
    · rw [andAlso, if_pos (by simpa [hd] using hc), hkey]
      simp [startsWithAny, hd]
    · have hletter : sameLetter k c = false :=
        Bool.eq_false_iff.mpr fun h => hc (eq_or_eq_of_sameLetter hk h)
      have hnot : Query.startsWith keyword (c :: s) = false := by
        simp [Query.startsWith, afterKeyword?, hkeyword, dropLetters?, hletter]
      rw [andAlso, if_neg (by simpa [hd] using hc), hnot, Bool.and_false]
  · rw [andAlso, if_neg (by simp [hd])]
    simp [hd]

private theorem beforeFrom_eq (d : Nat) (p s : List Char) :
    beforeFrom (p ++ s) d (charIndices (byteLength p) s) =
      some ((beforeFrom? d (endsInName p) s).map (p ++ ·)) := by
  induction s generalizing d p with
  | nil => rfl
  | cons c s ih =>
    have hnext : ∀ d, beforeFrom (p ++ c :: s) d (charIndices (byteLength (p ++ [c])) s) =
        some (((beforeFrom? d (isNameChar c) s).map (c :: ·)).map (p ++ ·)) := by
      intro d
      simpa [Function.comp_def] using ih d (p ++ [c])
    have hkey : andAlso ((c == 'f' || c == 'F') && d == 0)
        (keywordAt ["FROM"] (p ++ c :: s) (byteLength p)) =
        some (d == 0 && !endsInName p && Query.startsWith "FROM" (c :: s)) :=
      andAlso_keywordAt (k := 'F') (by decide) rfl (by decide) d p c s
    rw [charIndices_cons, beforeFrom, beforeFrom?]
    by_cases hopen : c = '('
    · subst hopen
      have hfrom : Query.startsWith "FROM" ('(' :: s) = false := rfl
      simpa [hfrom] using hnext (d + 1)
    by_cases hclose : c = ')'
    · subst hclose
      have hfrom : Query.startsWith "FROM" (')' :: s) = false := rfl
      cases d with
      | zero => simp
      | succ d => simpa [minus_of_le, hfrom] using hnext d
    have hopen' : (c == '(') = false := beq_eq_false_iff_ne.mpr hopen
    have hclose' : (c == ')') = false := beq_eq_false_iff_ne.mpr hclose
    have hcut : takeBytes? (byteLength p) (p ++ c :: s) = some p := takeBytes?_byteLength p (c :: s)
    simp only [hopen', hclose', Bool.false_and, Bool.false_eq_true, if_false]
    rw [hkey, some_bind]
    cases hfound : d == 0 && !endsInName p && Query.startsWith "FROM" (c :: s) with
    | true => simp [hcut]
    | false => exact hnext d

/-- With its offsets checked, the select list is the select list. -/
theorem selectList_eq (s : List Char) : selectList s = some (selectList? s) := by
  rw [selectList, selectList?]
  cases hfind : find? (.words ["SELECT"]) s with
  | none => rfl
  | some found =>
    have hmem : found ∈ occurrences (.words ["SELECT"]) s := List.mem_of_head? hfind
    have hlist := beforeFrom_eq 0 [] found.stop.rest
    simp only [dropBytes?_stopOffset hmem, some_bind]
    simpa using hlist

/-- With its offsets checked, the number of columns is the number of columns. -/
theorem columnCount_eq (s : List Char) : columnCount s = some (Query.columnCount s) := by
  rw [columnCount, selectList_eq, Query.columnCount, some_bind]
  cases (selectList? s).map trim with
  | none => rfl
  | some list =>
    by_cases hlist : list = [] ∨ list = ['*']
    · simp only [if_pos hlist]
    · simp only [if_neg hlist]
      rw [splitTopLevel_eq (by decide) (by decide)]
      rfl

private theorem afterDistinct_eq (list : List Char) :
    afterDistinct list = some (((afterKeyword? "DISTINCT" list).map trimStart).getD list) := by
  rw [afterDistinct, startsWith_eq (by decide), Query.startsWith, some_bind]
  cases hafter : afterKeyword? "DISTINCT" list with
  | none => rfl
  | some rest =>
    rw [dropBytes?_of_dropLetters? (Option.filter_eq_some_iff.mp hafter).1]
    rfl

/-- With its offsets checked, everything is selected where everything is. -/
theorem isSelectStar_eq (s : List Char) : isSelectStar s = some (Query.isSelectStar s) := by
  rw [isSelectStar, selectList_eq, Query.isSelectStar, some_bind]
  cases selectList? s with
  | none => rfl
  | some list =>
    simp only [afterDistinct_eq]
    rfl

/-! ### Main queries and subqueries, checked -/

private theorem selectFrom_eq (d : Nat) (span : Option OpenSpan) (p s : List Char) :
    selectFrom (p ++ s) d span (charIndices (byteLength p) s) =
      some ((Query.selectFrom d span (endsInName p) s).getD (p ++ s)) := by
  induction s generalizing d span p with
  | nil => rfl
  | cons c s ih =>
    have hnext : ∀ d span,
        selectFrom (p ++ c :: s) d span (charIndices (byteLength (p ++ [c])) s) =
          some ((Query.selectFrom d span (isNameChar c) s).getD (p ++ c :: s)) := by
      intro d span
      simpa using ih d span (p ++ [c])
    have hkey : andAlso ((c == 's' || c == 'S') && d == 0)
        (keywordAt ["SELECT"] (p ++ c :: s) (byteLength p)) =
        some (d == 0 && !endsInName p && Query.startsWith "SELECT" (c :: s)) :=
      andAlso_keywordAt (k := 'S') (by decide) rfl (by decide) d p c s
    rw [charIndices_cons, selectFrom.eq_def, Query.selectFrom.eq_def]
    cases span with
    | some q => exact hnext d (q.next c)
    | none =>
      simp only []
      split
      · exact hnext d (some { mark := c })
      · split
        · exact hnext (d + 1) none
        · split
          · exact hnext (d - 1) none
          · rw [hkey, some_bind]
            cases hfound : d == 0 && !endsInName p && Query.startsWith "SELECT" (c :: s) with
            | true => simp [dropBytes?_byteLength]
            | false => exact hnext d none

/-- With its offsets checked, a prologue is told where there is one. -/
theorem hasPrologue_eq (s : List Char) : hasPrologue s = some (Query.hasPrologue s) :=
  startsWith_eq (by decide) (trimStart s)

/-- With its offsets checked, the main query is the main query. -/
theorem mainQuery_eq (s : List Char) : mainQuery s = some (Query.mainQuery s) := by
  have hselect : selectFrom s 0 none (charIndices 0 s) =
      some ((Query.selectFrom 0 none false s).getD s) := selectFrom_eq 0 none [] s
  rw [mainQuery, hasPrologue_eq, Query.mainQuery, some_bind]
  split
  · exact hselect
  · rfl

private theorem subqueryDepthFrom_eq {d greatest : Nat} (hle : d ≤ greatest)
    (span : Option OpenSpan) (p s : List Char) :
    subqueryDepthFrom (p ++ s) d greatest span (charIndices (byteLength p) s) =
      some (max greatest (Query.subqueryDepthFrom d span s)) := by
  induction s generalizing d greatest span p with
  | nil => exact congrArg some (Nat.max_eq_left hle).symm
  | cons c s ih =>
    have hnext : ∀ {d greatest : Nat} (span : Option OpenSpan), d ≤ greatest →
        subqueryDepthFrom (p ++ c :: s) d greatest span (charIndices (byteLength (p ++ [c])) s) =
          some (max greatest (Query.subqueryDepthFrom d span s)) := by
      intro d greatest span hle
      simpa using ih hle span (p ++ [c])
    have hcut : dropBytes? (byteLength p + c.utf8Size) (p ++ c :: s) = some s := by
      have h := dropBytes?_byteLength (p ++ [c]) s
      rwa [byteLength_concat, ← List.append_cons] at h
    rw [charIndices_cons, subqueryDepthFrom.eq_def, Query.subqueryDepthFrom.eq_def]
    simp only [hcut, some_bind]
    cases span with
    | some q => exact hnext (q.next c) hle
    | none =>
      simp only []
      split
      · exact hnext _ hle
      · by_cases hopen : c = '('
        · subst hopen
          rw [startsWith_eq (by decide), some_bind]
          cases Query.startsWith "SELECT" (trimStart s) with
          | true =>
            have hrun := le_subqueryDepthFrom (d + 1) none s
            have h := hnext none (Nat.le_max_right greatest (d + 1))
            rw [Nat.max_assoc, Nat.max_eq_right hrun] at h
            exact h
          | false => simpa using hnext none hle
        · by_cases hclose : c = ')'
          · subst hclose
            have hmax : max greatest (max d (Query.subqueryDepthFrom (d - 1) none s)) =
                max greatest (Query.subqueryDepthFrom (d - 1) none s) := by
              rw [← Nat.max_assoc, Nat.max_eq_left hle]
            simpa [hmax] using hnext none (show d - 1 ≤ greatest by omega)
          · simpa [hopen, hclose] using hnext none hle

/-- With its offsets checked, subqueries are nested as deeply as they are. -/
theorem subqueryDepth_eq (s : List Char) : subqueryDepth s = some (Query.subqueryDepth s) := by
  have h : subqueryDepthFrom s 0 0 none (charIndices 0 s) =
      some (max 0 (Query.subqueryDepthFrom 0 none s)) :=
    subqueryDepthFrom_eq (Nat.le_refl 0) none [] s
  rwa [Nat.zero_max] at h

end SqlReview.Checked
