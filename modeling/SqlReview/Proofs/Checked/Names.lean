import SqlReview.Proofs.Checked.Query

/-!
# Checked scan of a prologue

The scan that collects the bound names keeps a byte position of its own, which it moves behind a
quoted identifier or a word at once. With each position checked, and each move seen to go forward,
it binds the names that the symbols of the text bind.
-/

namespace SqlReview.Checked

open SqlReview.Text SqlReview.Lexical SqlReview.Query

/-- The offset of the first character of a class. -/
def findOffset? (cls : Char → Bool) : List Char → Option Nat
  | [] => none
  | c :: s => if cls c then some 0 else (findOffset? cls s).map (c.utf8Size + ·)

/-- The offset of the first character of a class from an offset on, or else that of the end. -/
def findFrom (cls : Char → Bool) (text : List Char) (offset : Nat) : Checked Nat := do
  let rest ← dropBytes? offset text
  some (((findOffset? cls rest).map (offset + ·)).getD (byteLength text))

/-- A closing parenthesis. -/
def onClosing (b : Binder) : Checked Binder :=
  if b.depth == 0 then some b
  else do
    let depth ← minus b.depth 1
    if depth == 0 then
      some { b with
        depth := 0
        expecting := .name
        candidate := if b.expecting = .columns then b.candidate else none }
    else some { b with depth }

/-- A quoted identifier between two offsets. It is cut out only outside of parentheses. -/
def onQuoted (text : List Char) (b : Binder) (start stop : Nat) : Checked Binder :=
  if b.depth == 0 then (slice? text start stop).map b.onWord else some b

/-- The reader behind the symbol that begins at an offset with the character `c`, and the offset
behind the symbol; none at the word that ends a prologue. -/
def onSymbol (text : List Char) (b : Binder) (offset : Nat) (c : Char) :
    Checked (Option (Binder × Nat)) :=
  let next := offset + c.utf8Size
  if c == '(' then some (some (b.onOpening, next))
  else if c == ')' then do
    let closed ← onClosing b
    some (some (closed, next))
  else if c == ',' then some (some (b.onComma, next))
  else if c == backtick || c == doubleQuote then do
    let close ← findFrom (· == c) text next
    let read ← onQuoted text b next close
    some (some (read, min (close + 1) (byteLength text)))
  else if isNameChar c then do
    let stop ← findFrom (!isNameChar ·) text offset
    let word ← slice? text offset stop
    if b.depth = 0 ∧ sameText word "SELECT".toList then some none
    else some (some (b.onWord word, stop))
  else some (some (b, next))

/-- The names bound from an offset on. A scan that does not go forward has no outcome. -/
def namesFrom (text : List Char) (b : Binder) (offset : Nat) : Checked (List (List Char)) :=
  match dropBytes? offset text with
  | none => none
  | some [] => some b.names
  | some (c :: _) =>
    match onSymbol text b offset c with
    | none => none
    | some none => some b.names
    | some (some (read, next)) =>
      if _ : offset < next ∧ next ≤ byteLength text then namesFrom text read next else none
termination_by byteLength text - offset

/-- The names that a statement's prologue binds. -/
def boundNames (s : List Char) : Checked (List (List Char)) := do
  if ← hasPrologue s then namesFrom s {} 0 else some []

/-! ### Symbols -/

private theorem getD_findOffset? (cls : Char → Bool) (s : List Char) :
    (findOffset? cls s).getD (byteLength s) = byteLength (s.takeWhile (!cls ·)) := by
  induction s with
  | nil => rfl
  | cons c s ih =>
    rw [findOffset?, byteLength_cons]
    cases hc : cls c with
    | true => simp [hc]
    | false =>
      rw [if_neg Bool.false_ne_true, Option.getD_map (c.utf8Size + ·), ih]
      simp [hc]

private theorem findFrom_eq (cls : Char → Bool) (p s : List Char) :
    findFrom cls (p ++ s) (byteLength p) =
      some (byteLength (p ++ s.takeWhile (!cls ·))) := by
  rw [findFrom, dropBytes?_byteLength, some_bind, byteLength_append,
    Option.getD_map (byteLength p + ·), getD_findOffset?, byteLength_append]

private theorem onClosing_eq (b : Binder) : onClosing b = some b.onClosing := by
  obtain ⟨depth, expecting, candidate, names⟩ := b
  match depth with
  | 0 => rfl
  | 1 => rfl
  | n + 2 => rfl

private theorem onWord_of_depth_ne {b : Binder} (h : b.depth ≠ 0) (w : List Char) :
    b.onWord w = b :=
  if_pos (Nat.pos_of_ne_zero h)

private theorem onQuoted_eq (b : Binder) (a w s : List Char) :
    onQuoted (a ++ (w ++ s)) b (byteLength a) (byteLength (a ++ w)) = some (b.onWord w) := by
  rw [onQuoted, byteLength_append, slice?_byteLength]
  split
  · rfl
  · next hdepth => rw [onWord_of_depth_ne (by simpa using hdepth)]

/-- Behind the closing mark of a quoted identifier a text goes on; an identifier that is not closed
ends with the text. -/
theorem exists_quoted (a s : List Char) {c : Char} (hc : c.utf8Size = 1) :
    ∃ q, s = q ++ (s.dropWhile (· != c)).drop 1 ∧
      min (byteLength (a ++ s.takeWhile (· != c)) + 1) (byteLength (a ++ s)) =
        byteLength (a ++ q) := by
  have hsplit := List.takeWhile_append_dropWhile (p := (· != c)) (l := s)
  cases hrest : s.dropWhile (· != c) with
  | nil =>
    rw [hrest, List.append_nil] at hsplit
    exact ⟨s, by simp, by rw [hsplit]; omega⟩
  | cons d t =>
    have hd : d = c := by
      have hhead := List.head?_dropWhile_not (· != c) s
      rw [hrest] at hhead
      simpa using hhead
    rw [hrest] at hsplit
    subst hd
    refine ⟨s.takeWhile (· != d) ++ [d], by simp [hsplit], ?_⟩
    have hle : byteLength (a ++ s) =
        byteLength (a ++ s.takeWhile (· != d)) + (1 + byteLength t) := by
      rw [← hc, ← byteLength_cons, ← byteLength_append, List.append_assoc, hsplit]
    rw [← List.append_assoc, byteLength_concat, hc]
    omega

/-- A symbol is read as the scan of symbols reads it, and the offset behind it is that of the text
that is left. -/
theorem onSymbol_eq (b : Binder) (p : List Char) (c : Char) (s : List Char) :
    (onSymbol (p ++ c :: s) b (byteLength p) c = some none ∧
      b.run (tokens (c :: s)) = b.names) ∨
    ∃ read q t, q ≠ [] ∧ c :: s = q ++ t ∧
      onSymbol (p ++ c :: s) b (byteLength p) c = some (some (read, byteLength (p ++ q))) ∧
      b.run (tokens (c :: s)) = read.run (tokens t) := by
  rw [onSymbol, ← byteLength_concat, tokens]
  by_cases hopen : c = '('
  · subst hopen
    exact .inr ⟨b.onOpening, ['('], s, by simp, rfl, rfl, rfl⟩
  by_cases hclose : c = ')'
  · subst hclose
    exact .inr ⟨b.onClosing, [')'], s, by simp, rfl, by simp [onClosing_eq], rfl⟩
  by_cases hcomma : c = ','
  · subst hcomma
    exact .inr ⟨b.onComma, [','], s, by simp, rfl, rfl, rfl⟩
  have hopen' : (c == '(') = false := beq_eq_false_iff_ne.mpr hopen
  have hclose' : (c == ')') = false := beq_eq_false_iff_ne.mpr hclose
  have hcomma' : (c == ',') = false := beq_eq_false_iff_ne.mpr hcomma
  simp only [hopen', hclose', hcomma', Bool.false_eq_true, if_false]
  by_cases hquote : (c == backtick || c == doubleQuote) = true
  · have hsize : c.utf8Size = 1 := by
      rw [Bool.or_eq_true, beq_iff_eq, beq_iff_eq] at hquote
      rcases hquote with rfl | rfl <;> rfl
    have hfind := findFrom_eq (· == c) (p ++ [c]) s
    have hread := onQuoted_eq b (p ++ [c]) (s.takeWhile (· != c)) (s.dropWhile (· != c))
    obtain ⟨q, hq, hstop⟩ := exists_quoted (p ++ [c]) s hsize
    rw [List.takeWhile_append_dropWhile] at hread
    rw [← List.append_cons] at hfind hread
    refine .inr ⟨b.onWord (s.takeWhile (· != c)), c :: q, (s.dropWhile (· != c)).drop 1, by simp,
      congrArg (c :: ·) hq, ?_, ?_⟩
    · have hclosing : findFrom (· == c) (p ++ c :: s) (byteLength (p ++ [c])) =
          some (byteLength (p ++ [c] ++ s.takeWhile (· != c))) := hfind
      have hend : min (byteLength (p ++ [c] ++ s.takeWhile (· != c)) + 1)
          (byteLength (p ++ c :: s)) = byteLength (p ++ c :: q) := by
        simpa using hstop
      rw [if_pos hquote, hclosing, some_bind, hread, some_bind, hend]
    · rw [if_pos hquote, Binder.run]
  · by_cases hname : isNameChar c = true
    · have hfind := findFrom_eq (!isNameChar ·) p (c :: s)
      have hword : (c :: s).takeWhile (fun d => !!isNameChar d) = c :: s.takeWhile isNameChar := by
        simp [hname]
      have hcut : slice? (p ++ c :: s) (byteLength p)
          (byteLength (p ++ c :: s.takeWhile isNameChar)) = some (c :: s.takeWhile isNameChar) := by
        have h := slice?_byteLength p (c :: s.takeWhile isNameChar) (s.dropWhile isNameChar)
        rwa [← byteLength_append, List.cons_append, List.takeWhile_append_dropWhile] at h
      rw [hword] at hfind
      rw [if_neg hquote, if_neg hquote, if_pos hname, if_pos hname, hfind, some_bind, hcut,
        some_bind, Binder.run]
      split
      · exact .inl ⟨rfl, rfl⟩
      · refine .inr ⟨b.onWord (c :: s.takeWhile isNameChar), c :: s.takeWhile isNameChar,
          s.dropWhile isNameChar, by simp, ?_, rfl, rfl⟩
        rw [List.cons_append, List.takeWhile_append_dropWhile]
    · refine .inr ⟨b, [c], s, by simp, rfl, ?_, ?_⟩
      · rw [if_neg hquote, if_neg hname]
      · rw [if_neg hquote, if_neg hname]

/-- The scan goes over the symbols of the text. -/
theorem namesFrom_eq (b : Binder) (p s : List Char) :
    namesFrom (p ++ s) b (byteLength p) = some (b.run (tokens s)) := by
  induction hn : s.length using Nat.strongRecOn generalizing b p s with
  | ind n ih =>
    rw [namesFrom, dropBytes?_byteLength]
    cases s with
    | nil => simp [tokens, Binder.run]
    | cons c s =>
      rcases onSymbol_eq b p c s with ⟨hsymbol, hrun⟩ | ⟨read, q, t, hq, hsplit, hsymbol, hrun⟩
      · simp only [hsymbol, hrun]
      · have hpos : 0 < byteLength q := by
          obtain ⟨d, q, rfl⟩ := List.exists_cons_of_ne_nil hq
          exact Nat.lt_of_lt_of_le d.utf8Size_pos (Nat.le_add_right _ _)
        have hlt : t.length < n := by
          rw [← hn, hsplit, List.length_append]
          have := List.length_pos_of_ne_nil hq
          omega
        have hforward : byteLength p < byteLength (p ++ q) ∧
            byteLength (p ++ q) ≤ byteLength (p ++ c :: s) := by
          simp only [hsplit, byteLength_append]
          omega
        have hrest := ih t.length hlt read (p ++ q) t rfl
        rw [List.append_assoc, ← hsplit] at hrest
        simp only [hsymbol, dif_pos hforward, hrest, hrun]

/-- With its offsets checked, the scan of a prologue binds the names that it binds. -/
theorem boundNames_eq (s : List Char) : boundNames s = some (Query.boundNames s) := by
  have hnames : namesFrom s {} 0 = some (Binder.run {} (tokens s)) := namesFrom_eq {} [] s
  rw [boundNames, hasPrologue_eq, Query.boundNames, some_bind]
  split
  · exact hnames
  · rfl

end SqlReview.Checked
