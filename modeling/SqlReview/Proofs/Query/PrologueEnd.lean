import SqlReview.Proofs.Query.BoundTable
import SqlReview.Proofs.Query.Standing
import SqlReview.Proofs.Text.Trim

/-!
# Where a prologue ends

Two scans read a prologue, and only the one for the main query follows backslashes in quoted
identifiers. Where no mark of such an identifier is escaped, the reader of names is at rest when the
main query begins, and then the names are told by the prologue alone. With an escaped mark the
reader can come to stand in an identifier or in parentheses instead, and then some main query binds
a name.
-/

namespace SqlReview.Query

open SqlReview.Text SqlReview.Lexical

/-! ### Before a main query -/

variable {p m z : List Char}

/-- A text in which no name goes on at the end begins with a keyword or not, whatever follows it. -/
theorem startsWith_append_of_last {keyword : String}
    (hk : ∀ k ∈ keyword.toList, isNameChar k = true) {u : List Char} (hne : u ≠ [])
    (hlast : u.getLast?.any isNameChar = false) (z : List Char) :
    startsWith keyword (u ++ z) = startsWith keyword u := by
  have hspan := List.takeWhile_append_dropWhile (p := isNameChar) (l := u)
  have hword : ∀ c ∈ u.takeWhile isNameChar, isNameChar c = true := fun c hc =>
    List.all_eq_true.mp List.all_takeWhile c hc
  have hrest := startsInName_dropWhile u
  rw [← hspan] at hlast ⊢
  have hrest' : startsInName (u.dropWhile isNameChar ++ z) = false := by
    by_cases hnil : u.takeWhile isNameChar = []
    · rw [hnil, List.nil_append] at hspan
      rw [hspan] at hrest ⊢
      obtain ⟨c, u, rfl⟩ := List.exists_cons_of_ne_nil hne
      exact hrest
    · exact startsInName_append_of_word hnil hword hrest (.inr hlast)
  rw [List.append_assoc, startsWith_word hk hword hrest', startsWith_word hk hword hrest]

private theorem hasPrologue_append_of_last (hlast : p.getLast?.any isNameChar = false)
    (hm : hasPrologue m = false) (h : hasPrologue (p ++ m) = true) (z : List Char) :
    hasPrologue (p ++ z) = true := by
  obtain ⟨v, hv, hp⟩ := exists_trimStart p
  have hne : trimStart p ≠ [] := by
    intro hnil
    rw [hnil, List.append_nil] at hp
    rw [hasPrologue, hp, trimStart_append hv, ← hasPrologue, hm] at h
    exact Bool.noConfusion h
  have hlast' : (trimStart p).getLast?.any isNameChar = false := by
    rw [hp] at hlast
    exact getLast?_any_of_append hlast
  rw [hasPrologue, trimStart_append_of_ne_nil hne,
    startsWith_append_of_last (by decide) hne hlast'] at h ⊢
  exact h

/-- What stands before a main query is a passage, in which no name goes on at the end, and the text
has a prologue whatever the main query is. -/
theorem passage_of_mainQuery (hprologue : hasPrologue (p ++ m) = true)
    (hmain : mainQuery (p ++ m) = m) (hm : startsWith "SELECT" m = true) :
    Passage 0 p 0 ∧ p.getLast?.any isNameChar = false ∧ ∀ z, hasPrologue (p ++ z) = true := by
  have hselect := hasPrologue_of_select hm
  have hfrom : selectFrom 0 none false (p ++ m) = some m := by
    rw [mainQuery, if_pos hprologue] at hmain
    cases hs : selectFrom 0 none false (p ++ m) with
    | none =>
      rw [hs, Option.getD_none] at hmain
      rw [hmain, hselect] at hprologue
      exact Bool.noConfusion hprologue
    | some t =>
      rw [hs, Option.getD_some] at hmain
      rw [hmain]
  obtain ⟨hpassage, hlast⟩ := passage_of_selectFrom hm hfrom
  exact ⟨hpassage, hlast, hasPrologue_append_of_last hlast hselect hprologue⟩

/-! ### The reader after a passage -/

private theorem standing_fillers (b : Binder) (n : Nat) (s : List Char) :
    ∃ b' : Binder, b'.depth = b.depth ∧
      b.standing (List.replicate n filler ++ apostrophe :: s) = b'.standing s := by
  have hmark : isUnread apostrophe = true := by decide
  cases n with
  | zero => exact ⟨b, rfl, b.standing_unread hmark s⟩
  | succ n =>
    refine ⟨b.onWord (List.replicate (n + 1) filler), b.depth_onWord _, ?_⟩
    have hname : ∀ c ∈ List.replicate (n + 1) filler, isNameChar c = true := by
      intro c hc
      rw [List.eq_of_mem_replicate hc]
      decide
    have hselect : sameText (List.replicate (n + 1) filler) "SELECT".toList = false := by
      rw [List.replicate_succ]
      simp [sameText, lowerAscii, filler]
    have hne : List.replicate (n + 1) filler ≠ [] := List.cons_ne_nil filler _
    have hrest : startsInName (apostrophe :: s) = false := by
      exact (by decide : isNameChar apostrophe = false)
    rw [b.standing_word hne hname hrest, hselect, if_neg (by simp),
      Binder.standing_unread _ hmark]

/-- Where no mark of an identifier is escaped, the reader of names leaves a passage outside of
identifiers, and with the parentheses open that the scan for the main query takes to be open. -/
theorem Passage.standing {d e : Nat} (h : Passage d p e) (hp : escapesMark none p = false)
    {b : Binder} (hb : b.depth = d) :
    ∃ b' : Binder, b'.depth = e ∧ b.standing (blankStrings p) = .between b' := by
  induction h generalizing b with
  | @nil d =>
    refine ⟨b, hb, ?_⟩
    rw [blankStrings, blankFrom_nil, Binder.standing]
  | @opening d e s _ ih =>
    rw [escapesMark_cons (by decide)] at hp
    rw [blankStrings, blankFrom_cons _ s (by decide), Binder.standing_opening]
    exact ih hp (by rw [b.depth_onOpening, hb])
  | @closing d e s _ ih =>
    rw [escapesMark_cons (by decide)] at hp
    rw [blankStrings, blankFrom_cons _ s (by decide), Binder.standing_closing]
    exact ih hp (by rw [b.depth_onClosing, hb])
  | @span d e m inside s hm hinside _ ih =>
    rw [escapesMark, if_pos hm] at hp
    obtain ⟨hmem, hs⟩ := hinside.not_mem_of_escapesMark hm hp
    rw [blankStrings, blankFrom, if_pos hm, hinside.blankFrom _ hm]
    by_cases happ : m = apostrophe
    · subst happ
      have hfillers : ∀ c ∈ inside.flatMap (content true), c = filler := by
        intro c hc
        obtain ⟨a, -, ha⟩ := List.mem_flatMap.mp hc
        exact List.eq_of_mem_replicate ha
      obtain ⟨b', hdepth, hstand⟩ := standing_fillers b (inside.flatMap (content true)).length
        (blankStrings s)
      rw [← List.eq_replicate_of_mem hfillers] at hstand
      rw [b.standing_unread (by decide)]
      obtain ⟨b'', hdepth', hstand'⟩ := ih hs (hdepth.trans hb)
      exact ⟨b'', hdepth', hstand.trans hstand'⟩
    · have hfilled : (m == apostrophe) = false := beq_eq_false_iff_ne.mpr happ
      have hmark : m = backtick ∨ m = doubleQuote := by
        simp only [isQuote, Bool.or_eq_true, beq_iff_eq] at hm
        rcases hm with (h | h) | h
        · exact absurd h happ
        · exact .inr h
        · exact .inl h
      have hcontent : inside.flatMap (content false) = inside := List.flatMap_singleton' inside
      rw [hfilled, hcontent, b.standing_quoted hmark]
      · exact ih hs (by rw [b.depth_onWord, hb])
      · exact fun c hc => bne_iff_ne.mpr fun heq => hmem happ (heq ▸ hc)
  | @word d e w s hne hw hselect hs _ ih =>
    have hquote : ∀ c ∈ w, isQuote c = false := fun c hc => (ne_of_isNameChar (hw c hc)).1
    have hrest : startsInName (blankStrings s) = false := by
      rw [startsInName, blankStrings, head?_blankFrom]
      exact hs
    rw [escapesMark_unquoted hquote] at hp
    rw [blankStrings, blankFrom_unquoted _ hquote, ← blankStrings, b.standing_word hne hw hrest,
      if_neg]
    · exact ih hp (by rw [b.depth_onWord, hb])
    · rintro ⟨hdepth, hword⟩
      rw [hselect (hb.symm.trans hdepth)] at hword
      exact Bool.noConfusion hword
  | @idle d e c s hc _ ih =>
    obtain ⟨hquote, hopen, hclose, hname⟩ := ne_of_isIdle hc
    rw [escapesMark_cons hquote] at hp
    rw [blankStrings, blankFrom_cons _ s hquote, ← blankStrings]
    by_cases hcomma : c = ','
    · rw [hcomma, b.standing_comma]
      exact ih hp (by rw [b.depth_onComma, hb])
    · obtain ⟨hbacktick, hdouble⟩ := beq_of_isQuote_eq_false hquote
      rw [b.standing_unread]
      · exact ih hp hb
      · simp_all [isUnread]

/-- A main query binds no name after a reader that is at rest. -/
theorem Standing.AtRest.names_resume {st : Standing} (h : st.AtRest)
    (hm : startsWith "SELECT" m = true) : (st.resume (blankStrings m)).names = st.names := by
  cases st with
  | done names => rfl
  | between b =>
    have hcollect := Binder.collect_select hm b h
    rw [Binder.collect, Binder.run_tokens] at hcollect
    exact hcollect
  | inside b m w => exact False.elim h

/-! ### Main queries that bind a name -/

/-- A quoted identifier is in one of the two marks. -/
theorem Binder.mark_of_standing {b b' : Binder} {s w : List Char} {c : Char}
    (h : b.standing s = .inside b' c w) : c = backtick ∨ c = doubleQuote := by
  induction s using symbols_induction generalizing b with
  | nil =>
    rw [standing] at h
    exact Standing.noConfusion h
  | opening s ih => exact ih (b.standing_opening s ▸ h)
  | closing s ih => exact ih (b.standing_closing s ▸ h)
  | comma s ih => exact ih (b.standing_comma s ▸ h)
  | quoted m w s hm hw ih => exact ih (b.standing_quoted hm hw s ▸ h)
  | unclosed m s hm hs =>
    rw [b.standing_unclosed hm hs] at h
    injection h with _ hc
    exact hc ▸ hm
  | word w s hne hw hs ih =>
    rw [b.standing_word hne hw hs] at h
    split at h
    · exact Standing.noConfusion h
    · exact ih h
  | unread c s hc ih => exact ih (b.standing_unread hc s ▸ h)

private theorem exists_bareName (names : List (List Char)) :
    ∃ n : BareName, lower n.val ∉ names := by
  have hall : ∀ c ∈ List.replicate (names.flatten.length + 1) 'n', c = 'n' :=
    fun c hc => List.eq_of_mem_replicate hc
  have hkeywords : ∀ k ∈ prologueKeywords,
      sameText (List.replicate (names.flatten.length + 1) 'n') k.toList = false := by
    intro k hk
    rw [List.replicate_succ]
    simp only [prologueKeywords, List.mem_cons, List.not_mem_nil, or_false] at hk
    rcases hk with rfl | rfl | rfl | rfl <;> simp [sameText, lowerAscii]
  refine ⟨⟨List.replicate (names.flatten.length + 1) 'n', List.cons_ne_nil 'n' _,
    fun c hc => hall c hc ▸ by decide, hkeywords⟩, ?_⟩
  -- the name is longer than all the others together
  intro hmem
  have hascii : ∀ c ∈ List.replicate (names.flatten.length + 1) 'n', c.toNat < 128 :=
    fun c hc => hall c hc ▸ by decide
  have hlength := (List.sublist_flatten_of_mem hmem).length_le
  rw [lower_of_ascii hascii, length_lowerAscii, List.length_replicate] at hlength
  omega

namespace Binder

variable (b : Binder) (n : BareName)

/-- A comma and one more binding. -/
def furtherBinding : List Char :=
  ", ".toList ++ n.val ++ " AS ()".toList

/-- Closes the parentheses that a reader is in, and binds a name. -/
def leaving : List Char :=
  List.replicate b.depth ')' ++ furtherBinding n

/-- A reader binds the name of a further binding, having left the parentheses that it is in. -/
theorem collect_leaving : b.collect (b.leaving n) = insertName b.names (lower n.val) := by
  unfold leaving
  induction hd : b.depth generalizing b with
  | zero =>
    have hsplit : furtherBinding n = ',' :: ([' '] ++
        (n.val ++ ([' '] ++ ("AS".toList ++ ([' '] ++ '(' :: ([] ++ [')'])))))) := by
      simp [furtherBinding]
    have hcomma : b.onComma = { names := b.names } := by
      obtain ⟨depth, expecting, candidate, names⟩ := b
      obtain rfl : depth = 0 := hd
      rfl
    have hname :
        startsInName ([' '] ++ ("AS".toList ++ ([' '] ++ '(' :: ([] ++ [')'])))) = false := by
      decide
    have hbody := collect_body (b := { names := b.names, candidate := some (lower n.val) })
      (s := []) rfl ⟨"AS".toList, by decide⟩ ⟨[' '], by decide⟩ ⟨[], .nil⟩
    rw [List.replicate_zero, List.nil_append, hsplit, collect_comma, hcomma, collect_blanks _ rfl,
      collect_name _ n hname, collect_blanks _ rfl]
    refine hbody.trans ?_
    rw [collect, run_tokens, blankStrings, blankFrom_nil, standing]
    rfl
  | succ d ih =>
    rw [List.replicate_succ, List.cons_append, collect_closing, ih b.onClosing, names_onClosing]
    rw [depth_onClosing, hd, Nat.add_sub_cancel]

/-- The characters of a further binding open no span and no comment. -/
theorem forall_mem_leaving :
    ∀ c ∈ b.leaving n, isQuote c = false ∧ c ≠ backslash ∧ c ≠ '-' ∧ c ≠ '/' := by
  have hname : ∀ c, isNameChar c = true →
      isQuote c = false ∧ c ≠ backslash ∧ c ≠ '-' ∧ c ≠ '/' := by
    intro c hc
    have hne : ∀ k, isNameChar k = false → c ≠ k := by
      rintro k hk rfl
      rw [hc] at hk
      exact Bool.noConfusion hk
    exact ⟨(ne_of_isNameChar hc).1, hne _ (by decide), hne _ (by decide), hne _ (by decide)⟩
  intro c hc
  simp only [leaving, furtherBinding, List.mem_append] at hc
  rcases hc with hc | (hc | hc) | hc
  · rw [List.eq_of_mem_replicate hc]
    decide
  · revert c
    decide
  · exact hname c (n.property.2.1 c hc)
  · revert c
    decide

private theorem leaving_onWord (w : List Char) : (b.onWord w).leaving n = b.leaving n := by
  rw [leaving, depth_onWord, leaving]

private theorem startsInName_leaving : startsInName (b.leaving n) = false := by
  unfold leaving
  cases b.depth with
  | zero => exact (by decide : isNameChar ',' = false)
  | succ d => exact (by decide : isNameChar ')' = false)

end Binder

private theorem blankStrings_eq_self {s : List Char} (h : apostrophe ∉ s) : blankStrings s = s :=
  blankFrom_eq_self _ (by simp) fun c hc => beq_eq_false_iff_ne.mpr fun heq => h (heq ▸ hc)

/-- A main query of one word binds no name. -/
theorem Standing.names_resume_select (st : Standing)
    (hmark : ∀ b c w, st = .inside b c w → c = backtick ∨ c = doubleQuote) :
    (st.resume (blankStrings "SELECT".toList)).names = st.names := by
  rw [blankStrings_eq_self (by decide)]
  cases st with
  | done names => rfl
  | between b =>
    have hstand := b.standing_word (w := "SELECT".toList) (s := []) (by decide) (by decide) rfl
    rw [List.append_nil] at hstand
    rw [resume, hstand]
    split
    · rfl
    · rw [Binder.standing]
      exact b.names_onWord _
  | inside b c w =>
    have hmem : c ∉ "SELECT".toList := by
      rcases hmark b c w rfl with rfl | rfl <;> decide
    rw [resume, if_neg hmem]
    rfl

private theorem startsWith_select_append {s : List Char} (hs : startsInName s = false) :
    startsWith "SELECT" ("SELECT".toList ++ s) = true := by
  rw [startsWith_word (by decide) (by decide) hs]
  decide

private theorem plain_unclosed {c : Char} (hc : isQuote c = true) {s : List Char}
    (h : ∀ d ∈ s, isQuote d = false ∧ d ≠ backslash) : Plain (c :: s) := by
  have hspan : removeFrom (.quoted c) s = s := by
    induction s with
    | nil => rfl
    | cons d s ih =>
      obtain ⟨hquote, hslash⟩ := h d (List.mem_cons_self ..)
      have hne : d ≠ c := by
        rintro rfl
        rw [hc] at hquote
        exact Bool.noConfusion hquote
      rw [removeFrom_quoted_cons fun hs => absurd hs hslash, Region.afterQuoted, if_neg hne,
        ih fun e he => h e (List.mem_cons_of_mem d he)]
  have hopens : ¬ opensComment c s := by
    rintro (⟨rfl, -⟩ | ⟨rfl, -⟩) <;> exact absurd hc (by decide)
  rw [Plain, removeComments, removeFrom_code_cons hopens, Region.afterCode, if_pos hc, hspan]

/-- After a reader that is not at rest some main query binds a given name. -/
theorem Standing.exists_names_resume (st : Standing) (h : ¬ st.AtRest)
    (hmark : ∀ b c w, st = .inside b c w → c = backtick ∨ c = doubleQuote) (n : BareName) :
    ∃ m, Plain m ∧ startsWith "SELECT" m = true ∧
      (st.resume (blankStrings m)).names = insertName st.names (lower n.val) := by
  have hselect : ∀ c ∈ "SELECT".toList, isQuote c = false ∧ c ≠ '-' ∧ c ≠ '/' := by decide
  cases st with
  | done names => exact absurd trivial h
  | between b =>
    have hdepth : ¬ (b.depth = 0 ∧ sameText "SELECT".toList "SELECT".toList) := fun h' => h h'.1
    have hchars := b.forall_mem_leaving n
    refine ⟨"SELECT".toList ++ b.leaving n, .append_of_forall ?_ hselect,
      startsWith_select_append (b.startsInName_leaving n), ?_⟩
    · have hplain := Plain.append_of_forall (t := []) rfl fun c hc =>
        ⟨(hchars c hc).1, (hchars c hc).2.2⟩
      rwa [List.append_nil] at hplain
    · have hcollect := b.collect_word (w := "SELECT".toList) (by decide) (by decide)
        (b.startsInName_leaving n)
      rw [if_neg hdepth, ← b.leaving_onWord n "SELECT".toList, Binder.collect_leaving,
        b.names_onWord, b.leaving_onWord, Binder.collect, Binder.run_tokens] at hcollect
      exact hcollect
  | inside b c w =>
    have hc := hmark b c w rfl
    have hquote : isQuote c = true := isQuote_of_mark hc
    have hchars := b.forall_mem_leaving n
    have hquotes : ∀ d, isQuote d = true → d ∉ b.leaving n := by
      intro d hd hmem
      rw [(hchars d hmem).1] at hd
      exact Bool.noConfusion hd
    refine ⟨"SELECT".toList ++ c :: b.leaving n, .append_of_forall ?_ hselect,
      startsWith_select_append (isNameChar_of_isQuote hquote), ?_⟩
    · exact plain_unclosed hquote fun d hd => ⟨(hchars d hd).1, (hchars d hd).2.1⟩
    · have happ : apostrophe ∉ "SELECT".toList ++ c :: b.leaving n := by
        rw [List.mem_append, List.mem_cons, not_or, not_or]
        refine ⟨by decide, ?_, hquotes _ (by decide)⟩
        rcases hc with rfl | rfl <;> decide
      have hselect' : ∀ d ∈ "SELECT".toList, (d != c) = true := by
        rcases hc with rfl | rfl <;> decide
      obtain ⟨htake, hdrop⟩ := span_mark hselect' (b.leaving n)
      have hcollect := (b.onWord (w ++ "SELECT".toList)).collect_leaving n
      rw [b.leaving_onWord, b.names_onWord, Binder.collect, Binder.run_tokens,
        blankStrings_eq_self (hquotes _ (by decide))] at hcollect
      rw [blankStrings_eq_self happ, resume,
        if_pos (List.mem_append_right _ (List.mem_cons_self ..)), htake, hdrop]
      exact hcollect

/-! ### Names of a prologue and its main query -/

/-- The names that a text binds are told by where the reader stands after its first part, when that
part closes its spans and no name goes on at its end. -/
theorem boundNames_append (hp : Whole p) (hlast : p.getLast?.any isNameChar = false)
    (hprologue : hasPrologue (p ++ z) = true) :
    boundNames (blankStrings (p ++ z)) =
      ((({} : Binder).standing (blankStrings p)).resume (blankStrings z)).names := by
  have hlast' : (blankStrings p).getLast?.any isNameChar = false := by
    rw [blankStrings, hp.getLast?_blankFrom, hlast]
  have hblanked : hasPrologue (blankStrings (p ++ z)) = true := by
    rw [blankStrings, hasPrologue_blankFrom, hprologue]
  rw [boundNames, if_pos hblanked, Binder.run_tokens, blankStrings, hp.blankFrom_append,
    ← blankStrings, ← blankStrings, Binder.standing_append _ _ (.inr hlast')]

/-- The names that a statement binds depend on the text before its main query alone exactly if the
reader of names is at rest there. It is when no backslash stands before the mark of a quoted
identifier inside of it. The main query is found behind that text in any case. -/
theorem boundNames_of_prologue_iff (hprologue : hasPrologue (p ++ m) = true)
    (hmain : mainQuery (p ++ m) = m) (hm : startsWith "SELECT" m = true) :
    (∀ m', startsWith "SELECT" m' = true → mainQuery (p ++ m') = m') ∧
      ((∀ m', Plain m' → startsWith "SELECT" m' = true →
          boundNames (blankStrings (p ++ m')) = boundNames (blankStrings (p ++ m))) ↔
        (({} : Binder).standing (blankStrings p)).AtRest) ∧
      (escapesMark none p = false → (({} : Binder).standing (blankStrings p)).AtRest) := by
  obtain ⟨hpassage, hlast, hprologues⟩ := passage_of_mainQuery hprologue hmain hm
  have hnames := fun z => boundNames_append hpassage.whole hlast (hprologues z)
  refine ⟨?_, ⟨?_, ?_⟩, ?_⟩
  · intro m' hm'
    rw [mainQuery, if_pos (hprologues m'), hpassage.selectFrom (.inr hlast), selectFrom_select hm']
    rfl
  · intro hsame
    by_contra hrest
    have hmark : ∀ b c w, ({} : Binder).standing (blankStrings p) = .inside b c w →
        c = backtick ∨ c = doubleQuote := fun _ _ _ => Binder.mark_of_standing
    obtain ⟨n, hn⟩ := exists_bareName (({} : Binder).standing (blankStrings p)).names
    obtain ⟨m', hplain, hm', hbinds⟩ := Standing.exists_names_resume _ hrest hmark n
    have hword := hsame "SELECT".toList rfl (by decide)
    rw [← hsame m' hplain hm', hnames, hnames, hbinds, Standing.names_resume_select _ hmark,
      insertName, if_neg hn] at hword
    exact absurd hword (by simp)
  · intro hrest m' _ hm'
    rw [hnames, hnames, hrest.names_resume hm', hrest.names_resume hm]
  · intro hescapes
    obtain ⟨b, hb, hstanding⟩ := hpassage.standing hescapes (b := {}) rfl
    rw [hstanding]
    exact hb

/-- A prologue with an escaped mark in a string, and one with an escaped mark in an identifier: the
main query of the second one binds a name. -/
theorem boundNames_of_escaped_mark :
    let p := "WITH \"a)\" AS (SELECT '\\'') ".toList
    let q := "WITH \"\\\"\" ".toList
    let m := "SELECT 1".toList
    let m' := "SELECT \" AS (SELECT 1) x\"".toList
    (hasPrologue (p ++ m) = true ∧ mainQuery (p ++ m) = m ∧ escapesMark none p = false ∧
      ∀ m', Plain m' → startsWith "SELECT" m' = true →
        boundNames (blankStrings (p ++ m')) = boundNames (blankStrings (p ++ m))) ∧
    hasPrologue (q ++ m) = true ∧ mainQuery (q ++ m) = m ∧ mainQuery (q ++ m') = m' ∧
      boundNames (blankStrings (q ++ m)) = [] ∧
      boundNames (blankStrings (q ++ m')) = [" select ".toList] ∧
      ¬ (({} : Binder).standing (blankStrings q)).AtRest := by
  intro p q m m'
  have hm : startsWith "SELECT" m = true := by decide
  have hm' : startsWith "SELECT" m' = true := by decide
  constructor
  · have hprologue : hasPrologue (p ++ m) = true := by decide
    have hmain : mainQuery (p ++ m) = m := by decide
    have hescapes : escapesMark none p = false := by decide
    obtain ⟨-, hiff, hrest⟩ := boundNames_of_prologue_iff hprologue hmain hm
    exact ⟨hprologue, hmain, hescapes, hiff.mpr (hrest hescapes)⟩
  · have hprologue : hasPrologue (q ++ m) = true := by decide
    have hmain : mainQuery (q ++ m) = m := by decide
    have hnone : boundNames (blankStrings (q ++ m)) = [] := by decide +kernel
    have hbound : boundNames (blankStrings (q ++ m')) = [" select ".toList] := by decide +kernel
    obtain ⟨hmains, hiff, -⟩ := boundNames_of_prologue_iff hprologue hmain hm
    refine ⟨hprologue, hmain, hmains m' hm', hnone, hbound, fun hrest => ?_⟩
    have hsame := hiff.mpr hrest m' rfl hm'
    rw [hnone, hbound] at hsame
    exact List.cons_ne_nil _ _ hsame

end SqlReview.Query
