import SqlReview.Proofs.Query.Span
import SqlReview.Proofs.Text.Bytes

/-!
# Blanked texts byte by byte

Blanking overwrites the bytes inside of the chosen spans and leaves all others as they are, so it
keeps every offset. A mark that opens or closes a span is never overwritten and a filler is no
mark, so a blanked text has its spans where the text has them. To blank it again blanks the spans
that are chosen now in addition to those that were chosen before.
-/

namespace SqlReview.Lexical

open SqlReview.Text SqlReview.Query

/-! ### Contents of spans -/

/-- The span that is open after one more character. -/
def spanAfter (span : Option OpenSpan) (c : Char) : Option OpenSpan :=
  match span with
  | none => if isQuote c then some { mark := c } else none
  | some q => q.next c

/-- Whether a character belongs to the content of a span with one of the chosen marks: the span is
open before it and still open after it. -/
def isContent (filled : Char → Bool) (span : Option OpenSpan) (c : Char) : Bool :=
  match span with
  | none => false
  | some q => filled q.mark && (q.next c).isSome

/-- A text with the contents of the chosen spans blanked, character by character, given the span
that is open before it. -/
def written (filled : Char → Bool) (span : Option OpenSpan) : List Char → List Char
  | [] => []
  | c :: s => content (isContent filled span c) c ++ written filled (spanAfter span c) s

/-- For every byte of a text, whether it belongs to the content of a span with one of the chosen
marks. -/
def contentBytes (filled : Char → Bool) (span : Option OpenSpan) : List Char → List Bool
  | [] => []
  | c :: s =>
    List.replicate c.utf8Size (isContent filled span c) ++
      contentBytes filled (spanAfter span c) s

/-- The byte that is written over contents. -/
def fillerByte : UInt8 := 0x78

/-- Bytes with fillers in place of those that are told to be overwritten. -/
def overwrite (inside : List Bool) (bytes : List UInt8) : List UInt8 :=
  List.zipWith (fun inside byte => if inside then fillerByte else byte) inside bytes

variable (filled : Char → Bool)

/-- No bytes are overwritten with no bytes. -/
@[simp] theorem overwrite_nil : overwrite [] [] = [] := rfl

private theorem overwrite_append {a b : List Bool} {x y : List UInt8} (h : a.length = x.length) :
    overwrite (a ++ b) (x ++ y) = overwrite a x ++ overwrite b y :=
  List.zipWith_append h

private theorem overwrite_replicate (b : Bool) (bytes : List UInt8) :
    overwrite (List.replicate bytes.length b) bytes =
      if b then List.replicate bytes.length fillerByte else bytes := by
  induction bytes with
  | nil => cases b <;> rfl
  | cons byte bytes ih =>
    rw [overwrite] at ih ⊢
    rw [List.length_cons, List.replicate_succ, List.zipWith_cons_cons, ih]
    cases b <;> rfl

/-- The bytes of a content are those of its character, or fillers instead. -/
theorem utf8_content (b : Bool) (c : Char) :
    utf8 (content b c) = overwrite (List.replicate c.utf8Size b) (String.utf8EncodeChar c) := by
  have hfillers : ∀ n, utf8 (List.replicate n filler) = List.replicate n fillerByte := by
    intro n
    induction n with
    | zero => rfl
    | succ n ih =>
      rw [List.replicate_succ, utf8_cons, ih]
      rfl
  rw [← String.length_utf8EncodeChar, overwrite_replicate, content]
  cases b with
  | true => rw [if_pos rfl, if_pos rfl, hfillers, String.length_utf8EncodeChar]
  | false => exact List.append_nil _

private theorem overwrite_cons (span : Option OpenSpan) (c : Char) (s : List Char) :
    overwrite (contentBytes filled span (c :: s)) (utf8 (c :: s)) =
      utf8 (content (isContent filled span c) c) ++
        overwrite (contentBytes filled (spanAfter span c) s) (utf8 s) := by
  have hlength : (List.replicate c.utf8Size (isContent filled span c)).length =
      (String.utf8EncodeChar c).length := by
    rw [List.length_replicate, String.length_utf8EncodeChar]
  rw [contentBytes, utf8_cons, overwrite_append hlength, utf8_content]

/-- Blanking character by character overwrites the bytes that are content of a chosen span. -/
theorem utf8_written (span : Option OpenSpan) (s : List Char) :
    utf8 (written filled span s) = overwrite (contentBytes filled span s) (utf8 s) := by
  induction s generalizing span with
  | nil => rfl
  | cons c s ih => rw [written, utf8_append, ih, ← overwrite_cons]

/-- A character after which a span goes on is blanked when the span is chosen. -/
theorem written_span {q r : OpenSpan} {c : Char} (h : q.next c = some r) (s : List Char) :
    written filled (some q) (c :: s) =
      content (filled q.mark) c ++ written filled (some r) s := by
  rw [written, spanAfter, isContent, h, Option.isSome_some, Bool.and_true]

/-- Only a quotation mark opens a span. -/
theorem isQuote_of_opened {c m : Char} (h : (if isQuote c then some c else none) = some m) :
    isQuote m = true := by
  split at h
  · next hc =>
    obtain rfl := Option.some.inj h
    exact hc
  · exact absurd h (by simp)

/-- Blanking takes one character after the other. -/
theorem blankFrom_eq_written {mark : Option Char} (hmark : ∀ m, mark = some m → isQuote m = true)
    (s : List Char) :
    blankFrom filled mark s = written filled (mark.map fun m => { mark := m }) s := by
  fun_induction blankFrom filled mark s with
  | case1 mark => cases mark <;> rfl
  | case2 c s ih =>
    have hspan : spanAfter none c =
        (if isQuote c then some c else none).map fun m => { mark := m } := by
      rw [spanAfter]
      split <;> rfl
    rw [Option.map_none, written, hspan, ← ih fun m => isQuote_of_opened]
    rfl
  | case3 m c s ih =>
    rw [Option.map_some, written_span (r := { mark := m, escaped := true }) filled rfl,
      written_span (r := { mark := m }) filled rfl, ih hmark, List.append_assoc]
    rfl
  | case4 m s hc ih =>
    have hnext := next_mark (hmark m rfl)
    rw [Option.map_some, written, spanAfter, isContent, hnext, Option.isSome_none,
      Bool.and_false, ih (by simp)]
    rfl
  | case5 m c s hc hm ih =>
    by_cases hslash : c = backslash
    · -- A backslash at the end takes no character with it.
      obtain rfl := eq_nil_of_backslash hc hslash
      subst hslash
      rw [Option.map_some, written_span (r := { mark := m, escaped := true }) filled rfl,
        blankFrom_nil]
      rfl
    · rw [Option.map_some, written_span filled (next_of_ne hm hslash), ih hmark]
      rfl

/-- Blanking overwrites the bytes that are content of a chosen span, and no others. -/
theorem utf8_blankFrom {mark : Option Char} (hmark : ∀ m, mark = some m → isQuote m = true)
    (s : List Char) :
    utf8 (blankFrom filled mark s) =
      overwrite (contentBytes filled (mark.map fun m => { mark := m }) s) (utf8 s) := by
  rw [blankFrom_eq_written filled hmark, utf8_written]

/-! ### Blanking again -/

private theorem blankFrom_fillers {m : Char} (hm : isQuote m = true) (n : Nat) (s : List Char) :
    blankFrom filled (some m) (List.replicate n filler ++ s) =
      List.replicate n filler ++ blankFrom filled (some m) s := by
  obtain ⟨hmark, hslash⟩ := filler_ne hm
  have hfiller : content (filled m) filler = [filler] := by
    cases h : filled m <;> rfl
  induction n with
  | zero => rfl
  | succ n ih =>
    rw [List.replicate_succ, List.cons_append, blankFrom_some_cons _ fun h => absurd h hslash,
      if_neg hmark, hfiller, ih]
    rfl

/-- To blank a blanked text is to blank the spans that are chosen at either time. -/
theorem blankFrom_blankFrom (also : Char → Bool) {mark : Option Char}
    (hmark : ∀ m, mark = some m → isQuote m = true) (s : List Char) :
    blankFrom also mark (blankFrom filled mark s) =
      blankFrom (fun m => also m || filled m) mark s := by
  fun_induction blankFrom filled mark s with
  | case1 mark => rw [blankFrom_nil, blankFrom_nil]
  | case2 c s ih =>
    rw [blankFrom, blankFrom, ih fun m => isQuote_of_opened]
  | case3 m c s ih =>
    rw [blankFrom, ← ih hmark]
    cases hfilled : filled m with
    | true =>
      simp only [content, if_pos, Bool.or_true, List.append_assoc]
      rw [blankFrom_fillers also (hmark m rfl), blankFrom_fillers also (hmark m rfl)]
    | false =>
      rw [Bool.or_false]
      change blankFrom also (some m) ('\\' :: c :: blankFrom filled (some m) s) = _
      rw [blankFrom]
  | case4 m s hc ih =>
    have hslash : m ≠ '\\' := by
      rintro rfl
      exact absurd (hmark _ rfl) (by decide)
    rw [blankFrom_some_cons _ fun h => absurd h hslash,
      blankFrom_some_cons _ fun h => absurd h hslash, if_pos rfl, if_pos rfl, ih (by simp)]
  | case5 m c s hc hm ih =>
    have hlast : c = '\\' → s = [] := eq_nil_of_backslash hc
    have hblanked : c = '\\' → blankFrom filled (some m) s = [] := by
      intro hslash
      rw [hlast hslash, blankFrom_nil]
    rw [blankFrom_some_cons _ hlast, if_neg hm, ← ih hmark]
    cases hfilled : filled m with
    | true =>
      simp only [content, if_pos, Bool.or_true]
      exact blankFrom_fillers also (hmark m rfl) _ _
    | false =>
      rw [Bool.or_false]
      change blankFrom also (some m) (c :: blankFrom filled (some m) s) = _
      rw [blankFrom_some_cons _ hblanked, if_neg hm]

/-- Blanking literals and blanking strings both keep the number of bytes, write a filler over every
byte of the contents that are to be blanked, and leave every other byte as it is. To do either
twice is to do it once, and to do both, in either order, is to blank literals. -/
theorem blanking_aligned_idempotent (s : List Char) :
    ((utf8 (blankLiterals s)).length = (utf8 s).length ∧
      (utf8 (blankStrings s)).length = (utf8 s).length) ∧
    (utf8 (blankLiterals s) =
        overwrite (contentBytes (fun m => m == apostrophe || m == doubleQuote) none s) (utf8 s) ∧
      utf8 (blankStrings s) = overwrite (contentBytes (· == apostrophe) none s) (utf8 s)) ∧
    (blankLiterals (blankLiterals s) = blankLiterals s ∧
      blankStrings (blankStrings s) = blankStrings s) ∧
    blankLiterals (blankStrings s) = blankLiterals s ∧
      blankStrings (blankLiterals s) = blankLiterals s := by
  have hnone : ∀ m, none = some m → isQuote m = true := by simp
  have hlength : ∀ filled, (utf8 (blankFrom filled none s)).length = (utf8 s).length := by
    intro filled
    rw [length_utf8, length_utf8, byteLength_blankFrom]
  have hagain : ∀ also filled both : Char → Bool, (∀ m, (also m || filled m) = both m) →
      blankFrom also none (blankFrom filled none s) = blankFrom both none s := by
    intro also filled both h
    rw [blankFrom_blankFrom filled also hnone, funext h]
  refine ⟨⟨hlength _, hlength _⟩, ⟨utf8_blankFrom _ hnone s, utf8_blankFrom _ hnone s⟩,
    ⟨hagain _ _ _ ?_, hagain _ _ _ ?_⟩, hagain _ _ _ ?_, hagain _ _ _ ?_⟩
  · exact fun m => Bool.or_self _
  · exact fun m => Bool.or_self _
  · intro m
    cases m == apostrophe <;> simp
  · intro m
    cases m == apostrophe <;> simp

end SqlReview.Lexical
