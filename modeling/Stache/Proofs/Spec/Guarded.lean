import Stache.Proofs.Spec.Reading
import Stache.Proofs.Template.Layout

/-!
# Any text as a template

Two braces open a tag, so a text that holds them is not its own template. With a backslash in front of every
two braces it is one.

* `guarded` -- the text with a `\{{` in place of each `{{`, from the left;
* `literal_guarded`, `unescape_guarded` -- no tag opens in it, and it stands for the text;
* `scan_guarded` -- its segments: the text as one content, or nothing if the text is empty;
* `guarded_shown` -- **every text is shown by a template**: the code of its guarded text appends its literal.
-/

namespace Stache

/-! ## 1. Guarded texts -/

/-- The text with a backslash in front of every two braces. -/
def guarded : List Char → List Char
  | [] => []
  | '\x7b' :: '\x7b' :: text => '\\' :: '\x7b' :: '\x7b' :: guarded text
  | c :: text => c :: guarded text

/-- `\{{` in place of each `{{`, from the left. -/
theorem guarded_eq (text : List Char) : guarded text = Text.replaceAll openingMark escapedMark text := by
  unfold Text.replaceAll
  fun_induction guarded text with
  | case1 => rfl
  | case2 text ih =>
    rw [ih]
    rfl
  | case3 c text hopen ih =>
    have hnone : Text.afterMark? openingMark (c :: text) = none := by
      rw [Text.afterMark?_eq_none]
      rintro ⟨more, he⟩
      simp only [openingMark, List.cons_append, List.nil_append, List.cons.injEq] at he
      exact hopen more he.1.symm he.2.symm
    rw [Text.replaceFrom, hnone, ih]

theorem guarded_eq_nil {text : List Char} : guarded text = [] ↔ text = [] := by
  fun_cases guarded text <;> simp

/-- A brace in front was in front before, and it stood alone. -/
theorem brace_of_guarded {text rest : List Char} (h : guarded text = '\x7b' :: rest) :
    ∃ behind, text = '\x7b' :: behind ∧ rest = guarded behind ∧ behind.head? ≠ some '\x7b' := by
  fun_cases guarded text with
  | case1 => cases h
  | case2 text => cases h
  | case3 c text hopen =>
    rw [guarded] at h
    · obtain ⟨rfl, rfl⟩ := List.cons.inj h
      refine ⟨text, rfl, rfl, fun hhead => ?_⟩
      obtain ⟨behind, rfl⟩ := List.head?_eq_some_iff.mp hhead
      exact hopen behind rfl rfl
    · exact hopen

/-- No guarded text begins with two braces. -/
theorem guarded_ne_open {text rest : List Char} : guarded text ≠ '\x7b' :: '\x7b' :: rest := by
  intro h
  obtain ⟨behind, -, hrest, hhead⟩ := brace_of_guarded h
  obtain ⟨more, rfl, -, -⟩ := brace_of_guarded hrest.symm
  exact hhead rfl

/-- **No tag opens in a guarded text.** -/
theorem literal_guarded (text : List Char) : literal (guarded text) = (guarded text, []) := by
  fun_induction guarded text with
  | case1 => rfl
  | case2 text ih => rw [literal, ih]
  | case3 c text hopen ih =>
    rw [literal, ih]
    · -- a backslash in front is not followed by two braces
      exact fun _ _ e => guarded_ne_open e
    · intro rest hc e
      obtain ⟨behind, rfl, -, -⟩ := brace_of_guarded e
      exact hopen behind hc rfl

/-- **A guarded text stands for the text.** -/
theorem unescape_guarded (text : List Char) : unescape (guarded text) = text := by
  fun_induction guarded text with
  | case1 => rfl
  | case2 text ih => rw [unescape, ih]
  | case3 c text hopen ih =>
    rw [unescape, ih]
    exact fun _ _ e => guarded_ne_open e

/-! ## 2. The template of a text -/

theorem pieces_guarded (text : List Char) : pieces (guarded text) = Piece.ofText (guarded text) := by
  have hliteral := literal_guarded text
  rw [pieces, piecesFrom_last (by rw [hliteral]), hliteral]

/-- **The segments of a guarded text**: the text as one content. -/
theorem scan_guarded (text : String) : scan (String.ofList (guarded text.toList)) =
    .ok (if text = "" then [] else [.content text]) := by
  rw [scan, String.toList_ofList, pieces_guarded, Piece.ofText]
  by_cases hempty : text = ""
  · subst hempty
    rfl
  · have hne : guarded text.toList ≠ [] := by
      rw [ne_eq, guarded_eq_nil, String.toList_eq_nil_iff]
      exact hempty
    have hcontent : Segment.contentOf (guarded text.toList) false false = text := by
      show String.ofList (unescape (guarded text.toList)) = text
      rw [unescape_guarded, String.ofList_toList]
    rw [if_neg hne, if_neg hempty]
    show Except.ok [Segment.content (Segment.contentOf (guarded text.toList) false false)] = _
    rw [hcontent]

theorem parse_guarded (text : String) : Program.parse (String.ofList (guarded text.toList)) =
    .ok ⟨if text = "" then [] else [.content text], []⟩ := by
  rw [Program.parse, scan_guarded]
  by_cases hempty : text = ""
  · rw [if_pos hempty, if_pos hempty]
    show Program.ofSegments [] = _
    rw [Program.ofSegments, readBody]
    rfl
  · rw [if_neg hempty, if_neg hempty]
    show Program.ofSegments [.content text] = _
    rw [Program.ofSegments, readBody, readBody]
    rfl

/-- The code of a spec whose main function has the given statements and calls no other function. -/
def mainAlone (statements : List String) : String :=
  objectText [fieldText "compiler" "[8,\">= 4.3.0\"]", fieldText "main" (functionText statements),
    fieldText "useData" "true"]

/-- **Every text is shown by a template.** With a `\{{` in place of each `{{` the text is accepted, its only segment
    is the text itself, and its code, with all references left as they are, is a main function that appends
    the literal of the text, and no other function. There is no segment, and nothing is appended, for the
    empty text. -/
theorem guarded_shown (hints : Hints) (text : String) :
    let source := String.ofList (Text.replaceAll openingMark escapedMark text.toList)
    scan source = .ok (if text = "" then [] else [.content text]) ∧
      (compilation hints source).run leaveAll () =
        (.ok (mainAlone (if text = "" then [] else ["buffer += " ++ Text.quote text ++ ";"])), ()) := by
  rw [← guarded_eq]
  refine ⟨scan_guarded text, ?_⟩
  rw [compilation, parse_guarded]
  by_cases hempty : text = ""
  · rw [if_pos hempty, if_pos hempty]
    rfl
  · rw [if_neg hempty, if_neg hempty]
    have hline : linesOf hints [] [.content text] = [.chunk (.chunk text)] := by
      rw [linesOf, linesOf, Statement.line?, chunkLine?, if_neg (by simpa using hempty)]
      rfl
    show ((BodyOf.mk (linesOf hints [] [.content text]) []).ask >>= fun body =>
      Dialogue.done body.specText).run leaveAll () = _
    rw [hline]
    rfl

/-- Three braces, behind a backslash. -/
example : guarded ['\\', '\x7b', '\x7b', '\x7b'] = ['\\', '\\', '\x7b', '\x7b', '\x7b'] := by decide

end Stache
