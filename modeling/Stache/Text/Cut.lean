/-!
# Cutting text at marks

Small total functions on `List Char` for finding, dropping and replacing a fixed mark. A mark is a
non-empty list of characters; occurrences are taken from the left and never overlap.
-/

namespace Stache.Text

/-- What follows `mark` when the text begins with it. -/
def afterMark? : (mark text : List Char) → Option (List Char)
  | [], text => some text
  | _ :: _, [] => none
  | m :: mark, c :: text => if m = c then afterMark? mark text else none

/-- What stands before `mark` when the text ends with it. -/
def beforeMark? (mark text : List Char) : Option (List Char) :=
  (afterMark? mark.reverse text.reverse).map List.reverse

/-- A mark that the text begins with, and what follows, are the text. -/
theorem append_of_afterMark? {mark text rest : List Char} (h : afterMark? mark text = some rest) :
    text = mark ++ rest := by
  fun_induction afterMark? mark text with
  | case1 text => simpa using h
  | case2 => simp at h
  | case3 mark c text ih => simp [← ih h]
  | case4 => simp at h

/-- The text before the first occurrence of `mark`, and the text after it. -/
def cut? (mark : List Char) : List Char → Option (List Char × List Char)
  | [] => none
  | c :: text =>
    match afterMark? mark (c :: text) with
    | some rest => some ([], rest)
    | none => (cut? mark text).map fun (before, after) => (c :: before, after)

/-- A cut loses nothing but the mark. -/
theorem append_of_cut? {mark text before after : List Char}
    (h : cut? mark text = some (before, after)) : text = before ++ mark ++ after := by
  fun_induction cut? mark text generalizing before after with
  | case1 => simp at h
  | case2 c text rest hr =>
    simp only [Option.some.injEq, Prod.mk.injEq] at h
    obtain ⟨rfl, rfl⟩ := h
    simpa using append_of_afterMark? hr
  | case3 c text _ ih =>
    obtain ⟨⟨b, a⟩, hba, he⟩ := Option.map_eq_some_iff.1 h
    simp only [Prod.mk.injEq] at he
    obtain ⟨rfl, rfl⟩ := he
    simp [ih hba]

/-- The text before the last occurrence of the character `mark`, and the text after it. -/
def cutLast? (mark : Char) (text : List Char) : Option (List Char × List Char) :=
  (cut? [mark] text.reverse).map fun (after, before) => (before.reverse, after.reverse)

/-- A cut at the last occurrence loses nothing but the mark, either. -/
theorem append_of_cutLast? {mark : Char} {text before after : List Char}
    (h : cutLast? mark text = some (before, after)) : text = before ++ mark :: after := by
  obtain ⟨⟨a, b⟩, hcut, hpair⟩ := Option.map_eq_some_iff.1 h
  simp only [Prod.mk.injEq] at hpair
  obtain ⟨rfl, rfl⟩ := hpair
  simpa using congrArg List.reverse (append_of_cut? hcut)

/-- Drops `skip` characters, then copies the text with every occurrence of `mark` replaced. -/
def replaceFrom (mark new : List Char) : (skip : Nat) → List Char → List Char
  | _, [] => []
  | skip + 1, _ :: text => replaceFrom mark new skip text
  | 0, c :: text =>
    match afterMark? mark (c :: text) with
    | some _ => new ++ replaceFrom mark new (mark.length - 1) text
    | none => c :: replaceFrom mark new 0 text

/-- The text with every occurrence of `mark` replaced by `new`, from the left. -/
def replaceAll (mark new : List Char) (text : List Char) : List Char :=
  replaceFrom mark new 0 text

/-- The first of `marks` that the text begins with. -/
def leadingMark? (marks : List (List Char)) (text : List Char) : Option (List Char) :=
  marks.find? fun mark => (afterMark? mark text).isSome

/-- Drops `skip` characters, then copies the text without the places where one of `marks` stands. -/
def eraseFrom (marks : List (List Char)) : (skip : Nat) → List Char → List Char
  | _, [] => []
  | skip + 1, _ :: text => eraseFrom marks skip text
  | 0, c :: text =>
    match leadingMark? marks (c :: text) with
    | some mark => eraseFrom marks (mark.length - 1) text
    | none => c :: eraseFrom marks 0 text

/-- The text without the occurrences of `marks`: from the left, and where several begin at one place,
    the one listed first. -/
def eraseAll (marks : List (List Char)) (text : List Char) : List Char :=
  eraseFrom marks 0 text

end Stache.Text
