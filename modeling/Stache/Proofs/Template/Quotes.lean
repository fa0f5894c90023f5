import Mathlib.Data.List.Infix
import Stache.Proofs.Template.Layout
import Stache.Proofs.Template.Spelling
import Stache.Proofs.Template.Tilde

/-!
# Quotes in tags

Where a tag ends is told by braces alone: quotes and brackets hide blanks, dots and sigils from the reader of
tokens, but they do not hide closing braces from the scanner.

* `scan_delimited` -- a tag that ends with a delimited value: it is read, or it ends inside of the value;
* `scan_quoted` -- **a tag with a quoted string, or with a name in brackets, is read as such exactly if no `}}`
  stands in the value**.
-/

namespace Stache

/-! ## 1. Cuts of longer texts -/

namespace Text

variable {mark text before after : List Char}

/-- What stands behind the first mark is no matter. -/
theorem cut?_behind (hm : mark ≠ []) (h : cut? mark text = some (before, after)) (rest : List Char) :
    cut? mark (text ++ rest) = some (before, after ++ rest) := by
  obtain ⟨rfl, hfirst⟩ := (cut?_eq_some hm).mp h
  refine (cut?_eq_some hm).mpr ⟨by simp, ?_⟩
  intro k hk hp
  refine hfirst k hk (List.prefix_of_prefix_length_le hp ((List.prefix_append _ rest).drop k) ?_)
  simp only [List.length_drop, List.length_append]
  omega

/-- A run without the first character of the mark is passed. -/
theorem cut?_run {c : Char} {run : List Char} (h : c ∉ run) (text : List Char) :
    cut? (c :: mark) (run ++ text) = (cut? (c :: mark) text).map fun cut => (run ++ cut.1, cut.2) := by
  induction run with
  | nil =>
    rw [List.nil_append]
    cases cut? (c :: mark) text <;> rfl
  | cons d run ih =>
    obtain ⟨hd, hrun⟩ := not_or.mp (mt List.mem_cons.mpr h)
    rw [List.cons_append, cut?, afterMark?, if_neg hd, ih hrun, Option.map_map]
    rfl

/-- A text without the mark is cut at the mark behind it. -/
theorem cut?_end {c d : Char} (hd : d ∉ c :: mark) (h : cut? (c :: mark) text = none) (rest : List Char) :
    cut? (c :: mark) (text ++ d :: (c :: mark ++ rest)) = some (text ++ [d], rest) := by
  refine (cut?_eq_some (List.cons_ne_nil _ _)).mpr ⟨by simp, ?_⟩
  intro k hk hp
  rw [List.drop_append_of_le_length (by
    rw [List.length_append, List.length_singleton] at hk
    omega)] at hp
  have hin : c :: mark <:+: text := (prefix_of_not_mem hd hp).isInfix.trans (List.drop_suffix k text).isInfix
  exact (cut?_eq_none (List.cons_ne_nil _ _)).mp h hin

end Text

/-- Without a `~` in front, no `~` at the end is taken from it. -/
theorem splitTilde_append {opener : List Char} (h : '~' ∉ opener) (value : List Char) :
    ∃ front, front <+: value ∧ (splitTilde (opener ++ value)).1 = opener ++ front := by
  rw [splitTilde, Text.beforeMark?_singleton]
  by_cases hlast : (Text.trimEnd (opener ++ value)).getLast? = some '~'
  · rw [if_pos hlast]
    obtain ⟨front, htrim⟩ := List.getLast?_eq_some_iff.mp hlast
    have hp : front ++ ['~'] <+: opener ++ value := htrim ▸ List.rdropWhile_prefix Text.isBlank _
    have hfront : opener <+: front := by
      have hwhole : front <+: opener ++ value := (List.prefix_append _ _).trans hp
      refine List.prefix_of_prefix_length_le (List.prefix_append _ value) hwhole ?_
      by_contra hshort
      have hin := List.prefix_of_prefix_length_le hp (List.prefix_append opener value) (by
        rw [List.length_append, List.length_singleton]
        omega)
      exact h (hin.mem (by simp))
    obtain ⟨rest, rfl⟩ := hfront
    refine ⟨rest, ?_, by rw [htrim, List.dropLast_concat]⟩
    rw [List.append_assoc] at hp
    exact (List.prefix_append _ _).trans ((List.prefix_append_right_inj _).mp hp)
  · rw [if_neg hlast]
    exact ⟨value, List.prefix_refl _, rfl⟩

/-! ## 2. Delimited values -/

/-- `}}` -/
def closingMark : List Char := ['\x7d', '\x7d']

theorem closingMark_ne : closingMark ≠ [] :=
  List.cons_ne_nil _ _

/-- How a tag without a sigil begins, up to a value: there is no sigil, and neither a brace that closes nor a
    `~`. -/
structure Bare (opener : List Char) : Prop where
  tilde : ∀ rest, frontTilde (opener ++ rest) = (false, opener ++ rest)
  sigil : ∀ rest, TagKind.ofSigil (opener ++ rest) = (.escaped, .double, opener ++ rest)
  closed : '\x7d' ∉ opener
  unmarked : '~' ∉ opener

/-- A tag without a sigil ends at the first closing braces. -/
theorem Bare.read? {opener inside rest : List Char} (h : Bare opener) {text : List Char}
    (hcut : Text.cut? closingMark (opener ++ text) = some (inside, rest)) : RawTag.read? (opener ++ text) =
      some (⟨.escaped, false, (splitTilde inside).2, (splitTilde inside).1⟩, rest) := by
  rw [RawTag.read?, h.tilde]
  dsimp only
  rw [h.sigil]
  dsimp only [Closing.cut?]
  rw [show Text.cut? ['\x7d', '\x7d'] (opener ++ text) = _ from hcut]
  rfl

/-- A source text that begins with a tag is read from this tag on. -/
theorem scan_front {text rest : List Char} {raw : RawTag} (h : RawTag.read? text = some (raw, rest)) :
    ∃ pieces, scan (String.ofList (openingMark ++ text)) =
      Segment.ofPieces false (.tag raw .start :: pieces) ∧ (rest = [] → pieces = []) := by
  have hliteral : literal (openingMark ++ text) = ([], openingMark ++ text) := rfl
  have hturn := @piecesFrom_turn .start (openingMark ++ text) text rest raw (by rw [hliteral]) h
  refine ⟨piecesFrom (Position.start.after
    ((openingMark ++ text).take ((openingMark ++ text).length - rest.length))) rest, ?_, ?_⟩
  · rw [scan, String.toList_ofList, pieces, hturn, hliteral]
    rfl
  · rintro rfl
    rw [piecesFrom_last rfl]
    rfl

/-- **A tag that ends with a delimited value is read, or it ends inside of the value.** -/
theorem scan_delimited {opener value : List Char} {close : Char} {tokens : List Token} {fault : Fault}
    (h : Bare opener) (hclose : close ≠ '\x7d' ∧ close ≠ '~' ∧ Text.isBlank close = false)
    (hread : Token.tokenize (opener ++ (value ++ [close])) = .ok tokens)
    (hopen : ∀ front, front <+: value → Token.tokenize (opener ++ front) = .error fault) :
    scan (String.ofList (openingMark ++ (opener ++ (value ++ close :: closingMark)))) =
      if closingMark <:+: value then .error ⟨fault, .start⟩ else .ok [.tag ⟨.escaped, tokens, .start⟩] := by
  have hpass (text : List Char) : Text.cut? closingMark (opener ++ text) =
      (Text.cut? closingMark text).map fun cut => (opener ++ cut.1, cut.2) := Text.cut?_run h.closed text
  split
  case isTrue hin =>
    cases hcut : Text.cut? closingMark value with
    | none => exact absurd hin ((Text.cut?_eq_none closingMark_ne).mp hcut)
    | some cut =>
      obtain ⟨front, after⟩ := cut
      have hwhole : Text.cut? closingMark (opener ++ (value ++ close :: closingMark)) =
          some (opener ++ front, after ++ close :: closingMark) := by
        rw [hpass, Text.cut?_behind closingMark_ne hcut]
        rfl
      obtain ⟨held, hheld, hsplit⟩ := splitTilde_append h.unmarked front
      obtain ⟨pieces, hscan, -⟩ := scan_front (h.read? hwhole)
      have hprefix : front <+: value := ⟨_, ((Text.append_of_cut? hcut).trans (List.append_assoc _ _ _)).symm⟩
      rw [hscan, Segment.ofPieces, Segment.readTag, hsplit, hopen held (hheld.trans hprefix)]
      rfl
  case isFalse hout =>
    have hcut := (Text.cut?_eq_none closingMark_ne).mpr hout
    have hwhole : Text.cut? closingMark (opener ++ (value ++ close :: closingMark)) =
        some (opener ++ (value ++ [close]), []) := by
      have hend := Text.cut?_end (by simpa using hclose.1) hcut []
      rw [List.append_nil] at hend
      rw [hpass]
      exact congrArg (Option.map _) hend
    have hsplit : splitTilde (opener ++ (value ++ [close])) = (opener ++ (value ++ [close]), false) := by
      rw [splitTilde, Text.beforeMark?_singleton, ← List.append_assoc, Text.trimEnd_concat hclose.2.2,
        List.getLast?_concat, if_neg (by simpa using hclose.2.1)]
    obtain ⟨pieces, hscan, hlast⟩ := scan_front (h.read? hwhole)
    rw [hscan, hlast rfl, Segment.ofPieces, Segment.readTag, hsplit, hread]
    rfl

/-! ## 3. Strings in quotes and names in brackets -/

namespace Token

/-- What cannot be read at the front of a text cannot be read. -/
theorem readAll_fault {joined : Bool} {c : Char} {text : List Char} {fault : Fault}
    (h : front joined c text = .error fault) : readAll joined (c :: text) = .error fault := by
  rw [readAll.eq_def]
  dsimp only
  rw [h]
  rfl

theorem splitString?_open {mark : Char} {text : List Char} (h : mark ∉ text) :
    splitString? mark text = none := by
  induction text with
  | nil => rw [splitString?]
  | cons c text ih =>
    obtain ⟨hc, htext⟩ := not_or.mp (mt List.mem_cons.mpr h)
    have hhead : text.head? ≠ some mark := fun e => htext (List.mem_of_head? e)
    rw [splitString?, if_neg (fun e => hhead e.2), if_neg (Ne.symm hc), ih htext]
    rfl

theorem splitBracket?_open {text : List Char} (h : ']' ∉ text) : splitBracket? text = none := by
  induction text with
  | nil => rfl
  | cons c text ih =>
    obtain ⟨hc, htext⟩ := not_or.mp (mt List.mem_cons.mpr h)
    rw [splitBracket?, if_neg (Ne.symm hc), ih htext]
    rfl

/-- A string that is not closed is not read. -/
theorem readAll_openString (joined : Bool) {text : List Char} (h : '"' ∉ text) :
    readAll joined ('"' :: text) = .error .unterminatedString := by
  refine readAll_fault ?_
  have hblank : Text.isBlank '"' = false := by decide
  unfold front
  simp only [hblank, Bool.false_eq_true, Char.reduceEq, true_or, reduceIte]
  split
  · rfl
  · rename_i e
    cases (splitString?_open h).symm.trans e

/-- A bracket that is not closed is not read. -/
theorem readAll_openBracket (joined : Bool) {text : List Char} (h : ']' ∉ text) :
    readAll joined ('[' :: text) = .error .unterminatedSegment := by
  refine readAll_fault ?_
  have hblank : Text.isBlank '[' = false := by decide
  unfold front
  simp only [hblank, Bool.false_eq_true, Char.reduceEq, or_self, reduceIte]
  split
  · rfl
  · rename_i e
    cases (splitBracket?_open h).symm.trans e

/-- The name `h` and a blank are read before what follows. -/
theorem readAll_h (text : List Char) :
    readAll false ('h' :: ' ' :: text) = (readAll false text).map (.id "h" :: ·) := by
  have hword : IsWord 'h' [] := by decide
  have hend : ∀ d ∈ (' ' :: text).head?, isIdChar d = false := by
    rintro _ ⟨⟩
    decide
  have hread := readAll_word hword hend false
  rw [show ofWord ['h'] (' ' :: text) = .id "h" from rfl, readAll_blank (by decide)] at hread
  exact hread

end Token

theorem bare_bracket : Bare ['['] :=
  ⟨fun _ => rfl, fun _ => rfl, by decide, by decide⟩

theorem bare_quote : Bare ['h', ' ', '"'] :=
  ⟨fun _ => rfl, fun _ => rfl, by decide, by decide⟩

/-- A string in quotes hides no closing braces. -/
theorem scan_string {value : String} (hquote : '"' ∉ value.toList) (hslash : '\\' ∉ value.toList) :
    scan ("\x7b\x7bh \"" ++ value ++ "\"\x7d\x7d") =
      if closingMark <:+: value.toList then .error ⟨.unterminatedString, .start⟩
      else .ok [.tag ⟨.escaped, [.id "h", .str value], .start⟩] := by
  have hsource : "\x7b\x7bh \"" ++ value ++ "\"\x7d\x7d" = String.ofList (openingMark ++
      (['h', ' ', '"'] ++ (value.toList ++ '"' :: closingMark))) := by
    apply String.toList_injective
    simp [openingMark, closingMark]
  rw [hsource]
  refine scan_delimited bare_quote (by decide) ?_ ?_
  · have hstring : Token.readAll false (quoted '"' value ++ []) = .ok [.str value] :=
      Token.readAll_string (.inl rfl) hquote hslash (Token.readAll_nil false)
    rw [List.append_nil] at hstring
    exact (Token.readAll_h _).trans (congrArg _ hstring)
  · intro front hfront
    have hopen := Token.readAll_openString false (fun hm => hquote (hfront.mem hm))
    exact (Token.readAll_h _).trans (congrArg _ hopen)

/-- So does a name in brackets. -/
theorem scan_bracketed {value : String} (hbracket : ']' ∉ value.toList) :
    scan ("\x7b\x7b[" ++ value ++ "]\x7d\x7d") =
      if closingMark <:+: value.toList then .error ⟨.unterminatedSegment, .start⟩
      else .ok [.tag ⟨.escaped, [.id value], .start⟩] := by
  have hsource : "\x7b\x7b[" ++ value ++ "]\x7d\x7d" = String.ofList (openingMark ++
      (['['] ++ (value.toList ++ ']' :: closingMark))) := by
    apply String.toList_injective
    simp [openingMark, closingMark]
  rw [hsource]
  refine scan_delimited bare_bracket (by decide) ?_ ?_
  · have hname : Token.readAll false (bracketed value ++ []) = .ok [.id value] :=
      Token.readAll_bracketed hbracket (Token.readAll_nil true)
    rw [List.append_nil] at hname
    exact hname
  · intro front hfront
    exact Token.readAll_openBracket false (fun hm => hbracket (hfront.mem hm))

/-- **Quotes and brackets hide no closing braces.** A mustache with a quoted string, which has neither the
    quote nor a backslash in it, is read with this string exactly if no `}}` stands in the string. If one does,
    the tag ends there, and the source text is not accepted. So it is for a name in brackets. -/
theorem scan_quoted (value : String) :
    ('"' ∉ value.toList → '\\' ∉ value.toList → scan ("\x7b\x7bh \"" ++ value ++ "\"\x7d\x7d") =
      if closingMark <:+: value.toList then .error ⟨.unterminatedString, .start⟩
      else .ok [.tag ⟨.escaped, [.id "h", .str value], .start⟩]) ∧
    (']' ∉ value.toList → scan ("\x7b\x7b[" ++ value ++ "]\x7d\x7d") =
      if closingMark <:+: value.toList then .error ⟨.unterminatedSegment, .start⟩
      else .ok [.tag ⟨.escaped, [.id value], .start⟩]) :=
  ⟨scan_string, scan_bracketed⟩

/-- One brace, a `~`, a sigil and a blank are hidden. -/
theorem scan_quoted_brace :
    scan ("\x7b\x7bh \"" ++ "\x7d ~#é" ++ "\"\x7d\x7d") =
        .ok [.tag ⟨.escaped, [.id "h", .str "\x7d ~#é"], .start⟩] ∧
      scan ("\x7b\x7b[" ++ "\x7d ~#é" ++ "]\x7d\x7d") =
        .ok [.tag ⟨.escaped, [.id "\x7d ~#é"], .start⟩] := by
  obtain ⟨hquotes, hbrackets⟩ := scan_quoted "\x7d ~#é"
  refine ⟨(hquotes (by decide) (by decide)).trans (if_neg (by decide)),
    (hbrackets (by decide)).trans (if_neg (by decide))⟩

/-- **Two braces in a string, or in a name in brackets, end the tag**, and what is left of it is not closed. -/
theorem scan_quoted_closed :
    scan ("\x7b\x7bh \"" ++ "\x7d\x7d" ++ "\"\x7d\x7d") = .error ⟨.unterminatedString, ⟨1, 1⟩⟩ ∧
      scan ("\x7b\x7b[" ++ "a\x7d\x7d" ++ "]\x7d\x7d") = .error ⟨.unterminatedSegment, ⟨1, 1⟩⟩ :=
  ⟨(scan_string (by decide) (by decide)).trans (if_pos (by decide)),
    (scan_bracketed (by decide)).trans (if_pos (by decide))⟩

end Stache
