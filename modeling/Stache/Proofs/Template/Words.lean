import Stache.Proofs.Text.Runs
import Stache.Template.Token.Reading

/-!
# Words in tags

The inside of a tag is read word by word: a bare word is one token, and a blank is none.

* `IsWord` -- a bare word that does not begin like a number;
* `readAll_word`, `readAll_blank` -- what is read at the front of a text;
* `tokenize_word`, `tokenize_words` -- a tag with one word in it, and with two.
-/

namespace Stache.Token

/-- A bare word that does not begin like a number: a character that no number begins with, and more
    characters of bare names. -/
structure IsWord (c : Char) (word : List Char) : Prop where
  first : isIdChar c = true
  unsigned : c ≠ '-'
  undigit : c.isDigit = false
  others : ∀ d ∈ word, isIdChar d = true

instance (c : Char) (word : List Char) : Decidable (IsWord c word) :=
  decidable_of_iff (isIdChar c = true ∧ c ≠ '-' ∧ c.isDigit = false ∧ word.all isIdChar = true)
    ⟨fun ⟨h₁, h₂, h₃, h₄⟩ => ⟨h₁, h₂, h₃, List.all_eq_true.mp h₄⟩,
      fun ⟨h₁, h₂, h₃, h₄⟩ => ⟨h₁, h₂, h₃, List.all_eq_true.mpr h₄⟩⟩

theorem isIdChar_eq_true {c : Char} : isIdChar c = true ↔ Text.isBlank c = false ∧ c ∉ reserved := by
  rw [isIdChar, Bool.and_eq_true, Bool.not_eq_true', Bool.not_eq_true', List.contains_eq_mem,
    decide_eq_false_iff_not]

/-- Where a bare word stands, it is read. -/
theorem front_word {c : Char} {word : List Char} (h : IsWord c word) (joined : Bool)
    (text : List Char) : front joined c text = .ok (wordFront c text) := by
  obtain ⟨hblank, hreserved⟩ := isIdChar_eq_true.mp h.first
  have hne (mark : Char) (hm : mark ∈ reserved) : c ≠ mark := fun e => hreserved (e ▸ hm)
  unfold front
  rw [hblank, h.undigit, h.first]
  simp [hne '(' (by decide), hne ')' (by decide), hne '=' (by decide), hne '|' (by decide),
    hne '@' (by decide), hne '/' (by decide), hne '.' (by decide), hne '"' (by decide),
    hne '\'' (by decide), hne '[' (by decide), h.unsigned]

theorem readAll_nil (joined : Bool) : readAll joined [] = .ok [] := by
  rw [readAll.eq_def]

/-- What stands at the front is read first. -/
theorem readAll_of_front {joined : Bool} {c : Char} {text : List Char} {f : Front (c :: text)}
    (h : front joined c text = .ok f) :
    readAll joined (c :: text) = (readAll (joins f.token) f.rest).map (f.token.toList ++ ·) := by
  rw [readAll.eq_def]
  dsimp only
  rw [h]
  show (readAll (joins f.token) f.rest >>= fun tokens => Except.ok (f.token.toList ++ tokens)) = _
  cases readAll (joins f.token) f.rest <;> rfl

/-- **A word is read to its end.** -/
theorem readAll_word {c : Char} {word rest : List Char} (h : IsWord c word)
    (hend : ∀ d ∈ rest.head?, isIdChar d = false) (joined : Bool) :
    readAll joined (c :: word ++ rest) =
      (readAll (joins (some (ofWord (c :: word) rest))) rest).map (ofWord (c :: word) rest :: ·) := by
  obtain ⟨htake, hdrop⟩ := Text.takeWhile_run h.others hend
  rw [List.cons_append, readAll_of_front (front_word h joined (word ++ rest))]
  simp only [wordFront, htake, hdrop, Option.toList_some, List.cons_append, List.nil_append]

/-- A blank is skipped. -/
theorem readAll_blank {c : Char} (h : Text.isBlank c = true) (joined : Bool) (text : List Char) :
    readAll joined (c :: text) = readAll false text := by
  have hfront : front joined c text = .ok ⟨none, text, by simp⟩ := by
    unfold front
    rw [if_pos h]
  rw [readAll_of_front hfront]
  show (readAll false text).map (fun tokens => tokens) = _
  cases readAll false text <;> rfl

/-- One word. -/
theorem tokenize_word {c : Char} {word : List Char} (h : IsWord c word) :
    tokenize (c :: word) = .ok [ofWord (c :: word) []] := by
  have hend : ∀ d ∈ ([] : List Char).head?, isIdChar d = false := nofun
  have hread := readAll_word h hend false
  rw [List.append_nil] at hread
  rw [tokenize, hread, readAll_nil]
  rfl

/-- Two words. -/
theorem tokenize_words {c d : Char} {word other : List Char} (h : IsWord c word)
    (h' : IsWord d other) :
    tokenize (c :: word ++ ' ' :: d :: other) =
      .ok [ofWord (c :: word) (' ' :: d :: other), ofWord (d :: other) []] := by
  have hend : ∀ e ∈ (' ' :: d :: other).head?, isIdChar e = false := by
    rintro _ ⟨⟩
    decide
  have hread := tokenize_word h'
  rw [tokenize] at hread
  rw [tokenize, readAll_word h hend, readAll_blank (by decide), hread]
  rfl

end Stache.Token
