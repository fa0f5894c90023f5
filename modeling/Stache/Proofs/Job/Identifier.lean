import Stache.Job.Emission
import Stache.Proofs.Text.Erased

/-!
# The identifiers of templates

An identifier is a path in three steps: without the hidden prefixes, with `/tpl/` written as `/`, and without
a separator in front. Each step is done once, from the left, and can make what an earlier one was to remove.

* `collapsed`, `replaceAll_segment` -- the second step, character by character;
* `prefix_collapsed`, `infix_collapsed` -- **a segment is left** if and only if two stood in a row;
* `stripped_eq_rest`, `stripped_of_leading` -- what the first step removes;
* `identifier_spelled` -- **how an identifier is spelled**.
-/

namespace Stache

open Text

/-! ## 1. Segments -/

/-- The segment that identifiers do not show. -/
def segment : List Char :=
  "/tpl/".toList

/-- Two of them, which share a separator. -/
def twoSegments : List Char :=
  "/tpl/tpl/".toList

/-- The text with a separator in place of each segment. -/
def collapsed : List Char → List Char
  | [] => []
  | '/' :: 't' :: 'p' :: 'l' :: '/' :: text => '/' :: collapsed text
  | c :: text => c :: collapsed text

section Collapsed

variable {c : Char} {text mark : List Char}

theorem collapsed_segment (rest : List Char) : collapsed (segment ++ rest) = '/' :: collapsed rest := rfl

/-- The text is done step by step. -/
theorem collapsed_induction {motive : List Char → Prop} (nil : motive [])
    (drop : ∀ rest, motive rest → motive (segment ++ rest))
    (keep : ∀ c rest, ¬ segment <+: c :: rest → collapsed (c :: rest) = c :: collapsed rest → motive rest →
      motive (c :: rest))
    (text : List Char) : motive text := by
  induction text using collapsed.induct with
  | case1 => exact nil
  | case2 text ih => exact drop text ih
  | case3 c text hsegment ih =>
    refine keep c text (fun h => ?_) ?_ ih
    · obtain ⟨more, he⟩ := h
      obtain ⟨hc, htext⟩ := List.cons.inj he
      exact hsegment more hc.symm htext.symm
    · rw [collapsed]
      exact hsegment

/-- `/` in place of each `/tpl/`, from the left. -/
theorem replaceAll_segment (text : List Char) : replaceAll segment ['/'] text = collapsed text := by
  unfold replaceAll
  induction text using collapsed_induction with
  | nil => rfl
  | drop rest ih =>
    rw [collapsed_segment, ← ih]
    rfl
  | keep c rest hno hstep ih =>
    rw [hstep, ← ih, replaceFrom, afterMark?_eq_none.mpr hno]

theorem head?_collapsed (text : List Char) : (collapsed text).head? = text.head? := by
  induction text using collapsed_induction with
  | nil => rfl
  | drop rest _ => rfl
  | keep c rest _ hstep _ =>
    rw [hstep]
    rfl

theorem singleton_prefix_iff : [c] <+: text ↔ text.head? = some c := by
  rw [List.cons_prefix_iff, List.head?_eq_some_iff]
  simp only [List.nil_prefix, and_true]

/-- Another character than a separator is where it was. -/
theorem cons_prefix_collapsed (hc : c ≠ '/') :
    c :: mark <+: collapsed text ↔ ∃ rest, text = c :: rest ∧ mark <+: collapsed rest := by
  induction text using collapsed_induction with
  | nil => exact iff_of_false (fun h => by simp [collapsed] at h) fun h => by obtain ⟨_, h, _⟩ := h; cases h
  | drop rest _ =>
    rw [collapsed_segment, List.cons_prefix_cons]
    refine iff_of_false (fun h => hc h.1) fun h => ?_
    obtain ⟨_, h, _⟩ := h
    exact hc (List.cons.inj h).1.symm
  | keep d rest _ hstep _ =>
    rw [hstep, List.cons_prefix_cons]
    constructor
    · intro h
      obtain ⟨rfl, h⟩ := h
      exact ⟨rest, rfl, h⟩
    · intro h
      obtain ⟨_, htext, h⟩ := h
      obtain ⟨rfl, rfl⟩ := List.cons.inj htext
      exact ⟨rfl, h⟩

theorem separator_prefix_collapsed : ['/'] <+: collapsed text ↔ ['/'] <+: text := by
  rw [singleton_prefix_iff, singleton_prefix_iff, head?_collapsed]

/-- What stands behind the first separator of a segment was there before. -/
theorem behind_prefix_collapsed : "tpl/".toList <+: collapsed text ↔ "tpl/".toList <+: text := by
  show ['t', 'p', 'l', '/'] <+: collapsed text ↔ ['t', 'p', 'l', '/'] <+: text
  rw [cons_prefix_collapsed (by decide), List.cons_prefix_iff]
  refine exists_congr fun behind => and_congr_right fun _ => ?_
  rw [cons_prefix_collapsed (by decide), List.cons_prefix_iff]
  refine exists_congr fun behind => and_congr_right fun _ => ?_
  rw [cons_prefix_collapsed (by decide), List.cons_prefix_iff]
  exact exists_congr fun behind => and_congr_right fun _ => separator_prefix_collapsed

/-- Two segments in a row begin with one. -/
theorem segment_prefix_of_two (h : twoSegments <+: text) : segment <+: text :=
  List.IsPrefix.trans ⟨"tpl/".toList, rfl⟩ h

/-- **A segment is left in front** if and only if two of them stood there. -/
theorem prefix_collapsed : segment <+: collapsed text ↔ twoSegments <+: text := by
  have hfront {rest : List Char} : segment <+: '/' :: rest ↔ "tpl/".toList <+: rest :=
    List.prefix_append_right_inj ['/']
  induction text using collapsed_induction with
  | nil => decide
  | drop rest _ =>
    rw [collapsed_segment, hfront, behind_prefix_collapsed]
    exact (List.prefix_append_right_inj segment).symm
  | keep c rest hno hstep _ =>
    refine iff_of_false (fun h => hno ?_) fun h => hno (segment_prefix_of_two h)
    rw [hstep] at h
    obtain rfl : '/' = c := (List.cons_prefix_cons.mp h).1
    exact hfront.mpr (behind_prefix_collapsed.mp (hfront.mp h))

/-- Two segments in a row begin with the one in front, or stand behind it. -/
theorem two_infix_segment {rest : List Char} :
    twoSegments <:+: segment ++ rest ↔ twoSegments <+: segment ++ rest ∨ twoSegments <:+: rest := by
  have hskip {c : Char} {text : List Char} (hc : c ≠ '/') : twoSegments <:+: c :: text ↔ twoSegments <:+: text := by
    rw [List.infix_cons_iff]
    exact or_iff_right fun h => hc (List.cons_prefix_cons.mp h).1.symm
  have hlast : twoSegments <:+: '/' :: rest ↔ twoSegments <+: '/' :: rest ∨ twoSegments <:+: rest :=
    List.infix_cons_iff
  have hwithin (h : twoSegments <+: '/' :: rest) : twoSegments <+: segment ++ rest := by
    have hbehind : "tpl/tpl/".toList <+: rest := (List.prefix_append_right_inj ['/']).mp h
    exact (List.prefix_append_right_inj segment).mpr (List.IsPrefix.trans ⟨"tpl/".toList, rfl⟩ hbehind)
  -- only at the separators of the segment can two of them begin
  show twoSegments <:+: '/' :: 't' :: 'p' :: 'l' :: '/' :: rest ↔ _
  rw [List.infix_cons_iff, hskip (by decide), hskip (by decide), hskip (by decide), hlast]
  constructor
  · intro h
    rcases h with h | h | h
    · exact .inl h
    · exact .inl (hwithin h)
    · exact .inr h
  · intro h
    rcases h with h | h
    · exact .inl h
    · exact .inr (.inr h)

/-- **A segment is left** if and only if two of them stood in a row. -/
theorem infix_collapsed : segment <:+: collapsed text ↔ twoSegments <:+: text := by
  induction text using collapsed_induction with
  | nil => decide
  | drop rest ih =>
    rw [two_infix_segment, ← ih, ← prefix_collapsed, collapsed_segment, List.infix_cons_iff]
  | keep c rest _ hstep ih =>
    rw [hstep, List.infix_cons_iff, List.infix_cons_iff, ← ih, ← prefix_collapsed, hstep]

/-- Two separators stand in front if they stood there, or the second of them behind a segment. -/
theorem separators_prefix_collapsed :
    ['/', '/'] <+: collapsed text ↔ ['/', '/'] <+: text ∨ "/tpl//".toList <+: text := by
  have hfront {text : List Char} : ['/', '/'] <+: '/' :: text ↔ ['/'] <+: text :=
    List.prefix_append_right_inj ['/']
  induction text using collapsed_induction with
  | nil => decide
  | drop rest _ =>
    rw [collapsed_segment, hfront, separator_prefix_collapsed]
    have hnone : ¬ ['/', '/'] <+: segment ++ rest := by
      intro h
      exact absurd (List.cons_prefix_cons.mp (List.cons_prefix_cons.mp h).2).1 (by decide)
    rw [or_iff_right hnone]
    exact (List.prefix_append_right_inj segment).symm
  | keep c rest hno hstep _ =>
    have hnone : ¬ "/tpl//".toList <+: c :: rest := fun h => hno (List.IsPrefix.trans ⟨['/'], rfl⟩ h)
    rw [hstep, or_iff_left hnone, List.cons_prefix_cons, List.cons_prefix_cons, separator_prefix_collapsed]

end Collapsed

/-! ## 2. The separator in front -/

/-- The text without a separator in front. -/
def withoutSeparator : List Char → List Char
  | '/' :: rest => rest
  | text => text

section Separator

variable {c : Char} {text : List Char}

theorem withoutSeparator_cons (h : c ≠ '/') : withoutSeparator (c :: text) = c :: text := by
  unfold withoutSeparator
  split
  · rename_i heq
    exact absurd (List.cons.inj heq).1 h
  · rfl

/-- A second separator comes to the front. -/
theorem head?_withoutSeparator : (withoutSeparator text).head? = some '/' ↔ ['/', '/'] <+: text := by
  cases text with
  | nil => decide
  | cons c text =>
    rw [List.cons_prefix_cons, singleton_prefix_iff]
    by_cases hc : c = '/'
    · subst hc
      exact (and_iff_right rfl).symm
    · rw [withoutSeparator_cons hc]
      exact iff_of_false (fun h => hc (Option.some.inj h)) fun h => hc h.1.symm

/-- What is left behind a segment in front. -/
def behindSegment (text : List Char) : List Char :=
  (afterMark? segment text).getD text

/-- **A segment is left** if and only if two of them stood in a row, behind the one in front. -/
theorem infix_withoutSeparator :
    segment <:+: withoutSeparator (collapsed text) ↔ twoSegments <:+: behindSegment text := by
  induction text using collapsed_induction with
  | nil => decide
  | drop rest _ =>
    rw [behindSegment, afterMark?_eq_some.mpr rfl]
    exact infix_collapsed
  | keep c rest hno hstep _ =>
    rw [behindSegment, afterMark?_eq_none.mpr hno, Option.getD_none, hstep]
    by_cases hc : c = '/'
    · subst hc
      rw [List.infix_cons_iff, or_iff_right fun h => hno (segment_prefix_of_two h)]
      exact infix_collapsed
    · rw [withoutSeparator_cons hc, ← hstep]
      exact infix_collapsed

end Separator

/-! ## 3. Identifiers -/

namespace Config

variable (config : Config) (path : Path)

/-- The path without the hidden prefixes. -/
def stripped : List Char :=
  eraseAll config.hiddenPrefixes path.storageForm.toList

theorem identifier_eq :
    (config.identifier path).toList = withoutSeparator (collapsed (config.stripped path)) := by
  rw [← replaceAll_segment]
  unfold identifier stripped segment
  dsimp only
  rw [String.toList_ofList]
  generalize replaceAll "/tpl/".toList ['/'] (eraseAll config.hiddenPrefixes path.storageForm.toList) = text
  rfl

theorem hiddenPrefixes_ne_nil : ∀ hidden ∈ config.hiddenPrefixes, hidden ≠ [] := by
  unfold hiddenPrefixes
  intro hidden h
  split at h
  · cases h
  · obtain ⟨directory, _, rfl⟩ := List.mem_map.mp h
    simp

/-- A hidden prefix is a leading run of whole components: what follows is nothing or begins with a separator. -/
def LeadingRun (hidden rest text : List Char) : Prop :=
  text = hidden ++ rest ∧ (rest = [] ∨ rest.head? = some '/')

instance (hidden rest text : List Char) : Decidable (LeadingRun hidden rest text) :=
  inferInstanceAs (Decidable (_ ∧ _))

variable {config path} {hidden rest : List Char}

/-- **The prefix in front is all that is removed** if and only if none stands in what follows. -/
theorem stripped_eq_rest (h : leadingMark? config.hiddenPrefixes path.storageForm.toList = some hidden)
    (hpath : path.storageForm.toList = hidden ++ rest) :
    config.stripped path = rest ↔ ∀ other ∈ config.hiddenPrefixes, ¬ other <:+: rest := by
  have hne := config.hiddenPrefixes_ne_nil hidden (leadingMark?_eq_some h).1
  rw [hpath] at h
  rw [stripped, hpath, eraseAll_mark hne h]
  exact eraseAll_eq_self config.hiddenPrefixes_ne_nil

/-- **Where the prefixes stand as leading runs only**, such a run is removed or nothing. -/
theorem stripped_of_leading (h : ∀ hidden ∈ config.hiddenPrefixes, ∀ before after,
      path.storageForm.toList = before ++ hidden ++ after →
        before = [] ∧ LeadingRun hidden after path.storageForm.toList) :
    config.stripped path = path.storageForm.toList ∨
      ∃ hidden ∈ config.hiddenPrefixes, LeadingRun hidden (config.stripped path) path.storageForm.toList := by
  cases hlead : leadingMark? config.hiddenPrefixes path.storageForm.toList with
  | none =>
    refine .inl ((eraseAll_eq_self config.hiddenPrefixes_ne_nil).mpr fun hidden hm hinfix => ?_)
    obtain ⟨before, after, hpath⟩ := hinfix
    exact leadingMark?_eq_none.mp hlead hidden hm ⟨after, (h hidden hm before after hpath.symm).2.1.symm⟩
  | some hidden =>
    obtain ⟨hm, rest, hpath⟩ := leadingMark?_eq_some hlead
    have hrest : config.stripped path = rest := by
      refine (stripped_eq_rest hlead hpath.symm).mpr fun other ho hinfix => ?_
      obtain ⟨before, after, rfl⟩ := hinfix
      have hbefore := (h other ho (hidden ++ before) after (by rw [← hpath]; simp)).1
      exact config.hiddenPrefixes_ne_nil hidden hm (List.append_eq_nil_iff.mp hbefore).1
    refine .inr ⟨hidden, hm, ?_⟩
    rw [hrest]
    exact (h hidden hm [] rest hpath.symm).2

/-- **How an identifier is spelled.** It is the path as it is if no hidden prefix stands anywhere in it; of a
    prefix in front no more than that is removed if none stands in what follows, whether or not it ends there
    with a component; where the prefixes stand as leading runs of whole components only, such a run is removed or
    nothing. A separator is left in front if there were two, the second one maybe behind a segment. And a segment
    is left if two of them stood in a row, behind the one in front. -/
theorem identifier_spelled (config : Config) (path : Path) :
    (config.stripped path = path.storageForm.toList ↔
      ∀ hidden ∈ config.hiddenPrefixes, ¬ hidden <:+: path.storageForm.toList) ∧
    (∀ hidden rest, leadingMark? config.hiddenPrefixes path.storageForm.toList = some hidden →
      path.storageForm.toList = hidden ++ rest →
        (config.stripped path = rest ↔ ∀ other ∈ config.hiddenPrefixes, ¬ other <:+: rest)) ∧
    ((∀ hidden ∈ config.hiddenPrefixes, ∀ before after, path.storageForm.toList = before ++ hidden ++ after →
        before = [] ∧ LeadingRun hidden after path.storageForm.toList) →
      config.stripped path = path.storageForm.toList ∨
        ∃ hidden ∈ config.hiddenPrefixes, LeadingRun hidden (config.stripped path) path.storageForm.toList) ∧
    ((config.identifier path).toList.head? = some '/' ↔
      ['/', '/'] <+: config.stripped path ∨ "/tpl//".toList <+: config.stripped path) ∧
    (segment <:+: (config.identifier path).toList ↔ twoSegments <:+: behindSegment (config.stripped path)) := by
  refine ⟨eraseAll_eq_self config.hiddenPrefixes_ne_nil, fun hidden rest h hpath => stripped_eq_rest h hpath,
    stripped_of_leading, ?_, ?_⟩
  · rw [identifier_eq, head?_withoutSeparator, separators_prefix_collapsed]
  · rw [identifier_eq, infix_withoutSeparator]

/-- The configuration with a root. -/
def rooted : Config :=
  { root := some "/app" }

/-- **A directory loses the beginning of its name**, and so does one in the middle of a path; the path of a server
    keeps a separator in front, and a segment is left of two. -/
theorem identifier_misspelled :
    (rooted.identifier ⟨"/app/node_modules_old/x.hbs"⟩ = "_old/x.hbs" ∧
      rooted.stripped ⟨"/app/node_modules_old/x.hbs"⟩ ≠ "/app/node_modules_old/x.hbs".toList ∧
      ¬ ∃ hidden ∈ rooted.hiddenPrefixes, LeadingRun hidden (rooted.stripped ⟨"/app/node_modules_old/x.hbs"⟩)
        "/app/node_modules_old/x.hbs".toList) ∧
    rooted.identifier ⟨"/x/app/node_modules/y.hbs"⟩ = "x/y.hbs" ∧
    rooted.identifier ⟨"//server/x.hbs"⟩ = "/server/x.hbs" ∧
    rooted.identifier ⟨"/a/tpl/tpl/b.hbs"⟩ = "a/tpl/b.hbs" := by
  decide +kernel

end Config

end Stache
