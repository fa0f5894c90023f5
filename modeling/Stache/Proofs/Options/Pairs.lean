import Stache.Proofs.Json.Fields
import Stache.Proofs.Options.Escapes
import Stache.Proofs.Outcome
import Stache.Proofs.Text.Marks

/-!
# What the pairs of a query do

A query is cut into pairs before anything is decoded, and each pair is about one name. So every name has what
the pairs about it make of it, one after the other, whatever stands between them.

* `Means` -- what a pair means, with its key and its value decoded;
* `readPair_eq_ok`, `readPair_fails` -- the reader of pairs reads what they mean;
* `entryOf`, `get?_foldl_applySetting` -- what the pairs about a name make of it;
* `shielded`, `decode_shielded` -- separators that are written as escapes stand for themselves;
* `parse_pairs` -- **the object of a query**.
-/

namespace Stache.Query

/-! ## 1. One pair -/

/-- What a pair means: the name that it is about, and what it does to it. -/
inductive Means : List Char → String → Setting → Prop
  /-- A key alone sets true. -/
  | flag {pair : List Char} {name : String} : '=' ∉ pair → decode (String.ofList pair) = .ok name →
    name.toList.head? ≠ some '+' → name.toList.head? ≠ some '-' → Means pair name (.put (.bool true))
  /-- Behind a plus sign, too. -/
  | plus {pair : List Char} {name : String} : '=' ∉ pair → decode (String.ofList pair) = .ok ("+" ++ name) →
    Means pair name (.put (.bool true))
  /-- Behind a minus sign it sets false. -/
  | minus {pair : List Char} {name : String} : '=' ∉ pair → decode (String.ofList pair) = .ok ("-" ++ name) →
    Means pair name (.put (.bool false))
  /-- A key with a value sets it. -/
  | value {key value : List Char} {name text : String} : '=' ∉ key → decode (String.ofList key) = .ok name →
    (∀ other, name ≠ other ++ "[]") → decode (String.ofList value) = .ok text →
    Means (key ++ '=' :: value) name (.put (valueOf text))
  /-- A key that ends with brackets appends it to the list of the name before them. -/
  | item {key value : List Char} {name text : String} : '=' ∉ key →
    decode (String.ofList key) = .ok (name ++ "[]") → decode (String.ofList value) = .ok text →
    Means (key ++ '=' :: value) name (.append (valueOf text))

section Pair

variable {pair key value : List Char} {name text : String} {setting : Setting}

theorem eq_append_of_toList {whole : String} {front back : List Char} (h : whole.toList = front ++ back) :
    whole = String.ofList front ++ String.ofList back := by
  rw [← String.toList_inj, h, String.toList_append, String.toList_ofList, String.toList_ofList]

theorem flagSetting_plus : flagSetting ("+" ++ name) = (name, .put (.bool true)) := by
  rw [flagSetting, String.toList_append]
  exact Prod.ext String.ofList_toList rfl

theorem flagSetting_minus : flagSetting ("-" ++ name) = (name, .put (.bool false)) := by
  rw [flagSetting, String.toList_append]
  exact Prod.ext String.ofList_toList rfl

theorem flagSetting_unsigned (hplus : name.toList.head? ≠ some '+') (hminus : name.toList.head? ≠ some '-') :
    flagSetting name = (name, .put (.bool true)) := by
  unfold flagSetting
  split
  · rename_i h
    exact absurd (congrArg List.head? h) hminus
  · rename_i h
    exact absurd (congrArg List.head? h) hplus
  · rfl

theorem valueSetting_item : valueSetting (name ++ "[]") text = (name, .append (valueOf text)) := by
  rw [valueSetting, Text.beforeMark?_eq_some.mpr String.toList_append]
  exact Prod.ext String.ofList_toList rfl

theorem valueSetting_value (h : ∀ other, name ≠ other ++ "[]") :
    valueSetting name text = (name, .put (valueOf text)) := by
  unfold valueSetting
  split
  · rename_i front hfront
    exact absurd (eq_append_of_toList (Text.beforeMark?_eq_some.mp hfront)) (h _)
  · rfl

theorem means_flagSetting (hp : '=' ∉ pair) (h : decode (String.ofList pair) = .ok name) :
    Means pair (flagSetting name).1 (flagSetting name).2 := by
  unfold flagSetting
  split
  · rename_i rest hminus
    exact .minus hp (h.trans (congrArg _ (@eq_append_of_toList _ ['-'] _ hminus)))
  · rename_i rest hplus
    exact .plus hp (h.trans (congrArg _ (@eq_append_of_toList _ ['+'] _ hplus)))
  · rename_i hminus hplus
    refine .flag hp h (fun e => ?_) fun e => ?_
    · obtain ⟨rest, e⟩ := List.head?_eq_some_iff.mp e
      exact hplus rest e
    · obtain ⟨rest, e⟩ := List.head?_eq_some_iff.mp e
      exact hminus rest e

theorem means_valueSetting (hk : '=' ∉ key) (hname : decode (String.ofList key) = .ok name)
    (htext : decode (String.ofList value) = .ok text) :
    Means (key ++ '=' :: value) (valueSetting name text).1 (valueSetting name text).2 := by
  unfold valueSetting
  split
  · rename_i front hfront
    have hwhole := eq_append_of_toList (Text.beforeMark?_eq_some.mp hfront)
    exact .item hk (hname.trans (congrArg _ hwhole)) htext
  · rename_i hnone
    refine .value hk hname (fun other e => ?_) htext
    have hsome : Text.beforeMark? "[]".toList name.toList = some other.toList :=
      Text.beforeMark?_eq_some.mpr ((congrArg String.toList e).trans String.toList_append)
    cases hnone.symm.trans hsome

/-- **The reader of pairs reads what they mean.** -/
theorem readPair_eq_ok : readPair pair = .ok (name, setting) ↔ Means pair name setting := by
  constructor
  · intro h
    unfold readPair at h
    split at h
    · rename_i hcut
      obtain ⟨whole, hwhole, h⟩ := bind_eq_ok.mp h
      have hmeans := means_flagSetting (Text.cut?_char_eq_none.mp hcut) hwhole
      rwa [Except.ok.inj h] at hmeans
    · rename_i key value hcut
      obtain ⟨rfl, hk⟩ := Text.cut?_char.mp hcut
      obtain ⟨whole, hwhole, h⟩ := bind_eq_ok.mp h
      obtain ⟨text, htext, h⟩ := bind_eq_ok.mp h
      have hmeans := means_valueSetting hk hwhole htext
      rwa [Except.ok.inj h] at hmeans
  · intro h
    have halone {pair : List Char} {whole : String} (hp : '=' ∉ pair)
        (hwhole : decode (String.ofList pair) = .ok whole) : readPair pair = .ok (flagSetting whole) := by
      rw [readPair, Text.cut?_char_eq_none.mpr hp]
      exact bind_eq_ok.mpr ⟨whole, hwhole, rfl⟩
    have hboth {key value : List Char} {whole text : String} (hk : '=' ∉ key)
        (hwhole : decode (String.ofList key) = .ok whole) (htext : decode (String.ofList value) = .ok text) :
        readPair (key ++ '=' :: value) = .ok (valueSetting whole text) := by
      rw [readPair, Text.cut?_char.mpr ⟨rfl, hk⟩]
      exact bind_eq_ok.mpr ⟨whole, hwhole, bind_eq_ok.mpr ⟨text, htext, rfl⟩⟩
    cases h with
    | flag hp hname hplus hminus => rw [halone hp hname, flagSetting_unsigned hplus hminus]
    | plus hp hname => rw [halone hp hname, flagSetting_plus]
    | minus hp hname => rw [halone hp hname, flagSetting_minus]
    | value hk hname hno htext => rw [hboth hk hname htext, valueSetting_value hno]
    | item hk hname htext => rw [hboth hk hname htext, valueSetting_item]

/-- The parts of a pair that are decoded: its key, and its value if it has one. -/
inductive IsPart : (pair part : List Char) → Prop
  /-- A pair without an equals sign is its key. -/
  | alone {pair : List Char} : '=' ∉ pair → IsPart pair pair
  /-- The key stands before the first equals sign. -/
  | key {key value : List Char} : '=' ∉ key → IsPart (key ++ '=' :: value) key
  /-- The value stands behind it. -/
  | value {key value : List Char} : '=' ∉ key → IsPart (key ++ '=' :: value) value

/-- The pair has a key or a value that is not decoded to any text. -/
def Undecodable (pair : List Char) : Prop :=
  ∃ part, IsPart pair part ∧ ∀ text, decode (String.ofList part) ≠ .ok text

/-- **A pair is refused** if and only if its key or its value is not decoded. -/
theorem readPair_fails : (∃ fault, readPair pair = .error fault) ↔ Undecodable pair := by
  rw [fails_iff]
  constructor
  · intro h
    by_contra hno
    have hdecoded {part : List Char} (hp : IsPart pair part) : ∃ text, decode (String.ofList part) = .ok text := by
      by_contra hnone
      exact hno ⟨part, hp, fun text e => hnone ⟨text, e⟩⟩
    refine h ?_
    cases hcut : Text.cut? ['='] pair with
    | none =>
      have hp := Text.cut?_char_eq_none.mp hcut
      obtain ⟨whole, hwhole⟩ := hdecoded (.alone hp)
      exact ⟨_, readPair_eq_ok.mpr (means_flagSetting hp hwhole)⟩
    | some halves =>
      obtain ⟨rfl, hk⟩ := Text.cut?_char.mp hcut
      obtain ⟨whole, hwhole⟩ := hdecoded (.key hk)
      obtain ⟨text, htext⟩ := hdecoded (.value hk)
      exact ⟨_, readPair_eq_ok.mpr (means_valueSetting hk hwhole htext)⟩
  · intro h hread
    obtain ⟨part, hp, hnone⟩ := h
    obtain ⟨named, hread⟩ := hread
    unfold readPair at hread
    cases hp with
    | alone hp =>
      rw [Text.cut?_char_eq_none.mpr hp] at hread
      obtain ⟨whole, hwhole, _⟩ := bind_eq_ok.mp hread
      exact hnone whole hwhole
    | key hk =>
      rw [Text.cut?_char.mpr ⟨rfl, hk⟩] at hread
      obtain ⟨whole, hwhole, _⟩ := bind_eq_ok.mp hread
      exact hnone whole hwhole
    | value hk =>
      rw [Text.cut?_char.mpr ⟨rfl, hk⟩] at hread
      obtain ⟨whole, _, hread⟩ := bind_eq_ok.mp hread
      obtain ⟨text, htext, _⟩ := bind_eq_ok.mp hread
      exact hnone text htext

/-- The name that a pair is about, if it can be read. -/
def target? (pair : List Char) : Option String :=
  (readPair pair).toOption.map Prod.fst

end Pair

/-! ## 2. The entry of a name -/

/-- What the settings of a name make of it, one after the other. -/
def entryOf (settings : List (String × Setting)) (name : String) : Option Json :=
  (settings.filter (·.1 = name)).foldl (fun held named => some (named.2.apply held)) none

section Entries

variable {settings : List (String × Setting)} {fields : Json.Fields} {name : String}

theorem sorted_foldl_applySetting (h : fields.Sorted) : (settings.foldl applySetting fields).Sorted := by
  induction settings generalizing fields with
  | nil => exact h
  | cons named settings ih => exact ih (Json.Fields.sorted_put h)

theorem get?_foldl_applySetting : (settings.foldl applySetting fields).get? name =
    (settings.filter (·.1 = name)).foldl (fun held named => some (named.2.apply held)) (fields.get? name) := by
  induction settings generalizing fields with
  | nil => rfl
  | cons named settings ih =>
    rw [List.foldl_cons, ih, applySetting, Json.Fields.get?_put]
    -- the settings of other names leave the entry as it is
    by_cases hname : named.1 = name
    · rw [if_pos hname.symm, List.filter_cons, if_pos (decide_eq_true hname), List.foldl_cons, hname]
    · rw [if_neg fun e => hname e.symm, List.filter_cons, if_neg (by simpa using hname)]

end Entries

/-! ## 3. The pairs of a query -/

/-- A pair ends at an ampersand or at a comma. -/
def IsSeparator (c : Char) : Prop :=
  c = '&' ∨ c = ','

instance (c : Char) : Decidable (IsSeparator c) :=
  inferInstanceAs (Decidable (_ ∨ _))

section Splitting

variable {c : Char} {front back pair : List Char}

theorem splitPairs_append (hc : IsSeparator c) :
    splitPairs (front ++ c :: back) = splitPairs front ++ splitPairs back := by
  have hsep : (c == '&' || c == ',') = true := by
    rcases hc with rfl | rfl
    · rfl
    · rfl
  unfold splitPairs
  rw [List.splitOnP_append_cons (p := fun c => c == '&' || c == ',') front back hsep, List.filter_append]

theorem splitPairs_single (hne : pair ≠ []) (hp : ∀ c ∈ pair, ¬ IsSeparator c) : splitPairs pair = [pair] := by
  have hnone : ∀ c ∈ pair, (c == '&' || c == ',') = false := by
    intro c hc
    exact Bool.eq_false_iff.mpr fun h => hp c hc ((Bool.or_eq_true_iff.mp h).imp eq_of_beq eq_of_beq)
  rw [splitPairs, List.splitOnP_eq_singleton hnone, List.filter_cons, if_pos (decide_eq_true hne)]
  rfl

/-- The text stands in the body, at separators or at the ends of it. -/
structure StandsBetween (front text back body : List Char) : Prop where
  whole : body = front ++ text ++ back
  opens : front = [] ∨ ∃ before c, front = before ++ [c] ∧ IsSeparator c
  closes : back = [] ∨ ∃ c after, back = c :: after ∧ IsSeparator c

/-- A text between separators is a pair. -/
theorem splitPairs_between {body : List Char} (hne : pair ≠ []) (hp : ∀ c ∈ pair, ¬ IsSeparator c)
    (h : StandsBetween front pair back body) : splitPairs body = splitPairs front ++ pair :: splitPairs back := by
  obtain ⟨rfl, hfront, hback⟩ := h
  have hempty : splitPairs [] = [] := rfl
  have hright : splitPairs (pair ++ back) = pair :: splitPairs back := by
    rcases hback with rfl | ⟨c, after, rfl, hc⟩
    · rw [List.append_nil, splitPairs_single hne hp, hempty]
    · have hrest : splitPairs (c :: after) = splitPairs after := @splitPairs_append c [] after hc
      rw [splitPairs_append hc, splitPairs_single hne hp, hrest]
      rfl
  rcases hfront with rfl | ⟨before, c, rfl, hc⟩
  · rw [List.nil_append, hright, hempty]
    rfl
  · rw [splitPairs_append hc, hempty, List.append_nil, List.append_assoc, List.append_assoc, List.singleton_append,
      splitPairs_append hc, hright]

end Splitting

/-! ## 4. Marks written as escapes -/

/-- The characters that cut a query or a pair. -/
def Cuts (c : Char) : Prop :=
  IsSeparator c ∨ c = '='

instance (c : Char) : Decidable (Cuts c) :=
  inferInstanceAs (Decidable (_ ∨ _))

/-- A character that cuts is written as its escape. -/
def shieldedChar (c : Char) : List Char :=
  if c = '&' then "%26".toList else if c = ',' then "%2C".toList else if c = '=' then "%3D".toList else [c]

/-- The spelling with escapes for the characters that cut. -/
def shielded (spelling : List Char) : List Char :=
  spelling.flatMap shieldedChar

section Shielded

variable {c high low : Char} {byte : UInt8} {spelling text : List Char} {bytes : List UInt8} {value : Nat}

theorem not_cuts_digitChar : ∀ value < 16, ¬ Cuts value.digitChar ∧ ¬ Cuts value.digitChar.toUpper := by
  decide

theorem IsHexDigit.not_cuts (h : IsHexDigit c value) : ¬ Cuts c := by
  obtain ⟨hlt, rfl | rfl⟩ := h
  · exact (not_cuts_digitChar value hlt).1
  · exact (not_cuts_digitChar value hlt).2

theorem Accepted.not_cuts (h : Accepted high low byte) : ¬ Cuts high ∧ ¬ Cuts low := by
  rcases h with ⟨_, _, hhigh, hlow, _⟩ | ⟨rfl, _, hlow, _⟩
  · exact ⟨hhigh.not_cuts, hlow.not_cuts⟩
  · exact ⟨by decide, hlow.not_cuts⟩

theorem shieldedChar_of_not_cuts (h : ¬ Cuts c) : shieldedChar c = [c] := by
  obtain ⟨hsep, hequals⟩ := not_or.mp h
  obtain ⟨hand, hcomma⟩ := not_or.mp hsep
  rw [shieldedChar, if_neg hand, if_neg hcomma, if_neg hequals]

/-- A character that cuts is one byte, and is written with two digits for it. -/
theorem shieldedChar_of_cuts (h : Cuts c) : ∃ high low byte, shieldedChar c = ['%', high, low] ∧
    String.utf8EncodeChar c = [byte] ∧ HexPair high low byte := by
  have hpair (h l : Nat) (hh : h < 16) (hl : l < 16) :
      HexPair h.digitChar.toUpper l.digitChar.toUpper (UInt8.ofNat (16 * h + l)) :=
    ⟨h, l, ⟨hh, .inr rfl⟩, ⟨hl, .inr rfl⟩, rfl⟩
  rcases h with (rfl | rfl) | rfl
  · exact ⟨_, _, _, rfl, rfl, hpair 2 6 (by decide) (by decide)⟩
  · exact ⟨_, _, _, rfl, rfl, hpair 2 12 (by decide) (by decide)⟩
  · exact ⟨_, _, _, rfl, rfl, hpair 3 13 (by decide) (by decide)⟩

/-- Nothing cuts in what is shielded. -/
theorem not_cuts_of_mem_shielded (h : c ∈ shielded spelling) : ¬ Cuts c := by
  obtain ⟨d, _, hc⟩ := List.mem_flatMap.mp h
  by_cases hd : Cuts d
  · obtain ⟨high, low, byte, hshielded, _, hpair⟩ := shieldedChar_of_cuts hd
    obtain ⟨hhigh, hlow⟩ := Accepted.not_cuts (.inl hpair)
    rw [hshielded] at hc
    simp only [List.mem_cons, List.not_mem_nil, or_false] at hc
    rcases hc with rfl | rfl | rfl
    · decide
    · exact hhigh
    · exact hlow
  · rw [shieldedChar_of_not_cuts hd] at hc
    exact List.mem_singleton.mp hc ▸ hd

theorem shielded_cons (h : ¬ Cuts c) : shielded (c :: text) = c :: shielded text := by
  rw [shielded, List.flatMap_cons, shieldedChar_of_not_cuts h]
  rfl

/-- A shielded spelling stands for the same bytes. -/
theorem unescaped_shielded (h : Unescaped Accepted spelling bytes) :
    Unescaped Accepted (shielded spelling) bytes := by
  induction h with
  | nil => exact .nil
  | escaped hescape _ ih =>
    obtain ⟨hhigh, hlow⟩ := hescape.not_cuts
    rw [shielded_cons (by decide), shielded_cons hhigh, shielded_cons hlow]
    exact .escaped hescape ih
  | space _ ih =>
    rw [shielded_cons (by decide)]
    exact .space ih
  | @plain c text bytes hpercent hplus _ ih =>
    by_cases hc : Cuts c
    · obtain ⟨high, low, byte, hshielded, hbyte, hpair⟩ := shieldedChar_of_cuts hc
      rw [shielded, List.flatMap_cons, hshielded, hbyte]
      exact .escaped (.inl hpair) ih
    · rw [shielded_cons hc]
      exact .plain hpercent hplus ih

theorem shielded_ne_nil (h : spelling ≠ []) : shielded spelling ≠ [] := by
  obtain ⟨c, text, rfl⟩ := List.exists_cons_of_ne_nil h
  by_cases hc : Cuts c
  · obtain ⟨high, low, byte, hshielded, _⟩ := shieldedChar_of_cuts hc
    rw [shielded, List.flatMap_cons, hshielded]
    exact List.cons_ne_nil _ _
  · rw [shielded_cons hc]
    exact List.cons_ne_nil _ _

theorem head?_shielded (h : spelling.head? ≠ some '+') : (shielded spelling).head? ≠ some '+' := by
  cases spelling with
  | nil => exact h
  | cons c text =>
    by_cases hc : Cuts c
    · obtain ⟨high, low, byte, hshielded, _⟩ := shieldedChar_of_cuts hc
      rw [shielded, List.flatMap_cons, hshielded]
      exact fun e => absurd (Option.some.inj e) (by decide)
    · rwa [shielded_cons hc]

/-- **A shielded spelling is decoded to the same text.** -/
theorem decode_shielded {text : String} (h : decode (String.ofList spelling) = .ok text) :
    decode (String.ofList (shielded spelling)) = .ok text := by
  rw [decode_eq_ok, String.toList_ofList] at *
  generalize text.toList = shown at *
  cases h with
  | signed h =>
    rw [shielded_cons (by decide)]
    exact .signed (unescaped_shielded h)
  | unsigned hplus h => exact .unsigned (head?_shielded hplus) (unescaped_shielded h)

end Shielded

/-! ## 5. Queries -/

/-- The query consists of pairs: it is not written as a JSON object. -/
def HasPairs (query : String) : Prop :=
  (bodyOf query).head? ≠ some '\x7b'

/-- The pairs of the query, still encoded. -/
def pairsOf (query : String) : List (List Char) :=
  splitPairs (bodyOf query)

/-- The same pairs in another order, but those about one name in the same one. -/
structure Reordered (pairs other : List (List Char)) : Prop where
  perm : other.Perm pairs
  order : ∀ name, other.filter (target? · = some name) = pairs.filter (target? · = some name)

section Objects

variable {query other : String} {body : List Char} {pairs others : List (List Char)} {fields : Json.Fields}
  {settings : List (String × Setting)} {name : String}

theorem parse_of_hasPairs (h : HasPairs query) : parse query = ofPairs (bodyOf query) := by
  unfold parse
  split
  · rename_i heq
    exact absurd (congrArg List.head? heq) h
  · rfl

theorem ofPairs_eq_ok : ofPairs body = .ok fields ↔
    ∃ settings, (splitPairs body).mapM readPair = .ok settings ∧ settings.foldl applySetting [] = fields := by
  rw [ofPairs, bind_eq_ok]
  simp only [pure, Except.pure, Except.ok.injEq]

/-- **There is no object** if and only if a pair has a part that is not decoded. -/
theorem ofPairs_fails :
    (∃ fault, ofPairs body = .error fault) ↔ ∃ pair ∈ splitPairs body, Undecodable pair := by
  have hok : (∃ fields, ofPairs body = .ok fields) ↔
      ∀ pair ∈ splitPairs body, ∃ named, readPair pair = .ok named := by
    rw [← exists_mapM_eq_ok]
    simp [ofPairs_eq_ok]
  rw [fails_iff, hok]
  simp only [← readPair_fails, fails_iff]
  simp

/-- The settings of a name are those of the pairs about it. -/
theorem filter_settings (h : List.Forall₂ (fun pair named => readPair pair = .ok named) pairs settings) :
    settings.filter (·.1 = name) =
      (pairs.filter (target? · = some name)).filterMap fun pair => (readPair pair).toOption := by
  induction h with
  | nil => rfl
  | @cons pair named pairs settings hread _ ih =>
    have htarget : target? pair = some named.1 := by rw [target?, hread]; rfl
    rw [List.filter_cons, List.filter_cons, ih, htarget]
    by_cases hname : named.1 = name
    · rw [if_pos (decide_eq_true hname), if_pos (decide_eq_true (congrArg some hname)), List.filterMap_cons, hread]
      rfl
    · rw [if_neg (by simpa using hname), if_neg (by simpa using hname)]

/-- **The object does not depend on the order** of pairs about different names. -/
theorem ofPairs_reordered {other : List Char} (h : Reordered (splitPairs body) (splitPairs other))
    (hok : ofPairs body = .ok fields) : ofPairs other = .ok fields := by
  obtain ⟨settings, hread, rfl⟩ := ofPairs_eq_ok.mp hok
  obtain ⟨others, hothers⟩ : ∃ others, (splitPairs other).mapM readPair = .ok others :=
    exists_mapM_eq_ok.mpr fun pair hp => exists_mapM_eq_ok.mp ⟨settings, hread⟩ pair (h.perm.mem_iff.mp hp)
  refine ofPairs_eq_ok.mpr ⟨others, hothers, ?_⟩
  -- both objects are in order, so it is enough that they have the same entries
  refine Json.Fields.ext_get? (sorted_foldl_applySetting .nil) (sorted_foldl_applySetting .nil) fun name => ?_
  rw [get?_foldl_applySetting, get?_foldl_applySetting, filter_settings (mapM_eq_ok.mp hothers),
    filter_settings (mapM_eq_ok.mp hread), h.order name]

/-- **The object of a query that consists of pairs.** There is none if and only if the key or the value of a pair
    is not decoded. Else every name has what the pairs that mean to set it make of it, one after the other, and
    the object is the same for every order of the pairs that keeps those about one name in theirs. An escape
    never cuts: a key and a value with escapes for all the characters that would are one pair, and
    are read as they are decoded; so is such a key alone. -/
theorem parse_pairs (query : String) (h : HasPairs query) :
    ((∃ fault, parse query = .error fault) ↔ ∃ pair ∈ pairsOf query, Undecodable pair) ∧
    (∀ fields, parse query = .ok fields →
      (∃ settings, List.Forall₂ (fun pair named => Means pair named.1 named.2) (pairsOf query) settings ∧
        ∀ name, fields.get? name = entryOf settings name) ∧
      ∀ other, HasPairs other → Reordered (pairsOf query) (pairsOf other) → parse other = .ok fields) ∧
    (∀ key name front back, decode (String.ofList key) = .ok name → key ≠ [] →
      StandsBetween front (shielded key) back (bodyOf query) →
        pairsOf query = splitPairs front ++ shielded key :: splitPairs back ∧
        readPair (shielded key) = .ok (flagSetting name)) ∧
    ∀ key value name text front back, decode (String.ofList key) = .ok name →
      decode (String.ofList value) = .ok text →
      StandsBetween front (shielded key ++ '=' :: shielded value) back (bodyOf query) →
        pairsOf query = splitPairs front ++ (shielded key ++ '=' :: shielded value) :: splitPairs back ∧
        readPair (shielded key ++ '=' :: shielded value) = .ok (valueSetting name text) := by
  have hseparator {spelling : List Char} : ∀ c ∈ shielded spelling, ¬ IsSeparator c :=
    fun c hc hsep => not_cuts_of_mem_shielded hc (.inl hsep)
  have hequals {spelling : List Char} : '=' ∉ shielded spelling :=
    fun hc => not_cuts_of_mem_shielded hc (.inr rfl)
  refine ⟨?_, fun fields hok => ⟨?_, fun other hother hreordered => ?_⟩,
    fun key name front back hname hne hstands => ⟨?_, ?_⟩,
    fun key value name text front back hname htext hstands => ⟨?_, ?_⟩⟩
  · rw [parse_of_hasPairs h]
    exact ofPairs_fails
  · rw [parse_of_hasPairs h] at hok
    obtain ⟨settings, hread, rfl⟩ := ofPairs_eq_ok.mp hok
    exact ⟨settings, (mapM_eq_ok.mp hread).imp fun _ _ h => readPair_eq_ok.mp h,
      fun name => get?_foldl_applySetting⟩
  · rw [parse_of_hasPairs h] at hok
    rw [parse_of_hasPairs hother]
    exact ofPairs_reordered hreordered hok
  · exact splitPairs_between (shielded_ne_nil hne) hseparator hstands
  · exact readPair_eq_ok.mpr (means_flagSetting hequals (decode_shielded hname))
  · refine splitPairs_between (by simp) (fun c hc => ?_) hstands
    rcases List.mem_append.mp hc with hc | hc
    · exact hseparator c hc
    · rcases List.mem_cons.mp hc with rfl | hc
      · decide
      · exact hseparator c hc
  · exact readPair_eq_ok.mpr (means_valueSetting hequals (decode_shielded hname) (decode_shielded htext))

/-- A scalar becomes the first item of a list, and the flag between them sets another name. -/
theorem parse_pairs_mixed :
    HasPairs "k=1&%26+,k[]=true" ∧ ∃ fields, parse "k=1&%26+,k[]=true" = .ok fields ∧
      fields.get? "k" = some (.arr [.str "1", .bool true]) ∧
      ∃ settings,
        List.Forall₂ (fun pair named => Means pair named.1 named.2) (pairsOf "k=1&%26+,k[]=true") settings ∧
        ∀ name, fields.get? name = entryOf settings name := by
  have hbody : bodyOf "k=1&%26+,k[]=true" = "k=1&%26+,k[]=true".toList := by decide +kernel
  have hpairs : HasPairs "k=1&%26+,k[]=true" := by
    rw [HasPairs, hbody]
    decide +kernel
  have hsplit : splitPairs (bodyOf "k=1&%26+,k[]=true") =
      [['k'] ++ '=' :: ['1'], "%26+".toList, "k[]".toList ++ '=' :: "true".toList] := by decide +kernel
  have hlist : ∀ other, "k" ≠ other ++ "[]" := by
    intro other e
    have hlength : 1 = other.length + 2 := (congrArg String.length e).trans (String.length_append _ _)
    omega
  have hread : (splitPairs (bodyOf "k=1&%26+,k[]=true")).mapM readPair =
      .ok [("k", .put (valueOf "1")), ("& ", .put (.bool true)), ("k", .append (valueOf "true"))] := by
    rw [hsplit]
    refine mapM_eq_ok.mpr (.cons (readPair_eq_ok.mpr (.value ?_ ?_ hlist ?_))
      (.cons (readPair_eq_ok.mpr (.flag ?_ ?_ ?_ ?_)) (.cons (readPair_eq_ok.mpr (.item ?_ ?_ ?_)) .nil)))
    all_goals decide +kernel
  obtain ⟨fields, hok⟩ : ∃ fields, parse "k=1&%26+,k[]=true" = .ok fields :=
    ⟨_, (parse_of_hasPairs hpairs).trans (ofPairs_eq_ok.mpr ⟨_, hread, rfl⟩)⟩
  obtain ⟨settings, hmeans, hentries⟩ := ((parse_pairs _ hpairs).2.1 _ hok).1
  refine ⟨hpairs, fields, hok, ?_, settings, hmeans, hentries⟩
  have hsame := mapM_eq_ok.mpr (hmeans.imp fun _ _ h => readPair_eq_ok.mpr h)
  cases hsame.symm.trans hread
  rw [hentries]
  rfl

end Objects

end Stache.Query
