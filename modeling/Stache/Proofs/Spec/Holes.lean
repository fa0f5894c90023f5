import Stache.Proofs.Spec.Form
import Stache.Proofs.Spec.Outline
import Stache.Proofs.Spec.Plain
import Stache.Proofs.Template.Numbers

/-!
# A compilation writes a form

Compilations under different policies differ by substitution only.

* `Dialogue.Writes` -- a dialogue that ends well, whatever it is told, with a result that the codes of its
  references decide; `Writes.run_eq` carries it out;
* `BodyOf.written` -- a spec tree is written as a form, with one hole for every reference;
* `compilation_written`, `compilation_form` -- so is every template that is not rejected.
-/

namespace Stache

namespace Dialogue

variable {σ α β : Type}

/-! ## 1. Results that depend on the codes -/

/-- The codes that a policy leads to: its answers, and the defaults where it has none. -/
def codes (policy : Reference → σ → Option String × σ) : List Reference → σ → List String
  | [], _ => []
  | reference :: references, state =>
    (policy reference state).1.getD reference.default ::
      codes policy references (policy reference state).2

/-- The dialogue asks about the references and ends with a result that depends on their codes. -/
inductive Writes : Dialogue α → List Reference → (Codes → α) → Prop where
  | done (result : α) : Writes (.done result) [] fun _ => result
  | ask (reference : Reference) {resume : Option String → Dialogue α} {rest : List Reference}
      {result : String → Codes → α}
      (h : ∀ answer, Writes (resume answer) rest (result (answer.getD reference.default))) :
      Writes (.ask reference resume) (reference :: rest) fun codes => result (codes 0) (codes.drop 1)

end Dialogue

theorem Codes.drop_drop (codes : Codes) (m n : Nat) : (codes.drop m).drop n = codes.drop (m + n) := by
  funext number
  exact congrArg codes (Nat.add_assoc m n number).symm

theorem Codes.drop_zero (codes : Codes) : codes.drop 0 = codes := by
  funext number
  exact congrArg codes (Nat.zero_add number)

namespace Dialogue.Writes

variable {σ α β : Type}

theorem ofCode (reference : Reference) :
    Writes (Dialogue.code reference) [reference] fun codes => codes 0 :=
  @ask _ reference _ [] (fun code _ => code) fun _ => .done _

theorem bind {d : Dialogue α} {f : α → Dialogue β} {a b : List Reference} {result : Codes → α}
    {next : α → Codes → β} (h : Writes d a result) (hf : ∀ value, Writes (f value) b (next value)) :
    Writes (d >>= f) (a ++ b) fun codes => next (result codes) (codes.drop a.length) := by
  induction h with
  | done value =>
    simp only [List.length_nil, Codes.drop_zero]
    exact hf value
  | @ask reference resume rest result _ ih =>
    have hn (codes : Codes) : codes.drop (reference :: rest).length =
        (codes.drop 1).drop rest.length := by
      rw [Codes.drop_drop, List.length_cons, Nat.add_comm]
    simp only [hn]
    exact @ask _ reference _ (rest ++ b)
      (fun code codes => next (result code codes) (codes.drop rest.length)) ih

theorem map {d : Dialogue α} {f : α → β} {a : List Reference} {result : Codes → α}
    (h : Writes d a result) :
    Writes (d >>= fun value => pure (f value)) a fun codes => f (result codes) := by
  have hf (value : α) : Writes (pure (f value)) [] fun _ => f value := .done (f value)
  have := h.bind hf
  rwa [List.append_nil] at this

/-- **Every policy leads to the result for its codes.** -/
theorem run_eq {d : Dialogue α} {references : List Reference} {result : Codes → α}
    (h : Writes d references result) (policy : Reference → σ → Option String × σ) (state : σ)
    (codes : Codes) (hc : ∀ number code,
      (Dialogue.codes policy references state)[number]? = some code → codes number = code) :
    (d.run policy state).1 = .ok (result codes) := by
  induction h generalizing state codes with
  | done value => rfl
  | ask reference _ ih =>
    have first := hc 0 _ rfl
    show _ = Except.ok (_ : α)
    simp only [first]
    refine ih _ _ (codes.drop 1) fun number code h => ?_
    exact hc (1 + number) code (by rw [Nat.add_comm]; exact h)

end Dialogue.Writes

open Dialogue (Writes)

/-- What ends well does so part by part. -/
theorem Outline.of_fault_append {a b : Outline} (h : (a ++ b).fault = none) :
    a.fault = none ∧ b.fault = none ∧ (a ++ b).references = a.references ++ b.references := by
  cases ha : a.fault with
  | none =>
    rw [append_of_none ha] at h ⊢
    exact ⟨rfl, h, rfl⟩
  | some error =>
    rw [append_of_fault (by rw [ha]; rfl), ha] at h
    cases h

/-- The holes of one part and then another. -/
theorem range_length_append (a b : List Reference) : List.range (a ++ b).length =
    List.range a.length ++ (List.range b.length).map (a.length + ·) := by
  rw [List.length_append, List.range_add]

/-! ## 2. Values and calls -/

theorem written_askAll : ∀ references : List Reference, ∃ texts,
    Writes (askAll references) references texts ∧ DraftedAll (List.range references.length) texts
  | [] => ⟨_, .done _, .nil⟩
  | reference :: references => by
    obtain ⟨texts, hw, hd⟩ := written_askAll references
    refine ⟨_, (Writes.ofCode reference).bind fun code => hw.map, ?_⟩
    rw [List.length_cons, Nat.add_comm, List.range_add]
    exact .cons (.ofHole 0) (hd.drop 1)

mutual

/-- A value is written as a form. -/
theorem ValueOf.written : ∀ value : ValueOf Reference, value.Plain → value.outline.fault = none →
    ∃ v, Writes value.ask value.outline.references v ∧ (∀ codes, (v codes).needs = value.needs) ∧
      Drafted [] [] (List.range value.outline.references.length) fun codes => (v codes).text
  | .chain ⟨base, links⟩, _, _ => by
    obtain ⟨texts, hw, hd⟩ := written_askAll links
    exact ⟨_, hw.map.map, fun _ => rfl, drafted_chain base hd⟩
  | .constant text, hp, _ => ⟨_, .done _, fun _ => rfl, .ofSound (Text.sound_of_plain hp)⟩
  | .literal reference, _, _ => ⟨_, (Writes.ofCode reference).map, fun _ => rfl, .ofHole 0⟩
  | .call call, hp, hf => by
    obtain ⟨c, hw, hn, hd⟩ := InvocationOf.written call hp hf
    exact ⟨_, hw.map, hn, hd none⟩

theorem written_params : ∀ values : List (ValueOf Reference), paramsPlain values →
    (paramsOutline values).fault = none →
    ∃ v, Writes (askParams values) (paramsOutline values).references v ∧
      (∀ codes, paramsNeeds (v codes) = paramsNeeds values) ∧
      DraftedAll (List.range (paramsOutline values).references.length) fun codes =>
        paramTexts (v codes)
  | [], _, _ => ⟨_, .done _, fun _ => rfl, .nil⟩
  | value :: values, ⟨hp, hps⟩, hf => by
    obtain ⟨ha, hb, hr⟩ := Outline.of_fault_append hf
    obtain ⟨v, hw, hn, hd⟩ := value.written hp ha
    obtain ⟨vs, hws, hns, hds⟩ := written_params values hps hb
    rw [paramsOutline, hr, range_length_append]
    refine ⟨_, hw.bind fun _ => hws.map, fun codes => ?_, .cons hd (hds.drop _)⟩
    simp only [paramsNeeds, hn, hns]

theorem written_hash : ∀ hash : List (String × ValueOf Reference), hashPlain hash →
    (hashOutline hash).fault = none →
    ∃ v, Writes (askHash hash) (hashOutline hash).references v ∧
      (∀ codes, hashNeeds (v codes) = hashNeeds hash) ∧
      DraftedAll (List.range (hashOutline hash).references.length) fun codes => hashTexts (v codes)
  | [], _, _ => ⟨_, .done _, fun _ => rfl, .nil⟩
  | (key, value) :: hash, ⟨hp, hps⟩, hf => by
    obtain ⟨ha, hb, hr⟩ := Outline.of_fault_append hf
    obtain ⟨v, hw, hn, hd⟩ := value.written hp ha
    obtain ⟨vs, hws, hns, hds⟩ := written_hash hash hps hb
    rw [hashOutline, hr, range_length_append]
    refine ⟨_, hw.bind fun _ => hws.map, fun codes => ?_,
      .cons (drafted_fieldText key hd) (hds.drop _)⟩
    simp only [hashNeeds, hn, hns]

theorem InvocationOf.written : ∀ call : InvocationOf Reference (ValueOf Reference),
    InvocationOf.Plain call → (InvocationOf.outline call).fault = none →
    ∃ c, Writes (InvocationOf.ask call) (InvocationOf.outline call).references c ∧
      (∀ codes, InvocationOf.needs (c codes) = InvocationOf.needs call) ∧
      ∀ sections, Drafted [] [] (List.range (InvocationOf.outline call).references.length)
        fun codes => InvocationOf.text sections (c codes)
  | ⟨name, position, .helper helper ⟨params, hash⟩⟩, ⟨hp, hh⟩, hf => by
    obtain ⟨_, hb, hr⟩ := Outline.of_fault_append hf
    obtain ⟨ha, hb, hr'⟩ := Outline.of_fault_append hb
    obtain ⟨ps, hwp, hnp, hdp⟩ := written_params params hp ha
    obtain ⟨hs, hwh, hnh, hdh⟩ := written_hash hash hh hb
    rw [InvocationOf.outline, hr, hr', range_length_append, range_length_append, List.map_append]
    refine ⟨_, (Writes.ofCode helper).bind fun _ => hwp.bind fun _ => hwh.map, fun codes => ?_,
      fun sections => ?_⟩
    · simp only [InvocationOf.needs, hnp, hnh]
    · exact drafted_invokeHelper name position sections (.ofHole 0) (hdp.drop 1)
        ((hdh.drop _).drop 1)
  | ⟨name, position, .ambiguous member helper⟩, _, _ =>
    ⟨_, (Writes.ofCode member).bind fun _ => (Writes.ofCode helper).map, fun _ => rfl,
      fun sections => drafted_invokeAmbiguous name position sections⟩
  | ⟨name, position, .applied value ⟨params, hash⟩⟩, ⟨hv, hp, hh⟩, hf => by
    obtain ⟨ha, hb, hr⟩ := Outline.of_fault_append hf
    obtain ⟨hb, hc, hr'⟩ := Outline.of_fault_append hb
    obtain ⟨v, hwv, hnv, hdv⟩ := value.written hv ha
    obtain ⟨ps, hwp, hnp, hdp⟩ := written_params params hp hb
    obtain ⟨hs, hwh, hnh, hdh⟩ := written_hash hash hh hc
    rw [InvocationOf.outline, hr, hr', range_length_append, range_length_append, List.map_append]
    refine ⟨_, hwv.bind fun _ => hwp.bind fun _ => hwh.map, fun codes => ?_, fun sections => ?_⟩
    · simp only [InvocationOf.needs, hnv, hnp, hnh]
    · exact drafted_invokeHelper name position sections hdv (hdp.drop _) ((hdh.drop _).drop _)
  | ⟨name, position, .plain value lookedUp⟩, hp, hf => by
    obtain ⟨v, hw, hn, hd⟩ := value.written hp hf
    exact ⟨_, hw.map, hn, fun sections => drafted_plainCall name position sections lookedUp hd⟩
  | ⟨_, _, .refused⟩, _, hf => by cases hf

end

/-! ## 3. Lines and bodies -/

/-- The target and the name of a partial are forms that share the holes. -/
theorem PartialNameOf.written : ∀ name : PartialNameOf Reference, name.Plain →
    name.outline.fault = none →
    ∃ p, Writes name.ask name.outline.references p ∧ (∀ codes, (p codes).needs = name.needs) ∧
      ∃ target shown, Drafted [] [] target (fun codes => (p codes).texts.1) ∧
        Drafted [] [] shown (fun codes => (p codes).texts.2) ∧
        target ++ shown = List.range name.outline.references.length
  | .known name lookup, _, _ =>
    ⟨_, (Writes.ofCode lookup).map, fun _ => rfl, [0], [], .ofHole 0,
      .ofSound (Text.sound_quote name), rfl⟩
  | .computed call, hp, hf => by
    obtain ⟨c, hw, hn, hd⟩ := InvocationOf.written call hp hf
    have hu : Text.Sound "undefined".toList := sound_ofList rfl
    exact ⟨_, hw.map, hn, [], _, .ofSound hu, hd none, rfl⟩

theorem written_context : ∀ context : Option (ValueOf Reference), contextPlain context →
    (contextOutline context).fault = none →
    ∃ v, Writes (askContext? context) (contextOutline context).references v ∧
      (∀ codes, contextNeeds (v codes) = contextNeeds context) ∧
      Drafted [] [] (List.range (contextOutline context).references.length) fun codes =>
        ((v codes).map ValueOf.text).getD "depth0"
  | none, _, _ => ⟨_, .done _, fun _ => rfl, .ofSound (sound_ofList rfl)⟩
  | some value, hp, hf => by
    obtain ⟨v, hw, hn, hd⟩ := value.written hp hf
    exact ⟨_, hw.map, hn, hd⟩

/-- The number of a section and its block parameters do not depend on its lines. -/
theorem numberOf?_congr {ℓ ℓ' : Type} {a : Option (BodyOf ℓ)} {b : Option (BodyOf ℓ')}
    (h : a.map (·.params) = b.map (·.params)) (number : Nat) :
    numberOf? number a = numberOf? number b ∧
      (a.map fun body => body.params.length).getD 0 = (b.map fun body => body.params.length).getD 0 := by
  cases a <;> cases b <;> simp_all [numberOf?]

/-- The holes of two lines, and of the functions inside them. -/
theorem perm_interleave {own inner own' inner' : List Nat} {m n : Nat}
    (h : (own ++ inner).Perm (List.range m)) (h' : (own' ++ inner').Perm (List.range n)) :
    ((own ++ own'.map (m + ·)) ++ (inner ++ inner'.map (m + ·))).Perm
      (List.range m ++ (List.range n).map (m + ·)) := by
  have hp := h.append (h'.map (m + ·))
  rw [List.map_append, List.append_assoc] at hp
  rw [List.append_assoc]
  refine .trans (.append_left own ?_) hp
  rw [← List.append_assoc, ← List.append_assoc]
  exact .append_right _ List.perm_append_comm

mutual

theorem LineOf.written_form : ∀ line : LineOf Reference, line.Plain → line.outline.fault = none →
    ∃ l, Writes line.ask line.outline.references l ∧ (∀ codes, (l codes).needs = line.needs) ∧
      ∀ next, ∃ own inner, Drafted [] [] own (fun codes => ((l codes).written next).own) ∧
        DraftedAll inner (fun codes => ((l codes).written next).functions) ∧
        (own ++ inner).Perm (List.range line.outline.references.length)
  | .chunk reference, _, _ =>
    ⟨_, (Writes.ofCode reference).map, fun _ => rfl, fun _ =>
      ⟨[0], [], drafted_appendText (.ofHole 0), .nil, .refl _⟩⟩
  | .escaped call, hp, hf => by
    obtain ⟨c, hw, hn, hd⟩ := InvocationOf.written call hp hf
    have function : Text.Sound "container.escapeExpression".toList := sound_ofList rfl
    refine ⟨_, hw.map, hn, fun _ => ⟨_, [], drafted_appendText
      (drafted_applyText function (.one (hd none))), .nil, ?_⟩⟩
    rw [List.append_nil]
    exact .refl _
  | .unescaped call, hp, hf => by
    obtain ⟨c, hw, hn, hd⟩ := InvocationOf.written call hp hf
    refine ⟨_, hw.map, hn, fun _ => ⟨_, [], drafted_appendUnescaped (hd none), .nil, ?_⟩⟩
    rw [List.append_nil]
    exact .refl _
  | .block main inverse call, ⟨hm, hi, hc⟩, hf => by
    obtain ⟨ha, hb, hr⟩ := Outline.of_fault_append hf
    obtain ⟨hb, hc', hr'⟩ := Outline.of_fault_append hb
    obtain ⟨m, hwm, hnm, hpm, hdm⟩ := written_section main hm ha
    obtain ⟨i, hwi, hni, hpi, hdi⟩ := written_section inverse hi hb
    obtain ⟨c, hwc, hnc, hdc⟩ := InvocationOf.written call hc hc'
    rw [LineOf.outline, hr, hr', range_length_append, range_length_append]
    refine ⟨_, hwm.bind fun _ => hwi.bind fun _ => hwc.map, fun codes => ?_, fun next => ?_⟩
    · simp only [LineOf.needs, hnm, hni, hnc]
    · obtain ⟨first, hfirst, hpfirst⟩ := hdm next
      obtain ⟨k, hk⟩ := hfirst.length_eq
      obtain ⟨second, hsecond, hpsecond⟩ := hdi (next + k)
      -- the inverse section is numbered behind the functions of the first, which are always as many
      generalize (sectionOutline main).references.length = a at *
      generalize (sectionOutline inverse).references.length = b at *
      generalize (InvocationOf.outline call).references.length = d at *
      refine ⟨((List.range d).map (b + ·)).map (a + ·), first ++ second.map (a + ·), ?_, ?_, ?_⟩
      · simp only [LineOf.written, hk, (numberOf?_congr (hpm _) _).1, (numberOf?_congr (hpi _) _).1,
          (numberOf?_congr (hpm _) 0).2]
        exact drafted_appendUnescaped (((hdc _).drop _).drop _)
      · simp only [LineOf.written, hk]
        exact hfirst.append (hsecond.drop _)
      · have hp := hpfirst.append (hpsecond.map (a + ·))
        rw [List.map_append, ← List.append_assoc (List.range a)]
        exact .trans List.perm_append_comm (.append_right _ hp)
  | .partialTemplate name context hash fallback, ⟨hpn, hpc, hph, hpf⟩, hf => by
    obtain ⟨ha, hb, hr⟩ := Outline.of_fault_append hf
    obtain ⟨hb, hc, hr'⟩ := Outline.of_fault_append hb
    obtain ⟨hc, hd, hr''⟩ := Outline.of_fault_append hc
    obtain ⟨n, hwn, hnn, target, shown, htarget, hshown, hnames⟩ := name.written hpn ha
    obtain ⟨c, hwc, hnc, hdc⟩ := written_context context hpc hb
    obtain ⟨h, hwh, hnh, hdh⟩ := written_hash hash hph hc
    obtain ⟨b, hwb, hnb, hpb, hdb⟩ := written_section fallback hpf hd
    rw [LineOf.outline, hr, hr', hr'', range_length_append, range_length_append, range_length_append]
    refine ⟨_, hwn.bind fun _ => hwc.bind fun _ => hwh.bind fun _ => hwb.map, fun codes => ?_,
      fun next => ?_⟩
    · simp only [LineOf.needs, hnn, hnc, hnh, hnb]
    · obtain ⟨inner, hinner, hperm⟩ := hdb next
      generalize name.outline.references.length = a at *
      generalize (contextOutline context).references.length = b at *
      generalize (hashOutline hash).references.length = c at *
      refine ⟨(target ++ shown) ++ ((List.range b).map (a + ·) ++
        ((List.range c).map (b + ·)).map (a + ·)),
        ((inner.map (c + ·)).map (b + ·)).map (a + ·), ?_,
        ((hinner.drop _).drop _).drop _, ?_⟩
      · simp only [LineOf.written, partialText, (numberOf?_congr (hpb _) _).1]
        exact drafted_appendUnescaped (drafted_partialText _ htarget hshown (hdc.drop _)
          ((hdh.drop _).drop _))
      · have hp := ((hperm.map (c + ·)).map (b + ·)).map (a + ·)
        simp only [hnames, List.map_append, List.append_assoc]
        exact .append_left _ (.append_left _ (.append_left _ hp))

theorem written_lines : ∀ lines : List (LineOf Reference), linesPlain lines →
    (linesOutline lines).fault = none →
    ∃ ls, Writes (askLines lines) (linesOutline lines).references ls ∧
      (∀ codes, linesNeeds (ls codes) = linesNeeds lines) ∧
      ∀ next, ∃ own inner, DraftedAll own (fun codes => (writtenLines next (ls codes)).own) ∧
        DraftedAll inner (fun codes => (writtenLines next (ls codes)).functions) ∧
        (own ++ inner).Perm (List.range (linesOutline lines).references.length)
  | [], _, _ => ⟨_, .done _, fun _ => rfl, fun _ => ⟨[], [], .nil, .nil, .refl _⟩⟩
  | line :: lines, ⟨hp, hps⟩, hf => by
    obtain ⟨ha, hb, hr⟩ := Outline.of_fault_append hf
    obtain ⟨l, hw, hn, hd⟩ := line.written_form hp ha
    obtain ⟨ls, hws, hns, hds⟩ := written_lines lines hps hb
    rw [linesOutline, hr, range_length_append]
    refine ⟨_, hw.bind fun _ => hws.map, fun codes => ?_, fun next => ?_⟩
    · simp only [linesNeeds, hn, hns]
    · obtain ⟨own, inner, howns, hinner, hperm⟩ := hd next
      obtain ⟨k, hk⟩ := hinner.length_eq
      obtain ⟨owns, inners, hown', hinner', hperm'⟩ := hds (next + k)
      -- the lines that follow are numbered behind the functions of the first, which are always as many
      refine ⟨_, _, ?_, ?_, perm_interleave hperm hperm'⟩
      · simp only [writtenLines, hk]
        exact .cons howns (hown'.drop _)
      · simp only [writtenLines, hk]
        exact hinner.append (hinner'.drop _)

theorem written_section : ∀ body : Option (BodyOf (LineOf Reference)), sectionPlain body →
    (sectionOutline body).fault = none →
    ∃ b, Writes (askBody? body) (sectionOutline body).references b ∧
      (∀ codes, sectionNeeds (b codes) = sectionNeeds body) ∧
      (∀ codes, (b codes).map (·.params) = body.map (·.params)) ∧
      ∀ next, ∃ inner, DraftedAll inner (fun codes => sectionFunctions next (b codes)) ∧
        inner.Perm (List.range (sectionOutline body).references.length)
  | none, _, _ => ⟨_, .done _, fun _ => rfl, fun _ => rfl, fun _ => ⟨[], .nil, .refl _⟩⟩
  | some ⟨lines, params⟩, hp, hf => by
    obtain ⟨ls, hw, hn, hd⟩ := written_lines lines hp hf
    refine ⟨_, hw.map, fun codes => ?_, fun _ => rfl, fun next => ?_⟩
    · simp only [sectionNeeds, hn]
    · obtain ⟨own, inner, howns, hinner, hperm⟩ := hd (next + 1)
      exact ⟨_, .cons (drafted_functionText howns) hinner, hperm⟩

end

/-- **A spec tree is written as a form**, with a hole for every reference. -/
theorem BodyOf.written (body : BodyIn Reference) (hp : linesPlain body.lines)
    (hf : (linesOutline body.lines).fault = none) :
    ∃ b, Writes body.ask (linesOutline body.lines).references b ∧
      Drafted [] [] (List.range (linesOutline body.lines).references.length) fun codes =>
        (b codes).specText := by
  obtain ⟨ls, hw, hn, hd⟩ := written_lines body.lines hp hf
  obtain ⟨own, inner, howns, hinner, hperm⟩ := hd 1
  refine ⟨_, hw.map, ?_⟩
  simp only [BodyOf.specText, hn]
  exact (drafted_spec _ hinner howns).perm (.trans List.perm_append_comm hperm)

/-! ## 4. Templates -/

variable {hints : Hints} {source : String}

/-- **A template that is not rejected is written as a form**, which closes what it opens and has its holes
    outside literals. -/
theorem compilation_written (h : (compilationOutline hints source).fault = none) :
    ∃ form : Form, form.holes.Perm (List.range (compilationOutline hints source).references.length) ∧
      form.Leads [] [] ∧
      ∀ {σ : Type} (policy : Reference → σ → Option String × σ) (state : σ),
        ((compilation hints source).run policy state).1 = .ok (form.fill fun number =>
          (Dialogue.codes policy (compilationOutline hints source).references state).getD number "") := by
  unfold compilation compilationOutline at *
  cases hp : Program.parse source with
  | error error =>
    rw [hp] at h
    cases h
  | ok program =>
    rw [hp] at h
    have hplain := plain_linesOf hints [] program.body (plain_parse source program hp)
    obtain ⟨body, hw, form, hholes, hleads, hfill⟩ := (program.spec hints).written hplain h
    refine ⟨form, hholes, hleads, fun policy state => ?_⟩
    rw [← hfill]
    refine hw.map.run_eq policy state _ fun number code hc => ?_
    rw [List.getD_eq_getElem?_getD, hc]
    rfl

/-- **Policies differ by substitution only.** Whoever answers, the same references are asked about, and
    either the template is rejected with the same error, or the code is the same form with every hole
    filled by what was answered for its reference, or by the default. -/
theorem compilation_form (hints : Hints) (source : String) : ∃ references : List Reference,
    (∀ {σ : Type} (policy : Reference → σ → Option String × σ) (state : σ),
      (compilation hints source).asked policy state = references) ∧
    ((∃ error, ∀ {σ : Type} (policy : Reference → σ → Option String × σ) (state : σ),
        ((compilation hints source).run policy state).1 = .error error) ∨
      ∃ form : Form, form.holes.Perm (List.range references.length) ∧
        ∀ {σ : Type} (policy : Reference → σ → Option String × σ) (state : σ),
          ((compilation hints source).run policy state).1 =
            .ok (form.fill fun number => (Dialogue.codes policy references state).getD number "")) := by
  have ha := asks_compilation hints source
  refine ⟨(compilationOutline hints source).references, fun policy state => ha.asked_eq policy state, ?_⟩
  cases hf : (compilationOutline hints source).fault with
  | some error =>
    refine .inl ⟨error, fun policy state => ?_⟩
    have hr := ha.run_eq policy state
    rw [hf] at hr
    exact hr
  | none =>
    obtain ⟨form, hholes, _, hfill⟩ := compilation_written hf
    exact .inr ⟨form, hholes, hfill⟩

end Stache
