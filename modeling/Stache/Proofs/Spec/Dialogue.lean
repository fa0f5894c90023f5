import Stache.Spec.Dialogue

/-!
# Dialogues, carried out and outlined

Two ways to look at a dialogue from outside.

* Carried out: `Dialogue.asked` are the references that a policy is asked about. The state afterwards is
  the policy run over them (`run_state`), and policies that give the same answers are told the same
  (`run_related`).
* Outlined: `Outline` is what a dialogue asks about and the fault that it ends with, said without any
  policy. `Dialogue.Asks` tells that a dialogue follows its outline whatever the answers are; such a
  dialogue is carried out along the outline by every policy (`Asks.asked_eq`, `Asks.run_eq`).
-/

namespace Stache

namespace Dialogue

variable {σ τ α β : Type}

/-! ## 1. Carrying a dialogue out -/

/-- The references that a policy is asked about, in order. -/
def asked (policy : Reference → σ → Option String × σ) : Dialogue α → σ → List Reference
  | .done _, _ => []
  | .failed _, _ => []
  | .ask reference resume, state =>
    reference :: asked policy (resume (policy reference state).1) (policy reference state).2

/-- **The state after a dialogue** is the state after the policy has seen each reference. -/
theorem run_state (policy : Reference → σ → Option String × σ) (d : Dialogue α) (state : σ) :
    (d.run policy state).2 =
      (d.asked policy state).foldl (fun state reference => (policy reference state).2) state := by
  induction d generalizing state with
  | done _ => rfl
  | failed _ => rfl
  | ask reference resume ih => exact ih _ _

/-- A dialogue told the same by two policies says the same to both. -/
theorem run_related {R : σ → τ → Prop} {policy : Reference → σ → Option String × σ}
    {policy' : Reference → τ → Option String × τ}
    (step : ∀ reference s t, R s t → (policy reference s).1 = (policy' reference t).1 ∧
      R (policy reference s).2 (policy' reference t).2)
    (d : Dialogue α) {s : σ} {t : τ} (h : R s t) :
    (d.run policy s).1 = (d.run policy' t).1 ∧ R (d.run policy s).2 (d.run policy' t).2 ∧
      d.asked policy s = d.asked policy' t := by
  induction d generalizing s t with
  | done result => exact ⟨rfl, h, rfl⟩
  | failed error => exact ⟨rfl, h, rfl⟩
  | ask reference resume ih =>
    obtain ⟨ha, hr⟩ := step reference s t h
    simp only [run, asked, ha]
    obtain ⟨h₁, h₂, h₃⟩ := ih (policy' reference t).1 hr
    exact ⟨h₁, h₂, by rw [h₃]⟩

end Dialogue

/-! ## 2. Outlines -/

/-- What a dialogue asks about, and the fault that it ends with if it does. -/
structure Outline where
  /-- The references, in order. -/
  references : List Reference
  /-- Why the template is rejected in the end. -/
  fault : Option SyntaxError
  deriving DecidableEq, Repr

namespace Outline

/-- Nothing is asked. -/
def nothing : Outline := ⟨[], none⟩

/-- One reference. -/
def one (reference : Reference) : Outline := ⟨[reference], none⟩

/-- First `a`, then `b` unless `a` ends with a fault. -/
def andThen (a b : Outline) : Outline :=
  if a.fault.isSome then a else ⟨a.references ++ b.references, b.fault⟩

instance : Append Outline := ⟨andThen⟩

theorem append_of_fault {a : Outline} (h : a.fault.isSome = true) (b : Outline) : a ++ b = a :=
  if_pos h

theorem append_of_none {a : Outline} (h : a.fault = none) (b : Outline) :
    a ++ b = ⟨a.references ++ b.references, b.fault⟩ :=
  if_neg (by rw [h]; exact Bool.false_ne_true)

@[simp] theorem nothing_append (a : Outline) : nothing ++ a = a :=
  append_of_none rfl a

@[simp] theorem append_nothing (a : Outline) : a ++ nothing = a := by
  cases h : a.fault with
  | none =>
    rw [append_of_none h]
    obtain ⟨references, fault⟩ := a
    simp_all [nothing]
  | some e => exact append_of_fault (by rw [h]; rfl) _

theorem append_assoc (a b c : Outline) : a ++ b ++ c = a ++ (b ++ c) := by
  rcases a with ⟨first, _ | e⟩
  · rcases b with ⟨second, _ | e⟩
    · exact congrArg (Outline.mk · c.fault) (List.append_assoc ..)
    · rfl
  · rfl

theorem mem_references_append {a b : Outline} {reference : Reference}
    (h : reference ∈ (a ++ b).references) : reference ∈ a.references ∨ reference ∈ b.references := by
  rcases a with ⟨first, _ | e⟩
  · exact List.mem_append.mp h
  · exact .inl h

end Outline

namespace Dialogue

variable {σ α β : Type}

/-- The dialogue follows the outline, whatever it is told. -/
inductive Asks : Dialogue α → Outline → Prop where
  | done (result : α) : Asks (.done result) .nothing
  | failed (error : SyntaxError) : Asks (.failed error) ⟨[], some error⟩
  | ask (reference : Reference) {resume : Option String → Dialogue α} {rest : Outline}
      (h : ∀ answer, Asks (resume answer) rest) :
      Asks (.ask reference resume) ⟨reference :: rest.references, rest.fault⟩

namespace Asks

theorem ofCode (reference : Reference) : Asks (Dialogue.code reference) (.one reference) :=
  .ask reference fun _ => .done _

theorem ofPure (result : α) : Asks (pure result) .nothing := .done result

/-- The outline of a dialogue that goes on. -/
theorem bind {d : Dialogue α} {f : α → Dialogue β} {a b : Outline} (h : Asks d a)
    (hf : ∀ result, Asks (f result) b) : Asks (d >>= f) (a ++ b) := by
  induction h with
  | done result => exact (Outline.nothing_append b).symm ▸ hf result
  | failed error => exact .failed error
  | ask reference _ ih =>
    rename_i resume rest _
    have : (⟨reference :: rest.references, rest.fault⟩ : Outline) ++ b =
        ⟨reference :: (rest ++ b).references, (rest ++ b).fault⟩ := by
      cases hr : rest.fault with
      | none =>
        rw [Outline.append_of_none (by exact rfl), Outline.append_of_none hr]
        rfl
      | some e =>
        rw [Outline.append_of_fault (by exact rfl), Outline.append_of_fault (by rw [hr]; rfl), hr]
    rw [this]
    exact .ask reference ih

/-- A result that is only wrapped up adds nothing to the outline. -/
theorem map {d : Dialogue α} {f : α → β} {a : Outline} (h : Asks d a) :
    Asks (d >>= fun result => pure (f result)) a :=
  Outline.append_nothing a ▸ h.bind fun result => ofPure (f result)

/-- **Every policy is asked along the outline.** -/
theorem asked_eq {d : Dialogue α} {o : Outline} (h : Asks d o)
    (policy : Reference → σ → Option String × σ) (state : σ) :
    d.asked policy state = o.references := by
  induction h generalizing state with
  | done _ => rfl
  | failed _ => rfl
  | ask reference _ ih => exact congrArg (reference :: ·) (ih _ _)

/-- **A dialogue ends as its outline says**, whoever answers. -/
theorem run_eq {d : Dialogue α} {o : Outline} (h : Asks d o)
    (policy : Reference → σ → Option String × σ) (state : σ) :
    match o.fault with
    | none => ∃ result, (d.run policy state).1 = .ok result
    | some error => (d.run policy state).1 = .error error := by
  induction h generalizing state with
  | done result => exact ⟨result, rfl⟩
  | failed _ => rfl
  | ask reference _ ih => exact ih _ _

/-- What ends with a result for one policy is never rejected. -/
theorem fault_eq_none {d : Dialogue α} {o : Outline} (h : Asks d o)
    {policy : Reference → σ → Option String × σ} {state : σ} {result : α}
    (hr : (d.run policy state).1 = .ok result) : o.fault = none := by
  have hend := h.run_eq policy state
  cases hf : o.fault with
  | none => rfl
  | some error =>
    rw [hf, hr] at hend
    cases hend

end Asks

end Dialogue

end Stache
