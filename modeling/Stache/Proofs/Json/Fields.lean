import Stache.Json.Value

/-!
# Fields in order

The fields of an object stand in the order of their keys, each key once. So an object is told by the values of
its keys, whatever order they were put in.

* `get?_put` -- the value that was put for a key is found, and those of the other keys stay;
* `sorted_put`, `ext_get?` -- **objects in order are told by their values**.
-/

namespace Stache.Json.Fields

variable {fields : Fields} {key other : String} {value : Json}

/-- The keys are in order, each of them stands there once. -/
def Sorted (fields : Fields) : Prop :=
  fields.Pairwise fun a b => a.1 < b.1

@[simp] theorem get?_nil : get? [] key = none := rfl

theorem get?_cons {field : String × Json} :
    get? (field :: fields) key = if key = field.1 then some field.2 else get? fields key := by
  unfold get?
  rw [List.lookup_cons]
  split
  · rename_i h
    rw [if_pos (eq_of_beq h)]
  · rename_i h
    rw [if_neg (ne_of_beq_false h)]

/-- **The value that was put is found**, and the other ones stay. -/
theorem get?_put : (fields.put key value).get? other = if other = key then some value else fields.get? other := by
  induction fields with
  | nil => exact get?_cons
  | cons field fields ih =>
    obtain ⟨held, old⟩ := field
    unfold put
    split
    · rename_i h
      subst h
      rw [get?_cons, get?_cons]
      split
      · rfl
      · rfl
    · split
      · exact get?_cons
      · rename_i hne _
        rw [get?_cons, get?_cons, ih]
        dsimp only
        by_cases hheld : other = held
        · rw [if_pos hheld, if_pos hheld, if_neg fun e => hne (e.symm.trans hheld)]
        · rw [if_neg hheld, if_neg hheld]

theorem mem_put {field : String × Json} (h : field ∈ fields.put key value) :
    field = (key, value) ∨ field ∈ fields := by
  induction fields with
  | nil => exact .inl (List.mem_singleton.mp h)
  | cons first fields ih =>
    obtain ⟨held, old⟩ := first
    unfold put at h
    split at h
    · exact (List.mem_cons.mp h).imp_right (List.mem_cons_of_mem _)
    · split at h
      · exact List.mem_cons.mp h
      · rcases List.mem_cons.mp h with h | h
        · exact .inr (h ▸ List.mem_cons_self)
        · exact (ih h).imp_right (List.mem_cons_of_mem _)

theorem sorted_put (h : fields.Sorted) : (fields.put key value).Sorted := by
  induction fields with
  | nil => exact List.pairwise_singleton _ _
  | cons field fields ih =>
    obtain ⟨held, old⟩ := field
    obtain ⟨hfirst, hrest⟩ := List.pairwise_cons.mp h
    unfold put
    split
    · rename_i e
      subst e
      exact List.pairwise_cons.mpr ⟨hfirst, hrest⟩
    · split
      · rename_i hlt
        refine List.pairwise_cons.mpr ⟨fun field hf => ?_, h⟩
        rcases List.mem_cons.mp hf with hf | hf
        · exact hf ▸ hlt
        · exact String.lt_trans hlt (hfirst field hf)
      · rename_i hne hlt
        refine List.pairwise_cons.mpr ⟨fun field hf => ?_, ih hrest⟩
        rcases mem_put hf with hf | hf
        · rw [hf]
          by_cases hheld : held < key
          · exact hheld
          · exact absurd (String.le_antisymm (String.not_lt.mp hheld) (String.not_lt.mp hlt)) hne
        · exact hfirst field hf

/-- Below all keys there is no value. -/
theorem get?_of_below (h : ∀ field ∈ fields, key < field.1) : fields.get? key = none := by
  refine List.lookup_eq_none_iff.mpr fun field hf => bne_iff_ne.mpr fun e => ?_
  have hlt := h field hf
  rw [← e] at hlt
  exact String.lt_irrefl key hlt

theorem not_lt_of_get? {field : String × Json} (h : Sorted (field :: fields))
    (hv : get? (field :: fields) key = some value) : ¬ key < field.1 := by
  intro hlt
  have hbelow : ∀ other ∈ field :: fields, key < other.1 := by
    intro other ho
    rcases List.mem_cons.mp ho with ho | ho
    · rwa [ho]
    · exact String.lt_trans hlt ((List.pairwise_cons.mp h).1 other ho)
  cases (get?_of_below hbelow).symm.trans hv

/-- **Objects in order are told by their values.** -/
theorem ext_get? {a b : Fields} (ha : a.Sorted) (hb : b.Sorted) (h : ∀ key, a.get? key = b.get? key) : a = b := by
  have hhead {field : String × Json} {fields : Fields} : get? (field :: fields) field.1 = some field.2 := by
    rw [get?_cons, if_pos rfl]
  induction a generalizing b with
  | nil =>
    cases b with
    | nil => rfl
    | cons other b => cases (h other.1).trans hhead
  | cons field a ih =>
    cases b with
    | nil => cases (h field.1).symm.trans hhead
    | cons other b =>
      obtain ⟨hbelow, ha'⟩ := List.pairwise_cons.mp ha
      obtain ⟨hbelow', hb'⟩ := List.pairwise_cons.mp hb
      have hmine := (h field.1).symm.trans hhead
      have hother := (h other.1).trans hhead
      have hkey : field.1 = other.1 := String.le_antisymm
        (String.not_lt.mp (not_lt_of_get? ha hother)) (String.not_lt.mp (not_lt_of_get? hb hmine))
      rw [hkey] at hmine
      have hfield : field = other := Prod.ext hkey (Option.some.inj (hmine.symm.trans hhead))
      subst hfield
      have hrest (key : String) : get? a key = get? b key := by
        by_cases hk : key = field.1
        · rw [hk, get?_of_below hbelow, get?_of_below hbelow']
        · have hboth := h key
          rwa [get?_cons, get?_cons, if_neg hk, if_neg hk] at hboth
      exact congrArg _ (ih ha' hb' hrest)

end Stache.Json.Fields
