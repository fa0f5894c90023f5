import Mathlib.Data.List.TakeWhile
import Stache.Proofs.Text.Mentions

/-!
# The programs that generated code calls

Where generated code mentions a program outside its literals, it calls it: the arguments stand behind the mark.

* `calledWith` -- what the programs are called with in a text of code, in the order of the text;
* `Parts.outside_append` -- what stands behind clean parts is read by itself, and stands outside as it does there;
* `mem_calledWith_of_stands` -- a call that stands in code that can be read is one of these.
-/

namespace Stache.Text

/-! ## 1. Calls of programs -/

/-- The arguments of the call of a program that the code begins with: what stands between the mark and the next
    closing bracket. -/
def argumentsHere? (code : List Char) : Option (List Char) :=
  (afterMark? programMark code).map fun rest => rest.takeWhile (· != ')')

/-- What programs are called with in code without literals. -/
def argumentsIn : List Char → List (List Char)
  | [] => []
  | c :: code => (argumentsHere? (c :: code)).toList ++ argumentsIn code

/-- What programs are called with in code, outside its literals, if it can be read. -/
def arguments? (code : List Char) : Option (List (List Char)) :=
  (Parts.read? code).map fun parts => parts.outside.flatMap argumentsIn

/-- **What programs are called with** in a text of code, outside its literals. -/
def calledWith (code : String) : List String :=
  ((arguments? code.toList).getD []).map String.ofList

/-- A call in a literal is none. -/
example : calledWith "\"container.program(1)\";container.program(2, data)" = ["2, data"] := by decide +kernel

/-- The number that a text begins with. -/
def leadingNumber (text : List Char) : Nat :=
  Nat.ofDigitChars 10 (text.takeWhile Char.isDigit) 0

/-- The first of some arguments is the number of the program. -/
theorem leadingNumber_takeWhile (code : List Char) :
    leadingNumber (code.takeWhile (· != ')')) = Nat.ofDigitChars 10 (code.takeWhile Char.isDigit) 0 := by
  have hdigit (c : Char) : decide (c.isDigit = true ∧ (c != ')') = true) = c.isDigit := by
    by_cases hc : c = ')'
    · rw [hc]
      rfl
    · simp [hc]
  rw [leadingNumber, List.takeWhile_takeWhile]
  simp only [hdigit]

/-! ## 2. Calls that stand in code -/

/-- What stands behind clean parts is read by itself; the last text outside goes on with the first one behind. -/
theorem Parts.outside_append {parts : Parts} (h : parts.Clean) : ∃ before front, ∀ rest,
    (read? (parts.write ++ rest)).map outside =
      (read? rest).map fun behind => before ++ (front ++ behind.head) :: behind.tail.map Prod.snd := by
  obtain ⟨head, tail⟩ := parts
  induction tail generalizing head with
  | nil =>
    have hhead : IsOutside head := h.outside head List.mem_cons_self
    refine ⟨[], head, fun rest => ?_⟩
    rw [write, writeTail, List.append_nil, read_append hhead, Option.map_map]
    rfl
  | cons part tail ih =>
    obtain ⟨literal, text⟩ := part
    obtain ⟨hhead, hbehind⟩ := List.forall_mem_cons.mp h.outside
    obtain ⟨hliteral, hliterals⟩ := List.forall_mem_cons.mp h.literals
    obtain ⟨before, front, hread⟩ := ih text ⟨hliterals, hbehind⟩
    refine ⟨head :: before, front, fun rest => ?_⟩
    have hcode : write ⟨head, (literal, text) :: tail⟩ ++ rest =
        head ++ '"' :: (literal ++ '"' :: (write ⟨text, tail⟩ ++ rest)) := by
      simp only [write, writeTail, List.append_assoc, List.cons_append]
    have hmore : (read? (write ⟨head, (literal, text) :: tail⟩ ++ rest)).map outside =
        ((read? (write ⟨text, tail⟩ ++ rest)).map outside).map (head :: ·) := by
      rw [hcode, read_append hhead, read?, readLiteral_append hliteral]
      simp only [Option.map_map]
      refine congrArg (Option.map · _) (funext fun parts => ?_)
      simp [outside]
    rw [hmore, hread, Option.map_map]
    rfl

/-- Code in front makes no difference to the calls behind it. -/
theorem mem_argumentsIn_append {arguments code : List Char} (h : arguments ∈ argumentsIn code)
    (front : List Char) : arguments ∈ argumentsIn (front ++ code) := by
  induction front with
  | nil => exact h
  | cons c front ih => exact List.mem_append_right _ ih

/-- Code that begins with a call calls a program with its arguments. -/
theorem mem_argumentsIn_of_here {code arguments : List Char} (h : argumentsHere? code = some arguments) :
    arguments ∈ argumentsIn code := by
  cases code with
  | nil => cases h
  | cons c code =>
    rw [argumentsIn, h]
    exact List.mem_append_left _ (List.mem_singleton.mpr rfl)

/-- A call that is written out is read with its arguments. -/
theorem mem_argumentsIn_call {arguments : List Char} (ha : ∀ c ∈ arguments, c ≠ ')') (rest : List Char) :
    arguments ∈ argumentsIn (programMark ++ (arguments ++ ')' :: rest)) := by
  have htake : (arguments ++ ')' :: rest).takeWhile (· != ')') = arguments := by
    have hall : ∀ c ∈ arguments, (c != ')') = true := fun c hc => bne_iff_ne.mpr (ha c hc)
    rw [List.takeWhile_append_of_pos hall]
    exact List.append_nil _
  refine mem_argumentsIn_of_here ?_
  show some ((arguments ++ ')' :: rest).takeWhile (· != ')')) = _
  rw [htake]

/-- No character of the text ends a call or begins a literal. -/
def IsArgument (text : List Char) : Prop :=
  ∀ c ∈ text, c ≠ '"' ∧ c ≠ '\\' ∧ c ≠ ')'

theorem isArgument_ofList {text : List Char}
    (h : text.all (fun c => c != '"' && c != '\\' && c != ')') = true) : IsArgument (String.ofList text).toList := by
  intro c hc
  rw [String.toList_ofList] at hc
  simpa [and_assoc] using List.all_eq_true.mp h c hc

/-- **A call that stands in code is one of its calls**, if the code can be read. -/
theorem mem_calledWith_of_stands {arguments : List Char} (ha : IsArgument arguments)
    {piece code : String} (hp : piece.toList = programMark ++ (arguments ++ [')'])) (hs : Stands piece code)
    (hr : (mentions? code.toList).isSome = true) : String.ofList arguments ∈ calledWith code := by
  obtain ⟨front, back, between, hfront, rfl⟩ := hs
  obtain ⟨parts, hclean, hwrite, _⟩ : Split between ⟨.outside, []⟩ front.toList := split_of_scan hfront
  obtain ⟨before, last, hread⟩ := Parts.outside_append hclean
  have hpiece : IsOutside (programMark ++ (arguments ++ [')'])) := by
    intro c hc
    rcases List.mem_append.mp hc with hc | hc
    · exact isOutside_of_all (a := programMark) rfl c hc
    · rcases List.mem_append.mp hc with hc | hc
      · exact ⟨(ha c hc).1, (ha c hc).2.1⟩
      · cases List.mem_singleton.mp hc
        decide
  have hcode : (front ++ piece ++ back).toList =
      parts.write ++ (programMark ++ (arguments ++ [')']) ++ back.toList) := by
    rw [String.toList_append, String.toList_append, hwrite, hp, List.append_assoc]
  have houtside := hread (programMark ++ (arguments ++ [')']) ++ back.toList)
  rw [← hcode, Parts.read_append hpiece, Option.map_map] at houtside
  rw [mentions?, Option.isSome_map] at hr
  obtain ⟨all, hall⟩ := Option.isSome_iff_exists.mp hr
  rw [hall, Option.map_some] at houtside
  obtain ⟨behind, _, houtside⟩ := Option.map_eq_some_iff.mp houtside.symm
  have hmem : arguments ∈ all.outside.flatMap argumentsIn := by
    rw [← houtside]
    refine List.mem_flatMap.mpr ⟨_, List.mem_append_right _ List.mem_cons_self, mem_argumentsIn_append ?_ last⟩
    have := mem_argumentsIn_call (fun c hc => (ha c hc).2.2) behind.head
    simpa only [List.append_assoc, List.singleton_append] using this
  rw [calledWith, arguments?, hall]
  exact List.mem_map_of_mem hmem

end Stache.Text
