import Mathlib.Data.List.Basic
import SheetFormula.CommandLine.Request

/-! Command lines that are written for a request. The number of a limit is read back from its decimal
digits, and a path is taken as it is unless it is empty or begins like an option; so the command line of a
request asks for just this request (`CompileRequest.ofArguments?_line`). -/

namespace SheetFormula
namespace CommandLine

/-- Whether an argument cannot be taken for an option, and is not empty. The single dash is no option. -/
def IsOperand (argument : String) : Prop :=
  argument ≠ "" ∧ ∀ c rest, argument.toList ≠ '-' :: c :: rest

theorem isOperand_of_head {argument : String} {c : Char} {rest : List Char}
    (h : argument.toList = c :: rest) (hc : c ≠ '-') : IsOperand argument := by
  refine ⟨fun hempty => ?_, fun c' rest' heq => hc (List.cons_eq_cons.mp (h.symm.trans heq)).1⟩
  rw [hempty] at h
  cases h

/-! ### Numbers -/

theorem exists_digit_of_toString (n : Nat) :
    ∃ c rest, (toString n).toList = c :: rest ∧ c.isDigit = true := by
  have hlist : (toString n).toList = Nat.toDigits 10 n := Nat.toList_repr
  obtain ⟨c, rest, hcons⟩ := List.exists_cons_of_ne_nil (Nat.toDigits_ne_nil (n := n) (b := 10))
  have hdigit : c.isDigit = true :=
    Nat.isDigit_of_mem_toDigits (by decide) (by decide) (hcons ▸ List.mem_cons_self)
  exact ⟨c, rest, hlist.trans hcons, hdigit⟩

theorem isOperand_toString (n : Nat) : IsOperand (toString n) := by
  obtain ⟨c, rest, hcons, hdigit⟩ := exists_digit_of_toString n
  refine isOperand_of_head hcons ?_
  rintro rfl
  cases hdigit

namespace Reading

theorem limitValue?_toString {n : Nat} (h : n < limitBound) :
    limitValue? (toString n).toList = some n := by
  have hlist : (toString n).toList = Nat.toDigits 10 n := Nat.toList_repr
  have hall : (Nat.toDigits 10 n).all Char.isDigit = true :=
    List.all_eq_true.mpr fun c hc => Nat.isDigit_of_mem_toDigits (by decide) (by decide) hc
  have hvalue : (Nat.toDigits 10 n).foldl (fun n c => n * 10 + (c.toNat - '0'.toNat)) 0 = n := by
    have hread := Nat.ofDigitChars_ten_toDigits (n := n)
    simpa only [Nat.ofDigitChars, Nat.mul_comm] using hread
  have hplain : ∀ ds, Nat.toDigits 10 n ≠ '+' :: ds := by
    intro ds hplus
    rw [hplus] at hall
    cases hall
  have hne : (Nat.toDigits 10 n).isEmpty = false := by
    rw [List.isEmpty_eq_false_iff]
    exact Nat.toDigits_ne_nil
  rw [hlist, limitValue?, if_neg (by simp [hne, hall])]
  · simp only [hvalue]
    exact if_pos h
  · exact hplain

/-! ### Steps -/

theorem step_operand {r : Reading} {argument : String} (h : IsOperand argument)
    (hpending : r.pending = none) : r.step argument = r.operand argument := by
  have hoption := h.2
  unfold step
  rw [hpending]
  split <;> simp_all

theorem step_value {r : Reading} {argument : String} {s : Setting} (h : IsOperand argument)
    (hpending : r.pending = some s) : r.step argument = r.set s argument.toList := by
  have hoption := h.2
  unfold step
  rw [hpending]
  split <;> simp_all

theorem foldlM_cons_of_step {r next : Reading} {argument : String} {arguments : List String}
    (h : r.step argument = .ok next) :
    (argument :: arguments).foldlM step r = arguments.foldlM step next := by
  rw [List.foldlM_cons, h]
  rfl

theorem foldlM_append_of_eq {r next : Reading} {before : List String} (after : List String)
    (h : before.foldlM step r = .ok next) :
    (before ++ after).foldlM step r = after.foldlM step next := by
  rw [List.foldlM_append, h]
  rfl

/-! ### Lines -/

/-- What has been read of a command line that begins with `compile`, or with `-v` before it. -/
def compiling (verbose : Bool) (pending : Option Setting) (input output : Option String)
    (limit : Option Nat) : Reading where
  command := some .compile
  verbose := false
  verboseBefore := verbose
  escaped := false
  pending := pending
  input := input
  output := output
  limit := limit

theorem foldlM_command (verbose : Bool) :
    ((if verbose then ["-v"] else []) ++ ["compile"]).foldlM step start =
      .ok (compiling verbose none none none none) := by
  cases verbose <;> rfl

variable {verbose : Bool}

theorem foldlM_input {input : Option String} (h : ∀ path ∈ input, IsOperand path) :
    input.toList.foldlM step (compiling verbose none none none none) =
      .ok (compiling verbose none input none none) := by
  cases input with
  | none => rfl
  | some path =>
      have hpath := h path rfl
      have hstep : (compiling verbose none none none none).step path =
          .ok (compiling verbose none (some path) none none) := by
        rw [step_operand hpath rfl]
        simp [operand, compiling, hpath.1]
      exact foldlM_cons_of_step hstep

theorem foldlM_limit (input : Option String) {n : Nat} (h : n < limitBound) :
    ["--max-depth", toString n].foldlM step (compiling verbose none input none none) =
      .ok (compiling verbose none input none (some n)) := by
  have hname : (compiling verbose none input none none).step "--max-depth" =
      .ok (compiling verbose (some .limit) input none none) := rfl
  have hvalue : (compiling verbose (some .limit) input none none).step (toString n) =
      .ok (compiling verbose none input none (some n)) := by
    rw [step_value (isOperand_toString n) rfl, set, limitValue?_toString h]
    rfl
  exact (foldlM_cons_of_step hname).trans (foldlM_cons_of_step hvalue)

theorem foldlM_output (input : Option String) (n : Nat) {path : String} (h : IsOperand path) :
    ["-o", path].foldlM step (compiling verbose none input none (some n)) =
      .ok (compiling verbose none input (some path) (some n)) := by
  have hname : (compiling verbose none input none (some n)).step "-o" =
      .ok (compiling verbose (some .output) input none (some n)) := rfl
  have hvalue : (compiling verbose (some .output) input none (some n)).step path =
      .ok (compiling verbose none input (some path) (some n)) := by
    rw [step_value h rfl, set]
    simp [compiling, h.1]
  exact (foldlM_cons_of_step hname).trans (foldlM_cons_of_step hvalue)

end Reading

/-- The command line of a request. -/
def CompileRequest.line (r : CompileRequest) : List String :=
  (if r.verbose then ["-v"] else []) ++ ["compile"] ++ r.input.toList ++
    ["--max-depth", toString r.limit] ++
    match r.output with
    | some path => ["-o", path]
    | none => []

/-- Whether a command line can say what a request asks for. -/
structure CompileRequest.HasLine (r : CompileRequest) : Prop where
  limit : r.limit < Reading.limitBound
  input : ∀ path ∈ r.input, IsOperand path
  output : ∀ path ∈ r.output, IsOperand path

open Reading in
/-- The command line of a request asks for it. -/
theorem CompileRequest.ofArguments?_line {r : CompileRequest} (h : r.HasLine) :
    Request.ofArguments? r.line = some (.compile r) := by
  obtain ⟨input, output, limit, verbose⟩ := r
  have hread : (line ⟨input, output, limit, verbose⟩).foldlM step start =
      .ok (compiling verbose none input output (some limit)) := by
    simp only [line, List.append_assoc]
    rw [← List.append_assoc, foldlM_append_of_eq _ (foldlM_command verbose),
      foldlM_append_of_eq _ (foldlM_input h.input), foldlM_append_of_eq _ (foldlM_limit input h.limit)]
    cases output with
    | none => rfl
    | some path => exact foldlM_output input limit (h.output path rfl)
  rw [Request.ofArguments?, hread]
  cases verbose <;> rfl

example : Request.ofArguments? (CompileRequest.line ⟨some "-", some "out.txt", 3, true⟩) =
    some (.compile ⟨some "-", some "out.txt", 3, true⟩) := by decide

end CommandLine
end SheetFormula
