import SheetFormula.Proofs.Reduction.Limit

/-! Reduction at any level. An expression that stands some levels deep has as many levels left as the
limit exceeds that number, and it meets the same faults at the same entries as by itself under a limit
that is so much smaller. Only an error about the limit tells them apart: it names the limit that is in
force. -/

namespace SheetFormula

open Traced

/-- The same error where the limit is another one. -/
def CompileError.under (limit : Nat) : CompileError → CompileError
  | tooDeep _ => tooDeep limit
  | err => err

theorem CompileError.under_of_ne_tooDeep {err : CompileError} (limit : Nat)
    (h : ∀ n, err ≠ .tooDeep n) : err.under limit = err := by
  cases err with
  | tooDeep n => exact absurd rfl (h n)
  | missing | notFinite => rfl

namespace Entry

variable {limit depth : Nat}

/-- An entry that is moved deeper has the fault that it has in its old place under a limit that is as
much smaller. -/
theorem fault?_lower (h : depth ≤ limit) (x : Entry) :
    (x.lower depth).fault? limit = (x.fault? (limit - depth)).map (.under limit) := by
  have hlevel : limit < x.level + depth ↔ limit - depth < x.level := by omega
  rw [fault?, fault?, lower]
  by_cases hdeep : limit - depth < x.level
  · rw [if_pos (hlevel.mpr hdeep), if_pos hdeep]
    rfl
  · rw [if_neg (mt hlevel.mp hdeep), if_neg hdeep]
    cases hown : x.subject.ownFault? with
    | none => rfl
    | some err =>
        have hsame : err.under limit = err := CompileError.under_of_ne_tooDeep limit fun n hn =>
          x.subject.ownFault?_ne_tooDeep n (hn ▸ hown)
        rw [Option.map_some, hsame]

theorem result_replay_lower (h : depth ≤ limit) (xs : List Entry) :
    (replay limit (xs.map (lower depth))).result =
      (replay (limit - depth) xs).result.mapError (.under limit) := by
  have hfault : fault? limit ∘ lower depth = Option.map (.under limit) ∘ fault? (limit - depth) :=
    funext (fault?_lower h)
  rw [result_replay, result_replay, List.findSome?_map, hfault, ← List.map_findSome?]
  cases xs.findSome? (fault? (limit - depth)) <;> rfl

end Entry

namespace Expr

variable {limit level : Nat}

/-- The result of a reduction is that of a compilation by itself, under what the level leaves of the
limit. -/
theorem result_reduce (h : level ≤ limit) (e : Expr) :
    (e.reduce limit level).result = (e.compile (limit - level)).mapError (.under limit) := by
  rw [reduce_eq_replay, result_map, Nat.add_comm, Subject.entries_add, Entry.result_replay_lower h,
    compile_eq_replay]
  cases (Entry.replay (limit - level) ((Subject.expr e).entries 1)).result <;> rfl

/-- A list is reduced one expression after another, each with the result that it has by itself. -/
theorem result_reduceAll (h : level ≤ limit) (es : List Expr) :
    (Expr.reduceAll limit level es).result =
      es.mapM fun e => (e.compile (limit - level)).mapError (.under limit) := by
  induction es with
  | nil => rfl
  | cons e es ih =>
      rw [Expr.reduceAll, List.mapM_cons, ← result_reduce h e, ← ih]
      cases he : (e.reduce limit level).result with
      | error err => exact result_bind_of_error _ he
      | ok fragment => rw [result_bind_of_ok _ he, result_map]; rfl

end Expr
end SheetFormula
