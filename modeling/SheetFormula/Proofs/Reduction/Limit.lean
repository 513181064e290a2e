import SheetFormula.Proofs.Reduction.Events

/-! Compilations of one expression under two limits. An entry that the smaller limit admits is visited in
the same way under the greater one, so the two runs are the same up to the first entry that is too deep
for the smaller limit. A run that does not meet such an entry is the same run under every greater
limit; one that does is cut short there, and the visits before it are visits of the other run. -/

namespace SheetFormula

open Traced

namespace Entry

variable {limit limit' : Nat}

theorem visit_eq_of_le {x : Entry} (hlevel : x.level ≤ limit) (hlimit : limit ≤ limit') :
    x.visit limit' = x.visit limit := by
  have hlevel' : x.level ≤ limit' := Nat.le_trans hlevel hlimit
  rw [visit, visit, enter, enter, if_neg (Nat.not_lt.mpr hlevel), if_neg (Nat.not_lt.mpr hlevel')]

theorem result_visit_of_lt {x : Entry} (h : limit < x.level) :
    (x.visit limit).result = .error (.tooDeep limit) :=
  result_visit_of_fault (fault?_eq_some.mpr (Or.inl ⟨h, rfl⟩))

/-- A run that is not cut short is the same under every greater limit. -/
theorem replay_eq_of_le {xs : List Entry} (hlimit : limit ≤ limit')
    (h : ∀ n, (replay limit xs).result ≠ .error (.tooDeep n)) : replay limit' xs = replay limit xs := by
  induction xs with
  | nil => rfl
  | cons x xs ih =>
      rw [replay_cons] at h
      by_cases hlevel : limit < x.level
      · exact absurd (result_bind_of_error _ (result_visit_of_lt hlevel)) (h limit)
      · rw [replay_cons, replay_cons, visit_eq_of_le (Nat.not_lt.mp hlevel) hlimit]
        cases hvisit : (x.visit limit).result with
        | ok u =>
            rw [result_bind_of_ok _ hvisit] at h
            rw [ih h]
        | error err =>
            apply ext
            · rw [events_bind_of_error _ hvisit, events_bind_of_error _ hvisit]
            · rw [result_bind_of_error _ hvisit, result_bind_of_error _ hvisit]

/-- Under a greater limit a run makes the same visits and perhaps more. -/
theorem visits_replay_prefix (hlimit : limit ≤ limit') (xs : List Entry) :
    (replay limit xs).events.filter (·.severity = .trace) <+:
      (replay limit' xs).events.filter (·.severity = .trace) := by
  induction xs with
  | nil => exact List.prefix_refl _
  | cons x xs ih =>
      rw [replay_cons, replay_cons]
      by_cases hlevel : limit < x.level
      · rw [events_bind_of_error _ (result_visit_of_lt hlevel), events_visit_of_lt hlevel]
        exact List.nil_prefix
      · rw [visit_eq_of_le (Nat.not_lt.mp hlevel) hlimit]
        cases hvisit : (x.visit limit).result with
        | ok u =>
            rw [events_bind_of_ok _ hvisit, events_bind_of_ok _ hvisit, List.filter_append,
              List.filter_append]
            exact (List.prefix_append_right_inj _).mpr ih
        | error err =>
            have hsame : (x.visit limit >>= fun _ => replay limit xs).events =
                (x.visit limit >>= fun _ => replay limit' xs).events :=
              (events_bind_of_error _ hvisit).trans (events_bind_of_error _ hvisit).symm
            exact hsame ▸ List.prefix_refl _

end Entry

namespace Expr

theorem compile_eq_replay (e : Expr) (limit : Nat) :
    e.compile limit =
      (Entry.replay limit ((Subject.expr e).entries 1)).result.map fun _ => e.formula := by
  rw [compile_eq, Entry.result_replay]
  cases ((Subject.expr e).entries 1).findSome? (Entry.fault? limit) <;> rfl

/-- The visits of a compilation are those of its run over the entries. -/
theorem visits_compileTraced (e : Expr) (limit : Nat) :
    (e.compileTraced limit).events.filter (·.severity = .trace) =
      (Entry.replay limit ((Subject.expr e).entries 1)).events.filter (·.severity = .trace) := by
  have hfinish : (finish (e.compile limit)).filter (·.severity = .trace) = [] := by
    cases e.compile limit <;> rfl
  rw [events_compileTraced, List.filter_cons_of_neg, List.filter_append, hfinish, List.append_nil]
  exact nofun

/-- A smaller limit on nesting only cuts a compilation short. If the limit is not what it fails for, then
it has the same result under a greater limit, and the same events after the first one, which tells the
limit. If it is, then the error tells the limit, and the visits are the first visits of a compilation
under the greater limit. -/
theorem smaller_limit_cuts_short (e : Expr) {limit limit' : Nat} (hlimit : limit ≤ limit') :
    ((∀ n, e.compile limit ≠ .error (.tooDeep n)) →
      e.compile limit' = e.compile limit ∧ ∃ events,
        (e.compileTraced limit).events = .started e.operation limit :: events ∧
        (e.compileTraced limit').events = .started e.operation limit' :: events) ∧
    (∀ n, e.compile limit = .error (.tooDeep n) → n = limit ∧
      (e.compileTraced limit).events.filter (·.severity = .trace) <+:
        (e.compileTraced limit').events.filter (·.severity = .trace)) := by
  refine ⟨fun h => ?_, fun n h => ⟨?_, ?_⟩⟩
  · have hrun : ∀ n, (Entry.replay limit ((Subject.expr e).entries 1)).result ≠ .error (.tooDeep n) := by
      intro n hn
      apply h n
      rw [compile_eq_replay, hn]
      rfl
    have hreplay := Entry.replay_eq_of_le hlimit hrun
    have hcompile : e.compile limit' = e.compile limit := by
      rw [compile_eq_replay, hreplay, ← compile_eq_replay]
    refine ⟨hcompile, _, e.events_compileTraced limit, ?_⟩
    rw [events_compileTraced, hreplay, hcompile]
  · obtain ⟨before, x, after, -, -, ⟨-, herr, -⟩ | ⟨-, hown, -⟩⟩ := log_of_error h
    · cases herr
      rfl
    · exact absurd hown (Subject.ownFault?_ne_tooDeep _ n)
  · rw [visits_compileTraced, visits_compileTraced]
    exact Entry.visits_replay_prefix hlimit _

theorem cuts_short_conditional :
    let e : Expr := .conditional (.unary .not (.field "a")) (.number .nan) (.field "b")
    2 ≤ 3 ∧ e.compile 2 = .error (.tooDeep 2) ∧ e.compile 3 = .error (.notFinite .nan) ∧
      ((∀ n, e.compile 2 ≠ .error (.tooDeep n)) →
        e.compile 3 = e.compile 2 ∧ ∃ events,
          (e.compileTraced 2).events = .started e.operation 2 :: events ∧
          (e.compileTraced 3).events = .started e.operation 3 :: events) ∧
      (∀ n, e.compile 2 = .error (.tooDeep n) → n = 2 ∧
        (e.compileTraced 2).events.filter (·.severity = .trace) <+:
          (e.compileTraced 3).events.filter (·.severity = .trace)) :=
  ⟨by decide, rfl, rfl, smaller_limit_cuts_short _ (by decide)⟩

end Expr

end SheetFormula
