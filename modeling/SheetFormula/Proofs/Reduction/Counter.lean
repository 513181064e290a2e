import SheetFormula.Proofs.Reduction.BranchAlone
import SheetFormula.Proofs.Reduction.Level

/-! Reduction with a counter. Here the level is not an argument but a variable that all steps share: a
word, raised before something that is nested and lowered after it, also where that fails. The compilation
that is told its level is the same run. The counter comes back to where it was from every step, and it
never leaves the range between there and the limit, so that nothing before a step has an influence on
its result. -/

namespace SheetFormula

open Traced (emit ok fail)

/-- What the steps of a compilation share: the counter, the values that it has taken on the way and the
events, the latest first. -/
structure Counter where
  depth : UInt64
  past : List UInt64
  events : List Event

/-- The counter at another value. -/
def Counter.move (s : Counter) (depth : UInt64) : Counter :=
  { s with depth := depth, past := depth :: s.past }

/-- Steps that share a counter. There is no outcome, not even an error, where the counter would leave the
range of a word. -/
abbrev Counting := ExceptT CompileError (StateT Counter Option)

namespace Counting

variable {α β : Type}

def raise : StateT Counter Option Unit := fun s =>
  if s.depth.toNat + 1 < UInt64.size then some ((), s.move (s.depth + 1)) else none

def lower : StateT Counter Option Unit := fun s =>
  if s.depth = 0 then none else some ((), s.move (s.depth - 1))

def report (event : Counter → Event) : StateT Counter Option Unit :=
  modify fun s => { s with events := event s :: s.events }

/-- Runs `body` one level deeper, if the limit allows it. The counter is lowered whatever comes of it. -/
def nested (limit : UInt64) (body : Counting α) : Counting α := ExceptT.mk do
  if limit ≤ (← get).depth then
    report fun _ => .tooDeep limit.toNat
    return .error (.tooDeep limit.toNat)
  else
    raise
    let result ← body.run
    lower
    return result

/-- Runs `body` for an operation whose argument list must not be empty. -/
def nonEmpty (op : Operation) (arguments : List β) (body : Counting α) : Counting α :=
  if arguments.isEmpty then throw (.missing (.arguments op)) else body

mutual

/-- The fragment of an expression one level below the counter. -/
def reduce (limit : UInt64) (e : Expr) : Counting String :=
  nested limit do
    report fun s => .visited e.operation s.depth.toNat
    match e with
    | .text value => return Fragment.text value
    | .number value =>
      if value.isFinite then return value.text else throw (.notFinite value)
    | .field name =>
      if name.isEmpty then throw (.missing .fieldName) else return Fragment.field name
    | .constant c => return Fragment.call c.name []
    | .join parts => do
      let parts ← nonEmpty .join parts (reduceEach limit parts)
      return Fragment.join parts
    | .concatenate parts => do
      let parts ← nonEmpty .concatenate parts (reduceEach limit parts)
      return Fragment.call "CONCATENATE" parts
    | .arrayJoin parts separator => do
      let parts ← nonEmpty .arrayJoin parts (reduceEach limit parts)
      return Fragment.arrayJoin (Json.quoteAll parts) separator
    | .arrayJoinOf part separator => do
      let part ← reduce limit part
      return Fragment.arrayJoin (Json.quote part) separator
    | .unary f argument => do
      let argument ← reduce limit argument
      return Fragment.call f.name [argument]
    | .count f string amount => do
      let string ← reduce limit string
      let amount ← reduce limit amount
      return Fragment.call f.name [string, amount]
    | .locate f needle haystack start => do
      let needle ← reduce limit needle
      let haystack ← reduce limit haystack
      let start ← reduceOption limit start
      return Fragment.call f.name (needle :: haystack :: start.toList)
    | .mid string start length => do
      let string ← reduce limit string
      let start ← reduce limit start
      let length ← reduce limit length
      return Fragment.call "MID" [string, start, length]
    | .replace string start length replacement => do
      let string ← reduce limit string
      let start ← reduce limit start
      let length ← reduce limit length
      let replacement ← reduce limit replacement
      return Fragment.call "REPLACE" [string, start, length, replacement]
    | .substitute string old new index => do
      let string ← reduce limit string
      let old ← reduce limit old
      let new ← reduce limit new
      let index ← reduceOption limit index
      return Fragment.call "SUBSTITUTE" (string :: old :: new :: index.toList)
    | .logical f arguments => do
      let arguments ← nonEmpty (.logical f) arguments (reduceEach limit arguments)
      return Fragment.call f.name arguments
    | .conditional condition whenTrue whenFalse => do
      let condition ← reduce limit condition
      let whenTrue ← reduce limit whenTrue
      let whenFalse ← reduce limit whenFalse
      return Fragment.call "IF" [condition, whenTrue, whenFalse]
    | .branch b => reduceBranch limit b
    | .switch pattern branches =>
      if branches.isEmpty then throw (.missing .branches)
      else do
        let pattern ← reduce limit pattern
        let branches ← reduceBranches limit branches
        return Fragment.call "SWITCH" (pattern :: branches)
    | .operator o left right => do
      let leftText ← reduce limit left
      let rightText ← reduce limit right
      return Fragment.operator o (Fragment.operand left.isCompound leftText)
        (Fragment.operand right.isCompound rightText)

def reduceBranch (limit : UInt64) : Branch → Counting String
  | .when condition value => do
    let value ← reduce limit value
    let condition ← reduce limit condition
    return Fragment.branch (some condition) value
  | .otherwise value => do
    let value ← reduce limit value
    return Fragment.branch none value

def reduceEach (limit : UInt64) : List Expr → Counting (List String)
  | [] => return []
  | e :: es => do
    let fragment ← reduce limit e
    let fragments ← reduceEach limit es
    return fragment :: fragments

def reduceOption (limit : UInt64) : Option Expr → Counting (Option String)
  | none => return none
  | some e => do
    let fragment ← reduce limit e
    return some fragment

def reduceBranches (limit : UInt64) : List Branch → Counting (List String)
  | [] => return []
  | b :: bs => do
    let fragment ← nested limit (reduceBranch limit b)
    let fragments ← reduceBranches limit bs
    return fragment :: fragments

end

/-- The fragments of the arguments of an operation that takes one or more. -/
def reduceAll (limit : UInt64) (op : Operation) (arguments : List Expr) : Counting (List String) :=
  nonEmpty op arguments (reduceEach limit arguments)

/-! ### The counter comes back -/

theorem toNat_add_one {depth limit : UInt64} (h : depth < limit) :
    (depth + 1).toNat = depth.toNat + 1 := by
  have hlt := UInt64.lt_iff_toNat_lt.mp h
  have hword := limit.toNat_lt
  rw [UInt64.toNat_add, UInt64.toNat_one, Nat.mod_eq_of_lt (by omega)]

theorem add_one_le_of_lt {depth limit : UInt64} (h : depth < limit) : depth + 1 ≤ limit := by
  rw [UInt64.le_iff_toNat_le, toNat_add_one h]
  exact UInt64.lt_iff_toNat_lt.mp h

end Counting

/-- The counter is back where it was, and in between it was there or deeper, within the limit. -/
structure Counter.Restored (limit : UInt64) (s s' : Counter) : Prop where
  depth : s'.depth = s.depth
  past : ∃ between, s'.past = between ++ s.past ∧ ∀ d ∈ between, s.depth ≤ d ∧ d ≤ limit

namespace Counter.Restored

variable {limit : UInt64} {s s' s'' : Counter}

theorem refl (limit : UInt64) (s : Counter) : Restored limit s s := ⟨rfl, [], rfl, nofun⟩

/-- A report does not touch the counter. -/
theorem report (limit : UInt64) (s : Counter) (events : List Event) :
    Restored limit s { s with events := events } :=
  ⟨rfl, [], rfl, nofun⟩

theorem trans (h : Restored limit s s') (h' : Restored limit s' s'') : Restored limit s s'' := by
  obtain ⟨between, hpast, hbetween⟩ := h.past
  obtain ⟨between', hpast', hbetween'⟩ := h'.past
  refine ⟨h'.depth.trans h.depth, between' ++ between, ?_, ?_⟩
  · rw [hpast', hpast, List.append_assoc]
  · rw [h.depth] at hbetween'
    exact List.forall_mem_append.mpr ⟨hbetween', hbetween⟩

/-- Around a stretch one level deeper the counter is raised and lowered. -/
theorem around (hlt : s.depth < limit) (h : Restored limit (s.move (s.depth + 1)) s') :
    Restored limit s (s'.move s.depth) := by
  obtain ⟨between, hpast, hbetween⟩ := h.past
  have hle : s.depth ≤ s.depth + 1 := by
    rw [UInt64.le_iff_toNat_le, Counting.toNat_add_one hlt]
    exact Nat.le_succ _
  refine ⟨rfl, s.depth :: (between ++ [s.depth + 1]), ?_, ?_⟩
  · rw [Counter.move, hpast, Counter.move, List.cons_append, List.append_assoc, List.singleton_append]
  · rw [List.forall_mem_cons, List.forall_mem_append, List.forall_mem_singleton]
    exact ⟨⟨UInt64.le_refl _, UInt64.le_of_lt hlt⟩,
      fun d hd => ⟨UInt64.le_trans hle (hbetween d hd).1, (hbetween d hd).2⟩, hle, Counting.add_one_le_of_lt hlt⟩

end Counter.Restored

namespace Counting

variable {α β : Type} {limit : UInt64}

theorem run_nested (limit : UInt64) (x : Counting α) (s : Counter) :
    (nested limit x).run.run s =
      if limit ≤ s.depth then
        some (.error (.tooDeep limit.toNat), { s with events := .tooDeep limit.toNat :: s.events })
      else
        (raise s).bind fun (_, s) => (x.run.run s).bind fun (result, s) =>
          (lower s).bind fun (_, s) => some (result, s) := by
  have hrun : (nested limit x).run.run s = (if limit ≤ s.depth then (do
      report fun _ => .tooDeep limit.toNat
      return .error (.tooDeep limit.toNat) : StateT Counter Option (Except CompileError α)) else do
      raise
      let result ← x.run
      lower
      return result) s := rfl
  rw [hrun]
  split <;> rfl

/-- Below the limit the counter can be raised, and where it comes back it can be lowered. -/
theorem run_nested_of_lt {x : Counting α} {s s' : Counter} {result : Except CompileError α}
    (hlt : s.depth < limit) (hx : x.run.run (s.move (s.depth + 1)) = some (result, s'))
    (hs' : s'.depth = s.depth + 1) :
    (nested limit x).run.run s = some (result, s'.move s.depth) := by
  have hsucc := toNat_add_one hlt
  have hword := (s.depth + 1).toNat_lt
  have hraise : raise s = some ((), s.move (s.depth + 1)) := if_pos (hsucc ▸ hword)
  have hpos : s'.depth ≠ 0 := by
    intro h
    rw [hs', ← UInt64.toNat_inj, hsucc] at h
    cases h
  have hlower : lower s' = some ((), s'.move s.depth) := by
    rw [lower, if_neg hpos, hs', UInt64.add_sub_cancel]
  rw [run_nested, if_neg (UInt64.not_le.mpr hlt)]
  simp only [hraise, hx, hlower, Option.bind_some]

/-- From every counter within the limit, the steps have the result and the events of a run that is told
its level, and the counter comes back. -/
def Follows (limit : UInt64) (x : Counting α) (t : Nat → Traced α) : Prop :=
  ∀ s : Counter, s.depth ≤ limit → ∃ s',
    x.run.run s = some ((t s.depth.toNat).result, s') ∧ s.Restored limit s' ∧
    s'.events = (t s.depth.toNat).events.reverse ++ s.events

namespace Follows

theorem pure (a : α) : Follows limit (Pure.pure a) fun _ => ok a :=
  fun s _ => ⟨s, rfl, .refl limit s, rfl⟩

theorem throw (err : CompileError) : Follows limit (throw err : Counting α) fun _ => fail err :=
  fun s _ => ⟨s, rfl, .refl limit s, rfl⟩

theorem report (event : Nat → Event) :
    Follows limit (liftM (report fun s => event s.depth.toNat)) fun level => emit (event level) :=
  fun s _ => ⟨_, rfl, .report limit s _, rfl⟩

theorem bind {x : Counting α} {t : Nat → Traced α} {f : α → Counting β} {g : α → Nat → Traced β}
    (hx : Follows limit x t) (hf : ∀ a, Follows limit (f a) (g a)) :
    Follows limit (x >>= f) fun level => t level >>= fun a => g a level := by
  intro s hs
  obtain ⟨s', hrun, hrestored, hevents⟩ := hx s hs
  have hbind : (x >>= f).run.run s = (x.run.run s).bind fun (result, s') =>
      (ExceptT.bindCont f result).run s' := rfl
  rw [hbind, hrun]
  cases hresult : (t s.depth.toNat).result with
  | error err =>
      refine ⟨s', ?_, hrestored, ?_⟩
      · rw [Traced.result_bind_of_error _ hresult]
        rfl
      · rw [Traced.events_bind_of_error _ hresult, hevents]
  | ok a =>
      obtain ⟨s'', hrun', hrestored', hevents'⟩ := hf a s' (hrestored.depth ▸ hs)
      rw [hrestored.depth] at hrun' hevents'
      refine ⟨s'', ?_, hrestored.trans hrestored', ?_⟩
      · rw [Traced.result_bind_of_ok _ hresult]
        exact hrun'
      · rw [Traced.events_bind_of_ok _ hresult, hevents', hevents, List.reverse_append, List.append_assoc]

theorem nonEmpty {x : Counting α} {t : Nat → Traced α} (op : Operation) (arguments : List β)
    (hx : Follows limit x t) :
    Follows limit (nonEmpty op arguments x) fun level => Traced.nonEmpty op arguments (t level) := by
  unfold Counting.nonEmpty Traced.nonEmpty
  cases arguments with
  | nil => exact .throw _
  | cons => exact hx

/-- What is made of the arguments may stand inside of the check or after it. -/
theorem nonEmpty_bind {x : Counting α} {t : Nat → Traced α} {f : α → Counting β} {g : α → Nat → Traced β}
    (op : Operation) (arguments : List Expr) (hx : Follows limit x t)
    (hf : ∀ a, Follows limit (f a) (g a)) :
    Follows limit (Counting.nonEmpty op arguments x >>= f) fun level =>
      Traced.nonEmpty op arguments (t level >>= fun a => g a level) := by
  have hafter : (fun level => Traced.nonEmpty op arguments (t level >>= fun a => g a level)) =
      fun level => Traced.nonEmpty op arguments (t level) >>= fun a => g a level := by
    funext level
    cases arguments <;> rfl
  rw [hafter]
  exact (hx.nonEmpty op arguments).bind hf

theorem nested {x : Counting α} {t : Nat → Traced α} (hx : Follows limit x t) :
    Follows limit (nested limit x) fun level => Traced.nested limit.toNat level t := by
  intro s hs
  by_cases hle : limit ≤ s.depth
  · have hdeep : Traced.nested limit.toNat s.depth.toNat t = emit (.tooDeep limit.toNat) >>= fun _ =>
        fail (.tooDeep limit.toNat) := if_pos (UInt64.le_iff_toNat_le.mp hle)
    simp only [hdeep]
    exact ⟨_, (run_nested limit x s).trans (if_pos hle), .report limit s _, rfl⟩
  · have hlt : s.depth < limit := UInt64.not_le.mp hle
    have hbelow : Traced.nested limit.toNat s.depth.toNat t = t (s.depth + 1).toNat := by
      rw [toNat_add_one hlt]
      exact if_neg (mt UInt64.le_iff_toNat_le.mpr hle)
    obtain ⟨s', hrun, hrestored, hevents⟩ := hx (s.move (s.depth + 1)) (add_one_le_of_lt hlt)
    simp only [hbelow]
    exact ⟨_, run_nested_of_lt hlt hrun hrestored.depth, hrestored.around hlt, hevents⟩

/-- An expression is reported one level below the counter. -/
theorem visited {x : Counting α} {t : Nat → Traced α} (op : Operation) (hx : Follows limit x t) :
    Follows limit
      (Counting.nested limit do
        Counting.report fun s => .visited op s.depth.toNat
        x)
      (fun level => Traced.nested limit.toNat level fun level => do
        emit (.visited op level)
        t level) :=
  .nested ((report _).bind fun _ => hx)

end Follows

/-! ### The two reductions are the same run -/

mutual

theorem reduce_follows (limit : UInt64) : (e : Expr) →
    Follows limit (reduce limit e) fun level => e.reduce limit.toNat level
  | .text _ | .constant _ => by
    unfold reduce Expr.reduce
    exact .visited _ (.pure _)
  | .number value => by
    unfold reduce Expr.reduce
    refine .visited _ ?_
    by_cases h : value.isFinite <;> simp only [h]
    · exact .pure _
    · exact .throw _
  | .field name => by
    unfold reduce Expr.reduce
    refine .visited _ ?_
    by_cases h : name.isEmpty = true <;> simp only [h]
    · exact .throw _
    · exact .pure _
  | .join es | .concatenate es | .arrayJoin es _ | .logical _ es => by
    unfold reduce Expr.reduce
    exact .visited _ (.nonEmpty_bind _ es (reduceEach_follows limit es) fun _ => .pure _)
  | .arrayJoinOf a _ | .unary _ a => by
    unfold reduce Expr.reduce
    exact .visited _ (.bind (reduce_follows limit a) fun _ => .pure _)
  | .count _ a b | .operator _ a b => by
    unfold reduce Expr.reduce
    exact .visited _ (.bind (reduce_follows limit a) fun _ =>
      .bind (reduce_follows limit b) fun _ => .pure _)
  | .mid a b c | .conditional a b c => by
    unfold reduce Expr.reduce
    exact .visited _ (.bind (reduce_follows limit a) fun _ =>
      .bind (reduce_follows limit b) fun _ => .bind (reduce_follows limit c) fun _ => .pure _)
  | .replace a b c d => by
    unfold reduce Expr.reduce
    exact .visited _ (.bind (reduce_follows limit a) fun _ =>
      .bind (reduce_follows limit b) fun _ => .bind (reduce_follows limit c) fun _ =>
      .bind (reduce_follows limit d) fun _ => .pure _)
  | .locate _ a b last => by
    unfold reduce Expr.reduce
    exact .visited _ (.bind (reduce_follows limit a) fun _ =>
      .bind (reduce_follows limit b) fun _ => .bind (reduceOption_follows limit last) fun _ => .pure _)
  | .substitute a b c last => by
    unfold reduce Expr.reduce
    exact .visited _ (.bind (reduce_follows limit a) fun _ =>
      .bind (reduce_follows limit b) fun _ => .bind (reduce_follows limit c) fun _ =>
      .bind (reduceOption_follows limit last) fun _ => .pure _)
  | .branch b => by
    unfold reduce Expr.reduce
    exact .visited _ (reduceBranch_follows limit b)
  | .switch a [] => by
    unfold reduce Expr.reduce
    exact .visited _ (.throw _)
  | .switch a (b :: bs) => by
    unfold reduce Expr.reduce
    exact .visited _ (.bind (reduce_follows limit a) fun _ =>
      .bind (reduceBranches_follows limit (b :: bs)) fun _ => .pure _)

theorem reduceBranch_follows (limit : UInt64) : (b : Branch) →
    Follows limit (reduceBranch limit b) fun level => b.reduce limit.toNat level
  | .when a b => by
    unfold reduceBranch Branch.reduce
    exact .bind (reduce_follows limit b) fun _ => .bind (reduce_follows limit a) fun _ => .pure _
  | .otherwise b => by
    unfold reduceBranch Branch.reduce
    exact .bind (reduce_follows limit b) fun _ => .pure _

theorem reduceEach_follows (limit : UInt64) : (es : List Expr) →
    Follows limit (reduceEach limit es) fun level => Expr.reduceAll limit.toNat level es
  | [] => by
    unfold reduceEach Expr.reduceAll
    exact .pure _
  | e :: es => by
    unfold reduceEach Expr.reduceAll
    exact .bind (reduce_follows limit e) fun _ => .bind (reduceEach_follows limit es) fun _ => .pure _

theorem reduceOption_follows (limit : UInt64) : (e? : Option Expr) →
    Follows limit (reduceOption limit e?) fun level => Expr.reduceOption limit.toNat level e?
  | none => by
    unfold reduceOption Expr.reduceOption
    exact .pure _
  | some e => by
    unfold reduceOption Expr.reduceOption
    exact .bind (reduce_follows limit e) fun _ => .pure _

theorem reduceBranches_follows (limit : UInt64) : (bs : List Branch) →
    Follows limit (reduceBranches limit bs) fun level => Expr.reduceBranches limit.toNat level bs
  | [] => by
    unfold reduceBranches Expr.reduceBranches
    exact .pure _
  | b :: bs => by
    unfold reduceBranches Expr.reduceBranches
    exact .bind (.nested (reduceBranch_follows limit b)) fun _ =>
      .bind (reduceBranches_follows limit bs) fun _ => .pure _

end

theorem Follows.result {x : Counting α} {t : Nat → Traced α} (hx : Follows limit x t) {s : Counter}
    (hs : s.depth ≤ limit) :
    ∃ s', x.run.run s = some ((t s.depth.toNat).result, s') ∧ s.Restored limit s' := by
  obtain ⟨s', hrun, hrestored, -⟩ := hx s hs
  exact ⟨s', hrun, hrestored⟩

/-- From every counter at a level, the steps have an outcome and the counter comes back. -/
def Restores (limit depth : UInt64) (x : Counting α) : Prop :=
  ∀ s : Counter, s.depth = depth → ∃ result s', x.run.run s = some (result, s') ∧ s.Restored limit s'

theorem Restores.nested {x : Counting α} {depth : UInt64}
    (hx : depth < limit → Restores limit (depth + 1) x) : Restores limit depth (nested limit x) := by
  rintro s rfl
  by_cases hle : limit ≤ s.depth
  · exact ⟨_, _, (run_nested limit x s).trans (if_pos hle), .report limit s _⟩
  · have hlt : s.depth < limit := UInt64.not_le.mp hle
    obtain ⟨result, s', hrun, hrestored⟩ := hx hlt (s.move (s.depth + 1)) rfl
    exact ⟨result, _, run_nested_of_lt hlt hrun hrestored.depth, hrestored.around hlt⟩

theorem Follows.restores {x : Counting α} {t : Nat → Traced α} {depth : UInt64}
    (hx : Follows limit x t) (h : depth ≤ limit) : Restores limit depth x := by
  rintro s rfl
  exact ⟨_, hx.result h⟩

/-- Reduction with a counter that stands within the limit, which may be any word. Whether the reduction
of an expression, of the arguments of an operation or of a branch of a `switch` succeeds or not, the
counter is back where it was, and in between it was there or deeper, within the limit; so it was raised
and lowered without leaving the range of a word. The same holds of whatever is nested, if it holds of that
one level deeper. The events are those of the reduction that is told its level, and the result is that
of a compilation by itself under what is left of the limit; so for an expression that follows something
that was reduced before it is the result that it has without. -/
theorem reduction_restores_counter {limit : UInt64} {s : Counter} (h : s.depth ≤ limit) :
    let alone (e : Expr) : Except CompileError String :=
      (e.compile (limit.toNat - s.depth.toNat)).mapError (.under limit.toNat)
    (∀ e, ∃ s', (reduce limit e).run.run s = some (alone e, s') ∧ s.Restored limit s' ∧
      s'.events = (e.reduce limit.toNat s.depth.toNat).events.reverse ++ s.events) ∧
    (∀ op es, ∃ s', (reduceAll limit op es).run.run s =
        some (if es.isEmpty then .error (.missing (.arguments op)) else es.mapM alone, s') ∧
      s.Restored limit s') ∧
    (∀ b, ∃ s', (nested limit (reduceBranch limit b)).run.run s = some (alone (.branch b), s') ∧
      s.Restored limit s') ∧
    (∀ body : Counting String, (s.depth < limit → Restores limit (s.depth + 1) body) →
      Restores limit s.depth (nested limit body)) ∧
    ∀ s' e, s.Restored limit s' →
      ((reduce limit e).run.run s').map Prod.fst = ((reduce limit e).run.run s).map Prod.fst := by
  intro alone
  have hlevel : s.depth.toNat ≤ limit.toNat := UInt64.le_iff_toNat_le.mp h
  refine ⟨fun e => ?_, fun op es => ?_, fun b => ?_, fun body => .nested, fun s' e hs' => ?_⟩
  · have hrun := reduce_follows limit e s h
    rwa [Expr.result_reduce hlevel] at hrun
  · have hrun := ((reduceEach_follows limit es).nonEmpty op es).result h
    rw [Traced.nonEmpty] at hrun
    cases es with
    | nil => exact hrun
    | cons e es =>
      rw [if_neg nofun, Expr.result_reduceAll hlevel] at hrun
      exact hrun
  · have hrun := (reduceBranch_follows limit b).nested.result h
    rwa [← Branch.reduceBelow, ← Expr.result_reduce_branch, Expr.result_reduce hlevel] at hrun
  · have hs : s'.depth ≤ limit := hs'.depth ▸ h
    obtain ⟨_, hrun, -⟩ := (reduce_follows limit e).result h
    obtain ⟨_, hrun', -⟩ := (reduce_follows limit e).result hs
    rw [hrun, hrun', hs'.depth]
    rfl

/-- A limit that the last branch exceeds: the counter is lowered on the way out of the failure too, and
what comes next does not notice it. -/
theorem restores_counter_switch :
    let s : Counter := ⟨1, [], []⟩
    let e : Expr := .switch (.field "p")
      [.when (.field "c") (.text "x"), .otherwise (.unary .not (.field "y"))]
    let next : Counting String := reduce 4 (.field "z")
    s.depth ≤ 4 ∧ e.compile 3 = .error (.tooDeep 3) ∧
      ((reduce 4 e).run.run s).map (fun r => r.2.past) = some [1, 2, 3, 4, 3, 2, 3, 4, 3, 4, 3, 2, 3, 2] ∧
      (∃ s', (reduce 4 e).run.run s = some (.error (.tooDeep 4), s') ∧ s.Restored 4 s' ∧
        s'.events = (e.reduce 4 1).events.reverse ++ []) ∧
      (∃ s', (reduceAll 4 .join [e]).run.run s = some (.error (.tooDeep 4), s') ∧ s.Restored 4 s' ∧
        (next.run.run s').map Prod.fst = (next.run.run s).map Prod.fst) ∧
      Restores 4 1 (nested 4 next) := by
  have h : (Counter.mk 1 [] []).depth ≤ 4 := by decide
  obtain ⟨hreduce, hall, -, hnested, hlocal⟩ := reduction_restores_counter h
  obtain ⟨s', hrun, hrestored⟩ := hall .join [_]
  have hnext : Restores 4 2 (reduce 4 (.field "z")) := (reduce_follows 4 _).restores (by decide)
  exact ⟨h, rfl, by decide +kernel, hreduce _, ⟨s', hrun, hrestored, hlocal s' _ hrestored⟩,
    hnested _ fun _ => hnext⟩

end Counting
end SheetFormula
