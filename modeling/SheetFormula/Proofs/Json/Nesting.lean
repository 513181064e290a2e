import SheetFormula.Json.Reader
import SheetFormula.Proofs.Json.Numeral

/-! How deep the values that are read can be nested. The reader keeps the arrays and objects that are open
in frames, and opens no frame past the limit. So what a frame holds is nested no deeper than the frames
around it leave room for; every token keeps this (`State.sound_of_step_eq_ok`), and with it the whole run
(`State.within_of_run_eq_ok`). -/

namespace SheetFormula
namespace Json

/-- Values with at most `n` arrays and objects around any place in them, and with finite numbers only. -/
inductive Within : Nat → Json → Prop where
  | null {n : Nat} : Within n null
  | bool {n : Nat} {b : Bool} : Within n (bool b)
  | number {n : Nat} {value : Binary64} (finite : value.isFinite = true) : Within n (number value)
  | string {n : Nat} {value : String} : Within n (string value)
  | array {n : Nat} {items : List Json} (items_within : ∀ v ∈ items, Within n v) :
      Within (n + 1) (array items)
  | object {n : Nat} {members : List (String × Json)} (members_within : ∀ m ∈ members, Within n m.2) :
      Within (n + 1) (object members)

theorem Within.isFinite {n : Nat} {value : Binary64} (h : Within n (.number value)) :
    value.isFinite = true := by
  cases h with
  | number finite => exact finite

theorem Within.items {n : Nat} {items : List Json} (h : Within n (.array items)) :
    ∃ m, n = m + 1 ∧ ∀ v ∈ items, v.Within m := by
  cases h with
  | array items_within => exact ⟨_, rfl, items_within⟩

theorem Within.members {n : Nat} {members : List (String × Json)} (h : Within n (.object members)) :
    ∃ m, n = m + 1 ∧ ∀ x ∈ members, x.2.Within m := by
  cases h with
  | object members_within => exact ⟨_, rfl, members_within⟩

/-! ### Tokens -/

/-- Whether a token, if it is a value by itself, is one that may stand anywhere. -/
def Token.Sound : Token → Prop
  | scalar (.ok v) => ∀ n, v.Within n
  | _ => True

theorem sound_wordToken {word rest : List Char} {v : Json} (h : ∀ n, v.Within n) :
    (wordToken word v rest).1.Sound := by
  rw [wordToken]
  cases readWord word rest with
  | error f => trivial
  | ok _ => exact h

theorem sound_lex (c : Char) (rest : List Char) : (lex c rest).1.Sound := by
  unfold lex
  split
  -- The brackets, the comma and the colon come first.
  iterate 6 trivial
  · split <;> trivial
  · exact sound_wordToken fun _ => .null
  · exact sound_wordToken fun _ => .bool
  · exact sound_wordToken fun _ => .bool
  · split
    · split
      next hread => exact fun _ => .number (isFinite_of_readNumber hread)
      next => trivial
    · trivial

theorem sound_of_mem_scan {skip : Nat} {s : List Char} {l : Lexeme} (h : l ∈ scan skip s) :
    l.token.Sound := by
  fun_induction scan skip s with
  | case1 => cases h
  | case2 n c rest ih => exact ih h
  | case3 c rest hblank ih => exact ih h
  | case4 c rest hblank token width hlex ih =>
      rcases List.mem_cons.mp h with rfl | h
      · have hsound := sound_lex c rest
        rwa [hlex] at hsound
      · split at h
        · cases h
        · exact ih h

/-! ### Frames -/

/-- The values that a frame holds. -/
def Frame.values : Frame → List Json
  | array items => items
  | object members _ => members.map Prod.snd

/-- How many arrays and objects may be open inside of the given frames. -/
def room (frames : List Frame) : Nat := nestingLimit - frames.length

/-- Frames that are not too many, each with values for which there is room. -/
inductive Open : List Frame → Prop where
  | nil : Open []
  | cons {frame : Frame} {frames : List Frame} (permitted : frames.length < nestingLimit)
      (values_within : ∀ v ∈ frame.values, v.Within (room (frame :: frames))) (outer : Open frames) :
      Open (frame :: frames)

theorem room_eq_succ {frames : List Frame} (h : frames.length < nestingLimit) (frame : Frame) :
    room frames = room (frame :: frames) + 1 := by
  rw [room, room, List.length_cons]
  omega

theorem room_of_succ {frames : List Frame} {m : Nat} (h : room frames = m + 1) :
    frames.length < nestingLimit ∧ ∀ frame, m = room (frame :: frames) := by
  have hopen : frames.length < nestingLimit := by
    rw [room] at h
    omega
  refine ⟨hopen, fun frame => ?_⟩
  have hroom := room_eq_succ hopen frame
  omega

theorem Within.room_items {items : List Json} {frames : List Frame}
    (h : Within (room frames) (.array items)) :
    frames.length < nestingLimit ∧ ∀ frame, ∀ v ∈ items, v.Within (room (frame :: frames)) := by
  obtain ⟨m, hm, hitems⟩ := h.items
  obtain ⟨hopen, hroom⟩ := room_of_succ hm
  exact ⟨hopen, fun frame => hroom frame ▸ hitems⟩

theorem Within.room_members {members : List (String × Json)} {frames : List Frame}
    (h : Within (room frames) (.object members)) :
    frames.length < nestingLimit ∧ ∀ frame, ∀ m ∈ members, m.2.Within (room (frame :: frames)) := by
  obtain ⟨m, hm, hmembers⟩ := h.members
  obtain ⟨hopen, hroom⟩ := room_of_succ hm
  exact ⟨hopen, fun frame => hroom frame ▸ hmembers⟩

/-- The frames of a state, with the array or object that its next token belongs to. A key that is not
read yet is empty. -/
def State.frames : State → List Frame
  | value frames => frames
  | firstItem frames => .array [] :: frames
  | item items frames | afterItem items frames => .array items :: frames
  | firstKey frames => .object [] "" :: frames
  | key members frames | afterMember members frames => .object members "" :: frames
  | colon members name frames => .object members name :: frames

/-- Whether the frames of the next state are open, or else the whole value is within the limit. -/
def Outcome.Sound : Outcome → Prop
  | .inl s => Open s.frames
  | .inr v => v.Within nestingLimit

theorem sound_complete {v : Json} {frames : List Frame} (hv : v.Within (room frames))
    (h : Open frames) : (complete v frames).Sound := by
  cases h with
  | nil => exact hv
  | @cons frame frames permitted values_within outer =>
      cases frame with
      | array items => exact .cons permitted (List.forall_mem_cons.mpr ⟨hv, values_within⟩) outer
      | object members key => exact .cons permitted (List.forall_mem_cons.mpr ⟨hv, values_within⟩) outer

theorem sound_complete_array {items : List Json} {frames : List Frame}
    (h : Open (.array items :: frames)) : (complete (.array items.reverse) frames).Sound := by
  cases h with
  | cons permitted values_within outer =>
      refine sound_complete ?_ outer
      rw [room_eq_succ permitted]
      exact .array fun v hv => values_within v (List.mem_reverse.mp hv)

theorem sound_complete_object {members : List (String × Json)} {key : String} {frames : List Frame}
    (h : Open (.object members key :: frames)) :
    (complete (.object members.reverse) frames).Sound := by
  cases h with
  | cons permitted values_within outer =>
      refine sound_complete ?_ outer
      rw [room_eq_succ permitted]
      exact .object fun m hm => values_within m.2 (List.mem_map_of_mem (List.mem_reverse.mp hm))

theorem sound_openFrame {l : Lexeme} {frames : List Frame} {frame : Frame} {next : State} {o : Outcome}
    (h : Open frames) (hframes : next.frames = frame :: frames) (hempty : frame.values = [])
    (ho : openFrame l frames next = .ok o) : o.Sound := by
  rw [openFrame] at ho
  split at ho <;> cases ho
  next permitted =>
    show Open next.frames
    rw [hframes]
    refine .cons permitted (fun v hv => ?_) h
    rw [hempty] at hv
    cases hv

theorem sound_beginValue {l : Lexeme} {frames : List Frame} {o : Outcome} (hl : l.token.Sound)
    (h : Open frames) (ho : beginValue l frames = .ok o) : o.Sound := by
  unfold beginValue at ho
  split at ho
  next => exact sound_openFrame h rfl rfl ho
  next => exact sound_openFrame h rfl rfl ho
  next content _ =>
    cases content <;> cases ho
    exact sound_complete .string h
  next value htoken =>
    rw [htoken] at hl
    cases value <;> cases ho
    exact sound_complete (hl _) h
  next => cases ho

theorem sound_beginMember {l : Lexeme} {members : List (String × Json)} {frames : List Frame}
    {o : Outcome} (h : Open (.object members "" :: frames))
    (ho : beginMember l members frames = .ok o) : o.Sound := by
  unfold beginMember at ho
  split at ho
  next content _ =>
    cases content <;> cases ho
    cases h with
    | cons permitted values_within outer => exact .cons permitted values_within outer
  next => cases ho

/-! ### Runs -/

/-- What a token keeps: the frames stay open, or a value within the limit is complete. -/
theorem State.sound_of_step_eq_ok {s : State} {l : Lexeme} {o : Outcome} (hl : l.token.Sound)
    (hs : Open s.frames) (h : s.step l = .ok o) : o.Sound := by
  unfold step at h
  split at h
  · exact sound_beginValue hl hs h
  -- Between brackets: an item is read inside of the array, and a bracket completes it.
  · cases h
    exact sound_complete_array hs
  · exact sound_beginValue hl hs h
  · cases h
  · exact sound_beginValue hl hs h
  · cases h
    exact hs
  · cases h
    exact sound_complete_array hs
  · cases h
  -- Between braces: the frame of the object is there before its first key.
  · cases h
    exact sound_complete_object hs
  · exact sound_beginMember hs h
  · cases h
  · exact sound_beginMember hs h
  · cases h
    exact hs
  · cases h
  · cases h
    exact hs
  · cases h
    exact sound_complete_object hs
  · cases h

theorem State.within_of_run_eq_ok {s : State} {ls rest : List Lexeme} {v : Json}
    (hls : ∀ l ∈ ls, l.token.Sound) (hs : Open s.frames) (h : s.run ls = .ok (v, rest)) :
    v.Within nestingLimit := by
  induction ls generalizing s with
  | nil => cases h
  | cons l ls ih =>
      obtain ⟨hl, hls⟩ := List.forall_mem_cons.mp hls
      rw [run] at h
      split at h
      next next hstep => exact ih hls (sound_of_step_eq_ok hl hs hstep) h
      next hstep =>
        cases h
        exact sound_of_step_eq_ok hl hs hstep
      next => cases h

/-- A value that is read is nested within the limit, and its numbers are finite. -/
theorem within_of_read_eq_ok {s : List Char} {v : Json} {rest : List Lexeme}
    (h : read s = .ok (v, rest)) : v.Within nestingLimit :=
  State.within_of_run_eq_ok (fun _ => sound_of_mem_scan) (show Open (State.value []).frames from .nil) h

end Json
end SheetFormula
