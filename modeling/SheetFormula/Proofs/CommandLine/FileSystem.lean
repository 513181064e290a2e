import Mathlib.Data.List.Infix
import SheetFormula.CommandLine.FileSystem

/-! Paths to files. The names of a file from the root, with a slash before each of them, are a path to it, and
so are its names from the working directory on, with slashes between them. Reading from such a path gives
what is in the file (`FileSystem.IsPathOf.read`), and writing to it goes to the file, or makes it
(`FileSystem.IsPathOf.target`). -/

namespace SheetFormula
namespace CommandLine

/-- Whether a part of a path stands for itself and can be the name of a file. -/
def IsName (name : String) : Prop :=
  name ≠ "" ∧ name ≠ "." ∧ name ≠ ".." ∧ '/' ∉ name.toList ∧ name.utf8ByteSize ≤ nameLimit

instance : DecidablePred IsName := fun _ => inferInstanceAs (Decidable (_ ∧ _))

/-! ### The parts of a path -/

theorem parts_intercalate {names : List String} (hne : names ≠ []) (hnames : ∀ name ∈ names, IsName name) :
    parts ("/".intercalate names) = names := by
  have hslash : "/".toList = ['/'] := rfl
  have hnoSlash : ∀ name ∈ names, '/' ∉ name.toList := fun name hname => (hnames name hname).2.2.2.1
  have hsplit : (['/'].intercalate (names.map String.toList)).splitOn '/' = names.map String.toList :=
    List.splitOn_intercalate '/' (List.forall_mem_map.mpr hnoSlash) (by simpa using hne)
  rw [parts, String.toList_intercalate, hslash, hsplit, List.map_map]
  exact List.map_id'' (fun name => String.ofList_toList) names

theorem parts_slash_append (path : String) : parts ("/" ++ path) = "" :: parts path := by
  have hslash : ("/" ++ path).toList = '/' :: path.toList := String.toList_append
  rw [parts, hslash, List.splitOn_cons_eq_if_modifyHead]
  rfl

theorem parentOfSlashed?_eq_none {path : String} {names : List String} (before : List String)
    (hne : names ≠ []) (hnames : ∀ name ∈ names, IsName name) (hparts : parts path = before ++ names) :
    parentOfSlashed? path = none := by
  have hlast : names.getLast hne ≠ "" := (hnames _ (List.getLast_mem hne)).1
  rw [parentOfSlashed?, hparts, ← List.dropLast_append_getLast hne, ← List.append_assoc, List.reverse_append]
  simp [hlast]

namespace FileSystem

variable {fs : FileSystem} {path : String} {names : List String} {contents : ByteArray}

/-! ### Following names -/

theorem isDirectory_iff : fs.isDirectory names = true ↔
    (∃ directory ∈ fs.working :: fs.directories, names <+: directory) ∨
      ∃ file ∈ Device.table.map (·.1) ++ fs.files.map (·.1), names <+: file ∧ names ≠ file := by
  simp only [isDirectory, Bool.or_eq_true, List.any_eq_true, List.isPrefixOf_iff_prefix,
    Bool.and_eq_true, bne_iff_ne]

/-- What a directory is in is a directory. -/
theorem isDirectory_of_append {above below : List String} (h : fs.isDirectory (above ++ below) = true) :
    fs.isDirectory above = true := by
  have habove : above <+: above ++ below := List.prefix_append above below
  rw [isDirectory_iff] at h ⊢
  rcases h with ⟨directory, hmem, hinto⟩ | ⟨file, hmem, hinto, hne⟩
  · exact Or.inl ⟨directory, hmem, habove.trans hinto⟩
  · refine Or.inr ⟨file, hmem, habove.trans hinto, ?_⟩
    rintro rfl
    exact hne (hinto.eq_of_length_le habove.length_le)

theorem follow_names {start names : List String} (hnames : ∀ name ∈ names, IsName name)
    (hparent : fs.isDirectory (start ++ names.dropLast) = true) :
    fs.follow start names = .ok (start ++ names) := by
  induction names generalizing start with
  | nil => rw [follow, List.append_nil]
  | cons name rest ih =>
      obtain ⟨⟨hempty, hhere, habove, -, hlength⟩, hrest⟩ := List.forall_mem_cons.mp hnames
      have hstart : fs.entryAt? start = some .directory := if_pos (isDirectory_of_append hparent)
      have hstep : fs.follow start (name :: rest) = fs.follow (start ++ [name]) rest := by
        rw [follow, hstart]
        simp [hempty, hhere, habove, Nat.not_lt.mpr hlength]
      rw [hstep]
      cases rest with
      | nil => rw [follow]
      | cons next rest =>
          rw [List.dropLast_cons_cons, List.append_cons] at hparent
          rw [ih hrest hparent, ← List.append_cons]

/-! ### Paths of names -/

/-- The two paths of names to a place in the system. -/
inductive PathTo (fs : FileSystem) : String → List String → Prop where
  | fromRoot {names : List String} (hne : names ≠ []) (hnames : ∀ name ∈ names, IsName name) :
    PathTo fs ("/" ++ "/".intercalate names) names
  | fromWorking {names : List String} (hne : names ≠ []) (hnames : ∀ name ∈ names, IsName name) :
    PathTo fs ("/".intercalate names) (fs.working ++ names)

theorem PathTo.resolve (h : fs.PathTo path names) (hparent : fs.isDirectory names.dropLast = true) :
    fs.resolve (parts path) = .ok names := by
  cases h with
  | fromRoot hne hnames =>
      rw [parts_slash_append, parts_intercalate hne hnames]
      exact follow_names hnames hparent
  | @fromWorking names hne hnames =>
      rw [List.dropLast_append_of_ne_nil hne] at hparent
      obtain ⟨name, rest, rfl⟩ := List.exists_cons_of_ne_nil hne
      have hname : name ≠ "" := (hnames name List.mem_cons_self).1
      rw [parts_intercalate hne hnames, FileSystem.resolve]
      · exact follow_names hnames hparent
      · rintro rest' ⟨⟩
        exact hname rfl

theorem PathTo.parentOfSlashed? (h : fs.PathTo path names) : parentOfSlashed? path = none := by
  cases h with
  | fromRoot hne hnames =>
      have hparts := (parts_slash_append _).trans (congrArg _ (parts_intercalate hne hnames))
      exact parentOfSlashed?_eq_none [""] hne hnames hparts
  | fromWorking hne hnames => exact parentOfSlashed?_eq_none [] hne hnames (parts_intercalate hne hnames)

/-- Whether a path leads to a file of these names, which is there or can be made. -/
structure IsPathOf (fs : FileSystem) (path : String) (names : List String) : Prop where
  leads : fs.PathTo path names
  length : path.utf8ByteSize ≤ pathLimit
  parent : fs.isDirectory names.dropLast = true
  notDirectory : fs.isDirectory names = false
  notDevice : Device.ofNames? names = none

namespace IsPathOf

theorem checkLength (h : fs.IsPathOf path names) : checkLength path = .ok () := if_neg (Nat.not_lt.mpr h.length)

theorem entryAt? (h : fs.IsPathOf path names) : fs.entryAt? names = (fs.contents? names).map .file := by
  rw [FileSystem.entryAt?, if_neg (by simp [h.notDirectory]), h.notDevice]

theorem read (h : fs.IsPathOf path names) (hcontents : fs.contents? names = some contents)
    (stdin : ByteArray) : fs.read stdin path = .ok contents := by
  simp only [FileSystem.read, h.checkLength, h.leads.resolve h.parent, bind, Except.bind, h.entryAt?,
    hcontents, Option.map_some]

theorem target (h : fs.IsPathOf path names) : fs.target path = .ok (.file names) := by
  simp only [FileSystem.target, h.checkLength, h.leads.resolve h.parent, h.leads.parentOfSlashed?, bind,
    Except.bind, h.entryAt?]
  cases fs.contents? names <;> rfl

end IsPathOf

end FileSystem
end CommandLine
end SheetFormula
