import Whittle.Proofs.Pipeline.Start

/-!
# Programs that are found for good

Tools are started in the work directory, so programs are looked up before that, from the directory
in which the run was started. What has been found at an absolute path is found again from everywhere
(`resolve_settles`). A single name is not, if the search ends in a directory that is itself given by
a relative path: then what is found depends on where one stands (`resolve_loses_program`).
-/

namespace Whittle

open Text Disk

/-! ## Looking from elsewhere -/

namespace Disk

/-- The disk as a process sees it that runs in a directory. -/
def seenFrom (d : Disk) (dir : Location) : Disk := { d with cwd := dir }

theorem walkNames_seenFrom (d : Disk) (dir : Location) (purpose : Purpose)
    (follow : Location → List String → Except Errno Location) (here : Location)
    (names : List String) :
    (d.seenFrom dir).walkNames purpose follow here names =
      d.walkNames purpose follow here names := by
  induction names generalizing here with
  | nil => rfl
  | cons name rest ih =>
    have hget (l : Location) : (d.seenFrom dir).get? l = d.get? l := rfl
    simp only [walkNames, ih, hget]

theorem walk_seenFrom (d : Disk) (dir : Location) (purpose : Purpose) (links : Nat)
    (here : Location) (names : List String) :
    (d.seenFrom dir).walk purpose links here names = d.walk purpose links here names := by
  induction links generalizing here names with
  | zero => exact walkNames_seenFrom d dir purpose _ here names
  | succ links ih =>
    rw [walk, walk, walkNames_seenFrom]
    congr 1
    funext here names
    exact ih here names

/-- An absolute path leads to the same place from everywhere. -/
theorem stat_seenFrom {d : Disk} {p : Path} (hp : p.isAbsolute = true) (dir : Location) :
    (d.seenFrom dir).stat p = d.stat p := by
  have hstart (d : Disk) : d.startOf p.text = [] := if_pos hp
  have hlocate : (d.seenFrom dir).locate .target p = d.locate .target p := by
    simp only [locate, hstart, walk_seenFrom]
  simp only [stat, hlocate]
  rfl

/-- The file that a path leads to. -/
def fileAt (d : Disk) (p : Path) : Option Location :=
  match d.stat p with
  | .ok (place, .file ..) => some place
  | _ => none

theorem isFile_eq_fileAt (d : Disk) (p : Path) : d.isFile p = (d.fileAt p).isSome := by
  unfold isFile fileAt
  split
  · rename_i n h
    cases n <;> simp [h, Node.isFile]
  · rename_i h
    simp [h]

theorem fileAt_seenFrom {d : Disk} {p : Path} (hp : p.isAbsolute = true) (dir : Location) :
    (d.seenFrom dir).fileAt p = d.fileAt p := by
  simp only [fileAt, stat_seenFrom hp]

end Disk

/-- What is looked up from a relative directory is found at a relative path. -/
theorem Path.isAbsolute_join_relative {dir p : Path} (hdir : dir.isAbsolute = false)
    (hp : p.isAbsolute = false) : (dir.join p).isAbsolute = false := by
  have hfront {t : String} (h : dir.text ≠ "") : (Path.mk (dir.text ++ t)).isAbsolute = false := by
    have hne : dir.text.toList ≠ [] := fun e => h (String.toList_eq_nil_iff.mp e)
    obtain ⟨c, cs, hcs⟩ := List.exists_cons_of_ne_nil hne
    simp only [isAbsolute, hcs, String.toList_append, List.cons_append, List.head?_cons] at hdir ⊢
    exact hdir
  unfold join
  rw [if_neg (Bool.eq_false_iff.mp hp)]
  split
  · by_cases hempty : dir.text = ""
    · rw [hempty, String.empty_append]
      exact hp
    · exact hfront hempty
  · rename_i h
    show (Path.mk (dir.text ++ "/" ++ p.text)).isAbsolute = false
    rw [String.append_assoc]
    exact hfront fun e => h (.inl e)

namespace Toolchain

/-! ## What is found -/

section

variable (searchPath : Option (List Path)) (d : Disk)

/-- If the search finds a single name, then in a directory that is given from the root. -/
def Anchored (program : Path) : Prop :=
  program.isAbsolute = false → program.parts.length ≤ 1 →
    ((searchPath.getD []).find? fun dir => d.isFile (dir.join program)).all Path.isAbsolute = true

instance (program : Path) : Decidable (Anchored searchPath d program) :=
  inferInstanceAs (Decidable (_ = false → _ ≤ 1 → Option.all Path.isAbsolute _ = true))

/-- The file that runs if a program is started in a directory: with a slash in it a path is looked
up from there, and a single name in the directories of the search path. -/
def started (dir : Location) (program : Path) : Option Location :=
  if '/' ∈ program.text.toList then (d.seenFrom dir).fileAt program
  else (searchPath.getD [⟨"/bin"⟩, ⟨"/usr/bin"⟩]).findSome? fun p =>
    (d.seenFrom dir).fileAt (p.join program)

end

section

variable {searchPath : Option (List Path)} {d : Disk} {base program found : Path}

theorem locate_absolute (h : program.isAbsolute = true) (hfile : d.isFile program = true) :
    locate searchPath d base program = some program := by
  unfold locate
  rw [if_pos h, if_pos hfile]

theorem started_absolute (h : program.isAbsolute = true) (dir : Location) :
    started searchPath d dir program = d.fileAt program := by
  have hslash : '/' ∈ program.text.toList := List.mem_of_head? (of_decide_eq_true h)
  rw [started, if_pos hslash, fileAt_seenFrom h]

theorem isFile_of_locate (h : locate searchPath d base program = some found) :
    d.isFile found = true := by
  unfold locate at h
  split at h
  · split at h
    · cases h
      assumption
    · cases h
  · split at h
    · split at h
      · cases h
        assumption
      · cases h
    · split at h
      · cases h
      · exact List.find?_some h

/-- What is found is found at an absolute path, unless the search ends in a relative directory. -/
theorem anchored_iff (hbase : base.isAbsolute = true) : Anchored searchPath d program ↔
    ∀ found, locate searchPath d base program = some found → found.isAbsolute = true := by
  unfold Anchored locate
  cases hp : program.isAbsolute with
  | true =>
    rw [if_pos rfl]
    refine iff_of_true (fun h => nomatch h) fun found h => ?_
    split at h
    · cases h
      exact hp
    · cases h
  | false =>
    rw [if_neg Bool.false_ne_true]
    by_cases hparts : program.parts.length > 1
    · rw [if_pos hparts]
      refine iff_of_true (fun _ hsingle => absurd hsingle (by omega)) fun found h => ?_
      split at h
      · cases h
        exact Path.isAbsolute_join hbase
      · cases h
    · rw [if_neg hparts]
      cases searchPath with
      | none => exact iff_of_true (fun _ _ => rfl) fun found h => nomatch h
      | some dirs =>
        dsimp only [Option.getD_some]
        rw [List.find?_map, Function.comp_def]
        cases dirs.find? fun dir => d.isFile (dir.join program) with
        | none => exact iff_of_true (fun _ _ => rfl) fun found h => nomatch h
        | some dir =>
          have hjoin : (dir.join program).isAbsolute = dir.isAbsolute := by
            cases hdir : dir.isAbsolute with
            | true => exact Path.isAbsolute_join hdir
            | false => exact Path.isAbsolute_join_relative hdir hp
          simp only [Option.all_some, Option.map_some, Option.some.injEq, forall_eq', hjoin]
          exact ⟨fun h => h trivial (by omega), fun h _ _ => h⟩

end

theorem mapPrograms_eq_self {f : Path → Path} {t : Toolchain}
    (h : ∀ role, f (t.program role) = t.program role) : t.mapPrograms f = t := by
  have h₁ := h .variableExtractor
  have h₂ := h .sliceExtractor
  have h₃ := h .staticSlicer
  have h₄ := h .dynamicSlicer
  have h₅ := h .graphReducer
  have h₆ := h .statementReducer
  have h₇ := h .containerRuntime
  dsimp only [program] at h₁ h₂ h₃ h₄ h₅ h₆ h₇
  simp only [mapPrograms, h₁, h₂, h₃, h₄, h₅, h₆, h₇]

theorem resolve_program (searchPath : Option (List Path)) (d : Disk) (base : Path) (t : Toolchain)
    (role : Role) : (t.resolve searchPath d base).program role =
      (locate searchPath d base (t.program role)).getD (t.program role) :=
  program_mapPrograms _ t role

/-- A program of a resolved toolchain is a file at an absolute path, or it is as it was and is not
found: this is so exactly if the search for it does not end in a relative directory. Then a program
that is found is found from everywhere, and is the same file wherever it is started. If it is so of
all programs, resolving again changes nothing. -/
theorem resolve_settles {searchPath : Option (List Path)} {d : Disk} {base : Path}
    (hbase : base.isAbsolute = true) (t : Toolchain) :
    let resolved := t.resolve searchPath d base
    (∀ role, Anchored searchPath d (t.program role) ↔
      (resolved.program role).isAbsolute = true ∧ d.isFile (resolved.program role) = true ∨
        resolved.program role = t.program role ∧
          locate searchPath d base (t.program role) = none) ∧
    (∀ role found, Anchored searchPath d (t.program role) →
      locate searchPath d base (resolved.program role) = some found →
        found = resolved.program role ∧ (∀ dir, locate searchPath d dir found = some found) ∧
        ∃ place, d.fileAt found = some place ∧
          ∀ dir, started searchPath d dir found = some place) ∧
    ((∀ role, Anchored searchPath d (t.program role)) →
      resolved.resolve searchPath d base = resolved) := by
  intro resolved
  have hiff (role : Role) : Anchored searchPath d (t.program role) ↔
      (resolved.program role).isAbsolute = true ∧ d.isFile (resolved.program role) = true ∨
        resolved.program role = t.program role ∧
          locate searchPath d base (t.program role) = none := by
    rw [anchored_iff hbase, resolve_program]
    cases h : locate searchPath d base (t.program role) with
    | none => simp
    | some found => simp [isFile_of_locate h]
  refine ⟨hiff, fun role found hsearch hfound => ?_,
    fun hsearch => mapPrograms_eq_self fun role => ?_⟩
  · rcases (hiff role).mp hsearch with ⟨habsolute, hfile⟩ | ⟨hsame, hnone⟩
    · rw [locate_absolute habsolute hfile] at hfound
      cases hfound
      obtain ⟨place, hplace⟩ := Option.isSome_iff_exists.mp (isFile_eq_fileAt d _ ▸ hfile)
      exact ⟨rfl, fun dir => locate_absolute habsolute hfile, place, hplace,
        fun dir => (started_absolute habsolute dir).trans hplace⟩
    · rw [hsame, hnone] at hfound
      cases hfound
  · rcases (hiff role).mp (hsearch role) with ⟨habsolute, hfile⟩ | ⟨hsame, hnone⟩
    · rw [locate_absolute habsolute hfile, Option.getD_some]
    · rw [hsame, hnone, Option.getD_none]

/-- A home directory with programs in it, and programs of the system. -/
def sampleHome : Disk where
  entries :=
    [(["home"], .dir), (["home", "bin"], .dir),
      (["home", "bin", "NaiveReduction"], .file 0 ByteArray.empty true),
      (["usr"], .dir), (["usr", "docker"], .file 1 ByteArray.empty true), (["work"], .dir)]
  cwd := ["home"]
  nextId := 2
  locked := []

def sampleSearch : Option (List Path) := some [⟨""⟩, ⟨"bin"⟩, ⟨"/usr"⟩]

/-- The statement reducer is looked up from home, the container runtime is found in the last
directory of the search path, and the other programs are not found. -/
def sampleTools : Toolchain where
  statementReducer := ⟨"bin/NaiveReduction"⟩

theorem resolve_settles_sample :
    (Path.mk "/home").isAbsolute = true ∧
    (∀ role, Anchored sampleSearch sampleHome (sampleTools.program role)) ∧
    let tools := sampleTools.resolve sampleSearch sampleHome ⟨"/home"⟩
    tools.resolve sampleSearch sampleHome ⟨"/home"⟩ = tools ∧
      tools.statementReducer = ⟨"/home/bin/NaiveReduction"⟩ ∧
      tools.containerRuntime = ⟨"/usr/docker"⟩ ∧
      ∃ place, sampleHome.fileAt ⟨"/usr/docker"⟩ = some place ∧
        ∀ dir, started sampleSearch sampleHome dir ⟨"/usr/docker"⟩ = some place := by
  have hsearch : ∀ role, Anchored sampleSearch sampleHome (sampleTools.program role) := by
    intro role
    cases role <;> decide +kernel
  have hbase : (Path.mk "/home").isAbsolute = true := by decide
  obtain ⟨-, hfound, hagain⟩ := resolve_settles hbase sampleTools
  have hdocker := (hfound .containerRuntime ⟨"/usr/docker"⟩ (hsearch _) (by decide +kernel)).2.2
  exact ⟨hbase, hsearch, hagain hsearch, by decide +kernel, by decide +kernel, hdocker⟩

/-- A single name that is found in a relative directory is replaced by a relative path. The check
accepts it, resolving again would change it, and started in the work directory it is not there. -/
theorem resolve_loses_program :
    let tools := Toolchain.default.resolve (some [⟨"bin"⟩]) sampleHome ⟨"/home"⟩
    tools.statementReducer = ⟨"bin/NaiveReduction"⟩ ∧
    (tools.resolve (some [⟨"bin"⟩]) sampleHome ⟨"/home"⟩).statementReducer =
      ⟨"/home/bin/NaiveReduction"⟩ ∧
    locate (some [⟨"bin"⟩]) sampleHome ⟨"/home"⟩ tools.statementReducer =
      some ⟨"/home/bin/NaiveReduction"⟩ ∧
    started (some [⟨"bin"⟩]) sampleHome ["home"] tools.statementReducer =
      some ["home", "bin", "NaiveReduction"] ∧
    started (some [⟨"bin"⟩]) sampleHome ["work"] tools.statementReducer = none := by
  decide +kernel

end Toolchain

end Whittle
