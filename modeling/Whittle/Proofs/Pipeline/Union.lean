import Whittle.Proofs.Pipeline.Adoption
import Whittle.Proofs.Pipeline.Courses
import Whittle.Proofs.Slice.Union

/-!
# The union of the slices

A pass makes one file of all its slices and hands it to the slice extractor, with one call. If there
is no line in any slice there is no such call (`Bench.Ending`).
-/

namespace Whittle.Pipeline

open Text Disk Slice Insertion

/-- The lines of the program that were kept in turns, ascending. -/
def kept (g : Given) (turns : List Turn) : List Nat :=
  ascending (turns.filterMap (Turn.slice g)).flatten

namespace Bench

variable {b : Bench}

/-- The file of the union. -/
def union (b : Bench) : Location := b.root ++ [Artifacts.unionFile]

/-- The call of the slice extractor. -/
def cutting (b : Bench) (d : Disk) : Call :=
  let command := cutCommand b.settings b.subject (pathOf b.union)
  ⟨command.program, command.argv, pathOf b.root, d⟩

/-- How a pass that has all slices ends, with the lines that were kept: it fails without a call if
there are none, and otherwise the extractor finds them in the file of the union. -/
inductive Ending (b : Bench) (ns : List Nat) (before calls : List Call) (r : Except Fault Subject) :
    Prop
  | empty {e : Fault} (hns : ns = []) (hcalls : calls = before) (hr : r = .error e)
    (hkind : e.kind = .unification) : Ending b ns before calls r
  | handed {d : Disk} (hns : ns ≠ [])
    (hunion : d.readText (pathOf b.union) = .ok (writeLineNumbers ns))
    (hcalls : calls = before ++ [b.cutting d]) : Ending b ns before calls r

/-! ## Slices that are stored -/

theorem slice_ne_union (b : Bench) (i : Nat) : b.slice i ≠ b.union := by
  simpa [slice, union] using b.sliceName_ne i (by decide) (by decide)

section

variable {d d' : Disk} {files : List Path} {slices : List (List Nat)}

theorem Stores.edits (h : b.Stores d files slices) {T : Location → Prop}
    (hT : ∀ i < b.count, ∀ P, T P → ¬ P <+: b.slice i) (hedits : b.Edits T d d') :
    b.Stores d' files slices := by
  refine List.Forall₂.imp (fun file ns hstored => ?_) h
  obtain ⟨hlines, i, hi, hfile, id, x, hn⟩ := hstored
  exact ⟨hlines, i, hi, hfile, id, x, hedits.keeps (hT i hi) hn⟩

theorem Stores.hold (hfits : b.Fits) (hready : b.Ready d) (h : b.Stores d files slices) :
    Hold d files slices := by
  refine List.Forall₂.imp (fun file ns hstored => ?_) h
  obtain ⟨hlines, i, hi, rfl, id, x, hn⟩ := hstored
  exact ⟨readText_of_file (hready.file hfits (.slice hi)) hn (fromUTF8?_toUTF8 _), hlines⟩

end

/-! ## All slices -/

section

variable (hfits : b.Fits) {host : Host} (hhost : b.Behaves host) {source : String}
  (hline : 1 ≤ b.subject.failureLine) (hle : b.subject.failureLine ≤ lineCount source)
  {cs : List Criterion} (hcount : cs.length ≤ b.count) {site : Site}
  (hroot : site.workspace.root = pathOf b.root) (hready : b.Ready site.world.disk)
  (hsourced : b.Sourced source site.world.disk)
include hfits hhost hline hle hcount hroot hready hsourced

theorem dynamicSlices_outcome (hp : b.pass = .dynamic) :
    ∃ r s' done turns, Pass.dynamicSlices host b.settings b.subject cs site = (r, s') ∧
      b.Outcome host (b.pass.given b.settings b.subject source cs) (b.Blocked site.world.disk)
        b.Uses 0 cs site r s' done turns := by
  cases cs with
  | nil => exact ⟨.ok [], site, [], [], rfl, .none⟩
  | cons c cs =>
    have hcount : 0 + (c :: cs).length ≤ b.count := by rwa [Nat.zero_add]
    have hi : 0 < b.count := Nat.lt_of_lt_of_le (Nat.succ_pos _) (Nat.zero_add _ ▸ hcount)
    have hname : b.inputName 0 = "dynamic_input." ++ b.subject.extension := by
      simp only [inputName, hp]
    obtain ⟨o, k, content, x, htext, hfound⟩ := hsourced
    have hread : site.world.disk.readText b.subject.source = .ok source := by
      have hread : site.world.disk.read b.subject.source = .ok content := by
        rw [Disk.read, hfound _ (.refl _)]
      rw [readText, hread]
      simp only [htext]
    obtain ⟨text, guard, hguard⟩ : ∃ text guard, guardSource b.subject.language source
        b.subject.failureLine (c :: cs) = .ok (text, guard) :=
      ⟨_, _, guardSource_eq_ok hline hle⟩
    -- the copy that all criteria share
    have hinput : b.Uses (b.input 0) := .file (.input hi)
    have hhandy : site.world.disk.Handy (b.input 0) := hready.file hfits (.input hi)
    obtain ⟨s₁, hprepare, hsets⟩ := prepareOutput_ok hhandy (hready.path hroot (.input hi))
      .dynamicSlice (hready.free _ hinput)
    have hnone := hsets.alters.self
    obtain ⟨d, k', x', hwrite, hcwd, halters⟩ :=
      (hsets.handy hhandy fun _ => rfl).write (.inl hnone) text.toUTF8 false
    let s₂ : Site := { s₁ with world := { s₁.world with disk := d } }
    have hwritten : (liftM (Action.change (·.writeText (pathOf (b.input 0)) text)) : Work Unit) s₁ =
        (.ok (), s₂) := change_at hwrite
    have hfilled : Works b.Uses b.Mount (· = b.input 0) s₁ s₂ :=
      ⟨rfl, (Fills.of_alters hcwd halters (.inr ⟨_, _, _, halters.self⟩)).edits⟩
    have hworks : Works b.Uses b.Mount b.Uses site s₂ := by
      refine ((hsets.works (.inl hnone)).trans hfilled).mono ?_
      rintro P rfl
      exact hinput
    have hgoes : b.Goes (b.Blocked site.world.disk) site := ⟨hroot, hready, id⟩
    obtain ⟨r, s', done, turns, hrun, houtcome⟩ := guardedSlices_outcome hfits hhost hline hp hguard
      hcount (hgoes.works hfits (fun _ => id) hworks) halters.self (fromUTF8?_toUTF8 text)
    refine ⟨r, s', done, turns, ?_,
      (houtcome.mono fun _ => Busy.uses).behind hsets.calls hworks⟩
    unfold Pass.dynamicSlices
    rw [if_neg (List.cons_ne_nil c cs)]
    refine (bind_of_ok rfl).trans ((bind_of_ok (ask_at hread)).trans ?_)
    simp only [hguard, ← hname]
    exact (bind_of_ok hprepare).trans ((bind_of_ok hwritten).trans hrun)

theorem slices_outcome :
    ∃ r s' done turns, b.pass.slices host b.settings b.subject cs site = (r, s') ∧
      b.Outcome host (b.pass.given b.settings b.subject source cs) (b.Blocked site.world.disk)
        b.Uses 0 cs site r s' done turns := by
  cases hp : b.pass with
  | static =>
    obtain ⟨r, s', done, turns, hrun, houtcome⟩ : ∃ r s' done turns,
        Pass.staticSlices host b.settings b.subject 0 cs site = (r, s') ∧
        b.Outcome host (b.pass.given b.settings b.subject source cs) (b.Blocked site.world.disk)
          (b.Busy 0) 0 cs site r s' done turns :=
      staticSlices_outcome hfits hhost hline hp (by rwa [Nat.zero_add]) ⟨hroot, hready, id⟩ hsourced
    exact ⟨r, s', done, turns, hrun, hp ▸ houtcome.mono fun _ => Busy.uses⟩
  | dynamic =>
    rw [← hp]
    obtain ⟨r, s', done, turns, hrun, houtcome⟩ :=
      dynamicSlices_outcome hfits hhost hline hle hcount hroot hready hsourced hp
    exact ⟨r, s', done, turns, by rw [hp]; exact hrun, houtcome⟩

end

/-! ## The union and its extract -/

section

variable (hfits : b.Fits) {site : Site} (hroot : site.workspace.root = pathOf b.root)
  (hready : b.Ready site.world.disk)
include hfits hroot hready

/-- The name of a file of the pass is prepared, and the files with other names are left. -/
theorem prepare_ok {n : String} (hn : b.FileName n) (owner : Stage) :
    ∃ s', Workspace.prepareOutput n owner site = (.ok (pathOf (b.root ++ [n])), s') ∧
      Sets (b.root ++ [n]) none site s' ∧ s'.workspace.root = pathOf b.root ∧
      b.Ready s'.world.disk := by
  obtain ⟨s', hprepare, hsets⟩ := prepareOutput_ok (hready.file hfits hn) (hready.path hroot hn)
    owner (hready.free _ (.file hn))
  have hworks : Works b.Uses b.Mount (· = b.root ++ [n]) site s' :=
    hsets.works (.inl hsets.alters.self)
  refine ⟨s', hprepare, hsets, hsets.root.trans hroot, hready.edits hfits ?_ hworks.edits⟩
  rintro P rfl
  exact .file hn

/-- The union is written, unless there is no line in any slice. -/
theorem unify_ok {files : List Path} {slices : List (List Nat)}
    (hstores : b.Stores site.world.disk files slices) :
    ∃ r s', (do
        let unionFile ← Workspace.prepareOutput Artifacts.unionFile b.pass.stage
        let _ ← Slice.unify files unionFile
        return unionFile : Work Path) site = (r, s') ∧
      s'.world.calls = site.world.calls ∧
      ((ascending slices.flatten = [] ∧ ∃ e, r = .error e ∧ e.kind = .unification) ∨
        ascending slices.flatten ≠ [] ∧ r = .ok (pathOf b.union) ∧
          s'.workspace.root = pathOf b.root ∧ b.Ready s'.world.disk ∧ ∃ k x,
            s'.world.disk.get? b.union =
              some (.file k (writeLineNumbers (ascending slices.flatten)).toUTF8 x)) := by
  obtain ⟨s₁, hprepare, hsets, hroot₁, hready₁⟩ := prepare_ok hfits hroot hready .union b.pass.stage
  have hprepare : Workspace.prepareOutput Artifacts.unionFile b.pass.stage site =
      (.ok (pathOf b.union), s₁) := hprepare
  have hnone : s₁.world.disk.get? b.union = none := hsets.alters.self
  have hworks : Works b.Uses b.Mount (· = b.union) site s₁ := hsets.works (.inl hnone)
  have hstores₁ : b.Stores s₁.world.disk files slices := by
    refine hstores.edits (fun i hi P hP h => ?_) hworks.edits
    rw [hP] at h
    exact b.slice_ne_union i (Uses.apart hfits (.file .union) (.file (.slice hi)) h).symm
  have hunify := unify_apply (hstores₁.hold hfits hready₁) (pathOf b.union)
  have hfail {e : Fault} (h : Slice.unify files (pathOf b.union) s₁.world = (.error e, s₁.world)) :
      (liftM (Slice.unify files (pathOf b.union)) : Work (List Nat)) s₁ = (.error e, s₁) := by
    rw [Work.lift_apply, h]
  by_cases hfiles : files = []
  · have hslices : slices = [] := List.forall₂_nil_left_iff.mp (hfiles ▸ hstores)
    rw [if_pos hfiles] at hunify
    refine ⟨_, s₁, (bind_of_ok hprepare).trans (bind_of_error (hfail hunify)), hsets.calls,
      .inl ⟨by rw [hslices]; rfl, _, rfl, rfl⟩⟩
  by_cases hnil : ascending slices.flatten = []
  · rw [if_neg hfiles, if_pos hnil] at hunify
    exact ⟨_, s₁, (bind_of_ok hprepare).trans (bind_of_error (hfail hunify)), hsets.calls,
      .inl ⟨hnil, _, rfl, rfl⟩⟩
  -- there are lines to write
  rw [if_neg hfiles, if_neg hnil] at hunify
  have hhandy : s₁.world.disk.Handy b.union := hready₁.file hfits .union
  obtain ⟨d, k, x, hwrite, hcwd, halters⟩ := hhandy.write (.inl hnone)
    (writeLineNumbers (ascending slices.flatten)).toUTF8 false
  let s₂ : Site := { s₁ with world := { s₁.world with disk := d } }
  have hstore : Slice.store (pathOf b.union) (ascending slices.flatten) s₁.world =
      (.ok (), s₂.world) := by
    rw [Slice.store, Action.change_apply, writeText, hwrite]
  have hunified : (liftM (Slice.unify files (pathOf b.union)) : Work (List Nat)) s₁ =
      (.ok (ascending slices.flatten), s₂) := by
    rw [Work.lift_apply, hunify, bind_of_ok hstore]
    rfl
  have hedits : b.Edits (· = b.union) s₁.world.disk d :=
    (Fills.of_alters hcwd halters (.inr ⟨_, _, _, halters.self⟩)).edits
  refine ⟨_, s₂, (bind_of_ok hprepare).trans ((bind_of_ok hunified).trans rfl), hsets.calls,
    .inr ⟨hnil, rfl, hroot₁, hready₁.edits hfits ?_ hedits, k, x, halters.self⟩⟩
  rintro P rfl
  exact .file .union

/-- The extractor is called once, with the file of the union as it is. -/
theorem cut_calls (host : Host) {k : Nat} {content : ByteArray} {x : Bool}
    (hunion : site.world.disk.get? b.union = some (.file k content x)) {text : String}
    (htext : String.fromUTF8? content = some text) (name : String) :
    ∃ r s' d, cut host b.settings b.subject (pathOf b.union) b.pass.stage name site = (r, s') ∧
      s'.world.calls = site.world.calls ++ [b.cutting d] ∧
      d.readText (pathOf b.union) = .ok text := by
  obtain ⟨s₁, hproduced, hsets₁, hroot₁, hready₁⟩ :=
    prepare_ok hfits hroot hready .extract b.pass.stage
  obtain ⟨s₂, hadjusted, hsets₂, hroot₂, hready₂⟩ :=
    prepare_ok hfits hroot₁ hready₁ .extractLine b.pass.stage
  have hne₁ : b.union ≠ b.root ++ [Artifacts.sliceStem ++ "." ++ b.subject.extension] := by
    have hfront : Diverge Artifacts.unionFile Artifacts.sliceStem := by decide
    have hne := hfront.append_ne "" ("." ++ b.subject.extension)
    simpa [union, String.append_assoc] using hne
  have hne₂ : b.union ≠ b.root ++ [Artifacts.adjustedLineFile] := by
    have hne : Artifacts.unionFile ≠ Artifacts.adjustedLineFile := by decide
    simpa [union] using hne
  have hunion₂ : s₂.world.disk.get? b.union = some (.file k content x) := by
    rw [hsets₂.alters.other hne₂, hsets₁.alters.other hne₁, hunion]
  have hcalls₂ : s₂.world.calls = site.world.calls := hsets₂.calls.trans hsets₁.calls
  -- the call
  obtain ⟨r, hrun, -⟩ := (cutCommand b.settings b.subject (pathOf b.union)).runChecked_apply host
    (pathOf b.root) s₂.world
  let s₃ : Site := { s₂ with world := s₂.world.after host (b.cutting s₂.world.disk) }
  have hrun : (liftM ((cutCommand b.settings b.subject (pathOf b.union)).runChecked host
      s₂.workspace.root) : Work Unit) s₂ = (r, s₃) := by
    rw [hroot₂, Work.lift_apply, hrun]
    rfl
  have hcalls₃ : s₃.world.calls = site.world.calls ++ [b.cutting s₂.world.disk] := by
    rw [← hcalls₂]
    rfl
  have hread := readText_of_file (hready₂.file hfits .union) hunion₂ htext
  have hextract (next : Extract → Work Subject) :
      (extract host b.settings b.subject (pathOf b.union) b.pass.stage >>= next) site =
        match r with
        | .ok () => next ⟨pathOf (b.root ++ [Artifacts.sliceStem ++ "." ++ b.subject.extension]),
            pathOf (b.root ++ [Artifacts.adjustedLineFile])⟩ s₃
        | .error e => (.error e, s₃) := by
    have hstart : extract host b.settings b.subject (pathOf b.union) b.pass.stage site =
        match r with
        | .ok () => (.ok ⟨pathOf (b.root ++ [Artifacts.sliceStem ++ "." ++ b.subject.extension]),
            pathOf (b.root ++ [Artifacts.adjustedLineFile])⟩, s₃)
        | .error e => (.error e, s₃) := by
      refine (bind_of_ok hproduced).trans ((bind_of_ok hadjusted).trans ((bind_of_ok rfl).trans ?_))
      cases r with
      | ok _ => exact (bind_of_ok hrun).trans rfl
      | error e => exact bind_of_error hrun
    cases r with
    | ok _ => exact bind_of_ok hstart
    | error e => exact bind_of_error hstart
  refine ⟨_, _, s₂.world.disk, rfl, ?_, hread⟩
  refine (congrArg (fun t => t.2.world.calls) (hextract _)).trans ?_
  cases r with
  | error e => exact hcalls₃
  | ok _ => exact ((adoptExtract_quiet b.subject _ _ _).rel s₃ trivial).calls.trans hcalls₃

end

/-! ## A whole pass -/

section

variable (hfits : b.Fits) {host : Host} (hhost : b.Behaves host) {source : String}
  (hline : 1 ≤ b.subject.failureLine) (hle : b.subject.failureLine ≤ lineCount source)
  {cs : List Criterion} (hcount : cs.length ≤ b.count) {site site' : Site}
  (hroot : site.workspace.root = pathOf b.root) (hready : b.Ready site.world.disk)
  (hsourced : b.Sourced source site.world.disk) {r : Except Fault Subject}
  (hrun : b.pass.run host b.settings b.subject cs site = (r, site'))
include hfits hhost hline hle hcount hroot hready hsourced hrun

/-- A pass takes the criteria in order, up to the first product that is not text if there is one, and
ends with what was kept if there is none. -/
theorem run_ends :
    let g := b.pass.given b.settings b.subject source cs
    ∃ done turns, done <+: cs ∧
      b.Course host g (b.Blocked site.world.disk) site.world.calls 0 done turns ∧
      ((done = cs ∧ (∀ t ∈ turns, t.Readable) ∧ b.Ending (kept g turns)
          (site.world.calls ++ callsOf turns) site'.world.calls r) ∨
        (∃ front t, turns = front ++ [t] ∧ (∀ t ∈ front, t.Readable) ∧ ¬ t.Readable) ∧
          site'.world.calls = site.world.calls ++ callsOf turns ∧ r = .error (.io .notText)) := by
  obtain ⟨files, s₁, done, turns, hslices, houtcome⟩ :=
    slices_outcome hfits hhost hline hle hcount hroot hready hsourced
  refine ⟨done, turns, houtcome.front, houtcome.course, ?_⟩
  rcases houtcome.result with ⟨rfl, hreadable, files, rfl, hstores⟩ | ⟨hunreadable, rfl⟩
  · refine .inl ⟨rfl, hreadable, ?_⟩
    rw [← houtcome.calls]
    have hready₁ := hready.edits hfits (fun _ => id) houtcome.works.edits
    obtain ⟨r', s₂, hunite, hcalls, hends⟩ :=
      unify_ok hfits (houtcome.works.root.trans hroot) hready₁ hstores
    have hunite : b.pass.unite host b.settings b.subject done site = (r', s₂) :=
      (bind_of_ok hslices).trans hunite
    rcases hends with ⟨hnil, e, rfl, hkind⟩ | ⟨hne, rfl, hroot₂, hready₂, k, x, hunion⟩
    · cases (bind_of_error hunite).symm.trans hrun
      exact .empty hnil hcalls rfl hkind
    · obtain ⟨r', s₃, d, hcut, hcalls₃, hread⟩ := cut_calls hfits hroot₂ hready₂ host hunion
        (fromUTF8?_toUTF8 _) (b.pass.title ++ "_sliced." ++ b.subject.extension)
      cases hcut.symm.trans ((bind_of_ok hunite).symm.trans hrun)
      exact .handed hne hread (by rw [hcalls₃, hcalls])
  · have hunite : b.pass.unite host b.settings b.subject cs site = (.error (.io .notText), s₁) :=
      bind_of_error hslices
    cases (bind_of_error hunite).symm.trans hrun
    exact .inr ⟨hunreadable, houtcome.calls, rfl⟩

end

end Bench

end Whittle.Pipeline
