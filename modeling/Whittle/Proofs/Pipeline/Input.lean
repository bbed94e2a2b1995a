import Whittle.Proofs.Pipeline.Conclusion
import Whittle.Proofs.Pipeline.Soundness

/-!
# The program that a run is given

Whatever comes of a run, the program that it was given is at its place afterwards
(`run_keeps_input`), as long as the run does not work at that place (`InputApart`): a program inside
a work directory that was there before may have the name of a product, and is lost then
(`run_destroys_input`).
-/

namespace Whittle.Pipeline

open Text Disk

/-- A program at a place at which no stage works, and no lock is taken, in a work directory without
links. If the program is in the work directory, that was there before. -/
structure InputApart (given : Settings) (base : Path) (d : Disk) (root l : Location) : Prop
    extends d.Apart root l where
  stages : ∀ language, Language.ofPath (anchor base given).sourceFile = some language →
    ∀ stage, given.enables stage = true → ∀ m, Touches given language.extension stage m →
      ¬ root ++ m <+: l
  workDir : root <+: l → d.pathExists (anchor base given).workDir = true

/-- A program outside a work directory without links is apart from it. -/
theorem InputApart.of_outside {given : Settings} {base : Path} {d : Disk} {root l : Location}
    (hstraight : d.Straight root) (houtside : ¬ root <+: l) : InputApart given base d root l where
  straight := hstraight
  lock h := houtside ((List.prefix_append _ _).trans h)
  stages _ _ _ _ m _ h := houtside ((List.prefix_append _ m).trans h)
  workDir h := absurd h houtside

section

variable {host : Host} {given : Settings} {base : Path} {w w' : World} {r : Except Fault Report}
  {l : Location} {n : Node}
  (hbase : base.isAbsolute = true) (hmount : Mounts given)
  (houtput : w.disk.placeOf (anchor base given).outputPath ≠ some l)
  (hapart : ∀ root, w.disk.placeOf (anchor base given).workDir = some root →
    InputApart given base w.disk root l)
include hbase hmount houtput hapart

/-- What the stages of a run and its release leave of a place. -/
theorem Begun.intact {b : Start} {root source : Location} {w₁ : World}
    (hbegun : Begun given base w w₁ b root source) (hbegin : Intact w.disk l n w₁.disk)
    (hconclude : conclude host b.settings b.progress b.workspace w₁ = (r, w'))
    (htools : ∀ made, w'.calls = w₁.calls ++ made →
      Answered host (fun d d' => Intact w.disk l n d → Intact w.disk l n d') w₁.calls made) :
    Intact w.disk l n w'.disk := by
  have hroot := hapart root hbegun.acquired.place
  have hcopy (d : Disk) (c : Path) (d' : Disk)
      (h : d.copy c (anchor base given).outputPath = .ok d') (hd : Intact w.disk l n d) :
      Intact w.disk l n d' := by
    obtain ⟨goal, hcopied⟩ := copied h
    have hgoal := placeOf_eq (isAbsolute_anchor hbase given).2.2 hd.links
      (locate_target_of_file hcopied.located)
    refine hd.of_leaves ⟨hcopied.ways.link, hcopied.holds hd.reached ?_⟩
    rintro rfl
    exact houtput hgoal
  obtain ⟨result, site, -, hend, -, hleaves⟩ := hbegun.concludes
    (permits_intact hroot.straight l n) hmount
    (fun language hlanguage stage henabled m hm =>
      ⟨List.prefix_append root m, hroot.stages language hlanguage stage henabled m hm⟩)
    (fun d q hd => hd.of_leaves ((grows_makeDirs d q).leaves l)) hcopy
    (fun d hd => hd.links.straight hroot.straight) hconclude htools hbegin
  exact hend.of_leaves (hleaves l (fun _ hm => hm) hroot.lock hroot.workDir)

/-- A run leaves the program that it was given as it was, whether it ends with a report or fails, if
the tools do so, and nothing that the run makes has the place of the program. -/
theorem run_keeps_input (hd : w.disk.Numbered) {id : Nat} {content : ByteArray} {x : Bool}
    (hinput : w.disk.stat (anchor base given).sourceFile = .ok (l, .file id content x))
    (hrun : run host given base w = (r, w'))
    (htools : ∀ made, w'.calls = w.calls ++ made → Answered host (fun d d' =>
      Intact w.disk l (.file id content x) d → Intact w.disk l (.file id content x) d')
        w.calls made) :
    w'.disk.get? l = some (.file id content x) ∧
      (w.disk.stat (pathOf l) = .ok (l, .file id content x) →
        w'.disk.stat (pathOf l) = .ok (l, .file id content x)) ∧
      ((∀ P ∈ w.disk.placesOn (anchor base given).sourceFile, P <+: l) →
        w'.disk.stat (anchor base given).sourceFile = .ok (l, .file id content x)) := by
  have habsolute := (isAbsolute_anchor hbase given).1
  obtain ⟨hlocate, hnode⟩ := stat_eq_ok hinput
  have hreached := locate_reached habsolute hlocate
  have hfirst : Intact w.disk l (.file id content x) w.disk := ⟨.refl w.disk, hreached, hnode⟩
  have hbegin {r : Except Fault Start} {w₁ : World} (hstart : start host given base w = (r, w₁)) :
      Intact w.disk l (.file id content x) w₁.disk :=
    hfirst.of_leaves (start_leaves hbase hd (fun root hroot => (hapart root hroot).toApart)
      (fun _ root hroot => (hapart root hroot).workDir) hstart)
  have hend : Intact w.disk l (.file id content x) w'.disk := by
    rcases bind_cases hrun with ⟨e, hstart, -⟩ | ⟨b, w₁, hstart, hconclude⟩
    · exact hbegin hstart
    · obtain ⟨root, source, hbegun⟩ := start_begun hbase hstart
      rw [← hbegun.calls] at htools
      exact hbegun.intact hbase hmount houtput hapart (hbegin hstart) hconclude htools
  refine ⟨hend.node, fun hstat => ?_, fun hway => ?_⟩
  · have hclear := hend.reached.clear (by simp [hend.node])
    obtain ⟨hcheck, -⟩ := locate_iff.mp (stat_eq_ok hstat).1
    exact (stat_pathOf_iff hclear hreached.isName).mpr ⟨hcheck, hend.reached, rfl, hend.node⟩
  · refine stat_kept (.refl w.disk) hend.links habsolute hinput (fun P hP hdir => ?_) hend.node
    refine hend.reached.above P (hway P hP) ?_
    rintro rfl
    rw [hnode] at hdir
    cases hdir

end

/-! ### Programs in the work directory -/

/-- A work directory with a program and a link to it, and a reducer. -/
def reusedDisk (name : String) : Disk where
  entries :=
    [(["w"], .dir), (["w", name], .file 0 "int x;\n".toUTF8 false), (["bin"], .dir),
     (["bin", "red"], .file 1 ByteArray.empty true), (["l"], .link "/w")]
  cwd := []
  nextId := 2
  locked := []

def reusing (source : String) : Settings := { sampleSettings with sourceFile := ⟨source⟩ }

def reusedRun (name source : String) : Except Fault Report × World :=
  run sampleHost (reusing source) ⟨"/"⟩ (.ofDisk (reusedDisk name))

theorem inputApart_user (root : Location) (hroot : (reusedDisk "user.c").placeOf
      (anchor ⟨"/"⟩ (reusing "/l/user.c")).workDir = some root) :
    InputApart (reusing "/l/user.c") ⟨"/"⟩ (reusedDisk "user.c") root ["w", "user.c"] := by
  obtain rfl : ["w"] = root := Option.some.inj hroot
  refine ⟨⟨?_, by decide⟩, fun language _ stage henabled m hm => ?_, fun _ => by decide⟩
  · exact straight_of_entries (by decide)
  · cases hm with
    | criteria | input | guarded => cases henabled
    | kept p | slice p _ | union p | extract p | extractLine p | sliced p =>
      cases p <;> cases henabled
    | mount p hb | mounted p hb hn => cases hb
    | reducedDir r | reductionLine r => decide
    | reduction r | reduced r => cases r <;> cases language <;> decide

theorem run_keeps_userInput : (reusedRun "user.c" "/l/user.c").1.isOk = true ∧
    (reusedRun "user.c" "/l/user.c").2.disk.get? ["w", "user.c"] =
      some (.file 0 "int x;\n".toUTF8 false) ∧
    (reusedRun "user.c" "/l/user.c").2.disk.read ⟨"/l/user.c"⟩ = .ok "int x;\n".toUTF8 := by
  have hmount : Mounts (reusing "/l/user.c") := fun hb => nomatch hb
  have hd : (reusedDisk "user.c").Numbered := by
    refine numbered_of_entries ?_ ?_ <;> simp [reusedDisk, identity]
  have hstraight : (reusedDisk "user.c").Straight ["w"] := straight_of_entries (by decide)
  have hinput : (reusedDisk "user.c").stat (anchor ⟨"/"⟩ (reusing "/l/user.c")).sourceFile =
      .ok (["w", "user.c"], .file 0 "int x;\n".toUTF8 false) := by decide +kernel
  have houtput : (reusedDisk "user.c").placeOf (anchor ⟨"/"⟩ (reusing "/l/user.c")).outputPath ≠
      some ["w", "user.c"] := by decide +kernel
  have hway : ∀ P ∈ (reusedDisk "user.c").placesOn (anchor ⟨"/"⟩ (reusing "/l/user.c")).sourceFile,
      P <+: ["w", "user.c"] := by decide +kernel
  have hrun : reusedRun "user.c" "/l/user.c" =
      ((reusedRun "user.c" "/l/user.c").1, (reusedRun "user.c" "/l/user.c").2) := (Prod.eta _).symm
  obtain ⟨hnode, -, hstat⟩ := @run_keeps_input sampleHost (reusing "/l/user.c") ⟨"/"⟩
    (.ofDisk (reusedDisk "user.c")) _ _ ["w", "user.c"] (by decide) hmount houtput inputApart_user
    hd _ _ _ hinput hrun fun made _ =>
      answered_of_permits (permits_intact hstraight _ _) (by decide) made []
  refine ⟨by decide +kernel, hnode, ?_⟩
  rw [show (⟨"/l/user.c"⟩ : Path) = (anchor ⟨"/"⟩ (reusing "/l/user.c")).sourceFile from rfl,
    Disk.read, hstat hway]

/-- A work directory in which the name of a product is a link to the program. -/
def linkedDisk : Disk where
  entries := (["w"], .dir) :: (["w", "statement_reduced.c"], .link "/in/a.c") :: sampleDisk.entries
  cwd := []
  nextId := 2
  locked := []

def linkedRun : Except Fault Report × World :=
  run sampleHost sampleSettings ⟨"/"⟩ (.ofDisk linkedDisk)

/-- The tools keep the links of a disk and what stands at a place. -/
def ToolsKeep (host : Host) (d₀ : Disk) (l : Location) (n : Node) : Prop :=
  ∀ made, Answered host (fun d d' => Intact d₀ l n d → Intact d₀ l n d') [] made

theorem toolsKeep_sampleHost {d₀ : Disk} {l : Location} (n : Node)
    (hstraight : d₀.Straight ["w", "temp", "autoPieOut.c"])
    (hfree : ¬ ["w", "temp", "autoPieOut.c"] <+: l) : ToolsKeep sampleHost d₀ l n :=
  fun made => answered_of_permits (permits_intact hstraight l n)
    ⟨List.prefix_refl _, hfree⟩ made []

/-- A program with the name that the reducer gives to its product is overwritten, and then removed.
A program to which this name is a link is overwritten. The output is another place, and the tools
keep the program. -/
theorem run_destroys_input :
    (ToolsKeep sampleHost (reusedDisk "statement_reduced.c") ["w", "statement_reduced.c"]
        (.file 0 "int x;\n".toUTF8 false) ∧
      (reusedRun "statement_reduced.c" "/w/statement_reduced.c").1.isOk = true ∧
      (reusedDisk "statement_reduced.c").placeOf
          (anchor ⟨"/"⟩ (reusing "/w/statement_reduced.c")).outputPath ≠
        some ["w", "statement_reduced.c"] ∧
      (reusedDisk "statement_reduced.c").read ⟨"/w/statement_reduced.c"⟩ = .ok "int x;\n".toUTF8 ∧
      (reusedRun "statement_reduced.c" "/w/statement_reduced.c").2.disk.read
        ⟨"/w/statement_reduced.c"⟩ = .error (.system .notFound)) ∧
    ToolsKeep sampleHost linkedDisk ["in", "a.c"] (.file 0 "int x;\n".toUTF8 false) ∧
      linkedRun.1.isOk = true ∧
      linkedDisk.placeOf (anchor ⟨"/"⟩ sampleSettings).outputPath ≠ some ["in", "a.c"] ∧
      linkedDisk.read ⟨"/in/a.c"⟩ = .ok "int x;\n".toUTF8 ∧
      linkedRun.2.disk.read ⟨"/in/a.c"⟩ = .ok "int y;\n".toUTF8 := by
  refine ⟨⟨toolsKeep_sampleHost _ (straight_of_entries (by decide)) (by decide), ?_, ?_, ?_, ?_⟩,
    toolsKeep_sampleHost _ (straight_of_entries (by decide)) (by decide), ?_, ?_, ?_, ?_⟩ <;>
    decide +kernel

end Whittle.Pipeline
