import Whittle.Proofs.Disk.Copy
import Whittle.Proofs.Disk.Directories
import Whittle.Proofs.Pipeline.Endings

/-!
# Saving the program

The first candidate with content is copied to the output. If that fails nothing is saved: what is in
the way of one candidate is in the way of every other one (`Blocked`). A candidate that is the
output is not saved but emptied, although the run says that it was (`save_answers`).
-/

namespace Whittle.Pipeline

open Disk

/-- The programs that may be saved, the one to be tried first in front. -/
def candidates (s : Settings) (p : Progress) : List Path := [p.subject.source, s.sourceFile]

/-- Two paths that lead to one file. -/
def SameFile (d : Disk) (p q : Path) : Prop :=
  ∃ l l' id c c' x x', d.stat p = .ok (l, .file id c x) ∧ d.stat q = .ok (l', .file id c' x')

/-- What was saved at the output: the bytes of the candidate, unless the output keeps nothing or is
the candidate itself. -/
structure Saved (before after : Disk) (candidate output : Path) : Prop where
  stored : (∀ l, after.stat output ≠ .ok (l, .sink)) → ¬ SameFile after candidate output →
    ∃ content, before.read candidate = .ok content ∧ 0 < content.size ∧
      after.isFile output = true ∧ after.read output = .ok content
  emptied : (∃ l n n', after.stat candidate = .ok (l, n) ∧ after.stat output = .ok (l, n')) →
    after.read output = .ok ByteArray.empty

theorem isUsable_eq_true {d : Disk} {p : Path} (h : isUsable d p = true) :
    ∃ l id content x, d.stat p = .ok (l, .file id content x) ∧ 0 < content.size := by
  unfold isUsable at h
  obtain ⟨hfile, hsize⟩ := Bool.and_eq_true_iff.mp h
  unfold isFile at hfile
  unfold size at hsize
  split at hfile
  · rename_i l n hstat
    rw [hstat] at hsize
    cases n with
    | file id content x => exact ⟨l, id, content, x, hstat, of_decide_eq_true hsize⟩
    | dir => cases hfile
    | link target => cases hfile
    | sink => cases hfile
  · cases hfile

/-! ## The directory of the output -/

/-- Make the directory of an output. -/
def makeRoom (d : Disk) (output : Path) : Except SaveProblem Unit × Disk :=
  match output.parent with
  | some parent =>
    if parent.text = "" then (.ok (), d)
    else
      match d.makeDirs parent with
      | (.ok (), d') => (.ok (), d')
      | (.error e, d') => (.error (.noDirectory parent e), d')
  | none => (.ok (), d)

theorem makeRoom_eq (output : Path) :
    (∀ d, makeRoom d output = (.ok (), d)) ∨
      ∃ parent, output.parent = some parent ∧ ∀ d, makeRoom d output = match d.makeDirs parent with
        | (.ok (), d') => (.ok (), d')
        | (.error e, d') => (.error (.noDirectory parent e), d') := by
  unfold makeRoom
  cases output.parent with
  | none => exact .inl fun _ => rfl
  | some parent =>
    dsimp only
    split
    · exact .inl fun _ => rfl
    · exact .inr ⟨parent, rfl, fun _ => rfl⟩

section

variable {d d' : Disk} {output : Path}

theorem makeRoom_disk (R : Disk → Disk → Prop) (refl : R d d)
    (hdirs : ∀ parent, output.parent = some parent → R d (d.makeDirs parent).2) :
    R d (makeRoom d output).2 := by
  rcases makeRoom_eq output with h | ⟨parent, hparent, h⟩
  · rw [h]
    exact refl
  · have hparent := hdirs parent hparent
    rw [h]
    split
    · rename_i hmade
      rwa [hmade] at hparent
    · rename_i hmade
      rwa [hmade] at hparent

theorem makeRoom_again (h : makeRoom d output = (.ok (), d')) :
    makeRoom d' output = (.ok (), d') := by
  rcases makeRoom_eq output with hroom | ⟨parent, -, hroom⟩
  · exact hroom d'
  · rw [hroom] at h ⊢
    split at h
    · rename_i hmade
      cases h
      rw [show d'.makeDirs parent = (.ok (), d') from makeDirsFrom_again hmade]
    · cases h

theorem makeRoom_fails_again (htree : d.IsTree) {e : SaveProblem}
    (h : makeRoom d output = (.error e, d')) :
    ∃ e' d'', makeRoom d' output = (.error e', d'') := by
  rcases makeRoom_eq output with hroom | ⟨parent, -, hroom⟩
  · rw [hroom] at h
    cases h
  · rw [hroom] at h ⊢
    split at h
    · cases h
    · rename_i hmade
      cases h
      obtain ⟨e', d'', hagain⟩ := makeDirsFrom_fails_again htree hmade
      rw [show d'.makeDirs parent = (.error e', d'') from hagain]
      exact ⟨_, _, rfl⟩

end

/-! ## One candidate -/

/-- An output at which no candidate can be saved. -/
inductive Blocked (output : Path) (d : Disk) : Prop
  | noRoom (e : SaveProblem) (d' : Disk) (h : makeRoom d output = (.error e, d'))
  | notWritable (h : makeRoom d output = (.ok (), d)) (hwrite : ¬ d.Writable output)

/-- An attempt that failed: it has left nothing but directories, and an output at which the next
attempt fails as well. -/
structure Failed (output : Path) (d d' : Disk) : Prop where
  grows : Grows d d'
  isTree : d'.IsTree
  blocked : Blocked output d'

section

variable {d : Disk} (htree : d.IsTree) {candidate output : Path}
include htree

omit htree in
theorem saveCandidate_usable (h : isUsable d candidate = true) :
    saveCandidate d candidate output = match makeRoom d output with
      | (.error e, d') => (.error e, d')
      | (.ok (), d') =>
        match d'.copy candidate output with
        | .ok d'' => (.ok (), d'')
        | .error e => (.error (.notCopied candidate output e), d') := by
  simp only [saveCandidate, h]
  rfl

theorem makeRoom_leaves {r : Except SaveProblem Unit} {d' : Disk}
    (h : makeRoom d output = (r, d')) : Grows d d' ∧ d'.IsTree := by
  have hleft := @makeRoom_disk d output (fun d d' => Grows d d' ∧ d'.IsTree) ⟨.refl d, htree⟩
    fun parent _ => ⟨grows_makeDirs d parent, isTree_makeDirsFrom htree parent _⟩
  rwa [h] at hleft

omit htree in
theorem saved_of_copy {room d' : Disk} {place : Location} {id : Nat} {content : ByteArray}
    {x : Bool} (hs : d.stat candidate = .ok (place, .file id content x)) (hsize : 0 < content.size)
    (hgrows : Grows d room) (hcopy : room.copy candidate output = .ok d') :
    Saved d d' candidate output := by
  obtain ⟨goal, hcopied, hnode⟩ := copy_cases (hgrows.stat hs) hcopy
  have hcandidate : d'.locate .target candidate = .ok place :=
    hcopied.ways.locate (stat_eq_ok (hgrows.stat hs)).1
  have hout : d'.locate .target output = .ok goal :=
    hcopied.ways.locate (locate_target_of_file hcopied.located)
  constructor
  · intro hdevice hsame
    rcases hnode with hn | ⟨id', hn⟩
    · exact absurd (stat_of_locate hout hn) (hdevice goal)
    · have hplace : place ≠ goal := by
        rintro rfl
        exact hsame ⟨_, _, _, _, _, _, _, stat_of_locate hcandidate hn, stat_of_locate hout hn⟩
      rw [if_neg hplace] at hn
      have hstat := stat_of_locate hout hn
      exact ⟨content, by rw [Disk.read, hs], hsize, by rw [isFile, hstat]; rfl,
        by rw [Disk.read, hstat]⟩
  · rintro ⟨l, n, n', hl, hl'⟩
    have hplace : l = place := Except.ok.inj ((stat_eq_ok hl).1.symm.trans hcandidate)
    have hgoal : l = goal := Except.ok.inj ((stat_eq_ok hl').1.symm.trans hout)
    rcases hnode with hn | ⟨id', hn⟩
    · rw [Disk.read, stat_of_locate hout hn]
    · rw [if_pos (hplace.symm.trans hgoal)] at hn
      rw [Disk.read, stat_of_locate hout hn]

/-- A candidate is saved, or the attempt fails. -/
theorem saveCandidate_cases (h : isUsable d candidate = true) :
    (∃ d', saveCandidate d candidate output = (.ok (), d') ∧ Saved d d' candidate output) ∨
      ∃ e d', saveCandidate d candidate output = (.error e, d') ∧ Failed output d d' := by
  obtain ⟨place, id, content, x, hstat, hsize⟩ := isUsable_eq_true h
  rw [saveCandidate_usable h]
  cases hroom : makeRoom d output with
  | mk r room =>
    obtain ⟨hgrows, htree'⟩ := makeRoom_leaves htree hroom
    cases r with
    | error e =>
      obtain ⟨e', d', hagain⟩ := makeRoom_fails_again htree hroom
      exact .inr ⟨e, room, rfl, hgrows, htree', .noRoom e' d' hagain⟩
    | ok _ =>
      dsimp only
      cases hcopy : room.copy candidate output with
      | ok d' => exact .inl ⟨d', rfl, saved_of_copy hstat hsize hgrows hcopy⟩
      | error e =>
        refine .inr ⟨_, room, rfl, hgrows, htree', .notWritable (makeRoom_again hroom) fun hw => ?_⟩
        obtain ⟨d', hok⟩ := (copy_isOk (hgrows.stat hstat)).mpr hw
        rw [hcopy] at hok
        cases hok

/-- At a blocked output every candidate fails. -/
theorem Blocked.saveCandidate (h : Blocked output d) (candidate : Path) :
    ∃ e d', Pipeline.saveCandidate d candidate output = (.error e, d') ∧ Failed output d d' := by
  cases hu : isUsable d candidate with
  | false =>
    refine ⟨.unusable candidate, d, ?_, .refl d, htree, h⟩
    simp only [Pipeline.saveCandidate, hu]
    rfl
  | true =>
    obtain ⟨place, id, content, x, hstat, -⟩ := isUsable_eq_true hu
    rcases @saveCandidate_cases d htree candidate output hu with ⟨d', hsaved, -⟩ | hfailed
    · rw [saveCandidate_usable hu] at hsaved
      cases h with
      | noRoom e d₁ hroom =>
        rw [hroom] at hsaved
        cases hsaved
      | notWritable hroom hwrite =>
        rw [hroom] at hsaved
        dsimp only at hsaved
        split at hsaved
        · rename_i d'' hcopy
          exact absurd ((copy_isOk hstat).mp ⟨d'', hcopy⟩) hwrite
        · cases hsaved
    · exact hfailed

end

/-! ## All candidates -/

section

variable {output : Path}

theorem Blocked.saveFirst (cs : List Path) (problems : List SaveProblem) {d : Disk}
    (htree : d.IsTree) (h : Blocked output d) :
    ∃ problems' d', Pipeline.saveFirst output cs problems d = (.error problems', d') ∧
      Grows d d' := by
  induction cs generalizing problems d with
  | nil => exact ⟨problems, d, rfl, .refl d⟩
  | cons c cs ih =>
    obtain ⟨e, d₁, hfirst, hfailed⟩ := h.saveCandidate htree c
    obtain ⟨problems', d', hrest, hgrows⟩ := ih (problems ++ [e]) hfailed.isTree hfailed.blocked
    refine ⟨problems', d', ?_, hfailed.grows.trans hgrows⟩
    simp only [Pipeline.saveFirst, hfirst]
    exact hrest

/-- The first candidate with content is saved, or nothing is and nothing is lost. -/
theorem saveFirst_cases (output : Path) (cs : List Path) (problems : List SaveProblem) {d : Disk}
    (htree : d.IsTree) :
    (∃ c d', saveFirst output cs problems d = (.ok c, d') ∧ cs.find? (isUsable d) = some c ∧
        Saved d d' c output) ∨
      ∃ problems' d', saveFirst output cs problems d = (.error problems', d') ∧ Grows d d' := by
  induction cs generalizing problems with
  | nil => exact .inr ⟨problems, d, rfl, .refl d⟩
  | cons c cs ih =>
    cases hu : isUsable d c with
    | false =>
      have hfirst : saveCandidate d c output = (.error (.unusable c), d) := by
        simp only [saveCandidate, hu]
        rfl
      rw [List.find?_cons_of_neg (by simp [hu])]
      simp only [saveFirst, hfirst]
      exact ih _
    | true =>
      rw [List.find?_cons_of_pos hu]
      rcases @saveCandidate_cases d htree c output hu with
        ⟨d', hfirst, hsaved⟩ | ⟨e, d₁, hfirst, hfailed⟩
      · refine .inl ⟨c, d', ?_, rfl, hsaved⟩
        simp only [saveFirst, hfirst]
      · obtain ⟨problems', d', hrest, hgrows⟩ :=
          hfailed.blocked.saveFirst cs (problems ++ [e]) hfailed.isTree
        refine .inr ⟨problems', d', ?_, hfailed.grows.trans hgrows⟩
        simp only [saveFirst, hfirst]
        exact hrest

end

/-! ## What saving changes -/

section

variable {R : Disk → Disk → Prop} (refl : ∀ d, R d d)
  (trans : ∀ {d d₁ d₂}, R d d₁ → R d₁ d₂ → R d d₂) {output : Path}
  (dirs : ∀ d p, output.parent = some p → R d (d.makeDirs p).2)
  (copy : ∀ d c d', d.copy c output = .ok d' → R d d')
include refl trans dirs copy

/-- What holds of making directories and of copying to the output holds of an attempt. -/
theorem saveCandidate_disk (d : Disk) (c : Path) : R d (saveCandidate d c output).2 := by
  cases hu : isUsable d c with
  | false =>
    have hfirst : saveCandidate d c output = (.error (.unusable c), d) := by
      simp only [saveCandidate, hu]
      rfl
    rw [hfirst]
    exact refl d
  | true =>
    have hroom := @makeRoom_disk d output R (refl d) (dirs d)
    rw [saveCandidate_usable hu]
    split
    · rename_i h
      rwa [h] at hroom
    · rename_i room h
      rw [h] at hroom
      split
      · rename_i d' hcopy
        exact trans hroom (copy room c d' hcopy)
      · exact hroom

theorem saveFirst_disk (cs : List Path) (problems : List SaveProblem) (d : Disk) :
    R d (saveFirst output cs problems d).2 := by
  induction cs generalizing problems d with
  | nil => exact refl d
  | cons c cs ih =>
    have hfirst := saveCandidate_disk refl trans dirs copy d c
    unfold saveFirst
    split
    · rename_i h
      rwa [h] at hfirst
    · rename_i h
      rw [h] at hfirst
      exact trans hfirst (ih _ _)

end

/-- What is said to be saved is at the output, as a file or as a device. -/
theorem stat_saveFirst {output c : Path} {cs : List Path} {problems : List SaveProblem}
    {d d' : Disk} (h : saveFirst output cs problems d = (.ok c, d')) :
    ∃ l n, d'.stat output = .ok (l, n) ∧ (n.isFile = true ∨ n = .sink) := by
  induction cs generalizing problems d with
  | nil => cases h
  | cons first cs ih =>
    unfold saveFirst at h
    split at h
    · rename_i hfirst
      cases h
      cases hu : isUsable d c with
      | false =>
        simp only [saveCandidate, hu] at hfirst
        cases hfirst
      | true =>
        rw [saveCandidate_usable hu] at hfirst
        split at hfirst
        · cases hfirst
        · split at hfirst
          · rename_i hcopy
            cases hfirst
            exact stat_copy hcopy
          · cases hfirst
    · exact ih h

/-- Saving never fails and calls no tools. It leaves the disk of the last attempt, and says whether
that attempt came through. -/
theorem save_cases (s : Settings) (p : Progress) (w : World) :
    ∃ next saved w', save s p w = (.ok (next, saved), w') ∧ w'.calls = w.calls ∧
      ((∃ c, saveFirst s.outputPath (candidates s p) [] w.disk = (.ok c, w'.disk) ∧
          saved = some s.outputPath) ∨
        ∃ problems, saveFirst s.outputPath (candidates s p) [] w.disk = (.error problems, w'.disk) ∧
          saved = none) := by
  unfold save candidates
  rw [bind_of_ok (Action.getDisk_apply w)]
  cases hfirst : saveFirst s.outputPath [p.subject.source, s.sourceFile] [] w.disk with
  | mk r d' =>
    have hset : Action.setDisk d' w = (.ok (), { w with disk := d' }) := rfl
    rw [bind_of_ok hset]
    cases r with
    | ok c =>
      obtain ⟨notices, hrecord⟩ := record_apply p .save .completed
        (c.text ++ " -> " ++ s.outputPath.text) { w with disk := d' }
      dsimp only
      rw [bind_of_ok hrecord]
      exact ⟨_, _, _, rfl, rfl, .inl ⟨c, rfl, rfl⟩⟩
    | error problems =>
      let reported : World := { w with
        disk := d', notices := w.notices ++ [⟨.error, "The result variant could not be saved."⟩] }
      have hreport : Action.report .error "The result variant could not be saved."
          { w with disk := d' } = (.ok (), reported) := rfl
      obtain ⟨notices, hrecord⟩ := record_apply p .save .failed
        (Fault.notSaved problems).message reported
      dsimp only
      rw [bind_of_ok hreport, bind_of_ok hrecord]
      exact ⟨_, _, _, rfl, rfl, .inr ⟨problems, rfl, rfl⟩⟩

/-! ## What a run says that it saved -/

/-- If saving says that nothing was saved, every candidate has the bytes it had; if it says that the
output was, the output has what the first candidate with content had, unless it is that candidate or
keeps nothing. -/
theorem save_answers (s : Settings) (p : Progress) (w : World) (htree : w.disk.IsTree) :
    ∃ next saved w', save s p w = (.ok (next, saved), w') ∧
      (saved = none → ∀ c ∈ candidates s p, ∀ b, w.disk.read c = .ok b → w'.disk.read c = .ok b) ∧
      ∀ output, saved = some output → output = s.outputPath ∧
        ∃ c, (candidates s p).find? (isUsable w.disk) = some c ∧
          Saved w.disk w'.disk c output := by
  obtain ⟨next, saved, w', hsave, -, hcases⟩ := save_cases s p w
  refine ⟨next, saved, w', hsave, ?_⟩
  rcases saveFirst_cases s.outputPath (candidates s p) [] htree with
    ⟨c, d', hfirst, hfind, hsaved⟩ | ⟨problems, d', hfirst, hgrows⟩
  · rcases hcases with ⟨c', hc, rfl⟩ | ⟨problems, hfailed, -⟩
    · cases hfirst.symm.trans hc
      refine ⟨nofun, fun output e => ?_⟩
      cases e
      exact ⟨rfl, c, hfind, hsaved⟩
    · cases hfirst.symm.trans hfailed
  · rcases hcases with ⟨c', hc, -⟩ | ⟨problems', hfailed, rfl⟩
    · cases hfirst.symm.trans hc
    · cases hfirst.symm.trans hfailed
      exact ⟨fun _ c _ b hb => hgrows.read hb, nofun⟩

/-- A program, and nothing else. -/
def programDisk : Disk := ⟨[(["a.c"], .file 0 "int x;\n".toUTF8 false)], [], 1, []⟩

theorem isTree_programDisk : programDisk.IsTree where
  above := nested_of_entries (by decide)
  cwd := get?_nil _

def savingTo (output : Path) : Settings where
  sourceFile := ⟨"/a.c"⟩
  line := 1
  outputFile := some output

def unreduced (s : Settings) : Progress := ⟨.initial s .c, [], []⟩

theorem save_answers_sample :
    ∃ next saved w', save (savingTo ⟨"/o.c"⟩) (unreduced (savingTo ⟨"/o.c"⟩))
        (.ofDisk programDisk) = (.ok (next, saved), w') ∧
      (saved = none → ∀ c ∈ candidates (savingTo ⟨"/o.c"⟩) (unreduced (savingTo ⟨"/o.c"⟩)), ∀ b,
        programDisk.read c = .ok b → w'.disk.read c = .ok b) ∧
      ∀ output, saved = some output → output = (savingTo ⟨"/o.c"⟩).outputPath ∧
        ∃ c, (candidates (savingTo ⟨"/o.c"⟩) (unreduced (savingTo ⟨"/o.c"⟩))).find?
            (isUsable programDisk) = some c ∧
          Saved programDisk w'.disk c output :=
  save_answers _ _ (.ofDisk programDisk) isTree_programDisk

/-- A program that is saved over itself is gone. -/
theorem save_empties_program :
    (save (savingTo ⟨"/a.c"⟩) (unreduced (savingTo ⟨"/a.c"⟩)) (.ofDisk programDisk)).1.toOption.map
        Prod.snd = some (some ⟨"/a.c"⟩) ∧
      programDisk.read ⟨"/a.c"⟩ = .ok "int x;\n".toUTF8 ∧
      (save (savingTo ⟨"/a.c"⟩) (unreduced (savingTo ⟨"/a.c"⟩))
        (.ofDisk programDisk)).2.disk.read ⟨"/a.c"⟩ = .ok ByteArray.empty := by
  refine ⟨?_, ?_, ?_⟩ <;> decide +kernel

end Whittle.Pipeline
