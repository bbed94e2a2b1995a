import Whittle.Proofs.Pipeline.Verdict

/-!
# Slices that are adopted

A slice extractor that changes nothing but its two files is judged by what it leaves there
(`cut_verdict`): its exit code, its product, and the line it reports, which must be one of the
product. The product is moved to its name before its lines are counted, and the program before is
there even where that fails.
-/

namespace Whittle.Pipeline.Pass

open Text Disk

/-- The places of an extraction. -/
def extractAt (root : Location) (subject : Subject) : Location :=
  root ++ [Artifacts.sliceStem ++ "." ++ subject.extension]

def productAt (p : Pass) (root : Location) (subject : Subject) : Location :=
  root ++ [p.productName subject.extension]

/-- The places of the files that an extraction writes. -/
def WritesAt (p : Pass) (root : Location) (subject : Subject) (P : Location) : Prop :=
  LeavesAt (extractAt root subject) (reportAt root) P ∨ P = p.productAt root subject

/-- A work directory in which an extraction can be made: no directory and no link stands where its
files go. -/
structure Ready (p : Pass) (root : Location) (subject : Subject) (d : Disk) : Prop where
  entered : d.Entered root
  free : ∀ P, p.WritesAt root subject P → d.Free P

/-- An extraction settles on the failure line, if the product has it. -/
def settle (n count : Nat) : Option Nat := if n ≤ count then some n else none

theorem report_ne_productName (p : Pass) (subject : Subject) :
    Artifacts.adjustedLineFile ≠ p.productName subject.extension := by
  unfold Pass.productName Subject.extension
  cases p <;> cases subject.language <;> decide

theorem extract_ne_report (subject : Subject) :
    Artifacts.sliceStem ++ "." ++ subject.extension ≠ Artifacts.adjustedLineFile := by
  unfold Subject.extension
  cases subject.language <;> decide

theorem size_extract (subject : Subject) :
    (Artifacts.sliceStem ++ "." ++ subject.extension).utf8ByteSize ≤ nameLimit := by
  unfold Subject.extension
  cases subject.language <;> decide

/-! ## The call -/

theorem runChecked_at {host : Host} {c : Command} {cwd : Path} {site after : Site}
    {r : Except Fault Int} (h : (liftM (c.run host cwd) : Work Int) site = (r, after)) :
    (liftM (c.runChecked host cwd) : Work Unit) site =
      (r.bind fun code => if code = 0 then .ok () else .error (.exited c.toolName code), after) := by
  rw [Work.lift_apply] at h ⊢
  obtain ⟨hr, rfl⟩ := Prod.mk.inj h
  have hrun : c.run host cwd site.world = (r, (c.run host cwd site.world).2) := Prod.ext hr rfl
  unfold Command.runChecked
  cases r with
  | error e =>
    rw [bind_of_error hrun]
    rfl
  | ok code =>
    rw [bind_of_ok hrun, Except.bind]
    by_cases hcode : code = 0
    · rw [if_neg (not_not.mpr hcode), if_pos hcode]
      rfl
    · rw [if_pos hcode, if_neg hcode]
      rfl

section

variable {host : Host} {s : Settings} {subject : Subject} {root : Location} {site : Site}
  (hroot : site.workspace.root = pathOf root) (hentered : site.world.disk.Entered root)
  (hfree : ∀ P, LeavesAt (extractAt root subject) (reportAt root) P → site.world.disk.Free P)
include hroot hentered hfree

/-- An extraction fails without a call, or its call finds everything in place. -/
theorem extract_cases {unionFile : Path} {owner : Stage} {res : Except Fault Extract} {mid : Site}
    (h : extract host s subject unionFile owner site = (res, mid)) :
    (SameCalls site mid ∧ (∃ e, res = .error e) ∧
      Edits (fun _ => False) (fun _ => False) (LeavesAt (extractAt root subject) (reportAt root))
        site.world.disk mid.world.disk) ∨
    ∃ call, Called host (fun _ => False) (extractAt root subject) (reportAt root) site mid call ∧
      res = (host.launch site.world.calls call).result.bind fun code =>
        if code = 0 then .ok ⟨pathOf (extractAt root subject), pathOf (reportAt root)⟩
        else .error (.exited (cutCommand s subject unionFile).toolName code) := by
  have hextract := names_extract subject _ (List.mem_singleton_self _)
  have hnames := hentered.reached.isName
  have hpath (w : Workspace) (hw : w.root = site.workspace.root) :
      w.path (Artifacts.sliceStem ++ "." ++ subject.extension) = pathOf (extractAt root subject) ∧
        w.path Artifacts.adjustedLineFile = pathOf (reportAt root) :=
    ⟨path_single hnames (hw.trans hroot) hextract, path_reportAt hnames (hw.trans hroot)⟩
  have hreached : ∀ P, LeavesAt (extractAt root subject) (reportAt root) P →
      Reached site.world.disk P := by
    rintro P (rfl | rfl)
    · exact hentered.reached.push hentered.dir hextract (size_extract subject)
    · exact reached_reportAt hentered
  have hapart : ¬ extractAt root subject <+: reportAt root ∧
      ¬ reportAt root <+: extractAt root subject := by
    simp only [extractAt, reportAt, List.prefix_append_right_inj, List.cons_prefix_cons]
    exact ⟨fun e => extract_ne_report subject e.1, fun e => extract_ne_report subject e.1.symm⟩
  rcases prepare_cases hpath hreached (fun P hP => (hfree P hP).not_dir) hapart h with
    hfails | ⟨s₁, hsame, hedits, hcleared, h⟩
  · exact .inl hfails
  obtain ⟨call, after, hcalled, hrun⟩ := called_of_run host hsame hedits hcleared
    (cutCommand s subject unionFile) s₁.workspace.root
  rw [bind_of_ok (show Work.workspace s₁ = (.ok s₁.workspace, s₁) from rfl)] at h
  have hchecked := runChecked_at hrun
  refine .inr ⟨call, ?_⟩
  cases hresult : (host.launch site.world.calls call).result with
  | error e =>
    rw [hresult] at hchecked
    cases (bind_of_error hchecked).symm.trans h
    exact ⟨hcalled, rfl⟩
  | ok code =>
    rw [hresult] at hchecked
    rw [Except.bind] at hchecked ⊢
    by_cases hcode : code = 0
    · rw [if_pos hcode] at hchecked ⊢
      cases (bind_of_ok hchecked).symm.trans h
      exact ⟨hcalled, rfl⟩
    · rw [if_neg hcode] at hchecked ⊢
      cases (bind_of_error hchecked).symm.trans h
      exact ⟨hcalled, rfl⟩

end

/-! ## Adoption -/

theorem extractLine_at (subject : Subject) (e : Extract) (site : Site) :
    ∃ after, (liftM (extractLine subject e) : Work Nat) site =
        (.ok ((Slice.readSingleFile site.world.disk e.adjusted).getD subject.failureLine), after) ∧
      SameCalls site after ∧ after.world.disk = site.world.disk := by
  rw [Work.lift_apply, extractLine, bind_of_ok (show adjustedLine e.adjusted site.world =
    (.ok (Slice.readSingleFile site.world.disk e.adjusted), site.world) from rfl)]
  cases Slice.readSingleFile site.world.disk e.adjusted with
  | none => exact ⟨_, rfl, ⟨rfl, rfl⟩, rfl⟩
  | some line => exact ⟨_, rfl, ⟨rfl, rfl⟩, rfl⟩

section

variable {host : Host} {p : Pass} {tool : String} {subject : Subject} {root : Location}
  {site mid after : Site} {call : Call} {owner : Stage} {res : Except Fault Subject}
  (hready : p.Ready root subject site.world.disk)
  (hcalled : Called host (fun _ => False) (extractAt root subject) (reportAt root) site mid call)
  (htool : ChangesAt (LeavesAt (extractAt root subject) (reportAt root)) call.disk
    (host.launch site.world.calls call).disk)
include hready hcalled htool

theorem entered_after : mid.world.disk.Entered root :=
  hready.entered.beside (hcalled.edits_after htool) fun P hP => (hready.free P (.inl hP)).not_dir

/-- There is room for the product. -/
theorem productAt_handy : mid.world.disk.Handy (p.productAt root subject) := by
  refine handy_beside (entered_after hready hcalled htool) (hcalled.handy htool (.inr rfl))
    (p.names_product subject _ (List.mem_singleton_self _)) ?_ ?_
  · unfold Pass.productName Subject.extension
    cases p <;> cases subject.language <;> decide
  · unfold Pass.productName Subject.extension
    cases p <;> cases subject.language <;> decide

theorem productAt_free : mid.world.disk.Free (p.productAt root subject) := by
  have hnot : ∀ P, LeavesAt (extractAt root subject) (reportAt root) P →
      ¬ P <+: p.productAt root subject := by
    rintro P (rfl | rfl)
    · simpa [extractAt, productAt] using p.extract_ne_productName subject.extension
    · simpa [reportAt, productAt] using p.report_ne_productName subject
  rcases (hcalled.edits_after htool).keep _ hnot with e | ⟨hG, -⟩
  · exact (hready.free _ (.inr rfl)).of_get? e
  · exact hG.elim

variable (hroot : site.workspace.root = pathOf root)
  (hexit : (host.launch site.world.calls call).result = .ok 0)
include hroot hexit

omit hready hroot in
/-- Once the product is moved, its lines decide. -/
theorem adoptExtract_moved {n : Node} {moved : Site}
    (hreply : (host.launch site.world.calls call).disk.get? (extractAt root subject) = some n)
    (hsink : n ≠ .sink) (hlink : ∀ target, n ≠ .link target)
    (hsize : ∀ id x, n ≠ .file id ByteArray.empty x)
    (hgoal : moved.world.disk.Handy (p.productAt root subject))
    (hself : moved.world.disk.get? (p.productAt root subject) = some n)
    (h : (do
      let count ← countLines (pathOf (p.productAt root subject))
      if (Slice.readSingleFile mid.world.disk (pathOf (reportAt root))).getD subject.failureLine >
        count then throw (.lineOutsideExtract
          ((Slice.readSingleFile mid.world.disk (pathOf (reportAt root))).getD
            subject.failureLine) count)
      return subject.adopt (pathOf (p.productAt root subject))
        ((Slice.readSingleFile mid.world.disk (pathOf (reportAt root))).getD
          subject.failureLine) : Work Subject) moved = (res, after)) :
    after = moved ∧
      Judgement tool settle (extractAt root subject) (reportAt root) (p.productAt root subject)
        subject (host.launch site.world.calls call) res moved.world.disk := by
  have hline := hcalled.line_after htool (hcalled.handy htool (.inr rfl)) rfl subject.failureLine
  cases n with
  | file id content x =>
    cases htext : String.fromUTF8? content with
    | none =>
      obtain ⟨e, he⟩ := countLines_of_bytes hgoal hself htext
      cases (bind_of_error he).symm.trans h
      refine ⟨rfl, .of_zero hexit (fun b k hgood => ?_) _ _⟩
      obtain ⟨text, m, htext', -⟩ := hgood.text hreply
      cases htext.symm.trans htext'
    | some text =>
      replace h := (bind_of_ok (countLines_of_text hgoal hself htext)).symm.trans h
      dsimp only at h
      split at h
      · rename_i hlong
        cases h
        refine ⟨rfl, .of_zero hexit (fun b k hgood => ?_) _ _⟩
        obtain ⟨text', m, htext', hm, hsettled⟩ := hgood.text hreply
        cases htext.symm.trans htext'
        rw [hm.unique hline, settle, if_neg (Nat.not_le.mpr hlong)] at hsettled
        cases hsettled
      · rename_i hle
        cases h
        have hnonempty : content ≠ ByteArray.empty := by
          rintro rfl
          exact hsize id x rfl
        exact ⟨rfl, .adopted ⟨hexit, ⟨id, x, hreply⟩, hnonempty, text, _, htext, hline,
          if_pos (Nat.not_lt.mp hle)⟩ (hgoal.read hself)⟩
  | dir =>
    have hread : moved.world.disk.readText (pathOf (p.productAt root subject)) =
        .error (.system .isDirectory) := by
      rw [readText, Disk.read, hgoal.stat hself hlink]
    cases (bind_of_error ((countLines_at _ moved).trans (by rw [hread]))).symm.trans h
    refine ⟨rfl, .of_zero hexit (fun b k hgood => ?_) _ _⟩
    obtain ⟨id, x, hleft⟩ := hgood.file
    cases hreply.symm.trans hleft
  | sink => exact absurd rfl hsink
  | link target => exact absurd rfl (hlink target)

/-- What the extractor left is moved to the name of the product. -/
theorem adoptExtract_node {n : Node} (hn : mid.world.disk.get? (extractAt root subject) = some n)
    (hlink : ∀ target, n ≠ .link target)
    (hsize : (mid.world.disk.size (pathOf (extractAt root subject))).toOption.getD 0 ≠ 0)
    (h : adoptExtract subject ⟨pathOf (extractAt root subject), pathOf (reportAt root)⟩ owner
      (p.productName subject.extension) mid = (res, after)) :
    Edits (fun _ => False) (fun _ => False) (p.WritesAt root subject) mid.world.disk
        after.world.disk ∧
      Judgement tool settle (extractAt root subject) (reportAt root) (p.productAt root subject)
        subject (host.launch site.world.calls call) res after.world.disk := by
  have hout := hcalled.handy htool (.inl rfl)
  have hhandy := productAt_handy hready hcalled htool
  have hfree := productAt_free hready hcalled htool
  have hreply : (host.launch site.world.calls call).disk.get? (extractAt root subject) = some n :=
    hcalled.disk ▸ hn
  have hnonempty {m : Node} (hm : m = .sink ∨ ∃ id x, m = .file id ByteArray.empty x) :
      n ≠ m := by
    rintro rfl
    rw [size, hout.stat hn hlink] at hsize
    rcases hm with rfl | ⟨id, x, rfl⟩ <;> exact hsize rfl
  have hPQ : ¬ p.productAt root subject <+: extractAt root subject := by
    simpa [extractAt, productAt] using (p.extract_ne_productName subject.extension).symm
  have hQP : ¬ extractAt root subject <+: p.productAt root subject := by
    simpa [extractAt, productAt] using p.extract_ne_productName subject.extension
  -- the line is read and the product moved
  obtain ⟨s₁, hline, hsame₁, hdisk₁⟩ := extractLine_at subject
    ⟨pathOf (extractAt root subject), pathOf (reportAt root)⟩ mid
  have hpath : s₁.workspace.path (p.productName subject.extension) =
      pathOf (p.productAt root subject) :=
    path_single hready.entered.reached.isName ((hsame₁.root.trans hcalled.root).trans hroot)
      (p.names_product subject _ (List.mem_singleton_self _))
  rw [← hdisk₁] at hhandy hfree hn hout
  obtain ⟨moved, hmove, -, hself, hworks⟩ := moveIn_ok (U := fun _ => False)
    (G := fun _ => False) hhandy hpath owner hout hfree.not_dir hn (hnonempty (.inl rfl)) hlink
    hPQ hQP (fun _ => False.elim) (fun _ => False.elim)
  have hedits : Edits (fun _ => False) (fun _ => False) (p.WritesAt root subject) mid.world.disk
      moved.world.disk := by
    rw [← hdisk₁]
    exact hworks.edits.mono fun P hP => hP.imp .inl id
  have hgoal : moved.world.disk.Handy (p.productAt root subject) := by
    refine ⟨hhandy.check, hhandy.reached.names, fun P hP hne => ?_⟩
    refine hworks.edits.keeps (fun Q hQ hprefix => hne ?_) (hhandy.reached.above P hP hne)
    have hlength : Q.length = (p.productAt root subject).length := by
      rcases hQ with rfl | rfl <;> simp [extractAt, productAt]
    exact hP.eq_of_length_le (hlength ▸ hprefix.length_le)
  unfold adoptExtract at h
  rw [bind_of_ok (show (liftM Action.getDisk : Work Disk) mid = (.ok mid.world.disk, mid)
    from rfl), if_neg hsize] at h
  replace h := (bind_of_ok hline).symm.trans h
  replace h := (bind_of_ok hmove).symm.trans h
  obtain ⟨rfl, hjudged⟩ := adoptExtract_moved hcalled htool hexit hreply
    (hnonempty (.inl rfl)) hlink (fun id x => hnonempty (.inr ⟨id, x, rfl⟩)) hgoal hself h
  exact ⟨hedits, hjudged⟩

/-- An extractor whose call is done is judged by what it left. -/
theorem adoptExtract_judged
    (h : adoptExtract subject ⟨pathOf (extractAt root subject), pathOf (reportAt root)⟩ owner
      (p.productName subject.extension) mid = (res, after)) :
    Edits (fun _ => False) (fun _ => False) (p.WritesAt root subject) mid.world.disk
        after.world.disk ∧
      Judgement tool settle (extractAt root subject) (reportAt root) (p.productAt root subject)
        subject (host.launch site.world.calls call) res after.world.disk := by
  have hout := hcalled.handy htool (.inl rfl)
  by_cases hsize : (mid.world.disk.size (pathOf (extractAt root subject))).toOption.getD 0 = 0
  · unfold adoptExtract at h
    rw [bind_of_ok (show (liftM Action.getDisk : Work Disk) mid = (.ok mid.world.disk, mid)
      from rfl), if_pos hsize] at h
    cases h
    refine ⟨.refl _, .of_zero hexit (fun b k hgood => ?_) _ _⟩
    obtain ⟨id, x, hleft⟩ := hgood.file
    rw [← hcalled.disk] at hleft
    rw [size, hout.stat hleft nofun] at hsize
    exact hgood.nonempty (ByteArray.size_eq_zero_iff.mp hsize)
  · cases hn : mid.world.disk.get? (extractAt root subject) with
    | none =>
      rw [size, hout.stat_none hn] at hsize
      exact absurd rfl hsize
    | some n =>
      have hlink : ∀ target, n ≠ .link target := by
        rintro target rfl
        exact hcalled.not_link htool (.inl rfl) target hn
      exact adoptExtract_node hready hcalled htool hroot hexit hn hlink hsize h

end

/-! ## Extractions -/

/-- An extractor that leaves a line of text, and reports that line. -/
def sampleExtractor : Host :=
  leavingHost (extractAt ["w"] workSubject) (reportAt ["w"]) "int y;\n".toUTF8 "1\n".toUTF8

def sampleCut : Except Fault Subject × Site :=
  cut sampleExtractor workSettings workSubject ⟨"/w/unification.txt"⟩ .staticSlice
    (Pass.static.productName workSubject.extension) workSite

theorem ready_workDisk : Pass.static.Ready ["w"] workSubject workDisk where
  entered := ⟨Reached.nil.push rfl (by decide) (by decide), by decide⟩
  free P hP := by
    rcases hP with (rfl | rfl) | rfl
    · exact .inl (by decide)
    · exact .inr ⟨1, _, false, rfl⟩
    · exact .inl (by decide)

end Whittle.Pipeline.Pass
