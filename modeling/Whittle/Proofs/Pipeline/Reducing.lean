import Whittle.Proofs.Pipeline.Verdict

/-!
# Reductions that are adopted

A reducer that changes nothing but its two files is judged by what it leaves there
(`Reducer.run_verdict`): its exit code, its product, and the line it reports, which is cut down to the
number of lines of the product.
-/

namespace Whittle.Pipeline.Reducer

open Text Disk

/-- The places of a reduction. -/
def outputDir (root : Location) : Location := root ++ [Artifacts.reducedDir]

def outputAt (root : Location) (subject : Subject) : Location :=
  root ++ [Artifacts.reducedDir, Artifacts.reducedStem ++ "." ++ subject.extension]

def productAt (r : Reducer) (root : Location) (subject : Subject) : Location :=
  root ++ [r.productName subject.extension]

/-- The places of the files that a reduction writes. -/
def WritesAt (r : Reducer) (root : Location) (subject : Subject) (P : Location) : Prop :=
  LeavesAt (outputAt root subject) (reportAt root) P ∨ P = r.productAt root subject

/-- A work directory in which a reduction can be made: no directory and no link stands where its
files go, and nothing or a directory where the reducer writes. -/
structure Ready (r : Reducer) (root : Location) (subject : Subject) (d : Disk) : Prop where
  entered : d.Entered root
  dir : d.get? (outputDir root) = none ∨ d.get? (outputDir root) = some .dir
  free : ∀ P, r.WritesAt root subject P → d.Free P

section

variable {host : Host} {s : Settings} {r : Reducer} {subject : Subject} {root : Location}
  {site : Site}

theorem outputAt_eq (root : Location) (subject : Subject) :
    outputAt root subject =
      outputDir root ++ [Artifacts.reducedStem ++ "." ++ subject.extension] := by
  simp [outputAt, outputDir]

theorem report_ne_productName (r : Reducer) (subject : Subject) :
    Artifacts.adjustedLineFile ≠ r.productName subject.extension := by
  unfold Reducer.productName Subject.extension
  cases r <;> cases subject.language <;> decide

theorem reducedDir_ne_productName (r : Reducer) (subject : Subject) :
    Artifacts.reducedDir ≠ r.productName subject.extension := by
  unfold Reducer.productName Subject.extension
  cases r <;> cases subject.language <;> decide

theorem size_extension (subject : Subject) : subject.extension.utf8ByteSize ≤ 3 := by
  unfold Subject.extension
  cases subject.language <;> decide

theorem size_output (subject : Subject) :
    (Artifacts.reducedStem ++ "." ++ subject.extension).utf8ByteSize ≤ nameLimit := by
  have hstem : (Artifacts.reducedStem ++ ".").utf8ByteSize + 3 ≤ nameLimit := by decide
  have := size_extension subject
  rw [String.utf8ByteSize_append]
  omega

variable (hroot : site.workspace.root = pathOf root) (hready : r.Ready root subject site.world.disk)
include hroot hready

/-- The directory of the reducer is there, or the path of it is refused. -/
theorem createDir_cases {res : Except Fault Path} {site' : Site}
    (h : Workspace.createDir Artifacts.reducedDir r.stage site = (res, site')) :
    SameCalls site site' ∧
      Edits (fun _ => False) (· = outputDir root) (fun _ => False) site.world.disk site'.world.disk ∧
      ((∃ e, res = .error e) ∨ site'.world.disk.Entered (outputDir root)) := by
  have hname : IsName Artifacts.reducedDir ∧ Artifacts.reducedDir.utf8ByteSize ≤ nameLimit := by
    decide
  have hreached : Reached site.world.disk (outputDir root) :=
    hready.entered.reached.push hready.entered.dir hname.1 hname.2
  have hne : outputDir root ≠ [] := by simp [outputDir]
  have hpath : site.workspace.path Artifacts.reducedDir = pathOf (outputDir root) :=
    path_single hready.entered.reached.isName hroot hname.1
  cases createDir_settles hpath r.stage hreached hne hready.dir h with
  | done hhandy hsets =>
    have hedits : Edits (fun _ => False) (· = outputDir root) (fun _ => False) site.world.disk
        site'.world.disk := by
      rcases hready.dir with hnone | hdir
      · exact .of_made rfl id hnone hsets.cwd hsets.alters
      · refine .of_get? hsets.cwd fun l => ?_
        rw [hsets.alters.get?]
        split
        · rename_i e
          rw [e, hdir]
        · rfl
    have hthere : site'.world.disk.Entered (outputDir root) :=
      ⟨hedits.reached (fun _ => False.elim) hreached, hsets.alters.self⟩
    exact ⟨hsets.toSameCalls, hedits, .inr hthere⟩
  | refused hsame hworld =>
    exact ⟨hsame, hworld ▸ .refl _, .inl ⟨_, rfl⟩⟩

omit hroot hready in
theorem outputs_apart (root : Location) (subject : Subject) :
    ¬ outputAt root subject <+: reportAt root ∧ ¬ reportAt root <+: outputAt root subject := by
  simp only [outputAt, reportAt, List.prefix_append_right_inj, List.cons_prefix_cons]
  exact ⟨fun e => absurd e.1 (by decide), fun e => absurd e.1 (by decide)⟩

omit hroot in
/-- Once the directory of the reducer is there, its files can be made. -/
theorem outputs_ready {s₁ : Site}
    (hedits : Edits (fun _ => False) (· = outputDir root) (fun _ => False) site.world.disk
      s₁.world.disk) (hdir : s₁.world.disk.Entered (outputDir root)) {P : Location}
    (hP : LeavesAt (outputAt root subject) (reportAt root) P) :
    Reached s₁.world.disk P ∧ s₁.world.disk.get? P ≠ some .dir := by
  have hentered := hready.entered.beside hedits fun _ => False.elim
  refine ⟨?_, ?_⟩
  · rcases hP with rfl | rfl
    · rw [outputAt_eq]
      exact hdir.reached.push hdir.dir (names_reduced subject _ (by simp)) (size_output subject)
    · exact reached_reportAt hentered
  · have hne : P ≠ outputDir root := by
      rcases hP with rfl | rfl
      · simp [outputAt, outputDir]
      · simp [reportAt, outputDir]
        decide
    rcases hedits.keep P fun _ => False.elim with e | ⟨hG, -⟩
    · rw [e]
      exact (hready.free P (.inl hP)).not_dir
    · exact absurd hG hne

/-- A reduction fails without a call, or its call finds everything in place. -/
theorem invoke_cases {res : Except Fault Result} {site' : Site}
    (h : r.invoke host s subject site = (res, site')) :
    (SameCalls site site' ∧ (∃ e, res = .error e) ∧
      Edits (fun _ => False) (· = outputDir root) (LeavesAt (outputAt root subject) (reportAt root))
        site.world.disk site'.world.disk) ∨
    ∃ call, Called host (· = outputDir root) (outputAt root subject) (reportAt root) site site' call ∧
      res = (host.launch site.world.calls call).result.map fun code =>
        ⟨code, if site'.world.disk.isFile (pathOf (outputAt root subject)) then
          some (pathOf (outputAt root subject)) else none⟩ := by
  rcases bind_cases h with ⟨e, hdir, rfl⟩ | ⟨dir, s₁, hdir, h⟩
  · obtain ⟨hsame, hedits, -⟩ := createDir_cases hroot hready hdir
    exact .inl ⟨hsame, ⟨_, rfl⟩, hedits.mono fun _ => False.elim⟩
  obtain ⟨hsame₁, hedits₁, hthere⟩ := createDir_cases hroot hready hdir
  have hdir₁ : s₁.world.disk.Entered (outputDir root) := hthere.resolve_left fun ⟨_, e⟩ => nomatch e
  have hnames := hready.entered.reached.isName
  have hpath (w : Workspace) (hw : w.root = s₁.workspace.root) :
      w.path (Artifacts.reducedDir ++ "/" ++ Artifacts.reducedStem ++ "." ++ subject.extension) =
        pathOf (outputAt root subject) ∧
      w.path Artifacts.adjustedLineFile = pathOf (reportAt root) := by
    have hw := hw.trans (hsame₁.root.trans hroot)
    exact ⟨Workspace.path_eq hnames rfl (names_reduced subject) hw, path_reportAt hnames hw⟩
  have hplaces (P : Location) (hP : LeavesAt (outputAt root subject) (reportAt root) P) :=
    outputs_ready hready hedits₁ hdir₁ hP
  rcases prepare_cases hpath (fun P hP => (hplaces P hP).1) (fun P hP => (hplaces P hP).2)
      (outputs_apart root subject) h with
    ⟨hsame, herror, hedits⟩ | ⟨s₂, hsame, hedits, hcleared, h⟩
  · exact .inl ⟨hsame₁.trans hsame, herror, (hedits₁.mono fun _ => False.elim).trans hedits⟩
  have hedits : Edits (fun _ => False) (· = outputDir root)
      (LeavesAt (outputAt root subject) (reportAt root)) site.world.disk s₂.world.disk :=
    (hedits₁.mono fun _ => False.elim).trans hedits
  rw [bind_of_ok (show Work.workspace s₂ = (.ok s₂.workspace, s₂) from rfl)] at h
  obtain ⟨call, after, hcalled, hrun⟩ := called_of_run host (hsame₁.trans hsame) hedits
    hcleared (r.command s subject) s₂.workspace.root
  refine .inr ⟨call, ?_⟩
  cases hresult : (host.launch site.world.calls call).result with
  | error e =>
    rw [bind_of_error (hrun.trans (by rw [hresult]))] at h
    cases h
    exact ⟨hcalled, rfl⟩
  | ok code =>
    rw [bind_of_ok (hrun.trans (by rw [hresult]))] at h
    cases h
    exact ⟨hcalled, rfl⟩

end

/-! ## Adoption -/

/-- A reducer settles on the failure line, or on the last line of a product that is shorter. -/
def settle (n count : Nat) : Option Nat := some (min n count)

/-- Where no file is left, there is no product. -/
theorem productOf_none {s : Settings} {r : Reducer} {subject : Subject} {d : Disk} {code : Int} :
    ∃ e, r.productOf s subject d ⟨code, none⟩ = .error e ∧
      (code ≠ 0 → e = .exited (r.command s subject).toolName code) := by
  unfold productOf
  by_cases hcode : code = 0
  · exact ⟨_, if_neg (not_not.mpr hcode), fun h => absurd hcode h⟩
  · exact ⟨_, if_pos hcode, fun _ => rfl⟩

theorem productOf_some {s : Settings} {r : Reducer} {subject : Subject} {d : Disk} {code : Int}
    {p : Path} (hp : d.isFile p = true) :
    r.productOf s subject d ⟨code, some p⟩ =
      if code = 0 then .ok p else .error (.exited (r.command s subject).toolName code) := by
  unfold productOf
  by_cases hcode : code = 0 <;> simp [Result.succeeded, hcode, hp]

theorem clampLine_at (line count : Nat) (site : Site) :
    ∃ after, (liftM (clampLine line count) : Work Nat) site = (.ok (min line count), after) ∧
      after.world.disk = site.world.disk := by
  rw [Work.lift_apply, clampLine]
  by_cases hclamped : min line count ≠ line
  · simp only [if_pos hclamped]
    exact ⟨_, rfl, rfl⟩
  · simp only [if_neg hclamped]
    exact ⟨_, rfl, rfl⟩

section

variable {host : Host} {s : Settings} {r : Reducer} {subject : Subject} {root : Location}
  {site mid after : Site} {call : Call} {code : Int} {res : Except Fault Subject}
  (hready : r.Ready root subject site.world.disk)
  (hcalled : Called host (· = outputDir root) (outputAt root subject) (reportAt root) site mid
    call)
  (htool : ChangesAt (LeavesAt (outputAt root subject) (reportAt root)) call.disk
    (host.launch site.world.calls call).disk)
include hready hcalled htool

/-- There is room for the product. -/
theorem productAt_handy : mid.world.disk.Handy (r.productAt root subject) := by
  have hname : IsName (r.productName subject.extension) :=
    r.names_product subject _ (List.mem_singleton_self _)
  have hroot : mid.world.disk.Entered root := by
    refine hready.entered.beside (hcalled.edits_after htool) fun P hP => ?_
    exact (hready.free P (.inl hP)).not_dir
  refine handy_beside hroot (hcalled.handy htool (.inr rfl)) hname ?_ ?_
  · unfold Reducer.productName Subject.extension
    cases r <;> cases subject.language <;> decide
  · unfold Reducer.productName Subject.extension
    cases r <;> cases subject.language <;> decide

theorem productAt_free : mid.world.disk.Free (r.productAt root subject) := by
  have hnot : ∀ P, LeavesAt (outputAt root subject) (reportAt root) P →
      ¬ P <+: r.productAt root subject := by
    rintro P (rfl | rfl)
    · intro h
      simpa [outputAt, productAt] using h.length_le
    · simpa [reportAt, productAt] using r.report_ne_productName subject
  rcases (hcalled.edits_after htool).keep _ hnot with e | ⟨hG, -⟩
  · exact (hready.free _ (.inr rfl)).of_get? e
  · have : r.productName subject.extension = Artifacts.reducedDir := by
      simpa [productAt, outputDir] using hG
    exact absurd this (r.reducedDir_ne_productName subject).symm

variable (hroot : site.workspace.root = pathOf root)
  (hcode : (host.launch site.world.calls call).result = .ok code)
include hroot hcode

/-- Once the product is copied, its lines decide. -/
theorem adopt_copied (hzero : code = 0) {copied : Site} {id id' : Nat} {content : ByteArray}
    {x : Bool}
    (hreply : (host.launch site.world.calls call).disk.get? (outputAt root subject) =
      some (.file id content x))
    (hgoal : copied.world.disk.Handy (r.productAt root subject))
    (hself : copied.world.disk.get? (r.productAt root subject) = some (.file id' content x))
    (hcopied : copied.workspace.root = mid.workspace.root)
    (hreport : copied.world.disk.Handy (reportAt root))
    (hsame : copied.world.disk.get? (reportAt root) = mid.world.disk.get? (reportAt root))
    (h : (do
      let count ← countLines (pathOf (r.productAt root subject))
      if count = 0 then throw (.emptyReduction (r.command s subject).toolName)
      let reported ← adjustedLine ((← Work.workspace).path Artifacts.adjustedLineFile)
      let line ← clampLine (reported.getD subject.failureLine) count
      return subject.adopt (pathOf (r.productAt root subject)) line : Work Subject) copied =
        (res, after)) :
    after.world.disk = copied.world.disk ∧
      Judgement (r.command s subject).toolName settle (outputAt root subject) (reportAt root)
        (r.productAt root subject) subject (host.launch site.world.calls call) res
        copied.world.disk := by
  subst hzero
  cases htext : String.fromUTF8? content with
  | none =>
    obtain ⟨e, he⟩ := countLines_of_bytes hgoal hself htext
    cases (bind_of_error he).symm.trans h
    refine ⟨rfl, .of_zero hcode (fun b n hgood => ?_) _ _⟩
    obtain ⟨text, k, htext', -⟩ := hgood.text hreply
    cases htext.symm.trans htext'
  | some text =>
    replace h := (bind_of_ok (countLines_of_text hgoal hself htext)).symm.trans h
    dsimp only at h
    by_cases hcount : lineCount text = 0
    · rw [if_pos hcount] at h
      cases h
      refine ⟨rfl, .of_zero hcode (fun b n hgood => ?_) _ _⟩
      have := (lineCount_pos htext).mpr (hgood.content_eq hreply ▸ hgood.nonempty)
      omega
    · rw [if_neg hcount] at h
      have hreported : copied.workspace.path Artifacts.adjustedLineFile = pathOf (reportAt root) :=
        path_single hready.entered.reached.isName ((hcopied.trans hcalled.root).trans hroot)
          (by decide)
      have hline := hcalled.line_after htool hreport hsame subject.failureLine
      obtain ⟨s₃, hclamp, hdisk⟩ := clampLine_at
        ((Slice.readSingleFile copied.world.disk (pathOf (reportAt root))).getD
          subject.failureLine) (lineCount text) copied
      rw [bind_of_ok (show Work.workspace copied = (.ok copied.workspace, copied) from rfl),
        hreported, bind_of_ok (show (liftM (adjustedLine (pathOf (reportAt root))) :
          Work (Option Nat)) copied =
            (.ok (Slice.readSingleFile copied.world.disk (pathOf (reportAt root))), copied)
          from rfl), bind_of_ok hclamp] at h
      cases h
      have hnonempty := (lineCount_pos htext).mp (Nat.pos_of_ne_zero hcount)
      exact ⟨hdisk, .adopted ⟨hcode, ⟨id, x, hreply⟩, hnonempty, text, _, htext, hline, rfl⟩
        (hgoal.read hself)⟩

/-- Where the reducer left a file, that decides. -/
theorem adopt_file {id : Nat} {content : ByteArray} {x : Bool}
    (hfile : mid.world.disk.get? (outputAt root subject) = some (.file id content x))
    (h : r.adopt s subject ⟨code, some (pathOf (outputAt root subject))⟩ mid = (res, after)) :
    Edits (fun _ => False) (· = outputDir root) (· = r.productAt root subject) mid.world.disk
        after.world.disk ∧
      Judgement (r.command s subject).toolName settle (outputAt root subject) (reportAt root)
        (r.productAt root subject) subject (host.launch site.world.calls call) res
        after.world.disk := by
  have hout := hcalled.handy htool (.inl rfl)
  have hne : outputAt root subject ≠ r.productAt root subject := by simp [outputAt, productAt]
  have hapart : r.productAt root subject ≠ reportAt root := by
    simpa [reportAt, productAt] using (r.report_ne_productName subject).symm
  have hhandy := productAt_handy hready hcalled htool
  have hpath : mid.workspace.path (r.productName subject.extension) =
      pathOf (r.productAt root subject) :=
    path_single hready.entered.reached.isName (hcalled.root.trans hroot)
      (r.names_product subject _ (List.mem_singleton_self _))
  have hstat := hout.stat hfile nofun
  have hisFile : mid.world.disk.isFile (pathOf (outputAt root subject)) = true := by
    rw [isFile, hstat]
    rfl
  unfold adopt at h
  rw [bind_of_ok (show (liftM Action.getDisk : Work Disk) mid = (.ok mid.world.disk, mid)
    from rfl)] at h
  simp only [productOf_some hisFile] at h
  by_cases hzero : code = 0
  · rw [if_pos hzero] at h
    obtain ⟨copied, id', hcopy, hsets⟩ := copyIn_ok hhandy hpath r.stage
      (productAt_free hready hcalled htool) hstat hne
    have hself := hsets.alters.self
    have hedits : Edits (fun _ => False) (· = outputDir root) (· = r.productAt root subject)
        mid.world.disk copied.world.disk :=
      (Fills.of_alters hsets.cwd hsets.alters (.inr ⟨_, _, _, hself⟩)).edits
    have hreport : copied.world.disk.Handy (reportAt root) := by
      refine hsets.handy (hcalled.handy htool (.inr rfl)) fun e => ?_
      exact e.eq_of_length (by simp [reportAt, productAt])
    obtain ⟨hdisk, hjudged⟩ := adopt_copied hready hcalled htool hroot hcode hzero
      (hcalled.disk ▸ hfile) (hsets.handy hhandy fun _ => rfl) hself hsets.root hreport
      (hsets.alters.other hapart.symm) ((bind_of_ok hcopy).symm.trans h)
    rw [hdisk]
    exact ⟨hedits, hjudged⟩
  · rw [if_neg hzero] at h
    cases h
    exact ⟨.refl _, .of_code hcode hzero _⟩

theorem adopt_judged
    (h : r.adopt s subject ⟨code, if mid.world.disk.isFile (pathOf (outputAt root subject)) then
      some (pathOf (outputAt root subject)) else none⟩ mid = (res, after)) :
    Edits (fun _ => False) (· = outputDir root) (· = r.productAt root subject) mid.world.disk
        after.world.disk ∧
      Judgement (r.command s subject).toolName settle (outputAt root subject) (reportAt root)
        (r.productAt root subject) subject (host.launch site.world.calls call) res
        after.world.disk := by
  have hout := hcalled.handy htool (.inl rfl)
  by_cases hfile : ∃ id content x, mid.world.disk.get? (outputAt root subject) =
      some (.file id content x)
  · obtain ⟨id, content, x, hfile⟩ := hfile
    have hisFile : mid.world.disk.isFile (pathOf (outputAt root subject)) = true := by
      rw [isFile, hout.stat hfile (by rintro target ⟨⟩)]
      rfl
    rw [if_pos hisFile] at h
    exact adopt_file hready hcalled htool hroot hcode hfile h
  · have hisFile : mid.world.disk.isFile (pathOf (outputAt root subject)) = false := by
      cases hn : mid.world.disk.get? (outputAt root subject) with
      | none => rw [isFile, hout.stat_none hn]
      | some n =>
        have hlink : ∀ target, n ≠ .link target := by
          rintro target rfl
          exact hcalled.not_link htool (.inl rfl) target hn
        rw [isFile, hout.stat hn hlink]
        cases n with
        | file id content x => exact absurd ⟨id, content, x, hn⟩ hfile
        | _ => rfl
    rw [if_neg (by simp [hisFile])] at h
    obtain ⟨e, he, hexited⟩ := @productOf_none s r subject mid.world.disk code
    unfold adopt at h
    rw [bind_of_ok (show (liftM Action.getDisk : Work Disk) mid = (.ok mid.world.disk, mid)
      from rfl)] at h
    simp only [he] at h
    cases h
    refine ⟨.refl _, .rejected (fun _ _ hgood => ?_) fun k hk hne => ?_⟩
    · obtain ⟨id, x, hleft⟩ := hgood.file
      rw [← hcalled.disk] at hleft
      exact hfile ⟨id, _, x, hleft⟩
    · cases hcode.symm.trans hk
      exact hexited hne

end

/-! ## Reductions -/

section

variable {host : Host} {s : Settings} {r : Reducer} {subject : Subject} {root : Location}
  {site : Site}

end

/-- A reducer that leaves one line of text and reports the seventh line. -/
def sampleReducer : Host :=
  leavingHost (outputAt ["w"] workSubject) (reportAt ["w"]) "int y;\n".toUTF8 "7\n".toUTF8

def sampleRun : Except Fault Subject × Site :=
  Reducer.statement.run sampleReducer workSettings workSubject workSite

theorem ready_workDisk : Reducer.statement.Ready ["w"] workSubject workDisk where
  entered := ⟨Reached.nil.push rfl (by decide) (by decide), by decide⟩
  dir := .inl (by decide)
  free P hP := by
    rcases hP with (rfl | rfl) | rfl
    · exact .inl (by decide)
    · exact .inr ⟨1, _, false, rfl⟩
    · exact .inl (by decide)

end Whittle.Pipeline.Reducer
