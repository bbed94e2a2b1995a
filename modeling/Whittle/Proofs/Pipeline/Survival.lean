import Whittle.Proofs.Pipeline.Reach

/-!
# What stays in a work directory

A work directory that was there before keeps its directories, and all that is in them but the files
that a run enters in its ledger, its lock file and its output, whether the run ends with a report or
fails (`run_keeps_entries`). A directory that has the name of such a file is lost with all that is in
it, since the name is entered before it is known that no file can be removed there
(`run_removes_directory`).
-/

namespace Whittle

open Disk

/-! ## Ledgers -/

/-- A ledger of files and directories. None of the directories is at a place or above it, unless its
path is too long to lead there. -/
def Ledger.Skirts (k : Ledger) (c : Charter) (P : Location) : Prop :=
  ∀ a ∈ k.artifacts, ∃ m, (∀ n ∈ m, IsName n) ∧ a.path = pathOf m ∧
    (c.product m ∨ c.directory m ∧ (m <+: P → checkText a.path.text ≠ .ok ()))

theorem Ledger.Skirts.register {k : Ledger} {c : Charter} {P m : Location} (h : k.Skirts c P)
    (hm : ∀ n ∈ m, IsName n) (owner : Stage)
    (hkind : c.product m ∨ c.directory m ∧ (m <+: P → checkText (pathOf m).text ≠ .ok ())) :
    (k.register (pathOf m) owner).Skirts c P := by
  intro a ha
  unfold Ledger.register at ha
  split at ha
  · exact h a ha
  · rcases List.mem_append.mp ha with ha | ha
    · exact h a ha
    · rw [List.mem_singleton.mp ha]
      exact ⟨m, hm, rfl, hkind⟩

/-- What is in the ledger stays there. -/
theorem Step.lists {host : Host} {c : Charter} {s s' : Site} {m : Location}
    (h : Step host c s s') (hm : s.workspace.Lists c m) : s'.workspace.Lists c m := by
  cases h with
  | move => exact hm
  | enter => exact hm.of_step
  | create => exact hm.of_step

namespace Pipeline

/-! ## What stands at a place -/

/-- A disk without links where a run works, with something at a place that is reached. If that is no
directory, the disk has the links that it had before. -/
structure Standing (given : Settings) (base : Path) (root : Location) (d₀ : Disk) (P : Location)
    (n : Node) (d : Disk) : Prop where
  unlinked : Unlinked given base root d
  links : n ≠ .dir → SameLinks d₀ d
  reached : Reached d P
  node : d.get? P = some n

/-- A tool that removes no directory, and leaves no link where the run works. If no directory stands
at a place, it keeps what is there, and all links. -/
structure Considerate (given : Settings) (base : Path) (root P : Location) (n : Node)
    (d d' : Disk) : Prop where
  dirs : ∀ Q, d.get? Q = some .dir → d'.get? Q = some .dir
  unlinked : Unlinked given base root d → Unlinked given base root d'
  entry : n ≠ .dir → SameLinks d d' ∧ (d.get? P = some n → d'.get? P = some n)

namespace Standing

variable {given : Settings} {base : Path} {root P : Location} {n : Node} {d₀ d d' : Disk}
  (h : Standing given base root d₀ P n d)
include h

/-- Something stands at the place and above it. -/
theorem there {Q : Location} (hQ : Q <+: P) : ∃ k, d.get? Q = some k := by
  by_cases e : Q = P
  · exact ⟨n, e ▸ h.node⟩
  · exact ⟨.dir, h.reached.above Q hQ e⟩

theorem of_same (hlinks : SameLinks d d') (hsame : ∀ Q, Q <+: P → d'.get? Q = d.get? Q) :
    Standing given base root d₀ P n d' where
  unlinked := h.unlinked.of_links hlinks
  links hn := (h.links hn).trans hlinks
  reached := ⟨h.reached.names, fun Q hQ hne => (hsame Q hQ).trans (h.reached.above Q hQ hne)⟩
  node := (hsame P (List.prefix_refl P)).trans h.node

theorem of_grows (hgrows : Grows d d') : Standing given base root d₀ P n d' := by
  refine h.of_same hgrows.links fun Q hQ => ?_
  obtain ⟨k, hk⟩ := h.there hQ
  rw [hgrows.keeps hk, hk]

theorem of_tool (htool : Considerate given base root P n d d') :
    Standing given base root d₀ P n d' where
  unlinked := htool.unlinked h.unlinked
  links hn := (h.links hn).trans (htool.entry hn).1
  reached := ⟨h.reached.names, fun Q hQ hne => htool.dirs Q (h.reached.above Q hQ hne)⟩
  node := by
    by_cases hn : n = .dir
    · rw [hn]
      exact htool.dirs P (hn ▸ h.node)
    · exact (htool.entry hn).2 h.node

/-- The output is copied to another place, or not at all if a directory is there. -/
theorem of_copy {c output : Path} (houtput : output.isAbsolute = true)
    (hP : n ≠ .dir → d₀.placeOf output ≠ some P) (hcopy : d.copy c output = .ok d') :
    Standing given base root d₀ P n d' := by
  obtain ⟨goal, hcopied⟩ := copied hcopy
  refine h.of_same hcopied.ways.link fun Q hQ => hcopied.other Q ?_
  rintro rfl
  by_cases e : Q = P
  · subst e
    have hn : n ≠ .dir := fun hn => hcopied.not_dir (hn ▸ h.node)
    exact hP hn (placeOf_eq houtput (h.links hn) (locate_target_of_file hcopied.located))
  · exact hcopied.not_dir (h.reached.above Q hQ e)

end Standing

/-! ## The steps of a run -/

/-- Something stands at a place, and no directory that is to be removed is there or above it. -/
structure Stays (given : Settings) (base : Path) (root : Location) (c : Charter) (d₀ : Disk)
    (P : Location) (n : Node) (s : Site) : Prop where
  standing : Standing given base root d₀ P n s.world.disk
  ledger : s.workspace.ledger.Skirts c P

section

variable {host : Host} {given : Settings} {base : Path} {w w₁ w' : World} {b : Start}
  {root source P : Location} {n : Node} {d₀ d d' : Disk} {s s' : Site}
  (hbegun : Begun given base w w₁ b root source)
include hbegun

/-- An operation leaves a place alone if no file in the ledger is there or above it. -/
theorem Begun.operates_stands {k : Workspace} (h : Standing given base root d₀ P n d)
    (hop : Operates (b.charter root) k d d')
    (hfree : ∀ m, k.Lists (b.charter root) m → ¬ m <+: P) :
    Standing given base root d₀ P n d' := by
  have hlinks := (hbegun.operates_spans hop h.unlinked).1
  have hat {m : Location} (hm : k.Lists (b.charter root) m) : d.Straight m :=
    (hbegun.file_straight h.unlinked hm.product).2
  have hmiss {m Q : Location} (hm : k.Lists (b.charter root) m) (hQ : Q <+: P) : ¬ m <+: Q :=
    fun hmQ => hfree m hm (hmQ.trans hQ)
  have hne {m Q : Location} (hm : k.Lists (b.charter root) m) (hQ : Q <+: P) : Q ≠ m := by
    rintro rfl
    exact hmiss hm hQ (List.prefix_refl Q)
  cases hop with
  | unlink hm hunlink =>
    exact h.of_same hlinks fun Q hQ => (unlink_at (hat hm) hm.names hunlink).2.other (hne hm hQ)
  | write hm hwrite =>
    obtain ⟨-, k, halters⟩ := write_at (hat hm) hm.names hwrite
    exact h.of_same hlinks fun Q hQ => halters.other (hne hm hQ)
  | copy hm hcopy =>
    obtain ⟨-, k, halters⟩ := copy_at (hat hm) hm.names hcopy
    exact h.of_same hlinks fun Q hQ => halters.other (hne hm hQ)
  | rename hm ht hmt hrename =>
    obtain ⟨-, -, hmoves⟩ := moves_of_rename hm.names ht.names hmt hrename (hat hm).self (hat ht).self
    exact h.of_same hlinks fun Q hQ => hmoves.other Q (hmiss hm hQ) (hmiss ht hQ)
  | makeDirs => exact h.of_grows (grows_makeDirs _ _)

/-- A directory that is said not to be there does not stand at a place or above it, unless its path is
too long. -/
theorem Begun.not_there (h : Standing given base root d₀ P n d) {m : Location}
    (hm : (b.charter root).directory m) (hnew : d.pathExists (pathOf m) = false) (hmP : m <+: P) :
    checkText (pathOf m).text ≠ .ok () := by
  intro hcheck
  have hclear := (hbegun.dir_clear h.unlinked hm).2
  have hreached := h.reached.of_prefix hmP
  obtain ⟨node, hnode⟩ := h.there hmP
  have hstat := (stat_pathOf_iff hclear hreached.isName).mpr ⟨hcheck, hreached, rfl, hnode⟩
  rw [pathExists, hstat] at hnew
  cases hnew

theorem Begun.step_stays (hstep : Step host (b.charter root) s s')
    (hfree : ∀ m, s'.workspace.Lists (b.charter root) m → ¬ m <+: P) :
    ∃ made, s'.world.calls = s.world.calls ++ made ∧
      (Answered host (Considerate given base root P n) s.world.calls made →
        Stays given base root (b.charter root) d₀ P n s →
          Stays given base root (b.charter root) d₀ P n s') := by
  cases hstep with
  | move hmove =>
    cases hmove with
    | idle hdisk hcalls =>
      exact ⟨[], by simp [hcalls], fun _ h => ⟨hdisk ▸ h.standing, h.ledger⟩⟩
    | operate hop =>
      exact ⟨[], by simp, fun _ h => ⟨hbegun.operates_stands h.standing hop hfree, h.ledger⟩⟩
    | call => exact ⟨[_], rfl, fun ha h => ⟨h.standing.of_tool ha.1, h.ledger⟩⟩
  | enter owner hm hnames =>
    exact ⟨[], by simp [Site.register], fun _ h =>
      ⟨h.standing, h.ledger.register hnames owner (.inl hm)⟩⟩
  | create owner hm hnames hnew =>
    exact ⟨[], by simp [Site.register], fun _ h => ⟨h.standing, h.ledger.register hnames owner
      (.inr ⟨hm, hbegun.not_there h.standing hm hnew⟩)⟩⟩

/-- Along the trail of a run what stands at a place stays there, if the tools leave it there, and no
file in the ledger is there or above it. -/
theorem Begun.trail_stays (h : Stays given base root (b.charter root) d₀ P n s)
    (htrail : Trail host (b.charter root) s s')
    (hfree : ∀ m, s'.workspace.Lists (b.charter root) m → ¬ m <+: P) :
    ∃ made, s'.world.calls = s.world.calls ++ made ∧
      (Answered host (Considerate given base root P n) s.world.calls made →
        Stays given base root (b.charter root) d₀ P n s') := by
  induction htrail with
  | refl => exact ⟨[], by simp, fun _ => h⟩
  | tail _ hstep ih =>
    obtain ⟨made, hcalls, hfirst⟩ := ih fun m hm => hfree m (hstep.lists hm)
    obtain ⟨more, hcalls', hlast⟩ := hbegun.step_stays hstep hfree
    refine ⟨made ++ more, by rw [hcalls', hcalls, List.append_assoc], fun ha => ?_⟩
    obtain ⟨hanswered, hanswered'⟩ := ha.append
    exact hlast (hcalls ▸ hanswered') (hfirst hanswered)

/-- Saving leaves what stands at a place, unless it is a file and the output. -/
theorem Begun.save_stands (houtput : (anchor base given).outputPath.isAbsolute = true)
    (hP : n ≠ .dir → d₀.placeOf (anchor base given).outputPath ≠ some P) (p : Progress) (v : World) :
    (save b.settings p v).2.calls = v.calls ∧
      (Standing given base root d₀ P n v.disk →
        Standing given base root d₀ P n (save b.settings p v).2.disk) :=
  save_rel (R := fun d d' => Standing given base root d₀ P n d → Standing given base root d₀ P n d')
    (fun _ => id) (fun h h₁ hd => h₁ (h hd)) (fun _ _ _ hd => hd.of_grows (grows_makeDirs _ _))
    (fun _ _ _ hcopy hd => hd.of_copy houtput hP (hbegun.output ▸ hcopy)) v

/-- The stages of a run, and what it saves, leave what stands at a place, and change nothing of the
workspace but its ledger. -/
theorem Begun.work_stands (hmount : Mounts given)
    (houtput : (anchor base given).outputPath.isAbsolute = true)
    (hP : n ≠ .dir → d₀.placeOf (anchor base given).outputPath ≠ some P)
    (hfirst : Standing given base root d₀ P n w₁.disk)
    {result : Except Fault (Progress × Option Path)} {site : Site}
    (hwork : work host b.settings b.progress ⟨w₁, b.workspace⟩ = (result, site))
    (hfree : ∀ m, site.workspace.Lists (b.charter root) m → ¬ m <+: P) :
    site.workspace = { b.workspace with ledger := site.workspace.ledger } ∧
      ∃ made, site.world.calls = w₁.calls ++ made ∧
        (Answered host (Considerate given base root P n) w₁.calls made →
          Stays given base root (b.charter root) d₀ P n site) := by
  obtain ⟨site₁, hsite, hsaved⟩ := work_cases hwork
  have hsave : site.workspace = site₁.workspace ∧ site.world.calls = site₁.world.calls ∧
      (Standing given base root d₀ P n site₁.world.disk →
        Standing given base root d₀ P n site.world.disk) := by
    rcases hsaved with rfl | ⟨q, rfl⟩
    · exact ⟨rfl, rfl, id⟩
    · exact ⟨rfl, hbegun.save_stands houtput hP q _⟩
  obtain ⟨hworkspace, hcalls, hsaved⟩ := hsave
  have hstays : Stays given base root (b.charter root) d₀ P n ⟨w₁, b.workspace⟩ :=
    ⟨hfirst, fun a ha => by
      rw [hbegun.acquired.ledger] at ha
      cases ha⟩
  have htrail := hbegun.stages_trail host hmount
  rw [hsite] at htrail
  obtain ⟨made, hmade, hstages⟩ := hbegun.trail_stays hstays htrail (hworkspace ▸ hfree)
  refine ⟨hworkspace ▸ htrail.rest, made, hcalls.trans hmade, fun ha => ?_⟩
  exact ⟨hsaved (hstages ha).standing, hworkspace ▸ (hstages ha).ledger⟩

/-- The release leaves what stands at a place, in a work directory that the run has not made, if
neither the lock file nor a file in the ledger is there or above it. -/
theorem Begun.release_stays (h : Stays given base root (b.charter root) d₀ P n s)
    (hrest : s.workspace = { b.workspace with ledger := s.workspace.ledger })
    (hthere : w.disk.pathExists (anchor base given).workDir = true)
    (hlock : ¬ root ++ [Artifacts.lockFile] <+: P)
    (hfree : ∀ m, s.workspace.Lists (b.charter root) m → ¬ m <+: P) :
    (Workspace.release s).2.world.disk.get? P = some n := by
  have hunlinked := h.standing.unlinked
  rw [(release_bypasses (fun a ha => ?_) (fun lock e => ?_) fun hcreated => ?_).same, h.standing.node]
  · obtain ⟨m, hnames, hpath, hm | ⟨hm, hlong⟩⟩ := h.ledger a ha
    · have hlisted : s.workspace.ledger.contains (pathOf m) = true :=
        List.any_eq_true.mpr ⟨a, ha, by rw [hpath]; exact decide_eq_true rfl⟩
      rw [hpath]
      exact .inl ⟨m, Path.names_pathOf hnames, (hbegun.file_straight hunlinked hm).2.self,
        hfree m ⟨hm, hnames, hlisted⟩⟩
    · by_cases hmP : m <+: P
      · exact .inr (hlong hmP)
      · rw [hpath]
        exact .inl ⟨m, Path.names_pathOf hnames, (hbegun.dir_clear hunlinked hm).2, hmP⟩
  · rw [hrest] at e
    rw [hbegun.acquired.lock lock e]
    exact ⟨_, Path.names_pathOf (names_lockFile hbegun.rootNames), hunlinked.lock, hlock⟩
  · rw [hrest] at hcreated
    have hcreated : b.workspace.createdRoot = true := hcreated
    rw [hbegun.acquired.createdRoot, hthere] at hcreated
    cases hcreated

end

/-! ## A whole run -/

/-- The ledger with which a run is released. -/
def lastLedger (host : Host) (given : Settings) (base : Path) (w : World) : Ledger :=
  match start host given base w with
  | (.ok b, w₁) => (work host b.settings b.progress ⟨w₁, b.workspace⟩).2.workspace.ledger
  | (.error _, _) => .empty

section

variable {host : Host} {given : Settings} {base : Path} {w w' : World} {root P : Location} {n : Node}
  (hbase : base.isAbsolute = true) (hd : w.disk.Numbered)
  (hroot : w.disk.placeOf (anchor base given).workDir = some root)
  (hthere : w.disk.pathExists (anchor base given).workDir = true)
  (hstanding : Standing given base root w.disk P n w.disk)
  (hlock : n ≠ .dir → P ≠ root ++ [Artifacts.lockFile])
include hbase hd hroot hthere hstanding hlock

/-- In a work directory that is there, the start of a run leaves what stands at a place. If it
succeeds, the lock file is neither there nor above it. -/
theorem start_stands {r : Except Fault Start} (h : start host given base w = (r, w')) :
    Standing given base root w.disk P n w'.disk ∧
      (r.isOk = true → ¬ root ++ [Artifacts.lockFile] <+: P) := by
  have hdir := @starts_of_absolute w.disk _ (isAbsolute_anchor hbase given).2.1
  have hclear := hstanding.unlinked.lock
  have habove (hlocked : root ++ [Artifacts.lockFile] <+: P) :
      w.disk.get? (root ++ [Artifacts.lockFile]) = some .dir := by
    by_cases e : root ++ [Artifacts.lockFile] = P
    · have hn : n = .dir := by_contra fun hn => hlock hn e.symm
      rw [e, hstanding.node, hn]
    · exact hstanding.reached.above _ hlocked e
  rcases start_cases h with ⟨hfailed, e⟩ | ⟨w₁, k, hdisk, hacquire, hk⟩
  · rw [e, hfailed]
    exact ⟨hstanding, nofun⟩
  · rw [← hdisk] at hd hroot hthere hdir hclear habove
    obtain ⟨hlinks, hother, hbusy⟩ :=
      Workspace.acquire_there hdir hd hroot hthere hclear hacquire
    rw [hdisk] at hlinks hother hbusy
    by_cases hlocked : root ++ [Artifacts.lockFile] <+: P
    · obtain ⟨hfailed, e⟩ := hbusy (hdisk ▸ habove hlocked)
      rw [e, ← hk, hfailed]
      exact ⟨hstanding, nofun⟩
    · refine ⟨hstanding.of_same hlinks fun Q hQ => hother Q ?_, fun _ => hlocked⟩
      rintro rfl
      exact hlocked hQ

end

section

variable {host : Host} {given : Settings} {base : Path} {w w' : World} {root P : Location} {n : Node}
  {r : Except Fault Report}

/-- A work directory that was there before a run keeps its directories, with all that is in them but
the files in the ledger of the run, its lock file and its output, if the tools remove no directory and
none of these entries, and if no link is at a place where the run works. -/
theorem run_keeps_entries (hbase : base.isAbsolute = true) (hd : w.disk.Numbered)
    (hmount : Mounts given)
    (hroot : w.disk.placeOf (anchor base given).workDir = some root)
    (hthere : w.disk.pathExists (anchor base given).workDir = true)
    (hunlinked : Unlinked given base root w.disk) (hreached : Reached w.disk P)
    (hn : w.disk.get? P = some n)
    (hfile : n ≠ .dir → P ≠ root ++ [Artifacts.lockFile] ∧
      w.disk.placeOf (anchor base given).outputPath ≠ some P)
    (hfree : ∀ language, Language.ofPath (anchor base given).sourceFile = some language →
      ∀ stage, given.enables stage = true → ∀ m, FileAt given language.extension stage m →
        (lastLedger host given base w).contains (pathOf (root ++ m)) = true → ¬ root ++ m <+: P)
    (hrun : run host given base w = (r, w'))
    (htools : ∀ made, w'.calls = w.calls ++ made →
      Answered host (Considerate given base root P n) w.calls made) :
    w'.disk.get? P = some n := by
  have houtput := (isAbsolute_anchor hbase given).2.2
  have hfirst : Standing given base root w.disk P n w.disk :=
    ⟨hunlinked, fun _ => .refl _, hreached, hn⟩
  have hstands {r : Except Fault Start} {w₁ : World} (hstart : start host given base w = (r, w₁)) :=
    start_stands hbase hd hroot hthere hfirst (fun hn => (hfile hn).1) hstart
  rcases bind_cases hrun with ⟨e, hstart, -⟩ | ⟨b, w₁, hstart, hconclude⟩
  · exact (hstands hstart).1.node
  · obtain ⟨hbegin, hlock⟩ := hstands hstart
    obtain ⟨root', source, hbegun⟩ := start_begun hbase hstart
    cases hroot.symm.trans hbegun.acquired.place
    obtain ⟨result, site, hwork, rfl, -⟩ := conclude_cases hconclude
    have hledger : lastLedger host given base w = site.workspace.ledger := by
      simp only [lastLedger, hstart, hwork]
    have hfree (m : Location) (hm : site.workspace.Lists (b.charter root) m) : ¬ m <+: P := by
      obtain ⟨⟨stage, k, henabled, hat, rfl⟩, -, hlisted⟩ := hm
      obtain ⟨language, hlanguage, hsubject⟩ := hbegun.subject
      rw [hsubject] at hat
      exact hfree language hlanguage stage (hbegun.enables ▸ henabled) k
        (FileAt.of_same hbegun.backend hbegun.recipe hat) (hledger ▸ hlisted)
    obtain ⟨hrest, made, hmade, hstays⟩ :=
      hbegun.work_stands hmount houtput (fun hn => (hfile hn).2) hbegin hwork hfree
    rw [hbegun.calls] at hmade hstays
    exact hbegun.release_stays (hstays (htools made (by rw [release_calls, hmade]))) hrest hthere
      (hlock rfl) hfree

end

/-! ### Directories with names that the run uses -/

/-- A work directory with a directory in it, and a file in that. -/
def occupiedDisk (name : String) : Disk where
  entries :=
    (["w"], .dir) :: (["w", name], .dir) ::
      (["w", name, "user.txt"], .file 2 "mine\n".toUTF8 false) :: sampleDisk.entries
  cwd := []
  nextId := 3
  locked := []

def occupiedRun (name : String) : Except Fault Report × World :=
  run sampleHost sampleSettings ⟨"/"⟩ (.ofDisk (occupiedDisk name))

theorem answered_of_forall {host : Host} {T : Disk → Disk → Prop} {made : List Call}
    (h : ∀ before, ∀ call ∈ made, T call.disk (host.launch before call).disk) :
    ∀ before, Answered host T before made := by
  induction made with
  | nil => exact fun _ => trivial
  | cons call made ih =>
    exact fun before => ⟨h before call List.mem_cons_self,
      ih (fun before c hc => h before c (List.mem_cons_of_mem _ hc)) _⟩

/-- The reducer writes its program, and nothing else, if no link is on the way. -/
theorem considerate_sampleHost {given : Settings} {base : Path} {root P : Location} (n : Node)
    {call : Call} (hstraight : call.disk.Straight ["w", "temp", "autoPieOut.c"])
    (hP : P ≠ ["w", "temp", "autoPieOut.c"]) (before : List Call) :
    Considerate given base root P n call.disk (sampleHost.launch before call).disk := by
  simp only [sampleHost]
  split
  · rename_i d hwrite
    obtain ⟨hlinks, k, halters⟩ := write_at hstraight (by decide) hwrite
    refine ⟨fun Q hQ => ?_, fun h => h.of_links hlinks, fun _ => ⟨hlinks, fun h => ?_⟩⟩
    · obtain ⟨l, hl, hnot, -⟩ := write_isOk.mp ⟨d, hwrite⟩
      obtain ⟨-, -, rfl⟩ := (locate_pathOf_iff hstraight.self (by decide)).mp hl
      rw [halters.other fun e => hnot (e ▸ hQ), hQ]
    · rw [halters.other hP, h]
  · exact ⟨fun _ h => h, id, fun _ => ⟨.refl _, id⟩⟩

/-- A directory that is there before the reducer is called stays, with the file in it. -/
theorem run_keeps_occupied : (occupiedRun "temp").1.isOk = true ∧
    (occupiedRun "temp").2.calls.length = 1 ∧
    (occupiedRun "temp").2.disk.get? ["w", "temp", "user.txt"] =
      some (.file 2 "mine\n".toUTF8 false) := by
  have hd : (occupiedDisk "temp").Numbered := by
    refine numbered_of_entries ?_ ?_ <;> simp [occupiedDisk, sampleDisk, identity]
  have hmount : Mounts sampleSettings := by
    intro hb
    cases hb
  have hnested : (occupiedDisk "temp").Nested := nested_of_entries (by decide)
  have hn : (occupiedDisk "temp").get? ["w", "temp", "user.txt"] =
      some (.file 2 "mine\n".toUTF8 false) := by decide
  have hroot : (occupiedDisk "temp").placeOf (anchor ⟨"/"⟩ sampleSettings).workDir =
      some ["w"] := by decide +kernel
  have hthere : (occupiedDisk "temp").pathExists (anchor ⟨"/"⟩ sampleSettings).workDir = true := by
    decide +kernel
  have hstraight : (occupiedDisk "temp").Straight ["w"] := straight_of_entries (by decide)
  have houtput : (occupiedDisk "temp").placeOf (anchor ⟨"/"⟩ sampleSettings).outputPath ≠
      some ["w", "temp", "user.txt"] := by decide +kernel
  have hlinkless : ∀ call ∈ (occupiedRun "temp").2.calls, ∀ e ∈ call.disk.entries,
      isLink e.2 = false := by decide +kernel
  have hrun : occupiedRun "temp" = ((occupiedRun "temp").1, (occupiedRun "temp").2) :=
    (Prod.eta _).symm
  refine ⟨by decide +kernel, by decide +kernel, ?_⟩
  refine @run_keeps_entries sampleHost sampleSettings ⟨"/"⟩ (.ofDisk (occupiedDisk "temp")) _ ["w"]
    ["w", "temp", "user.txt"] _ _ (by decide) hd hmount hroot hthere
    (.of_straight hstraight) (hnested.reached hn (by decide)) hn (fun _ => ⟨by decide, houtput⟩) ?_
    hrun fun made e => ?_
  · intro language hlanguage stage henabled m hm _
    obtain rfl : Language.c = language := Option.some.inj hlanguage
    cases hm with
    | criteria | input | guarded => cases henabled
    | kept p | slice p _ | union p | extract p | extractLine p | sliced p =>
      cases p <;> cases henabled
    | mounted p hb hn => cases hb
    | reductionLine r => decide
    | reduction r | reduced r => cases r <;> decide
  · refine answered_of_forall (fun before call hcall => ?_) []
    have hmem : call ∈ (occupiedRun "temp").2.calls := by
      rw [e]
      exact List.mem_append_right _ hcall
    refine considerate_sampleHost _ (straight_of_entries fun e he hlink => ?_) (by decide) before
    rw [hlinkless call hmem e he] at hlink
    cases hlink

/-- The site of a run in the work directory. -/
def occupiedSite (name : String) : Site :=
  ⟨.ofDisk (occupiedDisk name), ⟨"", ⟨"/w"⟩, false, .empty, none, none⟩⟩

/-- A directory is removed with a file in it, if it has the name of the file with the line of a
reduction, which is so before a tool is called, or of the program that is copied from the reducer,
which keeps it. The name is in the ledger although it is found that there is no file to be removed. -/
theorem run_removes_directory :
    ((occupiedRun Artifacts.adjustedLineFile).1.isOk = true ∧
      (occupiedRun Artifacts.adjustedLineFile).2.calls = [] ∧
      (occupiedDisk Artifacts.adjustedLineFile).get? ["w", Artifacts.adjustedLineFile] =
        some .dir ∧
      (occupiedDisk Artifacts.adjustedLineFile).get?
          ["w", Artifacts.adjustedLineFile, "user.txt"] =
        some (.file 2 "mine\n".toUTF8 false) ∧
      (occupiedRun Artifacts.adjustedLineFile).2.disk.get? ["w", Artifacts.adjustedLineFile] =
        none ∧
      (occupiedRun Artifacts.adjustedLineFile).2.disk.get?
        ["w", Artifacts.adjustedLineFile, "user.txt"] = none) ∧
    (ToolsKeep sampleHost (occupiedDisk "statement_reduced.c") ["w", "statement_reduced.c"] .dir ∧
      (occupiedRun "statement_reduced.c").1.isOk = true ∧
      (occupiedDisk "statement_reduced.c").get? ["w", "statement_reduced.c"] = some .dir ∧
      (occupiedRun "statement_reduced.c").2.disk.get? ["w", "statement_reduced.c"] = none) ∧
    (Workspace.prepareOutput Artifacts.adjustedLineFile .statementReduce
        (occupiedSite Artifacts.adjustedLineFile)).1.isOk = false ∧
      (Workspace.release (Workspace.prepareOutput Artifacts.adjustedLineFile .statementReduce
        (occupiedSite Artifacts.adjustedLineFile)).2).2.world.disk.get?
          ["w", Artifacts.adjustedLineFile] = none := by
  refine ⟨?_, ⟨toolsKeep_sampleHost _ (straight_of_entries (by decide)) (by decide), ?_⟩, ?_⟩ <;>
    decide +kernel

end Pipeline

end Whittle
