import Whittle.Proofs.Disk.Direct
import Whittle.Proofs.Workspace.Release

/-!
# What a cleanup does

A path is registered unless a path with the same parts is; so the paths of a ledger are distinct. A
cleanup accounts for each of them: it is removed, was gone before, or is reported as failed, and
what is not reported is not there any more. Nothing else changes, nor what links lead to, however
the paths lie above and below each other (`drain_exact`). A slash behind a link is another thing:
then the removal follows the link (`drain_follows_link`).
-/

namespace Whittle

open Disk

/-! ## Registering -/

theorem Path.same_congr {p q r : Path} (h : p.same q = true) : p.same r = q.same r := by
  have hparts : p.parts = q.parts := of_decide_eq_true h
  unfold same
  rw [hparts]

/-- A workspace registers as its ledger does. -/
theorem Workspace.register_enters (p : Path) (owner : Stage) (s : Site) :
    Workspace.register p owner s = (.ok (s.workspace.ledger.enter p owner).1,
      { s with workspace :=
        { s.workspace with ledger := (s.workspace.ledger.enter p owner).2 } }) := rfl

namespace Ledger

/-- The ledger after some calls of `enter`. -/
def enterAll (l : Ledger) (calls : List (Path × Stage)) : Ledger :=
  calls.foldl (fun l c => (l.enter c.1 c.2).2) l

theorem contains_iff {l : Ledger} {p : Path} :
    l.contains p = true ↔ ∃ a ∈ l.artifacts, a.path.same p = true := List.any_eq_true

/-- A path is in the ledger once it was entered, and the others are there as they were. -/
theorem contains_enter (l : Ledger) (p q : Path) (owner : Stage) :
    (l.enter p owner).2.contains q = (l.contains q || p.same q) := by
  unfold enter register
  dsimp only
  split
  · rename_i hknown
    cases hsame : p.same q with
    | false => rw [Bool.or_false]
    | true =>
      obtain ⟨a, ha, h⟩ := contains_iff.mp hknown
      rw [Bool.or_true]
      exact contains_iff.mpr ⟨a, ha, (Path.same_congr h).trans hsame⟩
  · unfold contains
    rw [List.any_append, List.any_cons, List.any_nil, Bool.or_false]

theorem contains_enterAll (l : Ledger) (calls : List (Path × Stage)) (q : Path) :
    (l.enterAll calls).contains q = (l.contains q || calls.any fun c => c.1.same q) := by
  induction calls generalizing l with
  | nil => exact (Bool.or_false _).symm
  | cons c calls ih =>
    show ((l.enter c.1 c.2).2.enterAll calls).contains q = _
    rw [ih, contains_enter, List.any_cons, Bool.or_assoc]

/-- No two artifacts have the same path. -/
def Distinct (l : Ledger) : Prop :=
  l.artifacts.Pairwise fun a b => a.path.same b.path = false

theorem Distinct.enter {l : Ledger} (h : l.Distinct) (p : Path) (owner : Stage) :
    (l.enter p owner).2.Distinct := by
  unfold Ledger.enter register
  dsimp only
  split
  · exact h
  · rename_i hnew
    refine List.pairwise_append.mpr ⟨h, List.pairwise_singleton _ _, fun a ha b hb => ?_⟩
    obtain rfl := List.mem_singleton.mp hb
    exact Bool.eq_false_iff.mpr fun hsame => hnew (contains_iff.mpr ⟨a, ha, hsame⟩)

theorem Distinct.enterAll {l : Ledger} (h : l.Distinct) (calls : List (Path × Stage)) :
    (l.enterAll calls).Distinct := by
  induction calls generalizing l with
  | nil => exact h
  | cons c calls ih => exact ih (h.enter c.1 c.2)

/-- Every artifact comes from a call, or was there before. -/
theorem mem_enterAll {l : Ledger} {calls : List (Path × Stage)} {a : Artifact}
    (ha : a ∈ (l.enterAll calls).artifacts) :
    a ∈ l.artifacts ∨ (a.path, a.owner) ∈ calls := by
  induction calls generalizing l with
  | nil => exact .inl ha
  | cons c calls ih =>
    rcases ih ha with ha | ha
    · unfold enter register at ha
      dsimp only at ha
      split at ha
      · exact .inl ha
      · rcases List.mem_append.mp ha with ha | ha
        · exact .inl ha
        · obtain rfl := List.mem_singleton.mp ha
          exact .inr List.mem_cons_self
    · exact .inr (List.mem_cons_of_mem _ ha)

end Ledger

/-! ## Sweeping -/

/-- What is known once some artifacts have been swept. -/
structure Sweeps (as : List Artifact) (w : World) (s : CleanupReport × World) : Prop where
  trims : Trims w.disk s.2.disk
  count : s.1.removed + s.1.alreadyGone + s.1.failed.length = as.length
  absent : ∀ a ∈ as, s.2.disk.lstat a.path = .error .notFound ∨ ∃ f ∈ s.1.failed, f.path = a.path
  registered : ∀ f ∈ s.1.failed, ∃ a ∈ as, f.path = a.path
  other : ∀ P, (∀ a ∈ as, ¬ w.disk.spot a.path <+: P) → s.2.disk.get? P = w.disk.get? P

theorem Sweeps.nil (w : World) : Sweeps [] w (CleanupReport.empty, w) where
  trims := .refl w.disk
  count := rfl
  absent _ ha := nomatch ha
  registered _ hf := nomatch hf
  other _ _ := rfl

/-- An artifact is gone and counted, or reported. -/
theorem sweepOne_report (a : Artifact) (s : CleanupReport × World) :
    (∃ b, (s.2.disk.removeArtifact a.path).1 = .ok b ∧
      (Ledger.sweepOne a s).1.failed = s.1.failed ∧
      (Ledger.sweepOne a s).1.removed + (Ledger.sweepOne a s).1.alreadyGone =
        s.1.removed + s.1.alreadyGone + 1) ∨
    ∃ e, (Ledger.sweepOne a s).1.failed = s.1.failed ++ [⟨a.path, e⟩] ∧
      (Ledger.sweepOne a s).1.removed + (Ledger.sweepOne a s).1.alreadyGone =
        s.1.removed + s.1.alreadyGone := by
  unfold Ledger.sweepOne
  dsimp only
  split
  · rename_i hremoved
    exact .inl ⟨true, hremoved, rfl, Nat.add_right_comm _ _ _⟩
  · rename_i hgone
    exact .inl ⟨false, hgone, rfl, rfl⟩
  · rename_i e _
    exact .inr ⟨e, rfl, rfl⟩

theorem Sweeps.cons {as : List Artifact} {w : World} {s : CleanupReport × World} {a : Artifact}
    (h : Sweeps as w s) (ha : a.path.Direct w.disk) (has : ∀ b ∈ as, b.path.Direct w.disk) :
    Sweeps (a :: as) w (Ledger.sweepOne a s) := by
  have hdisk := (sweepOne_world a s).1
  have hstep : Trims s.2.disk (Ledger.sweepOne a s).2.disk := by
    rw [hdisk]
    exact .removeArtifact _ a.path
  have hnow := ha.trims h.trims
  have habsent (b : Artifact) (hb : b ∈ as) :
      (Ledger.sweepOne a s).2.disk.lstat b.path = .error .notFound ∨
        ∃ f ∈ s.1.failed, f.path = b.path :=
    (h.absent b hb).imp_left ((has b hb).trims h.trims |>.stays_missing hstep)
  have hother (P : Location) (hP : ∀ b ∈ a :: as, ¬ w.disk.spot b.path <+: P) :
      (Ledger.sweepOne a s).2.disk.get? P = w.disk.get? P := by
    rw [hdisk, hnow.sheds_removed.other P, h.other P fun b hb => hP b (List.mem_cons_of_mem _ hb)]
    rw [Path.Direct.spot_trims h.trims]
    exact hP a List.mem_cons_self
  rcases sweepOne_report a s with ⟨b, hremoved, hfailed, hcount⟩ | ⟨e, hfailed, hcount⟩
  · refine ⟨h.trims.trans hstep, ?_, fun c hc => ?_, fun f hf => ?_, hother⟩
    · rw [hfailed, hcount, List.length_cons, ← h.count]
      omega
    · rw [hfailed]
      rcases List.mem_cons.mp hc with rfl | hc
      · rw [hdisk]
        exact .inl (hnow.missing_of_removed (Prod.ext hremoved rfl))
      · exact habsent c hc
    · obtain ⟨c, hc, hpath⟩ := h.registered f (hfailed ▸ hf)
      exact ⟨c, List.mem_cons_of_mem _ hc, hpath⟩
  · refine ⟨h.trims.trans hstep, ?_, fun c hc => ?_, fun f hf => ?_, hother⟩
    · rw [hfailed, hcount, List.length_append, List.length_singleton, List.length_cons, ← h.count]
      omega
    · rw [hfailed]
      rcases List.mem_cons.mp hc with rfl | hc
      · exact .inr ⟨_, List.mem_append_right _ List.mem_cons_self, rfl⟩
      · exact (habsent c hc).imp_right fun ⟨f, hf, hpath⟩ =>
          ⟨f, List.mem_append_left _ hf, hpath⟩
    · rw [hfailed] at hf
      rcases List.mem_append.mp hf with hf | hf
      · obtain ⟨c, hc, hpath⟩ := h.registered f hf
        exact ⟨c, List.mem_cons_of_mem _ hc, hpath⟩
      · obtain rfl := List.mem_singleton.mp hf
        exact ⟨a, List.mem_cons_self, rfl⟩

theorem sweeps_cleanup {l : Ledger} {w : World}
    (hdirect : ∀ a ∈ l.artifacts, a.path.Direct w.disk) : Sweeps l.artifacts w (l.cleanup w) := by
  obtain ⟨artifacts⟩ := l
  show Sweeps artifacts w (artifacts.foldr Ledger.sweepOne (CleanupReport.empty, w))
  induction artifacts with
  | nil => exact .nil w
  | cons a as ih =>
    have has (b : Artifact) (hb : b ∈ as) := hdirect b (List.mem_cons_of_mem _ hb)
    exact (ih has).cons (hdirect a List.mem_cons_self) has

namespace Ledger

/-- After any calls, a path is new if no path with the same parts is in the ledger, that is, if no
call was for one; and no two paths of the ledger are the same. A cleanup then leaves an empty
ledger, its report accounts for every artifact, and what it does not report is not there any more;
what stands neither at nor below one of the paths is as it was. A second cleanup does nothing. -/
theorem drain_exact {calls : List (Path × Stage)} {w : World}
    (hdirect : ∀ c ∈ calls, c.1.Direct w.disk) :
    let l := empty.enterAll calls
    let r := l.drain w
    (∀ p owner, ((l.enter p owner).1 = true ↔ ∀ a ∈ l.artifacts, a.path.same p = false) ∧
      ((l.enter p owner).1 = true ↔ ∀ c ∈ calls, c.1.same p = false)) ∧
    l.Distinct ∧ r.2.1 = .empty ∧
    r.1.removed + r.1.alreadyGone + r.1.failed.length = l.count ∧
    (∀ a ∈ l.artifacts,
      r.2.2.disk.lstat a.path = .error .notFound ∨ ∃ f ∈ r.1.failed, f.path = a.path) ∧
    (∀ f ∈ r.1.failed, ∃ a ∈ l.artifacts, f.path = a.path) ∧
    (∀ P, (∀ a ∈ l.artifacts, ¬ w.disk.spot a.path <+: P) →
      r.2.2.disk.get? P = w.disk.get? P) ∧
    r.2.1.drain r.2.2 = (CleanupReport.empty, .empty, r.2.2) := by
  intro l r
  have hlisted : ∀ a ∈ l.artifacts, a.path.Direct w.disk := by
    intro a ha
    rcases mem_enterAll ha with hnone | hcall
    · exact nomatch hnone
    · exact hdirect _ hcall
  obtain ⟨-, hcount, habsent, hregistered, hother⟩ := sweeps_cleanup hlisted
  refine ⟨fun p owner => ⟨?_, ?_⟩, Distinct.enterAll .nil calls, rfl, hcount, habsent, hregistered,
    hother, rfl⟩
  · show (!l.contains p) = true ↔ _
    rw [Bool.not_eq_true', contains, List.any_eq_false]
    simp only [Bool.not_eq_true]
  · show (!l.contains p) = true ↔ _
    rw [Bool.not_eq_true', contains_enterAll, show empty.contains p = false from rfl,
      Bool.false_or, List.any_eq_false]
    simp only [Bool.not_eq_true]

/-- Files, a directory, a link to a file, and a link to nothing. -/
def linkedDisk : Disk where
  entries :=
    [(["work"], .dir), (["work", "sub"], .dir), (["work", "sub", "f"], .file 0 "f".toUTF8 false),
      (["work", "sub", "link"], .link "../../keep"), (["keep"], .dir),
      (["keep", "user.txt"], .file 1 "mine".toUTF8 false), (["link"], .link "keep"),
      (["gone"], .link "nowhere")]
  cwd := ["work"]
  nextId := 2
  locked := []

/-- A directory below one that comes later, a file where a directory is asked for, a path that is
written twice, links at the end, and a path with nothing there. -/
def nestedCalls : List (Path × Stage) :=
  [(⟨"sub//link"⟩, .staticSlice), (⟨"/work/sub"⟩, .staticSlice), (⟨"sub/f/"⟩, .dynamicSlice),
    (⟨"/work/./sub/"⟩, .dynamicSlice), (⟨"/link"⟩, .save), (⟨"/gone"⟩, .save),
    (⟨"missing"⟩, .save)]

theorem drain_exact_nested :
    (∀ c ∈ nestedCalls, c.1.Direct linkedDisk) ∧
    let l := empty.enterAll nestedCalls
    let r := l.drain (.ofDisk linkedDisk)
    (r.1.removed, r.1.alreadyGone, r.1.failed.map Leftover.path) = (3, 2, [⟨"sub/f/"⟩]) ∧
    (∀ a ∈ l.artifacts,
      r.2.2.disk.lstat a.path = .error .notFound ∨ ∃ f ∈ r.1.failed, f.path = a.path) ∧
    r.2.2.disk.get? ["keep", "user.txt"] = linkedDisk.get? ["keep", "user.txt"] := by
  have hdirect : ∀ c ∈ nestedCalls, c.1.Direct linkedDisk := by
    have hcheck : nestedCalls.all (fun c =>
        linkedDisk.goesDirect (linkedDisk.startOf c.1.text) (stepsOf c.1.text)) = true := by
      decide +kernel
    exact fun c hc => direct_of_goesDirect (List.all_eq_true.mp hcheck c hc)
  have houtside : ∀ a ∈ (empty.enterAll nestedCalls).artifacts,
      ¬ linkedDisk.spot a.path <+: ["keep", "user.txt"] := by
    decide +kernel
  obtain ⟨-, -, -, -, habsent, -, hother, -⟩ := drain_exact (w := .ofDisk linkedDisk) hdirect
  exact ⟨hdirect, by decide +kernel, habsent, hother _ houtside⟩

/-- A slash behind a link: the removal follows the link, empties the directory there, and the link
stays. If it leads to nothing it is said to be gone. -/
theorem drain_follows_link :
    let r := (empty.enterAll [(⟨"/link/"⟩, .save)]).drain (.ofDisk linkedDisk)
    r.1 = ⟨0, 0, [⟨⟨"/link/"⟩, .system .notDirectory⟩]⟩ ∧
    linkedDisk.get? ["keep", "user.txt"] ≠ none ∧
    r.2.2.disk.get? ["keep", "user.txt"] = none ∧
    r.2.2.disk.get? ["link"] = some (.link "keep") ∧
    let r' := (empty.enterAll [(⟨"/gone/"⟩, .save)]).drain (.ofDisk linkedDisk)
    r'.1 = ⟨0, 1, []⟩ ∧ r'.2.2.disk.get? ["gone"] = some (.link "nowhere") := by
  decide +kernel

end Ledger

end Whittle
