import Whittle.Proofs.Disk.Nested
import Whittle.Proofs.Workspace.Sweep
import Whittle.Proofs.Workspace.Trail

/-!
# What the ledger accounts for

If the tools keep to their products (`Agreed`), then in a work directory that was there before
nothing changes along the trail of a run but what the ledger covers, and a directory in the ledger is
one that was not there (`Accounted.trail`).
-/

namespace Whittle

open Disk

/-- A disk with the links of another one, on which everything stands in a directory. -/
structure Disk.Orderly (d₀ d : Disk) : Prop where
  links : SameLinks d₀ d
  nested : d.Nested

/-- Operations in a directory without links leave a disk orderly. -/
theorem permits_orderly {d₀ : Disk} {root : Location} (hstraight : d₀.Straight root) :
    Permits (fun d d' => Orderly d₀ d → Orderly d₀ d') (root <+: ·) := by
  have hlinks := permits_links hstraight
  refine ⟨fun _ h => h, fun h h₁ hd => h₁ (h hd), ?_, ?_, ?_, ?_, ?_⟩
  · exact fun hm hnames h hd => ⟨hlinks.unlink hm hnames h hd.links, hd.nested.unlink h⟩
  · exact fun hm hnames h hd =>
      ⟨hlinks.write hm hnames h hd.links, hd.nested.write (isAbsolute_pathOf _) h⟩
  · exact fun hm hnames h hd =>
      ⟨hlinks.copy hm hnames h hd.links, hd.nested.copy (isAbsolute_pathOf _) h⟩
  · exact fun hm hnames hd =>
      ⟨hlinks.makeDirs hm hnames hd.links, hd.nested.makeDirs (starts_of_absolute (isAbsolute_pathOf _))⟩
  · intro d d' s t hs ht hsnames htnames hne h hd
    have hclear {m : Location} (hm : root <+: m) : d.Clear m :=
      (hd.links.straight hstraight).clear hm
    exact ⟨hlinks.rename hs ht hsnames htnames hne h hd.links,
      hd.nested.rename (starts_of_absolute (isAbsolute_pathOf _)) h⟩

/-! ## Tools that keep to their products -/

/-- A tool has made no links, and changed nothing in a directory but its products, and entries below
directories that were not there before. -/
structure Agreed (root : Location) (before : Disk) (products : List Location) (d d' : Disk) :
    Prop where
  links : SameLinks d d'
  nested : d.Nested → d'.Nested
  places : ∀ P, root <+: P → d'.get? P ≠ d.get? P →
    (∃ m ∈ products, m <+: P) ∨ ∃ k, root <+: k ∧ before.get? k = none ∧ d.get? k = some .dir ∧
      k <+: P ∧ k ≠ P

/-- So have all tools that were called between two rows of calls. -/
def Agrees (host : Host) (c : Charter) (root : Location) (before : Disk) (first last : List Call) :
    Prop :=
  ∀ earlier call, first <+: earlier → earlier ++ [call] <+: last →
    ∀ products, c.call call.program call.argv products →
      Agreed root before products call.disk (host.launch earlier call).disk

/-! ## One step -/

/-- A charter for a directory: files in it, and directories right in it with short names. -/
structure Charter.In (c : Charter) (root : Location) : Prop where
  product : ∀ m, c.product m → root <+: m ∧ m ≠ root
  directory : ∀ m, c.directory m → ∃ n, m = root ++ [n] ∧ n.utf8ByteSize ≤ nameLimit

/-- An orderly disk, and a ledger for a directory. -/
structure Tidy (root : Location) (d₀ : Disk) (s : Site) : Prop
    extends Disk.Orderly d₀ s.world.disk where
  within : s.workspace.ledger.Within root

/-- In a directory nothing has changed but what the ledger covers, and the directories that are in the
ledger were not there. -/
structure Accounted (c : Charter) (root : Location) (d₀ : Disk) (s : Site) : Prop
    extends Disk.Orderly d₀ s.world.disk where
  entered : ∀ a ∈ s.workspace.ledger.artifacts, ∃ m, (∀ n ∈ m, IsName n) ∧ a.path = pathOf m ∧
    (c.product m ∨ c.directory m ∧ (checkText (pathOf m).text = .ok () → d₀.get? m = none))
  frame : ∀ P, root <+: P → ¬ s.workspace.ledger.Covers P →
    s.world.disk.get? P = d₀.get? P

section

variable {host : Host} {c : Charter} {root : Location} {d₀ before : Disk} (hc : c.In root)
  (hstraight : d₀.Straight root)
include hc

theorem Charter.In.within (m : Location) (hm : c.product m ∨ c.directory m) :
    root <+: m ∧ m ≠ root := by
  rcases hm with hm | hm
  · exact hc.product m hm
  · obtain ⟨n, rfl, -⟩ := hc.directory m hm
    exact ⟨List.prefix_append root [n], by simp⟩

theorem Ledger.Within.register {k : Ledger} (h : k.Within root) {m : Location}
    (hm : c.product m ∨ c.directory m) (hnames : ∀ n ∈ m, IsName n) (owner : Stage) :
    (k.register (pathOf m) owner).Within root := by
  intro a ha
  unfold Ledger.register at ha
  split at ha
  · exact h a ha
  · rcases List.mem_append.mp ha with ha | ha
    · exact h a ha
    · rw [List.mem_singleton.mp ha]
      exact ⟨m, hnames, rfl, hc.within m hm⟩

include hstraight in
/-- A step leaves an orderly disk, if the tools do. -/
theorem Tidy.step {s s' : Site} (h : Tidy root d₀ s) (hstep : Step host c s s')
    (htools : Agrees host c root before s.world.calls s'.world.calls) : Tidy root d₀ s' := by
  cases hstep with
  | move hmove =>
    refine ⟨?_, h.within⟩
    cases hmove with
    | idle hdisk => exact hdisk ▸ h.toOrderly
    | operate hop =>
      exact hop.permitted (permits_orderly hstraight) (fun m hm => (hc.within m (.inl hm)).1)
        (fun m hm => (hc.within m (.inr hm)).1) h.toOrderly
    | call hcall =>
      have hagreed := htools _ _ (List.prefix_refl _) (List.prefix_refl _) _ hcall
      exact ⟨h.links.trans hagreed.links, hagreed.nested h.nested⟩
  | enter owner hm hnames => exact ⟨h.toOrderly, h.within.register hc (.inl hm) hnames owner⟩
  | create owner hm hnames => exact ⟨h.toOrderly, h.within.register hc (.inr hm) hnames owner⟩

omit hc in
/-- What a step keeps is kept along a trail. -/
theorem Trail.agrees_induct {I : Site → Prop}
    (hstep : ∀ s s', I s → Step host c s s' →
      Agrees host c root before s.world.calls s'.world.calls → I s')
    {s s' : Site} (htrail : Trail host c s s')
    (htools : Agrees host c root before s.world.calls s'.world.calls) (h : I s) : I s' := by
  induction htrail with
  | refl => exact h
  | tail hfirst hlast ih =>
    refine hstep _ _ (ih fun earlier call hs hend => ?_) hlast fun earlier call hs hend => ?_
    · exact htools earlier call hs (hend.trans hlast.calls)
    · exact htools earlier call ((Trail.calls hfirst).trans hs) hend

include hstraight in
theorem Tidy.trail {s s' : Site} (h : Tidy root d₀ s) (htrail : Trail host c s s')
    (htools : Agrees host c root before s.world.calls s'.world.calls) : Tidy root d₀ s' :=
  Trail.agrees_induct (fun _ _ h => h.step hc hstraight) htrail htools h

theorem Accounted.within {s : Site} (h : Accounted c root d₀ s) :
    s.workspace.ledger.Within root := by
  intro a ha
  obtain ⟨m, hm, hpath, hkind⟩ := h.entered a ha
  exact ⟨m, hm, hpath, hc.within m (hkind.imp id And.left)⟩

/-- The ledger does not cover its directory. -/
theorem Accounted.root_uncovered {s : Site} (h : Accounted c root d₀ s) :
    ¬ s.workspace.ledger.Covers root := by
  rintro ⟨a, ha, m, hm, hpath, habove⟩
  obtain ⟨k, hk, hpath', hbelow, hne⟩ := h.within hc a ha
  obtain rfl := pathOf_injective hk hm (congrArg Path.parts (hpath'.symm.trans hpath))
  exact hne (habove.eq_of_length_le hbelow.length_le)

omit hc in
/-- What is in the ledger is covered by it. -/
theorem Accounted.covers {s : Site} (h : Accounted c root d₀ s) {m : Location}
    (hm : ∀ n ∈ m, IsName n) (hlisted : s.workspace.ledger.contains (pathOf m) = true) :
    s.workspace.ledger.Covers m := by
  obtain ⟨a, ha, hsame⟩ := List.any_eq_true.mp hlisted
  obtain ⟨k, hk, hpath, -⟩ := h.entered a ha
  have hparts : a.path.parts = (pathOf m).parts := of_decide_eq_true hsame
  rw [hpath] at hparts
  exact ⟨a, ha, k, hk, hpath, pathOf_injective hk hm hparts ▸ List.prefix_refl m⟩

/-- Only what a ledger covers is changed by an operation on paths in it. -/
theorem Operates.uncovered {s : Site} (h : Accounted c root d₀ s) (hstraight : d₀.Straight root)
    (hroot : d₀.Entered root) {d : Disk} (hop : Operates c s.workspace s.world.disk d)
    {P : Location} (hP : root <+: P) (huncovered : ¬ s.workspace.ledger.Covers P) :
    d.get? P = s.world.disk.get? P := by
  have hlinks := h.links.straight hstraight
  have hcovered {m : Location} (hm : s.workspace.Lists c m) : s.workspace.ledger.Covers m :=
    h.covers hm.names hm.listed
  have hat {m : Location} (hm : s.workspace.Lists c m) : s.world.disk.Straight m :=
    hlinks.below (hc.product m hm.product).1
  have hne {m : Location} (hm : s.workspace.Lists c m) : P ≠ m := by
    rintro rfl
    exact huncovered (hcovered hm)
  cases hop with
  | unlink hm hunlink => exact (unlink_at (hat hm) hm.names hunlink).2.other (hne hm)
  | write hm hwrite =>
    obtain ⟨-, n, halters⟩ := write_at (hat hm) hm.names hwrite
    exact halters.other (hne hm)
  | copy hm hcopy =>
    obtain ⟨-, n, halters⟩ := copy_at (hat hm) hm.names hcopy
    exact halters.other (hne hm)
  | rename hm ht hmt hrename =>
    obtain ⟨-, -, hmoves⟩ := moves_of_rename hm.names ht.names hmt hrename (hat hm).self (hat ht).self
    exact hmoves.other P (fun hmP => huncovered ((hcovered hm).below hmP))
      fun htP => huncovered ((hcovered ht).below htP)
  | @makeDirs m hm hnames hlisted =>
    by_contra hchanged
    obtain ⟨hgone, -⟩ := ((grows_makeDirs _ _).get? P).resolve_left hchanged
    have hclear := hlinks.clear (hc.within m (.inr hm)).1
    obtain ⟨n, rfl, -⟩ := hc.directory m hm
    have hway := ((settled_pathOf hnames hclear).makeDirs h.nested (.refl _) (isAbsolute_pathOf _)
      (List.prefix_refl _) hchanged).resolve_right (by simp [hgone])
    -- the directory itself is there, so what is made is what was asked for
    obtain rfl : P = root ++ [n] := by
      refine (List.prefix_concat_iff.mp hway).resolve_right fun habove => ?_
      obtain rfl := habove.eq_of_length_le hP.length_le
      rw [h.frame P hP (h.root_uncovered hc), hroot.dir] at hgone
      cases hgone
    rcases hlisted with hlisted | hexists
    · exact huncovered (h.covers hnames hlisted)
    · unfold pathExists at hexists
      cases hstat : s.world.disk.stat (pathOf (root ++ [n])) with
      | error e => rw [hstat] at hexists; cases hexists
      | ok x =>
        obtain ⟨-, -, -, hnode⟩ := (stat_pathOf_iff hclear hnames).mp hstat
        rw [hgone] at hnode
        cases hnode

omit hc in
theorem Ledger.Covers.register {k : Ledger} {P : Location} (h : k.Covers P) (p : Path)
    (owner : Stage) : (k.register p owner).Covers P := by
  obtain ⟨a, ha, hcovers⟩ := h
  unfold Ledger.register
  split
  · exact ⟨a, ha, hcovers⟩
  · exact ⟨a, List.mem_append_left _ ha, hcovers⟩

omit hc in
theorem Accounted.register {s : Site} (h : Accounted c root d₀ s) {m : Location}
    (hm : ∀ n ∈ m, IsName n) (owner : Stage)
    (hkind : s.workspace.ledger.contains (pathOf m) = true ∨ c.product m ∨
      c.directory m ∧ (checkText (pathOf m).text = .ok () → d₀.get? m = none)) :
    Accounted c root d₀ (s.register (pathOf m) owner) where
  toOrderly := h.toOrderly
  entered a ha := by
    have ha : a ∈ (s.workspace.ledger.register (pathOf m) owner).artifacts := ha
    unfold Ledger.register at ha
    split at ha
    · exact h.entered a ha
    · rename_i hnew
      rcases List.mem_append.mp ha with ha | ha
      · exact h.entered a ha
      · rw [List.mem_singleton.mp ha]
        exact ⟨m, hm, rfl, hkind.resolve_left hnew⟩
  frame P hP huncovered := h.frame P hP fun hcovers => huncovered (hcovers.register _ _)

/-- A directory that is to be registered was not there before, or is in the ledger. -/
theorem Accounted.not_there {s : Site} (h : Accounted c root d₀ s) (hstraight : d₀.Straight root)
    (hroot : d₀.Entered root) {m : Location} (hm : c.directory m) (hnames : ∀ n ∈ m, IsName n)
    (hnew : s.world.disk.pathExists (pathOf m) = false) :
    s.workspace.ledger.contains (pathOf m) = true ∨
      (checkText (pathOf m).text = .ok () → d₀.get? m = none) := by
  obtain ⟨n, rfl, hsize⟩ := hc.directory m hm
  have habove := List.prefix_append root [n]
  by_cases hcovers : s.workspace.ledger.Covers (root ++ [n])
  · obtain ⟨a, ha, k, hk, hpath, hbelow⟩ := hcovers
    obtain ⟨k', hk', hpath', hwithin, hne⟩ := h.within hc a ha
    obtain rfl := pathOf_injective hk' hk (congrArg Path.parts (hpath'.symm.trans hpath))
    obtain rfl : k' = root ++ [n] := (List.prefix_concat_iff.mp hbelow).resolve_right fun habove =>
      hne (habove.eq_of_length_le hwithin.length_le)
    exact .inl (List.any_eq_true.mpr ⟨a, ha, by rw [hpath]; exact decide_eq_true rfl⟩)
  · refine .inr fun hcheck => ?_
    rw [← h.frame _ habove hcovers]
    by_contra hthere
    obtain ⟨node, hnode⟩ := Option.ne_none_iff_exists'.mp hthere
    have hreached : Reached s.world.disk (root ++ [n]) := by
      refine h.nested.reached hnode fun k hk => ⟨hnames k hk, ?_⟩
      rcases List.mem_append.mp hk with hk | hk
      · exact (hroot.reached.names k hk).2
      · rw [List.mem_singleton.mp hk]
        exact hsize
    have hstat := (stat_pathOf_iff ((h.links.straight hstraight).clear habove) hnames).mpr
      ⟨hcheck, hreached, rfl, hnode⟩
    rw [pathExists, hstat] at hnew
    cases hnew

omit hc in
/-- A call of a tool that keeps to its products changes only what the ledger covers. -/
theorem Agreed.uncovered {s : Site} (h : Accounted c root d₀ s)
    (hbefore : ∀ k, root <+: k → before.get? k = none → d₀.get? k ≠ some .dir)
    {products : List Location} (hlisted : ∀ m ∈ products, s.workspace.Lists c m) {d : Disk}
    (hagreed : Agreed root before products s.world.disk d) {P : Location} (hP : root <+: P)
    (huncovered : ¬ s.workspace.ledger.Covers P) : d.get? P = s.world.disk.get? P := by
  by_contra hchanged
  rcases hagreed.places P hP hchanged with ⟨m, hm, hmP⟩ | ⟨k, hk, hnew, hdir, hkP, -⟩
  · have hm := hlisted m hm
    exact huncovered ((h.covers hm.names hm.listed).below hmP)
  · by_cases hcovers : s.workspace.ledger.Covers k
    · exact huncovered (hcovers.below hkP)
    · rw [h.frame k hk hcovers] at hdir
      exact hbefore k hk hnew hdir

variable (hroot : d₀.Entered root)
  (hbefore : ∀ k, root <+: k → before.get? k = none → d₀.get? k ≠ some .dir)
include hstraight hroot hbefore

theorem Accounted.step {s s' : Site} (h : Accounted c root d₀ s) (hstep : Step host c s s')
    (htools : Agrees host c root before s.world.calls s'.world.calls) :
    Accounted c root d₀ s' := by
  have htidy := Tidy.step hc hstraight ⟨h.toOrderly, h.within hc⟩ hstep htools
  cases hstep with
  | move hmove =>
    refine ⟨htidy.toOrderly, h.entered, fun P hP huncovered => .trans ?_ (h.frame P hP huncovered)⟩
    cases hmove with
    | idle hdisk => rw [hdisk]
    | operate hop => exact hop.uncovered hc h hstraight hroot hP huncovered
    | call hcall hlisted =>
      have hagreed := htools _ _ (List.prefix_refl _) (List.prefix_refl _) _ hcall
      exact hagreed.uncovered h hbefore hlisted hP huncovered
  | enter owner hm hnames => exact h.register hnames owner (.inr (.inl hm))
  | create owner hm hnames hnew =>
    refine h.register hnames owner ?_
    exact (h.not_there hc hstraight hroot hm hnames hnew).imp id fun hfresh => .inr ⟨hm, hfresh⟩

/-- Whatever happens along a trail, the ledger accounts for it. -/
theorem Accounted.trail {s s' : Site} (h : Accounted c root d₀ s) (htrail : Trail host c s s')
    (htools : Agrees host c root before s.world.calls s'.world.calls) :
    Accounted c root d₀ s' :=
  Trail.agrees_induct (fun _ _ h => h.step hc hstraight hroot hbefore) htrail htools h

end

end Whittle
