import Whittle.Proofs.Disk.Alike

/-!
# Changes of disks that are alike

An operation on an open path does the same to two disks that are alike. What is removed, or copied
to, is the same on both afterwards (`Alike.cleared`, `Alike.copy`), whatever files were there before;
what is moved takes with it that it is the same (`Alike.rename`).
-/

namespace Whittle.Disk

/-- A disk without the file at a path, if one was there. -/
def cleared (d : Disk) (p : Path) : Except IoError Disk :=
  match d.unlink p with
  | .ok d' => .ok d'
  | .error e => if e.isNotFound then .ok d else .error e

namespace Alike

variable {S F F' : Set Location} {d d' : Disk} (h : Alike S F d d')
include h

/-! ## Changes of one place -/

/-- A change at one place to what is the same on both disks, if no directory was there. -/
theorem alters {e e' : Disk} {l : Location} {n n' : Option Node} (ha : Alters d e l n)
    (ha' : Alters d' e' l n') (hn : Like n n') (hdir : d.get? l ≠ some .dir)
    (hdir' : d'.get? l ≠ some .dir) (hnested : e.Nested) (hnested' : e'.Nested) :
    Alike S (insert l F) e e' where
  nested := hnested
  nested' := hnested'
  apart P hP := by
    rw [ha.get?, ha'.get?]
    split
    · exact hn
    · exact h.apart P hP
  fresh m hm P hP := by
    rw [ha.get?, ha'.get?]
    split
    · exact hn
    · rename_i hne
      rcases hm with rfl | hm
      · rw [h.nested.below hdir hP (Ne.symm hne), h.nested'.below hdir' hP (Ne.symm hne)]
        exact .none
      · exact h.fresh m hm P hP
  rest P := by
    unfold Free
    rw [ha.get?, ha'.get?]
    split
    · exact .inl hn
    · exact h.rest P

/-- A file or a device may be written to a place at which it is then the same on both. -/
theorem puts {l : Location} {n n' : Node} {e e' : Disk} (ha : Alters d e l (some n))
    (ha' : Alters d' e' l (some n')) (hn : Like (some n) (some n')) (hdir : d.get? l ≠ some .dir)
    (hdir' : d'.get? l ≠ some .dir) (hreached : Reached d l) (hreached' : Reached d' l) :
    Alike S (insert l F) e e' :=
  h.alters ha ha' hn hdir hdir' (h.nested.alters ha hdir fun _ => hreached)
    (h.nested'.alters ha' hdir' fun _ => hreached')

/-- What has been taken away is the same on both. -/
theorem takes {l : Location} {e e' : Disk} (ha : Alters d e l none) (ha' : Alters d' e' l none)
    (hdir : d.get? l ≠ some .dir) (hdir' : d'.get? l ≠ some .dir) :
    Alike S (insert l F) e e' :=
  h.alters ha ha' .none hdir hdir' (h.nested.alters ha hdir fun hn => absurd rfl hn)
    (h.nested'.alters ha' hdir' fun hn => absurd rfl hn)

/-- Either a directory is at a place on both disks, or on none of them. -/
theorem dir_or (P : Location) :
    d.get? P = some .dir ∧ d'.get? P = some .dir ∨
      d.get? P ≠ some .dir ∧ d'.get? P ≠ some .dir := by
  rcases h.rest P with hlike | ⟨hfree, hfree'⟩
  · generalize d.get? P = n, d'.get? P = n' at hlike
    cases hlike <;> simp
  · exact .inr ⟨hfree.not_dir, hfree'.not_dir⟩

/-- Either a device is at a place on both disks, or what is there is free or a directory. -/
theorem sink_or (P : Location) :
    d.get? P = some .sink ∧ d'.get? P = some .sink ∨
      d.get? P = some .dir ∧ d'.get? P = some .dir ∨ d.Free P ∧ d'.Free P := by
  rcases h.rest P with hlike | hfree
  · unfold Free
    generalize d.get? P = n, d'.get? P = n' at hlike
    cases hlike <;> simp
  · exact .inr (.inr hfree)

/-! ## Removing files -/

theorem unlink {p : Path} (hp : Known S F p) :
    Matches (Alike S F) (d.unlink p) (d'.unlink p) := by
  have hlocate := h.locateEntry hp.toOpen
  cases hl : d.locateEntry p with
  | error e =>
    rw [hl] at hlocate
    simp only [Disk.unlink, hl, ← hlocate]
    exact .error _
  | ok l =>
    rw [hl] at hlocate
    simp only [Disk.unlink, hl, ← hlocate]
    have hlike := h.like (P := l) (by
      rw [goal_of_locateEntry hp.toOpen h.linkless.1 hl]
      exact hp.known)
    have htaken (hdir : d.get? l ≠ some .dir) (hdir' : d'.get? l ≠ some .dir) :
        Alike S F (d.erase l) (d'.erase l) :=
      (h.takes (alters_erase (not_root hdir)) (alters_erase (not_root hdir)) hdir hdir').mono
        (Set.subset_insert l F)
    generalize hn : d.get? l = n, hn' : d'.get? l = n' at hlike
    cases hlike with
    | none => exact .error _
    | dir => exact .error _
    | sink =>
      dsimp only
      split
      · exact .error _
      · exact .ok (htaken (by simp [hn]) (by simp [hn']))
    | file =>
      dsimp only
      split
      · exact .error _
      · exact .ok (htaken (by simp [hn]) (by simp [hn']))

omit h in
/-- The disk without the file at a path. -/
theorem cleared_of_not_dir {m : Location} (hd : d.Linkless) (hm : ∀ n ∈ m, IsName n)
    (hl : d.locateEntry (pathOf m) = .ok m) (hdir : d.get? m ≠ some .dir) :
    ∃ e, d.cleared (pathOf m) = .ok e ∧ Alters d e m none := by
  have hroot := not_root hdir
  cases hn : d.get? m with
  | none =>
    refine ⟨d, ?_, alters_same hroot hn⟩
    simp only [cleared, Disk.unlink, hl, hn]
    rfl
  | some n =>
    refine ⟨d.erase m, ?_, alters_erase hroot⟩
    cases n with
    | dir => exact absurd hn hdir
    | link target => exact absurd hn (hd m target)
    | file | sink =>
      simp only [cleared, Disk.unlink, hl, hn, endsInSlash_pathOf hm hroot]
      rfl

/-- Where a file was to be removed nothing is left, on both disks. -/
theorem cleared {m : Location} (hm : ∀ n ∈ m, IsName n) (hp : Open S (pathOf m)) :
    Matches (Alike S (insert m F)) (d.cleared (pathOf m)) (d'.cleared (pathOf m)) := by
  have hlocate := h.locateEntry hp
  have hnames := Path.names_pathOf hm
  cases hl : d.locateEntry (pathOf m) with
  | error e =>
    rw [hl] at hlocate
    simp only [Disk.cleared, Disk.unlink, hl, ← hlocate]
    split
    · rename_i hmissed
      have he : e = .notFound := by
        cases e <;> first | rfl | exact absurd hmissed (by decide)
      subst he
      have hnone := Nested.get?_of_locateEntry hnames h.nested (h.linkless.1.straight m) hl
      have hnone' := Nested.get?_of_locateEntry hnames h.nested' (h.linkless.2.straight m)
        hlocate.symm
      have hdir : d.get? m ≠ some .dir := by simp [hnone]
      exact .ok (h.takes (alters_same (not_root hdir) hnone) (alters_same (not_root hdir) hnone')
        hdir (by simp [hnone']))
    · exact .error _
  | ok l =>
    rw [hl] at hlocate
    obtain rfl : l = m := (goal_of_locateEntry hp h.linkless.1 hl).trans (goal_pathOf hm)
    rcases h.dir_or l with ⟨hdir, hdir'⟩ | ⟨hdir, hdir'⟩
    · simp only [Disk.cleared, Disk.unlink, hl, ← hlocate, hdir, hdir']
      exact .error _
    · obtain ⟨e, he, halters⟩ := cleared_of_not_dir h.linkless.1 hm hl hdir
      obtain ⟨e', he', halters'⟩ := cleared_of_not_dir h.linkless.2 hm hlocate.symm hdir'
      rw [he, he']
      exact .ok (h.takes halters halters' hdir hdir')

/-! ## Writing files -/

theorem write {p : Path} (hp : Known S F p) (content : ByteArray) (x : Bool) :
    Matches (Alike S F) (d.write p content x) (d'.write p content x) := by
  have hlocate := h.locate hp.toOpen .file
  cases hl : d.locate .file p with
  | error e =>
    rw [hl] at hlocate
    simp only [Disk.write, hl, ← hlocate]
    exact .error _
  | ok l =>
    rw [hl] at hlocate
    have hreached := locate_reached hp.absolute hl
    have hreached' := locate_reached hp.absolute hlocate.symm
    have hput {n n' : Node} {e e' : Disk} (hdir : d.get? l ≠ some .dir)
        (hdir' : d'.get? l ≠ some .dir) (ha : ∀ P, e.get? P = (d.put l n).get? P)
        (ha' : ∀ P, e'.get? P = (d'.put l n').get? P) (hn : Like (some n) (some n')) :
        Alike S F e e' :=
      (h.puts ⟨not_root hdir, fun P => (ha P).trans (get?_put d (not_root hdir) n P)⟩
        ⟨not_root hdir, fun P => (ha' P).trans (get?_put d' (not_root hdir) n' P)⟩
        hn hdir hdir' hreached hreached').mono (Set.subset_insert l F)
    have hlike := h.like (P := l) (by
      rw [goal_of_locate hp.toOpen h.linkless.1 hl]
      exact hp.known)
    simp only [Disk.write, hl, ← hlocate]
    generalize hn : d.get? l = n, hn' : d'.get? l = n' at hlike
    cases hlike with
    | none =>
      exact .ok (hput (by simp [hn]) (by simp [hn']) (fun _ => rfl) (fun _ => rfl)
        (.file d.nextId d'.nextId content x))
    | dir => exact .error _
    | sink => exact .ok h
    | file id id' old x' =>
      exact .ok (hput (by simp [hn]) (by simp [hn']) (fun _ => rfl) (fun _ => rfl)
        (.file id id' content x'))

end Alike

theorem hasChildren_iff {d : Disk} {l : Location} :
    d.hasChildren l = true ↔ ∃ P, l <+: P ∧ P ≠ l ∧ d.get? P ≠ none := by
  have hroot {P : Location} (hP : l <+: P) (hne : P ≠ l) : P ≠ [] := by
    rintro rfl
    exact hne (List.prefix_nil.mp hP).symm
  have hbelow : d.hasChildren l = true ↔ d.below l ≠ [] := by
    rw [hasChildren, Bool.not_eq_true', List.isEmpty_eq_false_iff]
  rw [hbelow, below, Ne, List.filterMap_eq_nil_iff, not_forall]
  constructor
  · rintro ⟨e, he⟩
    obtain ⟨hmem, hsome⟩ := Classical.not_imp.mp he
    by_cases hin : l.isPrefixOf e.1 = true ∧ e.1 ≠ l
    · have hprefix := List.isPrefixOf_iff_prefix.mp hin.1
      exact ⟨e.1, hprefix, hin.2, get?_of_mem hmem (hroot hprefix hin.2)⟩
    · exact absurd (if_neg hin) hsome
  · rintro ⟨P, hP, hne, hnode⟩
    obtain ⟨n, hn⟩ := Option.ne_none_iff_exists'.mp hnode
    rw [get?, if_neg (hroot hP hne)] at hn
    refine ⟨(P, n), Classical.not_imp.mpr ⟨mem_of_valueAt hn, ?_⟩⟩
    rw [if_pos ⟨List.isPrefixOf_iff_prefix.mpr hP, hne⟩]
    simp

/-- What a move takes along, and what it leaves. -/
theorem rename_places {S : Set Location} {d d' : Disk} (hnested : d.Nested) (hd : d.Linkless)
    {s t : Location} (hs : ∀ n ∈ s, IsName n) (ht : ∀ n ∈ t, IsName n)
    (hsopen : Open S (pathOf s)) (htopen : Open S (pathOf t))
    (hrename : d.rename (pathOf s) (pathOf t) = .ok d') :
    (s = t → d' = d) ∧ (s ≠ t → (∀ rest, d'.get? (t ++ rest) = d.get? (s ++ rest)) ∧ d'.Gone s ∧
      ∀ P, ¬ (t <+: P ∨ s <+: P) → d'.get? P = d.get? P) := by
  obtain ⟨l, k, hl, hk, hsame, hmoved⟩ := rename_tree hnested hrename
  obtain rfl : l = s := (Alike.goal_of_locateEntry hsopen hd hl).trans (goal_pathOf hs)
  obtain rfl : k = t := (Alike.goal_of_locateEntry htopen hd hk).trans (goal_pathOf ht)
  refine ⟨hsame, fun hne => ?_⟩
  obtain ⟨-, htarget, hgone⟩ := hmoved hne
  obtain ⟨-, -, hmoves⟩ := moves_of_rename hs ht hne hrename (hd.clear l) (hd.clear k)
  exact ⟨htarget, hgone, fun P hP => hmoves.other P (fun h => hP (.inr h)) fun h => hP (.inl h)⟩

/-- A copy to a place that is free makes a file there. -/
theorem copy_free {d : Disk} {source target : Path} {place l : Location} {id : Nat}
    {content : ByteArray} {x : Bool} (hsource : d.stat source = .ok (place, .file id content x))
    (hl : d.locate .file target = .ok l) (hfree : d.Free l) :
    ∃ d' id', d.copy source target = .ok d' ∧
      Alters d d' l (some (.file id' (if place = l then ByteArray.empty else content) x)) := by
  have hroot := not_root hfree.not_dir
  have hempty : ∃ emptied id' x', d.write target ByteArray.empty x = .ok emptied ∧
      Alters d emptied l (some (.file id' ByteArray.empty x')) := by
    rcases hfree with e | ⟨id', old, x', e⟩
    · have hput : Alters d (d.put l (.file d.nextId ByteArray.empty x)) l _ := alters_put hroot _
      refine ⟨{ d.put l (.file d.nextId ByteArray.empty x) with nextId := d.nextId + 1 }, d.nextId,
        x, ?_, hput.not_root, hput.get?⟩
      simp only [Disk.write, hl, e]
    · refine ⟨d.put l (.file id' ByteArray.empty x'), id', x', ?_, alters_put hroot _⟩
      simp only [Disk.write, hl, e]
  obtain ⟨emptied, id', x', hwrite, halters⟩ := hempty
  have hgoal := (ways_write hwrite).locate hl
  have hcontent : emptied.contentAt place = if place = l then ByteArray.empty else content := by
    rw [contentAt]
    split_ifs with hplace
    · rw [hplace, halters.self]
    · rw [halters.other hplace, (stat_eq_ok hsource).2]
  refine ⟨emptied.put l (.file id' (emptied.contentAt place) x), id', ?_,
    halters.trans (hcontent ▸ alters_put hroot _)⟩
  simp only [Disk.copy, hsource, hwrite, hgoal, halters.self]

namespace Alike

variable {S F : Set Location} {d d' : Disk} (h : Alike S F d d')
include h

/-- What is copied to is the same on both disks, whatever files were there before. -/
theorem copy {source target : Path} (hs : Known S F source) (ht : Open S target) :
    Matches (Alike S (insert (goal target) F)) (d.copy source target) (d'.copy source target) := by
  have hfound := h.stat hs
  have hlocate := h.locate ht .file
  generalize hr : d.stat source = r, hr' : d'.stat source = r' at hfound
  cases hfound with
  | error e =>
    simp only [Disk.copy, hr, hr']
    exact .error _
  | dir place =>
    simp only [Disk.copy, hr, hr']
    exact .error _
  | sink place =>
    simp only [Disk.copy, hr, hr']
    exact .error _
  | file place id id' content x =>
    cases hl : d.locate .file target with
    | error e =>
      rw [hl] at hlocate
      simp only [Disk.copy, Disk.write, hr, hr', hl, ← hlocate]
      exact .error _
    | ok l =>
      rw [hl] at hlocate
      obtain rfl : l = goal target := goal_of_locate ht h.linkless.1 hl
      rcases h.sink_or (goal target) with ⟨hn, hn'⟩ | ⟨hn, hn'⟩ | ⟨hfree, hfree'⟩
      · simp only [Disk.copy, Disk.write, hr, hr', hl, ← hlocate, hn, hn']
        have hdir : d.get? (goal target) ≠ some .dir := by simp [hn]
        have hdir' : d'.get? (goal target) ≠ some .dir := by simp [hn']
        exact .ok (h.puts (alters_same (not_root hdir) hn) (alters_same (not_root hdir) hn') .sink
          hdir hdir' (locate_reached ht.absolute hl) (locate_reached ht.absolute hlocate.symm))
      · simp only [Disk.copy, Disk.write, hr, hr', hl, ← hlocate, hn, hn']
        exact .error _
      · obtain ⟨e, i, hcopy, halters⟩ := copy_free hr hl hfree
        obtain ⟨e', i', hcopy', halters'⟩ := copy_free hr' hlocate.symm hfree'
        rw [hcopy, hcopy']
        exact .ok (h.puts halters halters' (.file i i' _ x) hfree.not_dir hfree'.not_dir
          (locate_reached ht.absolute hl) (locate_reached ht.absolute hlocate.symm))

/-! ## Making directories -/

theorem makeDir {p : Path} (hp : Clean S p) :
    Matches (Alike S F) (d.makeDir p) (d'.makeDir p) := by
  have hlocate := h.locateEntry hp.opens
  cases hl : d.locateEntry p with
  | error e =>
    rw [hl] at hlocate
    simp only [Disk.makeDir, hl, ← hlocate]
    exact .error _
  | ok l =>
    rw [hl] at hlocate
    have hstart (d : Disk) : d.Starts p := starts_of_absolute hp.absolute
    have hlike := h.apart l (by
      rw [goal_of_locateEntry hp.opens h.linkless.1 hl]
      exact hp.way _ (List.prefix_refl _))
    simp only [Disk.makeDir, hl, ← hlocate]
    generalize hn : d.get? l = n, hn' : d'.get? l = n' at hlike
    cases hlike with
    | none =>
      have hdir : d.get? l ≠ some .dir := by simp [hn]
      have hdir' : d'.get? l ≠ some .dir := by simp [hn']
      exact .ok ((h.puts (alters_put (not_root hdir) .dir) (alters_put (not_root hdir) .dir) .dir
        hdir hdir' ((hstart d).locateEntry hl) ((hstart d').locateEntry hlocate.symm)).mono
          (Set.subset_insert l F))
    | dir | sink | file => exact .error _

theorem makeDirsFrom (fuel : Nat) {p : Path} (hp : Clean S p) :
    (d.makeDirsFrom p fuel).1 = (d'.makeDirsFrom p fuel).1 ∧
      Alike S F (d.makeDirsFrom p fuel).2 (d'.makeDirsFrom p fuel).2 := by
  induction fuel generalizing p with
  | zero => exact ⟨rfl, h⟩
  | succ fuel ih =>
    unfold Disk.makeDirsFrom
    split
    · exact ⟨rfl, h⟩
    · have hmake := h.makeDir hp
      generalize d.makeDir p = r, d'.makeDir p = r' at hmake
      cases hmake with
      | ok h => exact ⟨rfl, h⟩
      | error e =>
        dsimp only
        rw [h.isDir (hp.knows F)]
        split
        · cases hparent : p.parent with
          | none => exact ⟨rfl, h⟩
          | some parent =>
            obtain ⟨hr, h₁⟩ := ih (hp.parent hparent)
            dsimp only
            generalize d.makeDirsFrom parent fuel = made, d'.makeDirsFrom parent fuel = made' at hr h₁
            obtain ⟨r, e₁⟩ := made
            obtain ⟨r', e₁'⟩ := made'
            dsimp only at hr h₁
            subst hr
            cases r with
            | error e' => exact ⟨rfl, h₁⟩
            | ok u =>
              have hmake := h₁.makeDir hp
              dsimp only
              rw [h₁.isDir (hp.knows F)]
              generalize e₁.makeDir p = r, e₁'.makeDir p = r' at hmake
              cases hmake with
              | ok h => exact ⟨rfl, h⟩
              | error e' =>
                dsimp only
                split
                · exact ⟨rfl, h₁⟩
                · exact ⟨rfl, h₁⟩
        · split
          · exact ⟨rfl, h⟩
          · exact ⟨rfl, h⟩

theorem makeDirs {p : Path} (hp : Clean S p) :
    (d.makeDirs p).1 = (d'.makeDirs p).1 ∧ Alike S F (d.makeDirs p).2 (d'.makeDirs p).2 :=
  h.makeDirsFrom _ hp

/-! ## Moves -/

theorem hasChildren {l : Location} (hl : l ∈ F) : d.hasChildren l = d'.hasChildren l := by
  rw [Bool.eq_iff_iff, hasChildren_iff, hasChildren_iff]
  refine exists_congr fun P => and_congr_right fun hP => and_congr_right fun _ => ?_
  have hlike := h.fresh l hl P hP
  generalize d.get? P = n, d'.get? P = n' at hlike
  cases hlike <;> simp

/-- The same may take the place of what is the same. -/
theorem replaces {n n' : Node} (hn : Like (some n) (some n')) {l : Location} (hl : l ∈ F) :
    d.replaces n l = d'.replaces n' l := by
  have hkind : n.isDir = n'.isDir := by
    cases hn <;> rfl
  have hlike := h.fresh l hl l (List.prefix_refl l)
  unfold Disk.replaces
  rw [hkind, h.hasChildren hl]
  generalize d.get? l = k, d'.get? l = k' at hlike
  cases hlike <;> cases n'.isDir <;> rfl

section

variable {s t : Location} (hs : ∀ n ∈ s, IsName n) (ht : ∀ n ∈ t, IsName n)
  (hsopen : Open S (pathOf s)) (htopen : Open S (pathOf t)) (hsfresh : s ∈ F) (htfresh : t ∈ F)
include hs ht hsopen htopen hsfresh htfresh

theorem checkMove : d.checkMove (pathOf s) (pathOf t) = d'.checkMove (pathOf s) (pathOf t) := by
  have hsource := h.locateEntry hsopen
  have htarget := h.locateEntry htopen
  unfold Disk.checkMove
  rw [hsource, htarget]
  cases hl : d'.locateEntry (pathOf s) with
  | error e => rfl
  | ok l =>
    cases hk : d'.locateEntry (pathOf t) with
    | error e => rfl
    | ok k =>
      obtain rfl : l = s := (goal_of_locateEntry hsopen h.linkless.2 hl).trans (goal_pathOf hs)
      obtain rfl : k = t := (goal_of_locateEntry htopen h.linkless.2 hk).trans (goal_pathOf ht)
      have hlike := h.fresh l hsfresh l (List.prefix_refl l)
      simp only [bind, Except.bind]
      generalize d.get? l = n, d'.get? l = n' at hlike
      cases hlike with
      | none | sink => rfl
      | dir =>
        dsimp only
        rw [h.replaces .dir htfresh]
      | file id id' content x =>
        dsimp only
        rw [h.replaces (.file id id' content x) htfresh]
        rfl

/-- What is the same on both disks, with everything below, is so where it is moved to. -/
theorem rename : Matches (Alike S F) (d.rename (pathOf s) (pathOf t))
    (d'.rename (pathOf s) (pathOf t)) := by
  have hcheck := h.checkMove hs ht hsopen htopen hsfresh htfresh
  cases hmove : d.rename (pathOf s) (pathOf t) with
  | error e =>
    unfold Disk.rename at hmove ⊢
    rw [← hcheck]
    split at hmove
    · cases hmove
      exact .error _
    · cases hmove
  | ok e =>
    have hmove' : ∃ e', d'.rename (pathOf s) (pathOf t) = .ok e' := by
      unfold Disk.rename at hmove ⊢
      rw [← hcheck]
      split at hmove
      · cases hmove
      · exact ⟨_, rfl⟩
    obtain ⟨e', hmove'⟩ := hmove'
    rw [hmove']
    have hstart {d : Disk} : d.Starts (pathOf t) := starts_of_absolute (isAbsolute_pathOf t)
    have hnested := h.nested.rename hstart hmove
    have hnested' := h.nested'.rename hstart hmove'
    obtain ⟨hsame, hmoved⟩ := rename_places h.nested h.linkless.1 hs ht hsopen htopen hmove
    obtain ⟨hsame', hmoved'⟩ := rename_places h.nested' h.linkless.2 hs ht hsopen htopen hmove'
    by_cases hne : s = t
    · rw [hsame hne, hsame' hne]
      exact .ok h
    obtain ⟨htarget, hgone, hother⟩ := hmoved hne
    obtain ⟨htarget', hgone', hother'⟩ := hmoved' hne
    -- the same is now at the target and below, and nothing at the source
    have hlike (P : Location) (hP : t <+: P ∨ s <+: P) : Like (e.get? P) (e'.get? P) := by
      rcases hP with ⟨rest, rfl⟩ | hP
      · rw [htarget, htarget']
        exact h.fresh s hsfresh _ (List.prefix_append s rest)
      · rw [hgone P hP, hgone' P hP]
        exact .none
    refine .ok ⟨hnested, hnested', fun P hP => ?_, fun m hm P hP => ?_, fun P => ?_⟩
    · by_cases hends : t <+: P ∨ s <+: P
      · exact hlike P hends
      · rw [hother P hends, hother' P hends]
        exact h.apart P hP
    · by_cases hends : t <+: P ∨ s <+: P
      · exact hlike P hends
      · rw [hother P hends, hother' P hends]
        exact h.fresh m hm P hP
    · by_cases hends : t <+: P ∨ s <+: P
      · exact .inl (hlike P hends)
      · unfold Free
        rw [hother P hends, hother' P hends]
        exact h.rest P

end

end Alike

end Whittle.Disk
