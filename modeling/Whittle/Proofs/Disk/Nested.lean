import Whittle.Proofs.Disk.Copy
import Whittle.Proofs.Disk.Directories
import Whittle.Proofs.Disk.Removal

/-!
# Disks on which everything stands in a directory

Operations keep a disk on which whatever stands anywhere stands in a directory (`Nested`): what is
written or made stands in a directory that was reached, and nothing is below what is removed or
replaced. So a removal that comes through leaves nothing at its place and below it
(`gone_removeArtifact`, `gone_removeTree`).

Names are `Settled` at a place if they lead to something that is there and go on from it without going
up. Making the directories above such a place makes none that is not on the way to it
(`Settled.makeDirs`), whatever has become of the others since.
-/

namespace Whittle.Disk

/-- Nothing is at a place or below it. -/
def Gone (d : Disk) (l : Location) : Prop := ∀ P, l <+: P → d.get? P = none

namespace Nested

variable {d d' : Disk} (h : d.Nested) {l : Location}
include h

/-- Above anything there are directories. -/
theorem above {n : Node} (hn : d.get? l = some n) {P : Location} (hP : P <+: l) (hne : P ≠ l) :
    d.get? P = some .dir := by
  obtain ⟨rest, rfl⟩ := hP
  induction rest using List.reverseRecOn generalizing n with
  | nil => exact absurd (List.append_nil P).symm hne
  | append_singleton rest name ih =>
    rw [← List.append_assoc] at hn
    have hdir := h _ _ _ hn
    by_cases hrest : rest = []
    · rwa [hrest, List.append_nil] at hdir
    · exact ih hdir (by simpa using hrest)

/-- Nothing is below a place where no directory is. -/
theorem below (hdir : d.get? l ≠ some .dir) {P : Location} (hP : l <+: P) (hne : l ≠ P) :
    d.get? P = none := by
  cases hn : d.get? P with
  | none => rfl
  | some n => exact absurd (h.above hn hP hne) hdir

theorem gone (hn : d.get? l = none) : d.Gone l := by
  intro P hP
  by_cases e : l = P
  · rw [← e, hn]
  · exact h.below (by simp [hn]) hP e

theorem reached {n : Node} (hn : d.get? l = some n)
    (hnames : ∀ k ∈ l, IsName k ∧ k.utf8ByteSize ≤ nameLimit) : Reached d l :=
  ⟨hnames, fun _ hP hne => h.above hn hP hne⟩

/-! ## Changes of one place -/

/-- Something may be put where no directory is, if the place can be reached. -/
theorem alters {n : Option Node} (halters : Alters d d' l n) (hdir : d.get? l ≠ some .dir)
    (hreached : n ≠ none → Reached d l) : d'.Nested := by
  intro P name k hk
  have hstill {Q : Location} (hQ : d.get? Q = some .dir) : d'.get? Q = some .dir := by
    rw [halters.other, hQ]
    rintro rfl
    exact hdir hQ
  by_cases e : P ++ [name] = l
  · subst e
    rw [halters.self] at hk
    exact hstill ((hreached (by simp [hk])).above P (List.prefix_append P [name]) (by simp))
  · rw [halters.other e] at hk
    exact hstill (h P name k hk)

theorem unlink {p : Path} (hunlink : d.unlink p = .ok d') : d'.Nested := by
  obtain ⟨l, -, -, hdir, rfl⟩ := unlink_eq_ok hunlink
  exact h.alters (alters_erase (not_root hdir)) hdir fun hnone => absurd rfl hnone

theorem write {p : Path} (hp : p.isAbsolute = true) {content : ByteArray} {x : Bool}
    (hwrite : d.write p content x = .ok d') : d'.Nested := by
  obtain ⟨l, hl, hdir, -⟩ := write_isOk.mp ⟨d', hwrite⟩
  obtain ⟨l', n, hl', -, halters⟩ := write_ok hwrite
  cases hl.symm.trans hl'
  exact h.alters halters hdir fun _ => locate_reached hp hl

theorem copy {source target : Path} (hp : target.isAbsolute = true)
    (hcopy : d.copy source target = .ok d') : d'.Nested := by
  obtain ⟨goal, hcopied⟩ := copied hcopy
  exact h.alters hcopied.alters hcopied.not_dir fun _ => locate_reached hp hcopied.located

theorem makeDir {p : Path} (hstart : d.Starts p) (hmake : d.makeDir p = .ok d') : d'.Nested := by
  obtain ⟨l, hl, hnone, rfl⟩ := makeDir_eq_ok hmake
  have hdir : d.get? l ≠ some .dir := by simp [hnone]
  exact h.alters (alters_put (not_root hdir) .dir) hdir fun _ => hstart.locateEntry hl

end Nested

/-- New directories do not move the start of a path. -/
theorem Starts.grows {d d' : Disk} {p : Path} (h : d.Starts p) (hgrows : Grows d d') :
    d'.Starts p := by
  have hstart : d'.startOf p.text = d.startOf p.text := by
    rw [startOf, startOf, hgrows.cwd]
  exact ⟨hstart ▸ h.reached.of_holds (hgrows.holds _), hstart ▸ hgrows.keeps h.dir⟩

theorem Starts.of_parent {d : Disk} {p q : Path} (h : d.Starts p) (hq : p.parent = some q) :
    d.Starts q := by
  obtain ⟨_, _, -, -, hextends⟩ := Path.extends_of_parent hq
  have hstart : d.startOf q.text = d.startOf p.text := by
    rw [startOf, startOf, isAbsoluteText, isAbsoluteText, hextends.absolute]
  exact ⟨hstart ▸ h.reached, hstart ▸ h.dir⟩

theorem Nested.makeDirs {d : Disk} (h : d.Nested) {p : Path} (hstart : d.Starts p) :
    (d.makeDirs p).2.Nested := by
  have hmade := makeDirsFrom_rel
    (R := fun d₁ d₂ => Grows d d₁ → d₁.Nested → Grows d d₂ ∧ d₂.Nested) (A := d.Starts)
    (fun _ hgrows hnested => ⟨hgrows, hnested⟩)
    (fun h₁ h₂ hgrows hnested => h₂ (h₁ hgrows hnested).1 (h₁ hgrows hnested).2)
    (fun _ _ hq => hq.of_parent)
    (fun _ _ _ hq hmake hgrows hnested =>
      ⟨hgrows.trans (grows_makeDir hmake), hnested.makeDir (hq.grows hgrows) hmake⟩)
    d hstart (p.parts.length + 1)
  exact (hmade (.refl d) h).2

/-! ## Renames -/

section

variable {d d' : Disk} (h : d.Nested) {s t : Location}
include h

/-- Nothing is below what an entry may take the place of. -/
theorem replaces_ok {n : Node} (hreplaces : d.replaces n t = .ok ()) {e : Location × Node}
    (he : e ∈ d.entries) (hte : t <+: e.1) : e.1 = t := by
  by_contra hne
  have hroot : e.1 ≠ [] := by
    intro hnil
    exact hne (hnil.trans (List.prefix_nil.mp (hnil ▸ hte)).symm)
  have hdir : d.get? t = some .dir := by
    by_contra hdir
    exact get?_of_mem he hroot (h.below hdir hte (Ne.symm hne))
  have hchildren : d.hasChildren t = true := by
    have hmem : (e.1.drop t.length, e.2) ∈ d.below t := List.mem_filterMap.mpr
      ⟨e, he, if_pos ⟨List.isPrefixOf_iff_prefix.mpr hte, hne⟩⟩
    simpa [hasChildren] using List.ne_nil_of_mem hmem
  unfold replaces at hreplaces
  rw [hdir, hchildren] at hreplaces
  cases hn : n.isDir <;> rw [hn] at hreplaces <;> cases hreplaces

/-- A rename takes along what is below its source; one to the place itself does nothing. -/
theorem rename_tree {source target : Path} (hrename : d.rename source target = .ok d') :
    ∃ s t, d.locateEntry source = .ok s ∧ d.locateEntry target = .ok t ∧ (s = t → d' = d) ∧
      (s ≠ t → ¬ s <+: t ∧ (∀ rest, d'.get? (t ++ rest) = d.get? (s ++ rest)) ∧ d'.Gone s) := by
  unfold rename at hrename
  split at hrename
  · cases hrename
  · rename_i s t hmove
    obtain ⟨hs, ht, hapart⟩ := checkMove_ok hmove
    refine ⟨s, t, hs, ht, fun heq => ?_, fun hne => ?_⟩
    · rw [if_pos heq] at hrename
      cases hrename
      rfl
    obtain ⟨hst, hts, n, hreplaces⟩ := hapart.resolve_left hne
    rw [if_neg hne] at hrename
    cases hrename
    have hsroot : s ≠ [] := by
      rintro rfl
      exact hst List.nil_prefix
    have htroot : t ≠ [] := by
      rintro rfl
      exact hts List.nil_prefix
    refine ⟨hst, fun rest => ?_, fun P hsP => ?_⟩
    · rw [get?_moveTree_target hsroot htroot rest, (alters_erase htroot).other]
      · rintro rfl
        exact hst (List.prefix_append s rest)
      · intro e he heq
        obtain ⟨he, hkept⟩ := List.mem_filter.mp he
        have hself := replaces_ok h hreplaces he (heq ▸ List.prefix_append t rest)
        simp [hself] at hkept
    · refine get?_moveTree_source hsroot hsP fun htP => ?_
      rcases List.prefix_or_prefix_of_prefix hsP htP with hprefix | hprefix
      · exact hst hprefix
      · exact hts hprefix

/-- A rename keeps everything in a directory, as its target is in one. -/
theorem Nested.rename {source target : Path} (hstart : d.Starts target)
    (hrename : d.rename source target = .ok d') : d'.Nested := by
  obtain ⟨s, t, hs, ht, hsame, hmoved⟩ := rename_tree h hrename
  obtain ⟨s', t', hs', ht', hmoves⟩ := rename_ok hrename
  cases hs.symm.trans hs'
  cases ht.symm.trans ht'
  by_cases hne : s = t
  · rwa [hsame hne]
  obtain ⟨hst, htarget, hsource⟩ := hmoved hne
  have hmoves := hmoves hne
  have htreached := hstart.locateEntry ht
  intro P name n hn
  by_cases htP : t <+: P ++ [name]
  · rcases List.prefix_concat_iff.mp htP with rfl | htP
    · have hdir := htreached.above P (List.prefix_append P [name]) (by simp)
      rw [hmoves.other P (fun hsP => hst (hsP.trans (List.prefix_append P [name]))), hdir]
      exact fun htP => absurd htP.length_le (by simp)
    · obtain ⟨rest, rfl⟩ := htP
      rw [List.append_assoc, htarget, ← List.append_assoc] at hn
      rw [htarget]
      exact h _ _ _ hn
  · have hsP : ¬ s <+: P ++ [name] := fun hsP => by
      rw [hsource _ hsP] at hn
      cases hn
    rw [hmoves.other _ hsP htP] at hn
    rw [hmoves.other P (fun e => hsP (e.trans (List.prefix_append P [name])))
      fun e => htP (e.trans (List.prefix_append P [name])), h P name n hn]

end

/-! ## Removals -/

/-- What is removed with everything below it leaves nothing without its directory. -/
theorem Nested.sheds {d d' : Disk} {m : Location} (h : d.Nested) (hsheds : Sheds d d' m)
    (hgone : d'.Gone m) : d'.Nested := by
  intro P name n hn
  have hother : ¬ m <+: P ++ [name] := fun hP => by
    rw [hgone _ hP] at hn
    cases hn
  rw [hsheds.other P fun hP => hother (hP.trans (List.prefix_append P [name])),
    h P name n (hsheds.old _ _ hn)]

theorem Nested.emptied {d : Disk} (h : d.Nested) {m : Location} : (d.emptied m).Nested := by
  intro P name n hn
  have hold := h P name n ((sheds_emptied d m).old _ _ hn)
  rw [get?_emptied] at hn ⊢
  split
  · rename_i hbelow
    have hne : P ++ [name] ≠ m := by
      rintro rfl
      exact absurd hbelow.1.length_le (by simp)
    rw [if_pos ⟨hbelow.1.trans (List.prefix_append P [name]), hne⟩] at hn
    cases hn
  · exact hold

/-- A walk that finds nothing on its way comes to nothing at its end. -/
theorem Nested.get?_of_walkNames {d : Disk} (h : d.Nested) {purpose : Purpose}
    {follow : Location → List String → Except Errno Location} {names : List String}
    (hup : ".." ∉ names) {here : Location} (hclear : d.Clear (lexical here names))
    (hwalk : d.walkNames purpose follow here names = .error .notFound) :
    d.get? (lexical here names) = none := by
  induction names generalizing here with
  | nil => cases hwalk
  | cons name rest ih =>
    simp only [List.mem_cons, not_or] at hup
    rw [lexical, if_neg (Ne.symm hup.1)] at hclear ⊢
    rw [walkNames, if_neg (Ne.symm hup.1)] at hwalk
    split at hwalk
    · rename_i hdot
      rw [if_pos hdot] at hclear ⊢
      exact ih hup.2 hclear hwalk
    · rename_i hdot
      rw [if_neg hdot] at hclear ⊢
      have hway := prefix_lexical hup.2 (here ++ [name])
      split at hwalk
      · cases hwalk
      · split at hwalk
        · cases hwalk
        · split at hwalk
          · rename_i hnone
            exact h.gone hnone _ hway
          · exact ih hup.2 hclear hwalk
          · rename_i target hlink
            exact absurd hlink (hclear _ _ hway)
          · split at hwalk <;> cases hwalk

section

variable {d : Disk} {p : Path} {m : Location} (hp : p.Names m)
include hp

theorem checkText_names : checkText p.text ≠ .error .notFound := by
  unfold checkText
  rw [if_neg hp.ne_empty]
  split
  · simp
  · split <;> simp

/-- A path at which something could be removed, or nothing was, passes the check. -/
theorem checkText_of_removeArtifact {b : Bool} (h : (d.removeArtifact p).1 = .ok b) :
    checkText p.text = .ok () := by
  cases hcheck : checkText p.text with
  | ok u => rfl
  | error e =>
    have hstat : d.lstat p = .error e := by
      rw [lstat, locate, hcheck]
      rfl
    unfold removeArtifact at h
    rw [hstat] at h
    cases e with
    | notFound => exact absurd hcheck (checkText_names hp)
    | _ => cases h

variable (h : d.Nested) (hstraight : d.Straight m)
include h hstraight

/-- Where a path is said to lead to nothing, nothing is. -/
theorem Nested.get?_of_locate {purpose : Purpose} (hlocate : d.locate purpose p = .error .notFound) :
    d.get? m = none := by
  unfold locate at hlocate
  cases htext : checkText p.text with
  | error e =>
    rw [htext] at hlocate
    cases hlocate
    exact absurd htext (checkText_names hp)
  | ok u =>
    have hplace := (lexical_stepsOf [] p.text).trans hp.place
    rw [htext, hp.startOf, walk_eq] at hlocate
    rw [← hplace] at hstraight ⊢
    exact h.get?_of_walkNames hp.not_mem_stepsOf hstraight.self hlocate

theorem Nested.get?_of_locateEntry (hlocate : d.locateEntry p = .error .notFound) :
    d.get? m = none := by
  unfold locateEntry at hlocate
  cases htext : checkText p.text with
  | error e =>
    rw [htext] at hlocate
    cases hlocate
    exact absurd htext (checkText_names hp)
  | ok u =>
    rw [htext, hp.startOf, walk_eq] at hlocate
    rw [← hp.place] at hstraight ⊢
    exact h.get?_of_walkNames hp.ahead hstraight.self hlocate

theorem Nested.gone_of_lstat (hstat : d.lstat p = .error .notFound) : d.Gone m := by
  refine h.gone ?_
  unfold lstat at hstat
  cases hlocate : d.locate .entry p with
  | error e =>
    rw [hlocate] at hstat
    cases hstat
    exact h.get?_of_locate hp hstraight hlocate
  | ok l =>
    obtain rfl := hp.locate hstraight.self hlocate
    simp only [hlocate, bind, Except.bind] at hstat
    split at hstat
    · cases hstat
    · assumption

/-- A file that is there is not missed when it is to be removed. -/
theorem Nested.get?_of_unlink {e : IoError} (hunlink : d.unlink p = .error e)
    (hmissed : e.isNotFound = true) : d.get? m = none := by
  unfold Disk.unlink at hunlink
  split at hunlink
  · rename_i cause hlocate
    cases hunlink
    cases cause with
    | notFound => exact h.get?_of_locateEntry hp hstraight hlocate
    | _ => cases hmissed
  · rename_i l hl
    obtain rfl := hp.locateEntry hstraight.self hl
    split at hunlink
    · assumption
    · cases hunlink
      cases hmissed
    · split at hunlink <;> cases hunlink
      cases hmissed

/-- A directory that is there is not missed when it is to be removed. -/
theorem removeDir_not_missed (hdir : d.get? m = some .dir) {e : IoError}
    (hremove : d.removeDir p = .error e) : e.isNotFound = false := by
  unfold removeDir at hremove
  split at hremove
  · rename_i cause hlocate
    cases hremove
    cases cause with
    | notFound =>
      rw [h.get?_of_locateEntry hp hstraight hlocate] at hdir
      cases hdir
    | _ => rfl
  · rename_i l hl
    obtain rfl := hp.locateEntry hstraight.self hl
    split at hremove
    · cases hremove
      rfl
    · cases hremove
      rfl
    · cases hremove
      rfl
    · rw [hdir] at hremove
      dsimp only at hremove
      split at hremove <;> cases hremove
      rfl

/-- Where a directory was removed, or is gone, nothing is left. -/
theorem gone_removeTree {r : Except IoError Unit} {d' : Disk} (hremove : d.removeTree p = (r, d'))
    (hr : ∀ e, r = .error e → e.isNotFound = true) : d'.Gone m := by
  unfold removeTree at hremove
  split at hremove
  · rename_i e hstat
    cases hremove
    cases e with
    | notFound => exact h.gone_of_lstat hp hstraight hstat
    | _ => cases hr _ rfl
  · rename_i l target hstat
    exact absurd (lstat_names hstraight.self hp hstat).2 (hstraight.self m target (List.prefix_refl m))
  · rename_i l hstat
    obtain ⟨rfl, hdir⟩ := lstat_names hstraight.self hp hstat
    have hstraight' := ((sheds_emptied d l).links hstraight).straight hstraight
    have hdir' : (d.emptied l).get? l = some .dir := by
      rw [get?_emptied, if_neg fun e => e.2 rfl, hdir]
    dsimp only at hremove
    split at hremove
    · rename_i d₁ hremoved
      cases hremove
      have hremoved : (d.emptied l).removeDir p = .ok d' := hremoved
      obtain ⟨k, n, hk, hlast, hdot, -, rfl⟩ := removeDir_eq_ok hremoved
      obtain rfl := hp.locateEntry hstraight'.self hk
      intro P hP
      rw [get?_erase _ (hp.ne_nil hlast hdot), get?_emptied]
      split
      · rfl
      · rename_i hne
        rw [if_pos ⟨hP, hne⟩]
    · rename_i e hrefused
      have hmissed := removeDir_not_missed hp h.emptied hstraight' hdir' hrefused
      rw [if_neg (by simp [hmissed])] at hremove
      cases hremove
      rw [hr e rfl] at hmissed
      cases hmissed
  · cases hremove
    cases hr _ rfl

/-- Where an artifact was removed, or is gone, nothing is left. -/
theorem gone_removeArtifact {b : Bool} {d' : Disk} (hremove : d.removeArtifact p = (.ok b, d')) :
    d'.Gone m := by
  unfold removeArtifact at hremove
  split at hremove
  · rename_i hstat
    cases hremove
    exact h.gone_of_lstat hp hstraight hstat
  · cases hremove
  · rename_i l hstat
    split at hremove
    · rename_i hremoved
      cases hremove
      exact gone_removeTree hp h hstraight hremoved nofun
    · rename_i e left hremoved
      split at hremove
      · rename_i hmissed
        cases hremove
        exact gone_removeTree hp h hstraight hremoved fun _ he => by cases he; exact hmissed
      · cases hremove
  · rename_i l n hdir hstat
    obtain ⟨rfl, hn⟩ := lstat_names hstraight.self hp hstat
    split at hremove
    · rename_i left hunlink
      cases hremove
      obtain ⟨k, hk, halters⟩ := unlink_ok hunlink
      obtain rfl := hp.locateEntry hstraight.self hk
      intro P hP
      by_cases e : P = k
      · rw [e, halters.self]
      · rw [halters.other e]
        refine h.below (fun hl => hdir ?_) hP (Ne.symm e)
        exact Option.some.inj (hn.symm.trans hl)
    · rename_i e hunlink
      split at hremove
      · rename_i hmissed
        cases hremove
        rw [h.get?_of_unlink hp hstraight hunlink hmissed] at hn
        cases hn
      · cases hremove

end

/-! ## Directories on the way to a place -/

/-- A place that a path leads to, or one above it. -/
def LeadsBy (d : Disk) (p : Path) (l : Location) : Prop :=
  ∃ names, names <+: namesOf p.text ∧ d.aim linkBudget [] names = some l

/-- Making the directories of a path makes only what is on its way. -/
theorem leadsBy_of_makeDirs {d₀ d : Disk} (hlinks : SameLinks d₀ d) {p : Path}
    (hp : p.isAbsolute = true) {l : Location} (hl : (d.makeDirs p).2.get? l ≠ d.get? l) :
    d₀.LeadsBy p l := by
  let R (d d' : Disk) : Prop := SameLinks d₀ d →
    SameLinks d₀ d' ∧ ∀ l, d'.get? l ≠ d.get? l → d₀.LeadsBy p l
  have htrans {d d₁ d₂ : Disk} (h : R d d₁) (h₁ : R d₁ d₂) : R d d₂ := by
    intro hd
    obtain ⟨hlinks₁, hmade⟩ := h hd
    obtain ⟨hlinks₂, hmade₁⟩ := h₁ hlinks₁
    refine ⟨hlinks₂, fun l hne => ?_⟩
    by_cases e : d₁.get? l = d.get? l
    · exact hmade₁ l (e ▸ hne)
    · exact hmade l e
  have hparent (q parent : Path) (hq : q.isAbsolute = true ∧ namesOf q.text <+: namesOf p.text)
      (h : q.parent = some parent) :
      parent.isAbsolute = true ∧ namesOf parent.text <+: namesOf p.text :=
    ⟨Path.isAbsolute_parent hq.1 h, (Path.names_parent h).trans hq.2⟩
  have hmake (d d' : Disk) (q : Path)
      (hq : q.isAbsolute = true ∧ namesOf q.text <+: namesOf p.text)
      (hmake : d.makeDir q = .ok d') : R d d' := by
    refine fun hd => ⟨hd.trans (grows_makeDir hmake).links, fun l hne => ?_⟩
    obtain ⟨k, hk, hnone, rfl⟩ := makeDir_eq_ok hmake
    rw [get?_makeDir hnone] at hne
    obtain rfl : l = k := by
      by_contra e
      exact hne (if_neg e)
    obtain ⟨-, hroute⟩ := locateEntry_iff.mp hk
    have hstart : d.startOf q.text = [] := if_pos hq.1
    rw [hstart] at hroute
    exact ⟨_, hq.2, (hroute.target fun _ target => by simp [hnone]).aim hd⟩
  have hrefl (d : Disk) : R d d := fun hd => ⟨hd, fun l hne => absurd rfl hne⟩
  exact (makeDirsFrom_rel hrefl htrans hparent hmake d ⟨hp, List.prefix_refl _⟩ _ hlinks).2 l hl

/-- The names of an absolute path that lead to something that is there and go on from it without
going up, past no link. -/
inductive Settled (d : Disk) (names : List String) (l : Location) : Prop
  | intro {front back : List String} {m : Location} (hnames : names = front ++ back)
    (hroute : Route d .target linkBudget [] front m) (hback : ".." ∉ back)
    (hend : lexical m back = l) (hclear : d.Clear l)

/-- The names of a path that is written from a place are settled there. -/
theorem settled_pathOf {d : Disk} {m : Location} (hm : ∀ n ∈ m, IsName n) (hclear : d.Clear m) :
    Settled d (namesOf (pathOf m).text) m := by
  rw [namesOf_pathOf hm]
  exact .intro rfl .here (fun h => (hm ".." h).2.2.1 rfl) (lexical_names hm []) hclear

namespace Settled

variable {d₀ d : Disk} {names : List String} {l : Location} (h : Settled d₀ names l)
include h

/-- Settled names lead to their place. -/
theorem placeOf {p : Path} (hp : p.isAbsolute = true) (hnames : names = namesOf p.text) :
    d₀.placeOf p = some l := by
  obtain ⟨hsplit, hroute, hback, rfl, hclear⟩ := h
  have hstart : d₀.startOf p.text = [] := if_pos hp
  rw [Disk.placeOf, hstart, ← hnames, hsplit]
  exact aim_append (fun links => aim_lexical hback links hclear) (hroute.aim (.refl d₀))

/-- Some of the names lead to a place on the way, or to a directory that is there. -/
theorem aim_front (hnested : d₀.Nested) {first rest : List String} (hnames : names = first ++ rest)
    {P : Location} (hP : d₀.aim linkBudget [] first = some P) :
    P <+: l ∨ d₀.get? P = some .dir := by
  obtain @⟨front, back, m, hsplit, hroute, hback, rfl, hclear⟩ := h
  rw [hsplit] at hnames
  rcases List.append_eq_append_iff.mp hnames with ⟨more, rfl, rfl⟩ | ⟨more, rfl, rfl⟩
  · have hmore : ".." ∉ more := fun hmem => hback (List.mem_append_left _ hmem)
    have hrest : ".." ∉ rest := fun hmem => hback (List.mem_append_right _ hmem)
    rw [lexical_append] at hclear ⊢
    have hway := prefix_lexical hrest (lexical m more)
    have hend := aim_append (fun links => aim_lexical hmore links (hclear.above hway))
      (hroute.aim (.refl d₀))
    cases hP.symm.trans hend
    exact .inl hway
  · by_cases hmore : more = []
    · subst hmore
      rw [List.append_nil] at hroute
      cases hP.symm.trans (hroute.aim (.refl d₀))
      exact .inl (prefix_lexical hback P)
    · obtain ⟨k, hk, hdir⟩ := hroute.front hnested (get?_nil d₀) rfl hmore
      cases hP.symm.trans (hk.aim (.refl d₀))
      exact .inr hdir

/-- Directories that are made for some of the names are on the way, or have been there before. -/
theorem makeDirs (hnested : d₀.Nested) (hlinks : SameLinks d₀ d) {q : Path}
    (hq : q.isAbsolute = true) (hnames : namesOf q.text <+: names) {P : Location}
    (hP : (d.makeDirs q).2.get? P ≠ d.get? P) : P <+: l ∨ d₀.get? P = some .dir := by
  obtain ⟨first, hfirst, hP⟩ := leadsBy_of_makeDirs hlinks hq hP
  obtain ⟨rest, hrest⟩ := hfirst.trans hnames
  exact h.aim_front hnested hrest.symm hP

end Settled

end Whittle.Disk
