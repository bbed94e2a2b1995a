import Whittle.Proofs.Disk.Copy
import Whittle.Proofs.Disk.Directories

/-!
# Places for files

In a directory that can be entered, a place whose path is not too long is `Handy`. If no directory
stands there, what stands there can be removed, and then a file written, copied or moved to it,
without fail. `Edits` says what such work leaves of the disk.
-/

namespace Whittle.Disk

/-- Nothing stands at a place, or a file. -/
def Free (d : Disk) (P : Location) : Prop :=
  d.get? P = none ∨ ∃ id content x, d.get? P = some (.file id content x)

namespace Free

variable {d d' : Disk} {P : Location} (h : d.Free P)
include h

theorem not_dir : d.get? P ≠ some .dir := by
  rcases h with e | ⟨id, content, x, e⟩ <;> rw [e] <;> exact nofun

theorem not_link (target : String) : d.get? P ≠ some (.link target) := by
  rcases h with e | ⟨id, content, x, e⟩ <;> rw [e] <;> exact nofun

theorem of_get? (hget : d'.get? P = d.get? P) : d'.Free P := by
  rcases h with e | ⟨id, content, x, e⟩
  · exact .inl (hget.trans e)
  · exact .inr ⟨id, content, x, hget.trans e⟩

end Free

/-! ## Work at some places -/

/-- The second disk differs from the first at places with `T` and below them, and by new directories
at places with `G`. What has changed at places with `U` is free. -/
structure Edits (U G T : Location → Prop) (d d' : Disk) : Prop where
  cwd : d'.cwd = d.cwd
  keep : ∀ l, (∀ P, T P → ¬ P <+: l) →
    d'.get? l = d.get? l ∨ G l ∧ d.get? l = none ∧ d'.get? l = some .dir
  free : ∀ P, U P → d'.get? P = d.get? P ∨ d'.Free P

namespace Edits

variable {U G T T' : Location → Prop} {d d₁ d' : Disk}

theorem refl (d : Disk) : Edits U G T d d := ⟨rfl, fun _ _ => .inl rfl, fun _ _ => .inl rfl⟩

theorem trans (h : Edits U G T d d₁) (h₁ : Edits U G T d₁ d') : Edits U G T d d' where
  cwd := h₁.cwd.trans h.cwd
  keep l hl := by
    rcases h.keep l hl with e | ⟨hG, e, e'⟩
    · rcases h₁.keep l hl with e₁ | ⟨hG, e₁, e₁'⟩
      · exact .inl (e₁.trans e)
      · exact .inr ⟨hG, e ▸ e₁, e₁'⟩
    · rcases h₁.keep l hl with e₁ | ⟨-, e₁, -⟩
      · exact .inr ⟨hG, e, e₁.trans e'⟩
      · rw [e'] at e₁
        cases e₁
  free P hP := by
    rcases h₁.free P hP with e₁ | hfree
    · rcases h.free P hP with e | hfree
      · exact .inl (e₁.trans e)
      · exact .inr (hfree.of_get? e₁)
    · exact .inr hfree

theorem mono (h : Edits U G T d d') (hT : ∀ P, T P → T' P) : Edits U G T' d d' :=
  ⟨h.cwd, fun l hl => h.keep l fun P hP => hl P (hT P hP), h.free⟩

/-- What stood elsewhere still does. -/
theorem keeps (h : Edits U G T d d') {l : Location} (hl : ∀ P, T P → ¬ P <+: l) {n : Node}
    (hn : d.get? l = some n) : d'.get? l = some n := by
  rcases h.keep l hl with e | ⟨-, e, -⟩
  · rw [e, hn]
  · rw [hn] at e
    cases e

theorem not_dir (h : Edits U G T d d') {P : Location} (hP : U P) (hdir : d.get? P ≠ some .dir) :
    d'.get? P ≠ some .dir := by
  rcases h.free P hP with e | hfree
  · rwa [e]
  · exact hfree.not_dir

theorem stays_free (h : Edits U G T d d') {P : Location} (hP : U P) (hfree : d.Free P) :
    d'.Free P := by
  rcases h.free P hP with e | hfree'
  · exact hfree.of_get? e
  · exact hfree'

theorem of_get? (hcwd : d'.cwd = d.cwd) (h : ∀ l, d'.get? l = d.get? l) : Edits U G T d d' :=
  ⟨hcwd, fun l _ => .inl (h l), fun P _ => .inl (h P)⟩

/-- A directory was made where nothing stood. -/
theorem of_made {M : Location} (hM : G M) (hU : ¬ U M) (hnone : d.get? M = none)
    (hcwd : d'.cwd = d.cwd) (h : Alters d d' M (some .dir)) : Edits U G T d d' where
  cwd := hcwd
  keep l _ := by
    by_cases e : l = M
    · subst e
      exact .inr ⟨hM, hnone, h.self⟩
    · exact .inl (h.other e)
  free Q hQ := by
    refine .inl (h.other ?_)
    rintro rfl
    exact hU hQ

/-- A path written from a place still leads to the file there. -/
theorem stat (h : Edits U G T d d') {l : Location} (hl : ∀ P, T P → ¬ P <+: l)
    (hnames : ∀ n ∈ l, IsName n) {id : Nat} {content : ByteArray} {x : Bool}
    (hclear : d.Clear l) (hs : d.stat (pathOf l) = .ok (l, .file id content x)) :
    d'.stat (pathOf l) = .ok (l, .file id content x) :=
  stat_of_holds hclear hnames
    (fun _ _ hP hn => h.keeps (fun R hR hRP => hl R hR (hRP.trans hP)) hn) hs

end Edits

/-- A way passes beside places at which there is nothing to go into. -/
theorem Route.past {d d' : Disk} {T : Location → Prop} (hT : ∀ P, T P → d.Free P)
    (hkeep : ∀ l n, (∀ P, T P → ¬ P <+: l) → d.get? l = some n → d'.get? l = some n)
    {purpose : Purpose} {links : Nat} {here l : Location} {names : List String}
    (h : Route d purpose links here names l) (hhere : ∀ P, P <+: here → d.get? P = some .dir)
    {n : Node} (hl : ∀ P, T P → ¬ P <+: l) (hn : d.get? l = some n) :
    Route d' purpose links here names l := by
  have hbeside {here : Location} {name : String} (hhere : ∀ P, P <+: here → d.get? P = some .dir)
      (hfree : ¬ d.Free (here ++ [name])) : ∀ P, T P → ¬ P <+: here ++ [name] := by
    intro P hP hprefix
    rcases List.prefix_concat_iff.mp hprefix with rfl | hprefix
    · exact hfree (hT _ hP)
    · exact (hT P hP).not_dir (hhere P hprefix)
  induction h with
  | here => exact .here
  | dot hdot _ ih => exact .dot hdot (ih hhere hl hn)
  | up _ ih =>
    exact .up (ih (fun P hP => hhere P (hP.trans (List.dropLast_prefix _))) hl hn)
  | into hname hdir _ ih =>
    refine .into hname (hkeep _ _ (hbeside hhere fun hf => hf.not_dir hdir) hdir) (ih ?_ hl hn)
    intro P hP
    rcases List.prefix_concat_iff.mp hP with rfl | hP
    · exact hdir
    · exact hhere P hP
  | stop hname hdir hlink =>
    have hsame := (hkeep _ _ hl hn).trans hn.symm
    exact .stop hname (by rwa [hsame]) (by rwa [hsame])
  | along hname hlink hfollow _ ih =>
    refine .along hname (hkeep _ _ (hbeside hhere fun hf => hf.not_link _ hlink) hlink) hfollow
      (ih ?_ hl hn)
    split
    · intro P hP
      rw [List.prefix_nil.mp hP]
      exact get?_nil d
    · exact hhere

/-- A path still leads to what it led to, if there was no work on that. -/
theorem Edits.stat_path {U G T : Location → Prop} {d d' : Disk} (h : Edits U G T d d')
    (hT : ∀ P, T P → d.Free P) {p : Path} (hstart : d.Starts p) {l : Location} {n : Node}
    (hs : d.stat p = .ok (l, n)) (hl : ∀ P, T P → P ≠ l) : d'.stat p = .ok (l, n) := by
  obtain ⟨hlocate, hn⟩ := stat_eq_ok hs
  obtain ⟨hcheck, hroute⟩ := locate_iff.mp hlocate
  have hhere : ∀ P, P <+: d.startOf p.text → d.get? P = some .dir := by
    intro P hP
    by_cases e : P = d.startOf p.text
    · exact e ▸ hstart.dir
    · exact hstart.reached.above P hP e
  have hend : ∀ P, T P → ¬ P <+: l := fun P hP hprefix =>
    (hT P hP).not_dir ((hstart.locate hlocate).above P hprefix (hl P hP))
  have hsame : d'.startOf p.text = d.startOf p.text := by rw [startOf, startOf, h.cwd]
  refine stat_of_locate (locate_iff.mpr ⟨hcheck, ?_⟩) (h.keeps hend hn)
  rw [hsame]
  exact hroute.past hT (fun _ _ hm hk => h.keeps hm hk) hhere hend hn

/-- Work where there are no directories leaves every place within reach. -/
theorem Edits.reached {U G T : Location → Prop} {d d' : Disk} (h : Edits U G T d d')
    (hT : ∀ P, T P → d.get? P ≠ some .dir) {l : Location} (hl : Reached d l) : Reached d' l where
  names := hl.names
  above P hP hne := by
    have hdir := hl.above P hP hne
    refine h.keeps (fun Q hQ hQP => hT Q hQ ?_) hdir
    by_cases e : Q = P
    · exact e ▸ hdir
    · refine hl.above Q (hQP.trans hP) ?_
      rintro rfl
      exact e (hQP.eq_of_length_le hP.length_le)

/-- The second disk differs from the first at most at one place, and nothing or a file is there. -/
structure Fills (P : Location) (d d' : Disk) : Prop where
  cwd : d'.cwd = d.cwd
  other : ∀ l, l ≠ P → d'.get? l = d.get? l
  free : d'.Free P

theorem Fills.of_alters {d d' : Disk} {P : Location} {n : Option Node} (hcwd : d'.cwd = d.cwd)
    (h : Alters d d' P n) (hfree : d'.Free P) : Fills P d d' :=
  ⟨hcwd, fun _ hl => h.other hl, hfree⟩

theorem Fills.edits {U G : Location → Prop} {d d' : Disk} {P : Location} (h : Fills P d d') :
    Edits U G (· = P) d d' where
  cwd := h.cwd
  keep l hl := by
    refine .inl (h.other l ?_)
    rintro rfl
    exact hl l rfl (List.prefix_refl l)
  free Q _ := by
    by_cases e : Q = P
    · exact .inr (e ▸ h.free)
    · exact .inl (h.other Q e)

/-! ## Directories that can be entered -/

/-- A directory to which a way of directories leads. -/
structure Entered (d : Disk) (l : Location) : Prop where
  reached : Reached d l
  dir : d.get? l = some .dir

/-- A place that can be written in a path, in a directory that can be entered. -/
structure Handy (d : Disk) (P : Location) : Prop where
  check : checkText (pathOf P).text = .ok ()
  reached : Reached d P

namespace Entered

variable {d d' : Disk} {l : Location} (h : d.Entered l)
include h

theorem handy {n : String} (hn : IsName n) (hsize : n.utf8ByteSize ≤ nameLimit)
    (hcheck : checkText (pathOf (l ++ [n])).text = .ok ()) : d.Handy (l ++ [n]) :=
  ⟨hcheck, h.reached.push h.dir hn hsize⟩

theorem edits {U G T : Location → Prop} (hedits : Edits U G T d d')
    (hT : ∀ P, T P → ¬ P <+: l) : d'.Entered l where
  reached := by
    refine ⟨h.reached.names, fun Q hQ hne => ?_⟩
    exact hedits.keeps (fun P hP hPQ => hT P hP (hPQ.trans hQ)) (h.reached.above Q hQ hne)
  dir := hedits.keeps hT h.dir

/-- Work where there are no directories leaves a directory to be entered. -/
theorem beside {U G T : Location → Prop} (hedits : Edits U G T d d')
    (hT : ∀ P, T P → d.get? P ≠ some .dir) : d'.Entered l := by
  refine h.edits hedits fun P hP hprefix => hT P hP ?_
  by_cases e : P = l
  · exact e ▸ h.dir
  · exact h.reached.above P hprefix e

end Entered

/-! ## Files at handy places -/

namespace Handy

variable {d : Disk} {P : Location} (h : d.Handy P)
include h

theorem locate_of {purpose : Purpose}
    (hlink : ∀ target, d.get? P = some (.link target) → purpose = .entry) :
    d.locate purpose (pathOf P) = .ok P := by
  have hstart : d.startOf (pathOf P).text = [] := if_pos (isAbsolute_pathOf P)
  refine locate_iff.mpr ⟨h.check, ?_⟩
  rw [hstart, stepsOf_pathOf h.reached.isName]
  exact @Route.of_reached d purpose linkBudget [] P h.reached hlink

theorem locate (purpose : Purpose) (hlink : ∀ target, d.get? P ≠ some (.link target)) :
    d.locate purpose (pathOf P) = .ok P :=
  h.locate_of fun target e => absurd e (hlink target)

theorem locateEntry : d.locateEntry (pathOf P) = .ok P := by
  rw [locateEntry_pathOf h.reached.isName]
  exact h.locate_of fun _ _ => rfl

theorem stat {n : Node} (hn : d.get? P = some n) (hlink : ∀ target, n ≠ .link target) :
    d.stat (pathOf P) = .ok (P, n) :=
  stat_of_locate (h.locate .target fun target e => hlink target (Option.some.inj (hn ▸ e))) hn

theorem stat_none (hn : d.get? P = none) : d.stat (pathOf P) = .error .notFound := by
  simp only [Disk.stat, h.locate .target (by simp [hn]), bind, Except.bind, hn]

theorem isFile_eq (hfree : d.Free P) : d.isFile (pathOf P) = (d.get? P).isSome := by
  rcases hfree with e | ⟨id, content, x, e⟩
  · rw [isFile, h.stat_none e, e]
    rfl
  · rw [isFile, h.stat e (by simp), e]
    rfl

theorem read {id : Nat} {content : ByteArray} {x : Bool}
    (hn : d.get? P = some (.file id content x)) : d.read (pathOf P) = .ok content := by
  rw [Disk.read, h.stat hn (by simp)]

/-- What is no directory can be removed. -/
theorem unlink {n : Node} (hn : d.get? P = some n) (hdir : n ≠ .dir) :
    d.unlink (pathOf P) = .ok (d.erase P) := by
  have hroot : P ≠ [] := not_root (by rw [hn]; simpa using hdir)
  have hslash := endsInSlash_pathOf h.reached.isName hroot
  simp only [Disk.unlink, h.locateEntry, hn, hslash]
  rfl

theorem unlink_none (hn : d.get? P = none) :
    d.unlink (pathOf P) = .error (.system .notFound) := by
  simp only [Disk.unlink, h.locateEntry, hn]

/-- Nothing stands at a place once an attempt was made to remove what is no directory there. -/
theorem alters_unlink (hdir : d.get? P ≠ some .dir) :
    Alters d ((d.unlink (pathOf P)).toOption.getD d) P none := by
  cases hn : d.get? P with
  | none =>
    rw [h.unlink_none hn]
    exact alters_same (not_root hdir) hn
  | some n =>
    rw [h.unlink hn (by simpa [hn] using hdir)]
    exact alters_erase (not_root hdir)

theorem beside {d' : Disk} {Q : Location} (hother : ∀ l, l ≠ Q → d'.get? l = d.get? l)
    (hQP : Q <+: P → Q = P) : d'.Handy P where
  check := h.check
  reached := by
    refine ⟨h.reached.names, fun R hR hne => (hother R ?_).trans (h.reached.above R hR hne)⟩
    rintro rfl
    exact hne (hQP hR)

theorem makeDir (hn : d.get? P = none) : d.makeDir (pathOf P) = .ok (d.put P .dir) := by
  simp only [Disk.makeDir, h.locateEntry, hn]

theorem makeDirs (hn : d.get? P = none) : d.makeDirs (pathOf P) = (.ok (), d.put P .dir) := by
  have hparts : (pathOf P).parts ≠ [] := by simp [Path.parts, isAbsolute_pathOf]
  simp only [Disk.makeDirs, makeDirsFrom, if_neg hparts, h.makeDir hn]

theorem makeDirs_dir (hn : d.get? P = some .dir) : d.makeDirs (pathOf P) = (.ok (), d) := by
  refine makeDirsFrom_of_isDir ?_
  rw [isDir, h.stat hn (by simp)]
  rfl

/-- Where something else stands than a directory or a link, no directory can be made. -/
theorem makeDirs_blocked {n : Node} (hn : d.get? P = some n) (hdir : n ≠ .dir)
    (hlink : ∀ target, n ≠ .link target) :
    d.makeDirs (pathOf P) = (.error (.system .alreadyExists), d) := by
  have hparts : (pathOf P).parts ≠ [] := by simp [Path.parts, isAbsolute_pathOf]
  have hmake : d.makeDir (pathOf P) = .error (.system .alreadyExists) := by
    simp only [Disk.makeDir, h.locateEntry, hn]
  have hnot : d.isDir (pathOf P) = false := by
    rw [isDir, h.stat hn hlink]
    cases n <;> first | rfl | exact absurd rfl hdir
  simp only [Disk.makeDirs, makeDirsFrom, if_neg hparts, hmake, hnot]
  rfl

section

variable (hfree : d.Free P)
include hfree

theorem write (content : ByteArray) (x : Bool) :
    ∃ d' id x', d.write (pathOf P) content x = .ok d' ∧ d'.cwd = d.cwd ∧
      Alters d d' P (some (.file id content x')) := by
  have hroot := not_root hfree.not_dir
  have hlocate := h.locate .file hfree.not_link
  rcases hfree with e | ⟨id, content', x', e⟩
  · have hput : Alters d (d.put P (.file d.nextId content x)) P _ := alters_put hroot _
    refine ⟨{ d.put P (.file d.nextId content x) with nextId := d.nextId + 1 }, d.nextId, x, ?_,
      rfl, hput.not_root, hput.get?⟩
    simp only [Disk.write, hlocate, e]
  · refine ⟨d.put P (.file id content x'), id, x', ?_, rfl, alters_put hroot _⟩
    simp only [Disk.write, hlocate, e]

theorem copy {source : Path} {o : Location} {id : Nat} {content : ByteArray} {x : Bool}
    (hsource : d.stat source = .ok (o, .file id content x)) (hne : o ≠ P) :
    ∃ d' id', d.copy source (pathOf P) = .ok d' ∧ d'.cwd = d.cwd ∧
      Alters d d' P (some (.file id' content x)) := by
  obtain ⟨emptied, id', x', hempty, hcwd, halters⟩ := h.write hfree ByteArray.empty x
  have hleft := (halters.other hne).trans (stat_eq_ok hsource).2
  have hgoal := (h.beside (fun _ => halters.other) fun _ => rfl).locate .file (by simp [halters.self])
  refine ⟨emptied.put P (.file id' content x), id', ?_, hcwd,
    halters.trans (alters_put halters.not_root _)⟩
  simp only [Disk.copy, hsource, hempty, hgoal, halters.self, contentAt, hleft]

end

end Handy

section

variable {d : Disk} {P : Location} (h : d.Handy P) {id : Nat} {content : ByteArray} {x : Bool}
  (hn : d.get? P = some (.file id content x))
include h hn

theorem readText_of_file {text : String} (htext : String.fromUTF8? content = some text) :
    d.readText (pathOf P) = .ok text :=
  readText_of_read (h.read hn) htext

theorem readText_of_bytes (htext : String.fromUTF8? content = none) :
    d.readText (pathOf P) = .error .notText := by
  rw [readText, h.read hn]
  simp only [htext]

end

/-! ## Moves -/

theorem endsInName_pathOf {l : Location} (hl : ∀ n ∈ l, IsName n) (hne : l ≠ []) :
    endsInName (pathOf l) = true := by
  rw [endsInName, namesOf_pathOf hl]
  cases hlast : l.getLast? with
  | none => exact absurd (List.getLast?_eq_none_iff.mp hlast) hne
  | some n =>
    obtain ⟨-, hdot, hup, -⟩ := hl n (List.mem_of_getLast? hlast)
    simp [hdot, hup]

section

variable {d : Disk} {P Q : Location} (hP : d.Handy P) (hQ : d.Handy Q) {n : Node}
  (hnode : d.get? P = some n) (hsink : n ≠ .sink) (hnone : d.get? Q = none) (hPQ : ¬ P <+: Q)
  (hQP : ¬ Q <+: P)
include hP hQ hnode hsink hnone hPQ hQP

/-- What is no device can be moved to where nothing stands. -/
theorem Handy.checkMove : d.checkMove (pathOf P) (pathOf Q) = .ok (P, Q) := by
  have hne : P ≠ Q := fun e => hPQ (e ▸ List.prefix_refl _)
  have hroot : P ≠ [] := fun e => hPQ (e ▸ List.nil_prefix)
  have hQroot : Q ≠ [] := not_root (by rw [hnone]; exact nofun)
  have hPname := endsInName_pathOf hP.reached.isName hroot
  have hQname := endsInName_pathOf hQ.reached.isName hQroot
  have hPslash := endsInSlash_pathOf hP.reached.isName hroot
  have hQslash := endsInSlash_pathOf hQ.reached.isName hQroot
  have hPQ' : P.isPrefixOf Q = false := by
    rwa [← Bool.not_eq_true, List.isPrefixOf_iff_prefix]
  have hQP' : Q.isPrefixOf P = false := by
    rwa [← Bool.not_eq_true, List.isPrefixOf_iff_prefix]
  have hreplaces : d.replaces n Q = .ok () := by rw [replaces, hnone]
  cases n with
  | sink => exact absurd rfl hsink
  | _ =>
    simp [Disk.checkMove, hP.locateEntry, hQ.locateEntry, hPname, hQname, hPslash, hQslash, hnode,
      hne, hPQ', hQP', hreplaces, bind, Except.bind]

theorem Handy.rename {U G : Location → Prop} (hlink : ∀ target, n ≠ .link target)
    (hUP : ∀ R, U R → P <+: R → R = P) (hUQ : ∀ R, U R → Q <+: R → R = Q ∧ n.isFile = true) :
    ∃ d', d.rename (pathOf P) (pathOf Q) = .ok d' ∧ d'.get? P = none ∧
      d'.get? Q = some n ∧ Edits U G (fun l => l = P ∨ l = Q) d d' := by
  have hne : P ≠ Q := fun e => hPQ (e ▸ List.prefix_refl _)
  have hroot : P ≠ [] := fun e => hPQ (e ▸ List.nil_prefix)
  have hok : d.rename (pathOf P) (pathOf Q) = .ok ((d.erase Q).moveTree P Q) := by
    rw [Disk.rename, hP.checkMove hQ hnode hsink hnone hPQ hQP]
    simp only [if_neg hne]
  obtain ⟨-, -, hmoves⟩ := moves_of_rename hP.reached.isName hQ.reached.isName hne hok
    (hP.reached.clear (by simp [hnode, hlink])) (hQ.reached.clear (by simp [hnone]))
  have hgone := @get?_moveTree_source (d.erase Q) P Q P hroot (List.prefix_refl P) hQP
  have hmoved := hmoves.target.trans hnode
  refine ⟨_, hok, hgone, hmoved, rfl, fun l hl => ?_, fun R hR => ?_⟩
  · exact .inl (hmoves.other l (hl P (.inl rfl)) (hl Q (.inr rfl)))
  · by_cases hRP : P <+: R
    · rw [hUP R hR hRP]
      exact .inr (.inl hgone)
    · by_cases hRQ : Q <+: R
      · obtain ⟨rfl, hfile⟩ := hUQ R hR hRQ
        cases n with
        | file id content x => exact .inr (.inr ⟨_, _, _, hmoved⟩)
        | _ => cases hfile
      · exact .inl (hmoves.other R hRP hRQ)

end

end Whittle.Disk
