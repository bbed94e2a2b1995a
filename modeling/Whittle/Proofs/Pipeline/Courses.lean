import Whittle.Proofs.Pipeline.Turns

/-!
# The slices of all criteria

Both passes take one criterion after the other (`Bench.Course`): copy the program if the slicer is to
have a copy of its own, call the slicer, and store what it kept in the numbering of the program. A
slicer that fails is passed over. What cannot be read as text is not: it ends the pass
(`Bench.Outcome`).
-/

namespace Whittle.Pipeline

open Text Disk Slice Insertion

/-! ## Courses -/

namespace Turn

/-- What the slicer left, if anything, is text. -/
def Readable (t : Turn) : Prop :=
  ∀ content, t.left = some content → (String.fromUTF8? content).isSome = true

/-- The lines of the program that were kept. -/
def slice (g : Given) (t : Turn) : Option (List Nat) := do
  let content ← t.left
  let text ← String.fromUTF8? content
  return g.restore (readLineNumbers text)

end Turn

/-- Turns for criteria, from an index on and behind some calls. -/
inductive Bench.Course (b : Bench) (host : Host) (g : Given) (blocked : Prop) :
    List Call → Nat → List Criterion → List Turn → Prop
  | nil {before : List Call} {i : Nat} : Course b host g blocked before i [] []
  | cons {before : List Call} {i : Nat} {c : Criterion} {cs : List Criterion} {t : Turn}
    {ts : List Turn} (h : b.Takes host g blocked before i c t)
    (rest : Course b host g blocked (before ++ t.calls) (i + 1) cs ts) :
    Course b host g blocked before i (c :: cs) (t :: ts)

/-- The calls of turns. -/
def callsOf (turns : List Turn) : List Call := turns.flatMap Turn.calls

/-- Where the turns from an index on may change something. -/
inductive Bench.Busy (b : Bench) (i : Nat) : Location → Prop
  | stirs {j : Nat} (hj : i ≤ j) (hc : j < b.count) {P : Location} (h : b.Stirs j P) : Busy b i P
  | slice {j : Nat} (hj : i ≤ j) (hc : j < b.count) : Busy b i (b.slice j)
  | input {j : Nat} (hp : b.pass = .static) (hj : i ≤ j) (hc : j < b.count) : Busy b i (b.input j)

/-- Slices are stored in files of the pass. -/
def Bench.Stores (b : Bench) (d : Disk) (files : List Path) (slices : List (List Nat)) : Prop :=
  List.Forall₂ (fun file ns => (∀ n ∈ ns, IsLine n) ∧ ∃ i < b.count, file = pathOf (b.slice i) ∧
    ∃ id x, d.get? (b.slice i) = some (.file id (writeLineNumbers ns).toUTF8 x)) files slices

/-- How the turns for criteria end, with work at places with `T`: with the files of all slices, or
with the first product that is not text. -/
structure Bench.Outcome (b : Bench) (host : Host) (g : Given) (blocked : Prop)
    (T : Location → Prop) (i : Nat) (cs : List Criterion) (site : Site)
    (r : Except Fault (List Path)) (site' : Site) (done : List Criterion) (turns : List Turn) :
    Prop where
  front : done <+: cs
  course : b.Course host g blocked site.world.calls i done turns
  calls : site'.world.calls = site.world.calls ++ callsOf turns
  works : Works b.Uses b.Mount T site site'
  result : (done = cs ∧ (∀ t ∈ turns, t.Readable) ∧
      ∃ files, r = .ok files ∧ b.Stores site'.world.disk files (turns.filterMap (Turn.slice g))) ∨
    (∃ front t, turns = front ++ [t] ∧ (∀ t ∈ front, t.Readable) ∧ ¬ t.Readable) ∧
      r = .error (.io .notText)

namespace Bench

variable {b : Bench}

theorem Busy.uses {i : Nat} {P : Location} (h : b.Busy i P) : b.Uses P := by
  cases h with
  | stirs _ hc h => exact h.uses hc
  | slice _ hc => exact .file (.slice hc)
  | input _ _ hc => exact .file (.input hc)

theorem Busy.mono {i : Nat} {P : Location} (h : b.Busy (i + 1) P) : b.Busy i P := by
  cases h with
  | stirs hj hc h => exact .stirs (by omega) hc h
  | slice hj hc => exact .slice (by omega) hc
  | input hp hj hc => exact .input hp (by omega) hc

theorem Stirs.ne_file {i : Nat} {P : Location} (h : b.Stirs i P) {n : String}
    (hn : n ≠ Artifacts.sliceLinesFile) : P ≠ b.root ++ [n] := by
  have hmounted (m : String) : b.mount ++ [m] ≠ b.root ++ [n] := by simp [mount]
  cases h with
  | lines => simpa [Bench.lines] using hn.symm
  | mounted => exact hmounted _
  | product =>
    unfold Bench.product
    split
    · simpa [Bench.lines] using hn.symm
    · exact hmounted _

/-- Later turns leave a slice alone. -/
theorem Busy.ne_slice {i : Nat} {P : Location} (h : b.Busy (i + 1) P) : P ≠ b.slice i := by
  cases h with
  | stirs _ _ h => exact h.ne_file (b.sliceName_ne i (by decide) (by decide))
  | @slice j hj hc =>
    intro e
    have := b.sliceName_injective (by simpa [Bench.slice] using e)
    omega
  | input => simpa [Bench.input, Bench.slice] using b.inputName_ne_sliceName _ i

/-- The copy that all criteria of the dynamic pass share is left alone. -/
theorem Busy.ne_input {i j : Nat} (hp : b.pass = .dynamic) {P : Location} (h : b.Busy i P) :
    P ≠ b.input j := by
  cases h with
  | stirs _ _ h => exact h.ne_file (b.inputName_ne_lines j)
  | slice => simpa [Bench.input, Bench.slice] using (b.inputName_ne_sliceName j _).symm
  | input hs =>
    rw [hp] at hs
    cases hs

end Bench

/-! ## Behind a call -/

/-- What a pass does with the answer of a slicer. -/
def Pass.sequel (p : Pass) (i : Nat) (restore : List Nat → List Nat) (warning : Fault → String)
    (rest : Work (List Path)) : Except Fault Path → Work (List Path)
  | .error e => do
    Action.warn (warning e)
    rest
  | .ok raw => do
    let ns ← Slice.load raw
    let path ← storeSlice p i (restore ns)
    return path :: (← rest)

theorem Pass.staticSlices_cons (host : Host) (s : Settings) (subject : Subject) (i : Nat)
    (c : Criterion) (cs : List Criterion) : staticSlices host s subject i (c :: cs) = (do
      let (input, planting) ← staticInput s subject i
      let r ← Work.attempt (callSlicer host s .static input
        ((planting.map fun p => p.shift c).getD c) "")
      sequel .static i (fun ns => (planting.map fun p => p.restore ns).getD ns)
        (fun e => "Static slicing of '" ++ c.text ++ "' failed: " ++ e.message)
        (staticSlices host s subject (i + 1) cs) r) := by
  rw [staticSlices]
  refine bind_congr fun r => ?_
  obtain ⟨input, planting⟩ := r
  refine bind_congr fun r => ?_
  cases r <;> rfl

theorem Pass.guardedSlices_cons (host : Host) (s : Settings) (subject : Subject) (input : Path)
    (guard : Guard) (i : Nat) (c : Criterion) (cs : List Criterion) :
    guardedSlices host s subject input guard i (c :: cs) = (do
      let r ← Work.attempt (callSlicer host s .dynamic input c subject.arguments)
      sequel .dynamic i guard.restore
        (fun e => "Dynamic slicing of '" ++ c.text ++ "' failed: " ++ e.message)
        (guardedSlices host s subject input guard (i + 1) cs) r) := by
  rw [guardedSlices]
  refine bind_congr fun r => ?_
  cases r <;> rfl

namespace Bench

/-- The pass can go on. -/
structure Goes (b : Bench) (blocked : Prop) (site : Site) : Prop where
  root : site.workspace.root = pathOf b.root
  ready : b.Ready site.world.disk
  blocked : b.Blocked site.world.disk → blocked

section

variable {b : Bench} (hfits : b.Fits) {blocked : Prop} {site site' : Site}
include hfits

theorem Goes.works (h : b.Goes blocked site) {T : Location → Prop} (hT : ∀ P, T P → b.Uses P)
    (hworks : Works b.Uses b.Mount T site site') : b.Goes blocked site' where
  root := hworks.root.trans h.root
  ready := h.ready.edits hfits hT hworks.edits
  blocked := by
    rintro ⟨hb, n, hn, hdir⟩
    refine h.blocked ⟨hb, n, ?_, hdir⟩
    rcases hworks.edits.keep b.mount fun P hP => (hT P hP).not_mount hfits hb with e | ⟨-, -, e⟩
    · rw [← e, hn]
    · rw [hn] at e
      exact absurd (Option.some.inj e) hdir

variable (h : b.Goes blocked site) {i : Nat} (restore : List Nat → List Nat)
  (warning : Fault → String) (rest : Work (List Path)) {id : Nat} {content : ByteArray} {x : Bool}
  (hlines : site.world.disk.get? b.lines = some (.file id content x))
include h hlines

theorem sequel_unreadable (htext : String.fromUTF8? content = none) :
    b.pass.sequel i restore warning rest (.ok (pathOf b.lines)) site =
      (.error (.io .notText), site) := by
  have hread : site.world.disk.readText (pathOf b.lines) = .error .notText := by
    have hread : site.world.disk.read (pathOf b.lines) = .ok content :=
      (h.ready.file hfits .lines).read hlines
    rw [readText, hread]
    simp only [htext]
  unfold Pass.sequel
  have hask : Action.ask (·.readText (pathOf b.lines)) site.world =
      (.error (.io .notText), site.world) := by
    rw [Action.ask_apply, hread]
  refine bind_of_error ?_
  rw [Work.lift_apply, load, bind_of_error hask]

theorem sequel_stored (hi : i < b.count) {text : String}
    (htext : String.fromUTF8? content = some text) :
    ∃ site', b.pass.sequel i restore warning rest (.ok (pathOf b.lines)) site =
        (rest >>= fun files => pure (pathOf (b.slice i) :: files)) site' ∧
      site'.world.calls = site.world.calls ∧
      Works b.Uses b.Mount (b.Busy i) site site' ∧ ∃ id x,
        site'.world.disk.get? (b.slice i) =
          some (.file id (writeLineNumbers (restore (readLineNumbers text))).toUTF8 x) := by
  have hload : (liftM (load (pathOf b.lines)) : Work (List Nat)) site =
      (.ok (readLineNumbers text), site) := by
    have hread : site.world.disk.readText (pathOf b.lines) = .ok text :=
      readText_of_file (h.ready.file hfits .lines) hlines htext
    have hask : Action.ask (·.readText (pathOf b.lines)) site.world = (.ok text, site.world) := by
      rw [Action.ask_apply, hread]
    rw [Work.lift_apply, load, bind_of_ok hask]
    rfl
  have hslice : b.Uses (b.slice i) := .file (.slice hi)
  obtain ⟨s₁, hprepare, hsets⟩ := prepareOutput_ok (h.ready.file hfits (.slice hi))
    (h.ready.path h.root (.slice hi)) b.pass.stage (h.ready.free _ hslice)
  have hhandy := hsets.handy (h.ready.file hfits (.slice hi)) fun _ => rfl
  let ns := restore (readLineNumbers text)
  obtain ⟨d, id', x', hwrite, hcwd, halters⟩ :=
    hhandy.write (.inl hsets.alters.self) (writeLineNumbers ns).toUTF8 false
  let s₂ : Site := { s₁ with world := { s₁.world with disk := d } }
  have hstore : (liftM (store (pathOf (b.slice i)) ns) : Work Unit) s₁ = (.ok (), s₂) :=
    change_at hwrite
  have hworks₁ : Works b.Uses b.Mount (· = b.slice i) site s₁ :=
    hsets.works (.inl hsets.alters.self)
  have hworks₂ : Works b.Uses b.Mount (· = b.slice i) s₁ s₂ :=
    ⟨rfl, (Fills.of_alters hcwd halters (.inr ⟨_, _, _, halters.self⟩)).edits⟩
  have hworks : Works b.Uses b.Mount (b.Busy i) site s₂ := by
    refine (hworks₁.trans hworks₂).mono ?_
    rintro P rfl
    exact .slice (Nat.le_refl i) hi
  refine ⟨s₂, ?_, hsets.calls, hworks, id', x', halters.self⟩
  have hstored : Pass.storeSlice b.pass i ns site = (.ok (pathOf (b.slice i)), s₂) :=
    (bind_of_ok hprepare).trans ((bind_of_ok hstore).trans rfl)
  exact (bind_of_ok hload).trans (bind_of_ok hstored)

end

/-! ## A turn and the others -/

section

variable {b : Bench} {host : Host} {g : Given} {blocked : Prop} {i : Nat} {c : Criterion}
  {cs done : List Criterion} {t : Turn} {turns : List Turn} {site s₁ s' : Site}
  {r : Except Fault (List Path)} (htakes : b.Takes host g blocked site.world.calls i c t)
  (hcalls : s₁.world.calls = site.world.calls ++ t.calls)
  (hworks : Works b.Uses b.Mount (b.Busy i) site s₁)

include htakes hcalls hworks in
/-- The only turn leaves something that is not text. -/
theorem Outcome.unread (ht : ¬ t.Readable) :
    b.Outcome host g blocked (b.Busy i) i (c :: cs) site (.error (.io .notText)) s₁ [c] [t] where
  front := List.cons_prefix_cons.mpr ⟨rfl, List.nil_prefix⟩
  course := .cons htakes .nil
  calls := by rw [hcalls, callsOf, List.flatMap_singleton]
  works := hworks
  result := .inr ⟨⟨[], t, rfl, by simp, ht⟩, rfl⟩

variable (h : b.Outcome host g blocked (b.Busy (i + 1)) (i + 1) cs s₁ r s' done turns)
include h

include htakes hcalls hworks in
/-- The other turns go on behind a first one that leaves text or nothing. Its slice, if there is one,
is stored before theirs. -/
theorem Outcome.cons (ht : t.Readable) {r' : Except Fault (List Path)}
    (hfails : ∀ e, r = .error e → r' = .error e)
    (hstores : ∀ files, r = .ok files →
      b.Stores s'.world.disk files (turns.filterMap (Turn.slice g)) →
      ∃ files', r' = .ok files' ∧
        b.Stores s'.world.disk files' ((t :: turns).filterMap (Turn.slice g))) :
    b.Outcome host g blocked (b.Busy i) i (c :: cs) site r' s' (c :: done) (t :: turns) where
  front := List.cons_prefix_cons.mpr ⟨rfl, h.front⟩
  course := .cons htakes (hcalls ▸ h.course)
  calls := by
    rw [h.calls, hcalls, List.append_assoc]
    rfl
  works := hworks.trans (h.works.mono fun _ => Busy.mono)
  result := by
    refine h.result.imp ?_ ?_
    · rintro ⟨rfl, hreadable, files, hr, hfiles⟩
      exact ⟨rfl, List.forall_mem_cons.mpr ⟨ht, hreadable⟩, hstores files hr hfiles⟩
    · rintro ⟨⟨front, t', rfl, hfront, hnot⟩, hr⟩
      exact ⟨⟨t :: front, t', rfl, List.forall_mem_cons.mpr ⟨ht, hfront⟩, hnot⟩, hfails _ hr⟩

include htakes hcalls hworks in
/-- A turn without a product is passed over. -/
theorem Outcome.passed (hleft : t.left = none) :
    b.Outcome host g blocked (b.Busy i) i (c :: cs) site r s' (c :: done) (t :: turns) := by
  have hreadable : t.Readable := fun content hcontent => by cases hleft.symm.trans hcontent
  have hslice : Turn.slice g t = none := by simp [Turn.slice, hleft]
  refine h.cons htakes hcalls hworks hreadable (fun _ => id) fun files hr hfiles => ⟨files, hr, ?_⟩
  rwa [List.filterMap_cons_none hslice]

include htakes hcalls hworks in
/-- The slice of a turn is stored, and stays until the other turns have ended. -/
theorem Outcome.stored (hfits : b.Fits) (hg : g.Faithful) (hi : i < b.count) {content : ByteArray}
    {text : String} (hleft : t.left = some content) (htext : String.fromUTF8? content = some text)
    {id : Nat} {x : Bool} (hstored : s₁.world.disk.get? (b.slice i) =
      some (.file id (writeLineNumbers (g.restore (readLineNumbers text))).toUTF8 x)) :
    b.Outcome host g blocked (b.Busy i) i (c :: cs) site (r.map (pathOf (b.slice i) :: ·)) s'
      (c :: done) (t :: turns) := by
  have hreadable : t.Readable := by
    intro content' hcontent
    cases hleft.symm.trans hcontent
    rw [htext]
    rfl
  have hslice : Turn.slice g t = some (g.restore (readLineNumbers text)) := by
    simp [Turn.slice, hleft, htext]
  refine h.cons htakes hcalls hworks hreadable (fun e hr => by rw [hr]; rfl)
    fun files hr hfiles => ⟨pathOf (b.slice i) :: files, by rw [hr]; rfl, ?_⟩
  rw [List.filterMap_cons_some hslice]
  have hkept := h.works.edits.keeps (l := b.slice i) (fun P hP hprefix =>
    hP.ne_slice (Uses.apart hfits hP.uses (.file (.slice hi)) hprefix)) hstored
  exact .cons ⟨hg.isLine fun _ => isLine_of_mem, i, hi, rfl, _, _, hkept⟩ hfiles

end

section

variable {b : Bench} (hfits : b.Fits) {host : Host} (hhost : b.Behaves host) {g : Given}
  (hg : g.Faithful) {blocked : Prop} {site : Site} (hgoes : b.Goes blocked site) {i : Nat}
  (hi : i < b.count)
include hfits hhost hg hgoes hi

/-- One turn, and then the turns for the other criteria. -/
theorem turn_outcome {id : Nat} {content : ByteArray} {x : Bool}
    (hinput : site.world.disk.get? (b.input i) = some (.file id content x))
    (htext : String.fromUTF8? content = some g.text) (c : Criterion) {cs : List Criterion}
    (warning : Fault → String) {rest : Work (List Path)}
    (hrest : ∀ s₂, Works b.Uses b.Mount (b.Busy i) site s₂ →
      ∃ r s' done turns, rest s₂ = (r, s') ∧
        b.Outcome host g blocked (b.Busy (i + 1)) (i + 1) cs s₂ r s' done turns) :
    ∃ r s' done turns, (Work.attempt (b.pass.callSlicer host b.settings (pathOf (b.input i))
        (g.criterion c) b.arguments) >>= b.pass.sequel i g.restore warning rest) site = (r, s') ∧
      b.Outcome host g blocked (b.Busy i) i (c :: cs) site r s' done turns := by
  obtain ⟨t, r, s₁, hcall, hturn⟩ :=
    callSlicer_turn hfits hhost hgoes.root hgoes.ready hi hinput htext c
  have hattempt : Work.attempt (b.pass.callSlicer host b.settings (pathOf (b.input i))
      (g.criterion c) b.arguments) site = (.ok r, s₁) := by
    rw [Work.attempt_apply, hcall]
  rw [bind_of_ok hattempt]
  have htakes : b.Takes host g blocked site.world.calls i c t := hturn.takes.imp hgoes.blocked
  have hworks : Works b.Uses b.Mount (b.Busy i) site s₁ :=
    hturn.works.mono fun P => .stirs (Nat.le_refl i) hi
  have hgoes₁ := hgoes.works hfits (fun _ => Busy.uses) hworks
  cases hleft : t.left with
  | none =>
    obtain ⟨e, rfl⟩ := hturn.answers.failed hleft
    have hworks₂ := hworks.warned (warning e)
    have hcalls₂ : (s₁.warned (warning e)).world.calls = site.world.calls ++ t.calls := hturn.calls
    obtain ⟨r, s', done, turns, hrun, houtcome⟩ := hrest _ hworks₂
    exact ⟨r, s', c :: done, t :: turns, hrun, houtcome.passed htakes hcalls₂ hworks₂ hleft⟩
  | some content =>
    obtain ⟨rfl, id', x', hlines⟩ := hturn.answers.left content hleft
    cases htext' : String.fromUTF8? content with
    | none =>
      refine ⟨_, s₁, [c], [t], sequel_unreadable hfits hgoes₁ g.restore warning rest hlines htext',
        .unread htakes hturn.calls hworks fun hreadable => ?_⟩
      have := hreadable content hleft
      rw [htext'] at this
      cases this
    | some text =>
      obtain ⟨s₂, hrun, hcalls₂, hworks₂, id₂, x₂, hstored⟩ :=
        sequel_stored hfits hgoes₁ g.restore warning rest hlines hi htext'
      obtain ⟨r, s', done, turns, hrest, houtcome⟩ := hrest s₂ (hworks.trans hworks₂)
      refine ⟨_, s', c :: done, t :: turns, ?_, houtcome.stored htakes
        (hcalls₂.trans hturn.calls) (hworks.trans hworks₂) hfits hg hi hleft htext' hstored⟩
      rw [hrun]
      cases r with
      | ok files => exact bind_of_ok hrest
      | error e => exact bind_of_error hrest

end

/-! ## Static slices -/

/-- The program has a text, and is found whatever is done at the places of the pass. -/
def Sourced (b : Bench) (source : String) (d : Disk) : Prop :=
  ∃ o id content x, String.fromUTF8? content = some source ∧ ∀ d', b.Edits b.Uses d d' →
    d'.stat b.subject.source = .ok (o, .file id content x)

theorem Sourced.edits {b : Bench} {source : String} {d d' : Disk} (h : b.Sourced source d)
    {T : Location → Prop} (hT : ∀ P, T P → b.Uses P) (hedits : b.Edits T d d') :
    b.Sourced source d' := by
  obtain ⟨o, id, content, x, htext, hfound⟩ := h
  exact ⟨o, id, content, x, htext, fun d'' h => hfound d'' ((hedits.mono hT).trans h)⟩

section

variable {b : Bench} {host : Host} {g : Given} {blocked : Prop} {T T' : Location → Prop} {i : Nat}
  {cs done : List Criterion} {turns : List Turn} {site s₁ s' : Site} {r : Except Fault (List Path)}

theorem Outcome.none : b.Outcome host g blocked T i [] site (.ok []) site [] [] where
  front := List.nil_prefix
  course := .nil
  calls := (List.append_nil _).symm
  works := .refl site
  result := .inl ⟨rfl, by simp, [], rfl, .nil⟩

theorem Outcome.mono (h : b.Outcome host g blocked T i cs site r s' done turns)
    (hT : ∀ P, T P → T' P) : b.Outcome host g blocked T' i cs site r s' done turns :=
  { h with works := h.works.mono hT }

theorem Outcome.behind (h : b.Outcome host g blocked T i cs s₁ r s' done turns)
    (hcalls : s₁.world.calls = site.world.calls) (hworks : Works b.Uses b.Mount T site s₁) :
    b.Outcome host g blocked T i cs site r s' done turns :=
  ⟨h.front, hcalls ▸ h.course, hcalls ▸ h.calls, hworks.trans h.works, h.result⟩

end

section

variable {s : Site} {P : Location} (h : s.world.disk.Handy P) {id : Nat}
  {content : ByteArray} {x : Bool} (hn : s.world.disk.get? P = some (.file id content x))
  {source : String} (htext : String.fromUTF8? content = some source) {language : Language}
  {arguments : String}
include h hn htext

theorem plantFile_ok {text : String} {planting : Planting}
    (hplant : plant language source arguments = .ok (text, planting)) :
    ∃ s' id' x', (liftM (plantFile (pathOf P) language arguments) : Work Planting) s =
      (.ok planting, s') ∧ Sets P (some (.file id' text.toUTF8 x')) s s' := by
  obtain ⟨d, id', x', hwrite, hcwd, halters⟩ := h.write (.inr ⟨_, _, _, hn⟩) text.toUTF8 false
  refine ⟨{ s with world := { s.world with disk := d } }, id', x', ?_, ⟨rfl, rfl⟩, hcwd,
    halters⟩
  have hask : Action.ask (·.readText (pathOf P)) s.world = (.ok source, s.world) := by
    rw [Action.ask_apply, readText_of_file h hn htext]
  have hchange : Action.change (·.writeText (pathOf P) text) s.world =
      (.ok (), { s.world with disk := d }) := by
    rw [Action.change_apply, writeText, hwrite]
  rw [Work.lift_apply, plantFile, bind_of_ok hask]
  simp only [hplant]
  rw [bind_of_ok (show (pure (text, planting) : Action (String × Planting)) s.world =
    (.ok (text, planting), s.world) from rfl), bind_of_ok hchange]
  rfl

theorem plantFile_error {e : Fault} (hplant : plant language source arguments = .error e) :
    (liftM (plantFile (pathOf P) language arguments) : Work Planting) s =
      (.error e, s) := by
  have hask : Action.ask (·.readText (pathOf P)) s.world = (.ok source, s.world) := by
    rw [Action.ask_apply, readText_of_file h hn htext]
  rw [Work.lift_apply, plantFile, bind_of_ok hask]
  simp only [hplant]
  rfl

end

section

variable {b : Bench} (hfits : b.Fits) {source : String} {blocked : Prop} {site : Site}
  (hgoes : b.Goes blocked site) (hsourced : b.Sourced source site.world.disk)
  (hp : b.pass = .static) {i : Nat} (cs : List Criterion)
include hfits hgoes hsourced hp

/-- The program is copied for a criterion. -/
theorem copyInput_ok (hi : i < b.count) :
    ∃ s' id content x, s'.world.calls = site.world.calls ∧
      Works b.Uses b.Mount (· = b.input i) site s' ∧ s'.world.disk.Handy (b.input i) ∧
      s'.world.disk.get? (b.input i) = some (.file id content x) ∧
      String.fromUTF8? content = some source ∧ ∀ (α : Type) (k : Path → Work α), (do
        let input ← Workspace.prepareOutput
          ("static_input_" ++ natText i ++ "." ++ b.subject.extension) .staticSlice
        Action.change (·.copy b.subject.source input)
        k input) site = k (pathOf (b.input i)) s' := by
  have hname : b.inputName i = "static_input_" ++ natText i ++ "." ++ b.subject.extension := by
    simp only [inputName, hp]
  have hinput : b.Uses (b.input i) := .file (.input hi)
  have huses : ∀ P, P = b.input i → b.Uses P := by
    rintro P rfl
    exact hinput
  obtain ⟨s₁, hprepare, hsets⟩ := prepareOutput_ok (hgoes.ready.file hfits (.input hi))
    (hgoes.ready.path hgoes.root (.input hi)) .staticSlice (hgoes.ready.free _ hinput)
  have hprepare : Workspace.prepareOutput ("static_input_" ++ natText i ++ "." ++
      b.subject.extension) .staticSlice site = (.ok (pathOf (b.input i)), s₁) := by
    rw [← hname]
    exact hprepare
  have hnone : s₁.world.disk.get? (b.input i) = none := hsets.alters.self
  have hhandy : s₁.world.disk.Handy (b.input i) :=
    hsets.handy (hgoes.ready.file hfits (.input hi)) fun _ => rfl
  have hworks₁ : Works b.Uses b.Mount (· = b.input i) site s₁ := hsets.works (.inl hnone)
  -- the place has been cleared, so what the program is found at is another one
  obtain ⟨o, id, content, x, htext, hfound⟩ := hsourced.edits huses hworks₁.edits
  have hstat := hfound _ (.refl _)
  have hne : o ≠ b.input i := by
    rintro rfl
    have hn := (stat_eq_ok hstat).2
    rw [hnone] at hn
    cases hn
  obtain ⟨d, id', hcopy, hcwd, halters⟩ := hhandy.copy (.inl hnone) hstat hne
  let s₂ : Site := { s₁ with world := { s₁.world with disk := d } }
  have hcopied : (liftM (Action.change (·.copy b.subject.source (pathOf (b.input i)))) : Work Unit)
      s₁ = (.ok (), s₂) := change_at hcopy
  have hworks₂ : Works b.Uses b.Mount (· = b.input i) s₁ s₂ :=
    ⟨rfl, (Fills.of_alters hcwd halters (.inr ⟨_, _, _, halters.self⟩)).edits⟩
  refine ⟨s₂, id', content, x, hsets.calls, hworks₁.trans hworks₂,
    hhandy.beside (fun _ => halters.other) fun _ => rfl, halters.self, htext, fun α k => ?_⟩
  exact (bind_of_ok hprepare).trans (bind_of_ok hcopied)

/-- The copy for a criterion is made, with the arguments planted if that can be done. -/
theorem staticInput_ok (hi : i < b.count) :
    ∃ planting site' id content x, Pass.staticInput b.settings b.subject i site =
        (.ok (pathOf (b.input i), planting), site') ∧
      site'.world.calls = site.world.calls ∧
      Works b.Uses b.Mount (b.Busy i) site site' ∧
      site'.world.disk.get? (b.input i) = some (.file id content x) ∧
      String.fromUTF8? content = some (b.pass.given b.settings b.subject source cs).text ∧
      (∀ c, (planting.map fun p => p.shift c).getD c =
        (b.pass.given b.settings b.subject source cs).criterion c) ∧
      ∀ ns, (planting.map fun p => p.restore ns).getD ns =
        (b.pass.given b.settings b.subject source cs).restore ns := by
  obtain ⟨s₁, id, content, x, hcalls, hworks, hhandy, hinput, htext, hcopied⟩ :=
    copyInput_ok hfits hgoes hsourced hp hi
  have hbusy {s' : Site} (h : Works b.Uses b.Mount (· = b.input i) site s') :
      Works b.Uses b.Mount (b.Busy i) site s' := by
    refine h.mono ?_
    rintro P rfl
    exact .input hp (Nat.le_refl i) hi
  unfold Pass.staticInput
  rw [hcopied]
  rw [hp, Pass.given]
  split
  · cases hplant : plant b.subject.language source b.subject.arguments with
    | ok r =>
      obtain ⟨s₂, id', x', hplanted, hsets⟩ := plantFile_ok hhandy hinput htext hplant
      refine ⟨some r.2, s₂, id', r.1.toUTF8, x', ?_, hsets.calls.trans hcalls, ?_,
        hsets.alters.self, fromUTF8?_toUTF8 _, fun _ => rfl, fun _ => rfl⟩
      · rw [bind_of_ok (show Work.attempt _ s₁ = (.ok (.ok r.2), s₂) by
          rw [Work.attempt_apply, hplanted])]
        rfl
      · exact hbusy (hworks.trans (hsets.works (.inr ⟨_, _, _, hsets.alters.self⟩)))
    | error e =>
      have hskipped := plantFile_error hhandy hinput htext hplant
      refine ⟨none, s₁.warned ("Argument injection skipped: " ++ e.message), id, content, x, ?_,
        hcalls, (hbusy hworks).warned _, hinput, htext, fun _ => rfl, fun _ => rfl⟩
      rw [bind_of_ok (show Work.attempt _ s₁ = (.ok (.error e), s₁) by
        rw [Work.attempt_apply, hskipped])]
      rfl
  · exact ⟨none, s₁, id, content, x, rfl, hcalls, hbusy hworks, hinput, htext, fun _ => rfl,
      fun _ => rfl⟩

end

section

variable {b : Bench} (hfits : b.Fits) {host : Host} (hhost : b.Behaves host) {source : String}
  (hline : 1 ≤ b.subject.failureLine) {blocked : Prop} {all : List Criterion}
include hfits hhost hline

theorem staticSlices_outcome (hp : b.pass = .static) {i : Nat} {cs : List Criterion} {site : Site}
    (hcount : i + cs.length ≤ b.count) (hgoes : b.Goes blocked site)
    (hsourced : b.Sourced source site.world.disk) :
    ∃ r s' done turns, Pass.staticSlices host b.settings b.subject i cs site = (r, s') ∧
      b.Outcome host (b.pass.given b.settings b.subject source all) blocked (b.Busy i) i cs site
        r s' done turns := by
  induction cs generalizing i site with
  | nil =>
    exact ⟨.ok [], site, [], [], rfl, .none⟩
  | cons c cs ih =>
    simp only [List.length_cons] at hcount
    have hi : i < b.count := by omega
    obtain ⟨planting, s₁, id, content, x, hrun, hcalls, hworks, hinput, htext, hshift, hrestore⟩ :=
      staticInput_ok hfits hgoes hsourced hp all hi
    have hgoes₁ := hgoes.works hfits (fun _ => Busy.uses) hworks
    have hsourced₁ := hsourced.edits (fun _ => Busy.uses) hworks.edits
    obtain ⟨r, s', done, turns, hturn, houtcome⟩ := turn_outcome hfits hhost
      (Pass.given_faithful b.settings b.pass b.subject source all hline) hgoes₁ hi hinput htext c
      (fun e => "Static slicing of '" ++ c.text ++ "' failed: " ++ e.message)
      (fun s₂ h => ih (by omega) (hgoes₁.works hfits (fun _ => Busy.uses) h)
        (hsourced₁.edits (fun _ => Busy.uses) h.edits))
    refine ⟨r, s', done, turns, ?_, houtcome.behind hcalls hworks⟩
    rw [← hshift c, show (b.pass.given b.settings b.subject source all).restore =
      fun ns => (planting.map fun p => p.restore ns).getD ns from (funext hrestore).symm] at hturn
    rw [Pass.staticSlices_cons, bind_of_ok hrun]
    have harguments : b.arguments = "" := by simp only [arguments, hp]
    rw [harguments, hp] at hturn
    exact hturn

theorem guardedSlices_outcome (hp : b.pass = .dynamic) {guard : Guard} {text : String}
    (hguard : guardSource b.subject.language source b.subject.failureLine all = .ok (text, guard))
    {i : Nat} {cs : List Criterion} {site : Site} (hcount : i + cs.length ≤ b.count)
    (hgoes : b.Goes blocked site) {id : Nat} {content : ByteArray} {x : Bool}
    (hinput : site.world.disk.get? (b.input i) = some (.file id content x))
    (htext : String.fromUTF8? content = some text) :
    ∃ r s' done turns, Pass.guardedSlices host b.settings b.subject (pathOf (b.input i)) guard i
        (guard.criteria cs) site = (r, s') ∧
      b.Outcome host (b.pass.given b.settings b.subject source all) blocked (b.Busy i) i cs site
        r s' done turns := by
  have hinputs (i j : Nat) : b.input i = b.input j := by
    simp only [input, inputName, hp]
  have hgiven : b.pass.given b.settings b.subject source all = .guarded (text, guard) := by
    rw [hp, Pass.given]
    simp only [hguard]
  induction cs generalizing i site with
  | nil =>
    exact ⟨.ok [], site, [], [], rfl, .none⟩
  | cons c cs ih =>
    simp only [List.length_cons] at hcount
    have hi : i < b.count := by omega
    have hrest (s₂ : Site) (h : Works b.Uses b.Mount (b.Busy i) site s₂) :
        ∃ r s' done turns, Pass.guardedSlices host b.settings b.subject (pathOf (b.input i)) guard
            (i + 1) (guard.criteria cs) s₂ = (r, s') ∧
          b.Outcome host (b.pass.given b.settings b.subject source all) blocked (b.Busy (i + 1))
            (i + 1) cs s₂ r s' done turns := by
      rw [hinputs i (i + 1)]
      refine ih (by omega) (hgoes.works hfits (fun _ => Busy.uses) h) ?_
      rw [hinputs (i + 1) i]
      exact h.edits.keeps (fun P hP hprefix => hP.ne_input hp
        (Uses.apart hfits hP.uses (.file (.input hi)) hprefix)) hinput
    obtain ⟨r, s', done, turns, hturn, houtcome⟩ := turn_outcome hfits hhost
      (Pass.given_faithful b.settings b.pass b.subject source all hline) hgoes hi hinput
      (htext.trans (by rw [hgiven]; rfl)) c
      (fun e => "Dynamic slicing of '" ++ (c.atLine guard.line).text ++ "' failed: " ++ e.message)
      hrest
    refine ⟨r, s', done, turns, ?_, houtcome⟩
    have harguments : b.arguments = b.subject.arguments := by simp only [arguments, hp]
    rw [hgiven, harguments, hp] at hturn
    exact (congrFun (Pass.guardedSlices_cons host b.settings b.subject (pathOf (b.input i)) guard i
      (c.atLine guard.line) (guard.criteria cs)) site).trans hturn

end

end Bench

end Whittle.Pipeline
