import Whittle.Proofs.Pipeline.Soundness
import Whittle.Proofs.Pipeline.Union

/-!
# What the slice extractor is handed

A pass hands over the lines of the program that were kept for some criterion, and a criterion whose
slicer failed makes no difference (`run_hands_union`, `run_skips_failures`). Two things can come in
between: a slicer that leaves something else than text, and a program that stands where the pass puts
its own files.
-/

namespace Whittle.Pipeline

open Text Disk Slice

/-- What a slicer leaves is text. -/
def Bench.LeavesText (b : Bench) (host : Host) : Prop :=
  ∀ before name i c d content, leftBy host before (b.call name i c d) b.product = some content →
    (String.fromUTF8? content).isSome = true

theorem Bench.Course.readable {b : Bench} {host : Host} (htext : b.LeavesText host) {g : Given}
    {blocked : Prop} {before : List Call} {i : Nat} {cs : List Criterion} {turns : List Turn}
    (h : b.Course host g blocked before i cs turns) : ∀ t ∈ turns, t.Readable := by
  induction h with
  | nil => simp
  | cons htakes _ ih =>
    refine List.forall_mem_cons.mpr ⟨?_, ih⟩
    cases htakes with
    | blocked => exact fun _ h => nomatch h
    | called => exact htext _ _ _ _ _

/-! ## What was kept -/

section

variable {g : Given} {turns : List Turn}

theorem slice_eq_some {t : Turn} {ns : List Nat} : t.slice g = some ns ↔
    ∃ content text, t.left = some content ∧ String.fromUTF8? content = some text ∧
      ns = g.restore (readLineNumbers text) := by
  simp only [Turn.slice, Option.bind_eq_bind, Option.bind_eq_some_iff, Option.pure_def,
    Option.some.injEq, eq_comm (a := ns)]
  constructor
  · rintro ⟨content, hleft, text, htext, hns⟩
    exact ⟨content, text, hleft, htext, hns⟩
  · rintro ⟨content, text, hleft, htext, hns⟩
    exact ⟨content, hleft, text, htext, hns⟩

theorem mem_kept (hg : g.Faithful) {n : Nat} : n ∈ kept g turns ↔ 1 ≤ n ∧ ∃ t ∈ turns,
    ∃ content text, t.left = some content ∧ String.fromUTF8? content = some text ∧
      g.place n ∈ readLineNumbers text := by
  unfold kept
  rw [mem_ascending, List.mem_flatten]
  constructor
  · rintro ⟨ns, hns, hn⟩
    obtain ⟨t, ht, hslice⟩ := List.mem_filterMap.mp hns
    obtain ⟨content, text, hleft, htext, rfl⟩ := slice_eq_some.mp hslice
    obtain ⟨hpos, hplace⟩ := (hg.mem _ (fun _ => isLine_of_mem) n).mp hn
    exact ⟨hpos, t, ht, content, text, hleft, htext, hplace⟩
  · rintro ⟨hpos, t, ht, content, text, hleft, htext, hplace⟩
    refine ⟨g.restore (readLineNumbers text), List.mem_filterMap.mpr ⟨t, ht, ?_⟩, ?_⟩
    · exact slice_eq_some.mpr ⟨content, text, hleft, htext, rfl⟩
    · exact (hg.mem _ (fun _ => isLine_of_mem) n).mpr ⟨hpos, hplace⟩

theorem kept_ne_nil {t : Turn} (ht : t ∈ turns) {ns : List Nat} (hslice : t.slice g = some ns)
    (hne : ns ≠ []) : kept g turns ≠ [] := by
  obtain ⟨n, hn⟩ := List.exists_mem_of_ne_nil ns hne
  refine List.ne_nil_of_mem (a := n) (mem_ascending.mpr (List.mem_flatten.mpr ⟨ns, ?_, hn⟩))
  exact List.mem_filterMap.mpr ⟨t, ht, hslice⟩

end

/-! ## The handover -/

/-- The file handed over lists the lines of the program whose place in what the slicer was given is
in some product, each once and in ascending order. If there is no such line the pass fails, and the
extractor is not called. The program is found whatever the pass does with its own files. -/
theorem run_hands_union {b : Bench} (hfits : b.Fits) {host : Host} (hhost : b.Behaves host)
    (htext : b.LeavesText host)
    {source : String} (hline : 1 ≤ b.subject.failureLine)
    (hle : b.subject.failureLine ≤ lineCount source) {cs : List Criterion}
    (hcount : cs.length = b.count) {site site' : Site}
    (hroot : site.workspace.root = pathOf b.root) (hready : b.Ready site.world.disk)
    (hsourced : b.Sourced source site.world.disk) {r : Except Fault Subject}
    (hrun : b.pass.run host b.settings b.subject cs site = (r, site')) :
    let g := b.pass.given b.settings b.subject source cs
    ∃ turns ns,
      b.Course host g (b.Blocked site.world.disk) site.world.calls 0 cs turns ∧
      ns.Pairwise (· < ·) ∧
      (∀ n, n ∈ ns ↔ 1 ≤ n ∧ ∃ t ∈ turns, ∃ content text, t.left = some content ∧
        String.fromUTF8? content = some text ∧ g.place n ∈ readLineNumbers text) ∧
      b.Ending ns (site.world.calls ++ callsOf turns) site'.world.calls r := by
  intro g
  obtain ⟨done, turns, -, hcourse, hends⟩ :=
    Bench.run_ends hfits hhost hline hle (Nat.le_of_eq hcount) hroot hready hsourced hrun
  rcases hends with ⟨rfl, -, hending⟩ | ⟨⟨front, t, rfl, -, hnot⟩, -⟩
  · exact ⟨turns, kept g turns, hcourse, pairwise_ascending _,
      fun n => mem_kept (Pass.given_faithful _ _ _ _ _ hline), hending⟩
  · exact absurd (hcourse.readable htext t (by simp)) hnot

/-- A criterion without a product is passed over: if everything that slicers left is text, all
criteria are taken, and with a line in any slice just the slices there are go into the file for the
extractor. The first product that is not text ends the pass. -/
theorem run_skips_failures {b : Bench} (hfits : b.Fits) {host : Host} (hhost : b.Behaves host)
    {source : String} (hline : 1 ≤ b.subject.failureLine)
    (hle : b.subject.failureLine ≤ lineCount source) {cs : List Criterion}
    (hcount : cs.length = b.count) {site site' : Site}
    (hroot : site.workspace.root = pathOf b.root) (hready : b.Ready site.world.disk)
    (hsourced : b.Sourced source site.world.disk) {r : Except Fault Subject}
    (hrun : b.pass.run host b.settings b.subject cs site = (r, site')) :
    let g := b.pass.given b.settings b.subject source cs
    ∃ done turns, done <+: cs ∧
      b.Course host g (b.Blocked site.world.disk) site.world.calls 0 done turns ∧
      ((∀ t ∈ turns, t.Readable) → done = cs ∧
        ∀ t ∈ turns, ∀ ns, t.slice g = some ns → ns ≠ [] → ∃ d,
          d.readText (pathOf b.union) =
            .ok (writeLineNumbers (ascending (turns.filterMap (Turn.slice g)).flatten)) ∧
          site'.world.calls = site.world.calls ++ callsOf turns ++ [b.cutting d]) ∧
      (¬ (∀ t ∈ turns, t.Readable) → r = .error (.io .notText) ∧
        site'.world.calls = site.world.calls ++ callsOf turns ∧
        ∃ front t, turns = front ++ [t] ∧ (∀ t ∈ front, t.Readable) ∧ ¬ t.Readable) := by
  intro g
  obtain ⟨done, turns, hfront, hcourse, hends⟩ :=
    Bench.run_ends hfits hhost hline hle (Nat.le_of_eq hcount) hroot hready hsourced hrun
  refine ⟨done, turns, hfront, hcourse, ?_⟩
  rcases hends with ⟨rfl, hreadable, hending⟩ | ⟨⟨front, t, rfl, hread, hnot⟩, hcalls, hr⟩
  · refine ⟨fun _ => ⟨rfl, fun t ht ns hslice hne => ?_⟩, fun h => absurd hreadable h⟩
    cases hending with
    | empty hnil => exact absurd hnil (kept_ne_nil ht hslice hne)
    | handed _ hunion hcalls => exact ⟨_, hunion, hcalls⟩
  · exact ⟨fun h => absurd (h t (by simp)) hnot, fun _ => ⟨hr, hcalls, front, t, rfl, hread, hnot⟩⟩

/-! ### Two criteria, and a slicer that runs on this machine -/

/-- A program, in a directory of its own or where the pass puts the copy for the second criterion. -/
def slicedPlace (inside : Bool) : Location :=
  if inside then ["w", "static_input_1.c"] else ["in", "a.c"]

def slicedDisk (inside : Bool) : Disk where
  entries := [(["in"], .dir), (["w"], .dir), (slicedPlace inside, .file 0 "int x;\n".toUTF8 false)]
  cwd := []
  nextId := 1
  locked := []

def sampleBench (inside : Bool) : Bench where
  settings := { sampleSettings with staticSlice := true }
  pass := .static
  subject := ⟨pathOf (slicedPlace inside), 1, .c, ""⟩
  root := ["w"]
  count := 2

def sampleSite (inside : Bool) : Site where
  world := .ofDisk (slicedDisk inside)
  workspace := ⟨"1", pathOf ["w"], false, .empty, none, none⟩

def sampleCriteria : List Criterion := [⟨1, "x"⟩, ⟨1, "y"⟩]

/-- Each call of the slicer leaves the next of some products. -/
def slicing (products : List ByteArray) : Host :=
  { sampleHost with
    launch := fun before call =>
      if call.program = ⟨"StaticSlicer"⟩ then
        ⟨[], .ok 0, call.disk.put ["w", Artifacts.sliceLinesFile]
          (.file call.disk.nextId (products.getD before.length ByteArray.empty) false)⟩
      else ⟨[], .ok 0, call.disk⟩ }

def slicedRun (products : List ByteArray) (inside : Bool) : Except Fault Subject × Site :=
  (sampleBench inside).pass.run (slicing products) (sampleBench inside).settings
    (sampleBench inside).subject sampleCriteria (sampleSite inside)

theorem slicedRun_eq (products : List ByteArray) (inside : Bool) :
    (sampleBench inside).pass.run (slicing products) (sampleBench inside).settings
      (sampleBench inside).subject sampleCriteria (sampleSite inside) =
        ((slicedRun products inside).1, (slicedRun products inside).2) := by
  unfold slicedRun
  exact (Prod.eta _).symm

def samplePlaces : List Location :=
  [["w", "static_input_0.c"], ["w", "static_input_1.c"], ["w", "slice_lines.txt"],
   ["w", "static_slice_0.txt"], ["w", "static_slice_1.txt"], ["w", "unification.txt"],
   ["w", "slice.c"], ["w", "adjustedLineNumber.txt"]]

section

variable (inside : Bool)

theorem sampleBench_uses {P : Location} (h : (sampleBench inside).Uses P) : P ∈ samplePlaces := by
  have hindex {i : Nat} (hi : i < (sampleBench inside).count) : i = 0 ∨ i = 1 := by
    have hi : i < 2 := hi
    omega
  cases h with
  | mounted hb => cases hb
  | file h =>
    cases h with
    | lines | union | extract | extractLine => cases inside <;> decide
    | input hi => rcases hindex hi with rfl | rfl <;> cases inside <;> decide +kernel
    | slice hi => rcases hindex hi with rfl | rfl <;> cases inside <;> decide +kernel

theorem sampleBench_fits : (sampleBench inside).Fits := by
  have hplace {P : Location} (h : (sampleBench inside).Uses P ∨ (sampleBench inside).Mount P) :
      P ∈ samplePlaces := h.elim (sampleBench_uses inside) fun hmount => nomatch hmount.1
  have hfits : ∀ P ∈ samplePlaces, checkText (pathOf P).text = .ok () ∧
      ∀ n ∈ P, n.utf8ByteSize ≤ nameLimit := by decide
  exact ⟨fun P hP => (hfits P (hplace hP)).1, fun P hP => (hfits P (hplace hP)).2,
    (fun hb => nomatch hb), fun hb => nomatch hb⟩

theorem slicing_behaves (products : List ByteArray) :
    (sampleBench inside).Behaves (slicing products) where
  slicer before name i c d _ := by
    have hput : Alters d (d.put ["w", Artifacts.sliceLinesFile] (.file d.nextId
      (products.getD before.length ByteArray.empty) false)) _ _ := alters_put (by decide) _
    exact .of_alters rfl hput (.inr ⟨_, _, _, hput.self⟩)
  removal _ _ _ := ⟨rfl, fun _ => rfl⟩

theorem leftBy_slicing (products : List ByteArray) (before : List Call) (name : String) (i : Nat)
    (c : Criterion) (d : Disk) :
    leftBy (slicing products) before ((sampleBench inside).call name i c d)
      (sampleBench inside).product = some (products.getD before.length ByteArray.empty) := by
  have hput : Alters d (d.put ["w", Artifacts.sliceLinesFile] (.file d.nextId
    (products.getD before.length ByteArray.empty) false)) _ _ := alters_put (by decide) _
  have hleft : ((slicing products).launch before
      ((sampleBench inside).call name i c d)).disk.get? (sampleBench inside).product = some _ :=
    hput.self
  unfold leftBy
  rw [hleft]
  rfl

theorem sampleBench_ready : (sampleBench inside).Ready (sampleSite inside).world.disk where
  entered := ⟨Reached.nil.push rfl (by decide) (by decide), by cases inside <;> decide⟩
  free P hP := by
    have hfree : ∀ P ∈ samplePlaces, (slicedDisk inside).get? P ≠ some .dir := by
      cases inside <;> decide
    exact hfree P (sampleBench_uses inside hP)
  mounted hb := nomatch hb
  not_link hb := nomatch hb

end

theorem sampleBench_sourced :
    (sampleBench false).Sourced "int x;\n" (sampleSite false).world.disk := by
  have hclear : (slicedDisk false).Clear ["in", "a.c"] :=
    (straight_of_entries (by decide)).self
  refine ⟨["in", "a.c"], 0, _, false, fromUTF8?_toUTF8 _, fun d' h => ?_⟩
  refine h.stat (fun P hP => ?_) (by decide) hclear (by decide +kernel)
  have hplaces : ∀ P ∈ samplePlaces, ¬ P <+: ["in", "a.c"] := by decide
  exact hplaces P (sampleBench_uses false hP)

/-- Two products with one line each. -/
def oneLine : List ByteArray := ["1\n".toUTF8, "1\n".toUTF8]

/-- A product with a line, and one that is not text. -/
def mixed : List ByteArray := ["1\n".toUTF8, ⟨#[255]⟩]

theorem oneLine_leavesText (inside : Bool) : (sampleBench inside).LeavesText (slicing oneLine) := by
  intro before name i c d content h
  rw [leftBy_slicing] at h
  obtain rfl := Option.some.inj h
  rcases before.length with _ | _ | n
  · decide +kernel
  · decide +kernel
  · show (String.fromUTF8? ByteArray.empty).isSome = true
    decide +kernel

theorem run_hands_sampleUnion :
    let b := sampleBench false
    let g := b.pass.given b.settings b.subject "int x;\n" sampleCriteria
    ∃ turns ns,
      b.Course (slicing oneLine) g (b.Blocked (slicedDisk false)) [] 0 sampleCriteria turns ∧
      ns.Pairwise (· < ·) ∧
      (∀ n, n ∈ ns ↔ 1 ≤ n ∧ ∃ t ∈ turns, ∃ content text, t.left = some content ∧
        String.fromUTF8? content = some text ∧ g.place n ∈ readLineNumbers text) ∧
      b.Ending ns ([] ++ callsOf turns) (slicedRun oneLine false).2.world.calls
        (slicedRun oneLine false).1 := by
  have hle : (sampleBench false).subject.failureLine ≤ lineCount "int x;\n" := by decide
  exact run_hands_union (sampleBench_fits false) (slicing_behaves false oneLine)
    (oneLine_leavesText false) (by decide) hle rfl rfl (sampleBench_ready false) sampleBench_sourced
    (slicedRun_eq oneLine false)

/-- A program that has the name of the copy for the second criterion is removed, and with a slice for
the first one the pass fails, for another reason than an empty union, and without a call of the
extractor. -/
theorem run_removes_subject :
    let b := sampleBench true
    b.Fits ∧ b.Behaves (slicing oneLine) ∧ b.LeavesText (slicing oneLine) ∧
      b.Ready (sampleSite true).world.disk ∧
      (slicedDisk true).readText b.subject.source = .ok "int x;\n" ∧
      1 ≤ b.subject.failureLine ∧ b.subject.failureLine ≤ lineCount "int x;\n" ∧
      (slicedRun oneLine true).2.world.calls.map (fun call =>
        (call.program, leftBy (slicing oneLine) [] call b.product)) =
          [(⟨"StaticSlicer"⟩, some "1\n".toUTF8)] ∧
      (slicedRun oneLine true).1 = .error (.io (.system .notFound)) ∧
      (slicedRun oneLine true).2.world.disk.readText b.subject.source =
        .error (.system .notFound) := by
  refine ⟨sampleBench_fits true, slicing_behaves true oneLine, oneLine_leavesText true,
    sampleBench_ready true, ?_, ?_, ?_, ?_, ?_, ?_⟩ <;> decide +kernel

theorem run_skips_sampleFailures :
    let b := sampleBench false
    let g := b.pass.given b.settings b.subject "int x;\n" sampleCriteria
    ∃ done turns, done <+: sampleCriteria ∧
      b.Course (slicing oneLine) g (b.Blocked (slicedDisk false)) [] 0 done turns ∧
      ((∀ t ∈ turns, t.Readable) → done = sampleCriteria ∧
        ∀ t ∈ turns, ∀ ns, t.slice g = some ns → ns ≠ [] → ∃ d,
          d.readText (pathOf b.union) =
            .ok (writeLineNumbers (ascending (turns.filterMap (Turn.slice g)).flatten)) ∧
          (slicedRun oneLine false).2.world.calls = [] ++ callsOf turns ++ [b.cutting d]) ∧
      (¬ (∀ t ∈ turns, t.Readable) → (slicedRun oneLine false).1 = .error (.io .notText) ∧
        (slicedRun oneLine false).2.world.calls = [] ++ callsOf turns ∧
        ∃ front t, turns = front ++ [t] ∧ (∀ t ∈ front, t.Readable) ∧ ¬ t.Readable) := by
  have hle : (sampleBench false).subject.failureLine ≤ lineCount "int x;\n" := by decide
  exact run_skips_failures (sampleBench_fits false) (slicing_behaves false oneLine) (by decide) hle
    rfl rfl (sampleBench_ready false) sampleBench_sourced (slicedRun_eq oneLine false)

/-- The first criterion has a slice, the second one a product that is not text, and the pass fails
without a call of the extractor. -/
theorem run_ends_unreadable :
    let b := sampleBench false
    b.Fits ∧ b.Behaves (slicing mixed) ∧ b.Ready (sampleSite false).world.disk ∧
      b.Sourced "int x;\n" (sampleSite false).world.disk ∧
      (slicedRun mixed false).2.world.calls.map Call.program =
        [⟨"StaticSlicer"⟩, ⟨"StaticSlicer"⟩] ∧
      ((slicedRun mixed false).2.world.calls[0]?.bind fun call =>
        leftBy (slicing mixed) [] call b.product) = some "1\n".toUTF8 ∧
      ((slicedRun mixed false).2.world.calls[1]?.bind fun call =>
        leftBy (slicing mixed) ((slicedRun mixed false).2.world.calls.take 1) call b.product) =
          some ⟨#[255]⟩ ∧
      (slicedRun mixed false).1 = .error (.io .notText) := by
  refine ⟨sampleBench_fits false, slicing_behaves false mixed, sampleBench_ready false,
    sampleBench_sourced, ?_, ?_, ?_, ?_⟩ <;> decide +kernel

end Whittle.Pipeline
