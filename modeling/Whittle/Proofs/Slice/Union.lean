import Mathlib.Data.List.Forall2
import Mathlib.Data.List.Sort
import Whittle.Proofs.Action
import Whittle.Proofs.Disk.Copy
import Whittle.Proofs.Slice.Numbers

/-!
# The union of slice files

`unify` answers the line numbers of the files that can be read, in ascending order, and leaves them
written in its output (`United`). Which files there are matters only through the numbers in them,
and its output, taken as the only slice, is its own union (`unify_unites`).
-/

namespace Whittle.Slice

open Text Disk

/-! ## Unions of files -/

/-- The numbers in each of the files that can be read. -/
def contents (d : Disk) (files : List Path) : List (List Nat) :=
  files.filterMap fun p =>
    match d.readText p with
    | .ok s => some (readLineNumbers s)
    | .error _ => none

/-- What is reported of the files that cannot be read. -/
def complaints (d : Disk) (files : List Path) : List Notice :=
  files.filterMap fun p =>
    match d.readText p with
    | .ok _ => none
    | .error e => some ⟨.warning, "Skipping slice " ++ p.text ++ ": " ++ (Fault.io e).message⟩

/-- The world with the files reported that cannot be read. -/
def complained (w : World) (files : List Path) : World :=
  { w with notices := w.notices ++ complaints w.disk files }

theorem gather_apply (files : List Path) (w : World) :
    gather files w = (.ok ((contents w.disk files).length, (contents w.disk files).flatten),
      complained w files) := by
  induction files generalizing w with
  | nil => simp [gather, contents, complaints, complained]; rfl
  | cons p ps ih =>
    have hattempt : Action.attempt (load p) w = (.ok (load p w).1, (load p w).2) := rfl
    rw [load_apply] at hattempt
    unfold gather
    cases hread : w.disk.readText p with
    | ok s =>
      rw [hread] at hattempt
      rw [bind_of_ok hattempt]
      have hworld : complained w (p :: ps) = complained w ps := by
        simp [complained, complaints, hread]
      have hcontents : contents w.disk (p :: ps) = readLineNumbers s :: contents w.disk ps := by
        simp [contents, hread]
      rw [hworld, hcontents]
      exact bind_of_ok (ih w)
    | error e =>
      rw [hread] at hattempt
      rw [bind_of_ok hattempt]
      have hcontents : contents w.disk (p :: ps) = contents w.disk ps := by
        simp [contents, hread]
      let w₁ := complained w [p]
      have hwarn : Action.warn ("Skipping slice " ++ p.text ++ ": " ++ (Fault.io e).message) w =
          (.ok (), w₁) := by
        simp only [w₁, complained, complaints, List.filterMap_cons, hread, List.filterMap_nil]
        rfl
      have hworld : complained w (p :: ps) = complained w₁ ps := by
        simp [w₁, complained, complaints, hread]
      rw [hworld, hcontents]
      exact (bind_of_ok hwarn).trans (ih w₁)

/-- The union of the files that can be read is written, unless there is no number in any. -/
theorem unify_eq (files : List Path) (output : Path) (w : World) :
    unify files output w =
      if files = [] then (.error .nothingToUnify, w)
      else if contents w.disk files = [] then (.error .nothingReadable, complained w files)
      else if ascending (contents w.disk files).flatten = [] then
        (.error .emptyUnion, complained w files)
      else (store output (ascending (contents w.disk files).flatten) >>= fun _ =>
        pure (ascending (contents w.disk files).flatten)) (complained w files) := by
  unfold unify
  split
  · rfl
  · show (gather files >>= _) w = _
    rw [bind_of_ok (gather_apply files w)]
    simp only [List.length_eq_zero_iff]
    split
    · rfl
    · split <;> rfl

/-- Files that hold lists of line numbers. -/
def Hold (d : Disk) (files : List Path) (nss : List (List Nat)) : Prop :=
  List.Forall₂ (fun p ns => d.readText p = .ok (writeLineNumbers ns) ∧ ∀ n ∈ ns, IsLine n) files nss

theorem Hold.contents_eq {d : Disk} {files : List Path} {nss : List (List Nat)}
    (h : Hold d files nss) : contents d files = nss ∧ complaints d files = [] := by
  induction h with
  | nil => exact ⟨rfl, rfl⟩
  | @cons p ns ps nss hp _ ih =>
    have hread := readLineNumbers_writeLineNumbers hp.2
    have hcontents : contents d (p :: ps) = ns :: contents d ps := by simp [contents, hp.1, hread]
    have hcomplaints : complaints d (p :: ps) = complaints d ps := by simp [complaints, hp.1]
    exact ⟨hcontents.trans (congrArg _ ih.1), hcomplaints.trans ih.2⟩

/-- The union of files is made, unless there is no file or no number in any. -/
theorem unify_apply {files : List Path} {nss : List (List Nat)} {w : World}
    (h : Hold w.disk files nss) (output : Path) :
    unify files output w =
      if files = [] then (.error .nothingToUnify, w)
      else if ascending nss.flatten = [] then (.error .emptyUnion, w)
      else (store output (ascending nss.flatten) >>= fun _ => pure (ascending nss.flatten)) w := by
  obtain ⟨hcontents, hcomplaints⟩ := h.contents_eq
  have hworld : complained w files = w := by simp [complained, hcomplaints]
  have hnil : files ≠ [] → nss ≠ [] := by
    rintro hfiles rfl
    exact hfiles (List.forall₂_nil_right_iff.mp h)
  rw [unify_eq, hcontents, hworld]
  by_cases hfiles : files = []
  · rw [if_pos hfiles, if_pos hfiles]
  · rw [if_neg hfiles, if_neg hfiles, if_neg (hnil hfiles)]

/-! ## Numbers in files that can be read -/

/-- A number on a line of a file that can be read. -/
def InSome (d : Disk) (files : List Path) (n : Nat) : Prop :=
  ∃ p ∈ files, ∃ s, d.readText p = .ok s ∧ n ∈ readLineNumbers s

/-- The numbers are the union of the files, each once and in order, and what is written of them is
all that the output holds, unless it is a device. -/
structure United (d : Disk) (files : List Path) (output : Path) (ns : List Nat) (d' : Disk) :
    Prop where
  ascending : ns.Pairwise (· < ·)
  mem : ∀ n, n ∈ ns ↔ InSome d files n
  stored : ¬ d.IsDevice output → d'.read output = .ok (writeLineNumbers ns).toUTF8

variable {d d' : Disk} {files files' : List Path} {output : Path} {ns : List Nat} {w w' : World}

theorem mem_contents {ns : List Nat} :
    ns ∈ contents d files ↔ ∃ p ∈ files, ∃ s, d.readText p = .ok s ∧ readLineNumbers s = ns := by
  rw [contents, List.mem_filterMap]
  refine exists_congr fun p => and_congr_right fun _ => ?_
  cases d.readText p with
  | ok s => simp
  | error e => simp

theorem contents_eq_nil : contents d files = [] ↔ ¬ ∃ p ∈ files, ∃ s, d.readText p = .ok s := by
  rw [List.eq_nil_iff_forall_not_mem, not_exists]
  simp only [mem_contents]
  refine ⟨fun h p hp => ?_, fun h ns hns => ?_⟩
  · obtain ⟨hp, s, hs⟩ := hp
    exact h _ ⟨p, hp, s, hs, rfl⟩
  · obtain ⟨p, hp, s, hs, -⟩ := hns
    exact h p ⟨hp, s, hs⟩

/-- The numbers in the files that can be read, in ascending order. -/
def unionOf (d : Disk) (files : List Path) : List Nat := Slice.ascending (contents d files).flatten

theorem mem_unionOf {n : Nat} : n ∈ unionOf d files ↔ InSome d files n := by
  rw [unionOf, mem_ascending, List.mem_flatten]
  simp only [mem_contents, InSome]
  constructor
  · rintro ⟨_, ⟨p, hp, s, hs, rfl⟩, hn⟩
    exact ⟨p, hp, s, hs, hn⟩
  · rintro ⟨p, hp, s, hs, hn⟩
    exact ⟨_, ⟨p, hp, s, hs, rfl⟩, hn⟩

theorem unionOf_eq_nil : unionOf d files = [] ↔ ¬ ∃ n, InSome d files n := by
  rw [List.eq_nil_iff_forall_not_mem, not_exists]
  simp only [mem_unionOf]

theorem InSome.isLine {n : Nat} (h : InSome d files n) : IsLine n := by
  obtain ⟨_, _, _, _, hn⟩ := h
  exact isLine_of_mem hn

theorem isLine_of_mem_unionOf : ∀ n ∈ unionOf d files, IsLine n :=
  fun _ hn => (mem_unionOf.mp hn).isLine

/-- Files that cannot be read, the order of files and their repetitions do not matter. -/
theorem unionOf_congr (h : ∀ p s, d.readText p = .ok s → (p ∈ files' ↔ p ∈ files)) :
    unionOf d files' = unionOf d files := by
  refine List.Pairwise.eq_of_mem_iff (pairwise_ascending _) (pairwise_ascending _) fun n => ?_
  show n ∈ unionOf d files' ↔ n ∈ unionOf d files
  rw [mem_unionOf, mem_unionOf]
  refine exists_congr fun p => ?_
  constructor
  · rintro ⟨hp, s, hs, hn⟩
    exact ⟨(h p s hs).mp hp, s, hs, hn⟩
  · rintro ⟨hp, s, hs, hn⟩
    exact ⟨(h p s hs).mpr hp, s, hs, hn⟩

/-! ## What becomes of the output -/

theorem writable_of_write {p : Path} {content : ByteArray} {x : Bool}
    (h : d.write p content x = .ok d') : d'.Writable p := by
  obtain ⟨l, n, hl, htakes, halters⟩ := write_ok h
  refine ⟨l, (ways_write h).locate hl, ?_, fun target => ?_⟩
  · rw [halters.self]
    rcases htakes with rfl | ⟨_, _, rfl⟩ <;> nofun
  · rw [halters.self]
    exact htakes.not_link target

/-- Where the output can be written, there is a union unless there is no number. -/
theorem unify_outcome (files : List Path) (hout : w.disk.Writable output) :
    (¬ (∃ n, InSome w.disk files n) ∧ ∃ e w', unify files output w = (.error e, w') ∧
      w'.disk = w.disk ∧ e.kind = .unification) ∨
    (∃ n, InSome w.disk files n) ∧ ∃ d' w',
      w.disk.write output (writeLineNumbers (unionOf w.disk files)).toUTF8 false = .ok d' ∧
      unify files output w = (.ok (unionOf w.disk files), w') ∧ w'.disk = d' := by
  have hunify := unify_eq files output w
  rw [show Slice.ascending (contents w.disk files).flatten = unionOf w.disk files from rfl]
    at hunify
  by_cases hsome : ∃ n, InSome w.disk files n
  · -- a number stands in a file, which can be read
    obtain ⟨n, p, hp, s, hs, hn⟩ := hsome
    have hfiles : files ≠ [] := List.ne_nil_of_mem hp
    have hcontents : contents w.disk files ≠ [] :=
      fun e => contents_eq_nil.mp e ⟨p, hp, s, hs⟩
    have hunion : unionOf w.disk files ≠ [] := fun e => unionOf_eq_nil.mp e ⟨n, p, hp, s, hs, hn⟩
    have hout' : (complained w files).disk.Writable output := hout
    obtain ⟨d', hwrite, hstore⟩ := store_apply hout' (unionOf w.disk files)
    rw [if_neg hfiles, if_neg hcontents, if_neg hunion, bind_of_ok hstore] at hunify
    exact .inr ⟨⟨n, p, hp, s, hs, hn⟩, d', _, hwrite, hunify, rfl⟩
  · refine .inl ⟨hsome, ?_⟩
    rw [if_pos (unionOf_eq_nil.mpr hsome)] at hunify
    split at hunify
    · exact ⟨_, _, hunify, rfl, rfl⟩
    · split at hunify
      · exact ⟨_, _, hunify, rfl, rfl⟩
      · exact ⟨_, _, hunify, rfl, rfl⟩

theorem unify_ok_iff (hout : w.disk.Writable output) :
    (∃ ns w', unify files output w = (.ok ns, w')) ↔ ∃ n, InSome w.disk files n := by
  rcases unify_outcome files hout with ⟨hnone, e, w', h, -⟩ | ⟨hsome, d', w', -, h, -⟩
  · refine ⟨fun ⟨ns, w'', h'⟩ => ?_, fun hsome => absurd hsome hnone⟩
    cases h.symm.trans h'
  · exact ⟨fun _ => hsome, fun _ => ⟨_, _, h⟩⟩

theorem unify_eq_ok (hout : w.disk.Writable output) (h : unify files output w = (.ok ns, w')) :
    ns = unionOf w.disk files ∧
      w.disk.write output (writeLineNumbers ns).toUTF8 false = .ok w'.disk := by
  rcases unify_outcome files hout with ⟨-, e, w'', h', -⟩ | ⟨-, d', w'', hwrite, h', hdisk⟩
  · cases h'.symm.trans h
  · cases h'.symm.trans h
    exact ⟨rfl, hdisk ▸ hwrite⟩

theorem united_of_unify (hout : w.disk.Writable output)
    (h : unify files output w = (.ok ns, w')) : United w.disk files output ns w'.disk := by
  obtain ⟨rfl, hwrite⟩ := unify_eq_ok hout h
  exact ⟨pairwise_ascending _, fun _ => mem_unionOf, read_write hwrite⟩

/-- A file that holds what is written of the numbers of a union holds that union. -/
theorem unionOf_singleton {p : Path} (hread : d'.read p = .ok (writeLineNumbers ns).toUTF8)
    (hns : ns = unionOf d files) : unionOf d' [p] = ns := by
  have hback : readLineNumbers (writeLineNumbers ns) = ns :=
    readLineNumbers_writeLineNumbers (hns ▸ isLine_of_mem_unionOf)
  have hcontents : contents d' [p] = [ns] := by
    simp [contents, readText_of_read hread (fromUTF8?_toUTF8 _), hback]
  rw [unionOf, hcontents, List.flatten_singleton, hns]
  refine List.Pairwise.eq_of_mem_iff (pairwise_ascending _) (pairwise_ascending _) fun n => ?_
  exact mem_ascending

/-- The output of a union, taken as the only slice, is united to the same. -/
theorem unify_again (hout : w.disk.Writable output) (hdevice : ¬ w.disk.IsDevice output)
    (h : unify files output w = (.ok ns, w')) {again : Path} (hagain : w'.disk.Writable again) :
    ∃ w'', unify [output] again w' = (.ok ns, w'') ∧ (¬ w'.disk.IsDevice again →
      w''.disk.read again = .ok (writeLineNumbers ns).toUTF8) := by
  obtain ⟨hns, hwrite⟩ := unify_eq_ok hout h
  have hsame : unionOf w'.disk [output] = ns := unionOf_singleton (read_write hwrite hdevice) hns
  have hsome : ∃ n, InSome w'.disk [output] n := by
    obtain ⟨n, hn⟩ := (unify_ok_iff hout).mp ⟨ns, w', h⟩
    exact ⟨n, mem_unionOf.mp (hsame ▸ hns ▸ mem_unionOf.mpr hn)⟩
  obtain ⟨ns', w'', h'⟩ := (unify_ok_iff hagain).mpr hsome
  obtain ⟨rfl, hwrite'⟩ := unify_eq_ok hagain h'
  rw [hsame] at h' hwrite'
  exact ⟨w'', h', read_write hwrite'⟩

/-- Uniting slice files to an output that can be written: it succeeds exactly if some file can be
read and there is a number in one that can; else nothing is written. Then the answer is the union in
ascending order, the output holds one number a line and is read back as the same numbers, also by a
second union that is given nothing else. The same comes of all lists that have the same files among
those that can be read. -/
theorem unify_unites (files : List Path) (output : Path) (w : World)
    (hout : w.disk.Writable output) :
    ((∃ ns w', unify files output w = (.ok ns, w')) ↔
      (∃ p ∈ files, ∃ s, w.disk.readText p = .ok s) ∧ ∃ n, InSome w.disk files n) ∧
    (∀ e w', unify files output w = (.error e, w') →
      w'.disk = w.disk ∧ e.kind = .unification) ∧
    ∀ ns w', unify files output w = (.ok ns, w') →
      United w.disk files output ns w'.disk ∧
      lines (writeLineNumbers ns) = ns.map natText ∧
      readLineNumbers (writeLineNumbers ns) = ns ∧
      (¬ w.disk.IsDevice output → w'.disk.Writable output ∧
        ∀ again, w'.disk.Writable again → ∃ w'', unify [output] again w' = (.ok ns, w'') ∧
          (¬ w'.disk.IsDevice again →
            w''.disk.read again = .ok (writeLineNumbers ns).toUTF8)) ∧
      ∀ files', (∀ p s, w.disk.readText p = .ok s → (p ∈ files' ↔ p ∈ files)) →
        ∃ w'', unify files' output w = (.ok ns, w'') ∧ w''.disk = w'.disk := by
  refine ⟨?_, fun e w' h => ?_, fun ns w' h => ?_⟩
  · rw [unify_ok_iff hout]
    refine ⟨fun hsome => ⟨?_, hsome⟩, fun h => h.2⟩
    obtain ⟨_, p, hp, s, hs, -⟩ := hsome
    exact ⟨p, hp, s, hs⟩
  · rcases unify_outcome files hout with ⟨-, e', w'', h', hleft⟩ | ⟨-, _, _, -, h', -⟩
    · cases h'.symm.trans h
      exact hleft
    · cases h'.symm.trans h
  · obtain ⟨hns, hwrite⟩ := unify_eq_ok hout h
    have hback : readLineNumbers (writeLineNumbers ns) = ns :=
      readLineNumbers_writeLineNumbers (hns ▸ isLine_of_mem_unionOf)
    refine ⟨united_of_unify hout h, lines_writeLineNumbers ns, hback,
      fun hdevice => ⟨writable_of_write hwrite, fun again => unify_again hout hdevice h⟩,
      fun files' hfiles' => ?_⟩
    have hsame := unionOf_congr hfiles'
    obtain ⟨n, hn⟩ := (unify_ok_iff hout).mp ⟨ns, w', h⟩
    have hsome : ∃ n, InSome w.disk files' n := ⟨n, mem_unionOf.mp (hsame ▸ mem_unionOf.mpr hn)⟩
    obtain ⟨ns', w'', h'⟩ := (unify_ok_iff hout).mpr hsome
    obtain ⟨rfl, hwrite'⟩ := unify_eq_ok hout h'
    rw [hsame, ← hns] at h' hwrite'
    exact ⟨w'', h', Except.ok.inj (hwrite'.symm.trans hwrite)⟩

/-- Two slices with noise in them, and a file that is not text. -/
def sampleSlices : Disk where
  entries := [(["a.txt"], .file 0 "3\n0\n1\n".toUTF8 false),
    (["b.txt"], .file 1 "x\n 3 \r\n4294967296\n".toUTF8 false), (["c.txt"], .file 2 ⟨#[255]⟩ false)]
  cwd := []
  nextId := 3
  locked := []

def sampleFiles : List Path := [⟨"/b.txt"⟩, ⟨"/missing.txt"⟩, ⟨"/a.txt"⟩, ⟨"/c.txt"⟩, ⟨"/b.txt"⟩]

theorem unify_unites_sampleFiles :
    sampleSlices.Writable ⟨"/o.txt"⟩ ∧ ∃ w',
      unify sampleFiles ⟨"/o.txt"⟩ (.ofDisk sampleSlices) = (.ok [1, 3], w') ∧
      United sampleSlices sampleFiles ⟨"/o.txt"⟩ [1, 3] w'.disk ∧
      ∃ w'', unify [⟨"/a.txt"⟩, ⟨"/b.txt"⟩] ⟨"/o.txt"⟩ (.ofDisk sampleSlices) = (.ok [1, 3], w'') ∧
        w''.disk = w'.disk := by
  have hout : sampleSlices.Writable ⟨"/o.txt"⟩ := by
    refine ⟨["o.txt"], by decide +kernel, by decide +kernel, fun target => ?_⟩
    rw [show sampleSlices.get? ["o.txt"] = none by decide +kernel]
    nofun
  obtain ⟨w', h⟩ : ∃ w', unify sampleFiles ⟨"/o.txt"⟩ (.ofDisk sampleSlices) = (.ok [1, 3], w') :=
    ⟨_, Prod.ext (by decide +kernel) rfl⟩
  have hunites := unify_unites sampleFiles _ (.ofDisk sampleSlices) hout
  obtain ⟨hunited, -, -, -, hsame⟩ := hunites.2.2 _ _ h
  have hunreadable : ∀ p ∈ sampleFiles, p ∉ [⟨"/a.txt"⟩, ⟨"/b.txt"⟩] →
      (sampleSlices.readText p).isOk = false := by decide +kernel
  refine ⟨hout, w', h, hunited, hsame _ fun p s hs => ⟨fun hp => ?_, fun hp => ?_⟩⟩
  · rcases List.mem_pair.mp hp with rfl | rfl <;> decide +kernel
  · by_contra hother
    have := hunreadable p hp hother
    rw [show sampleSlices.readText p = .ok s from hs] at this
    cases this

end Whittle.Slice
