import Whittle.Proofs.Pipeline.Adoption
import Whittle.Proofs.Slice.Numbers
import Whittle.Proofs.Workspace.Acquire
import Whittle.Proofs.Workspace.Placing

/-!
# Which products are adopted

A stage that adopts a program calls one tool, at most once, and finds nothing where the tool leaves
its product and where it reports the failure line. `Verdict` says that such a stage answers with a
program exactly if the tool exits with zero and leaves a `Good` product, that the program is that
product, and that what the source leads to is as it was in every case.
-/

namespace Whittle

open Disk

/-- The second disk differs from the first only at some places and below them, and no link stands
there. -/
structure Disk.ChangesAt (T : Location → Prop) (d d' : Disk) : Prop where
  cwd : d'.cwd = d.cwd
  keep : ∀ l, (∀ P, T P → ¬ P <+: l) → d'.get? l = d.get? l
  unlinked : ∀ P, T P → ∀ l target, P <+: l → d'.get? l ≠ some (.link target)

theorem Disk.ChangesAt.edits {T G : Location → Prop} {d d' : Disk} (h : ChangesAt T d d') :
    Edits (fun _ => False) G T d d' :=
  ⟨h.cwd, fun l hl => .inl (h.keep l hl), fun _ => False.elim⟩

theorem Disk.Linkless.changesAt {d : Disk} (h : d.Linkless) (T : Location → Prop) :
    ChangesAt T d d := ⟨rfl, fun _ _ => rfl, fun _ _ l target _ => h l target⟩

theorem Disk.ChangesAt.put {T : Location → Prop} {d d' : Disk} (h : ChangesAt T d d')
    {P : Location} (hP : T P) (hroot : P ≠ []) {n : Node} (hn : ∀ target, n ≠ .link target) :
    ChangesAt T d (d'.put P n) := by
  have hput := alters_put (d := d') hroot n
  refine ⟨h.cwd, fun l hl => ?_, fun Q hQ l target hprefix => ?_⟩
  · rw [hput.other fun e => hl P hP (e ▸ List.prefix_refl _)]
    exact h.keep l hl
  · rw [hput.get?]
    split
    · simpa using hn target
    · exact h.unlinked Q hQ l target hprefix

namespace Pipeline

open Text

/-! ## Good products -/

/-- A file at a place holds nothing but a positive decimal number that a line can have. -/
def Reports (d : Disk) (P : Location) (n : Nat) : Prop :=
  ∃ id content x text, d.get? P = some (.file id content x) ∧
    String.fromUTF8? content = some text ∧ trimChars text.toList ≠ [] ∧
    (∀ c ∈ trimChars text.toList, isDigit c = true) ∧
    digitsValue 0 (trimChars text.toList) = n ∧ 0 < n ∧ n < lineLimit

/-- The failure line after a call: the reported one, or else the one before. -/
def LineAfter (d : Disk) (P : Location) (old n : Nat) : Prop :=
  Reports d P n ∨ n = old ∧ ∀ m, ¬ Reports d P m

/-- A tool exits with zero and leaves a file that is text and not empty, and a stage settles on a
line of it: `settles` says which one, given the failure line and the number of lines. -/
structure Good (settles : Nat → Nat → Option Nat) (left report : Location) (old : Nat)
    (reply : Reply) (content : ByteArray) (line : Nat) : Prop where
  exit : reply.result = .ok 0
  file : ∃ id x, reply.disk.get? left = some (.file id content x)
  nonempty : content ≠ ByteArray.empty
  settled : ∃ text n, String.fromUTF8? content = some text ∧ LineAfter reply.disk report old n ∧
    settles n (lineCount text) = some line

/-- How a stage answers, and what it leaves: `left` is where the tool leaves its product, `report`
where it reports the failure line, `goal` where the program goes that is adopted, and `source` is what
the path of the program before leads to. -/
structure Verdict (host : Host) (tool : String) (settles : Nat → Nat → Option Nat)
    (left report goal : Location) (subject : Subject) (source : Location × Node)
    (before after : Site) (r : Except Fault Subject) : Prop where
  /-- At most one call is made, and it finds nothing where its products go. -/
  calls : ∃ made, after.world.calls = before.world.calls ++ made ∧ made.length ≤ 1 ∧
    ∀ call ∈ made, call.disk.get? left = none ∧ call.disk.get? report = none
  /-- There is a program exactly if the call leaves a good product. -/
  accepts : (∃ next, r = .ok next) ↔ ∃ call content line,
    after.world.calls = before.world.calls ++ [call] ∧
    Good settles left report subject.failureLine (host.launch before.world.calls call) content line
  /-- The program is the product. -/
  adopts : ∀ call content line, after.world.calls = before.world.calls ++ [call] →
    Good settles left report subject.failureLine (host.launch before.world.calls call) content line →
      r = .ok (subject.adopt (pathOf goal) line) ∧
        after.world.disk.read (pathOf goal) = .ok content
  /-- A tool that fails is what the stage fails with. -/
  exited : ∀ call code, after.world.calls = before.world.calls ++ [call] →
    (host.launch before.world.calls call).result = .ok code → code ≠ 0 →
      r = .error (.exited tool code)
  kept : after.world.disk.stat subject.source = .ok source

/-- What a stage makes of what its tool left. -/
inductive Judgement (tool : String) (settles : Nat → Nat → Option Nat)
    (left report goal : Location) (subject : Subject) (reply : Reply) :
    Except Fault Subject → Disk → Prop
  | adopted {content : ByteArray} {line : Nat} {d : Disk}
    (good : Good settles left report subject.failureLine reply content line)
    (holds : d.read (pathOf goal) = .ok content) :
    Judgement tool settles left report goal subject reply
      (.ok (subject.adopt (pathOf goal) line)) d
  | rejected {e : Fault} {d : Disk}
    (bad : ∀ content line, ¬ Good settles left report subject.failureLine reply content line)
    (exited : ∀ code, reply.result = .ok code → code ≠ 0 → e = .exited tool code) :
    Judgement tool settles left report goal subject reply (.error e) d

theorem Reports.unique {d : Disk} {P : Location} {n m : Nat} (hn : Reports d P n)
    (hm : Reports d P m) : n = m := by
  obtain ⟨id, content, x, text, hfile, htext, -, -, rfl, -⟩ := hn
  obtain ⟨id', content', x', text', hfile', htext', -, -, rfl, -⟩ := hm
  cases hfile.symm.trans hfile'
  cases htext.symm.trans htext'
  rfl

theorem LineAfter.unique {d : Disk} {P : Location} {old n m : Nat} (hn : LineAfter d P old n)
    (hm : LineAfter d P old m) : n = m := by
  rcases hn with hn | ⟨rfl, hn⟩
  · rcases hm with hm | ⟨-, hm⟩
    · exact hn.unique hm
    · exact absurd hn (hm n)
  · rcases hm with hm | ⟨rfl, -⟩
    · exact absurd hm (hn m)
    · rfl

/-- There is at most one good product, and one line of it. -/
theorem Good.unique {settles : Nat → Nat → Option Nat} {left report : Location} {old : Nat}
    {reply : Reply} {b c : ByteArray} {n m : Nat} (hb : Good settles left report old reply b n)
    (hc : Good settles left report old reply c m) : b = c ∧ n = m := by
  obtain ⟨-, ⟨id, x, hfile⟩, -, text, k, htext, hk, hn⟩ := hb
  obtain ⟨-, ⟨id', x', hfile'⟩, -, text', k', htext', hk', hm⟩ := hc
  cases hfile.symm.trans hfile'
  cases htext.symm.trans htext'
  cases hk.unique hk'
  exact ⟨rfl, Option.some.inj (hn.symm.trans hm)⟩

/-- What is good is the file that was left. -/
theorem Good.content_eq {settles : Nat → Nat → Option Nat} {left report : Location} {old : Nat}
    {reply : Reply} {b content : ByteArray} {n id : Nat} {x : Bool}
    (h : Good settles left report old reply b n)
    (hfile : reply.disk.get? left = some (.file id content x)) : b = content := by
  obtain ⟨id', x', hleft⟩ := h.file
  cases hfile.symm.trans hleft
  rfl

/-- What is good is text. -/
theorem Good.text {settles : Nat → Nat → Option Nat} {left report : Location} {old : Nat}
    {reply : Reply} {b content : ByteArray} {n id : Nat} {x : Bool}
    (h : Good settles left report old reply b n)
    (hfile : reply.disk.get? left = some (.file id content x)) :
    ∃ text k, String.fromUTF8? content = some text ∧ LineAfter reply.disk report old k ∧
      settles k (lineCount text) = some n :=
  h.content_eq hfile ▸ h.settled

namespace Judgement

variable {tool : String} {settles : Nat → Nat → Option Nat} {left report goal : Location}
  {subject : Subject} {reply : Reply}

/-- A tool that ends well but leaves no good product is not what the stage fails with. -/
theorem of_zero (hexit : reply.result = .ok 0)
    (bad : ∀ content line, ¬ Good settles left report subject.failureLine reply content line)
    (e : Fault) (d : Disk) :
    Judgement tool settles left report goal subject reply (.error e) d := by
  refine .rejected bad fun code hcode hne => ?_
  cases hexit.symm.trans hcode
  exact absurd rfl hne

theorem of_code {code : Int} (hexit : reply.result = .ok code) (hne : code ≠ 0) (d : Disk) :
    Judgement tool settles left report goal subject reply (.error (.exited tool code)) d := by
  refine .rejected (fun _ _ hgood => ?_) fun k hk _ => ?_
  · cases hexit.symm.trans hgood.exit
    exact hne rfl
  · cases hexit.symm.trans hk
    rfl

end Judgement

namespace Verdict

variable {host : Host} {tool : String} {settles : Nat → Nat → Option Nat}
  {left report goal : Location} {subject : Subject} {source : Location × Node}
  {before after : Site}

/-- A stage that fails before it calls its tool. -/
theorem uncalled (hcalls : after.world.calls = before.world.calls)
    (hkept : after.world.disk.stat subject.source = .ok source) (e : Fault) :
    Verdict host tool settles left report goal subject source before after (.error e) := by
  have hnone (call : Call) : after.world.calls ≠ before.world.calls ++ [call] := by simp [hcalls]
  exact {
    calls := ⟨[], by simp [hcalls], Nat.zero_le _, fun call h => (nomatch h)⟩
    accepts := ⟨fun ⟨_, h⟩ => (nomatch h), fun ⟨call, _, _, h, _⟩ => absurd h (hnone call)⟩
    adopts := fun call _ _ h => absurd h (hnone call)
    exited := fun call _ h => absurd h (hnone call)
    kept := hkept }

/-- A stage that judges what its only call left. -/
theorem judged {call : Call} (hcalls : after.world.calls = before.world.calls ++ [call])
    (hleft : call.disk.get? left = none) (hreport : call.disk.get? report = none)
    (hkept : after.world.disk.stat subject.source = .ok source) {r : Except Fault Subject}
    (h : Judgement tool settles left report goal subject (host.launch before.world.calls call) r
      after.world.disk) :
    Verdict host tool settles left report goal subject source before after r := by
  have honly {call' : Call} (h : after.world.calls = before.world.calls ++ [call']) :
      call' = call := by simpa [hcalls, eq_comm] using h
  refine ⟨⟨[call], hcalls, Nat.le_refl _, ?_⟩, ⟨?_, ?_⟩, ?_, ?_, hkept⟩
  · intro call' h
    rw [List.mem_singleton.mp h]
    exact ⟨hleft, hreport⟩
  · rintro ⟨next, rfl⟩
    cases h with
    | adopted good holds => exact ⟨call, _, _, hcalls, good⟩
  · rintro ⟨call', content, line, h', good'⟩
    cases honly h'
    cases h with
    | adopted good holds => exact ⟨_, rfl⟩
    | rejected bad exited => exact absurd good' (bad content line)
  · intro call' content line h' good'
    cases honly h'
    cases h with
    | adopted good holds =>
      obtain ⟨rfl, rfl⟩ := good.unique good'
      exact ⟨rfl, holds⟩
    | rejected bad exited => exact absurd good' (bad content line)
  · intro call' code h' hcode hne
    cases honly h'
    cases h with
    | adopted good holds =>
      cases hcode.symm.trans good.exit
      exact absurd rfl hne
    | rejected bad exited => rw [exited code hcode hne]

end Verdict

/-! ## Reported lines -/

section

variable {d : Disk} {P : Location} (hP : d.Handy P)
  (hlink : ∀ target, d.get? P ≠ some (.link target))
include hP hlink

theorem readSingleFile_eq_some {n : Nat} :
    Slice.readSingleFile d (pathOf P) = some n ↔ Reports d P n := by
  have hread {m : Node} (hn : d.get? P = some m) : d.stat (pathOf P) = .ok (P, m) :=
    hP.stat hn fun target e => hlink target (e ▸ hn)
  constructor
  · intro h
    unfold Slice.readSingleFile at h
    split at h
    · rename_i text htext
      obtain ⟨content, hcontent, hutf8⟩ := readText_eq_ok htext
      have hline := Slice.lineNumber_eq_some.mp h
      cases hn : d.get? P with
      | none =>
        rw [Disk.read, hP.stat_none hn] at hcontent
        cases hcontent
      | some m =>
        rw [Disk.read, hread hn] at hcontent
        cases m with
        | file id c x =>
          cases hcontent
          exact ⟨id, content, x, text, hn, hutf8, hline⟩
        | sink =>
          -- a device reads as nothing, and nothing is no number
          cases hcontent
          have hempty : String.fromUTF8? ByteArray.empty = some "" := by decide
          rw [hempty] at hutf8
          cases hutf8
          exact absurd rfl hline.1
        | dir => cases hcontent
        | link target => exact absurd hn (hlink target)
    · cases h
  · rintro ⟨id, content, x, text, hn, hutf8, hline⟩
    have hbytes : d.read (pathOf P) = .ok content := by rw [Disk.read, hread hn]
    have htext : d.readText (pathOf P) = .ok text := readText_of_read hbytes hutf8
    rw [Slice.readSingleFile, htext]
    exact Slice.lineNumber_eq_some.mpr hline

theorem lineAfter_iff {old n : Nat} :
    LineAfter d P old n ↔ n = (Slice.readSingleFile d (pathOf P)).getD old := by
  unfold LineAfter
  simp only [← readSingleFile_eq_some hP hlink]
  cases Slice.readSingleFile d (pathOf P) with
  | none => simp
  | some m => simp [eq_comm]

end

theorem lineAfter_congr {d d' : Disk} {P : Location} (h : d'.get? P = d.get? P) {old n : Nat} :
    LineAfter d' P old n ↔ LineAfter d P old n := by
  simp only [LineAfter, Reports, h]

/-! ## Texts -/

theorem lineChars_ne_nil {c : Char} {cs : List Char} : lineChars (c :: cs) ≠ [] := by
  induction cs generalizing c with
  | nil =>
    unfold lineChars
    split
    · exact List.cons_ne_nil _ _
    · rw [if_neg (by simp)]
      exact List.cons_ne_nil _ _
  | cons d ds ih =>
    unfold lineChars
    split
    · exact List.cons_ne_nil _ _
    · split
      · exact ih
      · split <;> exact List.cons_ne_nil _ _

/-- A text has a line unless it is empty. -/
theorem lineCount_pos {content : ByteArray} {text : String}
    (htext : String.fromUTF8? content = some text) :
    1 ≤ lineCount text ↔ content ≠ ByteArray.empty := by
  refine ⟨not_empty_of_lineCount htext, fun h => ?_⟩
  have hbytes : text.toUTF8 = content := by
    unfold String.fromUTF8? at htext
    split at htext <;> cases htext
    rfl
  cases hchars : text.toList with
  | nil =>
    rw [String.toList_eq_nil_iff] at hchars
    rw [hchars] at hbytes
    exact absurd hbytes.symm h
  | cons c cs =>
    rw [lineCount, hchars]
    exact List.length_pos_iff.mpr lineChars_ne_nil

theorem countLines_at (p : Path) (site : Site) :
    (liftM (countLines p) : Work Nat) site =
      ((match site.world.disk.readText p with
        | .ok text => .ok (lineCount text)
        | .error e => .error (.io e)), site) := by
  rw [Work.lift_apply, countLines]
  have hask := Action.ask_apply (·.readText p) site.world
  cases h : site.world.disk.readText p with
  | ok text =>
    simp only [h] at hask
    rw [bind_of_ok hask]
    rfl
  | error e =>
    simp only [h] at hask
    rw [bind_of_error hask]

section

variable {site : Site} {P : Location} {id : Nat} {content : ByteArray} {x : Bool}
  (hP : site.world.disk.Handy P) (hfile : site.world.disk.get? P = some (.file id content x))
include hP hfile

theorem countLines_of_bytes (htext : String.fromUTF8? content = none) :
    ∃ e, (liftM (countLines (pathOf P)) : Work Nat) site = (.error e, site) :=
  ⟨_, (countLines_at _ site).trans (by rw [readText_of_bytes hP hfile htext])⟩

theorem countLines_of_text {text : String} (htext : String.fromUTF8? content = some text) :
    (liftM (countLines (pathOf P)) : Work Nat) site = (.ok (lineCount text), site) :=
  (countLines_at _ site).trans (by rw [readText_of_file hP hfile htext])

end

/-! ## The call -/

/-- Where the failure line of a product is reported. -/
def reportAt (root : Location) : Location := root ++ [Artifacts.adjustedLineFile]

theorem path_single {w : Workspace} {root : Location} (hnames : ∀ n ∈ root, IsName n)
    (hroot : w.root = pathOf root) {n : String} (hn : IsName n) :
    w.path n = pathOf (root ++ [n]) := by
  have hsingle : n = String.intercalate "/" [n] := rfl
  exact Workspace.path_eq hnames hsingle (by simpa using hn) hroot

theorem path_reportAt {w : Workspace} {root : Location} (hnames : ∀ n ∈ root, IsName n)
    (hroot : w.root = pathOf root) : w.path Artifacts.adjustedLineFile = pathOf (reportAt root) :=
  path_single hnames hroot (by decide)

theorem reached_reportAt {d : Disk} {root : Location} (h : d.Entered root) :
    Reached d (reportAt root) :=
  h.reached.push h.dir (by decide) (by decide)

/-- The places of the two files that a tool leaves. -/
abbrev LeavesAt (left report : Location) (P : Location) : Prop := P = left ∨ P = report

/-- Before a call, the places of its two files are cleared, or one of their paths is refused. -/
theorem prepare_cases {G : Location → Prop} {site : Site} {left report : Location}
    {a b : String} {owner : Stage} {α : Type} {f : Path → Path → Work α}
    (hpath : ∀ w : Workspace, w.root = site.workspace.root →
      w.path a = pathOf left ∧ w.path b = pathOf report)
    (hreached : ∀ P, LeavesAt left report P → Reached site.world.disk P)
    (hfree : ∀ P, LeavesAt left report P → site.world.disk.get? P ≠ some .dir)
    (hapart : ¬ left <+: report ∧ ¬ report <+: left) {res : Except Fault α} {site' : Site}
    (h : (do
      let p ← Workspace.prepareOutput a owner
      let q ← Workspace.prepareOutput b owner
      f p q : Work α) site = (res, site')) :
    (SameCalls site site' ∧ (∃ e, res = .error e) ∧
      Edits (fun _ => False) G (LeavesAt left report) site.world.disk site'.world.disk) ∨
    ∃ s₁, SameCalls site s₁ ∧
      Edits (fun _ => False) G (LeavesAt left report) site.world.disk s₁.world.disk ∧
      (∀ P, LeavesAt left report P → s₁.world.disk.Handy P ∧ s₁.world.disk.get? P = none) ∧
      f (pathOf left) (pathOf report) s₁ = (res, site') := by
  have hcleared {P : Location} {s s' : Site} (hP : LeavesAt left report P)
      (hsets : Sets P none s s') :
      Edits (fun _ => False) G (LeavesAt left report) s.world.disk s'.world.disk :=
    (hsets.works (.inl hsets.alters.self)).edits.mono fun _ e => e ▸ hP
  have hne : report ≠ left := fun e => hapart.1 (e ▸ List.prefix_refl _)
  rcases bind_cases h with ⟨e, hleft, rfl⟩ | ⟨p, s₁, hleft, h⟩
  · cases prepareOutput_settles (hpath _ rfl).1 owner (hreached _ (.inl rfl)) (hfree _ (.inl rfl))
      hleft with
    | refused hsame hworld => exact .inl ⟨hsame, ⟨_, rfl⟩, hworld ▸ .refl _⟩
  cases prepareOutput_settles (hpath _ rfl).1 owner (hreached _ (.inl rfl)) (hfree _ (.inl rfl))
    hleft with
  | done hhandy hsets =>
    have hedits : Edits (fun _ => False) G (LeavesAt left report) site.world.disk s₁.world.disk :=
      hcleared (.inl rfl) hsets
    have hreached₁ : Reached s₁.world.disk report := hedits.reached hfree (hreached _ (.inr rfl))
    have hfree₁ : s₁.world.disk.get? report ≠ some .dir := by
      rw [hsets.alters.other hne]
      exact hfree _ (.inr rfl)
    rcases bind_cases h with ⟨e, hreport, rfl⟩ | ⟨q, s₂, hreport, h⟩
    · cases prepareOutput_settles (hpath _ hsets.root).2 owner hreached₁ hfree₁ hreport with
      | refused hsame hworld =>
        exact .inl ⟨hsets.toSameCalls.trans hsame, ⟨_, rfl⟩, hworld ▸ hedits⟩
    cases prepareOutput_settles (hpath _ hsets.root).2 owner hreached₁ hfree₁ hreport with
    | done hhandy₂ hsets₂ =>
      refine .inr ⟨s₂, hsets.toSameCalls.trans hsets₂.toSameCalls,
        hedits.trans (hcleared (.inr rfl) hsets₂), ?_, h⟩
      rintro P (rfl | rfl)
      · have hleft₁ : s₁.world.disk.Handy P := hsets.handy hhandy fun _ => rfl
        exact ⟨hsets₂.handy hleft₁ fun hP => absurd hP hapart.2,
          (hsets₂.alters.other hne.symm).trans hsets.alters.self⟩
      · exact ⟨hsets₂.handy hhandy₂ fun _ => rfl, hsets₂.alters.self⟩

/-- What a tool was called with: its places can be written to, and nothing stands there. -/
structure Called (host : Host) (G : Location → Prop) (left report : Location) (before after : Site)
    (call : Call) : Prop where
  calls : after.world.calls = before.world.calls ++ [call]
  disk : after.world.disk = (host.launch before.world.calls call).disk
  root : after.workspace.root = before.workspace.root
  edits : Edits (fun _ => False) G (LeavesAt left report) before.world.disk call.disk
  reached : ∀ P, LeavesAt left report P → call.disk.Handy P ∧ call.disk.get? P = none

/-- The call of a command whose places are cleared. -/
theorem called_of_run (host : Host) {G : Location → Prop} {left report : Location}
    {before site : Site} (hsame : SameCalls before site)
    (hedits : Edits (fun _ => False) G (LeavesAt left report) before.world.disk site.world.disk)
    (hcleared : ∀ P, LeavesAt left report P →
      site.world.disk.Handy P ∧ site.world.disk.get? P = none) (c : Command) (cwd : Path) :
    ∃ call after, Called host G left report before after call ∧
      (liftM (c.run host cwd) : Work Int) site =
        ((host.launch before.world.calls call).result, after) := by
  refine ⟨⟨c.program, c.argv, cwd, site.world.disk⟩, ((liftM (c.run host cwd) : Work Int) site).2,
    ⟨?_, ?_, hsame.root, hedits, hcleared⟩, ?_⟩
  all_goals rw [← hsame.calls]; rfl

namespace Called

variable {host : Host} {G : Location → Prop} {left report : Location} {before after : Site}
  {call : Call} (h : Called host G left report before after call)
  (htool : Disk.ChangesAt (LeavesAt left report) call.disk
    (host.launch before.world.calls call).disk)
include h htool

theorem worked : Edits (fun _ => False) G (LeavesAt left report) call.disk after.world.disk := by
  rw [h.disk]
  exact htool.edits

theorem edits_after :
    Edits (fun _ => False) G (LeavesAt left report) before.world.disk after.world.disk :=
  h.edits.trans (h.worked htool)

theorem handy {P : Location} (hP : LeavesAt left report P) : after.world.disk.Handy P := by
  refine ⟨(h.reached P hP).1.check, (h.worked htool).reached (fun Q hQ => ?_)
    (h.reached P hP).1.reached⟩
  rw [(h.reached Q hQ).2]
  exact nofun

theorem not_link {P : Location} (hP : LeavesAt left report P) (target : String) :
    after.world.disk.get? P ≠ some (.link target) := by
  rw [h.disk]
  exact htool.unlinked P hP P target (List.prefix_refl P)

/-- The line that is read afterwards is the reported one, or else the one before. -/
theorem line_after {d : Disk} (hreport : d.Handy report)
    (hget : d.get? report = after.world.disk.get? report) (old : Nat) :
    LineAfter (host.launch before.world.calls call).disk report old
      ((Slice.readSingleFile d (pathOf report)).getD old) := by
  rw [← h.disk]
  refine (lineAfter_congr hget).mp ((lineAfter_iff hreport fun target => ?_).mpr rfl)
  rw [hget]
  exact h.not_link htool (.inr rfl) target

end Called

/-- Beside the file of the reported line there can be every file whose name is not longer. -/
theorem handy_beside {d : Disk} {root : Location} (hroot : d.Entered root)
    (hreport : d.Handy (reportAt root)) {name : String} (hname : IsName name)
    (hnul : Lacks '\x00' name)
    (hsize : name.utf8ByteSize ≤ Artifacts.adjustedLineFile.utf8ByteSize) :
    d.Handy (root ++ [name]) := by
  have hlimit : Artifacts.adjustedLineFile.utf8ByteSize ≤ nameLimit := by decide
  refine hroot.handy hname (hsize.trans hlimit) ?_
  refine checkText_beside hreport.check (List.cons_ne_nil _ _) (by simpa using hnul) ?_
  rw [weight_cons, weight_cons]
  omega

/-! ### A tool that leaves two files -/

/-- A disk with a program of two lines, and a work directory with a failure line from before. -/
def workDisk : Disk where
  entries :=
    [(["in"], .dir), (["in", "a.c"], .file 0 "int x;\nint y;\n".toUTF8 false), (["w"], .dir),
     (["w", "adjustedLineNumber.txt"], .file 1 "1\n".toUTF8 false)]
  cwd := []
  nextId := 2
  locked := []

def workSite : Site where
  world := .ofDisk workDisk
  workspace := ⟨"1", pathOf ["w"], false, .empty, none, none⟩

def workSubject : Subject where
  source := ⟨"/in/a.c"⟩
  failureLine := 2
  language := .c
  arguments := ""

def workSettings : Settings := { sourceFile := ⟨"/in/a.c"⟩, line := 2 }

/-- Every call leaves a product and a failure line. -/
def leavingHost (left report : Location) (product line : ByteArray) : Host where
  launch _ call :=
    let d := call.disk.put left (.file call.disk.nextId product false)
    ⟨[], .ok 0, d.put report (.file (call.disk.nextId + 1) line false)⟩
  searchPath := none
  freshId n := natText n
  processId := 1
  now := (0, 0)

theorem changesAt_leavingHost {left report : Location} (hleft : left ≠ []) (hreport : report ≠ [])
    (product line : ByteArray) (before : List Call) {call : Call} (hd : call.disk.Linkless) :
    ChangesAt (LeavesAt left report) call.disk
      ((leavingHost left report product line).launch before call).disk :=
  ((hd.changesAt _).put (.inl rfl) hleft (by simp)).put (.inr rfl) hreport (by simp)

end Pipeline

end Whittle
